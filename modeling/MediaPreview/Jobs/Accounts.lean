import MediaPreview.Jobs.Flights

/-!
# Every file is accounted for

While a job is not cancelled each of its files is in one of the two queues, on its way, or
counted, once (`Accounts.files_perm`); `done_event` is set exactly when nothing is left
(`Accounts.done_iff`); and what `park_snapshot` lists together with the counts are all of the
job's files (`Accounts.parkSnapshot`). Each move keeps the accounts (`accounts_move`).
-/

namespace MediaPreview.Dispatch

open Parties

variable {ι : Type} {path : ι → String}

/-! ### The files of a job that is not cancelled -/

/-- No cancel is under way. -/
def Quiet (d : JobDispatcher ι) : Prop :=
  d.flagged = false ∧ d.tracker.cancelled = false ∧ d.begun = 0 ∧ d.drain = none ∧ d.ending = 0

/-- **Where the files of a job are** that is not cancelled. -/
structure Accounts (carried : ℕ) (d : JobDispatcher ι) : Prop where
  quiet : Quiet d
  /-- Every file is in one place. -/
  files : ∀ p : ι → Bool, d.tracker.checkQueue.countP p + d.tracker.itemQueue.countP p + holding d.flights p +
    d.recorded.countP p + d.parked.countP p = d.items.countP p
  /-- The counts are the files counted, now and before. -/
  counts : d.tracker.successful + d.tracker.failed = carried + d.recorded.length
  /-- A job is done when all files are counted. -/
  done : d.tracker.doneEvent = true → d.recorded.length = d.items.length
  /-- Only the last file sets `done_event`. -/
  announce : 0 < number d.flights Stage.announces → d.recorded.length = d.items.length
  /-- When all files are counted, the job is done or about to be. -/
  finished : d.recorded.length = d.items.length →
    d.tracker.doneEvent = true ∨ d.submitting = true ∧ d.items = [] ∨ 0 < number d.flights Stage.announces
  /-- Only parking takes files away. -/
  parked : d.tracker.detached = false → d.parked = []

theorem Quiet.isCancelled {d : JobDispatcher ι} (h : Quiet d) : d.isCancelled = false := by
  rw [JobDispatcher.isCancelled, h.1, h.2.1]
  rfl

theorem holding_true (flights : List (Flight ι)) : holding flights (fun _ => true) = number flights Stage.holds := by
  unfold holding number
  simp only [Bool.and_true]

namespace Accounts

variable {carried : ℕ} {d : JobDispatcher ι}

/-- How many files there are in each place. -/
theorem length (hd : Accounts carried d) :
    d.tracker.checkQueue.length + d.tracker.itemQueue.length + number d.flights Stage.holds + d.recorded.length +
      d.parked.length = d.items.length := by
  have hall := hd.files fun _ => true
  rwa [holding_true, List.countP_true] at hall

/-- While a file is on its way, the job is not over, and no other file was the last. -/
theorem not_over (hd : Accounts carried d) {i : ℕ} {f : Flight ι} (hf : d.flights[i]? = some f)
    (hholds : f.stage.holds = true) :
    d.tracker.doneEvent = false ∧ number d.flights Stage.announces = 0 ∧ d.recorded.length < d.items.length := by
  have hone := le_number hf Stage.holds
  have hlength := hd.length
  rw [hholds, Bool.toNat_true] at hone
  have hlt : d.recorded.length < d.items.length := by omega
  refine ⟨?_, ?_, hlt⟩
  · cases hdone : d.tracker.doneEvent with
    | false => rfl
    | true => exact absurd (hd.done hdone) (Nat.ne_of_lt hlt)
  · obtain hzero | hpos := Nat.eq_zero_or_pos (number d.flights Stage.announces)
    · exact hzero
    · exact absurd (hd.announce hpos) (Nat.ne_of_lt hlt)

end Accounts

theorem accounts_start (items : List ι) (carried : Carried) :
    Accounts (carried.successful + carried.failed) (JobDispatcher.start items carried) where
  quiet := ⟨rfl, rfl, rfl, rfl, rfl⟩
  files p := rfl
  counts := rfl
  done h := by cases h
  announce h := absurd h (Nat.lt_irrefl _)
  finished h := Or.inr (Or.inl ⟨rfl, List.eq_nil_of_length_eq_zero h.symm⟩)
  parked _ := rfl

theorem JobTracker.tally_isDone (t : JobTracker ι) (path : ι → String) (item : ι) (success : Bool) :
    (t.tally path item success).isDone = decide (t.totalItems ≤ t.successful + t.failed + 1) := by
  rw [JobTracker.isDone, tally_totalItems, tally_counts]

@[simp] theorem moved_flights (d : JobDispatcher ι) (i : ℕ) (f : Flight ι) (stage : Stage) :
    (d.moved i f stage).flights = d.flights.set i { f with stage := stage } := rfl

/-- Files may change their places. -/
theorem Accounts.shuffled {carried : ℕ} {d : JobDispatcher ι} (hd : Accounts carried d) {checkQueue itemQueue : List ι}
    {flights : List (Flight ι)} {activeChecks activeProcessing stale : ℕ} {picking assigning : Bool}
    (hannounces : number flights Stage.announces = number d.flights Stage.announces)
    (hfiles : ∀ p : ι → Bool, checkQueue.countP p + itemQueue.countP p + holding flights p =
      d.tracker.checkQueue.countP p + d.tracker.itemQueue.countP p + holding d.flights p) :
    Accounts carried
      { d with flights := flights, picking := picking, assigning := assigning, stale := stale
               tracker := { d.tracker with checkQueue := checkQueue, itemQueue := itemQueue
                                           activeChecks := activeChecks, activeProcessing := activeProcessing } } where
  quiet := hd.quiet
  files p := by
    have hold := hd.files p
    have hnew := hfiles p
    dsimp only
    omega
  counts := hd.counts
  done := hd.done
  announce h := hd.announce (hannounces ▸ h)
  finished h := hannounces ▸ hd.finished h
  parked := hd.parked

/-- The submit of a job is over, which sets `done_event` where the job has no files. -/
theorem Accounts.submitted {carried : ℕ} {d : JobDispatcher ι} (hd : Accounts carried d) :
    Accounts carried
      { d with submitting := false
               tracker := { d.tracker with doneEvent := d.tracker.doneEvent || d.items.isEmpty } } where
  quiet := hd.quiet
  files := hd.files
  counts := hd.counts
  done h := by
    obtain h | h := Bool.or_eq_true_iff.1 h
    · exact hd.done h
    · have hlength := hd.length
      rw [List.isEmpty_iff.1 h, List.length_nil] at hlength ⊢
      dsimp only
      omega
  announce := hd.announce
  finished h := by
    obtain h | ⟨-, h⟩ | h := hd.finished h
    · exact Or.inl (Bool.or_eq_true_iff.2 (Or.inl h))
    · exact Or.inl (Bool.or_eq_true_iff.2 (Or.inr (List.isEmpty_iff.2 h)))
    · exact Or.inr (Or.inr h)
  parked := hd.parked

/-- A file is counted: its thread says whether it was the last one. -/
theorem Accounts.counted {carried : ℕ} {d : JobDispatcher ι} (hc : Counters carried d) (hd : Accounts carried d) {i : ℕ}
    {f : Flight ι} {duty : Duty} {success : Bool} (hf : d.flights[i]? = some f) (hstage : f.stage = .recording duty success) :
    Accounts carried
      { d.moved i f (.counted duty (d.tracker.tally path f.item success).isDone) with
        tracker := d.tracker.tally path f.item success, recorded := d.recorded ++ [f.item] } := by
  have hholds : f.stage.holds = true := hstage ▸ rfl
  obtain ⟨hnotdone, hnone, hlt⟩ := hd.not_over hf hholds
  obtain ⟨hcancelled, hdone, hdetached⟩ := d.tracker.tally_flags path f.item success
  have hisDone := d.tracker.tally_isDone path f.item success
  have hann := number_step hf hstage Stage.announces (.counted duty (d.tracker.tally path f.item success).isDone) 0 _
    rfl rfl
  have htotal := hc.total
  have hcounts := hd.counts
  refine ⟨⟨hd.quiet.1, hcancelled.trans hd.quiet.2.1, hd.quiet.2.2⟩, fun p => ?_, ?_, ?_, ?_, ?_, ?_⟩ <;>
    dsimp only [JobDispatcher.moved]
  · have hfiles := hd.files p
    have hleft := holding_left hf p (.counted duty (d.tracker.tally path f.item success).isDone) hholds rfl
    rw [JobTracker.tally_checkQueue, JobTracker.tally_itemQueue, countP_concat]
    omega
  · rw [JobTracker.tally_counts, List.length_append, List.length_singleton, hcounts, Nat.add_assoc]
  · intro h
    rw [hdone, hnotdone] at h
    cases h
  · intro h
    rw [List.length_append, List.length_singleton]
    rw [hnone] at hann
    cases hlast : (d.tracker.tally path f.item success).isDone with
    | false =>
      rw [hlast] at hann h
      change _ + 0 = 0 + 0 at hann
      omega
    | true =>
      have hover := of_decide_eq_true (hisDone.symm.trans hlast)
      omega
  · intro h
    rw [List.length_append, List.length_singleton] at h
    have hlast : (d.tracker.tally path f.item success).isDone = true := by
      rw [hisDone]
      apply decide_eq_true
      omega
    refine Or.inr (Or.inr ?_)
    rw [hlast] at hann ⊢
    change _ + 0 = _ + 1 at hann
    omega
  · intro h
    exact hd.parked (hdetached ▸ h)

/-- The thread that counted the last file sets `done_event`. -/
theorem Accounts.signalled {carried : ℕ} {d : JobDispatcher ι} (hd : Accounts carried d) {i : ℕ} {f : Flight ι}
    {duty : Duty} {isDone : Bool} (hf : d.flights[i]? = some f) (hstage : f.stage = .counted duty isDone) :
    Accounts carried
      { d.moved i f (.ending duty) with tracker := { d.tracker with doneEvent := d.tracker.doneEvent || isDone } } := by
  have hann := number_step hf hstage Stage.announces (.ending duty) isDone.toNat 0 rfl rfl
  refine ⟨hd.quiet, fun p => ?_, hd.counts, ?_, ?_, ?_, hd.parked⟩ <;> dsimp only [JobDispatcher.moved]
  · rw [holding_same hf p (by rw [hstage]; rfl)]
    exact hd.files p
  · intro h
    obtain h | rfl := Bool.or_eq_true_iff.1 h
    · exact hd.done h
    · apply hd.announce
      change _ + 1 = _ at hann
      omega
  · intro h
    apply hd.announce
    omega
  · intro h
    obtain hdone | hsubmit | hpos := hd.finished h
    · exact Or.inl (Bool.or_eq_true_iff.2 (Or.inl hdone))
    · exact Or.inr (Or.inl hsubmit)
    · cases isDone with
      | true => exact Or.inl (Bool.or_true _)
      | false =>
        change _ + 0 = _ at hann
        exact Or.inr (Or.inr (by omega))

/-- The tracker is detached, and its queues are parked. -/
theorem Accounts.detached {carried : ℕ} {d : JobDispatcher ι} (hd : Accounts carried d) :
    Accounts carried
      { d with tracker := { d.tracker with detached := true, checkQueue := [], itemQueue := [] }
               parked := d.parked ++ d.tracker.itemQueue ++ d.tracker.checkQueue
               stale := 0 } where
  quiet := hd.quiet
  files p := by
    have hfiles := hd.files p
    dsimp only
    rw [List.countP_append, List.countP_append, List.countP_nil]
    omega
  counts := hd.counts
  done := hd.done
  announce := hd.announce
  finished := hd.finished
  parked h := by cases h

/-- A job that is not cancelled has no cancel under way. -/
theorem Quiet.not_draining {d : JobDispatcher ι} (h : Quiet d) (drain : Drain) : d.drain ≠ some drain :=
  fun hdrain => Option.some_ne_none _ (hdrain.symm.trans h.2.2.2.1)

/-- **Each move keeps the accounts.** -/
theorem accounts_move {carried : ℕ} {d d' : JobDispatcher ι} {event : Event} (hc : Counters carried d)
    (hd : d.touched = false → Accounts carried d) (h : Move path d event d') (ht : d'.touched = false) :
    Accounts carried d' := by
  cases h with
  | submit => exact (hd ht).submitted
  | @pickPop item rest _ hq =>
    refine (hd ht).shuffled (number_concat _ _ _ _) fun p => ?_
    rw [hq, countP_cons_eq, holding_concat, Stage.holds, Bool.true_and]
    omega
  | @take index item _ hq =>
    refine (hd ht).shuffled (number_concat _ _ _ _) fun p => ?_
    have hout := countP_eraseIdx hq p
    rw [holding_concat, Stage.holds, Bool.true_and]
    omega
  | @forward _ i f stage hf h =>
    refine (hd ht).shuffled (number_same hf _ _ ?_) fun p => ?_
    · rw [Stage.announces_of_holds h.holds, Stage.announces_of_holds h.holds']
    · rw [holding_same hf p (h.holds'.trans h.holds.symm)]
  | @drop _ i f stage hf h hover =>
    obtain hover | hover := hover
    · rw [(hd ht).quiet.isCancelled] at hover
      cases hover
    · rw [((hd ht).not_over hf h.holds).1] at hover
      cases hover
  | @failStart _ i f late hf hstage =>
    refine (hd ht).shuffled (number_same hf _ _ (hstage ▸ rfl)) fun p => ?_
    have hleft := holding_left hf p .gone (hstage ▸ rfl) rfl
    rw [countP_cons_eq, moved_flights]
    omega
  | @append _ i f hf hstage =>
    refine (hd ht).shuffled (number_same hf _ _ (hstage ▸ rfl)) fun p => ?_
    have hleft := holding_left hf p (.ending .check) (hstage ▸ rfl) rfl
    rw [countP_concat, moved_flights]
    omega
  | @requeue _ i f hf hstage =>
    refine (hd ht).shuffled (number_same hf _ _ (hstage ▸ rfl)) fun p => ?_
    have hleft := holding_left hf p .gone (hstage ▸ rfl) rfl
    rw [countP_cons_eq, moved_flights]
    omega
  | count hf hstage => exact (hd ht).counted hc hf hstage
  | signal hf hstage => exact (hd ht).signalled hf hstage
  | @leave _ i f duty hf hstage =>
    refine (hd ht).shuffled (number_same hf _ _ (hstage ▸ rfl)) fun p => ?_
    rw [moved_flights, holding_same hf p (by rw [hstage]; rfl)]
  | @handed _ i f stage hf hstage hduty hholds hpicked hlate =>
    refine (hd ht).shuffled (number_same hf _ _ ?_) fun p => ?_
    · rw [Stage.announces_of_holds hholds, hstage]
      rfl
    · rw [moved_flights, holding_same hf p (by rw [hstage, hholds]; rfl)]
  | detachParked => exact (hd ht).detached
  | flag value =>
    obtain ⟨htouched, rfl⟩ := Bool.or_eq_false_iff.1 ht
    obtain ⟨quiet, files, counts, done, announce, finished, parked⟩ := hd htouched
    exact ⟨⟨rfl, quiet.2⟩, files, counts, done, announce, finished, parked⟩
  | cancelBegin => cases ht
  | cancelChecks hbegun _ => exact absurd hbegun (Nat.not_lt.2 (Nat.le_of_eq (hd ht).quiet.2.2.1))
  | cancelItems hdrain => exact absurd hdrain ((hd ht).quiet.not_draining _)
  | cancelPaths hdrain => exact absurd hdrain ((hd ht).quiet.not_draining _)
  | cancelClearChecks hdrain => exact absurd hdrain ((hd ht).quiet.not_draining _)
  | cancelClearItems hdrain => exact absurd hdrain ((hd ht).quiet.not_draining _)
  | cancelAdd hdrain => exact absurd hdrain ((hd ht).quiet.not_draining _)
  | cancelDone hending => exact absurd hending (Nat.not_lt.2 (Nat.le_of_eq (hd ht).quiet.2.2.2.2))
  | _ =>
    obtain ⟨quiet, files, counts, done, announce, finished, parked⟩ := hd ht
    exact ⟨quiet, files, counts, done, announce, finished, parked⟩

/-! ### What the accounts say -/

/-- Nothing is left to do. -/
def JobDispatcher.NothingLeft (d : JobDispatcher ι) : Prop :=
  d.tracker.checkQueue = [] ∧ d.tracker.itemQueue = [] ∧ d.inFlight = [] ∧ d.parked = []

/-- Someone's next block sets `done_event`: the thread that counted the last file, or the submit of an empty job. -/
def JobDispatcher.AboutToSet (d : JobDispatcher ι) : Prop :=
  d.submitting = true ∧ d.items = [] ∨ ∃ f ∈ d.flights, f.stage.announces = true

/-- **What is promised of a job that is not cancelled.** -/
structure AccountedFor (items : List ι) (carried : Carried) (d : JobDispatcher ι) : Prop where
  /-- Every file is in one of the queues, on its way or counted, or was in the queues when the tracker was detached. -/
  places : (d.tracker.checkQueue ++ d.tracker.itemQueue ++ d.inFlight ++ d.recorded ++ d.parked).Perm items
  /-- Only detaching takes files out. -/
  parked : d.tracker.detached = false → d.parked = []
  /-- The counts are the files counted, now and before. -/
  counted : d.tracker.successful + d.tracker.failed = carried.successful + carried.failed + d.recorded.length
  /-- They add up. -/
  total : d.tracker.successful + d.tracker.failed + (d.tracker.checkQueue.length + d.tracker.itemQueue.length) +
    d.inFlight.length + d.parked.length = d.tracker.totalItems
  /-- A job that is done has nothing left. -/
  done : d.tracker.doneEvent = true → d.NothingLeft
  /-- One that has nothing left is done, or about to be. -/
  finished : d.NothingLeft → d.tracker.doneEvent = true ∨ d.AboutToSet
  /-- What is parked and what was counted are all of the job's files. -/
  snapshot : ∀ snapshot, d.parkSnapshot = some snapshot → (snapshot.items ++ d.recorded).Perm items ∧
    snapshot.successful + snapshot.failed = carried.successful + carried.failed + d.recorded.length ∧
      snapshot.successful + snapshot.failed + snapshot.items.length = snapshot.totalItems

/-- Whoever is about to set `done_event` can. -/
theorem JobDispatcher.AboutToSet.step {d : JobDispatcher ι} (h : d.AboutToSet) (path : ι → String) :
    ∃ event d', d.step path event = some d' ∧ d'.tracker.doneEvent = true := by
  obtain ⟨hsubmit, hitems⟩ | ⟨f, hf, hannounces⟩ := h
  · refine ⟨.submit, _, if_pos hsubmit, ?_⟩
    rw [hitems]
    exact Bool.or_true _
  · obtain ⟨i, hi⟩ := List.mem_iff_getElem?.1 hf
    cases hstage : f.stage with
    | counted duty isDone =>
      rw [hstage] at hannounces
      obtain rfl : isDone = true := hannounces
      refine ⟨.act i .signal, { d.moved i f (.ending duty) with
        tracker := { d.tracker with doneEvent := d.tracker.doneEvent || true } }, ?_, Bool.or_true _⟩
      refine Option.bind_eq_some_iff.2 ⟨f, hi, ?_⟩
      simp only [actStep, hstage]
    | _ =>
      rw [hstage] at hannounces
      cases hannounces

theorem countP_inFlight (d : JobDispatcher ι) (p : ι → Bool) : d.inFlight.countP p = holding d.flights p := by
  rw [JobDispatcher.inFlight, List.countP_map, List.countP_filter, holding]
  congr 1
  funext f
  exact Bool.and_comm _ _

theorem length_inFlight (d : JobDispatcher ι) : d.inFlight.length = number d.flights Stage.holds := by
  rw [JobDispatcher.inFlight, List.length_map, ← List.countP_eq_length_filter, number]

namespace Accounts

variable {carried : ℕ} {d : JobDispatcher ι}

/-- **Every file is in one place.** -/
theorem files_perm (hd : Accounts carried d) :
    (d.tracker.checkQueue ++ d.tracker.itemQueue ++ d.inFlight ++ d.recorded ++ d.parked).Perm d.items := by
  refine perm_of_countP fun p => ?_
  rw [List.countP_append, List.countP_append, List.countP_append, List.countP_append, countP_inFlight]
  exact hd.files p

/-- Nothing is left when all files are counted. -/
theorem nothingLeft_iff (hd : Accounts carried d) : d.NothingLeft ↔ d.recorded.length = d.items.length := by
  have hlength := hd.length
  rw [← length_inFlight] at hlength
  unfold JobDispatcher.NothingLeft
  rw [← List.length_eq_zero_iff, ← List.length_eq_zero_iff, ← List.length_eq_zero_iff, ← List.length_eq_zero_iff]
  omega

/-- A job about to be done. -/
theorem aboutToSet (h : d.submitting = true ∧ d.items = [] ∨ 0 < number d.flights Stage.announces) : d.AboutToSet := by
  obtain h | h := h
  · exact Or.inl h
  · exact Or.inr (List.countP_pos_iff.1 h)

/-- When nobody holds `_trackers_lock` and the counts of active files are zero, no file is on its way. -/
theorem inFlight_eq_nil {c : ℕ} (hc : Counters c d) (hfree : d.trackersFree = true)
    (hchecks : d.tracker.activeChecks = 0) (hprocessing : d.tracker.activeProcessing = 0) : d.inFlight = [] := by
  have hwork := hc.work
  have hcheck := hc.checks
  rw [hprocessing] at hwork
  rw [hchecks] at hcheck
  rw [JobDispatcher.inFlight, List.map_eq_nil_iff, List.filter_eq_nil_iff]
  intro f hf hholds
  obtain ⟨duty, hduty⟩ := Stage.duty_of_holds hholds
  cases duty with
  | check =>
    have hno := List.countP_eq_zero.1 hcheck.symm f hf
    exact hno (decide_eq_true hduty)
  | work =>
    have hno := List.countP_eq_zero.1 (Nat.le_zero.1 hwork) f hf
    exact hno (decide_eq_true hduty)
  | unstarted =>
    rw [JobDispatcher.trackersFree, Bool.and_eq_true_iff, Bool.not_eq_true'] at hfree
    exact List.any_eq_false.1 hfree.2 f hf (decide_eq_true hduty)

theorem accountedFor {items : List ι} {c : Carried} (hd : Accounts (c.successful + c.failed) d)
    (hc : Counters (c.successful + c.failed) d) (hitems : d.items = items) : AccountedFor items c d := by
  have hlength := hd.length
  have hcounts := hd.counts
  have htotal := hc.total
  rw [← length_inFlight] at hlength
  subst hitems
  refine ⟨hd.files_perm, hd.parked, hcounts, by omega, fun h => hd.nothingLeft_iff.2 (hd.done h), fun h => ?_, ?_⟩
  · obtain h | h := hd.finished (hd.nothingLeft_iff.1 h)
    · exact Or.inl h
    · exact Or.inr (aboutToSet h)
  · intro snapshot hsnapshot
    obtain ⟨⟨hfree, -, -, hdetached, hchecks, hprocessing, -⟩, h⟩ := Option.ite_none_right_eq_some.1 hsnapshot
    cases h
    have hparked := hd.parked (by rwa [Bool.not_eq_true'] at hdetached)
    have hnone := inFlight_eq_nil hc hfree hchecks hprocessing
    have hperm := hd.files_perm
    rw [hnone, hparked, List.append_nil, List.append_nil] at hperm
    rw [hnone, hparked] at hlength
    refine ⟨(List.perm_append_comm.append_right _).trans hperm, hcounts, ?_⟩
    simp only [List.length_nil, List.length_append] at hlength ⊢
    omega

end Accounts

end MediaPreview.Dispatch
