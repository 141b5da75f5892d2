import MediaPreview.Jobs.Accounts
import Mathlib.Data.Nat.Basic
import Mathlib.Order.Basic

/-!
# Cancels count a file once

A cancel counts what it finds in the queues as failed, and clears them. With any cancels the counts
never exceed the job's files, as long as no cancel counts a file twice (`files_accounted`).

A cancel can. Files are taken off `check_queue` without `_counts_lock`, so the loop may pick a file
that a cancel has just counted; if the file's thread can't start then, it goes back to the queue,
for another cancel to count again (`counted_twice`).
-/

namespace MediaPreview.Dispatch

open Parties

variable {ι : Type} {path : ι → String}

/-! ### What a cancel has counted -/

namespace Drain

/-- What the cancel that has `_counts_lock` will add to `failed`, as far as it has read. -/
def pending : Option Drain → ℕ
  | none => 0
  | some (checks remaining) => remaining
  | some (items remaining) => remaining
  | some (named remaining) => remaining
  | some (cleared remaining) => remaining
  | some (both remaining) => remaining

/-- How many files of the queues may still be counted: those that are not `stale`, and that the cancel under way has
neither counted nor is about to drop uncounted. -/
def unread (checkQueue itemQueue stale : ℕ) : Option Drain → ℕ
  | none => checkQueue - stale + itemQueue
  | some (checks _) => itemQueue
  | some (items _) => 0
  | some (named _) => 0
  | some (cleared _) => checkQueue - stale
  | some (both _) => checkQueue - stale + itemQueue

end Drain

/-- What cancels leave to count. -/
structure Bounded (d : JobDispatcher ι) : Prop where
  /-- A call of `cancel` has set `cancelled`. -/
  begun : 0 < d.begun → d.tracker.cancelled = true
  /-- So has the one under the lock. -/
  drain : d.drain ≠ none → d.tracker.cancelled = true
  /-- A file that was counted in the queue when it was picked belongs to a cancelled job. -/
  late : 0 < number d.flights Stage.late → d.tracker.cancelled = true
  /-- So does one that came back. -/
  stale : 0 < d.stale → d.tracker.cancelled = true
  /-- Those are in the queue. -/
  queued : d.stale ≤ d.tracker.checkQueue.length
  /-- The loop picks one file at a time, and none that a cancel has counted before. -/
  picking : d.picking = true → number d.flights Stage.isPicked = 0 ∧ d.stale = 0
  /-- What is counted and what may still be counted are no more than the job's files. -/
  bound : d.tracker.successful + d.tracker.failed + Drain.pending d.drain +
    Drain.unread d.tracker.checkQueue.length d.tracker.itemQueue.length d.stale d.drain +
      number d.flights Stage.uncounted ≤ d.tracker.totalItems

theorem bounded_start (items : List ι) (carried : Carried) : Bounded (JobDispatcher.start items carried) where
  begun h := absurd h (Nat.lt_irrefl _)
  drain h := absurd rfl h
  late h := absurd h (Nat.lt_irrefl _)
  stale h := absurd h (Nat.lt_irrefl _)
  queued := Nat.zero_le _
  picking h := by cases h
  bound := by
    change carried.successful + carried.failed + 0 + (items.length - 0 + 0) + 0 ≤
      items.length + carried.successful + carried.failed
    omega

/-- A flight that counts no more than before. -/
theorem number_le {flights : List (Flight ι)} {i : ℕ} {f : Flight ι} (hf : flights[i]? = some f) (q : Stage → Bool)
    (stage : Stage) (h : q stage = true → q f.stage = true) :
    number (flights.set i { f with stage := stage }) q ≤ number flights q := by
  have hset := number_set hf q stage
  have hle : (q stage).toNat ≤ (q f.stage).toNat := by
    cases hq : q stage with
    | false => exact Nat.zero_le _
    | true => exact (congrArg Bool.toNat (h hq)).ge
  omega

/-- A flight moves, and its file may be counted, or come to `item_queue`. -/
theorem Bounded.flown {d : JobDispatcher ι} (hd : Bounded d) {i : ℕ} {f : Flight ι} {stage : Stage}
    {tracker : JobTracker ι} {recorded : List ι} (hf : d.flights[i]? = some f)
    (hlate : stage.late = true → f.stage.late = true) (hpicked : stage.isPicked = false)
    (hcancelled : tracker.cancelled = d.tracker.cancelled) (hqueue : tracker.checkQueue = d.tracker.checkQueue)
    (htotal : tracker.totalItems = d.tracker.totalItems)
    (hcounts : tracker.successful + tracker.failed + stage.uncounted.toNat ≤
      d.tracker.successful + d.tracker.failed + f.stage.uncounted.toNat)
    (hitems : tracker.successful + tracker.failed + tracker.itemQueue.length + stage.uncounted.toNat ≤
      d.tracker.successful + d.tracker.failed + d.tracker.itemQueue.length + f.stage.uncounted.toNat) :
    Bounded { d.moved i f stage with tracker := tracker, recorded := recorded } where
  begun h := hcancelled.trans (hd.begun h)
  drain h := hcancelled.trans (hd.drain h)
  late h := hcancelled.trans (hd.late (h.trans_le (number_le hf _ _ hlate)))
  stale h := hcancelled.trans (hd.stale h)
  queued := hqueue ▸ hd.queued
  picking h := by
    obtain ⟨hnone, hstale⟩ := hd.picking h
    have hle := number_le hf Stage.isPicked stage fun h => absurd h (hpicked ▸ Bool.false_ne_true)
    exact ⟨Nat.le_zero.1 (hle.trans hnone.le), hstale⟩
  bound := by
    have hset := number_set hf Stage.uncounted stage
    have hold := hd.bound
    dsimp only [JobDispatcher.moved]
    rw [hqueue, htotal]
    cases hdrain : d.drain with
    | none =>
      rw [hdrain] at hold
      dsimp only [Drain.pending, Drain.unread] at hold ⊢
      omega
    | some drain =>
      rw [hdrain] at hold
      cases drain <;> dsimp only [Drain.pending, Drain.unread] at hold ⊢ <;> omega

theorem Stage.uncounted_of_not_holds {stage : Stage} (h : stage.holds = false) : stage.uncounted = false := by
  rw [Stage.uncounted, h, Bool.false_and]

theorem Stage.late_of_not_holds {stage : Stage} (h : stage.holds = false) : stage.late = false := by
  cases hlate : stage.late with
  | false => rfl
  | true => exact absurd (Stage.holds_of_late hlate) (by rw [h]; exact Bool.false_ne_true)

theorem Stage.isPicked_of_not_holds {stage : Stage} (h : stage.holds = false) : stage.isPicked = false := by
  cases hpicked : stage.isPicked with
  | false => rfl
  | true => exact absurd (Stage.holds_of_isPicked hpicked) (by rw [h]; exact Bool.false_ne_true)

/-- A file that is no longer on its way was counted, came to `item_queue` or is given up. -/
theorem Bounded.landed {d : JobDispatcher ι} (hd : Bounded d) {i : ℕ} {f : Flight ι} {stage : Stage}
    {tracker : JobTracker ι} {recorded : List ι} (hf : d.flights[i]? = some f) (hholds : stage.holds = false)
    (hcancelled : tracker.cancelled = d.tracker.cancelled) (hqueue : tracker.checkQueue = d.tracker.checkQueue)
    (htotal : tracker.totalItems = d.tracker.totalItems)
    (hcounts : tracker.successful + tracker.failed ≤
      d.tracker.successful + d.tracker.failed + f.stage.uncounted.toNat)
    (hitems : tracker.successful + tracker.failed + tracker.itemQueue.length ≤
      d.tracker.successful + d.tracker.failed + d.tracker.itemQueue.length + f.stage.uncounted.toNat) :
    Bounded { d.moved i f stage with tracker := tracker, recorded := recorded } := by
  have huncounted := Stage.uncounted_of_not_holds hholds
  refine hd.flown hf (fun h => ?_) (Stage.isPicked_of_not_holds hholds) hcancelled hqueue htotal ?_ ?_
  · rw [Stage.late_of_not_holds hholds] at h
    cases h
  · rw [huncounted]
    exact hcounts
  · rw [huncounted]
    exact hitems

/-- A flight that goes on is counted as late where it was before. -/
theorem Bounded.late_forward {d : JobDispatcher ι} (hd : Bounded d) {i : ℕ} {f : Flight ι} {stage : Stage}
    (hf : d.flights[i]? = some f) (h : f.stage.Forward stage d.isCancelled) : stage.late = f.stage.late := by
  obtain hsame | ⟨hnew, hno⟩ := h.late
  · exact hsame
  · have hone := le_number hf Stage.late
    cases hold : f.stage.late with
    | false => exact hnew
    | true =>
      rw [hold, Bool.toNat_true] at hone
      rw [JobDispatcher.isCancelled, hd.late hone, Bool.or_true] at hno
      cases hno

theorem JobDispatcher.drain_of_counting {d : JobDispatcher ι} (h : d.counting = true) : d.drain ≠ none := by
  intro hnone
  rw [JobDispatcher.counting, hnone] at h
  cases h

/-- **A picked file is not counted twice** by the cancel under way: it is late where the cancel has counted it. -/
theorem JobDispatcher.unread_pick (d : JobDispatcher ι) (checkQueue itemQueue : ℕ) :
    Drain.unread checkQueue itemQueue 0 d.drain + (Stage.picked d.counting).uncounted.toNat ≤
      Drain.unread (checkQueue + 1) itemQueue 0 d.drain := by
  unfold JobDispatcher.counting
  cases d.drain with
  | none =>
    change checkQueue - 0 + itemQueue + 1 ≤ checkQueue + 1 - 0 + itemQueue
    omega
  | some drain =>
    cases drain with
    | checks remaining => exact le_rfl
    | items remaining => exact le_rfl
    | named remaining => exact le_rfl
    | cleared remaining => exact le_rfl
    | both remaining =>
      change checkQueue - 0 + itemQueue + 1 ≤ checkQueue + 1 - 0 + itemQueue
      omega

/-- A checking thread couldn't start: its file is back in `check_queue`, and stale where a cancel has counted it. -/
theorem Bounded.notStarted {d : JobDispatcher ι} (hd : Bounded d) {i : ℕ} {f : Flight ι} {late : Bool}
    (hf : d.flights[i]? = some f) (hstage : f.stage = .picked late) :
    Bounded
      { d.moved i f .gone with
        tracker := { d.tracker with activeChecks := d.tracker.activeChecks - 1
                                    checkQueue := f.item :: d.tracker.checkQueue }
        stale := d.stale + late.toNat } := by
  have hlate := number_step hf hstage Stage.late .gone late.toNat 0 rfl rfl
  have hpicked := number_step hf hstage Stage.isPicked .gone 1 0 rfl rfl
  have huncounted := number_step hf hstage Stage.uncounted .gone (!late).toNat 0 rfl rfl
  have hqueued := hd.queued
  refine ⟨hd.begun, hd.drain, fun h => hd.late ?_, fun h => ?_, ?_, fun h => ?_, ?_⟩
  · dsimp only [JobDispatcher.moved] at h
    omega
  · obtain hold | hnew : 0 < d.stale ∨ 0 < late.toNat := Nat.add_pos_iff_pos_or_pos.1 h
    · exact hd.stale hold
    · exact hd.late (by omega)
  · have hone := Bool.toNat_le late
    dsimp only
    rw [List.length_cons]
    omega
  · have hnone := (hd.picking h).1
    omega
  · have hold := hd.bound
    dsimp only [JobDispatcher.moved]
    rw [List.length_cons]
    cases hdrain : d.drain with
    | none =>
      rw [hdrain] at hold
      cases late <;> simp only [Drain.pending, Drain.unread, Bool.toNat_true, Bool.toNat_false, Bool.not_true,
        Bool.not_false] at hold huncounted ⊢ <;> omega
    | some drain =>
      rw [hdrain] at hold
      cases drain <;> cases late <;>
        simp only [Drain.pending, Drain.unread, Bool.toNat_true, Bool.toNat_false, Bool.not_true,
          Bool.not_false] at hold huncounted ⊢ <;> omega

/-- The loop finds no other picked file, and no cancel, before it picks one. -/
theorem Bounded.pickTested {d : JobDispatcher ι} (hd : Bounded d) (hpicked : d.flights.any (·.stage.isPicked) = false)
    (hc : d.isCancelled = false) : Bounded { d with picking := true } := by
  have hcancelled : d.tracker.cancelled = false := (Bool.or_eq_false_iff.1 hc).2
  refine ⟨hd.begun, hd.drain, hd.late, hd.stale, hd.queued, fun _ => ⟨?_, ?_⟩, hd.bound⟩
  · exact List.countP_eq_zero.2 fun f hf => List.any_eq_false.1 hpicked f hf
  · refine Nat.eq_zero_of_not_pos fun hpos => ?_
    have hyes := hd.stale hpos
    rw [hcancelled] at hyes
    cases hyes

/-- A file is picked. -/
theorem Bounded.picked {d : JobDispatcher ι} (hd : Bounded d) {item : ι} {rest : List ι} (hpicking : d.picking = true)
    (hq : d.tracker.checkQueue = item :: rest) :
    Bounded
      { d with picking := false
               flights := d.flights ++ [⟨item, .picked d.counting⟩]
               tracker := { d.tracker with checkQueue := rest, activeChecks := d.tracker.activeChecks + 1 } } := by
  obtain ⟨-, hstale⟩ := hd.picking hpicking
  have huncounted := number_concat d.flights Stage.uncounted item (.picked d.counting)
  have hlate := number_concat d.flights Stage.late item (.picked d.counting)
  have hold := hd.bound
  rw [hq, List.length_cons, hstale] at hold
  refine ⟨hd.begun, hd.drain, fun h => ?_, hd.stale, ?_, (by rintro ⟨⟩), ?_⟩
  · obtain hold | hnew : 0 < number d.flights Stage.late ∨ 0 < d.counting.toNat :=
      Nat.add_pos_iff_pos_or_pos.1 (hlate ▸ h)
    · exact hd.late hold
    · exact hd.drain (JobDispatcher.drain_of_counting (Bool.toNat_eq_one.1 (le_antisymm (Bool.toNat_le _) hnew)))
  · dsimp only
    rw [hstale]
    exact Nat.zero_le _
  · have hunread := d.unread_pick rest.length d.tracker.itemQueue.length
    dsimp only
    rw [hstale]
    omega

/-- A file is taken off `item_queue`, which no cancel is counting then. -/
theorem Bounded.taken {d : JobDispatcher ι} (hd : Bounded d) {index : ℕ} {item : ι} (hdrain : d.drain = none)
    (hq : d.tracker.itemQueue[index]? = some item) :
    Bounded
      { d with assigning := false
               flights := d.flights ++ [⟨item, .taken⟩]
               tracker := { d.tracker with itemQueue := d.tracker.itemQueue.eraseIdx index } } := by
  have huncounted := number_concat d.flights Stage.uncounted item .taken
  have hlate := number_concat d.flights Stage.late item .taken
  have hlength := List.length_eraseIdx_add_one (List.getElem?_eq_some_iff.1 hq).1
  have hold := hd.bound
  refine ⟨hd.begun, hd.drain, hlate ▸ hd.late, hd.stale, hd.queued, fun h => ?_, ?_⟩
  · rw [number_concat]
    exact hd.picking h
  · dsimp only
    rw [hdrain] at hold ⊢
    dsimp only [Drain.pending, Drain.unread] at hold ⊢
    change _ = _ + 1 at huncounted
    omega

/-- The tracker is detached with empty queues. -/
theorem Bounded.detached {d : JobDispatcher ι} (hd : Bounded d) {parked : List ι} :
    Bounded
      { d with tracker := { d.tracker with detached := true, checkQueue := [], itemQueue := [] }
               parked := parked
               stale := 0 } where
  begun := hd.begun
  drain := hd.drain
  late := hd.late
  stale h := absurd h (Nat.lt_irrefl _)
  queued := Nat.zero_le _
  picking h := ⟨(hd.picking h).1, rfl⟩
  bound := by
    have hold := hd.bound
    have hempty : Drain.unread 0 0 0 d.drain = 0 := by
      cases d.drain with
      | none => rfl
      | some drain => cases drain <;> rfl
    dsimp only
    rw [List.length_nil, hempty]
    omega

/-- The cancel under the lock goes on, and leaves `check_queue` as it is: it will count no more than it could. -/
theorem Bounded.drained {d : JobDispatcher ι} (hd : Bounded d) {drain : Option Drain} {tracker : JobTracker ι}
    {begun ending : ℕ} (hbegun : begun ≤ d.begun) (hcancelled : tracker.cancelled = d.tracker.cancelled)
    (hdrain : drain ≠ none → d.tracker.cancelled = true) (hqueue : tracker.checkQueue = d.tracker.checkQueue)
    (htotal : tracker.totalItems = d.tracker.totalItems)
    (hbound : tracker.successful + tracker.failed + Drain.pending drain +
        Drain.unread d.tracker.checkQueue.length tracker.itemQueue.length d.stale drain ≤
      d.tracker.successful + d.tracker.failed + Drain.pending d.drain +
        Drain.unread d.tracker.checkQueue.length d.tracker.itemQueue.length d.stale d.drain) :
    Bounded { d with drain := drain, tracker := tracker, begun := begun, ending := ending } where
  begun h := hcancelled.trans (hd.begun (h.trans_le hbegun))
  drain h := hcancelled.trans (hdrain h)
  late h := hcancelled.trans (hd.late h)
  stale h := hcancelled.trans (hd.stale h)
  queued := hqueue ▸ hd.queued
  picking := hd.picking
  bound := by
    have hold := hd.bound
    dsimp only
    rw [hqueue, htotal]
    omega

/-- It clears `check_queue`, which it has counted. -/
theorem Bounded.clearedChecks {d : JobDispatcher ι} (hd : Bounded d) {remaining : ℕ}
    (hdrain : d.drain = some (.named remaining)) :
    Bounded { d with drain := some (.cleared remaining), tracker := { d.tracker with checkQueue := [] }, stale := 0 } where
  begun := hd.begun
  drain _ := hd.drain (by rw [hdrain]; rintro ⟨⟩)
  late := hd.late
  stale h := absurd h (Nat.lt_irrefl _)
  queued := Nat.zero_le _
  picking h := ⟨(hd.picking h).1, rfl⟩
  bound := by
    have hold := hd.bound
    rwa [hdrain] at hold

/-- **Each move keeps the bound**, but for a cancel that counts a stale file. -/
theorem bounded_move {d d' : JobDispatcher ι} {event : Event} (hd : Bounded d)
    (hstale : event = .cancelChecks → d.stale = 0) (h : Move path d event d') : Bounded d' := by
  have hholder : ∀ {drain : Drain}, d.drain = some drain → d.tracker.cancelled = true := fun hdrain =>
    hd.drain (by rw [hdrain]; rintro ⟨⟩)
  cases h with
  | @forward _ i f stage hf h =>
    have hlate := hd.late_forward hf h
    have huncounted : stage.uncounted = f.stage.uncounted := by
      rw [Stage.uncounted, Stage.uncounted, h.holds, h.holds', hlate]
    exact hd.flown hf (fun h => hlate ▸ h) h.isPicked rfl rfl rfl (by rw [huncounted]) (by rw [huncounted])
  | drop hf h hover => exact hd.landed hf h.holds' rfl rfl rfl (Nat.le_add_right _ _) (Nat.le_add_right _ _)
  | @append _ i f hf hstage =>
    refine hd.landed hf rfl rfl rfl rfl (Nat.le_add_right _ _) ?_
    rw [hstage]
    dsimp only
    rw [List.length_append, List.length_singleton]
    exact (Nat.add_assoc _ _ _).ge
  | @requeue _ i f hf hstage =>
    refine hd.landed hf rfl rfl rfl rfl (Nat.le_add_right _ _) ?_
    rw [hstage]
    exact le_rfl
  | @count _ i f duty success hf hstage =>
    have hcounts := d.tracker.tally_counts path f.item success
    refine hd.landed hf rfl (d.tracker.tally_flags path f.item success).1 (d.tracker.tally_checkQueue f.item success)
      (d.tracker.tally_totalItems f.item success) ?_ ?_
    · rw [hcounts, hstage]
      exact le_rfl
    · rw [hcounts, hstage, JobTracker.tally_itemQueue, Nat.add_right_comm]
      exact le_rfl
  | signal hf hstage => exact hd.landed hf rfl rfl rfl rfl (Nat.le_add_right _ _) (Nat.le_add_right _ _)
  | leave hf hstage => exact hd.landed hf rfl rfl rfl rfl (Nat.le_add_right _ _) (Nat.le_add_right _ _)
  | @handed _ i f stage hf hstage hduty hholds hpicked hlate =>
    have huncounted : stage.uncounted = f.stage.uncounted := by
      rw [Stage.uncounted, hholds, hlate, hstage]
      rfl
    refine hd.flown hf (fun h => ?_) hpicked rfl rfl rfl (by rw [huncounted]) (by rw [huncounted])
    rw [hlate] at h
    cases h
  | failStart hf hstage => exact hd.notStarted hf hstage
  | pickTest hpicked hc => exact hd.pickTested hpicked hc
  | pickNone => exact ⟨hd.begun, hd.drain, hd.late, hd.stale, hd.queued, (by rintro ⟨⟩), hd.bound⟩
  | pickPop hpicking hq => exact hd.picked hpicking hq
  | take hdrain hq => exact hd.taken hdrain hq
  | detachParked => exact hd.detached
  | cancelBegin =>
    exact ⟨fun _ => rfl, fun _ => rfl, fun _ => rfl, fun _ => rfl, hd.queued, hd.picking, hd.bound⟩
  | cancelChecks hbegun hdrain =>
    have hzero := hstale rfl
    refine hd.drained (Nat.sub_le _ _) rfl (fun _ => hd.begun hbegun) rfl rfl ?_
    rw [hdrain, hzero]
    dsimp only [Drain.pending, Drain.unread]
    omega
  | cancelItems hdrain =>
    refine hd.drained le_rfl rfl (fun _ => hholder hdrain) rfl rfl ?_
    rw [hdrain]
    dsimp only [Drain.pending, Drain.unread]
    omega
  | cancelPaths hdrain =>
    refine hd.drained le_rfl rfl (fun _ => hholder hdrain) rfl rfl ?_
    rw [hdrain]
    exact le_rfl
  | cancelClearChecks hdrain => exact hd.clearedChecks hdrain
  | cancelClearItems hdrain =>
    refine hd.drained le_rfl rfl (fun _ => hholder hdrain) rfl rfl ?_
    rw [hdrain]
    exact le_rfl
  | cancelAdd hdrain =>
    refine hd.drained le_rfl rfl (fun h => absurd rfl h) rfl rfl ?_
    rw [hdrain]
    dsimp only [Drain.pending, Drain.unread]
    omega
  | _ => exact ⟨hd.begun, hd.drain, hd.late, hd.stale, hd.queued, hd.picking, hd.bound⟩

/-! ### Every run -/

/-- No cancel counts a file that one has counted before: none reads the length of `check_queue` while a file is in it
that was picked while an earlier cancel was between reading it and clearing it, and put back since. -/
def JobDispatcher.CountsOnce (path : ι → String) (d : JobDispatcher ι) : List Event → Prop
  | [] => True
  | e :: es => (e = .cancelChecks → d.stale = 0) ∧ ∀ d', d.step path e = some d' → d'.CountsOnce path es

instance JobDispatcher.decidableCountsOnce (path : ι → String) (d : JobDispatcher ι) (events : List Event) :
    Decidable (d.CountsOnce path events) :=
  match events with
  | [] => .isTrue trivial
  | e :: es =>
    match h : d.step path e with
    | none => decidable_of_iff (e = .cancelChecks → d.stale = 0) ⟨fun hs => ⟨hs, by simp [h]⟩, And.left⟩
    | some d₁ =>
      have := decidableCountsOnce path d₁ es
      decidable_of_iff ((e = .cancelChecks → d.stale = 0) ∧ d₁.CountsOnce path es) (by simp [CountsOnce, h])

theorem counters_run {carried : ℕ} {d d' : JobDispatcher ι} (hc : Counters carried d) {events : List Event}
    (h : d.run path events = some d') : Counters carried d' :=
  JobDispatcher.run_induct (fun _ _ _ hmove hc => counters_move hc hmove) h hc

theorem accounts_run {carried : ℕ} {d d' : JobDispatcher ι} (hc : Counters carried d)
    (hd : d.touched = false → Accounts carried d) {events : List Event} (h : d.run path events = some d') :
    d'.touched = false → Accounts carried d' := by
  refine (JobDispatcher.run_induct (P := fun d => Counters carried d ∧ (d.touched = false → Accounts carried d))
    (fun _ _ _ hmove hd => ?_) h ⟨hc, hd⟩).2
  exact ⟨counters_move hd.1 hmove, accounts_move hd.1 hd.2 hmove⟩

theorem bounded_run {d d' : JobDispatcher ι} (hd : Bounded d) {events : List Event} (h : d.run path events = some d')
    (hcounts : d.CountsOnce path events) : Bounded d' := by
  induction events generalizing d with
  | nil =>
    cases h
    exact hd
  | cons e es ih =>
    obtain ⟨d₁, hstep, hrun⟩ := Option.bind_eq_some_iff.1 h
    exact ih (bounded_move hd hcounts.1 (JobDispatcher.move_of_step hstep)) hrun (hcounts.2 d₁ hstep)

/-- **Every file is accounted for.** After any events, a job that no cancel has touched has each of its files in one
place, is done exactly when nothing is left, and parks all that is not counted; and whatever cancels there were, no more
is counted than the job has files, as long as no cancel counts a file twice. -/
theorem files_accounted (path : ι → String) (items : List ι) (carried : Carried) (events : List Event)
    (d : JobDispatcher ι) (h : (JobDispatcher.start items carried).run path events = some d)
    (hcounts : (JobDispatcher.start items carried).CountsOnce path events) :
    (d.touched = false → AccountedFor items carried d) ∧
      d.tracker.successful + d.tracker.failed ≤ d.tracker.totalItems := by
  have hcounters := counters_run (counters_start items carried) h
  refine ⟨fun ht => ?_, ?_⟩
  · exact (accounts_run (counters_start items carried) (fun _ => accounts_start items carried) h ht).accountedFor
      hcounters (items_run h)
  · have hbound := (bounded_run (bounded_start items carried) h hcounts).bound
    omega

/-- One file is with a worker, one is picked by a checking thread that doesn't start, and the job is cancelled. -/
def cancelledOnce : List Event :=
  [.submit, .pickTest, .pickPop, .act 0 .start, .act 0 .look, .act 0 .needsWork, .act 0 .append, .act 0 .leave,
    .assignTest, .take 0, .act 1 .assigned, .pickTest, .cancelBegin, .cancelChecks, .pickPop, .cancelItems,
    .act 2 .failStart, .cancelPaths, .cancelClearChecks, .cancelClearItems, .act 1 (.reap (.finished true)),
    .cancelAdd, .act 1 .count, .act 1 .signal, .cancelDone]

theorem files_accounted_cancelledOnce : ∃ d,
    (JobDispatcher.start ["/media/a.mkv", "/media/b.mkv"] ⟨0, 0, []⟩).run id cancelledOnce = some d ∧
      d.tracker.successful + d.tracker.failed ≤ d.tracker.totalItems := by
  obtain ⟨d, hd⟩ : ∃ d, (JobDispatcher.start ["/media/a.mkv", "/media/b.mkv"] ⟨0, 0, []⟩).run id cancelledOnce =
      some d := ⟨_, rfl⟩
  exact ⟨d, hd, (files_accounted id _ _ cancelledOnce d hd (by decide)).2⟩

/-- A file is picked between a cancel's look at the queue and its clearing it; its thread doesn't start, and the job is
cancelled again. -/
def pickedWhileCancelled : List Event :=
  [.submit, .pickTest, .cancelBegin, .cancelChecks, .pickPop, .cancelItems, .cancelPaths, .cancelClearChecks,
    .cancelClearItems, .cancelAdd, .cancelDone, .act 0 .failStart, .cancelBegin, .cancelChecks, .cancelItems,
    .cancelPaths, .cancelClearChecks, .cancelClearItems, .cancelAdd, .cancelDone]

/-- **A cancel can count a file twice**: a job of one file ends with two failed. -/
theorem counted_twice : ∃ d, (JobDispatcher.start ["/media/a.mkv"] ⟨0, 0, []⟩).run id pickedWhileCancelled = some d ∧
    d.tracker.totalItems = 1 ∧ d.tracker.successful + d.tracker.failed = 2 :=
  ⟨_, rfl, rfl, rfl⟩

end MediaPreview.Dispatch
