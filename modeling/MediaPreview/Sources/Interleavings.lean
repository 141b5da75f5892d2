import MediaPreview.Sources.Usage

/-!
# Every interleaving at a source limiter

What each step keeps of the time slots, the tickets and the budget (`Kept`), and so every run, whatever its threads do in
whatever order, whatever a response says, and whatever the clock and the day read (`paced_and_accounted`). What was used
is right too in runs in which no day comes back on which a slot was reserved that can still be given back; a day that
does come back is taken for the same one, and its slots' refunds are taken from the new count (`refunded_to_wrong_day`).
-/

namespace MediaPreview.Sources

open Binary64

namespace Pacing

variable {τ δ : Type*} {cfg : LimiterConfig} {s s' : Pacing τ δ} {t : τ}
  {e : PacingEvent τ δ}

/-- What every run keeps. -/
structure Kept (cfg : LimiterConfig) (s : Pacing τ δ) : Prop where
  /-- The time slots. -/
  spaced : s.Spaced cfg
  /-- What was told. -/
  fair : ∀ n ∈ s.log, n.Fair cfg
  /-- The tickets and the budget. -/
  accounts : s.Accounts

theorem kept_new (day : δ) : (new τ day).Kept cfg := ⟨spaced_new day, nofun, accounts_new day⟩

theorem nextSlot_le_freeSlot {l : Limiter δ} {now : ℚ} : l.nextSlot ≤ l.freeSlot now :=
  le_max_of_le_right (le_max_left _ _)

theorem blockedUntil_le_freeSlot {l : Limiter δ} {now : ℚ} : l.blockedUntil ≤ l.freeSlot now :=
  le_max_of_le_right (le_max_right _ _)

/-- A budget that lets a request through has some of it left, and for LOW more than the reserve share. -/
theorem of_not_exhausted {l : Limiter δ} {priority : ℤ} (h : ¬ l.exhausted cfg priority = true) {r : ℤ}
    (hr : l.remaining = some r) :
    0 < r ∧ (priorityLow ≤ priority → ∀ limit, l.limit = some limit → fl (cfg.reserveFraction * fl limit) < r) := by
  simp only [Limiter.exhausted, hr, Option.any_some, Bool.or_eq_true, Bool.and_eq_true, decide_eq_true_eq, not_or,
    not_and, not_le] at h
  refine ⟨h.1, fun hlow limit hlimit => ?_⟩
  have := h.2 hlow
  simpa only [hlimit, Option.any_some, decide_eq_true_eq, not_le] using this

theorem Kept.rollDay [DecidableEq δ] (h : s.Kept cfg) (today : δ) : (s.rollDay today).Kept cfg := by
  refine ⟨?_, ?_, h.accounts.rollDay today⟩
  · unfold Pacing.rollDay Limiter.rollDay
    split_ifs
    · exact h.spaced
    · exact h.spaced.frame rfl h.spaced.limiter_float.2 rfl rfl rfl fun t w ht => ⟨w, ht, rfl, rfl, rfl⟩
  · unfold Pacing.rollDay
    split_ifs
    · exact h.fair
    · exact List.forall_mem_cons.2 ⟨trivial, h.fair⟩

/-- What remains is replaced. -/
theorem Kept.replaceBy (h : s.Kept cfg) {l : Limiter δ} {value : Option ℤ}
    (hl : (s.limiter.replaceBy value).SameCounts l) (hblock : l.FloatBlock) (hpos : ∀ r, value = some r → 0 ≤ r) :
    { s with
      limiter := l
      log := (value.elim [] fun r => [Note.replaced r]) ++ s.log }.Kept cfg := by
  refine ⟨?_, ?_, h.accounts.replaceBy hl hpos⟩
  · cases value with
    | none => exact h.spaced.frame hl.nextSlot hblock rfl rfl rfl fun t w ht => ⟨w, ht, rfl, rfl, rfl⟩
    | some r => exact h.spaced.frame hl.nextSlot hblock rfl rfl rfl fun t w ht => ⟨w, ht, rfl, rfl, rfl⟩
  · cases value with
    | none => exact h.fair
    | some r => exact List.forall_mem_cons.2 ⟨trivial, h.fair⟩

theorem Kept.recorded (h : s.Kept cfg) (status : Option ℤ) (headers : Option (List (String × String)))
    (now wallNow : ℚ) : (s.recorded cfg status headers now wallNow).Kept cfg := by
  have hblock : s.limiter.FloatBlock := h.spaced.limiter_float.2
  refine h.replaceBy (Limiter.sameCounts_record cfg status headers wallNow) (hblock.record ..) fun r hr => ?_
  obtain ⟨_, -, hr⟩ := Option.bind_eq_some_iff.1 hr
  exact remainingHeader_nonneg hr

/-- What a seed says was used. -/
theorem Kept.seeded (h : s.Kept cfg) (used : ℕ) :
    { s with
      limiter := { s.limiter with used := used }
      log := .seeded used :: s.log }.Kept cfg where
  spaced := h.spaced.frame rfl h.spaced.limiter_float.2 rfl rfl rfl fun _ w ht => ⟨w, ht, rfl, rfl, rfl⟩
  fair := List.forall_mem_cons.2 ⟨trivial, h.fair⟩
  accounts := (h.accounts.note (n := .seeded used) ⟨rfl, rfl, rfl⟩).frame (fun _ _ hk => hk) rfl rfl rfl rfl

variable [DecidableEq τ]

theorem Kept.dropTicket (h : s.Kept cfg) : (s.setCaller t (.idle none)).Kept cfg :=
  ⟨h.spaced.dropTicket, h.fair, h.accounts.dropTicket⟩

/-- The reserve section. -/
theorem Kept.reserve (h : s.Kept cfg) {priority : ℤ} {now deadline : ℚ} (hnow : fl now = now)
    (hexhausted : ¬ s.limiter.exhausted cfg priority = true) (hdeadline : s.limiter.freeSlot now ≤ deadline) :
    (s.reserve cfg t priority (s.limiter.freeSlot now) deadline).Kept cfg where
  spaced := h.spaced.reserve nextSlot_le_freeSlot (h.spaced.fl_freeSlot hnow) hdeadline
  fair := by
    refine List.forall_mem_cons.2 ⟨fun hlow r l hr hl => ?_, h.fair⟩
    exact (of_not_exhausted hexhausted hr).2 hlow l hl
  accounts := h.accounts.reserve fun r hr => (of_not_exhausted hexhausted hr).1

/-- The end of a turn that found no block after its slot. -/
theorem Kept.endTurn (h : s.Kept cfg) {w : Wait δ} (ht : s.callers t = .waiting w)
    (hblock : s.limiter.blockedUntil ≤ w.slot) {now : ℚ} : (s.endTurn t w now).Kept cfg := by
  have hk : (s.callers t).held = some w.ticket := by rw [ht]; rfl
  have hspaced : (s.endTurn t w now).Spaced cfg := by
    refine h.spaced.endTurn ht (h.accounts.held_lt t _ hk) fun t' w' hne ht' heq => ?_
    exact hne (h.accounts.alone t' t _ _ (by rw [ht']; rfl) hk heq)
  refine ⟨hspaced, ?_, ?_⟩
  · unfold Pacing.endTurn
    split_ifs with hwait
    · have hnow : w.slot ≤ now := sub_nonpos.1 (fl_le_zero_iff.1 hwait)
      exact List.forall_mem_cons.2 ⟨⟨hnow, hblock.trans hnow⟩, h.fair⟩
    · exact h.fair
  · unfold Pacing.endTurn
    split_ifs with hnow
    · exact (h.accounts.note (n := .allowed w.ticket.slotId w.slot now s.limiter.blockedUntil) ⟨rfl, rfl, rfl⟩).frame
        (fun _ _ hk' => of_held_update_same hk rfl hk') rfl rfl rfl rfl
    · exact h.accounts.frame (fun _ _ hk' => of_held_update_same hk rfl hk') rfl rfl rfl rfl

/-- A slot moved past the block. -/
theorem Kept.move (h : s.Kept cfg) {w : Wait δ} (ht : s.callers t = .waiting w) {now : ℚ} (hnow : fl now = now)
    (hdeadline : s.limiter.freeSlot now ≤ w.deadline) : (s.move cfg t w (s.limiter.freeSlot now)).Kept cfg where
  spaced := h.spaced.move ht nextSlot_le_freeSlot (h.spaced.fl_freeSlot hnow) hdeadline
  fair := List.forall_mem_cons.2 ⟨trivial, h.fair⟩
  accounts := by
    have hk : (s.callers t).held = some w.ticket := by rw [ht]; rfl
    exact (h.accounts.note (n := .moved w.ticket.slotId (s.limiter.freeSlot now)) ⟨rfl, rfl, rfl⟩).frame
      (fun _ _ hk' => of_held_update_same hk rfl hk') rfl rfl rfl rfl

variable [DecidableEq δ]

theorem Kept.giveBack (h : s.Kept cfg) {k : Ticket δ} (hk : (s.callers t).held = some k) :
    ((s.giveBack k).setCaller t (.idle none)).Kept cfg where
  spaced := h.spaced.frame rfl h.spaced.limiter_float.2 rfl rfl rfl fun _ w ht => ⟨w, (of_update_idle ht).1, rfl, rfl, rfl⟩
  fair := List.forall_mem_cons.2 ⟨trivial, h.fair⟩
  accounts := h.accounts.giveBack hk

/-- **A turn of the wait loop.** -/
theorem Kept.turn (h : s.Kept cfg) {w : Wait δ} (ht : s.callers t = .waiting w) {now : ℚ} (hnow : fl now = now) :
    (s.turn cfg t w now).Kept cfg := by
  unfold Pacing.turn
  dsimp only
  split_ifs with hblock hdeadline
  · exact h.giveBack (by rw [ht]; rfl)
  · have hwaiting : (s.move cfg t w (s.limiter.freeSlot now)).callers t =
        .waiting { w with slot := s.limiter.freeSlot now } := Function.update_self ..
    have hblocked : s.limiter.blockedUntil ≤ s.limiter.freeSlot now := blockedUntil_le_freeSlot
    exact (h.move ht hnow (not_lt.1 hdeadline)).endTurn hwaiting hblocked
  · exact h.endTurn ht (not_lt.1 hblock)

/-- **One step keeps it all.** -/
theorem Kept.step (h : s.Kept cfg) (hs : s.step cfg e = some s') : s'.Kept cfg := by
  cases e with
  | refuse t =>
    cases ht : s.callers t with
    | waiting w => simp [Pacing.step, ht] at hs
    | idle k =>
      simp only [Pacing.step, ht, Option.some.injEq] at hs
      exact hs ▸ h.dropTicket
  | acquire t priority maxWaitS cap today now =>
    cases ht : s.callers t with
    | waiting w => simp [Pacing.step, ht] at hs
    | idle k =>
      simp only [Pacing.step, ht, Option.some.injEq] at hs
      have hr : ((s.setCaller t (.idle none)).rollDay today).Kept cfg := h.dropTicket.rollDay today
      subst hs
      split_ifs with hno
      · exact hr
      · obtain ⟨hexhausted, hdeadline⟩ := not_or.1 hno
        exact hr.reserve (fl_fl now) hexhausted (not_lt.1 hdeadline)
  | turn t now =>
    cases ht : s.callers t with
    | idle k => simp [Pacing.step, ht] at hs
    | waiting w =>
      simp only [Pacing.step, ht, Option.some.injEq] at hs
      exact hs ▸ h.turn ht (fl_fl now)
  | cancel t =>
    cases ht : s.callers t with
    | idle k => simp [Pacing.step, ht] at hs
    | waiting w =>
      simp only [Pacing.step, ht, Option.ite_none_right_eq_some, Option.some.injEq] at hs
      exact hs.2 ▸ h.giveBack (by rw [ht]; rfl)
  | refund t =>
    cases ht : s.callers t with
    | waiting w => simp [Pacing.step, ht] at hs
    | idle k =>
      cases k with
      | none =>
        simp only [Pacing.step, ht, Option.some.injEq] at hs
        exact hs ▸ h
      | some k =>
        simp only [Pacing.step, ht, Option.some.injEq] at hs
        exact hs ▸ h.giveBack (by rw [ht]; rfl)
  | record t status headers today now wallNow =>
    cases ht : s.callers t with
    | waiting w => simp [Pacing.step, ht] at hs
    | idle k =>
      simp only [Pacing.step, ht, Option.some.injEq] at hs
      exact hs ▸ (h.dropTicket.rollDay today).recorded status headers (fl now) (fl wallNow)
  | seed day used limit remaining today =>
    simp only [Pacing.step, Option.some.injEq] at hs
    subst hs
    split_ifs
    · have hblock : (s.rollDay today).limiter.FloatBlock := (h.rollDay today).spaced.limiter_float.2
      refine ((h.rollDay today).seeded _).replaceBy (Limiter.sameCounts_seedUsage used limit remaining)
        (hblock.seedUsage used limit remaining) fun r hr => ?_
      obtain ⟨_, -, rfl⟩ := Option.map_eq_some_iff.1 hr
      exact le_max_left _ _
    · exact h.rollDay today
  | usage today =>
    obtain rfl := Option.some.inj hs
    exact h.rollDay today

/-- And of what was used, in a step by which no day comes back. -/
theorem Counted.step (h : s.Counted) (hk : s.Kept cfg) (hc : s.Onward e) (hs : s.step cfg e = some s') :
    s'.Counted := by
  cases e with
  | refuse t =>
    cases ht : s.callers t with
    | waiting w => simp [Pacing.step, ht] at hs
    | idle k =>
      simp only [Pacing.step, ht, Option.some.injEq] at hs
      exact hs ▸ h.dropTicket
  | acquire t priority maxWaitS cap today now =>
    cases ht : s.callers t with
    | waiting w => simp [Pacing.step, ht] at hs
    | idle k =>
      simp only [Pacing.step, ht, Option.some.injEq] at hs
      have hr : ((s.setCaller t (.idle none)).rollDay today).Counted := h.dropTicket.rollDay hc
      subst hs
      split_ifs
      · exact hr
      · exact hr.reserve (hk.dropTicket.rollDay today).accounts
  | turn t now =>
    cases ht : s.callers t with
    | idle k => simp [Pacing.step, ht] at hs
    | waiting w =>
      simp only [Pacing.step, ht, Option.some.injEq] at hs
      subst hs
      unfold Pacing.turn
      dsimp only
      split_ifs
      · exact h.giveBack hk.accounts (by rw [ht]; rfl)
      · exact (h.move ht).endTurn (Function.update_self ..)
      · exact h.endTurn ht
  | cancel t =>
    cases ht : s.callers t with
    | idle k => simp [Pacing.step, ht] at hs
    | waiting w =>
      simp only [Pacing.step, ht, Option.ite_none_right_eq_some, Option.some.injEq] at hs
      exact hs.2 ▸ h.giveBack hk.accounts (by rw [ht]; rfl)
  | refund t =>
    cases ht : s.callers t with
    | waiting w => simp [Pacing.step, ht] at hs
    | idle k =>
      cases k with
      | none =>
        simp only [Pacing.step, ht, Option.some.injEq] at hs
        exact hs ▸ h
      | some k =>
        simp only [Pacing.step, ht, Option.some.injEq] at hs
        exact hs ▸ h.giveBack hk.accounts (by rw [ht]; rfl)
  | record t status headers today now wallNow =>
    cases ht : s.callers t with
    | waiting w => simp [Pacing.step, ht] at hs
    | idle k =>
      simp only [Pacing.step, ht, Option.some.injEq] at hs
      exact hs ▸ (h.dropTicket.rollDay hc).replaceBy (Limiter.sameCounts_record cfg status headers (fl wallNow))
  | seed day used limit remaining today =>
    simp only [Pacing.step, Option.some.injEq] at hs
    subst hs
    split_ifs with hseeds
    · simp only [Limiter.seeds, Bool.and_eq_true, decide_eq_true_eq] at hseeds
      exact ((h.rollDay hc).seeded hseeds.1.2 _).replaceBy (Limiter.sameCounts_seedUsage used limit remaining)
    · exact h.rollDay hc
  | usage today =>
    obtain rfl := Option.some.inj hs
    exact h.rollDay hc

/-- **Pacing and accounts under every interleaving.** In every run, the slots of the callers told ALLOWED are an
interval apart, up to the rounding of the sum, nobody was told ALLOWED before its slot or within a block, nobody waits past its deadline, what remains
is never negative and is what it was last replaced by less the slots reserved since and not refunded, no slot was
refunded twice, and LOW reserved nothing of the reserve share; and what was used is what was seeded and the day's
reservations less their refunds, if no day came back while a slot reserved on it could still be given back. -/
theorem paced_and_accounted (cfg : LimiterConfig) (day : δ) (es : List (PacingEvent τ δ)) (s : Pacing τ δ)
    (hrun : Runs (step cfg) Any (new τ day) es s) :
    ((s.log.filterMap Note.allows).Pairwise fun a b => fl (min a.2 b.2 + cfg.minIntervalS) ≤ max a.2 b.2) ∧
    (∀ i slot now blockedUntil, .allowed i slot now blockedUntil ∈ s.log → slot ≤ now ∧ blockedUntil ≤ now) ∧
    (∀ t w, s.callers t = .waiting w → w.slot ≤ w.deadline) ∧
    (∀ r, s.limiter.remaining = some r → 0 ≤ r) ∧
    s.limiter.remaining = remainingByLog s.log ∧
    (s.log.filterMap Note.closes).Nodup ∧
    (∀ i slot priority (r l : ℤ), .reserved i slot priority (some r) (some l) ∈ s.log → priorityLow ≤ priority →
      fl (cfg.reserveFraction * fl l) < r ∧ (|l| ≤ 2 ^ 53 → |r| ≤ 2 ^ 53 → cfg.reserveFraction * l < r)) ∧
    (Runs (step cfg) Onward (new τ day) es s → s.limiter.used = usedByLog s.log) := by
  have hkept : s.Kept cfg := hrun.keeps (kept_new day) fun _ _ _ _ hs hk => hk.step hs
  refine ⟨hkept.spaced.allowed_apart, fun i slot now b hn => hkept.fair _ hn,
    fun t w ht => (hkept.spaced.waits t w ht).2.1, hkept.accounts.nonneg, hkept.accounts.remaining,
    hkept.accounts.once, fun i slot priority r l hn hlow => ?_, fun honward => ?_⟩
  · have hshare := hkept.fair _ hn hlow r l rfl rfl
    refine ⟨hshare, fun hl hr => ?_⟩
    rw [fl_intCast hl] at hshare
    exact lt_of_fl_lt (fl_intCast hr) hshare
  have hboth : s.Kept cfg ∧ s.Counted :=
    honward.keeps (I := fun s => s.Kept cfg ∧ s.Counted) ⟨kept_new day, counted_new day⟩
      fun _ _ _ hc hs h => ⟨h.1.step hs, h.2.step h.1 hc hs⟩
  exact hboth.2.used

/-- A source with a slot every half second. -/
def sampleLimiter : LimiterConfig := ⟨1 / 2, 1 / 5, 5, 600, ⟨fun _ => none, fun _ => none⟩⟩

/-- Two requests on one day, the second of which has to wait. -/
def twoRequests : List (PacingEvent ℕ ℕ) :=
  [.acquire 0 1 60 none 1 0, .acquire 1 3 60 none 1 0, .turn 0 0, .turn 1 0, .turn 1 (1 / 2)]

/-- The limiter's day is the one a request reads. -/
def onItsDay (s : Pacing ℕ ℕ) : PacingEvent ℕ ℕ → Bool
  | .acquire _ _ _ _ today _ => today = s.limiter.day
  | .turn _ _ => true
  | _ => false

theorem onward_of_onItsDay (s : Pacing ℕ ℕ) (e : PacingEvent ℕ ℕ) (h : onItsDay s e = true) : s.Onward e := by
  cases e with
  | acquire _ _ _ _ today _ => exact fun _ _ _ _ => of_decide_eq_true h
  | turn _ _ => trivial
  | _ => cases h

/-- Two requests, half a second apart. -/
theorem paced_and_accounted_twoRequests :
    ∃ s, Runs (step sampleLimiter) Onward (new ℕ 1) twoRequests s ∧
      s.log.filterMap Note.allows = [(1, 1 / 2), (0, 0)] ∧
      (s.log.filterMap Note.allows).Pairwise (fun a b => fl (min a.2 b.2 + 1 / 2) ≤ max a.2 b.2) ∧
      s.limiter.used = 2 ∧ s.limiter.used = usedByLog s.log := by
  obtain ⟨s, hrun, hs⟩ := Runs.exists_of_exec (step sampleLimiter) (new ℕ 1) twoRequests (D := onItsDay)
    (P := fun s => s.log.filterMap Note.allows = [(1, 1 / 2), (0, 0)] ∧ s.limiter.used = 2) onward_of_onItsDay
    (by decide +kernel)
  obtain ⟨hallowed, hused⟩ := of_decide_eq_true hs
  have h := paced_and_accounted sampleLimiter 1 twoRequests s (hrun.mono fun _ _ _ => trivial)
  exact ⟨s, hrun, hallowed, h.1, hused, h.2.2.2.2.2.2.2 hrun⟩

/-- The first day comes back while a slot reserved on it is out. -/
def dayComesBack : List (PacingEvent ℕ ℕ) :=
  [.acquire 0 1 60 none 1 0, .turn 0 0, .usage 2, .usage 1, .acquire 1 1 60 none 1 1, .refund 0]

/-- The interval of TheIntroDB: ten thirtieths of a second and a hundredth. -/
def introDbLimiter : LimiterConfig :=
  ⟨fl (fl (10 / 30) + fl (1 / 100)), 1 / 5, 5, 600, ⟨fun _ => none, fun _ => none⟩⟩

/-- Two requests, days after the clock's start. -/
def daysLater : List (PacingEvent ℕ ℕ) :=
  [.acquire 0 1 60 none 1 500001, .turn 0 500001, .acquire 1 1 60 none 1 500001, .turn 1 500002]

/-- **A slot refunded to the wrong day**: one slot was reserved since the day began, and not refunded, but none counts as
used. And two slots are nearer than the interval, as their sum was rounded down. -/
theorem refunded_to_wrong_day :
    (∃ s, Runs (step sampleLimiter) Any (new ℕ 1) dayComesBack s ∧
      s.limiter.used = 0 ∧ Note.slots.openSince Note.beginsDay s.log = [1] ∧ usedByLog s.log = 1) ∧
    ∃ s, Runs (step introDbLimiter) Any (new ℕ 1) daysLater s ∧
      ∃ later, s.log.filterMap Note.allows = [(1, later), (0, 500001)] ∧ later - 500001 < introDbLimiter.minIntervalS := by
  constructor
  · obtain ⟨s, hrun, hs⟩ := Runs.exists_of_exec (step sampleLimiter) (new ℕ 1) dayComesBack (D := fun _ _ => true)
      (P := fun s => s.limiter.used = 0 ∧ Note.slots.openSince Note.beginsDay s.log = [1] ∧ usedByLog s.log = 1)
      (fun _ _ _ => trivial) (by decide +kernel)
    exact ⟨s, hrun, of_decide_eq_true hs⟩
  · obtain ⟨s, hrun, hs⟩ := Runs.exists_of_exec (step introDbLimiter) (new ℕ 1) daysLater (D := fun _ _ => true)
      (P := fun s => s.log.filterMap Note.allows = [(1, fl (500001 + introDbLimiter.minIntervalS)), (0, 500001)] ∧
        fl (500001 + introDbLimiter.minIntervalS) - 500001 < introDbLimiter.minIntervalS)
      (fun _ _ _ => trivial) (by decide +kernel)
    exact ⟨s, hrun, fl (500001 + introDbLimiter.minIntervalS), of_decide_eq_true hs⟩

end Pacing

end MediaPreview.Sources
