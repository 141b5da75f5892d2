import MediaPreview.Sources.Budget

/-!
# The day's usage

What was used today is what was seeded and the slots reserved since the day began and not refunded (`Counted`): a
ticket's day is the limiter's exactly while its slot was reserved since, as long as no day comes back while a slot
reserved on it can still be given back (`Onward`).
-/

namespace MediaPreview.Sources

namespace Pacing

variable {τ δ : Type*} {cfg : LimiterConfig} {s s' : Pacing τ δ} {t : τ} {n : Note} {k : Ticket δ}

/-- The days of the tickets held, and what was used. -/
structure Counted (s : Pacing τ δ) : Prop where
  /-- A ticket is of today when its slot was reserved since the day began. -/
  day_eq_iff : ∀ t k, (s.callers t).held = some k →
    (k.day = s.limiter.day ↔ k.slotId ∈ Note.slots.openSince Note.beginsDay s.log)
  /-- What was used. -/
  used : s.limiter.used = usedByLog s.log

/-- No day comes back on which a slot was reserved that can still be given back. -/
def NotBack (s : Pacing τ δ) (today : δ) : Prop :=
  ∀ t k, (s.callers t).held = some k → k.day = today → today = s.limiter.day

theorem counted_new (day : δ) : (new τ day).Counted where
  day_eq_iff t k h := by cases h
  used := rfl

/-- A change of neither the log, the day nor what was used, by which no thread gets a ticket. -/
theorem Counted.frame (h : s.Counted) (hheld : ∀ t k, (s'.callers t).held = some k → (s.callers t).held = some k)
    (hlog : s'.log = s.log) (hday : s'.limiter.day = s.limiter.day) (hused : s'.limiter.used = s.limiter.used) :
    s'.Counted where
  day_eq_iff t k hk := by rw [hday, hlog]; exact h.day_eq_iff t k (hheld t k hk)
  used := by rw [hused, hlog]; exact h.used

/-- A note of no slot, day or seed. -/
theorem Counted.note (h : s.Counted) (ho : n.opens = none) (hc : n.closes = none) (hd : n.beginsDay = false)
    (hs : seededToday (n :: s.log) = seededToday s.log) : { s with log := n :: s.log }.Counted := by
  have hopen : Note.slots.openSince Note.beginsDay (n :: s.log) = Note.slots.openSince Note.beginsDay s.log :=
    Ledger.openSince_skip hd ho hc
  refine ⟨fun t k hk => ?_, ?_⟩
  · rw [hopen]
    exact h.day_eq_iff t k hk
  · rw [usedByLog, hopen, hs]
    exact h.used

/-- What remains is replaced. -/
theorem Counted.replaceBy (h : s.Counted) {l : Limiter δ} {value : Option ℤ}
    (hl : (s.limiter.replaceBy value).SameCounts l) :
    { s with
      limiter := l
      log := (value.elim [] fun r => [Note.replaced r]) ++ s.log }.Counted := by
  cases value with
  | none => exact h.frame (fun _ _ hk => hk) rfl hl.day hl.used
  | some r => exact (h.note (n := .replaced r) rfl rfl rfl rfl).frame (fun _ _ hk => hk) rfl hl.day hl.used

/-- The usage is seeded, which it only is when none was used. -/
theorem Counted.seeded (h : s.Counted) (hs : s.limiter.used = 0) (used : ℕ) :
    { s with
      limiter := { s.limiter with used := used }
      log := .seeded used :: s.log }.Counted := by
  have hopen : Note.slots.openSince Note.beginsDay (.seeded used :: s.log) =
      Note.slots.openSince Note.beginsDay s.log := Ledger.openSince_skip rfl rfl rfl
  refine ⟨fun t k hk => ?_, ?_⟩
  · rw [hopen]
    exact h.day_eq_iff t k hk
  · have hused := h.used
    rw [hs, usedByLog] at hused
    show used = used + _
    rw [hopen]
    omega

/-- The day is read: it is the same, or none of a slot that can still be given back. -/
theorem Counted.rollDay [DecidableEq δ] (h : s.Counted) {today : δ} (ht : s.NotBack today) : (s.rollDay today).Counted := by
  unfold Pacing.rollDay Limiter.rollDay
  split_ifs with hday
  · exact h
  · exact ⟨fun t k hk => ⟨fun heq => absurd (ht t k hk heq) hday, fun hmem => nomatch hmem⟩, rfl⟩

variable [DecidableEq τ]

/-- The same, of the day an event reads, once its own thread has dropped its ticket. -/
def Onward (s : Pacing τ δ) : PacingEvent τ δ → Prop
  | .acquire t _ _ _ today _ => (s.setCaller t (.idle none)).NotBack today
  | .record t _ _ today _ _ => (s.setCaller t (.idle none)).NotBack today
  | .seed _ _ _ _ today => s.NotBack today
  | .usage today => s.NotBack today
  | _ => True

theorem Counted.dropTicket (h : s.Counted) : (s.setCaller t (.idle none)).Counted :=
  h.frame (fun _ _ hk => (of_held_update hk).2) rfl rfl rfl

/-- A waiting caller's slot is moved. -/
theorem Counted.move (h : s.Counted) {w : Wait δ} (ht : s.callers t = .waiting w) {slot : ℚ} :
    (s.move cfg t w slot).Counted := by
  have hk : (s.callers t).held = some w.ticket := by rw [ht]; rfl
  exact (h.note (n := .moved w.ticket.slotId slot) rfl rfl rfl rfl).frame
    (fun _ _ hk' => of_held_update_same hk rfl hk') rfl rfl rfl

/-- A turn's end. -/
theorem Counted.endTurn (h : s.Counted) {w : Wait δ} (ht : s.callers t = .waiting w) {now : ℚ} :
    (s.endTurn t w now).Counted := by
  have hk : (s.callers t).held = some w.ticket := by rw [ht]; rfl
  unfold Pacing.endTurn
  split_ifs
  · exact (h.note (n := .allowed w.ticket.slotId w.slot now s.limiter.blockedUntil) rfl rfl rfl rfl).frame
      (fun _ _ hk' => of_held_update_same hk rfl hk') rfl rfl rfl
  · exact h.frame (fun _ _ hk' => of_held_update_same hk rfl hk') rfl rfl rfl

/-- A slot is reserved. -/
theorem Counted.reserve (h : s.Counted) (ha : s.Accounts) {priority : ℤ} {slot deadline : ℚ} :
    (s.reserve cfg t priority slot deadline).Counted := by
  have hopen : Note.slots.openSince Note.beginsDay (s.reserve cfg t priority slot deadline).log =
      s.made :: Note.slots.openSince Note.beginsDay s.log := Ledger.openSince_open rfl rfl
  refine ⟨fun t' k' hk' => ?_, ?_⟩
  · rw [hopen]
    change (Function.update s.callers t _ t').held = some k' at hk'
    obtain rfl | hne := eq_or_ne t' t
    · rw [Function.update_self] at hk'
      obtain rfl := Option.some.inj hk'
      exact ⟨fun _ => .head _, fun _ => rfl⟩
    · rw [Function.update_of_ne hne] at hk'
      rw [List.mem_cons, or_iff_right (ha.held_lt t' k' hk').ne]
      exact h.day_eq_iff t' k' hk'
  · show s.limiter.used + 1 = seededToday s.log + _
    rw [hopen, h.used, usedByLog, List.length_cons, Nat.add_assoc]

/-- **A slot is given back**, to the day it was reserved on. -/
theorem Counted.giveBack [DecidableEq δ] (h : s.Counted) (ha : s.Accounts) (hk : (s.callers t).held = some k) :
    ((s.giveBack k).setCaller t (.idle none)).Counted := by
  refine ⟨fun t' k' hk' => ?_, ?_⟩
  · obtain ⟨hne, hk'⟩ := of_held_update hk'
    have hid : k'.slotId ≠ k.slotId := fun heq => hne (ha.alone t' t k' k hk' hk heq)
    exact (h.day_eq_iff t' k' hk').trans (Ledger.mem_openSince_close rfl rfl rfl hid).symm
  · show (if k.day = s.limiter.day ∧ 0 < s.limiter.used then s.limiter.used - 1 else s.limiter.used) =
      seededToday s.log + (Note.slots.openSince Note.beginsDay (.refunded k.slotId :: s.log)).length
    have hused := h.used
    rw [usedByLog] at hused
    by_cases hmem : k.slotId ∈ Note.slots.openSince Note.beginsDay s.log
    · have hlen : (Note.slots.openSince Note.beginsDay (.refunded k.slotId :: s.log)).length + 1 =
          (Note.slots.openSince Note.beginsDay s.log).length := Ledger.length_openSince_close rfl rfl rfl hmem
      rw [if_pos ⟨(h.day_eq_iff t k hk).2 hmem, by omega⟩]
      omega
    · rw [if_neg fun hday => hmem ((h.day_eq_iff t k hk).1 hday.1), Ledger.openSince_close_of_notMem rfl rfl rfl hmem]
      exact hused

end Pacing

end MediaPreview.Sources
