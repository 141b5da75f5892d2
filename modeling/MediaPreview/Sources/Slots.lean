import Mathlib.Algebra.Order.Ring.Rat
import Mathlib.Data.List.Pairwise
import Mathlib.Tactic.Linarith
import MediaPreview.Sources.Pacing

/-!
# Time slots

Every time slot given, whether reserved or moved to, is at or after the one given before plus `min_interval_s`, as that
sum is rounded, and the next free slot is past them all (`Spaced`). So the slots of the callers told ALLOWED are that far
apart, and what each was told came neither before its slot nor within a block (`Note.Fair`).
-/

namespace MediaPreview.Sources

open Binary64

namespace Note

/-- What a note may tell: a LOW caller reserved only above the reserve share, and a caller was told ALLOWED neither before
its slot nor before the end of the block. -/
def Fair (cfg : LimiterConfig) : Note → Prop
  | .reserved _ _ priority remaining limit => priorityLow ≤ priority →
      ∀ r l, remaining = some r → limit = some l → fl (cfg.reserveFraction * fl l) < r
  | .allowed _ slot now blockedUntil => slot ≤ now ∧ blockedUntil ≤ now
  | _ => True

end Note

namespace Pacing

variable {τ δ : Type*} {cfg : LimiterConfig} {s s' : Pacing τ δ} {t : τ}

/-- The time slots given, and the callers that have them. -/
structure Spaced (cfg : LimiterConfig) (s : Pacing τ δ) : Prop where
  /-- Each is an interval after the one before. -/
  apart : 0 ≤ cfg.minIntervalS → (s.log.filterMap Note.gives).Pairwise fun a b => fl (b.2 + cfg.minIntervalS) ≤ a.2
  /-- The next free slot is past them. -/
  free : 0 ≤ cfg.minIntervalS → ∀ a ∈ s.log.filterMap Note.gives, fl (a.2 + cfg.minIntervalS) ≤ s.limiter.nextSlot
  /-- They are `float`s. -/
  float : ∀ a ∈ s.log.filterMap Note.gives, fl a.2 = a.2
  /-- So are the next free slot and the end of the block. -/
  limiter_float : fl s.limiter.nextSlot = s.limiter.nextSlot ∧ fl s.limiter.blockedUntil = s.limiter.blockedUntil
  /-- A waiting caller has one, not past its deadline, and was not told ALLOWED. -/
  waits : ∀ t w, s.callers t = .waiting w → (w.ticket.slotId, w.slot) ∈ s.log.filterMap Note.gives ∧
    w.slot ≤ w.deadline ∧ w.ticket.slotId ∉ (s.log.filterMap Note.allows).map Prod.fst
  /-- So has one that was. -/
  allowed : ∀ a ∈ s.log.filterMap Note.allows, a ∈ s.log.filterMap Note.gives
  /-- And it was told once. -/
  once : ((s.log.filterMap Note.allows).map Prod.fst).Nodup
  /-- It is one of those made. -/
  below : ∀ a ∈ s.log.filterMap Note.allows, a.1 < s.made

theorem spaced_new (day : δ) : (new τ day).Spaced cfg where
  apart _ := .nil
  free _ a ha := nomatch ha
  float a ha := nomatch ha
  limiter_float := ⟨fl_zero, fl_zero⟩
  waits t w h := by cases h
  allowed a ha := nomatch ha
  once := .nil
  below a ha := nomatch ha

/-- What gives no slot, tells nobody ALLOWED and sends no caller to wait keeps them. -/
theorem Spaced.frame (h : s.Spaced cfg) (hnext : s'.limiter.nextSlot = s.limiter.nextSlot)
    (hblock : fl s'.limiter.blockedUntil = s'.limiter.blockedUntil) (hmade : s'.made = s.made)
    (hgives : s'.log.filterMap Note.gives = s.log.filterMap Note.gives)
    (hallows : s'.log.filterMap Note.allows = s.log.filterMap Note.allows)
    (hwaits : ∀ t w, s'.callers t = .waiting w → ∃ w', s.callers t = .waiting w' ∧ w'.ticket = w.ticket ∧
      w'.slot = w.slot ∧ w'.deadline = w.deadline) : s'.Spaced cfg where
  apart := by rw [hgives]; exact h.apart
  free := by rw [hgives, hnext]; exact h.free
  float := by rw [hgives]; exact h.float
  limiter_float := ⟨by rw [hnext]; exact h.limiter_float.1, hblock⟩
  waits t w ht := by
    obtain ⟨w', hw', hticket, hslot, hdeadline⟩ := hwaits t w ht
    rw [hgives, hallows, ← hticket, ← hslot, ← hdeadline]
    exact h.waits t w' hw'
  allowed := by rw [hgives, hallows]; exact h.allowed
  once := by rw [hallows]; exact h.once
  below := by rw [hallows, hmade]; exact h.below

/-- A slot past the next free one is given: the slots stay apart, and it is the last. -/
theorem Spaced.give (h : s.Spaced cfg) {slot : ℚ} (hslot : s.limiter.nextSlot ≤ slot) (i : ℕ)
    (h0 : 0 ≤ cfg.minIntervalS) :
    ((i, slot) :: s.log.filterMap Note.gives).Pairwise (fun a b => fl (b.2 + cfg.minIntervalS) ≤ a.2) ∧
      ∀ a ∈ (i, slot) :: s.log.filterMap Note.gives, fl (a.2 + cfg.minIntervalS) ≤ fl (slot + cfg.minIntervalS) := by
  refine ⟨List.pairwise_cons.2 ⟨fun a ha => (h.free h0 a ha).trans hslot, h.apart h0⟩, fun a ha => ?_⟩
  obtain rfl | ha := List.mem_cons.1 ha
  · exact le_rfl
  -- the slot before is no later, as it is not rounded and the interval is not negative
  · have hle : a.2 ≤ fl (a.2 + cfg.minIntervalS) := le_fl (h.float a ha) (le_add_of_nonneg_right h0)
    have hslot' : a.2 ≤ slot := hle.trans ((h.free h0 a ha).trans hslot)
    exact fl_mono (by linarith)

/-- The next free slot is no rounded number, if the clock's time is none. -/
theorem Spaced.fl_freeSlot (h : s.Spaced cfg) {now : ℚ} (hnow : fl now = now) :
    fl (s.limiter.freeSlot now) = s.limiter.freeSlot now :=
  fl_max hnow (fl_max h.limiter_float.1 h.limiter_float.2)

variable [DecidableEq τ]

/-- A caller that leaves `acquire` waits no more. -/
theorem of_update_idle {callers : τ → Caller δ} {k : Option (Ticket δ)} {t' : τ} {w : Wait δ}
    (h : Function.update callers t (.idle k) t' = .waiting w) : callers t' = .waiting w ∧ t' ≠ t := by
  obtain rfl | hne := eq_or_ne t' t
  · rw [Function.update_self] at h
    cases h
  · rw [Function.update_of_ne hne] at h
    exact ⟨h, hne⟩

/-- A thread's place is changed: it is the one that waits, or another that waited before. -/
theorem of_update_waiting {callers : τ → Caller δ} {w w' : Wait δ} {t' : τ}
    (h : Function.update callers t (.waiting w) t' = .waiting w') :
    (t' = t ∧ w' = w) ∨ (t' ≠ t ∧ callers t' = .waiting w') := by
  obtain rfl | hne := eq_or_ne t' t
  · rw [Function.update_self] at h
    exact .inl ⟨rfl, (Caller.waiting.inj h).symm⟩
  · rw [Function.update_of_ne hne] at h
    exact .inr ⟨hne, h⟩

theorem Spaced.dropTicket (h : s.Spaced cfg) {k : Option (Ticket δ)} : (s.setCaller t (.idle k)).Spaced cfg :=
  h.frame rfl h.limiter_float.2 rfl rfl rfl fun _ w ht => ⟨w, (of_update_idle ht).1, rfl, rfl, rfl⟩

theorem Spaced.reserve (h : s.Spaced cfg) {priority : ℤ} {slot deadline : ℚ} (hslot : s.limiter.nextSlot ≤ slot)
    (hfloat : fl slot = slot) (hdeadline : slot ≤ deadline) : (s.reserve cfg t priority slot deadline).Spaced cfg where
  apart h0 := (h.give hslot s.made h0).1
  free h0 := (h.give hslot s.made h0).2
  float := List.forall_mem_cons.2 ⟨hfloat, h.float⟩
  limiter_float := ⟨fl_fl _, h.limiter_float.2⟩
  waits t' w ht := by
    obtain ⟨-, rfl⟩ | ⟨-, ht⟩ := of_update_waiting ht
    · refine ⟨.head _, hdeadline, fun hmem => ?_⟩
      obtain ⟨a, ha, heq⟩ := List.mem_map.1 hmem
      have hlt : a.1 < s.made := h.below a ha
      rw [heq] at hlt
      exact lt_irrefl _ hlt
    · obtain ⟨hgives, hle, hnot⟩ := h.waits t' w ht
      exact ⟨.tail _ hgives, hle, hnot⟩
  allowed a ha := .tail _ (h.allowed a ha)
  once := h.once
  below a ha := Nat.lt_succ_of_lt (h.below a ha)

theorem Spaced.move (h : s.Spaced cfg) {w : Wait δ} (ht : s.callers t = .waiting w) {slot : ℚ}
    (hslot : s.limiter.nextSlot ≤ slot) (hfloat : fl slot = slot) (hdeadline : slot ≤ w.deadline) :
    (s.move cfg t w slot).Spaced cfg where
  apart h0 := (h.give hslot w.ticket.slotId h0).1
  free h0 := (h.give hslot w.ticket.slotId h0).2
  float := List.forall_mem_cons.2 ⟨hfloat, h.float⟩
  limiter_float := ⟨fl_fl _, h.limiter_float.2⟩
  waits t' w' ht' := by
    obtain ⟨-, rfl⟩ | ⟨-, ht'⟩ := of_update_waiting ht'
    · exact ⟨.head _, hdeadline, (h.waits t w ht).2.2⟩
    · obtain ⟨hgives, hle, hnot⟩ := h.waits t' w' ht'
      exact ⟨.tail _ hgives, hle, hnot⟩
  allowed a ha := .tail _ (h.allowed a ha)
  once := h.once
  below := h.below

/-- A turn's end: the caller is told ALLOWED, or waits on. -/
theorem Spaced.endTurn (h : s.Spaced cfg) {w : Wait δ} (ht : s.callers t = .waiting w) (hmade : w.ticket.slotId < s.made)
    (halone : ∀ t' w', t' ≠ t → s.callers t' = .waiting w' → w'.ticket.slotId ≠ w.ticket.slotId) {now : ℚ} :
    (s.endTurn t w now).Spaced cfg := by
  unfold Pacing.endTurn
  split_ifs
  · refine ⟨h.apart, h.free, h.float, h.limiter_float, fun t' w' ht' => ?_, fun a ha => ?_, ?_, fun a ha => ?_⟩
    · obtain ⟨ht', hne⟩ := of_update_idle ht'
      obtain ⟨hgives, hle, hnot⟩ := h.waits t' w' ht'
      refine ⟨hgives, hle, fun hmem => ?_⟩
      obtain heq | hmem := List.mem_cons.1 hmem
      · exact halone t' w' hne ht' heq
      · exact hnot hmem
    · obtain rfl | ha := List.mem_cons.1 ha
      · exact (h.waits t w ht).1
      · exact h.allowed a ha
    · exact List.nodup_cons.2 ⟨(h.waits t w ht).2.2, h.once⟩
    · obtain rfl | ha := List.mem_cons.1 ha
      · exact hmade
      · exact h.below a ha
  · refine h.frame rfl h.limiter_float.2 rfl rfl rfl fun t' w' ht' => ?_
    obtain ⟨rfl, rfl⟩ | ⟨-, ht'⟩ := of_update_waiting ht'
    · exact ⟨w, ht, rfl, rfl, rfl⟩
    · exact ⟨w', ht', rfl, rfl, rfl⟩

omit [DecidableEq τ] in
/-- **The slots of the callers told ALLOWED are an interval apart**: the later is at or after the earlier one plus the
interval, rounded. -/
theorem Spaced.allowed_apart (h : s.Spaced cfg) :
    (s.log.filterMap Note.allows).Pairwise fun a b => fl (min a.2 b.2 + cfg.minIntervalS) ≤ max a.2 b.2 := by
  have hfloat : ∀ a ∈ s.log.filterMap Note.allows, fl a.2 = a.2 := fun a ha => h.float a (h.allowed a ha)
  obtain hneg | h0 := lt_or_ge cfg.minIntervalS 0
  · refine (List.pairwise_of_forall_mem_list fun a ha b hb => ?_)
    have hle : min a.2 b.2 ≤ max a.2 b.2 := min_le_max
    exact fl_le (fl_max (hfloat a ha) (hfloat b hb)) (by linarith)
  have hne : (s.log.filterMap Note.allows).Pairwise fun a b => a.1 ≠ b.1 := List.pairwise_map.1 h.once
  refine hne.imp_of_mem fun {a b} ha hb hab => ?_
  have hsymm : Std.Symm fun x y : ℕ × ℚ => fl (min x.2 y.2 + cfg.minIntervalS) ≤ max x.2 y.2 :=
    ⟨fun x y hxy => by rwa [min_comm, max_comm]⟩
  have hapart : (s.log.filterMap Note.gives).Pairwise fun x y => fl (min x.2 y.2 + cfg.minIntervalS) ≤ max x.2 y.2 := by
    refine (h.apart h0).imp fun {x y} hxy => ?_
    exact (fl_mono (by linarith [min_le_right x.2 y.2])).trans (hxy.trans (le_max_left _ _))
  exact hapart.forall (h.allowed a ha) (h.allowed b hb) fun heq => hab (congrArg Prod.fst heq)

end Pacing

end MediaPreview.Sources
