import Mathlib.Data.Nat.Notation
import Mathlib.Logic.Relation

/-!
# Hopping until there is no next

A loop that goes from one place to the next while there is one (`hop`). Where every hop makes a measure smaller it ends at a
place that has no next (`hop_spec`), and what every hop keeps holds there (`hop_keeps`).
-/

namespace MediaPreview.Hops

open Relation

variable {α : Type*} (next : α → Option α)

/-- Hops, for at most so many rounds. -/
def hop : ℕ → α → α
  | 0, a => a
  | fuel + 1, a =>
    match next a with
    | none => a
    | some b => hop fuel b

variable {next}

theorem hop_of_none {a : α} (h : next a = none) (fuel : ℕ) : hop next fuel a = a := by
  cases fuel with
  | zero => rfl
  | succ fuel => rw [hop, h]

theorem hop_of_some {a b : α} (h : next a = some b) (fuel : ℕ) : hop next (fuel + 1) a = hop next fuel b := by
  rw [hop, h]

/-- **Hops end where there is no next**, if each makes the measure smaller and there are rounds enough. -/
theorem hop_spec (size : α → ℕ) (hsize : ∀ a b, next a = some b → size b < size a) {fuel : ℕ} {a : α}
    (h : size a ≤ fuel) :
    ReflTransGen (fun a b => next a = some b) a (hop next fuel a) ∧ next (hop next fuel a) = none := by
  induction fuel generalizing a with
  | zero =>
    refine ⟨.refl, Option.eq_none_iff_forall_ne_some.2 fun b hb => ?_⟩
    have hlt := hsize a b hb
    omega
  | succ fuel ih =>
    cases hnext : next a with
    | none =>
      rw [hop_of_none hnext]
      exact ⟨.refl, hnext⟩
    | some b =>
      have hlt := hsize a b hnext
      obtain ⟨hchain, hend⟩ := ih (by omega : size b ≤ fuel)
      rw [hop_of_some hnext]
      exact ⟨.head hnext hchain, hend⟩

/-- What every hop keeps holds where they end. -/
theorem hop_keeps {P : α → Prop} (hstep : ∀ a b, P a → next a = some b → P b) {fuel : ℕ} {a : α} (h : P a) :
    P (hop next fuel a) := by
  induction fuel generalizing a with
  | zero => exact h
  | succ fuel ih =>
    cases hnext : next a with
    | none =>
      rw [hop_of_none hnext]
      exact h
    | some b =>
      rw [hop_of_some hnext]
      exact ih (hstep a b h hnext)

end MediaPreview.Hops
