import Mathlib.Order.Basic

/-!
# Memos of a changing state

A memo keeps what was read of a state, with a tag that is compared before each read: another one empties it first. The tag
only grows, and while it stays the same no value does change; then what the memo holds under the present tag is what a
fresh read finds (`Memo.Sound`). Nothing is asked of the tag between the comparison and the read.
-/

namespace MediaPreview

/-- What was read under a tag. -/
structure Memo (γ ρ ν : Type*) where
  /-- The tag, once there is one. -/
  tag : Option γ
  /-- The values, by what was read. -/
  entries : List (ρ × ν)

namespace Memo

variable {γ ρ ν : Type*}

/-- Nothing read yet. -/
def empty : Memo γ ρ ν := ⟨none, []⟩

/-- The memo under a tag, emptied if it has another. -/
def refresh [DecidableEq γ] (m : Memo γ ρ ν) (tag : γ) : Memo γ ρ ν := if m.tag = some tag then m else ⟨some tag, []⟩

/-- The value kept of a read. -/
def find? [DecidableEq ρ] (m : Memo γ ρ ν) (r : ρ) : Option ν := (m.entries.find? fun e => e.1 = r).map Prod.snd

/-- A value is kept. -/
def add (m : Memo γ ρ ν) (r : ρ) (v : ν) : Memo γ ρ ν := { m with entries := (r, v) :: m.entries }

/-- All it holds are the values of a state. -/
def Holds (value : ρ → ν) (m : Memo γ ρ ν) : Prop := ∀ e ∈ m.entries, e.2 = value e.1

/-- The memo's tag is no later than the present one, and under the present one it holds the present values. -/
structure Sound [LE γ] (value : ρ → ν) (tag : γ) (m : Memo γ ρ ν) : Prop where
  le : ∀ t, m.tag = some t → t ≤ tag
  holds : m.tag = some tag → m.Holds value

variable {value value' : ρ → ν} {tag tag' : γ} {m : Memo γ ρ ν}

theorem Holds.find? [DecidableEq ρ] (h : m.Holds value) {r : ρ} {v : ν} (hv : m.find? r = some v) : v = value r := by
  obtain ⟨e, he, rfl⟩ := Option.map_eq_some_iff.1 hv
  have hr : e.1 = r := of_decide_eq_true (List.find?_some he :)
  rw [h e (List.mem_of_find?_eq_some he), hr]

theorem sound_empty [LE γ] (value : ρ → ν) (tag : γ) : (empty : Memo γ ρ ν).Sound value tag :=
  ⟨fun _ h => (by cases h), fun h => (by cases h)⟩

variable [PartialOrder γ]

/-- **A change that leaves the tag leaves the values**: then what is kept is as good after it. -/
theorem Sound.move (h : m.Sound value tag) (hle : tag ≤ tag') (hsame : tag' = tag → ∀ r, value' r = value r) :
    m.Sound value' tag' := by
  refine ⟨fun t ht => (h.le t ht).trans hle, fun ht e he => ?_⟩
  have heq : tag' = tag := le_antisymm (h.le tag' ht) hle
  rw [hsame heq, h.holds (heq ▸ ht) e he]

/-- After the comparison all that is kept is as it is now. -/
theorem Sound.refresh [DecidableEq γ] (h : m.Sound value tag) :
    (m.refresh tag).Sound value tag ∧ (m.refresh tag).Holds value := by
  unfold Memo.refresh
  by_cases ht : m.tag = some tag
  · rw [if_pos ht]
    exact ⟨h, h.holds ht⟩
  · rw [if_neg ht]
    refine ⟨⟨fun t ht' => (Option.some.inj ht').ge, fun _ e he => (by cases he)⟩, fun e he => (by cases he)⟩

/-- A value read now is kept, whatever the memo's tag is. -/
theorem Sound.add (h : m.Sound value tag) (r : ρ) : (m.add r (value r)).Sound value tag := by
  refine ⟨h.le, fun ht e he => ?_⟩
  obtain rfl | he := List.mem_cons.1 he
  · rfl
  · exact h.holds ht e he

end Memo

end MediaPreview
