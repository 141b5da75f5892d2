import Mathlib.Data.List.Count
import Mathlib.Data.List.Perm.Basic

/-!
# Parties that move one at a time

A system of parties (callers, threads, tasks) as the list of where each of them is. A step
moves one of them: the list is set at its index. What a step can change of a count over the
list is then the moved party's own share (`countP_set_move`).
-/

namespace MediaPreview.Parties

variable {α : Type*} {l : List α} {i : ℕ} {a b c : α}

/-- A party's share of a count. -/
theorem share (b : Bool) : (if b = true then 1 else 0) = b.toNat := by
  cases b <;> rfl

/-- A count after one party moved from `a` to `b`. -/
theorem countP_set_move (h : l[i]? = some a) (p : α → Bool) (b : α) :
    (l.set i b).countP p + (p a).toNat = l.countP p + (p b).toNat := by
  obtain ⟨hi, rfl⟩ := List.getElem?_eq_some_iff.1 h
  have hset := List.countP_set (p := p) (a := b) hi
  have hpos : (if p l[i] then 1 else 0) ≤ l.countP p := by
    split
    · exact List.countP_pos_iff.2 ⟨_, List.getElem_mem hi, ‹_›⟩
    · exact Nat.zero_le _
  rw [share] at hpos
  rw [hset, share, share]
  omega

/-- A count after a party came. -/
theorem countP_concat (p : α → Bool) (l : List α) (b : α) : (l ++ [b]).countP p = l.countP p + (p b).toNat := by
  rw [List.countP_append, List.countP_singleton]
  cases p b <;> rfl

/-- A party with a property is counted. -/
theorem toNat_le_countP (h : l[i]? = some a) (p : α → Bool) : (p a).toNat ≤ l.countP p := by
  cases hp : p a with
  | false => exact Nat.zero_le _
  | true => exact List.countP_pos_iff.2 ⟨a, List.mem_of_getElem? h, hp⟩

/-- Whoever did not move is still there. -/
theorem mem_set_of_ne (h : l[i]? = some a) (hc : c ∈ l) (hne : c ≠ a) : c ∈ l.set i b := by
  obtain ⟨j, hj⟩ := List.mem_iff_getElem?.1 hc
  refine List.mem_iff_getElem?.2 ⟨j, ?_⟩
  have hij : i ≠ j := by
    rintro rfl
    rw [h] at hj
    exact hne (Option.some.inj hj).symm
  rw [List.getElem?_set_ne hij, hj]

/-- A count after a party left. -/
theorem countP_eraseIdx (h : l[i]? = some a) (p : α → Bool) :
    (l.eraseIdx i).countP p + (p a).toNat = l.countP p := by
  obtain ⟨hi, rfl⟩ := List.getElem?_eq_some_iff.1 h
  have hperm := (List.getElem_cons_eraseIdx_perm hi).countP_eq p
  rw [List.countP_cons] at hperm
  rw [← hperm]
  cases p l[i] <;> rfl

/-- A count with a party before the others. -/
theorem countP_cons_eq (p : α → Bool) (a : α) (l : List α) : (a :: l).countP p = l.countP p + (p a).toNat := by
  rw [List.countP_cons]
  cases p a <;> rfl

/-- Two lists are the same files in some order when every kind of file is as often in both. -/
theorem perm_of_countP {l l' : List α} (h : ∀ p : α → Bool, l.countP p = l'.countP p) : l.Perm l' := by
  classical
  exact List.perm_iff_count.2 fun x => h (· == x)

end MediaPreview.Parties
