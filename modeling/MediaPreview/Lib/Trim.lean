import Mathlib.Algebra.BigOperators.Group.List.Basic
import Mathlib.Algebra.Ring.Nat

/-!
# Trimming a store to a cap, oldest first

Keys in order of age, each of some weight, of which only the idle ones may go. They are gone through from the oldest
until what is left weighs no more than the cap (`trim`). What is left fits, or every idle key is gone (`trim_fits`); no
key goes before an older idle one (`trim_oldest`).
-/

namespace MediaPreview.Trim

variable {κ : Type*} (idle : κ → Bool) (weight : κ → ℕ) (cap : ℕ)

/-- The keys removed of `keys`, the oldest first, of a store that weighs `total`. -/
def trim : ℕ → List κ → List κ
  | _, [] => []
  | total, k :: ks =>
    if total ≤ cap then [] else if idle k then k :: trim (total - weight k) ks else trim total ks

variable {idle weight cap}

theorem trim_sublist (total : ℕ) (keys : List κ) : (trim idle weight cap total keys).Sublist keys := by
  induction keys generalizing total with
  | nil => exact .slnil
  | cons k ks ih =>
    rw [trim]
    split_ifs
    · exact List.nil_sublist _
    · exact (ih _).cons_cons k
    · exact (ih _).cons k

theorem idle_of_mem_trim {total : ℕ} {keys : List κ} {k : κ} (h : k ∈ trim idle weight cap total keys) :
    idle k = true := by
  induction keys generalizing total with
  | nil => cases h
  | cons k' ks ih =>
    rw [trim] at h
    split_ifs at h with hfits hidle
    · cases h
    · rcases List.mem_cons.mp h with rfl | h
      · exact hidle
      · exact ih h
    · exact ih h

/-- **No key goes before an older idle one**, also of a store some keys of which, the latest ones, never go. -/
theorem trim_oldest {total : ℕ} {keys : List κ} (rest : List κ) (hkeys : (keys ++ rest).Nodup) {a b : κ}
    (hab : [a, b].Sublist (keys ++ rest)) (ha : idle a = true) (hb : b ∈ trim idle weight cap total keys) :
    a ∈ trim idle weight cap total keys := by
  induction keys generalizing total with
  | nil => cases hb
  | cons k ks ih =>
    obtain ⟨hk, hks⟩ := List.nodup_cons.mp hkeys
    rw [trim] at hb ⊢
    split_ifs at hb ⊢ with hfits hidle
    · cases hb
    · cases hab with
      | cons _ hab =>
        have hne : b ≠ k := fun heq => hk (heq ▸ hab.subset (.tail _ (.head _)))
        exact .tail _ (ih hks hab ((List.mem_cons.mp hb).resolve_left hne))
      | cons_cons _ _ => exact .head _
    · cases hab with
      | cons _ hab => exact ih hks hab hb
      | cons_cons _ _ => exact absurd ha hidle

/-- **What is left fits, or every idle key is gone.** -/
theorem trim_fits (total : ℕ) (keys : List κ) :
    total - ((trim idle weight cap total keys).map weight).sum ≤ cap ∨
      ∀ k ∈ keys, idle k = true → k ∈ trim idle weight cap total keys := by
  induction keys generalizing total with
  | nil => exact .inr fun _ hk => absurd hk List.not_mem_nil
  | cons k ks ih =>
    rw [trim]
    split_ifs with hfits hidle
    · exact .inl hfits
    · rcases ih (total - weight k) with hle | hgone
      · rw [List.map_cons, List.sum_cons, ← Nat.sub_sub]
        exact .inl hle
      · refine .inr fun k' hk' hi => ?_
        rcases List.mem_cons.mp hk' with rfl | hk'
        · exact .head _
        · exact .tail _ (hgone k' hk' hi)
    · rcases ih total with hle | hgone
      · exact .inl hle
      · refine .inr fun k' hk' hi => ?_
        rcases List.mem_cons.mp hk' with rfl | hk'
        · exact absurd hi hidle
        · exact hgone k' hk' hi

/-- What is left of a store weighs what it weighed less what is removed. -/
theorem sum_left [DecidableEq κ] (weight : κ → ℕ) {keys removed : List κ} (hkeys : keys.Nodup)
    (h : removed.Sublist keys) :
    ((keys.filter (· ∉ removed)).map weight).sum = (keys.map weight).sum - (removed.map weight).sum := by
  have hremoved : (keys.filter (· ∈ removed)).Perm removed := by
    refine (List.perm_ext_iff_of_nodup (hkeys.filter _) (h.nodup hkeys)).mpr fun k => ?_
    rw [List.mem_filter, decide_eq_true_eq]
    exact ⟨And.right, fun hk => ⟨h.subset hk, hk⟩⟩
  have hsplit : (removed ++ keys.filter (· ∉ removed)).Perm keys := by
    refine (hremoved.symm.append_right _).trans ?_
    simpa only [decide_not] using List.filter_append_perm (fun k => decide (k ∈ removed)) keys
  have hsum := (hsplit.map weight).sum_eq
  rw [List.map_append, List.sum_append] at hsum
  omega

end MediaPreview.Trim
