import Mathlib.Algebra.BigOperators.Group.List.Basic
import Mathlib.Algebra.Order.Ring.Int
import Mathlib.Order.Bounds.Basic
import MediaPreview.Lib.Dict
import MediaPreview.Lib.Ranking

/-!
# Sweeping over changes

A level that changes at some points, kept as a dictionary of the changes at each point. A sweep over the points in order
adds the changes up and keeps the highest level it passes; that is the highest level there is (`isGreatest_peak`).
-/

namespace MediaPreview.Sweep

open Ranking

variable {κ : Type*} [LinearOrder κ]

/-- `changes[at] = changes.get(at, 0) + change`. -/
def bump (changes : List (κ × ℤ)) (point : κ) (change : ℤ) : List (κ × ℤ) :=
  Dict.set changes point ((Dict.get? changes point).getD 0 + change)

/-- The level at a point: all changes up to it. -/
def level (changes : List (κ × ℤ)) (t : κ) : ℤ := ((changes.filter fun change => change.1 ≤ t).map Prod.snd).sum

/-- One change of the sweep, with the level and the highest one so far. -/
def pass (s : ℤ × ℤ) (change : κ × ℤ) : ℤ × ℤ := (s.1 + change.2, max s.2 (s.1 + change.2))

/-- The highest level of the sweep, from 0 on. -/
def peak (changes : List (κ × ℤ)) : ℤ := ((sortBy Prod.fst changes).foldl pass (0, 0)).2

theorem level_nil (t : κ) : level [] t = 0 := rfl

theorem level_cons (change : κ × ℤ) (changes : List (κ × ℤ)) (t : κ) :
    level (change :: changes) t = (if change.1 ≤ t then change.2 else 0) + level changes t := by
  unfold level
  by_cases h : change.1 ≤ t
  · rw [List.filter_cons_of_pos (by simpa using h), if_pos h, List.map_cons, List.sum_cons]
  · rw [List.filter_cons_of_neg (by simpa using h), if_neg h, zero_add]

/-- **A change changes the level from its point on.** -/
theorem level_bump (changes : List (κ × ℤ)) (point : κ) (change : ℤ) (t : κ) :
    level (bump changes point change) t = level changes t + if point ≤ t then change else 0 := by
  unfold bump
  induction changes with
  | nil =>
    rw [Dict.set, level_cons, level_nil, Dict.get?]
    simp
  | cons c changes ih =>
    obtain ⟨p, v⟩ := c
    rw [Dict.set, Dict.get?]
    by_cases hp : p = point
    · rw [if_pos hp, if_pos hp, level_cons, level_cons, hp]
      dsimp only [Option.getD_some]
      split_ifs <;> omega
    · rw [if_neg hp, if_neg hp, level_cons, level_cons, ih]
      omega

theorem nodup_bump {changes : List (κ × ℤ)} (h : (changes.map Prod.fst).Nodup) (point : κ) (change : ℤ) :
    ((bump changes point change).map Prod.fst).Nodup := (Dict.nodup_set h _ _).1

theorem level_perm {changes changes' : List (κ × ℤ)} (h : changes.Perm changes') (t : κ) :
    level changes t = level changes' t := ((h.filter _).map _).sum_eq

theorem level_eq_zero {changes : List (κ × ℤ)} {t : κ} (h : ∀ c ∈ changes, t < c.1) : level changes t = 0 := by
  rw [level, List.filter_eq_nil_iff.2 fun c hc => by simpa using h c hc]
  rfl

/-- The sweep from a level on, over changes in order. -/
theorem isGreatest_foldl_pass {changes : List (κ × ℤ)} (h : changes.Pairwise fun a b => a.1 < b.1) {current highest : ℤ}
    (hle : current ≤ highest) :
    IsGreatest (insert highest (Set.range fun t => current + level changes t))
      (changes.foldl pass (current, highest)).2 := by
  induction changes generalizing current highest with
  | nil =>
    refine ⟨Set.mem_insert _ _, ?_⟩
    rintro x (rfl | ⟨t, rfl⟩)
    · exact le_refl _
    · show current + level [] t ≤ highest
      rw [level_nil, add_zero]
      exact hle
  | cons c changes ih =>
    rw [List.pairwise_cons] at h
    obtain ⟨hlater, hrest⟩ := h
    obtain ⟨hmem, hupper⟩ := ih hrest (le_max_right highest (current + c.2))
    have hlevel : ∀ t, c.1 ≤ t → current + level (c :: changes) t = current + c.2 + level changes t := by
      intro t ht
      rw [level_cons, if_pos ht, add_assoc]
    have hat : current + level (c :: changes) c.1 = current + c.2 := by
      rw [hlevel _ (le_refl _), level_eq_zero hlater, add_zero]
    refine ⟨?_, ?_⟩
    · show (changes.foldl pass (pass (current, highest) c)).2 ∈ _
      obtain heq | ⟨t, ht⟩ := hmem
      · rw [pass, heq]
        obtain hmax | hmax := max_choice highest (current + c.2)
        · rw [hmax]
          exact Set.mem_insert _ _
        · rw [hmax]
          exact Set.mem_insert_of_mem _ ⟨c.1, hat⟩
      · refine Set.mem_insert_of_mem _ ?_
        rw [pass, ← ht]
        by_cases hct : c.1 ≤ t
        · exact ⟨t, hlevel t hct⟩
        · refine ⟨c.1, hat.trans ?_⟩
          show current + c.2 = current + c.2 + level changes t
          rw [level_eq_zero fun d hd => (not_le.1 hct).trans (hlater d hd), add_zero]
    · rintro x (rfl | ⟨t, rfl⟩)
      · exact le_trans (le_max_left _ _) (hupper (Set.mem_insert _ _))
      · show current + level (c :: changes) t ≤ (changes.foldl pass (pass (current, highest) c)).2
        by_cases hct : c.1 ≤ t
        · rw [hlevel t hct]
          exact hupper (Set.mem_insert_of_mem _ ⟨t, rfl⟩)
        · have hzero : level (c :: changes) t = 0 := by
            refine level_eq_zero fun d hd => ?_
            obtain rfl | hd := List.mem_cons.1 hd
            · exact not_le.1 hct
            · exact (not_le.1 hct).trans (hlater d hd)
          rw [hzero, add_zero]
          exact hle.trans (le_trans (le_max_left _ _) (hupper (Set.mem_insert _ _)))

/-- **The sweep finds the highest level**, or 0 where every level is below it. -/
theorem isGreatest_peak {changes : List (κ × ℤ)} (h : (changes.map Prod.fst).Nodup) :
    IsGreatest (insert 0 (Set.range (level changes))) (peak changes) := by
  have hnodup : ((sortBy Prod.fst changes).map Prod.fst).Nodup := ((sortBy_perm _ _).map _).nodup_iff.2 h
  have hsorted : (sortBy Prod.fst changes).Pairwise fun a b => a.1 < b.1 := by
    refine ((pairwise_sortBy Prod.fst changes).and (List.pairwise_map.1 hnodup)).imp ?_
    exact fun hab => lt_of_le_of_ne hab.1 hab.2
  have hsweep := isGreatest_foldl_pass hsorted (le_refl 0)
  have hrange : (fun t => 0 + level (sortBy Prod.fst changes) t) = level changes := by
    funext t
    rw [zero_add, level_perm (sortBy_perm _ _)]
  rw [hrange] at hsweep
  exact hsweep

end MediaPreview.Sweep
