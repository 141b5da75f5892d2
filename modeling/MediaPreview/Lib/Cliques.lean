import MediaPreview.Lib.Window
import Mathlib.Data.Multiset.Filter
import Mathlib.Order.Minimal

/-!
# Maximal cliques of values

Elements of a list agree when their values lie within a tolerance of one another. A sublist
all of whose elements agree is a clique (`Clique`); lists are compared as multisets, so an
element that is there twice counts twice.

The elements between a value and the tolerance above it form a clique, and every clique is
among those above its smallest value (`Clique.le_above`). A maximal window of the sorted
list is therefore a maximal clique (`maximal_of_window`) and every maximal clique is such a
window (`exists_window`): the sliding windows are the maximal cliques
(`maximal_iff_mem_slidingWindows`), in strictly ascending order of their smallest value
(`pairwise_valueAt`).
-/

namespace MediaPreview.Cliques

open Window (valueAt slice slidingWindows valueAt_of_lt valueAt_mono)

variable {α : Type*} (f : α → ℤ) (tol : ℤ) (l : List α)

/-- Elements of `l` that all agree. -/
def Clique (S : Multiset α) : Prop := S ≤ (l : Multiset α) ∧ ∀ a ∈ S, ∀ b ∈ S, |f a - f b| ≤ tol

/-- The elements between `low` and the tolerance above it. -/
def above (low : ℤ) : List α := l.filter fun x => decide (low ≤ f x ∧ f x ≤ low + tol)

variable {f tol l}

theorem mem_above {low : ℤ} {a : α} : a ∈ above f tol l low ↔ a ∈ l ∧ low ≤ f a ∧ f a ≤ low + tol := by
  simp [above]

theorem clique_above (low : ℤ) : Clique f tol l (above f tol l low) := by
  refine ⟨Multiset.coe_le.2 List.filter_sublist.subperm, fun a ha b hb => ?_⟩
  have ha := (mem_above.1 (Multiset.mem_coe.1 ha)).2
  have hb := (mem_above.1 (Multiset.mem_coe.1 hb)).2
  rw [abs_le]
  omega

/-- A clique is among the elements above a lower bound that it comes within the tolerance of. -/
theorem Clique.le_above {S : Multiset α} (h : Clique f tol l S) {low : ℤ} (hlow : ∀ a ∈ S, low ≤ f a ∧ f a ≤ low + tol) :
    S ≤ (above f tol l low : Multiset α) := by
  rw [above, ← Multiset.filter_coe, Multiset.le_filter]
  exact ⟨h.1, fun a ha => by simpa using hlow a ha⟩

/-- A clique with an element has one of smallest value. -/
theorem exists_least {S : Multiset α} (hS : S ≠ 0) : ∃ a ∈ S, ∀ b ∈ S, f a ≤ f b := by
  induction S using Multiset.induction_on with
  | empty => exact absurd rfl hS
  | cons a S ih =>
    by_cases h0 : S = 0
    · refine ⟨a, Multiset.mem_cons_self a S, fun b hb => ?_⟩
      rw [h0, Multiset.mem_cons] at hb
      obtain rfl | hb := hb
      · exact le_rfl
      · exact absurd hb (Multiset.notMem_zero b)
    · obtain ⟨m, hm, hleast⟩ := ih h0
      rcases le_total (f a) (f m) with ham | hma
      · refine ⟨a, Multiset.mem_cons_self a S, fun b hb => ?_⟩
        obtain rfl | hb := Multiset.mem_cons.1 hb
        · exact le_rfl
        · exact ham.trans (hleast b hb)
      · refine ⟨m, Multiset.mem_cons_of_mem hm, fun b hb => ?_⟩
        obtain rfl | hb := Multiset.mem_cons.1 hb
        · exact hma
        · exact hleast b hb

/-! ### Windows of a sorted list -/

variable (hl : l.Pairwise fun a b => f a ≤ f b)

include hl

/-- A maximal window holds what lies above its first value. -/
theorem slice_eq_above {w : ℕ × ℕ} (hw : Window.Maximal (valueAt f l) l.length tol w.1 w.2) :
    slice l w = above f tol l (valueAt f l w.1) :=
  Window.slice_eq_filter hl hw

/-- An edge of a maximal window is in it. -/
theorem mem_slice_of_edge {w : ℕ × ℕ} (hw : Window.Maximal (valueAt f l) l.length tol w.1 w.2) {i : ℕ}
    (hlo : w.1 ≤ i) (hhi : i ≤ w.2) : ∃ a ∈ slice l w, f a = valueAt f l i := by
  obtain ⟨-, hlt, hin, -⟩ := hw.1
  have hi : i < l.length := by omega
  refine ⟨l[i], ?_, (valueAt_of_lt hi).symm⟩
  rw [slice_eq_above hl hw, mem_above, ← valueAt_of_lt (f := f) hi]
  have hfirst := valueAt_mono hl w.1 i hlo hi
  have hlast := valueAt_mono hl i w.2 hhi hlt
  exact ⟨List.getElem_mem hi, hfirst, by omega⟩

/-- **A maximal window is a maximal clique**: what agrees with both of its edges is in it. -/
theorem maximal_of_window {w : ℕ × ℕ} (hw : Window.Maximal (valueAt f l) l.length tol w.1 w.2) :
    Maximal (Clique f tol l) (slice l w : Multiset α) := by
  have hmono := valueAt_mono hl
  obtain ⟨first, hfirst, hvfirst⟩ := mem_slice_of_edge hl hw le_rfl hw.1.1
  obtain ⟨last, hlast, hvlast⟩ := mem_slice_of_edge hl hw hw.1.1 le_rfl
  rw [slice_eq_above hl hw] at hfirst hlast ⊢
  refine ⟨clique_above _, fun T hT hsub => hT.le_above fun a ha => ?_⟩
  have hnearFirst := abs_le.1 (hT.2 a ha first (Multiset.mem_of_le hsub hfirst))
  have hnearLast := abs_le.1 (hT.2 last (Multiset.mem_of_le hsub hlast) a ha)
  refine ⟨?_, by omega⟩
  by_contra hbelow
  obtain ⟨i, hi, rfl⟩ := List.mem_iff_getElem.1 (Multiset.mem_coe.1 (Multiset.mem_of_le hT.1 ha))
  rw [← valueAt_of_lt (f := f) hi] at hbelow hnearLast
  have hleft : i < w.1 := by
    by_contra hge
    exact hbelow (hmono w.1 i (not_lt.1 hge) hi)
  have hout := hw.2 (by omega)
  have hbefore := hmono i (w.1 - 1) (by omega) (by have := hw.1.1; have := hw.1.2.1; omega)
  omega

/-- **A maximal clique is a maximal window**: from the first element that has its smallest value. -/
theorem exists_window (htol : 0 ≤ tol) {S : Multiset α} (hS : Maximal (Clique f tol l) S) (h0 : S ≠ 0) :
    ∃ w, Window.Maximal (valueAt f l) l.length tol w.1 w.2 ∧ (slice l w : Multiset α) = S := by
  have hmono := valueAt_mono hl
  obtain ⟨least, hleast, hmin⟩ := exists_least h0
  have hbetween : ∀ a ∈ S, f least ≤ f a ∧ f a ≤ f least + tol := by
    intro a ha
    have hnear := abs_le.1 (hS.1.2 a ha least hleast)
    exact ⟨hmin a ha, by omega⟩
  have hSeq : S = above f tol l (f least) :=
    le_antisymm (hS.1.le_above hbetween) (hS.2 (clique_above _) (hS.1.le_above hbetween))
  obtain ⟨k, hk, hkleast⟩ := List.mem_iff_getElem.1 (Multiset.mem_coe.1 (Multiset.mem_of_le hS.1.1 hleast))
  have hvk : valueAt f l k = f least := by rw [valueAt_of_lt hk, hkleast]
  -- the left edge: the first index from which the values are no smaller than the clique's
  have hexists : ∃ i, f least ≤ valueAt f l i := ⟨k, hvk.ge⟩
  classical
  set lo := Nat.find hexists with hlo
  have hlok : lo ≤ k := Nat.find_le hvk.ge
  have hvlo : valueAt f l lo = f least :=
    le_antisymm ((hmono lo k hlok hk).trans hvk.le) (Nat.find_spec hexists)
  have hreach : Window.Reaches (valueAt f l) l.length tol lo (Window.slide (valueAt f l) l.length tol lo l.length lo) :=
    Window.slide_reaches (by omega) le_rfl (by omega) (by omega)
  revert hreach
  generalize Window.slide (valueAt f l) l.length tol lo l.length lo = hi
  intro hreach
  have hmax : Window.Maximal (valueAt f l) l.length tol lo hi := by
    refine ⟨hreach, fun hpos => ?_⟩
    by_contra hnear
    have hbefore : valueAt f l (lo - 1) < f least := not_le.1 (Nat.find_min hexists (by omega))
    -- the element before the left edge would agree with them all
    have hsub : S ≤ above f tol l (valueAt f l (lo - 1)) := by
      refine hS.1.le_above fun a ha => ?_
      obtain ⟨i, hi', rfl⟩ := List.mem_iff_getElem.1 (Multiset.mem_coe.1 (Multiset.mem_of_le hS.1.1 ha))
      have ha := hbetween _ ha
      rw [← valueAt_of_lt (f := f) hi'] at ha ⊢
      have hle : i ≤ hi := by
        by_contra hgt
        have hout := hreach.2.2.2 (by omega)
        have hlater := hmono (hi + 1) i (by omega) hi'
        omega
      have hlast := hmono i hi hle hreach.2.1
      omega
    have hlt : lo - 1 < l.length := by omega
    have hmem : l[lo - 1] ∈ (above f tol l (valueAt f l (lo - 1)) : Multiset α) := by
      rw [Multiset.mem_coe, mem_above, ← valueAt_of_lt (f := f) hlt]
      exact ⟨List.getElem_mem hlt, le_rfl, by omega⟩
    have hin := hbetween _ (Multiset.mem_of_le (hS.2 (clique_above _) hsub) hmem)
    rw [← valueAt_of_lt (f := f) hlt] at hin
    omega
  refine ⟨(lo, hi), hmax, ?_⟩
  rw [slice_eq_above hl hmax, hSeq]
  exact congrArg (fun low => (above f tol l low : Multiset α)) hvlo

/-- **The sliding windows are the maximal cliques.** -/
theorem maximal_iff_mem_slidingWindows (htol : 0 ≤ tol) {S : Multiset α} :
    Maximal (Clique f tol l) S ∧ S ≠ 0 ↔
      ∃ w ∈ slidingWindows (valueAt f l) l.length tol, (slice l w : Multiset α) = S := by
  constructor
  · rintro ⟨hS, h0⟩
    obtain ⟨w, hw, rfl⟩ := exists_window hl htol hS h0
    exact ⟨w, (Window.mem_slidingWindows (valueAt_mono hl) htol w).2 hw, rfl⟩
  · rintro ⟨w, hw, rfl⟩
    have hw := (Window.mem_slidingWindows (valueAt_mono hl) htol w).1 hw
    refine ⟨maximal_of_window hl hw, fun hnil => ?_⟩
    obtain ⟨a, ha, -⟩ := mem_slice_of_edge hl hw le_rfl hw.1.1
    rw [Multiset.coe_eq_zero] at hnil
    rw [hnil] at ha
    exact absurd ha List.not_mem_nil

/-- A window further right has a larger first value. -/
theorem valueAt_lt {w w' : ℕ × ℕ} (hw' : Window.Maximal (valueAt f l) l.length tol w'.1 w'.2) (h : w.1 < w'.1) :
    valueAt f l w.1 < valueAt f l w'.1 := by
  obtain ⟨⟨hle, hlt, hin, -⟩, hout⟩ := hw'
  have hout := hout (by omega)
  have hbefore := valueAt_mono hl w.1 (w'.1 - 1) (by omega) (by omega)
  omega

/-- **The windows come in strictly ascending order of their smallest value.** -/
theorem pairwise_valueAt (htol : 0 ≤ tol) :
    (slidingWindows (valueAt f l) l.length tol).Pairwise fun w w' =>
      ∃ a ∈ slice l w, ∀ b ∈ slice l w', f a < f b := by
  refine Window.pairwise_slidingWindows.imp_of_mem fun {w w'} hw hw' h => ?_
  have hw := (Window.mem_slidingWindows (valueAt_mono hl) htol w).1 hw
  have hw' := (Window.mem_slidingWindows (valueAt_mono hl) htol w').1 hw'
  obtain ⟨a, ha, hva⟩ := mem_slice_of_edge hl hw le_rfl hw.1.1
  refine ⟨a, ha, fun b hb => ?_⟩
  rw [slice_eq_above hl hw', mem_above] at hb
  have hlt := valueAt_lt hl hw' h
  omega

end MediaPreview.Cliques
