import Mathlib.Data.List.Range
import Mathlib.Data.List.Pairwise
import Mathlib.Tactic.Linarith

/-!
# Sliding windows over sorted values

Values `v 0 ≤ … ≤ v (n – 1)` are agreed when they lie within a tolerance of one another.
The loop of `slidingWindows` moves the left edge `lo` over the values and slides the
right edge `hi` out as far as the tolerance allows; a window that reaches no further
than the last one is left out. What is kept are the maximal windows
(`mem_slidingWindows`), in ascending order of their left edge
(`pairwise_slidingWindows`).

In the list the values are of, a maximal window is the elements whose value lies
between its edges (`slice_eq_filter`), so it does not depend on how ties were
ordered.
-/

namespace MediaPreview.Window

variable (v : ℕ → ℤ) (n : ℕ) (tol : ℤ)

/-- `while hi + 1 < n and v[hi + 1] - v[lo] <= tol: hi += 1`, for at most `fuel` rounds. -/
def slide (lo : ℕ) : ℕ → ℕ → ℕ
  | 0, hi => hi
  | fuel + 1, hi => if hi + 1 < n ∧ v (hi + 1) - v lo ≤ tol then slide lo fuel (hi + 1) else hi

/-- The loop over the left edges `los`: `lastHi` is the right edge the last window kept
reached, `hi` the right edge now. -/
def slideFrom : List ℕ → ℤ → ℕ → List (ℕ × ℕ)
  | [], _, _ => []
  | lo :: los, lastHi, hi =>
    let hi' := slide v n tol lo n (max hi lo)
    if (hi' : ℤ) ≤ lastHi then slideFrom los lastHi hi' else (lo, hi') :: slideFrom los hi' hi'

/-- The windows `(lo, hi)`, left to right, that reach further right than those before. -/
def slidingWindows : List (ℕ × ℕ) := slideFrom v n tol (List.range n) (-1) 0

/-- `hi` is as far right as the tolerance allows a window from `lo` to reach. -/
def Reaches (lo hi : ℕ) : Prop :=
  lo ≤ hi ∧ hi < n ∧ v hi - v lo ≤ tol ∧ (hi + 1 < n → tol < v (hi + 1) - v lo)

/-- A window that can be extended on neither side. -/
def Maximal (lo hi : ℕ) : Prop := Reaches v n tol lo hi ∧ (0 < lo → tol < v hi - v (lo - 1))

variable {v n tol}

theorem slide_reaches {lo : ℕ} : ∀ {fuel hi : ℕ}, n ≤ hi + fuel → lo ≤ hi → hi < n → v hi - v lo ≤ tol →
    Reaches v n tol lo (slide v n tol lo fuel hi)
  | 0, hi, hf, _, hn, _ => absurd hn (by omega)
  | fuel + 1, hi, hf, hlo, hn, hv => by
    unfold slide
    split_ifs with h
    · exact slide_reaches (by omega) (by omega) h.1 h.2
    · exact ⟨hlo, hn, hv, fun h' => by by_contra hc; exact h ⟨h', not_lt.mp hc⟩⟩

variable (hv : ∀ i j, i ≤ j → j < n → v i ≤ v j)

include hv

/-- A window reaches as far as one further left, or further. -/
theorem Reaches.mono {lo lo' hi hi' : ℕ} (h : Reaches v n tol lo hi) (h' : Reaches v n tol lo' hi')
    (hlo : lo ≤ lo') : hi ≤ hi' := by
  obtain ⟨-, h2, h3, -⟩ := h
  obtain ⟨g1, g2, -, g4⟩ := h'
  by_contra hc
  have hlt := g4 (by omega)
  have := hv lo lo' hlo (by omega)
  have := hv (hi' + 1) hi (by omega) h2
  omega

theorem Reaches.unique {lo hi hi' : ℕ} (h : Reaches v n tol lo hi) (h' : Reaches v n tol lo hi') : hi = hi' :=
  le_antisymm (h.mono hv h' le_rfl) (h'.mono hv h le_rfl)

/-- The loop before the left edge `lo`: it has the right edge of the window from `lo – 1`. -/
def Slid (v : ℕ → ℤ) (n : ℕ) (tol : ℤ) (lo hi : ℕ) (lastHi : ℤ) : Prop :=
  lo = 0 ∧ hi = 0 ∧ lastHi = -1 ∨ 0 < lo ∧ lastHi = hi ∧ Reaches v n tol (lo - 1) hi

omit hv in
theorem Slid.next {lo hi : ℕ} (h : Reaches v n tol lo hi) : Slid v n tol (lo + 1) hi hi :=
  .inr ⟨lo.succ_pos, rfl, h⟩

/-- The right edge slides on to where the window from `lo` reaches. -/
theorem Slid.reaches {lo hi : ℕ} {lastHi : ℤ} (hs : Slid v n tol lo hi lastHi) (htol : 0 ≤ tol) (hlo : lo < n) :
    Reaches v n tol lo (slide v n tol lo n (max hi lo)) := by
  refine slide_reaches (by omega) (le_max_right _ _) ?_ ?_
  · rcases hs with ⟨rfl, rfl, -⟩ | ⟨-, -, -, h, -, -⟩ <;> omega
  · rcases hs with ⟨rfl, rfl, -⟩ | ⟨h0, -, h1, h2, h3, -⟩
    · simpa using htol
    · rcases le_total hi lo with h | h
      · simpa [max_eq_right h] using htol
      · rw [max_eq_left h]
        have := hv (lo - 1) lo (by omega) (by omega)
        omega

/-- The window from `lo` reaches further than the last one exactly when it is maximal. -/
theorem Slid.maximal_iff {lo hi hi' : ℕ} {lastHi : ℤ} (hs : Slid v n tol lo hi lastHi) (hR : Reaches v n tol lo hi') :
    ¬ ((hi' : ℤ) ≤ lastHi) ↔ Maximal v n tol lo hi' := by
  unfold Maximal
  rcases hs with ⟨rfl, rfl, rfl⟩ | ⟨h0, rfl, hP⟩
  · simp only [lt_irrefl, false_implies, and_true]
    exact ⟨fun _ => hR, fun _ => by omega⟩
  · constructor
    · intro hc
      refine ⟨hR, fun _ => ?_⟩
      have h4 := hP.2.2.2 (by have := hR.2.1; omega)
      have := hv (hi + 1) hi' (by omega) hR.2.1
      omega
    · rintro ⟨-, hc⟩ hle
      have hc := hc h0
      have := hv hi' hi (by omega) hP.2.1
      have := hP.2.2.1
      omega

/-- One that reaches no further reaches as far. -/
theorem Slid.last_eq {lo hi hi' : ℕ} {lastHi : ℤ} (hs : Slid v n tol lo hi lastHi) (hR : Reaches v n tol lo hi')
    (hle : (hi' : ℤ) ≤ lastHi) : lastHi = hi' := by
  rcases hs with ⟨rfl, rfl, rfl⟩ | ⟨h0, rfl, hP⟩
  · omega
  · have := hP.mono hv hR (by omega)
    omega

/-- **The loop from `lo` on** yields the maximal windows from `lo` on. -/
theorem mem_slideFrom (htol : 0 ≤ tol) : ∀ (k lo hi : ℕ) (lastHi : ℤ), lo + k = n → Slid v n tol lo hi lastHi →
    ∀ w : ℕ × ℕ, w ∈ slideFrom v n tol (List.range' lo k) lastHi hi ↔ lo ≤ w.1 ∧ Maximal v n tol w.1 w.2
  | 0, lo, hi, lastHi, hk, _, w => by
    simp only [List.range'_zero, slideFrom, List.not_mem_nil, false_iff, not_and]
    rintro h ⟨⟨h1, h2, -, -⟩, -⟩
    omega
  | k + 1, lo, hi, lastHi, hk, hs, w => by
    have hR := hs.reaches hv htol (by omega : lo < n)
    have hmax := hs.maximal_iff hv hR
    rw [List.range'_succ, slideFrom]
    set hi' := slide v n tol lo n (max hi lo)
    have hrest := mem_slideFrom htol k (lo + 1) hi' hi' (by omega) (.next hR) w
    have hsplit : (lo ≤ w.1 ∧ Maximal v n tol w.1 w.2) ↔
        (w.1 = lo ∧ Maximal v n tol w.1 w.2) ∨ (lo + 1 ≤ w.1 ∧ Maximal v n tol w.1 w.2) := by
      rw [← or_and_right]
      refine and_congr_left fun _ => ?_
      omega
    rw [hsplit]
    split_ifs with hc
    · rw [hs.last_eq hv hR hc, hrest]
      refine ⟨.inr, fun h => h.resolve_left ?_⟩
      rintro ⟨h1, h2⟩
      have := hR.unique hv (h1 ▸ h2.1)
      rw [h1, ← this] at h2
      exact (hmax.mpr h2) hc
    · rw [List.mem_cons, hrest]
      refine or_congr_left ⟨?_, ?_⟩
      · rintro rfl
        exact ⟨rfl, hmax.mp hc⟩
      · rintro ⟨h1, h2⟩
        exact Prod.ext h1 (hR.unique hv (h1 ▸ h2.1)).symm

/-- **The windows are the maximal ones.** -/
theorem mem_slidingWindows (htol : 0 ≤ tol) (w : ℕ × ℕ) :
    w ∈ slidingWindows v n tol ↔ Maximal v n tol w.1 w.2 := by
  unfold slidingWindows
  rw [List.range_eq_range', mem_slideFrom hv htol n 0 0 (-1) (by omega) (.inl ⟨rfl, rfl, rfl⟩) w]
  simp

omit hv

theorem pairwise_slideFrom : ∀ (k lo hi : ℕ) (lastHi : ℤ),
    (slideFrom v n tol (List.range' lo k) lastHi hi).Pairwise (fun w w' => w.1 < w'.1) ∧
      ∀ w ∈ slideFrom v n tol (List.range' lo k) lastHi hi, lo ≤ w.1
  | 0, _, _, _ => by simp [slideFrom]
  | k + 1, lo, hi, lastHi => by
    rw [List.range'_succ, slideFrom]
    split_ifs
    · obtain ⟨h1, h2⟩ := pairwise_slideFrom k (lo + 1) (slide v n tol lo n (max hi lo)) lastHi
      exact ⟨h1, fun w hw => by have := h2 w hw; omega⟩
    · obtain ⟨h1, h2⟩ := pairwise_slideFrom k (lo + 1) (slide v n tol lo n (max hi lo))
        (slide v n tol lo n (max hi lo))
      refine ⟨List.pairwise_cons.mpr ⟨fun w hw => ?_, h1⟩, fun w hw => ?_⟩
      · have := h2 w hw
        exact this
      · rcases List.mem_cons.mp hw with rfl | hw
        · exact le_rfl
        · have := h2 w hw
          omega

/-- The windows come in ascending order of their left edge. -/
theorem pairwise_slidingWindows : (slidingWindows v n tol).Pairwise fun w w' => w.1 < w'.1 := by
  unfold slidingWindows
  rw [List.range_eq_range']
  exact (pairwise_slideFrom n 0 0 (-1)).1

/-! ### Windows of a list -/

section Lists

variable {α : Type*} (f : α → ℤ)

/-- The value of the element at `i`. -/
def valueAt (l : List α) (i : ℕ) : ℤ := (l[i]?.map f).getD 0

/-- `l[lo : hi + 1]`. -/
def slice (l : List α) (w : ℕ × ℕ) : List α := (l.drop w.1).take (w.2 + 1 - w.1)

variable {f}

theorem valueAt_of_lt {l : List α} {i : ℕ} (h : i < l.length) : valueAt f l i = f l[i] := by
  simp [valueAt, List.getElem?_eq_getElem h]

theorem valueAt_mono {l : List α} (hl : l.Pairwise fun a b => f a ≤ f b) (i j : ℕ) (hij : i ≤ j)
    (hj : j < l.length) : valueAt f l i ≤ valueAt f l j := by
  rw [valueAt_of_lt (by omega), valueAt_of_lt hj]
  rcases hij.eq_or_lt with rfl | hlt
  · exact le_rfl
  · exact List.pairwise_iff_getElem.mp hl i j (by omega) hj hlt

/-- The values of a list depend on its list of values only. -/
theorem valueAt_congr {l₁ l₂ : List α} (h : l₁.map f = l₂.map f) : valueAt f l₁ = valueAt f l₂ := by
  funext i
  rw [valueAt, valueAt, ← List.getElem?_map, ← List.getElem?_map, h]

/-- **A maximal window of a sorted list** is the elements with a value from its first one's
to the tolerance above it. -/
theorem slice_eq_filter {l : List α} (hl : l.Pairwise fun a b => f a ≤ f b) {tol : ℤ}
    {w : ℕ × ℕ} (hw : Maximal (valueAt f l) l.length tol w.1 w.2) :
    slice l w = l.filter fun x => decide (valueAt f l w.1 ≤ f x ∧ f x ≤ valueAt f l w.1 + tol) := by
  obtain ⟨⟨hlo, hhi, hin, hout⟩, hleft⟩ := hw
  have hmono := valueAt_mono hl
  have hsplit : l = l.take w.1 ++ (slice l w ++ l.drop (w.2 + 1)) := by
    conv_lhs => rw [← List.take_append_drop w.1 l]
    congr 1
    conv_lhs => rw [← List.take_append_drop (w.2 + 1 - w.1) (l.drop w.1)]
    rw [List.drop_drop, show w.1 + (w.2 + 1 - w.1) = w.2 + 1 by omega, slice]
  generalize ha : valueAt f l w.1 = a
  conv_rhs => rw [hsplit]
  rw [List.filter_append, List.filter_append, List.filter_eq_nil_iff.mpr, List.filter_eq_self.mpr,
    List.filter_eq_nil_iff.mpr, List.nil_append, List.append_nil]
  · intro x hx
    obtain ⟨i, hi, rfl⟩ := List.mem_iff_getElem.mp hx
    rw [List.length_drop] at hi
    rw [List.getElem_drop, ← valueAt_of_lt (f := f) (by omega : w.2 + 1 + i < l.length)]
    have := hout (by omega)
    have := hmono (w.2 + 1) (w.2 + 1 + i) (by omega) (by omega)
    simp only [decide_eq_true_eq, not_and, not_le]
    intro
    omega
  · intro x hx
    obtain ⟨i, hi, rfl⟩ := List.mem_iff_getElem.mp hx
    rw [slice, List.length_take, List.length_drop] at hi
    simp only [slice, List.getElem_take, List.getElem_drop]
    rw [← valueAt_of_lt (f := f) (by omega : w.1 + i < l.length)]
    have := hmono w.1 (w.1 + i) (by omega) (by omega)
    have := hmono (w.1 + i) w.2 (by omega) (by omega)
    simp only [decide_eq_true_eq]
    omega
  · intro x hx
    obtain ⟨i, hi, rfl⟩ := List.mem_iff_getElem.mp hx
    rw [List.length_take] at hi
    rw [List.getElem_take, ← valueAt_of_lt (f := f) (by omega : i < l.length)]
    have := hleft (by omega)
    have := hmono i (w.1 - 1) (by omega) (by omega)
    simp only [decide_eq_true_eq, not_and, not_le]
    intro
    omega

end Lists

end MediaPreview.Window
