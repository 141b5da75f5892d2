import Mathlib.Algebra.BigOperators.Group.List.Basic
import Mathlib.Algebra.GroupWithZero.Nat
import Mathlib.Data.List.GetD
import Mathlib.Data.List.Perm.Basic
import Mathlib.Data.List.Range
import Mathlib.Order.Lattice
import Mathlib.Order.Defs.LinearOrder

/-!
# Whole-array programs

What a program written with whole-array operations (NumPy's `repeat`, `cumsum`,
`searchsorted`, `diff`) computes, on lists.

The idiom of interest is ragged expansion. Every row `i` has a start `left i` and a number
`c i` of entries, and one wants the rows one after another: `repeat` writes each row's start
once for each of its entries, and the position within the row is the position in the whole
less the entries of the rows before. `zipWith_add_within` says what comes out.

In a sorted array the entries equal to a value are the slice between the two binary
searches for it (`slice_search`).
-/

namespace MediaPreview.Vectors

variable {α β γ ι : Type*}

/-! ### Repeating and adding up -/

/-- `np.repeat(xs, ns)`. -/
def repeatBy (xs : List α) (ns : List ℕ) : List α := (List.zipWith List.replicate ns xs).flatten

/-- The running totals, starting from `s`. -/
def cumsumFrom : ℕ → List ℕ → List ℕ
  | _, [] => []
  | s, n :: ns => (s + n) :: cumsumFrom (s + n) ns

/-- `np.cumsum(ns)`. -/
def cumsum (ns : List ℕ) : List ℕ := cumsumFrom 0 ns

/-- Each entry's position within its row, for rows of the given lengths. -/
def within (ns : List ℕ) : List ℕ :=
  List.zipWith (· - ·) (List.range ns.sum) (repeatBy (List.zipWith (· - ·) (cumsum ns) ns) ns)

@[simp] theorem repeatBy_nil (xs : List α) : repeatBy xs [] = [] := by simp [repeatBy]

@[simp] theorem repeatBy_cons (x : α) (xs : List α) (n : ℕ) (ns : List ℕ) :
    repeatBy (x :: xs) (n :: ns) = List.replicate n x ++ repeatBy xs ns := rfl

theorem repeatBy_map (g : ι → α) (c : ι → ℕ) (is : List ι) :
    repeatBy (is.map g) (is.map c) = is.flatMap fun i => List.replicate (c i) (g i) := by
  induction is with
  | nil => rfl
  | cons i is ih => rw [List.map_cons, List.map_cons, repeatBy_cons, ih, List.flatMap_cons]

theorem repeatBy_self (c : α → ℕ) (is : List α) :
    repeatBy is (is.map c) = is.flatMap fun i => List.replicate (c i) i := by
  simpa using repeatBy_map id c is

/-- No entries: nothing to repeat. -/
theorem repeatBy_of_sum_eq_zero (xs : List α) {ns : List ℕ} (h : ns.sum = 0) : repeatBy xs ns = [] := by
  induction ns generalizing xs with
  | nil => exact repeatBy_nil xs
  | cons n ns ih =>
    rw [List.sum_cons] at h
    cases xs with
    | nil => simp [repeatBy]
    | cons x xs => rw [repeatBy_cons, ih xs (by omega), show n = 0 by omega, List.replicate_zero, List.nil_append]

theorem length_cumsumFrom (s : ℕ) (ns : List ℕ) : (cumsumFrom s ns).length = ns.length := by
  induction ns generalizing s with
  | nil => rfl
  | cons n ns ih => rw [cumsumFrom, List.length_cons, List.length_cons, ih]

theorem getElem_cumsumFrom (s : ℕ) (ns : List ℕ) (k : ℕ) (hk : k < (cumsumFrom s ns).length) :
    (cumsumFrom s ns)[k] = s + (ns.take (k + 1)).sum := by
  induction ns generalizing s k with
  | nil => simp [cumsumFrom] at hk
  | cons n ns ih =>
    cases k with
    | zero => simp [cumsumFrom]
    | succ k =>
      simp only [cumsumFrom, List.getElem_cons_succ, ih, List.take_succ_cons, List.sum_cons]
      omega

theorem zipWith_sub_repeatBy (s : ℕ) (ns : List ℕ) :
    List.zipWith (· - ·) (List.range' s ns.sum) (repeatBy (List.zipWith (· - ·) (cumsumFrom s ns) ns) ns) =
      ns.flatMap List.range := by
  induction ns generalizing s with
  | nil => simp
  | cons n ns ih =>
    have hhead : List.zipWith (· - ·) (List.range' s n) (List.replicate n s) = List.range n := by
      refine List.ext_getElem (by simp) fun k hk hk' => ?_
      simp
    rw [cumsumFrom, List.zipWith_cons_cons, repeatBy_cons, List.sum_cons, ← List.range'_append_1, Nat.add_sub_cancel,
      List.zipWith_append (by simp), hhead, ih, List.flatMap_cons]

/-- The rows' positions, one row after another. -/
theorem within_eq (ns : List ℕ) : within ns = ns.flatMap List.range := by
  rw [within, List.range_eq_range', cumsum, zipWith_sub_repeatBy]

/-- Two ragged arrays of the same shape, entry by entry. -/
theorem zipWith_flatMap (f : α → β → γ) {A : ι → List α} {B : ι → List β} (is : List ι)
    (h : ∀ i ∈ is, (A i).length = (B i).length) :
    List.zipWith f (is.flatMap A) (is.flatMap B) = is.flatMap fun i => List.zipWith f (A i) (B i) := by
  induction is with
  | nil => rfl
  | cons i is ih =>
    rw [List.flatMap_cons, List.flatMap_cons, List.flatMap_cons, List.zipWith_append (h i (by simp)),
      ih fun j hj => h j (.tail i hj)]

/-- **Ragged expansion**: the rows' entries, one row after another. -/
theorem zipWith_add_within (left c : ι → ℕ) (is : List ι) :
    List.zipWith (· + ·) (repeatBy (is.map left) (is.map c)) (within (is.map c)) =
      is.flatMap fun i => List.range' (left i) (c i) := by
  rw [repeatBy_map, within_eq, List.flatMap_map, zipWith_flatMap _ _ (by simp)]
  refine List.flatMap_congr fun i _ => ?_
  refine List.ext_getElem (by simp) fun k hk hk' => ?_
  simp

theorem zipWith_replicate_left (f : α → β → γ) (x : α) (l : List β) {n : ℕ} (hn : n = l.length) :
    List.zipWith f (List.replicate n x) l = l.map (f x) := by
  subst hn
  refine List.ext_getElem (by simp) fun k hk hk' => ?_
  simp

/-- Two ragged arrays, the first with one value for each row. -/
theorem zipWith_repeatBy (f : ι → β → γ) (c : ι → ℕ) {B : ι → List β} (is : List ι)
    (h : ∀ i ∈ is, (B i).length = c i) :
    List.zipWith f (repeatBy is (is.map c)) (is.flatMap B) = is.flatMap fun i => (B i).map (f i) := by
  rw [repeatBy_self, zipWith_flatMap f is fun i hi => by rw [List.length_replicate, h i hi]]
  refine List.flatMap_congr fun i hi => ?_
  exact zipWith_replicate_left f i (B i) (h i hi).symm

/-- Rows first or columns first: the same entries. -/
theorem flatMap_flatMap_perm (f : α → β → List γ) (l : List α) (m : List β) :
    (l.flatMap fun x => m.flatMap (f x)).Perm (m.flatMap fun y => l.flatMap fun x => f x y) := by
  induction l with
  | nil => simp
  | cons x l ih =>
    simp only [List.flatMap_cons]
    exact (ih.append_left _).trans (List.flatMap_append_perm m (f x) fun y => l.flatMap fun x => f x y)

/-! ### Slices -/

/-- `l[lo:hi]` of values by position. -/
theorem drop_take_map (f : α → β) (l : List α) (d : α) {lo hi : ℕ} (hhi : hi ≤ l.length) :
    ((l.map f).drop lo).take (hi - lo) = (List.range' lo (hi - lo)).map fun i => f (l.getD i d) := by
  refine List.ext_getElem ?_ fun k hk hk' => ?_
  · simp only [List.length_take, List.length_drop, List.length_map, List.length_range']
    omega
  · simp only [List.length_take, List.length_drop, List.length_map] at hk
    simp only [List.getElem_take, List.getElem_drop, List.getElem_map, List.getElem_range', Nat.one_mul]
    rw [List.getD_eq_getElem l d (by omega)]

theorem map_getD_range' (l : List α) (d : α) {s n : ℕ} (h : s + n ≤ l.length) :
    (List.range' s n).map (fun i => l.getD i d) = (l.drop s).take n := by
  have hd : ((l.map id).drop s).take (s + n - s) = (List.range' s (s + n - s)).map fun i => id (l.getD i d) :=
    drop_take_map id l d h
  rw [Nat.add_sub_cancel_left, List.map_id] at hd
  exact hd.symm

theorem map_getD_add (l : List α) (d : α) {s n : ℕ} (h : s + n ≤ l.length) :
    ((List.range n).map fun k => l.getD (s + k) d) = (l.drop s).take n := by
  rw [← map_getD_range' l d h, List.range'_eq_map_range, List.map_map]
  rfl

/-- The running total up to a position. -/
theorem getElem_totals (ns : List ℕ) {k : ℕ} (hk : k < (0 :: cumsum ns).length) :
    (0 :: cumsum ns)[k] = (ns.take k).sum := by
  cases k with
  | zero => rfl
  | succ k =>
    rw [List.getElem_cons_succ]
    exact (getElem_cumsumFrom 0 ns k _).trans (Nat.zero_add _)

theorem countP_or_le (p q : α → Bool) (l : List α) : l.countP (fun x => p x || q x) ≤ l.countP p + l.countP q := by
  induction l with
  | nil => simp
  | cons x l ih =>
    simp only [List.countP_cons]
    cases p x <;> cases q x <;> simp <;> omega

/-! ### Positions and differences -/

/-- `np.flatnonzero(l)`: the positions that hold `true`. -/
def flatnonzero (l : List Bool) : List ℕ := (List.range l.length).filter fun k => l.getD k false

/-- `np.diff(l)` of an ascending array. -/
def diff (l : List ℕ) : List ℕ := List.zipWith (· - ·) l.tail l

theorem mem_flatnonzero {l : List Bool} {k : ℕ} : k ∈ flatnonzero l ↔ l[k]? = some true := by
  rw [flatnonzero, List.mem_filter, List.mem_range, List.getD_eq_getElem?_getD]
  constructor
  · rintro ⟨hk, h⟩
    rw [List.getElem?_eq_getElem hk, Option.getD_some] at h
    rw [List.getElem?_eq_getElem hk, h]
  · intro h
    exact ⟨(List.getElem?_eq_some_iff.mp h).1, by rw [h, Option.getD_some]⟩

theorem pairwise_flatnonzero (l : List Bool) : (flatnonzero l).Pairwise (· < ·) :=
  List.pairwise_lt_range.filter _

theorem length_diff (l : List ℕ) : (diff l).length = l.length - 1 := by
  simp only [diff, List.length_zipWith, List.length_tail]
  omega

theorem getElem_diff {l : List ℕ} {k : ℕ} (hk : k < (diff l).length) :
    (diff l)[k] = l.getD (k + 1) 0 - l.getD k 0 := by
  have hlen : k + 1 < l.length := by
    rw [length_diff] at hk
    omega
  rw [List.getD_eq_getElem l 0 hlen, List.getD_eq_getElem l 0 (by omega)]
  simp [diff]

/-! ### Binary search -/

variable [LinearOrder β]

/-- `np.searchsorted(l, v, side="left")` in an ascending array. -/
def searchLeft (l : List β) (v : β) : ℕ := l.countP (· < v)

/-- `np.searchsorted(l, v, side="right")` in an ascending array. -/
def searchRight (l : List β) (v : β) : ℕ := l.countP (· ≤ v)

theorem searchRight_le_length (l : List β) (v : β) : searchRight l v ≤ l.length := List.countP_le_length

theorem searchLeft_le_searchRight (l : List β) (v : β) : searchLeft l v ≤ searchRight l v :=
  List.countP_mono_left fun x _ h => by
    have hlt : x < v := of_decide_eq_true h
    exact decide_eq_true hlt.le

/-- **The entries with a value are a slice of a sorted array.** -/
theorem slice_search (f : α → β) (v : β) {l : List α} (h : l.Pairwise fun x y => f x ≤ f y) :
    (l.drop (searchLeft (l.map f) v)).take (searchRight (l.map f) v - searchLeft (l.map f) v) =
      l.filter fun x => f x = v := by
  induction l with
  | nil => rfl
  | cons x l ih =>
    obtain ⟨hx, hl⟩ := List.pairwise_cons.mp h
    have ih := ih hl
    simp only [searchLeft, searchRight, List.map_cons, List.countP_cons] at ih ⊢
    rcases lt_trichotomy (f x) v with hlt | heq | hgt
    · -- `x` is before the slice
      simp only [hlt, hlt.le, decide_true, if_true, List.drop_succ_cons, Nat.add_sub_add_right]
      rw [ih, List.filter_cons_of_neg (by simpa using hlt.ne)]
    · -- `x` is the first of the slice
      have hnone : (l.map f).countP (fun y => y < v) = 0 := by
        rw [List.countP_eq_zero]
        intro y hy
        obtain ⟨z, hz, rfl⟩ := List.mem_map.mp hy
        have hvz : v ≤ f z := heq ▸ hx z hz
        simpa using hvz
      rw [hnone, List.drop_zero, Nat.sub_zero] at ih
      simp only [hnone, heq, lt_irrefl, le_refl, decide_false, decide_true, Bool.false_eq_true, if_false, if_true,
        Nat.add_zero, List.drop_zero, Nat.sub_zero, List.take_succ_cons, List.filter_cons, ih]
    · -- the whole array is after the slice
      have hnone : ∀ z ∈ l, v < f z := fun z hz => hgt.trans_le (hx z hz)
      have hright : (l.map f).countP (fun y => y ≤ v) = 0 := by
        rw [List.countP_eq_zero]
        intro y hy
        obtain ⟨z, hz, rfl⟩ := List.mem_map.mp hy
        simpa using hnone z hz
      rw [hright, if_neg (by simpa using hgt), Nat.zero_add, Nat.zero_sub, List.take_zero, eq_comm, List.filter_eq_nil_iff]
      intro z hz
      rcases List.mem_cons.mp hz with rfl | hz
      · simpa using hgt.ne'
      · simpa using (hnone z hz).ne'

end MediaPreview.Vectors
