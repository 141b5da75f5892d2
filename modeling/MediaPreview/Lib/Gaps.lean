import MediaPreview.Lib.Vectors

/-!
# Stretches without a long gap

A stretch of positions begins and ends in a set and leaves it for fewer than `gap` positions at a time (`Stretch`). Given
the positions of the set in ascending order, cutting them wherever two follow each other more than `gap` apart yields the
maximal stretches (`maximal_of_mem_pieces`).
-/

namespace MediaPreview.Gaps

open Vectors

/-! ### Cutting at the breaks -/

/-- **A piece** between two cuts: it begins after a cut or at the start, ends on a cut or at the end, and has no cut in
between. -/
theorem mem_zip_cuts {cuts : List ℕ} (hsorted : cuts.Pairwise (· < ·)) {start last : ℕ} (hle : start ≤ last)
    (hcuts : ∀ k ∈ cuts, start ≤ k ∧ k < last) {p q : ℕ}
    (h : (p, q) ∈ (start :: cuts.map (· + 1)).zip (cuts ++ [last])) :
    start ≤ p ∧ p ≤ q ∧ q ≤ last ∧ (p = start ∨ ∃ k ∈ cuts, p = k + 1) ∧ (q = last ∨ q ∈ cuts) ∧
      ∀ k ∈ cuts, p ≤ k → q ≤ k := by
  induction cuts generalizing start with
  | nil =>
    obtain ⟨rfl, rfl⟩ := Prod.mk.inj (List.mem_singleton.1 h)
    exact ⟨le_rfl, hle, le_rfl, .inl rfl, .inl rfl, fun k hk => absurd hk List.not_mem_nil⟩
  | cons cut cuts ih =>
    obtain ⟨hleast, hsorted⟩ := List.pairwise_cons.1 hsorted
    have hcut := hcuts cut List.mem_cons_self
    rw [List.map_cons, List.cons_append, List.zip_cons_cons] at h
    obtain h | h := List.mem_cons.1 h
    · obtain ⟨rfl, rfl⟩ := Prod.mk.inj h
      refine ⟨le_rfl, hcut.1, hcut.2.le, .inl rfl, .inr List.mem_cons_self, fun k hk _ => ?_⟩
      obtain rfl | hk := List.mem_cons.1 hk
      · exact le_rfl
      · exact (hleast k hk).le
    · have hrest : ∀ k ∈ cuts, cut + 1 ≤ k ∧ k < last :=
        fun k hk => ⟨hleast k hk, (hcuts k (List.mem_cons_of_mem _ hk)).2⟩
      obtain ⟨hstart, hpq, hq, hp, hlast, hbetween⟩ := ih hsorted (by omega) hrest h
      refine ⟨by omega, hpq, hq, .inr ?_, hlast.imp_right (List.mem_cons_of_mem _), fun k hk hpk => ?_⟩
      · obtain rfl | ⟨k, hk, rfl⟩ := hp
        · exact ⟨cut, List.mem_cons_self, rfl⟩
        · exact ⟨k, List.mem_cons_of_mem _ hk, rfl⟩
      · obtain rfl | hk := List.mem_cons.1 hk
        · omega
        · exact hbetween k hk hpk

/-- The positions cut wherever two follow each other more than `gap` apart: first and last of each piece. -/
def pieces (gap : ℕ) (idx : List ℕ) : List (ℕ × ℕ) :=
  let breaks := flatnonzero ((diff idx).map fun d => decide (gap < d))
  (idx.headD 0 :: breaks.map fun k => idx.getD (k + 1) 0).zip ((breaks.map fun k => idx.getD k 0) ++ [idx.getLastD 0])

/-- A piece, by its places in the list: neighbours in it are near, and those beyond its ends are not. -/
theorem exists_places_of_mem_pieces {gap : ℕ} {idx : List ℕ} (hne : idx ≠ []) {x y : ℕ} (h : (x, y) ∈ pieces gap idx) :
    ∃ p q, p ≤ q ∧ q < idx.length ∧ x = idx.getD p 0 ∧ y = idx.getD q 0 ∧
      (∀ k, p ≤ k → k < q → idx.getD (k + 1) 0 - idx.getD k 0 ≤ gap) ∧
      (∀ k, p = k + 1 → gap < idx.getD (k + 1) 0 - idx.getD k 0) ∧
      (q + 1 < idx.length → gap < idx.getD (q + 1) 0 - idx.getD q 0) := by
  have hlen : 0 < idx.length := List.length_pos_iff.2 hne
  have hbreak : ∀ k, k ∈ flatnonzero ((diff idx).map fun d => decide (gap < d)) ↔
      k + 1 < idx.length ∧ gap < idx.getD (k + 1) 0 - idx.getD k 0 := by
    intro k
    rw [mem_flatnonzero, List.getElem?_map, Option.map_eq_some_iff]
    constructor
    · rintro ⟨d, hd, hgap⟩
      obtain ⟨hk, rfl⟩ := List.getElem?_eq_some_iff.1 hd
      rw [getElem_diff] at hgap
      rw [length_diff] at hk
      exact ⟨by omega, of_decide_eq_true hgap⟩
    · rintro ⟨hk, hgap⟩
      have hk' : k < (diff idx).length := by
        rw [length_diff]
        omega
      exact ⟨_, List.getElem?_eq_getElem hk', by rw [getElem_diff]; exact decide_eq_true hgap⟩
  have hsorted := pairwise_flatnonzero ((diff idx).map fun d => decide (gap < d))
  unfold pieces at h
  dsimp only at h
  revert h hbreak hsorted
  generalize flatnonzero ((diff idx).map fun d => decide (gap < d)) = breaks
  intro h hbreak hsorted
  have hfirst : idx.headD 0 = idx.getD 0 0 := by
    cases idx <;> rfl
  have hlast : idx.getLastD 0 = idx.getD (idx.length - 1) 0 := by
    rw [List.getLastD_eq_getLast?, List.getLast?_eq_getElem?, List.getD_eq_getElem?_getD]
  have hstarts : (idx.headD 0 :: breaks.map fun k => idx.getD (k + 1) 0) =
      (0 :: breaks.map (· + 1)).map fun k => idx.getD k 0 := by
    rw [hfirst, List.map_cons, List.map_map]
    rfl
  have hends : (breaks.map fun k => idx.getD k 0) ++ [idx.getLastD 0] =
      (breaks ++ [idx.length - 1]).map fun k => idx.getD k 0 := by
    rw [hlast, List.map_append, List.map_singleton]
  rw [hstarts, hends, List.zip_map] at h
  obtain ⟨⟨p, q⟩, hpq, heq⟩ := List.mem_map.1 h
  obtain ⟨rfl, rfl⟩ := Prod.mk.inj heq
  have hcuts : ∀ k ∈ breaks, 0 ≤ k ∧ k < idx.length - 1 := by
    intro k hk
    have hlt := ((hbreak k).1 hk).1
    omega
  obtain ⟨-, hle, hq, hp, hqlast, hbetween⟩ := mem_zip_cuts hsorted (Nat.zero_le _) hcuts hpq
  have hqlt : q < idx.length := lt_of_le_of_lt hq (Nat.sub_one_lt hlen.ne')
  refine ⟨p, q, hle, hqlt, rfl, rfl, fun k hpk hkq => ?_, fun k hk => ?_, fun hlt => ?_⟩
  · by_contra hgap
    exact absurd (hbetween k ((hbreak k).2 ⟨lt_of_le_of_lt hkq hqlt, not_le.1 hgap⟩) hpk) (not_le.2 hkq)
  · obtain rfl | ⟨k', hk', hpk⟩ := hp
    · exact absurd hk (Nat.zero_ne_add_one k)
    · obtain rfl : k = k' := by omega
      exact ((hbreak k).1 hk').2
  · obtain rfl | hmem := hqlast
    · omega
    · exact ((hbreak q).1 hmem).2

/-! ### Maximal stretches -/

variable (P : ℕ → Prop)

/-- From `x` to `y`, both in the set, with no `gap` positions in a row outside it. -/
structure Stretch (gap x y : ℕ) : Prop where
  le : x ≤ y
  first : P x
  last : P y
  dense : ∀ k, x ≤ k → k + gap ≤ y + 1 → ∃ i, k ≤ i ∧ i < k + gap ∧ P i

/-- A stretch that is part of no longer one. -/
def MaximalStretch (gap x y : ℕ) : Prop :=
  Stretch P gap x y ∧ ∀ x' y', Stretch P gap x' y' → x' ≤ x → y ≤ y' → x' = x ∧ y' = y

variable {P}

section Pieces

variable {idx : List ℕ} (hsorted : idx.Pairwise (· < ·)) (hmem : ∀ i, i ∈ idx ↔ P i)

include hsorted

theorem getD_lt_getD {p q : ℕ} (hpq : p < q) (hq : q < idx.length) : idx.getD p 0 < idx.getD q 0 := by
  rw [List.getD_eq_getElem _ _ hq, List.getD_eq_getElem _ _ (hpq.trans hq)]
  exact List.pairwise_iff_getElem.1 hsorted p q (hpq.trans hq) hq hpq

theorem getD_le_getD {p q : ℕ} (hpq : p ≤ q) (hq : q < idx.length) : idx.getD p 0 ≤ idx.getD q 0 := by
  obtain rfl | hlt := Nat.eq_or_lt_of_le hpq
  · exact le_rfl
  · exact (getD_lt_getD hsorted hlt hq).le

include hmem

omit hsorted in
theorem exists_place {i : ℕ} (h : P i) : ∃ p < idx.length, i = idx.getD p 0 := by
  obtain ⟨p, hp, hi⟩ := List.mem_iff_getElem.1 ((hmem i).2 h)
  exact ⟨p, hp, by rw [List.getD_eq_getElem _ _ hp, hi]⟩

/-- Between neighbours in the list nothing is in the set. -/
theorem le_or_ge_of_neighbours {p i : ℕ} (h : P i) (hp : p + 1 < idx.length) :
    i ≤ idx.getD p 0 ∨ idx.getD (p + 1) 0 ≤ i := by
  obtain ⟨r, hr, rfl⟩ := exists_place hmem h
  obtain hle | hlt := Nat.lt_or_ge p r
  · exact .inr (getD_le_getD hsorted hle hr)
  · exact .inl (getD_le_getD hsorted hlt (by omega))

/-- A stretch does not reach over two neighbours that are far apart. -/
theorem not_stretch_over {gap p x y : ℕ} (hp : p + 1 < idx.length)
    (hgap : gap < idx.getD (p + 1) 0 - idx.getD p 0) (hx : x ≤ idx.getD p 0) (hy : idx.getD (p + 1) 0 ≤ y) :
    ¬ Stretch P gap x y := by
  intro h
  obtain ⟨i, hki, hik, hPi⟩ := h.dense (idx.getD p 0 + 1) (by omega) (by omega)
  obtain hle | hge := le_or_ge_of_neighbours hsorted hmem hPi hp
  · omega
  · omega

/-- **The pieces are maximal stretches.** -/
theorem maximal_of_mem_pieces {gap x y : ℕ} (hgap : 0 < gap) (hne : idx ≠ []) (h : (x, y) ∈ pieces gap idx) :
    MaximalStretch P gap x y := by
  obtain ⟨p, q, hpq, hq, rfl, rfl, hnear, hbefore, hafter⟩ := exists_places_of_mem_pieces hne h
  have hplace : ∀ k < idx.length, P (idx.getD k 0) := by
    intro k hk
    rw [← hmem, List.getD_eq_getElem _ _ hk]
    exact List.getElem_mem hk
  refine ⟨⟨getD_le_getD hsorted hpq hq, hplace p (by omega), hplace q hq, fun k hk hkq => ?_⟩,
    fun x' y' hstretch hx hy => ⟨?_, ?_⟩⟩
  · -- the last place before `k` has its neighbour within reach
    by_contra hnone
    have hout : ∀ r, p ≤ r → r ≤ q → idx.getD r 0 < k := by
      intro r hpr hrq
      induction r, hpr using Nat.le_induction with
      | base =>
        by_contra hge
        exact hnone ⟨idx.getD p 0, not_lt.1 hge, by omega, hplace p (by omega)⟩
      | succ r hpr ih =>
        have hlt := ih (by omega)
        have hstep := hnear r hpr (by omega)
        by_contra hge
        exact hnone ⟨idx.getD (r + 1) 0, not_lt.1 hge, by omega, hplace (r + 1) (by omega)⟩
    have hlast := hout q hpq le_rfl
    omega
  · by_contra hne'
    obtain ⟨r, hr, hx'⟩ := exists_place hmem hstretch.first
    have hrp : r < p := by
      by_contra hge
      have := getD_le_getD hsorted (not_lt.1 hge) hr
      omega
    obtain ⟨k, rfl⟩ : ∃ k, p = k + 1 := ⟨p - 1, by omega⟩
    have hxk : x' ≤ idx.getD k 0 := hx' ▸ getD_le_getD hsorted (by omega) (by omega)
    have hky : idx.getD (k + 1) 0 ≤ y' := (getD_le_getD hsorted hpq hq).trans hy
    exact not_stretch_over hsorted hmem (by omega) (hbefore k rfl) hxk hky hstretch
  · by_contra hne'
    obtain ⟨r, hr, hy'⟩ := exists_place hmem hstretch.last
    have hqr : q < r := by
      by_contra hge
      have := getD_le_getD hsorted (not_lt.1 hge) hq
      omega
    have hxq : x' ≤ idx.getD q 0 := hx.trans (getD_le_getD hsorted hpq hq)
    have hqy : idx.getD (q + 1) 0 ≤ y' := hy' ▸ getD_le_getD hsorted hqr hr
    exact not_stretch_over hsorted hmem (by omega) (hafter (by omega)) hxq hqy hstretch

end Pieces

end MediaPreview.Gaps
