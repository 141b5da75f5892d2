import MediaPreview.Audio.Reference

/-!
# The hits, and both rankings of them

What both matchers count is one list, `hits`: for each position of the first fingerprint and
each value shift, the positions of the second with that value. The reference reads it in this
order (`shiftVotes_eq`); the vectorised matcher reads it in some other order, which depends on
how the chunks are cut and on how equal points were sorted, but counts and least keys do not
depend on the order (`scan_counts`, `scan_firstSeen`).

A shift has at most as many hits as points overlap at it, and at least as many as hold the
same value in both (`count_shift_le`, `le_count_shift`).
-/

namespace MediaPreview.Audio

open Ranking Vectors Tally

variable (a b : List UInt32)

/-- Position `i` of the first fingerprint meets position `j` of the second, at value shift `dIndex`. -/
structure PointHit where
  /-- The position in the first. -/
  i : ℕ
  /-- Which value shift. -/
  dIndex : ℕ
  /-- The position in the second. -/
  j : ℕ

namespace PointHit

/-- The shift it is a vote for. -/
def shift (h : PointHit) : ℤ := h.j - h.i

/-- The vote, as the matcher counts it: slot and key. -/
def vote (h : PointHit) : ℕ × ℤ := (slotOf a h.i h.j, keyOf b h.i h.dIndex h.j)

end PointHit

/-- The positions of the second fingerprint with a value. -/
def positionsOf (v : ℤ) : List ℕ := (List.range b.length).filter fun j => value b j = v

/-- The hits of position `i` at one value shift. -/
def hitsWith (i : ℕ) (d : ℤ × ℕ) : List PointHit := (positionsOf b (value a i + d.1)).map fun j => ⟨i, d.2, j⟩

/-- The hits of position `i`. -/
def hitsAt (i : ℕ) : List PointHit := valueShifts.zipIdx.flatMap (hitsWith a b i)

/-- All hits, in the order of the scan. -/
def hits : List PointHit := (List.range a.length).flatMap (hitsAt a b)

variable {a b}

theorem mem_positionsOf {v : ℤ} {j : ℕ} : j ∈ positionsOf b v ↔ j < b.length ∧ value b j = v := by
  rw [positionsOf, List.mem_filter, List.mem_range, decide_eq_true_eq]

theorem mem_valueShifts_zipIdx {d : ℤ × ℕ} : d ∈ valueShifts.zipIdx ↔ d.2 < 5 ∧ d.1 = d.2 - 2 := by
  obtain ⟨d, k⟩ := d
  simp only [valueShifts, List.zipIdx_cons, List.zipIdx_nil, List.mem_cons, List.not_mem_nil, Prod.mk.injEq, or_false]
  omega

theorem mem_hits {h : PointHit} :
    h ∈ hits a b ↔ h.i < a.length ∧ h.j < b.length ∧ h.dIndex < 5 ∧ value b h.j = value a h.i + (h.dIndex - 2) := by
  obtain ⟨i, k, j⟩ := h
  simp only [hits, hitsAt, hitsWith, List.mem_flatMap, List.mem_range, List.mem_map, mem_positionsOf,
    mem_valueShifts_zipIdx, PointHit.mk.injEq]
  constructor
  · rintro ⟨i', hi, ⟨d, k'⟩, ⟨hk, hd⟩, j', ⟨hj, hv⟩, rfl, rfl, rfl⟩
    exact ⟨hi, hj, hk, by rw [hv]; exact congrArg _ hd⟩
  · rintro ⟨hi, hj, hk, hv⟩
    exact ⟨i, hi, ⟨_, k⟩, ⟨hk, rfl⟩, j, ⟨hj, hv⟩, rfl, rfl, rfl⟩

/-! ### The reference reads the hits in order -/

theorem zipIdx_eq_map_range (l : List UInt32) : l.zipIdx = (List.range l.length).map fun i => (l.getD i 0, i) := by
  refine List.ext_getElem (by simp) fun k hk hk' => ?_
  rw [List.length_zipIdx] at hk
  simp [List.getElem?_eq_getElem hk]

theorem foldl_index (l : List (UInt32 × ℕ)) (ix : ℤ → List ℕ) (v : ℤ) :
    l.foldl (fun ix v => Function.update ix (v.1.toNat : ℤ) (ix v.1.toNat ++ [v.2])) ix v =
      ix v ++ (l.filter fun p => (p.1.toNat : ℤ) = v).map Prod.snd := by
  induction l generalizing ix with
  | nil => simp
  | cons p l ih =>
    rw [List.foldl_cons, ih]
    by_cases h : (p.1.toNat : ℤ) = v
    · subst h
      simp
    · rw [Function.update_of_ne (fun hv => h hv.symm), List.filter_cons_of_neg (by simpa using h)]

theorem index_eq (v : ℤ) : Reference.index b v = positionsOf b v := by
  rw [Reference.index, foldl_index, List.nil_append, zipIdx_eq_map_range, List.filter_map, List.map_map]
  exact List.map_id _

/-- **The reference meets the hits in the order of the scan.** -/
theorem shiftVotes_eq : Reference.shiftVotes a b = (hits a b).map PointHit.shift := by
  rw [Reference.shiftVotes, hits, zipIdx_eq_map_range, List.flatMap_map, List.map_flatMap]
  refine List.flatMap_congr fun i _ => ?_
  rw [hitsAt, List.map_flatMap, valueShifts]
  simp [hitsWith, index_eq, value, PointHit.shift, Function.comp_def]

/-! ### The matcher reads them in some order -/

section Scanning

variable (order : Argsort b) (perChunk : ℕ)

theorem searchRight_sortedB_le (v : ℤ) : searchRight (sortedB b order.order) v ≤ order.order.length := by
  have h := searchRight_le_length (sortedB b order.order) v
  rwa [sortedB, List.length_map] at h

/-- The slice of the sort between two binary searches holds the positions of a value. -/
theorem slice_perm (v : ℤ) :
    ((List.range' (searchLeft (sortedB b order.order) v)
      (searchRight (sortedB b order.order) v - searchLeft (sortedB b order.order) v)).map fun p =>
        order.order.getD p 0).Perm (positionsOf b v) := by
  have hle := searchLeft_le_searchRight (sortedB b order.order) v
  have hlen := searchRight_sortedB_le order v
  rw [map_getD_range' _ _ (by omega), sortedB, slice_search _ _ order.sorted]
  exact order.perm.filter _

/-- **One batch**: the hits of its positions at its value shift, in some order. -/
theorem batch_perm {lo hi : ℕ} (hhi : hi ≤ a.length) (d : ℤ × ℕ) :
    (batch a b order.order lo hi d.1 d.2).Perm
      (((List.range' lo (hi - lo)).flatMap fun i => hitsWith a b i d).map (PointHit.vote a b)) := by
  set c := fun i => searchRight (sortedB b order.order) (value a i + d.1) -
    searchLeft (sortedB b order.order) (value a i + d.1) with hc
  set rows := List.range' lo (hi - lo) with hrows
  have hper : ((matchesAt a b order.order d.1).drop lo).take (hi - lo) = rows.map c := drop_take_map _ a 0 hhi
  have hleft : ((lefts a b order.order d.1).drop lo).take (hi - lo) =
      rows.map fun i => searchLeft (sortedB b order.order) (value a i + d.1) := drop_take_map _ a 0 hhi
  simp only [batch, hper, hleft]
  rw [zipWith_add_within, List.map_flatMap, zipWith_repeatBy _ _ _ (by simp [hc]), zipWith_repeatBy _ _ _ (by simp [hc]),
    List.zip, zipWith_flatMap _ _ (by simp), List.map_flatMap]
  refine List.Perm.flatMap_left _ fun i _ => ?_
  have hslice := (slice_perm order (value a i + d.1)).map fun j => PointHit.vote a b ⟨i, d.2, j⟩
  rw [List.map_map] at hslice
  rw [List.zipWith_map, List.zipWith_self, hitsWith, List.map_map, List.map_map]
  exact hslice

theorem Scan.add_nil (st : Scan) : st.add [] = st := rfl

theorem Scan.add_append (st : Scan) (v w : List (ℕ × ℤ)) : (st.add v).add w = st.add (v ++ w) := by
  simp only [Scan.add, List.map_append, List.count_append, List.foldl_append, Nat.add_assoc]

theorem foldl_add (f : ℤ × ℕ → List (ℕ × ℤ)) (ds : List (ℤ × ℕ)) (st : Scan) :
    ds.foldl (fun st d => st.add (f d)) st = st.add (ds.flatMap f) := by
  induction ds generalizing st with
  | nil => rfl
  | cons d ds ih => rw [List.foldl_cons, ih, Scan.add_append, List.flatMap_cons]

/-- A chunk adds its batches; one that is skipped is empty. -/
theorem chunk_eq (lo hi : ℕ) (st : Scan) :
    chunk a b order.order lo hi st =
      st.add (valueShifts.zipIdx.flatMap fun d => batch a b order.order lo hi d.1 d.2) := by
  rw [chunk, ← foldl_add]
  congr 1
  funext st d
  split_ifs with h
  · rw [batch, repeatBy_of_sum_eq_zero _ h]
    rfl
  · rfl

theorem chunk_perm {lo hi : ℕ} (hhi : hi ≤ a.length) :
    (valueShifts.zipIdx.flatMap fun d => batch a b order.order lo hi d.1 d.2).Perm
      (((List.range' lo (hi - lo)).flatMap (hitsAt a b)).map (PointHit.vote a b)) := by
  refine (List.Perm.flatMap_left _ fun d _ => batch_perm order hhi d).trans ?_
  rw [← List.map_flatMap]
  exact (flatMap_flatMap_perm _ _ _).map _

theorem chunkEnd_le {lo : ℕ} (hlo : lo < a.length) : chunkEnd a b order.order perChunk lo ≤ a.length := by
  refine max_le hlo ((searchRight_le_length _ _).trans_eq ?_)
  rw [matchesUpTo, cumsum, length_cumsumFrom, List.length_map, List.length_range]

/-- **The loop**: from position `lo` on it adds the votes of the positions left, in some order,
wherever it cuts its chunks. -/
theorem exists_scan_eq (lo : ℕ) (st : Scan) :
    ∃ votes, votes.Perm (((List.range' lo (a.length - lo)).flatMap (hitsAt a b)).map (PointHit.vote a b)) ∧
      scan a b order.order perChunk lo st = st.add votes := by
  induction lo, st using scan.induct a b order.order perChunk with
  | case1 lo st hi hlo ih =>
    obtain ⟨votes, hvotes, hscan⟩ := ih
    have hlt : lo + 1 ≤ chunkEnd a b order.order perChunk lo := le_max_left _ _
    have hle := chunkEnd_le order perChunk hlo
    refine ⟨_, ?_, by rw [scan, if_pos hlo, hscan, chunk_eq, Scan.add_append]⟩
    refine ((chunk_perm order hle).append hvotes).trans (List.Perm.of_eq ?_)
    rw [← List.map_append, ← List.flatMap_append,
      show a.length - lo = (chunkEnd a b order.order perChunk lo - lo) + (a.length - chunkEnd a b order.order perChunk lo) by omega,
      ← List.range'_append_1, show lo + (chunkEnd a b order.order perChunk lo - lo) = chunkEnd a b order.order perChunk lo by omega]
  | case2 lo st hlo =>
    refine ⟨[], ?_, by rw [scan, if_neg hlo, Scan.add_nil]⟩
    rw [show a.length - lo = 0 by omega]
    exact .nil

theorem exists_scan_zero_eq :
    ∃ votes, votes.Perm ((hits a b).map (PointHit.vote a b)) ∧
      scan a b order.order perChunk 0 Scan.empty = Scan.empty.add votes := by
  obtain ⟨votes, hvotes, hscan⟩ := exists_scan_eq (a := a) order perChunk 0 Scan.empty
  rw [Nat.sub_zero, ← List.range_eq_range'] at hvotes
  exact ⟨votes, hvotes, hscan⟩

/-- **Each slot's count** is the number of its hits. -/
theorem scan_counts (s : ℕ) :
    (scan a b order.order perChunk 0 Scan.empty).counts s = (((hits a b).map (PointHit.vote a b)).map Prod.fst).count s := by
  obtain ⟨votes, hvotes, hscan⟩ := exists_scan_zero_eq (a := a) order perChunk
  rw [hscan, ← (hvotes.map Prod.fst).count_eq s]
  exact Nat.zero_add _

/-- **Each slot's first sighting** is the least key of its hits. -/
theorem scan_firstSeen (s : ℕ) :
    (scan a b order.order perChunk 0 Scan.empty).firstSeen s =
      firstSeen int64Max ((hits a b).map (PointHit.vote a b)) s := by
  obtain ⟨votes, hvotes, hscan⟩ := exists_scan_zero_eq (a := a) order perChunk
  rw [hscan, ← firstSeen_perm int64Max hvotes s]
  exact foldl_keepFirst votes _ s

end Scanning

end MediaPreview.Audio
