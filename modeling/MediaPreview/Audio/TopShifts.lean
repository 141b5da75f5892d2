import MediaPreview.Audio.Hits

/-!
# The best shifts, both ways

The matcher ranks slots by (count, first key), the reference a dictionary of shifts stably by
count. `topShifts_eq` states the matcher's answer in terms of the hits alone: it does not
depend on how equal points were sorted nor on where the chunks end. The hits stand in the
order of their places in the scan (`pairwise_place_hits`), so as long as no place overflows an
`int64` the keys rank shifts as the dictionary's order does (`topShifts_eq_bestShifts`).

Past that the keys wrap and ties fall otherwise: `pairRuns_ne_reference` gives two
fingerprints where the runs come out in another order.
-/

namespace MediaPreview.Audio

open Binary64 Ranking Vectors Tally

variable {a b : List UInt32}

/-! ### Slots are shifts -/

/-- The votes: the shift and the key of each hit. -/
def keyedShifts (a b : List UInt32) : List (ℤ × ℤ) :=
  (hits a b).map fun h => (h.shift, keyOf b h.i h.dIndex h.j)

/-- By votes, most first, then by least key. -/
def rank (a b : List UInt32) (s : ℤ) : ℤ ×ₗ ℤ :=
  toLex (-(((hits a b).map PointHit.shift).count s : ℤ), firstSeen int64Max (keyedShifts a b) s)

/-- The shift counted at a slot. -/
def shiftOf (a : List UInt32) (slot : ℕ) : ℤ := (slot : ℤ) - a.length

theorem shiftOf_injective (a : List UInt32) : Function.Injective (shiftOf a) := by
  intro s t h
  simp only [shiftOf] at h
  omega

theorem shiftOf_slotOf {h : PointHit} (hh : h ∈ hits a b) : shiftOf a (slotOf a h.i h.j) = h.shift := by
  have := (mem_hits.mp hh).1
  simp only [shiftOf, slotOf, PointHit.shift]
  omega

theorem map_shiftOf_vote :
    ((hits a b).map (PointHit.vote a b)).map (fun v => (shiftOf a v.1, v.2)) = keyedShifts a b := by
  rw [List.map_map]
  refine List.map_congr_left fun h hh => ?_
  simp only [Function.comp, PointHit.vote, shiftOf_slotOf hh]

theorem map_fst_keyedShifts : (keyedShifts a b).map Prod.fst = (hits a b).map PointHit.shift := by
  rw [keyedShifts, List.map_map]
  rfl

section Ranked

variable (order : Argsort b) (perChunk : ℕ)

theorem scan_counts_eq (slot : ℕ) :
    (scan a b order.order perChunk 0 Scan.empty).counts slot =
      ((hits a b).map PointHit.shift).count (shiftOf a slot) := by
  rw [scan_counts, ← List.count_map_of_injective _ _ (shiftOf_injective a), ← map_fst_keyedShifts, ← map_shiftOf_vote]
  simp only [List.map_map, Function.comp_def]

theorem scan_firstSeen_eq (slot : ℕ) :
    (scan a b order.order perChunk 0 Scan.empty).firstSeen slot =
      firstSeen int64Max (keyedShifts a b) (shiftOf a slot) := by
  rw [scan_firstSeen, ← map_shiftOf_vote, firstSeen_map (shiftOf_injective a)]

/-- The shifts with a hit, ascending. -/
def seenShifts (a b : List UInt32) : List ℤ :=
  ((List.range (a.length + b.length)).map (shiftOf a)).filter fun s => ((hits a b).map PointHit.shift).count s ≠ 0

theorem nodup_seenShifts : (seenShifts a b).Nodup :=
  (List.nodup_range.map (shiftOf_injective a)).filter _

theorem mem_seenShifts {s : ℤ} : s ∈ seenShifts a b ↔ s ∈ (hits a b).map PointHit.shift := by
  rw [seenShifts, List.mem_filter, decide_eq_true_eq, ← Nat.pos_iff_ne_zero, List.count_pos_iff, and_iff_right_iff_imp]
  intro hs
  obtain ⟨h, hh, rfl⟩ := List.mem_map.mp hs
  have hm := mem_hits.mp hh
  refine List.mem_map.mpr ⟨slotOf a h.i h.j, List.mem_range.mpr ?_, shiftOf_slotOf hh⟩
  simp only [slotOf]
  omega

theorem map_shiftOf_seen :
    (seen a b (scan a b order.order perChunk 0 Scan.empty)).map (shiftOf a) = seenShifts a b := by
  rw [seen, seenShifts, List.filter_map]
  congr 2
  funext slot
  rw [scan_counts_eq]
  rfl

/-- **The matcher's best shifts** in terms of the hits: whatever the chunks and the order of
equal points. -/
theorem topShifts_eq :
    topShifts a b order.order perChunk = (sortBy (rank a b) (seenShifts a b)).take topCount := by
  rw [topShifts]
  split_ifs with h
  · have hnil : seenShifts a b = [] := by
      rw [List.eq_nil_iff_forall_not_mem]
      intro s hs
      obtain ⟨h', hh, -⟩ := List.mem_map.mp (mem_seenShifts.mp hs)
      have hm := mem_hits.mp hh
      omega
    rw [hnil]
    rfl
  · simp only [scan_counts_eq order perChunk, scan_firstSeen_eq order perChunk]
    rw [← map_shiftOf_seen order perChunk, sortBy_map, ← List.map_take]
    rfl

end Ranked

/-! ### The dictionary's order -/

/-- A hit's place in the scan: its key, before it is cut to an `int64`. -/
def PointHit.place (b : List UInt32) (h : PointHit) : ℕ := (h.i * 5 + h.dIndex) * (b.length + 1) + h.j

theorem keyOf_eq_place (h : PointHit) : keyOf b h.i h.dIndex h.j = toInt64 (h.place b) := by
  simp [keyOf, PointHit.place, valueShifts]

theorem place_lt_place {h h' : PointHit} (hj : h.j < b.length + 1)
    (hlt : h.i * 5 + h.dIndex < h'.i * 5 + h'.dIndex) : h.place b < h'.place b := by
  have hmul : (h.i * 5 + h.dIndex + 1) * (b.length + 1) ≤ (h'.i * 5 + h'.dIndex) * (b.length + 1) :=
    Nat.mul_le_mul_right _ hlt
  rw [Nat.succ_mul] at hmul
  simp only [PointHit.place]
  omega

theorem place_lt {h : PointHit} (hh : h ∈ hits a b) : h.place b + 1 < 5 * a.length * (b.length + 1) := by
  obtain ⟨hi, hj, hk, -⟩ := mem_hits.mp hh
  have hmul : (h.i * 5 + h.dIndex + 1) * (b.length + 1) ≤ 5 * a.length * (b.length + 1) :=
    Nat.mul_le_mul_right _ (by omega)
  rw [Nat.succ_mul] at hmul
  simp only [PointHit.place]
  omega

/-- **The scan's order**: the hits stand in the order of their places. -/
theorem pairwise_place_hits : (hits a b).Pairwise fun h h' => h.place b < h'.place b := by
  have hone : ∀ i d, (hitsWith a b i d).Pairwise fun h h' => h.place b < h'.place b := by
    intro i d
    rw [hitsWith, List.pairwise_map]
    refine (List.pairwise_lt_range.filter _).imp fun {j j'} hlt => ?_
    simpa only [PointHit.place] using Nat.add_lt_add_left hlt _
  have hwith : ∀ {i d h}, h ∈ hitsWith a b i d → h.i = i ∧ h.dIndex = d.2 ∧ h.j < b.length + 1 := by
    intro i d h hh
    obtain ⟨j, hj, rfl⟩ := List.mem_map.mp hh
    exact ⟨rfl, rfl, Nat.lt_succ_of_lt (mem_positionsOf.mp hj).1⟩
  rw [hits, List.pairwise_flatMap]
  constructor
  · intro i _
    rw [hitsAt, List.pairwise_flatMap]
    refine ⟨fun d _ => hone i d, ?_⟩
    have hd : valueShifts.zipIdx.Pairwise fun d d' => d.2 < d'.2 := by decide
    refine hd.imp fun {d d'} hlt h hh h' hh' => ?_
    obtain ⟨hi, hk, hj⟩ := hwith hh
    obtain ⟨hi', hk', -⟩ := hwith hh'
    exact place_lt_place hj (by omega)
  · refine List.pairwise_lt_range.imp fun {i i'} hlt h hh h' hh' => ?_
    obtain ⟨d, hd, hh⟩ := List.mem_flatMap.mp hh
    obtain ⟨d', -, hh'⟩ := List.mem_flatMap.mp hh'
    obtain ⟨hi, hk, hj⟩ := hwith hh
    obtain ⟨hi', -, -⟩ := hwith hh'
    have := (mem_valueShifts_zipIdx.mp hd).1
    exact place_lt_place hj (by omega)

/-- A place below `2 ^ 63` is its key. -/
theorem toInt64_of_lt {n : ℕ} (h : n < 2 ^ 63) : toInt64 n = n := by
  rw [toInt64, Int.bmod_eq_of_le] <;> omega

section InRange

variable (hfits : 5 * a.length * (b.length + 1) ≤ 2 ^ 63)

include hfits

theorem key_eq_place {h : PointHit} (hh : h ∈ hits a b) : keyOf b h.i h.dIndex h.j = h.place b := by
  rw [keyOf_eq_place, toInt64_of_lt]
  have := place_lt hh
  omega

theorem pairwise_keyedShifts : (keyedShifts a b).Pairwise fun v w => v.2 < w.2 := by
  rw [keyedShifts, List.pairwise_map]
  refine pairwise_place_hits.imp_of_mem fun {h h'} hh hh' hlt => ?_
  simp only [key_eq_place hfits hh, key_eq_place hfits hh', Nat.cast_lt, hlt]

theorem keyedShifts_le {v : ℤ × ℤ} (hv : v ∈ keyedShifts a b) : v.2 ≤ int64Max := by
  obtain ⟨h, hh, rfl⟩ := List.mem_map.mp hv
  rw [key_eq_place hfits hh, int64Max]
  have := place_lt hh
  omega

/-- **The rankings agree**: the shifts the matcher ranks best are the reference's, in its order. -/
theorem topShifts_eq_bestShifts (order : Argsort b) (perChunk : ℕ) :
    topShifts a b order.order perChunk = Reference.bestShifts a b := by
  have hrank := sortBy_tally (pairwise_keyedShifts hfits) (fun v hv => keyedShifts_le hfits hv)
    (nodup_seenShifts (a := a) (b := b)) fun s => by rw [map_fst_keyedShifts, mem_seenShifts]
  rw [map_fst_keyedShifts, ← shiftVotes_eq] at hrank
  rw [topShifts_eq, Reference.bestShifts, Reference.shifts, List.map_take, ← hrank, shiftVotes_eq]
  rfl

end InRange

/-- **The vectorised matcher is the reference**, as long as no place in the scan overflows: the same
runs in the same order, and the same best shifts wherever the chunks end. -/
theorem pairRuns_eq_reference (a b : List UInt32) (hfits : 5 * a.length * (b.length + 1) ≤ 2 ^ 63)
    (order : Argsort b) :
    pairRuns a b order = Reference.runs a b minPts ∧
      ∀ perChunk, topShifts a b order.order perChunk = Reference.bestShifts a b := by
  refine ⟨?_, topShifts_eq_bestShifts hfits order⟩
  rw [pairRuns, topShifts_eq_bestShifts hfits, Reference.runs]

theorem pairRuns_eq_reference_short :
    pairRuns [7, 9] [8, 8, 7] (Argsort.stable _) = Reference.runs [7, 9] [8, 8, 7] minPts ∧
      ∀ perChunk, topShifts [7, 9] [8, 8, 7] (Argsort.stable [8, 8, 7]).order perChunk =
        Reference.bestShifts [7, 9] [8, 8, 7] :=
  pairRuns_eq_reference [7, 9] [8, 8, 7] (by decide) _

/-! ### Past the range of the keys

Two fingerprints of `2 ^ 30 + 1` and `2 ^ 31 - 1` points with two hits. They have one hit at each
of two shifts; the second hit's place is past `2 ^ 63` and its key negative, so the matcher takes
the second shift for the one seen first. -/

/-- The first fingerprint's points. -/
def longA (i : ℕ) : UInt32 := if i = 1000 then 0x0000FFFF else if i = 2 ^ 30 then 0xFFFF0000 else 0

/-- The second fingerprint's points. -/
def longB (j : ℕ) : UInt32 :=
  if j ≤ 64 then 8 else if j = 1000 then 0x0000FFFF else if j = 2 ^ 30 - 64 then 0xFFFF0000 else 0xFFFFFFFF

/-- The first fingerprint. -/
def longPointsA : List UInt32 := (List.range (2 ^ 30 + 1)).map longA

/-- The second fingerprint. -/
def longPointsB : List UInt32 := (List.range (2 ^ 31 - 1)).map longB

@[simp] theorem length_longPointsA : longPointsA.length = 2 ^ 30 + 1 := by
  rw [longPointsA, List.length_map, List.length_range]

@[simp] theorem length_longPointsB : longPointsB.length = 2 ^ 31 - 1 := by
  rw [longPointsB, List.length_map, List.length_range]

theorem getD_map_range (f : ℕ → UInt32) {n i : ℕ} (h : i < n) : ((List.range n).map f).getD i 0 = f i := by
  rw [List.getD_eq_getElem _ _ (by simpa using h), List.getElem_map, List.getElem_range]

theorem getD_longPointsA {i : ℕ} (h : i < 2 ^ 30 + 1) : longPointsA.getD i 0 = longA i := getD_map_range longA h

theorem getD_longPointsB {j : ℕ} (h : j < 2 ^ 31 - 1) : longPointsB.getD j 0 = longB j := getD_map_range longB h

/-- The two hits. -/
theorem hits_long : hits longPointsA longPointsB = [⟨1000, 2, 1000⟩, ⟨2 ^ 30, 2, 2 ^ 30 - 64⟩] := by
  refine eq_of_pairwise_lt (R := fun h h' : PointHit => h.place longPointsB < h'.place longPointsB)
    (fun _ => lt_irrefl _) (fun _ _ _ => lt_trans) pairwise_place_hits ?_ fun h => ?_
  · simp [PointHit.place]
  · rw [mem_hits, length_longPointsA, length_longPointsB]
    obtain ⟨i, k, j⟩ := h
    simp only [List.mem_cons, List.not_mem_nil, or_false, PointHit.mk.injEq]
    constructor
    · rintro ⟨hi, hj, hk, hv⟩
      rw [value, value, getD_longPointsA hi, getD_longPointsB hj, longA, longB] at hv
      split_ifs at hv <;> simp at hv <;> omega
    · rintro (⟨rfl, rfl, rfl⟩ | ⟨rfl, rfl, rfl⟩)
      · refine ⟨by decide, by decide, by decide, ?_⟩
        rw [value, value, getD_longPointsA (by decide), getD_longPointsB (by decide)]
        decide
      · refine ⟨by decide, by decide, by decide, ?_⟩
        rw [value, value, getD_longPointsA (by decide), getD_longPointsB (by decide)]
        decide

/-- The second hit's key is the smaller one. -/
theorem keyedShifts_long : keyedShifts longPointsA longPointsB = [(0, 10741713208296), (-64, -6917529022272372800)] := by
  rw [keyedShifts, hits_long]
  simp only [List.map_cons, List.map_nil, PointHit.shift, keyOf, length_longPointsB]
  decide

theorem topShifts_long (order : Argsort longPointsB) (perChunk : ℕ) :
    topShifts longPointsA longPointsB order.order perChunk = [-64, 0] := by
  have hshifts : (hits longPointsA longPointsB).map PointHit.shift = [0, -64] := by
    rw [hits_long]
    decide
  have hrank : rank longPointsA longPointsB (-64) < rank longPointsA longPointsB 0 := by
    rw [rank, rank, hshifts, keyedShifts_long]
    decide
  have hsorted : sortBy (rank longPointsA longPointsB) (seenShifts longPointsA longPointsB) = [-64, 0] := by
    have hp : (seenShifts longPointsA longPointsB).Perm [-64, 0] := by
      rw [List.perm_ext_iff_of_nodup nodup_seenShifts (by decide)]
      intro s
      rw [mem_seenShifts, hshifts]
      simp only [List.mem_cons, List.not_mem_nil, or_false]
      exact or_comm
    refine ((sortBy_perm _ _).trans hp).eq_of_pairwise ?_ (pairwise_sortBy _ _) (by simpa using hrank.le)
    intro s t hs ht hst hts
    rw [mem_sortBy, hp.mem_iff] at hs
    simp only [List.mem_cons, List.not_mem_nil, or_false] at hs ht
    rcases hs with rfl | rfl <;> rcases ht with rfl | rfl
    · rfl
    · exact absurd hts (not_le.mpr hrank)
    · exact absurd hst (not_le.mpr hrank)
    · rfl
  rw [topShifts_eq, hsorted]
  rfl

theorem bestShifts_long : Reference.bestShifts longPointsA longPointsB = [0, -64] := by
  rw [Reference.bestShifts, Reference.shifts, shiftVotes_eq, hits_long]
  decide

/-- Unshifted, the first 65 points are alike and one more. -/
theorem alikeAt_long_zero : alikeAt longPointsA longPointsB 0 = List.range 65 ++ [1000] := by
  refine eq_of_pairwise_lt (fun _ => lt_irrefl _) (fun _ _ _ => lt_trans) (pairwise_alikeAt _ _ _) (by decide) fun k => ?_
  rw [mem_alikeAt, List.mem_append, List.mem_range, List.mem_singleton]
  have hoverlap : overlap longPointsA longPointsB 0 = 2 ^ 30 + 1 := by
    rw [overlap, length_longPointsA, length_longPointsB]
    decide
  rw [hoverlap]
  constructor
  · rintro ⟨hk, h⟩
    rw [getD_longPointsA (by simpa using hk), getD_longPointsB (by simp; omega)] at h
    simp only [Int.neg_zero, Int.toNat_zero, Nat.zero_add] at h
    by_contra hne
    rw [longA, longB] at h
    split_ifs at h <;> first | omega | exact absurd h (by decide)
  · rintro hk
    have hlt : k < 2 ^ 30 + 1 := by omega
    refine ⟨hlt, ?_⟩
    rw [getD_longPointsA (by simpa using hlt), getD_longPointsB (by simp; omega)]
    simp only [Int.neg_zero, Int.toNat_zero, Nat.zero_add]
    rw [longA, longB]
    rcases hk with hk | rfl
    · rw [if_neg (by omega), if_neg (by omega), if_pos (by omega)]
      decide
    · decide

/-- Shifted by 64 points, as many and another. -/
theorem alikeAt_long_shifted : alikeAt longPointsA longPointsB (-64) = List.range 65 ++ [2 ^ 30 - 64] := by
  refine eq_of_pairwise_lt (fun _ => lt_irrefl _) (fun _ _ _ => lt_trans) (pairwise_alikeAt _ _ _) (by decide) fun k => ?_
  rw [mem_alikeAt, List.mem_append, List.mem_range, List.mem_singleton]
  have hoverlap : overlap longPointsA longPointsB (-64) = 2 ^ 30 - 63 := by
    rw [overlap, length_longPointsA, length_longPointsB]
    decide
  rw [hoverlap, show (-(-64) : ℤ).toNat = 64 by decide, show (-64 : ℤ).toNat = 0 by decide, Nat.zero_add]
  constructor
  · rintro ⟨hk, h⟩
    rw [getD_longPointsA (by omega), getD_longPointsB (by omega)] at h
    by_contra hne
    rw [longA, longB] at h
    split_ifs at h <;> first | omega | exact absurd h (by decide)
  · rintro hk
    have hlt : k < 2 ^ 30 - 63 := by omega
    refine ⟨hlt, ?_⟩
    rw [getD_longPointsA (by omega), getD_longPointsB (by omega)]
    rw [longA, longB]
    rcases hk with hk | rfl
    · rw [if_neg (by omega), if_neg (by omega), if_pos (by omega)]
      decide
    · decide

/-- Where the first 65 points are alike, and one after a gap, there is one run. -/
theorem runsAt_of_alikeAt {a b : List UInt32} {s : ℤ} {n : ℕ} (h : alikeAt a b s = List.range 65 ++ [n]) (hn : 93 ≤ n)
    (hs : overlap a b s ≠ 0) : runsAt minPts a b s = [runOf s (0, 64)] := by
  have hsegments : segments (List.range 65 ++ [n]) = [(0, 64), (n, n)] := by
    have hdiff : diff (List.range 65 ++ [n]) = List.replicate 64 1 ++ [n - 64] := rfl
    have hgap : gapPts < n - 64 := by
      rw [gapPts_eq]
      omega
    have hone : ¬ gapPts < 1 := by
      rw [gapPts_eq]
      decide
    have hbreaks : flatnonzero ((diff (List.range 65 ++ [n])).map fun d => decide (gapPts < d)) = [64] := by
      rw [hdiff, List.map_append, List.map_replicate, List.map_singleton, decide_eq_false hone, decide_eq_true hgap]
      decide
    rw [segments, hbreaks]
    rfl
  rw [runsAt, if_neg hs, h]
  simp only [hsegments, minPts_eq]
  rw [if_neg (by simp)]
  simp

theorem keepRuns_pair {r k : Run} (hlen : r.length = k.length) (hr : r.meets k = false) (hk : k.meets r = false) :
    keepRuns [r, k] = [r, k] ∧ keepRuns [k, r] = [k, r] := by
  have hsort : ∀ {r k : Run}, r.length = k.length → sortBy (fun r : Run => -r.length) [r, k] = [r, k] := by
    intro r k h
    simp [sortBy, h]
  constructor
  · rw [keepRuns, hsort hlen]
    simp [keepRun, hk]
  · rw [keepRuns, hsort hlen.symm]
    simp [keepRun, hr]

/-- **Past the range of the keys the runs come out in another order.** -/
theorem pairRuns_ne_reference :
    ¬ ∀ (a b : List UInt32) (order : Argsort b),
      pairRuns a b order = Reference.runs a b minPts ∧
        ∀ perChunk, topShifts a b order.order perChunk = Reference.bestShifts a b := by
  intro h
  have hruns := (h longPointsA longPointsB (Argsort.stable _)).1
  have hzero : runsAt minPts longPointsA longPointsB 0 = [runOf 0 (0, 64)] := by
    refine runsAt_of_alikeAt alikeAt_long_zero (by decide) ?_
    rw [overlap, length_longPointsA, length_longPointsB]
    decide
  have hshifted : runsAt minPts longPointsA longPointsB (-64) = [runOf (-64) (0, 64)] := by
    refine runsAt_of_alikeAt alikeAt_long_shifted (by decide) ?_
    rw [overlap, length_longPointsA, length_longPointsB]
    decide
  have h64 : secs 64 = 2 ^ 6 * pointS := secs_two_pow (k := 6) (by decide)
  have h128 : secs 128 = 2 ^ 7 * pointS := secs_two_pow (k := 7) (by decide)
  have hrun0 : runOf 0 (0, 64) = ⟨0, 2 ^ 6 * pointS, 0, 2 ^ 6 * pointS⟩ := by
    simp [runOf, secs_zero, h64]
  have hrun64 : runOf (-64) (0, 64) = ⟨2 ^ 6 * pointS, 2 ^ 7 * pointS, 0, 2 ^ 6 * pointS⟩ := by
    simp [runOf, secs_zero, h64, h128]
  have hkeep := keepRuns_pair (r := runOf 0 (0, 64)) (k := runOf (-64) (0, 64))
    (by rw [hrun0, hrun64, Run.length, Run.length]; exact congrArg fl (by ring))
    (by rw [hrun0, hrun64]; simp [Run.meets]) (by rw [hrun0, hrun64]; simp [Run.meets])
  rw [pairRuns, topShifts_long, Reference.runs, bestShifts_long] at hruns
  simp only [List.flatMap_cons, List.flatMap_nil, hzero, hshifted, List.append_nil, List.singleton_append] at hruns
  rw [hkeep.1, hkeep.2, List.cons.injEq, hrun0, hrun64, Run.mk.injEq] at hruns
  have := pointS_pos
  linarith [hruns.1.1]

end MediaPreview.Audio
