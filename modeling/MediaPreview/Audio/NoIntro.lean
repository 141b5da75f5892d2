import MediaPreview.Audio.TopShifts

/-!
# Pairs that hold no intro

`holdsNoIntro` (`audio/season.py`) is true of two openings of one constant value with short
interruptions. Matching such a pair is slow and only finds runs longer than any intro, so
`seasonPairRuns` skips it.

Why that is right: let `v` be the first opening's commonest value. At a shift where the
openings overlap in `n` points, at most `n` votes are cast, and at least as many as there are
points that are `v` on both sides (`le_count_shift`). There are 40 shifts that overlap in all
but 39 points of the shorter opening; each of them gets 1024 votes, so every one of the best
40 does, and overlaps in that many points (`overlap_of_mem_topShifts`). Of any 28 aligned
points one is `v` on both sides (`exists_alike_window`), so the matches are never cut
(`segments_of_dense`) and reach into the first and the last 28 points of the overlap: one run
of at least 969 points, which is more than 120 s (`tooLong_runOf`).
-/

namespace MediaPreview.Audio

open Binary64 Ranking Vectors Tally

/-! ### The test -/

/-- `_TOO_LONG_RUN_PTS`. -/
def tooLongRunPts : ℕ := ⌊fl (maxIntroS / pointS)⌋₊ + 1

/-- `_TOO_LONG_OVERLAP_PTS`. -/
def tooLongOverlapPts : ℕ := tooLongRunPts + 2 * (gapPts - 1) + 1

theorem tooLongRunPts_eq : tooLongRunPts = 969 :=
  congrArg (· + 1) (floor_fl_div_pointS (n := 968) (by norm_num [maxIntroS]) (by norm_num [maxIntroS]) (by norm_num))

theorem tooLongOverlapPts_eq : tooLongOverlapPts = 1024 := by
  rw [tooLongOverlapPts, tooLongRunPts_eq, gapPts_eq]

/-- `values[np.argmax(counts)]`: the commonest value, the smallest of several. -/
def common (p : List UInt32) : UInt32 := ((sortedSet UInt32.toNat p).argmax fun v => p.count v).getD 0

/-- Which points are not `v`. -/
def outside (v : UInt32) (p : List UInt32) : List Bool := p.map fun x => x != v

/-- `_longest_stretch`: the most `True` values any `width` consecutive entries hold. -/
def longestStretch (l : List Bool) (width : ℕ) : ℕ :=
  if l.length ≤ width then l.count true
  else
    let totals := 0 :: cumsum (l.map Bool.toNat)
    (List.zipWith (· - ·) (totals.drop width) (totals.take (totals.length - width))).foldl max 0

/-- `holds_no_intro`. -/
def holdsNoIntro (a b : List UInt32) : Bool :=
  let shorter := min a.length b.length
  if shorter = 0 then false
  else
    let outsideA := outside (common a) a
    let outsideB := outside (common a) b
    if (shorter : ℤ) - (topCount - 1) - tooLongOverlapPts < outsideA.count true + outsideB.count true then false
    else longestStretch outsideA gapPts + longestStretch outsideB gapPts < gapPts

/-- `season_pair_runs`. -/
def seasonPairRuns (a b : List UInt32) (order : Argsort b) : List Run :=
  if holdsNoIntro a b then [] else pairRuns a b order

/-! ### The stretches -/

theorem le_foldl_max {l : List ℕ} {x : ℕ} (m : ℕ) (h : x ∈ l) : x ≤ l.foldl max m := by
  rw [List.foldl_max]
  exact (List.le_max?_getD_of_mem h).trans (le_max_right _ _)

theorem sum_map_toNat (l : List Bool) : (l.map Bool.toNat).sum = l.count true := by
  induction l with
  | nil => rfl
  | cons x l ih => cases x <;> simp [ih, Nat.add_comm]

/-- **Every window** holds at most that many. -/
theorem count_window_le {l : List Bool} {k width : ℕ} (h : k + width ≤ l.length) :
    ((l.drop k).take width).count true ≤ longestStretch l width := by
  rw [longestStretch]
  split_ifs with hlen
  · exact ((List.take_sublist _ _).trans (List.drop_sublist _ _)).count_le true
  · have htotals : (0 :: cumsum (l.map Bool.toNat)).length = l.length + 1 := by
      rw [List.length_cons, cumsum, length_cumsumFrom, List.length_map]
    refine le_foldl_max 0 (List.mem_iff_getElem.mpr ⟨k, ?_, ?_⟩)
    · rw [List.length_zipWith, List.length_drop, List.length_take, htotals]
      omega
    · rw [List.getElem_zipWith, List.getElem_drop, List.getElem_take, getElem_totals, getElem_totals,
        ← sum_map_toNat, List.map_take, List.map_drop, Nat.add_comm width k, List.take_add, List.sum_append]
      omega

theorem count_outside (v : UInt32) (p : List UInt32) {s n : ℕ} (h : s + n ≤ p.length) :
    ((List.range n).countP fun k => p.getD (s + k) 0 != v) = (((outside v p).drop s).take n).count true := by
  rw [outside, ← List.map_drop, ← List.map_take, ← map_getD_add p 0 h, List.count, List.countP_map, List.countP_map]
  refine List.countP_congr fun k _ => ?_
  simp

theorem count_outside_le (v : UInt32) (p : List UInt32) {s n : ℕ} (h : s + n ≤ p.length) :
    ((List.range n).countP fun k => p.getD (s + k) 0 != v) ≤ (outside v p).count true := by
  rw [count_outside v p h]
  exact ((List.take_sublist _ _).trans (List.drop_sublist _ _)).count_le true

/-! ### Votes at a shift -/

variable {a b : List UInt32}

/-- Whether the points at position `k` of the overlap are a hit. -/
def isHit (a b : List UInt32) (s : ℤ) (k : ℕ) : Bool :=
  (value b (s.toNat + k) - value a ((-s).toNat + k)).natAbs ≤ 2

/-- At one shift the hits come in ascending order of their position: a position has one partner, and
so one value shift. -/
theorem pairwise_hits_at (s : ℤ) :
    ((hits a b).filter fun h => h.shift = s).Pairwise fun h h' => h.i - (-s).toNat < h'.i - (-s).toNat := by
  refine (pairwise_place_hits.filter _).imp_of_mem fun {h h'} hh hh' hlt => ?_
  rw [List.mem_filter, mem_hits, decide_eq_true_eq] at hh hh'
  obtain ⟨⟨-, hj, hk, hv⟩, hs⟩ := hh
  obtain ⟨⟨-, hj', hk', hv'⟩, hs'⟩ := hh'
  rw [PointHit.shift] at hs hs'
  rcases lt_trichotomy h.i h'.i with hi | hi | hi
  · omega
  · have hjj : h.j = h'.j := by omega
    rw [hjj, hv', hi] at hv
    have hkk : h.dIndex = h'.dIndex := by omega
    simp only [PointHit.place, hi, hkk, hjj, lt_irrefl] at hlt
  · have hgt : h'.place b < h.place b := place_lt_place (by omega) (by omega)
    exact absurd hlt hgt.asymm

/-- The hits at one shift, by their position in the overlap. -/
theorem map_filter_shift (s : ℤ) :
    ((hits a b).filter fun h => h.shift = s).map (fun h => h.i - (-s).toNat) =
      (List.range (overlap a b s)).filter (isHit a b s) := by
  refine eq_of_pairwise_lt (fun _ => lt_irrefl _) (fun _ _ _ => lt_trans) ?_ (List.pairwise_lt_range.filter _) fun k => ?_
  · rw [List.pairwise_map]
    exact pairwise_hits_at s
  · simp only [List.mem_map, List.mem_filter, List.mem_range, mem_hits, decide_eq_true_eq, isHit, overlap]
    constructor
    · rintro ⟨h, ⟨⟨hi, hj, hk, hv⟩, hs⟩, rfl⟩
      rw [PointHit.shift] at hs
      refine ⟨by omega, ?_⟩
      rw [show s.toNat + (h.i - (-s).toNat) = h.j by omega, show (-s).toNat + (h.i - (-s).toNat) = h.i by omega, hv]
      omega
    · rintro ⟨hk, hclose⟩
      set i := (-s).toNat + k with hi
      set j := s.toNat + k with hj
      refine ⟨⟨i, (value b j - value a i + 2).toNat, j⟩, ⟨⟨?_, ?_, ?_, ?_⟩, ?_⟩, ?_⟩
      · simp only
        omega
      · simp only
        omega
      · simp only
        omega
      · simp only
        omega
      · simp only [PointHit.shift]
        omega
      · simp only
        omega

theorem count_shift (s : ℤ) :
    ((hits a b).map PointHit.shift).count s = (List.range (overlap a b s)).countP (isHit a b s) := by
  rw [List.countP_eq_length_filter, ← map_filter_shift, List.length_map, ← List.countP_eq_length_filter, List.count,
    List.countP_map]
  refine List.countP_congr fun h _ => ?_
  simp

/-- At most one vote for each overlapping point. -/
theorem count_shift_le (s : ℤ) : ((hits a b).map PointHit.shift).count s ≤ overlap a b s := by
  rw [count_shift]
  exact List.countP_le_length.trans_eq List.length_range

/-- At least one vote for each overlapping point where both fingerprints hold `v`. -/
theorem le_count_shift (v : UInt32) (s : ℤ) :
    overlap a b s ≤
      ((hits a b).map PointHit.shift).count s + ((outside v a).count true + (outside v b).count true) := by
  set n := overlap a b s with hn
  have hlen : n ≤ a.length - (-s).toNat ∧ n ≤ b.length - s.toNat := ⟨min_le_left _ _, min_le_right _ _⟩
  by_cases hzero : n = 0
  · omega
  have houtA := count_outside_le v a (s := (-s).toNat) (n := n) (by omega)
  have houtB := count_outside_le v b (s := s.toNat) (n := n) (by omega)
  have hor := countP_or_le (fun k => a.getD ((-s).toNat + k) 0 != v) (fun k => b.getD (s.toNat + k) 0 != v) (List.range n)
  have hall : n ≤ (List.range n).countP (isHit a b s) +
      (List.range n).countP fun k => a.getD ((-s).toNat + k) 0 != v || b.getD (s.toNat + k) 0 != v := by
    have hor' := countP_or_le (isHit a b s)
      (fun k => a.getD ((-s).toNat + k) 0 != v || b.getD (s.toNat + k) 0 != v) (List.range n)
    refine le_trans ?_ hor'
    rw [List.countP_eq_length.mpr, List.length_range]
    intro k _
    simp only [Bool.or_eq_true, bne_iff_ne, ne_eq]
    by_cases hA : a.getD ((-s).toNat + k) 0 = v
    · by_cases hB : b.getD (s.toNat + k) 0 = v
      · left
        rw [isHit, value, value, hA, hB, sub_self]
        rfl
      · exact .inr (.inr hB)
    · exact .inr (.inl hA)
  rw [count_shift, ← hn]
  omega

/-! ### Matches without a break -/

theorem getElem_le_of_pairwise {idx : List ℕ} (hidx : idx.Pairwise (· < ·)) {i j : ℕ} (hj : j < idx.length)
    (hij : i ≤ j) : idx[i] ≤ idx[j] := by
  rcases hij.lt_or_eq with h | rfl
  · exact (List.pairwise_iff_getElem.mp hidx i j (by omega) hj h).le
  · exact le_rfl

/-- Where every stretch as long as the gap holds a match, no two matches are further apart. -/
theorem no_break_of_dense {idx : List ℕ} {n : ℕ} (hidx : idx.Pairwise (· < ·)) (hlt : ∀ x ∈ idx, x < n)
    (hdense : ∀ k, k + gapPts ≤ n → ∃ x ∈ idx, k ≤ x ∧ x < k + gapPts) :
    flatnonzero ((diff idx).map fun d => decide (gapPts < d)) = [] := by
  rw [List.eq_nil_iff_forall_not_mem]
  intro k hk
  rw [mem_flatnonzero, List.getElem?_map, Option.map_eq_some_iff] at hk
  obtain ⟨d, hd, hgap⟩ := hk
  obtain ⟨hklen, rfl⟩ := List.getElem?_eq_some_iff.mp hd
  have hk1 : k + 1 < idx.length := by
    rw [length_diff] at hklen
    omega
  rw [getElem_diff, List.getD_eq_getElem idx 0 hk1, List.getD_eq_getElem idx 0 (by omega), decide_eq_true_eq] at hgap
  have hlast := hlt idx[k + 1] (List.getElem_mem hk1)
  -- the window after match `k` holds another, before match `k + 1`
  obtain ⟨x, hx, hxlo, hxhi⟩ := hdense (idx[k] + 1) (by omega)
  obtain ⟨m, hm, rfl⟩ := List.mem_iff_getElem.mp hx
  rcases Nat.lt_or_ge k m with hkm | hkm
  · have : idx[k + 1] ≤ idx[m] := getElem_le_of_pairwise hidx hm hkm
    omega
  · have := getElem_le_of_pairwise hidx (by omega : k < idx.length) hkm
    omega

theorem segments_of_no_break {idx : List ℕ} (hpos : 0 < idx.length)
    (hnobreak : flatnonzero ((diff idx).map fun d => decide (gapPts < d)) = []) :
    segments idx = [(idx[0], idx[idx.length - 1])] := by
  have hhead : idx.headD 0 = idx[0] := by
    rw [List.headD_eq_head?_getD, List.head?_eq_getElem?, List.getElem?_eq_getElem hpos, Option.getD_some]
  have hlast : idx.getLastD 0 = idx[idx.length - 1] := by
    rw [List.getLastD_eq_getLast?, List.getLast?_eq_getElem?, List.getElem?_eq_getElem (by omega), Option.getD_some]
  rw [segments, hnobreak, List.map_nil, List.map_nil, List.nil_append, hhead, hlast]
  rfl

/-- **Matches as dense as the gap are one run**, that reaches within a gap of both ends. -/
theorem segments_of_dense {idx : List ℕ} {n : ℕ} (hidx : idx.Pairwise (· < ·)) (hlt : ∀ x ∈ idx, x < n)
    (hn : gapPts ≤ n) (hdense : ∀ k, k + gapPts ≤ n → ∃ x ∈ idx, k ≤ x ∧ x < k + gapPts) :
    ∃ x y, segments idx = [(x, y)] ∧ x < gapPts ∧ n ≤ y + gapPts ∧ y < n := by
  obtain ⟨x₀, hx₀, -, hx₀lt⟩ := hdense 0 (by omega)
  obtain ⟨x₁, hx₁, hx₁le, -⟩ := hdense (n - gapPts) (by omega)
  have hpos : 0 < idx.length := List.length_pos_of_mem hx₀
  refine ⟨idx[0], idx[idx.length - 1], segments_of_no_break hpos (no_break_of_dense hidx hlt hdense), ?_, ?_,
    hlt _ (List.getElem_mem _)⟩
  · obtain ⟨m, hm, rfl⟩ := List.mem_iff_getElem.mp hx₀
    have := getElem_le_of_pairwise hidx hm (Nat.zero_le m)
    omega
  · obtain ⟨m, hm, rfl⟩ := List.mem_iff_getElem.mp hx₁
    have := getElem_le_of_pairwise hidx (by omega : idx.length - 1 < idx.length) (by omega : m ≤ idx.length - 1)
    omega

/-- **Of any 28 aligned points one holds `v` on both sides**, when the stretches outside are short. -/
theorem exists_alike_window {v : UInt32} {s : ℤ} {k : ℕ} (hk : k + gapPts ≤ overlap a b s)
    (hshort : longestStretch (outside v a) gapPts + longestStretch (outside v b) gapPts < gapPts) :
    ∃ x ∈ alikeAt a b s, k ≤ x ∧ x < k + gapPts := by
  by_contra hnone
  have hlen : overlap a b s ≤ a.length - (-s).toNat ∧ overlap a b s ≤ b.length - s.toNat :=
    ⟨min_le_left _ _, min_le_right _ _⟩
  have hA := (count_outside v a (s := (-s).toNat + k) (n := gapPts) (by omega)).trans_le
    (count_window_le (by rw [outside, List.length_map]; omega))
  have hB := (count_outside v b (s := s.toNat + k) (n := gapPts) (by omega)).trans_le
    (count_window_le (by rw [outside, List.length_map]; omega))
  have hor := countP_or_le (fun x => a.getD ((-s).toNat + k + x) 0 != v) (fun x => b.getD (s.toNat + k + x) 0 != v)
    (List.range gapPts)
  rw [List.countP_eq_length.mpr, List.length_range] at hor
  · omega
  · intro x hx
    rw [List.mem_range] at hx
    simp only [Bool.or_eq_true, bne_iff_ne, ne_eq]
    by_contra hboth
    push Not at hboth
    refine hnone ⟨k + x, mem_alikeAt.mpr ⟨by omega, ?_⟩, by omega, by omega⟩
    rw [← Nat.add_assoc, ← Nat.add_assoc, hboth.1, hboth.2, alike_self]

/-! ### The best shifts overlap long enough -/

/-- What the test says of a pair. -/
structure Quiet (a b : List UInt32) (v : UInt32) : Prop where
  /-- Few points are not `v`. -/
  few : (outside v a).count true + (outside v b).count true + 1063 ≤ min a.length b.length
  /-- No 28 points hold many of them. -/
  short : longestStretch (outside v a) gapPts + longestStretch (outside v b) gapPts < gapPts

theorem quiet_of_holdsNoIntro (h : holdsNoIntro a b = true) : Quiet a b (common a) := by
  simp only [holdsNoIntro, tooLongOverlapPts_eq, topCount] at h
  split_ifs at h with h₁ h₂
  exact ⟨by omega, of_decide_eq_true h⟩

theorem rank_le_iff {s : ℤ} {n : ℕ} :
    rank a b s ≤ toLex (-(n : ℤ), int64Max) ↔ n ≤ ((hits a b).map PointHit.shift).count s := by
  have htop := firstSeen_le_top int64Max (keyedShifts a b) s
  rw [rank, Prod.Lex.toLex_le_toLex]
  constructor
  · rintro (h | ⟨h, -⟩) <;> simp only at h <;> omega
  · intro h
    rcases h.lt_or_eq with hlt | heq
    · exact .inl (by simp only; omega)
    · exact .inr ⟨by simp only; omega, htop⟩

/-- **Every shift the matcher takes overlaps in at least 1024 points.** -/
theorem Quiet.overlap_of_mem_topShifts {v : UInt32} (hq : Quiet a b v) {order : Argsort b} {perChunk : ℕ} {s : ℤ}
    (hs : s ∈ topShifts a b order.order perChunk) : 1024 ≤ overlap a b s := by
  have hfew := hq.few
  -- the 40 shifts to the right that are closest to full overlap
  set near : List ℤ := (List.range topCount).map fun k : ℕ => (k : ℤ) with hnear
  have hvotes : ∀ t ∈ near, 1024 ≤ ((hits a b).map PointHit.shift).count t := by
    intro t ht
    obtain ⟨k, hk, rfl⟩ := List.mem_map.mp ht
    rw [List.mem_range, topCount] at hk
    have hle := le_count_shift (a := a) (b := b) v k
    have hoverlap : min a.length b.length - 39 ≤ overlap a b k := by
      rw [overlap]
      omega
    omega
  have hnodup : near.Nodup := List.nodup_range.map Nat.cast_injective
  have hsub : near.Subperm (seenShifts a b) := by
    refine hnodup.subperm fun t ht => ?_
    rw [mem_seenShifts]
    exact List.count_pos_iff.mp (Nat.lt_of_lt_of_le (by decide) (hvotes t ht))
  rw [topShifts_eq] at hs
  have hbound : rank a b s ≤ toLex (-((1024 : ℕ) : ℤ), int64Max) :=
    key_le_of_mem_take hsub (by simp [hnear]) (fun t ht => rank_le_iff.mpr (hvotes t ht)) hs
  exact (rank_le_iff.mp hbound).trans (count_shift_le s)

/-! ### Longer than any intro -/

/-- `Fingerprint`: an array of points. An `int64` array of its length fits an address space of 47
bits, which the matcher makes several of. -/
structure Fingerprint where
  /-- The points. -/
  points : List UInt32
  /-- There is room for them. -/
  fits : points.length < 2 ^ 44

theorem abs_secs_sub_le {n : ℕ} (hn : n ≤ 2 ^ 53) : |secs n - n * pointS| ≤ n * pointS / 2 ^ 53 := by
  have hfl : fl (n : ℚ) = n := by
    have h := fl_intCast (n := n) (by rw [abs_of_nonneg (by positivity)]; exact_mod_cast hn)
    exact_mod_cast h
  have h := abs_fl_sub_le (n * pointS)
  rwa [abs_of_nonneg (mul_nonneg n.cast_nonneg pointS_pos.le), ← show secs n = fl (n * pointS) by rw [secs, hfl]] at h

/-- **969 points last more than 120 s**, measured between rounded times. -/
theorem lt_length_of_points {p q : ℕ} (hq : q < 2 ^ 44) (h : p + 969 ≤ q) : maxIntroS < fl (secs q - secs p) := by
  have hP := abs_le.mp abs_pointS_sub_le
  have hpos := pointS_pos
  have hsq := (abs_le.mp (abs_secs_sub_le (n := q) (by omega))).1
  have hsp := (abs_le.mp (abs_secs_sub_le (n := p) (by omega))).2
  have hq' : (q : ℚ) ≤ 2 ^ 44 := by exact_mod_cast hq.le
  have hpq : (p : ℚ) + 969 ≤ q := by exact_mod_cast h
  have hp0 : (0 : ℚ) ≤ p := p.cast_nonneg
  have hdiff : 120 + 1 / 10000 ≤ secs q - secs p := by
    have herr : (q : ℚ) * pointS / 2 ^ 53 + p * pointS / 2 ^ 53 ≤ pointS / 256 := by
      rw [← add_div, ← add_mul]
      rw [div_le_div_iff₀ (by norm_num) (by norm_num)]
      nlinarith
    nlinarith
  have hfl := (abs_le.mp (abs_fl_sub_le (secs q - secs p))).1
  rw [abs_of_nonneg (by linarith)] at hfl
  rw [maxIntroS]
  linarith

/-- Each run of a quiet pair spans at least 969 points. -/
theorem Quiet.exists_of_mem_pairRuns {v : UInt32} (hq : Quiet a b v) {order : Argsort b} {r : Run}
    (hr : r ∈ pairRuns a b order) :
    ∃ s x y, r = runOf s (x, y) ∧ x + tooLongRunPts ≤ y ∧ (-s).toNat + y < a.length := by
  obtain ⟨s, hs, hr⟩ := List.mem_flatMap.mp (mem_of_mem_keepRuns hr)
  have hoverlap := hq.overlap_of_mem_topShifts hs
  have hgap := gapPts_eq
  obtain ⟨x, y, hsegments, hx, hy, hyn⟩ := segments_of_dense (pairwise_alikeAt a b s)
    (fun k hk => (mem_alikeAt.mp hk).1) (by omega) fun k hk => exists_alike_window hk hq.short
  have hlen : overlap a b s ≤ a.length - (-s).toNat := min_le_left _ _
  rw [runsAt, if_neg (by omega)] at hr
  simp only [hsegments] at hr
  split_ifs at hr
  · exact absurd hr List.not_mem_nil
  · obtain ⟨p, hp, rfl⟩ := List.mem_map.mp hr
    rw [List.mem_singleton.mp (List.mem_filter.mp hp).1]
    refine ⟨s, x, y, rfl, ?_, by omega⟩
    rw [tooLongRunPts_eq]
    omega

/-- **A pair that holds no intro has only runs longer than any**: of 969 points and up. -/
theorem tooLong_of_holdsNoIntro (a b : Fingerprint) (order : Argsort b.points)
    (h : holdsNoIntro a.points b.points = true) {r : Run} (hr : r ∈ pairRuns a.points b.points order) :
    tooLong r = true ∧ ∃ p q, p + tooLongRunPts ≤ q ∧ r.aStart = secs p ∧ r.aEnd = secs q := by
  obtain ⟨s, x, y, rfl, hxy, hy⟩ := (quiet_of_holdsNoIntro h).exists_of_mem_pairRuns hr
  refine ⟨?_, (-s).toNat + x, (-s).toNat + y, by omega, rfl, rfl⟩
  rw [tooLongRunPts_eq] at hxy
  have hfits := a.fits
  exact decide_eq_true (lt_length_of_points (by omega) (by omega))

/-- Runs that are too long are no hits, wherever the pair is asked for. -/
theorem filter_seasonPairRuns (a b : Fingerprint) (order : Argsort b.points) :
    ((seasonPairRuns a.points b.points order).filter fun r => !tooLong r) =
      (pairRuns a.points b.points order).filter fun r => !tooLong r := by
  rw [seasonPairRuns]
  split_ifs with h
  · rw [List.filter_nil, eq_comm, List.filter_eq_nil_iff]
    intro r hr
    simp [(tooLong_of_holdsNoIntro a b order h hr).1]
  · rfl

/-- **Skipping a silent pair never changes an intro**: the runs of a pair that holds no intro last
more than 120 s, and every episode's hits are the same with such pairs skipped. -/
theorem silent_pair_skipped (points : String → Fingerprint) (order : ∀ f, Argsort (points f).points) :
    (∀ x y, holdsNoIntro (points x).points (points y).points = true →
      ∀ r ∈ pairRuns (points x).points (points y).points (order y),
        maxIntroS < fl (r.aEnd - r.aStart) ∧ ∃ p q, p + 969 ≤ q ∧ r.aStart = secs p ∧ r.aEnd = secs q) ∧
    ∀ target files,
      fileHits target files (fun x y => seasonPairRuns (points x).points (points y).points (order y)) =
        fileHits target files (fun x y => pairRuns (points x).points (points y).points (order y)) := by
  constructor
  · intro x y h r hr
    obtain ⟨hlong, hpoints⟩ := tooLong_of_holdsNoIntro _ _ _ h hr
    rw [tooLongRunPts_eq] at hpoints
    exact ⟨of_decide_eq_true hlong, hpoints⟩
  · intro target files
    simp only [fileHits, filter_seasonPairRuns]

/-- A muted opening: `SILENCE_POINT` throughout. -/
def mutedOpening : Fingerprint := ⟨List.replicate 1100 0x256DF977, by rw [List.length_replicate]; decide⟩

theorem silent_pair_skipped_muted :
    holdsNoIntro mutedOpening.points mutedOpening.points = true ∧
      ∀ r ∈ pairRuns mutedOpening.points mutedOpening.points (Argsort.stable _), maxIntroS < fl (r.aEnd - r.aStart) := by
  have hquiet : holdsNoIntro mutedOpening.points mutedOpening.points = true := by
    simp only [holdsNoIntro, gapPts_eq, tooLongOverlapPts_eq]
    decide +kernel
  refine ⟨hquiet, fun r hr => ?_⟩
  exact ((silent_pair_skipped (fun _ => mutedOpening) fun _ => Argsort.stable _).1 "s01e01" "s01e02" hquiet r hr).1

end MediaPreview.Audio
