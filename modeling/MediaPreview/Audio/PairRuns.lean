import MediaPreview.Audio.TopShifts
import MediaPreview.Lib.Gaps

/-!
# What a run is

Every run that `pairRuns` reports is a maximal stretch of a shift: it begins and ends on alike points and holds fewer than
28 points in a row that are not (`maximal_of_mem_runsAt`). The runs kept do not overlap in the first episode, and one that
is left out overlaps one that is kept and no shorter (`pairRuns_spec`).

A gap is counted from one alike point to the next: 28 points of gap are 27 unlike ones. Two stretches with 28 unlike points
between them are two runs, not one (`not_maximal_with_longer_gap`).
-/

namespace MediaPreview.Audio

open Binary64 Ranking Vectors Gaps

variable {a b : List UInt32}

/-- Position `i` of the overlap at a shift is inside both fingerprints, and its points are alike. -/
def AlikeAt (a b : List UInt32) (s : ℤ) (i : ℕ) : Prop :=
  i < overlap a b s ∧ alike (a.getD ((-s).toNat + i) 0) (b.getD (s.toNat + i) 0) = true

/-- `found`: the runs at every shift that is tried. -/
def foundRuns (a b : List UInt32) (order : Argsort b) : List Run :=
  (topShifts a b order.order matchesPerChunk).flatMap (runsAt minPts a b)

theorem pairRuns_eq (order : Argsort b) : pairRuns a b order = keepRuns (foundRuns a b order) := rfl

/-- A position of the overlap is one of both fingerprints. -/
theorem lt_of_lt_overlap {s : ℤ} {i : ℕ} (h : i < overlap a b s) :
    (-s).toNat + i < a.length ∧ s.toNat + i < b.length := by
  have hlt : i < a.length - (-s).toNat ∧ i < b.length - s.toNat := lt_min_iff.1 h
  omega

/-- **A run is a maximal stretch** of alike points, and long enough. -/
theorem maximal_of_mem_runsAt {least : ℕ} {s : ℤ} {r : Run} (h : r ∈ runsAt least a b s) :
    ∃ x y, r = runOf s (x, y) ∧ least ≤ y - x ∧ MaximalStretch (AlikeAt a b s) gapPts x y := by
  unfold runsAt at h
  split_ifs at h
  · cases h
  · dsimp only at h
    split_ifs at h with hshort
    · cases h
    · obtain ⟨⟨x, y⟩, hmem, rfl⟩ := List.mem_map.1 h
      obtain ⟨hpiece, hleast⟩ := List.mem_filter.1 hmem
      have hne : alikeAt a b s ≠ [] := by
        intro hnil
        rw [hnil] at hshort
        exact hshort (by decide)
      have hgap : 0 < gapPts := by
        rw [gapPts_eq]
        decide
      exact ⟨x, y, rfl, of_decide_eq_true hleast,
        maximal_of_mem_pieces (pairwise_alikeAt a b s) (fun i => mem_alikeAt) hgap hne hpiece⟩

/-! ### The runs kept -/

theorem mem_foldl_keepRun {found kept : List Run} {k : Run} (h : k ∈ kept) : k ∈ found.foldl keepRun kept := by
  induction found generalizing kept with
  | nil => exact h
  | cons r found ih =>
    refine ih ?_
    rw [keepRun]
    split_ifs
    · exact List.mem_append_left _ h
    · exact h

/-- The runs kept do not overlap. -/
theorem pairwise_foldl_keepRun {found kept : List Run} (h : kept.Pairwise fun k r => r.meets k = false) :
    (found.foldl keepRun kept).Pairwise fun k r => r.meets k = false := by
  induction found generalizing kept with
  | nil => exact h
  | cons r found ih =>
    refine ih ?_
    rw [keepRun]
    split_ifs with hall
    · refine List.pairwise_append.2 ⟨h, List.pairwise_singleton _ _, fun k hk r' hr' => ?_⟩
      rw [List.mem_singleton.1 hr']
      simpa using List.all_eq_true.1 hall k hk
    · exact h

/-- A run that is not kept overlaps one that is, and that came before it. -/
theorem exists_meets_of_not_mem {found kept : List Run} (hsorted : found.Pairwise fun r r' => r'.length ≤ r.length)
    (hkept : ∀ k ∈ kept, ∀ r ∈ found, r.length ≤ k.length) {r : Run} (hr : r ∈ found)
    (hnot : r ∉ found.foldl keepRun kept) : ∃ k ∈ found.foldl keepRun kept, r.meets k = true ∧ r.length ≤ k.length := by
  induction found generalizing kept with
  | nil => exact absurd hr List.not_mem_nil
  | cons q found ih =>
    obtain ⟨hq, hsorted⟩ := List.pairwise_cons.1 hsorted
    rw [List.foldl_cons] at hnot ⊢
    have hkept' : ∀ k ∈ keepRun kept q, ∀ r ∈ found, r.length ≤ k.length := by
      intro k hk r hr
      rw [keepRun] at hk
      split_ifs at hk
      · obtain hk | hk := List.mem_append.1 hk
        · exact hkept k hk r (List.mem_cons_of_mem _ hr)
        · rw [List.mem_singleton.1 hk]
          exact hq r hr
      · exact hkept k hk r (List.mem_cons_of_mem _ hr)
    obtain rfl | hr := List.mem_cons.1 hr
    · by_cases hall : (kept.all fun k => !r.meets k) = true
      · have hmem : r ∈ keepRun kept r := by
          rw [keepRun, if_pos hall]
          exact List.mem_append_right _ (List.mem_singleton.2 rfl)
        exact absurd (mem_foldl_keepRun hmem) hnot
      · obtain ⟨k, hk, hmeets⟩ : ∃ k ∈ kept, r.meets k = true := by
          simpa using hall
        have hmem : k ∈ keepRun kept r := by
          rw [keepRun, if_neg hall]
          exact hk
        exact ⟨k, mem_foldl_keepRun hmem, hmeets, hkept k hk r List.mem_cons_self⟩
    · exact ih hsorted hkept' hr hnot

/-- **Every run the matcher reports is a real match**: it comes of one shift and of two positions inside both fingerprints,
at least `minPts` apart, whose points are alike, with no `gapPts` points in a row between them that all are not, and it is
maximal so on both sides. The runs kept do not overlap in the first episode, and a run found and left out overlaps a kept
one that is at least as long. -/
theorem pairRuns_spec (a b : List UInt32) (order : Argsort b) :
    (∀ r ∈ pairRuns a b order, ∃ s ∈ topShifts a b order.order matchesPerChunk, ∃ x y, r = runOf s (x, y) ∧
      minPts ≤ y - x ∧ (-s).toNat + y < a.length ∧ s.toNat + y < b.length ∧
      MaximalStretch (AlikeAt a b s) gapPts x y) ∧
    (pairRuns a b order).Pairwise (fun k r => r.meets k = false) ∧
    ∀ r ∈ foundRuns a b order, r ∉ pairRuns a b order →
      ∃ k ∈ pairRuns a b order, r.meets k = true ∧ r.length ≤ k.length := by
  refine ⟨fun r hr => ?_, pairwise_foldl_keepRun List.Pairwise.nil, fun r hr hnot => ?_⟩
  · obtain ⟨s, hs, hrun⟩ := List.mem_flatMap.1 (mem_of_mem_keepRuns hr)
    obtain ⟨x, y, rfl, hleast, hmax⟩ := maximal_of_mem_runsAt hrun
    obtain ⟨ha, hb⟩ := lt_of_lt_overlap hmax.1.last.1
    exact ⟨s, hs, x, y, rfl, hleast, ha, hb, hmax⟩
  · have hsorted : (sortBy (fun r : Run => -r.length) (foundRuns a b order)).Pairwise fun r r' => r'.length ≤ r.length :=
      (pairwise_sortBy _ _).imp neg_le_neg_iff.1
    exact exists_meets_of_not_mem hsorted (fun k hk => absurd hk List.not_mem_nil) (mem_sortBy.2 hr) hnot

/-! ### A gap of 28 points -/

/-- Later points are later in time. -/
theorem secs_lt_secs {n m : ℕ} (h : n < m) (hm : m ≤ 2 ^ 50) : secs n < secs m := by
  have hexact : ∀ k : ℕ, k ≤ 2 ^ 50 → fl k = k := by
    intro k hk
    have hk' : (k : ℤ) ≤ 2 ^ 50 := by exact_mod_cast hk
    have hcast := fl_intCast (n := k) (by rw [abs_of_nonneg (Int.natCast_nonneg k)]; omega)
    simpa using hcast
  have hpos := pointS_pos
  have hn0 : (0 : ℚ) ≤ n := n.cast_nonneg
  have hnm : (n : ℚ) + 1 ≤ m := by exact_mod_cast h
  have hmq : (m : ℚ) ≤ 2 ^ 50 := by exact_mod_cast hm
  have hnp : 0 ≤ (n : ℚ) * pointS := mul_nonneg hn0 hpos.le
  have hmp : (n : ℚ) * pointS + pointS ≤ m * pointS := by nlinarith
  have hbound : (m : ℚ) * pointS ≤ 2 ^ 50 * pointS := mul_le_mul_of_nonneg_right hmq hpos.le
  have hn := abs_le.1 (abs_fl_sub_le (n * pointS))
  have hm' := abs_le.1 (abs_fl_sub_le (m * pointS))
  rw [abs_of_nonneg hnp] at hn
  rw [abs_of_nonneg (hnp.trans (by linarith))] at hm'
  rw [secs, secs, hexact n (by omega), hexact m hm]
  norm_num at hn hm' hbound ⊢
  linarith [hn.2, hm'.1]

theorem eq_of_secs_eq {n m : ℕ} (hn : n ≤ 2 ^ 50) (hm : m ≤ 2 ^ 50) (h : secs n = secs m) : n = m := by
  obtain hlt | heq | hgt := Nat.lt_trichotomy n m
  · exact absurd h (secs_lt_secs hlt hm).ne
  · exact heq
  · exact absurd h (secs_lt_secs hgt hn).ne'

/-- A fingerprint no two points of which are near in value. -/
def gappedA (i : ℕ) : UInt32 := UInt32.ofNat (8 * i)

/-- The same but for 28 points, all of whose bits are flipped. -/
def gappedB (j : ℕ) : UInt32 := if j ≤ 64 ∨ j = 93 then UInt32.ofNat (8 * j) else UInt32.ofNat (2 ^ 32 - 1 - 8 * j)

/-- The first fingerprint's points. -/
def gappedPointsA : List UInt32 := (List.range 94).map gappedA

/-- The second's. -/
def gappedPointsB : List UInt32 := (List.range 94).map gappedB

theorem alikeAt_gapped : alikeAt gappedPointsA gappedPointsB 0 = List.range 65 ++ [93] := by decide +kernel

theorem topShifts_gapped (order : Argsort gappedPointsB) (perChunk : ℕ) :
    topShifts gappedPointsA gappedPointsB order.order perChunk = [0] := by
  have hshift : ∀ s, s ∈ seenShifts gappedPointsA gappedPointsB ↔ s = 0 := by
    intro s
    rw [mem_seenShifts, List.mem_map]
    constructor
    · rintro ⟨⟨i, k, j⟩, hhit, rfl⟩
      obtain ⟨hi, hj, hk, hv⟩ := mem_hits.1 hhit
      dsimp only at hi hj hk hv
      rw [gappedPointsA, List.length_map, List.length_range] at hi
      rw [gappedPointsB, List.length_map, List.length_range] at hj
      rw [value, value, gappedPointsA, gappedPointsB, getD_map_range _ hi, getD_map_range _ hj, gappedA, gappedB] at hv
      rw [PointHit.shift]
      dsimp only
      split_ifs at hv <;> simp only [UInt32.toNat_ofNat'] at hv <;> omega
    · rintro rfl
      exact ⟨⟨0, 2, 0⟩, mem_hits.2 ⟨by decide, by decide, by decide, by decide⟩, rfl⟩
  have hperm : (seenShifts gappedPointsA gappedPointsB).Perm [0] := by
    rw [List.perm_ext_iff_of_nodup nodup_seenShifts (by decide)]
    intro s
    rw [hshift, List.mem_singleton]
  rw [topShifts_eq, List.perm_singleton.1 ((sortBy_perm _ _).trans hperm)]
  rfl

/-- **A run is not maximal where one more unlike point is let through**: of two fingerprints with 65 alike points, 28 that
are not, and one more alike, the run reported ends before the 28, and the stretch to the last point has no 29 unlike points
in a row. -/
theorem not_maximal_with_longer_gap :
    ¬ ∀ r ∈ pairRuns gappedPointsA gappedPointsB (Argsort.stable _),
      ∃ s ∈ topShifts gappedPointsA gappedPointsB (Argsort.stable gappedPointsB).order matchesPerChunk,
        ∃ x y, r = runOf s (x, y) ∧ minPts ≤ y - x ∧ (-s).toNat + y < gappedPointsA.length ∧
          s.toNat + y < gappedPointsB.length ∧
          MaximalStretch (AlikeAt gappedPointsA gappedPointsB s) (gapPts + 1) x y := by
  intro h
  have hoverlap : overlap gappedPointsA gappedPointsB 0 = 94 := by decide
  have hruns : pairRuns gappedPointsA gappedPointsB (Argsort.stable _) = [runOf 0 (0, 64)] := by
    rw [pairRuns_eq, foundRuns, topShifts_gapped, List.flatMap_singleton,
      runsAt_of_alikeAt alikeAt_gapped le_rfl (by rw [hoverlap]; decide)]
    simp [keepRuns, sortBy, keepRun]
  rw [hruns, topShifts_gapped] at h
  obtain ⟨s, hs, x, y, hrun, -, hxy, -, hmax⟩ := h _ (List.mem_singleton.2 rfl)
  obtain rfl := List.mem_singleton.1 hs
  have hlen : gappedPointsA.length = 94 := by decide
  have hy : y = 64 := by
    have hend := congrArg Run.aEnd hrun
    simp only [runOf, Int.neg_zero, Int.toNat_zero, Nat.zero_add] at hend hxy
    exact (eq_of_secs_eq (by omega) (by omega) hend).symm
  have hx : x = 0 := by
    have hstart := congrArg Run.aStart hrun
    have hle := hmax.1.le
    simp only [runOf, Int.neg_zero, Int.toNat_zero, Nat.zero_add] at hstart
    exact (eq_of_secs_eq (by omega) (by omega) hstart).symm
  rw [hx, hy] at hmax
  have halike : ∀ i, AlikeAt gappedPointsA gappedPointsB 0 i ↔ i < 65 ∨ i = 93 := by
    intro i
    rw [AlikeAt, ← mem_alikeAt, alikeAt_gapped, List.mem_append, List.mem_range, List.mem_singleton]
  have hlonger : Stretch (AlikeAt gappedPointsA gappedPointsB 0) (gapPts + 1) 0 93 := by
    rw [gapPts_eq]
    refine ⟨by decide, (halike 0).2 (by decide), (halike 93).2 (by decide), fun k _ hk => ?_⟩
    by_cases hin : k < 65
    · exact ⟨k, le_rfl, by omega, (halike k).2 (.inl hin)⟩
    · exact ⟨93, by omega, by omega, (halike 93).2 (.inr rfl)⟩
  exact absurd (hmax.2 0 93 hlonger le_rfl (by decide)).2 (by decide)

end MediaPreview.Audio
