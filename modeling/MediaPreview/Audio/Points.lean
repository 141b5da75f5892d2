import MediaPreview.Lib.Binary64
import MediaPreview.Lib.Ranking
import MediaPreview.Lib.Vectors

/-!
# Fingerprint points and the runs they match in

A fingerprint is an array of 32-bit points, one every `pointS` seconds (`audio/__init__.py`).
Two points are alike when they differ in at most 6 bits. Laid over each other at a shift, two
fingerprints match in *runs*: stretches of alike points with gaps of at most 3.5 s, at least
8 s long (`matcher.py`, and the same lines of `fp3_reference.py`).

Times are binary64 numbers, so the constants are rounded quotients; the bounds of `pointS`
(`abs_pointS_sub_le`) give the whole numbers of points they stand for.
-/

namespace MediaPreview.Audio

open Binary64 Ranking Vectors

/-! ### Seconds and points -/

/-- `POINT_S`: seconds per point. -/
def pointS : ℚ := fl (fl (4096 / 11025) / 3)

/-- `n * POINT_S`: where point `n` starts. -/
def secs (n : ℕ) : ℚ := fl (fl n * pointS)

/-- `MAX_BIT_DIFF`. -/
def maxBitDiff : ℕ := 6

/-- `GAP_PTS`: the longest gap inside a run. -/
def gapPts : ℕ := ⌊fl (3.5 / pointS)⌋₊

/-- `_MIN_PTS`: the shortest run. -/
def minPts : ℕ := ⌊fl (8 / pointS)⌋₊

/-- `MAX_INTRO_S`. -/
def maxIntroS : ℚ := 120

/-- `POINT_S` is all but exactly the hop over the sample rate. -/
theorem abs_pointS_sub_le : |pointS - 4096 / 33075| ≤ 1 / 2 ^ 54 := by
  have h₁ := abs_fl_sub_le (4096 / 11025)
  have h₂ := abs_fl_sub_le (fl (4096 / 11025) / 3)
  rw [show (|4096 / 11025| : ℚ) = 4096 / 11025 from abs_of_pos (by norm_num)] at h₁
  have hpos : 0 < fl (4096 / 11025) := by
    have := (abs_le.mp h₁).1
    norm_num at this ⊢
    linarith
  rw [abs_of_pos (div_pos hpos three_pos)] at h₂
  unfold pointS
  rw [abs_le] at *
  constructor <;> norm_num at * <;> linarith

theorem pointS_pos : 0 < pointS := by
  have := (abs_le.mp abs_pointS_sub_le).1
  norm_num at this ⊢
  linarith

theorem secs_zero : secs 0 = 0 := by simp [secs]

/-- A power of two of points is exact. -/
theorem secs_two_pow {k : ℕ} (hk : k ≤ 53) : secs (2 ^ k) = 2 ^ k * pointS := by
  have hle : (2 : ℤ) ^ k ≤ 2 ^ 53 := pow_le_pow_right₀ (by norm_num) hk
  have hfl : fl ((2 ^ k : ℕ) : ℚ) = (2 : ℚ) ^ (k : ℤ) := by
    have h := fl_intCast (n := 2 ^ k) (by rwa [abs_of_nonneg (by positivity)])
    push_cast at h
    rw [Nat.cast_pow, Nat.cast_ofNat, h, zpow_natCast]
  rw [secs, hfl, pointS, fl_zpow_mul, zpow_natCast]

/-- How many points a length of time is, rounded down: any `n` with room on both sides. -/
theorem floor_fl_div_pointS {t : ℚ} {n : ℕ} (hlo : (n + 1 / 1000) * (4096 / 33075) ≤ t)
    (hhi : t ≤ (n + 999 / 1000) * (4096 / 33075)) (hn : n ≤ 1000) : ⌊fl (t / pointS)⌋₊ = n := by
  have hp := abs_le.mp abs_pointS_sub_le
  have hpos := pointS_pos
  have hn' : (n : ℚ) ≤ 1000 := by exact_mod_cast hn
  have hn0 : (0 : ℚ) ≤ n := n.cast_nonneg
  have ht : 0 ≤ t := by linarith
  have h := abs_fl_sub_le (t / pointS)
  rw [abs_of_nonneg (div_nonneg ht hpos.le)] at h
  have hq₁ : n + 1 / 2000 ≤ t / pointS := by
    rw [le_div_iff₀ hpos]
    nlinarith
  have hq₂ : t / pointS ≤ n + 1999 / 2000 := by
    rw [div_le_iff₀ hpos]
    nlinarith
  rw [abs_le] at h
  rw [Nat.floor_eq_iff (by linarith)]
  constructor <;> linarith

theorem gapPts_eq : gapPts = 28 := floor_fl_div_pointS (by norm_num) (by norm_num) (by norm_num)

theorem minPts_eq : minPts = 64 := floor_fl_div_pointS (by norm_num) (by norm_num) (by norm_num)

/-! ### Alike points -/

/-- `_POPCOUNT8`'s entry for a byte: `bin(i).count("1")`. -/
def popcount8 (i : ℕ) : ℕ := (Nat.toDigits 2 i).count '1'

/-- The number of one bits: the sum over the four bytes. -/
def popcount32 (x : UInt32) : ℕ := ((List.range 4).map fun k => popcount8 (x.toNat / 256 ^ k % 256)).sum

/-- Two points the matcher takes for the same sound. -/
def alike (x y : UInt32) : Bool := popcount32 (x ^^^ y) ≤ maxBitDiff

@[simp] theorem alike_self (x : UInt32) : alike x x = true := by
  rw [alike, UInt32.xor_self]
  rfl

/-! ### Runs -/

/-- `Run`: a matching stretch, in seconds from each file's start. -/
structure Run where
  /-- Where it starts in the first episode. -/
  aStart : ℚ
  /-- Where it ends there. -/
  aEnd : ℚ
  /-- Where it starts in the second episode. -/
  bStart : ℚ
  /-- Where it ends there. -/
  bEnd : ℚ
  deriving DecidableEq

/-- The matching positions cut at every gap of more than `GAP_PTS`: first and last of each piece. -/
def segments (idx : List ℕ) : List (ℕ × ℕ) :=
  let breaks := flatnonzero ((diff idx).map fun d => decide (gapPts < d))
  let starts := idx.headD 0 :: breaks.map fun k => idx.getD (k + 1) 0
  let ends := (breaks.map fun k => idx.getD k 0) ++ [idx.getLastD 0]
  starts.zip ends

/-- How many points of each overlap when the second is shifted by `s`. -/
def overlap (a b : List UInt32) (s : ℤ) : ℕ := min (a.length - (-s).toNat) (b.length - s.toNat)

/-- `np.flatnonzero(popcount32(a[a0:a0+n] ^ b[b0:b0+n]) <= MAX_BIT_DIFF)`. -/
def alikeAt (a b : List UInt32) (s : ℤ) : List ℕ :=
  flatnonzero (List.zipWith alike ((a.drop (-s).toNat).take (overlap a b s)) ((b.drop s.toNat).take (overlap a b s)))

theorem mem_alikeAt {a b : List UInt32} {s : ℤ} {k : ℕ} :
    k ∈ alikeAt a b s ↔
      k < overlap a b s ∧ alike (a.getD ((-s).toNat + k) 0) (b.getD (s.toNat + k) 0) = true := by
  rw [alikeAt, mem_flatnonzero, List.getElem?_zipWith, List.getElem?_take, List.getElem?_take]
  by_cases hk : k < overlap a b s
  · have hlen : k < a.length - (-s).toNat ∧ k < b.length - s.toNat := lt_min_iff.mp hk
    have ha : (-s).toNat + k < a.length := by omega
    have hb : s.toNat + k < b.length := by omega
    simp [hk, List.getElem?_drop, List.getElem?_eq_getElem ha, List.getElem?_eq_getElem hb]
  · simp [hk]

theorem pairwise_alikeAt (a b : List UInt32) (s : ℤ) : (alikeAt a b s).Pairwise (· < ·) := pairwise_flatnonzero _

/-- The stretch from position `p.1` to `p.2` of the overlap. -/
def runOf (s : ℤ) (p : ℕ × ℕ) : Run where
  aStart := secs ((-s).toNat + p.1)
  aEnd := secs ((-s).toNat + p.2)
  bStart := secs (s.toNat + p.1)
  bEnd := secs (s.toNat + p.2)

/-- The runs at shift `s`, of at least `least` points. -/
def runsAt (least : ℕ) (a b : List UInt32) (s : ℤ) : List Run :=
  if overlap a b s = 0 then []
  else
    let idx := alikeAt a b s
    if idx.length < 2 then []
    else ((segments idx).filter fun p => least ≤ p.2 - p.1).map (runOf s)

/-- `a_end_s - a_start_s`. -/
def Run.length (r : Run) : ℚ := fl (r.aEnd - r.aStart)

/-- Whether two runs overlap in the first episode. -/
def Run.meets (r k : Run) : Bool := r.aStart < k.aEnd && k.aStart < r.aEnd

/-- One step of the selection: a run is kept unless it overlaps one that was. -/
def keepRun (kept : List Run) (r : Run) : List Run := if kept.all fun k => !r.meets k then kept ++ [r] else kept

/-- The non-overlapping runs, longest first. -/
def keepRuns (found : List Run) : List Run := (sortBy (fun r => -r.length) found).foldl keepRun []

theorem mem_of_mem_foldl_keepRun {found kept : List Run} {r : Run} (h : r ∈ found.foldl keepRun kept) :
    r ∈ kept ∨ r ∈ found := by
  induction found generalizing kept with
  | nil => exact .inl h
  | cons q found ih =>
    rcases ih h with hq | hf
    · rw [keepRun] at hq
      split_ifs at hq
      · rcases List.mem_append.mp hq with hk | hs
        · exact .inl hk
        · exact .inr (List.mem_singleton.mp hs ▸ .head _)
      · exact .inl hq
    · exact .inr (.tail _ hf)

/-- What is kept was found. -/
theorem mem_of_mem_keepRuns {found : List Run} {r : Run} (h : r ∈ keepRuns found) : r ∈ found := by
  rcases mem_of_mem_foldl_keepRun h with h | h
  · exact absurd h List.not_mem_nil
  · exact mem_sortBy.mp h

end MediaPreview.Audio
