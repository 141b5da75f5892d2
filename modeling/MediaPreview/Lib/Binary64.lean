import Mathlib.Data.Int.Log
import Mathlib.Data.Rat.Floor
import Mathlib.Algebra.Order.Field.Power
import Mathlib.Tactic.Linarith
import Mathlib.Tactic.Positivity
import Mathlib.Tactic.FieldSimp
import Mathlib.Tactic.Ring

/-!
# Binary floating point

The arithmetic of IEEE 754 binary64 numbers, as far as programs that add, subtract
and multiply times need it. A finite number is the rational it stands for. An
operation is the exact one followed by `fl`, which rounds to 53 significant bits,
to the even neighbour on a tie.

The exponent is not bounded here: there is no overflow, no subnormal number and no
signed zero. Within the range of the normal numbers `fl` is IEEE's rounding.

Proved: `fl` is off by at most half a unit in the last place (`abs_fl_sub_le`), and
leaves alone what has 53 significant bits (`fl_mul_zpow`), so integers up to `2 ^ 53`
are exact (`fl_intCast`) and rounding twice is rounding once (`fl_fl`). No number is nearer
than the one it gives (`abs_fl_sub_le_abs`), so it keeps the order (`fl_mono`).
-/

namespace MediaPreview.Binary64

/-! ### The nearest integer -/

/-- The integer nearest to `q`, the even one when two are equally near: Python's `round`. -/
def roundEven (q : ℚ) : ℤ :=
  if q - ⌊q⌋ < 1 / 2 then ⌊q⌋
  else if 1 / 2 < q - ⌊q⌋ then ⌊q⌋ + 1
  else if ⌊q⌋ % 2 = 0 then ⌊q⌋ else ⌊q⌋ + 1

theorem roundEven_intCast (n : ℤ) : roundEven n = n := by simp [roundEven]

/-- The nearest integer is no further than a half away. -/
theorem abs_roundEven_sub_le (q : ℚ) : |(roundEven q : ℚ) - q| ≤ 1 / 2 := by
  have h₁ := Int.floor_le q
  have h₂ := Int.lt_floor_add_one q
  unfold roundEven
  rw [abs_le]
  split_ifs <;> push_cast <;> constructor <;> linarith

/-- Less than a half from an integer rounds to it. -/
theorem roundEven_eq {q : ℚ} {n : ℤ} (h : |q - n| < 1 / 2) : roundEven q = n := by
  have h₁ := abs_roundEven_sub_le q
  have hlt : |(roundEven q : ℚ) - n| < 1 := by
    calc |(roundEven q : ℚ) - n| = |((roundEven q : ℚ) - q) + (q - n)| := by ring_nf
      _ ≤ |(roundEven q : ℚ) - q| + |q - n| := abs_add_le _ _
      _ < 1 := by linarith
  have hint : |roundEven q - n| < 1 := by exact_mod_cast hlt
  have := Int.abs_lt_one_iff.mp hint
  omega

/-- No integer is nearer than the nearest one. -/
theorem abs_roundEven_sub_le_abs (q : ℚ) (n : ℤ) : |(roundEven q : ℚ) - q| ≤ |n - q| := by
  by_contra hlt
  have h := abs_roundEven_sub_le q
  have hclose : |q - n| < 1 / 2 := by rw [abs_sub_comm]; linarith
  rw [roundEven_eq hclose] at hlt
  exact hlt le_rfl

/-! ### Rounding to 53 bits -/

/-- The unit in the last place of `q`: the spacing of the numbers with 53 significant
bits around it. -/
def ulp (q : ℚ) : ℚ := 2 ^ (Int.log 2 |q| - 52)

/-- The number with 53 significant bits nearest to `q`, the even one on a tie. -/
def fl (q : ℚ) : ℚ := roundEven (q / ulp q) * ulp q

theorem ulp_pos (q : ℚ) : 0 < ulp q := by unfold ulp; positivity

@[simp] theorem fl_zero : fl 0 = 0 := by simp [fl, show roundEven 0 = 0 from roundEven_intCast 0]

theorem two_zpow_log_le {q : ℚ} (hq : q ≠ 0) : (2 : ℚ) ^ Int.log 2 |q| ≤ |q| := by
  exact_mod_cast Int.zpow_log_le_self (b := 2) (by norm_num) (abs_pos.mpr hq)

/-- A unit in the last place is at most one part in `2 ^ 52`. -/
theorem ulp_le {q : ℚ} (hq : q ≠ 0) : ulp q ≤ |q| / 2 ^ 52 := by
  have h := two_zpow_log_le hq
  have h' : ulp q = 2 ^ Int.log 2 |q| / 2 ^ 52 := by
    unfold ulp
    rw [zpow_sub₀ (by norm_num)]
    norm_num
  rw [h']
  gcongr

/-- **The error of rounding**: at most one part in `2 ^ 53`. -/
theorem abs_fl_sub_le (q : ℚ) : |fl q - q| ≤ |q| / 2 ^ 53 := by
  by_cases hq : q = 0
  · simp [hq]
  have hu := ulp_pos q
  have h := abs_roundEven_sub_le (q / ulp q)
  have he : fl q - q = ((roundEven (q / ulp q) : ℚ) - q / ulp q) * ulp q := by
    unfold fl
    field_simp
  rw [he, abs_mul, abs_of_pos hu]
  calc |(roundEven (q / ulp q) : ℚ) - q / ulp q| * ulp q ≤ 1 / 2 * ulp q := by gcongr
    _ ≤ 1 / 2 * (|q| / 2 ^ 52) := by gcongr; exact ulp_le hq
    _ = |q| / 2 ^ 53 := by ring

/-- A number that is a whole number of its own units is not rounded. -/
theorem fl_of_eq {q : ℚ} {n : ℤ} (h : q = n * ulp q) : fl q = q := by
  have hu := (ulp_pos q).ne'
  have hq : q / ulp q = n := by
    rw [div_eq_iff hu]
    exact h
  unfold fl
  rw [hq, roundEven_intCast]
  exact h.symm

theorem abs_mul_two_zpow (m : ℤ) (e : ℤ) : |(m * 2 ^ e : ℚ)| = |(m : ℚ)| * 2 ^ e := by
  rw [abs_mul, abs_of_pos (by positivity : (0 : ℚ) < 2 ^ e)]

/-- 53 bits, and `2 ^ 53` itself, reach no further. -/
theorem log_mul_zpow_le {m : ℤ} (hm : |m| ≤ 2 ^ 53) {e : ℤ} (hq : (m * 2 ^ e : ℚ) ≠ 0) :
    Int.log 2 |(m * 2 ^ e : ℚ)| ≤ 53 + e := by
  have hmq : |(m : ℚ)| ≤ 2 ^ 53 := by exact_mod_cast hm
  have hle : (2 : ℚ) ^ Int.log 2 |(m * 2 ^ e : ℚ)| ≤ 2 ^ (53 + e) := by
    refine (two_zpow_log_le hq).trans ?_
    rw [abs_mul_two_zpow, zpow_add₀ (by norm_num)]
    exact mul_le_mul_of_nonneg_right (by exact_mod_cast hmq) (by positivity)
  exact (zpow_le_zpow_iff_right₀ (by norm_num : (1 : ℚ) < 2)).mp hle

/-- A number of at most 53 significant bits is not rounded. -/
theorem fl_mul_zpow {m : ℤ} (hm : |m| ≤ 2 ^ 53) (e : ℤ) : fl (m * 2 ^ e) = m * 2 ^ e := by
  by_cases h0 : m = 0
  · simp [h0]
  have hq0 : (m * 2 ^ e : ℚ) ≠ 0 := mul_ne_zero (by exact_mod_cast h0) (by positivity)
  have hlog := log_mul_zpow_le hm hq0
  have habs := abs_mul_two_zpow m e
  have hpow := two_zpow_log_le hq0
  set q : ℚ := m * 2 ^ e with hq
  by_cases hle : Int.log 2 |q| ≤ 52 + e
  · -- the unit divides `2 ^ e`
    refine fl_of_eq (n := m * 2 ^ (52 + e - Int.log 2 |q|).toNat) ?_
    unfold ulp
    push_cast
    rw [← zpow_natCast, Int.toNat_of_nonneg (by omega), mul_assoc, ← zpow_add₀ (by norm_num), hq]
    congr 2
    ring
  · -- a carry to `2 ^ 53`: the unit is `2 ^ (e + 1)` and `m` is `± 2 ^ 53`
    have hlog' : Int.log 2 |q| = 53 + e := by omega
    have hm53 : |m| = 2 ^ 53 := by
      rw [hlog', habs, zpow_add₀ (by norm_num)] at hpow
      have : (2 : ℚ) ^ (53 : ℤ) ≤ |(m : ℚ)| := le_of_mul_le_mul_right hpow (by positivity)
      have : (2 : ℤ) ^ 53 ≤ |m| := by exact_mod_cast this
      omega
    refine fl_of_eq (n := m / 2) ?_
    have hdiv : ((m / 2 : ℤ) : ℚ) * 2 = m := by
      have : m / 2 * 2 = m := by
        rcases abs_eq (by norm_num : (0 : ℤ) ≤ 2 ^ 53) |>.mp hm53 with h | h <;> rw [h] <;> norm_num
      exact_mod_cast this
    unfold ulp
    rw [hlog', show (53 + e - 52 : ℤ) = 1 + e by ring, zpow_add₀ (by norm_num), zpow_one, ← mul_assoc, hdiv, hq]

/-- An integer of at most 53 bits is a number. -/
theorem fl_intCast {n : ℤ} (hn : |n| ≤ 2 ^ 53) : fl n = n := by simpa using fl_mul_zpow hn 0

/-- What rounding gives has 53 significant bits. -/
theorem exists_fl_eq (q : ℚ) : ∃ m e : ℤ, |m| ≤ 2 ^ 53 ∧ fl q = m * 2 ^ e := by
  refine ⟨roundEven (q / ulp q), Int.log 2 |q| - 52, ?_, rfl⟩
  have hu := ulp_pos q
  have hlt : |q / ulp q| < 2 ^ 53 := by
    rw [abs_div, abs_of_pos hu, div_lt_iff₀ hu]
    have h := Int.lt_zpow_succ_log_self (b := 2) (by norm_num) |q|
    have he : (2 : ℚ) ^ 53 * ulp q = ((2 : ℕ) : ℚ) ^ (Int.log 2 |q| + 1) := by
      unfold ulp
      rw [show (2 : ℚ) ^ 53 = 2 ^ (53 : ℤ) by norm_num, ← zpow_add₀ (by norm_num)]
      push_cast
      congr 1
      ring
    rwa [he]
  have h := abs_roundEven_sub_le (q / ulp q)
  have hr : |(roundEven (q / ulp q) : ℚ)| < 2 ^ 53 + 1 := by
    calc |(roundEven (q / ulp q) : ℚ)| = |((roundEven (q / ulp q) : ℚ) - q / ulp q) + q / ulp q| := by ring_nf
      _ ≤ |(roundEven (q / ulp q) : ℚ) - q / ulp q| + |q / ulp q| := abs_add_le _ _
      _ < 2 ^ 53 + 1 := by linarith
  have : |roundEven (q / ulp q)| < 2 ^ 53 + 1 := by exact_mod_cast hr
  omega

/-- Rounding twice is rounding once. -/
theorem fl_fl (q : ℚ) : fl (fl q) = fl q := by
  obtain ⟨m, e, hm, h⟩ := exists_fl_eq q
  rw [h, fl_mul_zpow hm]

/-- A power of two times a number is a number. -/
theorem fl_zpow_mul (k : ℤ) (q : ℚ) : fl (2 ^ k * fl q) = 2 ^ k * fl q := by
  obtain ⟨m, e, hm, h⟩ := exists_fl_eq q
  rw [h, show (2 : ℚ) ^ k * (m * 2 ^ e) = m * 2 ^ (k + e) by rw [zpow_add₀ (by norm_num)]; ring, fl_mul_zpow hm]

/-- A sum of a number and an integer that is no larger than the number is exact, up to `2 ^ 53`. -/
theorem fl_add_intCast {x : ℚ} (hx : fl x = x) (hbound : |x| ≤ 2 ^ 53) {c : ℤ} (h : |x + c| ≤ |x|) : fl (x + c) = x + c := by
  obtain ⟨m, e, hm, he⟩ := exists_fl_eq x
  rw [hx] at he
  have hpow : (0 : ℚ) < 2 ^ e := by positivity
  obtain hneg | hnonneg := lt_or_ge e 0
  · -- the integer is a multiple of the number's unit
    have hunit : (2 : ℚ) ^ (-e).toNat * 2 ^ e = 1 := by
      rw [← zpow_natCast, Int.toNat_of_nonneg (by omega), ← zpow_add₀ (by norm_num)]
      norm_num
    have hsum : x + c = ((m + c * 2 ^ (-e).toNat : ℤ) : ℚ) * 2 ^ e := by
      push_cast
      rw [add_mul, ← he, mul_assoc, hunit, mul_one]
    rw [hsum, he, abs_mul_two_zpow, abs_mul_two_zpow] at h
    have hle : |m + c * 2 ^ (-e).toNat| ≤ |m| := by exact_mod_cast le_of_mul_le_mul_right h hpow
    rw [hsum]
    exact fl_mul_zpow (hle.trans hm) e
  · have hint : x + c = ((m * 2 ^ e.toNat + c : ℤ) : ℚ) := by
      push_cast
      rw [← zpow_natCast, Int.toNat_of_nonneg hnonneg, ← he]
    have hle : |m * 2 ^ e.toNat + c| ≤ 2 ^ 53 := by
      have := h.trans hbound
      rw [hint] at this
      exact_mod_cast this
    rw [hint]
    exact fl_intCast hle

/-! ### Order -/

/-- No multiple of the unit is nearer than what rounding gives. -/
theorem abs_fl_sub_le_abs_mul_ulp (q : ℚ) (n : ℤ) : |fl q - q| ≤ |n * ulp q - q| := by
  have hu := ulp_pos q
  have hsub : ∀ k : ℤ, |(k : ℚ) * ulp q - q| = |(k : ℚ) - q / ulp q| * ulp q := by
    intro k
    rw [← abs_of_pos hu, ← abs_mul, abs_of_pos hu, sub_mul, div_mul_cancel₀ _ hu.ne']
  rw [fl, hsub, hsub]
  exact mul_le_mul_of_nonneg_right (abs_roundEven_sub_le_abs _ n) hu.le

/-- A number no smaller than the power of two below `q` is a multiple of the unit of `q`. -/
theorem exists_eq_mul_ulp {q x : ℚ} (hx : fl x = x) (h : (2 : ℚ) ^ Int.log 2 |q| ≤ |x|) : ∃ n : ℤ, x = n * ulp q := by
  have hx0 : x ≠ 0 := by
    rintro rfl
    have : (0 : ℚ) < 2 ^ Int.log 2 |q| := by positivity
    rw [abs_zero] at h
    linarith
  have hlog : Int.log 2 |q| ≤ Int.log 2 |x| := by
    refine (Int.zpow_le_iff_le_log (b := 2) (by norm_num) (abs_pos.2 hx0)).1 ?_
    exact_mod_cast h
  refine ⟨roundEven (x / ulp x) * 2 ^ (Int.log 2 |x| - Int.log 2 |q|).toNat, ?_⟩
  have hunit : ulp x = 2 ^ (Int.log 2 |x| - Int.log 2 |q|).toNat * ulp q := by
    unfold ulp
    rw [← zpow_natCast, Int.toNat_of_nonneg (by omega), ← zpow_add₀ (by norm_num)]
    congr 1
    ring
  push_cast
  rw [mul_assoc, ← hunit]
  exact hx.symm

/-- **No number is nearer** than what rounding gives. -/
theorem abs_fl_sub_le_abs {q x : ℚ} (hx : fl x = x) : |fl q - q| ≤ |x - q| := by
  by_cases hq : q = 0
  · simp [hq]
  by_cases hsmall : (2 : ℚ) ^ Int.log 2 |q| ≤ |x|
  · obtain ⟨n, rfl⟩ := exists_eq_mul_ulp hx hsmall
    exact abs_fl_sub_le_abs_mul_ulp q n
  · -- the power of two below `q` lies between the two
    have hpow := two_zpow_log_le hq
    have hunit : (2 : ℚ) ^ Int.log 2 |q| = 2 ^ 52 * ulp q := by
      unfold ulp
      rw [← zpow_natCast, ← zpow_add₀ (by norm_num)]
      congr 1
      norm_num
    have hlower := abs_fl_sub_le_abs_mul_ulp q (-2 ^ 52)
    have hupper := abs_fl_sub_le_abs_mul_ulp q (2 ^ 52)
    rw [Int.cast_neg, Int.cast_pow, Int.cast_ofNat, neg_mul, ← hunit] at hlower
    rw [Int.cast_pow, Int.cast_ofNat, ← hunit] at hupper
    obtain ⟨hlo, hhi⟩ := abs_lt.1 (not_le.1 hsmall)
    obtain hneg | hpos := lt_or_gt_of_ne hq
    · rw [abs_of_neg hneg] at hpow hlo hlower
      refine hlower.trans ?_
      rw [abs_of_nonneg (by linarith), abs_of_nonneg (by linarith)]
      linarith
    · rw [abs_of_pos hpos] at hpow hhi hupper
      refine hupper.trans ?_
      rw [abs_of_nonpos (by linarith), abs_of_nonpos (by linarith)]
      linarith

/-- **Rounding keeps the order.** -/
theorem fl_mono : Monotone fl := by
  intro a b hab
  by_contra hlt
  have ha : |fl a - a| ≤ |fl b - a| := abs_fl_sub_le_abs (fl_fl b)
  have hb : |fl b - b| ≤ |fl a - b| := abs_fl_sub_le_abs (fl_fl a)
  -- each of the two is at its own side of the middle
  have hleft : fl a + fl b ≤ 2 * a := by
    rcases abs_cases (fl a - a) with h | h <;> rcases abs_cases (fl b - a) with h' | h' <;> linarith
  have hright : 2 * b ≤ fl a + fl b := by
    rcases abs_cases (fl b - b) with h | h <;> rcases abs_cases (fl a - b) with h' | h' <;> linarith
  have heq : a = b := by linarith
  exact hlt (by rw [heq])

/-- What is at most a number rounds to at most it. -/
theorem fl_le {q x : ℚ} (hx : fl x = x) (h : q ≤ x) : fl q ≤ x := hx ▸ fl_mono h

/-- What is at least a number rounds to at least it. -/
theorem le_fl {q x : ℚ} (hx : fl x = x) (h : x ≤ q) : x ≤ fl q := hx ▸ fl_mono h

/-- What rounds beyond a number lies beyond it. -/
theorem lt_of_lt_fl {q x : ℚ} (hx : fl x = x) (h : x < fl q) : x < q := not_le.1 fun hle => (fl_le hx hle).not_gt h

theorem lt_of_fl_lt {q x : ℚ} (hx : fl x = x) (h : fl q < x) : q < x := not_le.1 fun hle => (le_fl hx hle).not_gt h

/-- A number rounds to one of its sign. -/
theorem fl_pos {q : ℚ} (h : 0 < q) : 0 < fl q := by
  have herr := abs_fl_sub_le q
  rw [abs_of_pos h] at herr
  have hlow := (abs_le.mp herr).1
  linarith

theorem fl_le_zero_iff {q : ℚ} : fl q ≤ 0 ↔ q ≤ 0 :=
  ⟨fun h => not_lt.1 fun hpos => (fl_pos hpos).not_ge h, fl_le fl_zero⟩

/-- The greater of two numbers that are not rounded is not. -/
theorem fl_max {x y : ℚ} (hx : fl x = x) (hy : fl y = y) : fl (max x y) = max x y := by
  rcases max_choice x y with h | h
  · rw [h, hx]
  · rw [h, hy]

/-! ### Values with the exceptional ones -/

/-- A Python `float`: a finite value, an infinity or not a number. -/
inductive PyFloat where
  /-- A finite value. -/
  | finite (q : ℚ)
  /-- `inf`. -/
  | inf
  /-- `-inf`. -/
  | negInf
  /-- `nan`. -/
  | nan
  deriving DecidableEq, Inhabited

end MediaPreview.Binary64
