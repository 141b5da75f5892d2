import Mathlib.Data.Nat.Basic
import Mathlib.Data.List.Defs
import Mathlib.Tactic.Linarith

/-!
# Dates of the proleptic Gregorian calendar

A date by the days since 1 January of year 1 (`n`, from `0`), and back: the year by its cycles of 400, 100, 4 and 1
years, then the month and the day of the month. The date of a day is the day it is the date of (`ordinal_date`), and a
later day has a later date, read year first (`date_lt`).
-/

namespace MediaPreview.Calendar

/-- Whether a year has a 29 February. -/
def isLeap (y : ℕ) : Bool := y % 4 = 0 && (y % 100 ≠ 0 || y % 400 = 0)

/-- The days before 1 January of a year. -/
def daysBeforeYear (y : ℕ) : ℕ := (y - 1) * 365 + (y - 1) / 4 - (y - 1) / 100 + (y - 1) / 400

/-- The days of a year before the first of a month; of month `13`, all of them. -/
def daysBeforeMonth (leap : Bool) (m : ℕ) : ℕ :=
  [0, 31, 59, 90, 120, 151, 181, 212, 243, 273, 304, 334].getD (m - 1) 365 + if 2 < m ∧ leap then 1 else 0

/-- The year of a day. -/
def year (n : ℕ) : ℕ :=
  let n400 := n / 146097
  let n := n % 146097
  let n100 := n / 36524
  let n := n % 36524
  let n4 := n / 1461
  let n := n % 1461
  let n1 := n / 365
  400 * n400 + 100 * n100 + 4 * n4 + n1 + if n1 = 4 ∨ n100 = 4 then 0 else 1

/-- The month of a year's day, guessed by 32-day months and put right. -/
def monthOf (leap : Bool) (d : ℕ) : ℕ :=
  if d < daysBeforeMonth leap ((d + 50) / 32) then (d + 50) / 32 - 1 else (d + 50) / 32

/-- Which day of its year a day is, from `0`. -/
def dayOfYear (n : ℕ) : ℕ := n - daysBeforeYear (year n)

/-- The month of a day. -/
def month (n : ℕ) : ℕ := monthOf (isLeap (year n)) (dayOfYear n)

/-- The day of the month of a day. -/
def day (n : ℕ) : ℕ := dayOfYear n - daysBeforeMonth (isLeap (year n)) (month n) + 1

/-- The day of a date. -/
def ordinal (y m d : ℕ) : ℕ := daysBeforeYear y + daysBeforeMonth (isLeap y) m + (d - 1)

/-! ### Years -/

/-- A year is the length of its days. -/
theorem daysBeforeYear_succ {y : ℕ} (hy : 1 ≤ y) :
    daysBeforeYear (y + 1) = daysBeforeYear y + (365 + if isLeap y then 1 else 0) := by
  obtain ⟨z, rfl⟩ : ∃ z, y = z + 1 := ⟨y - 1, by omega⟩
  have h4 := Nat.succ_div (a := z) (b := 4)
  have h100 := Nat.succ_div (a := z) (b := 100)
  have h400 := Nat.succ_div (a := z) (b := 400)
  have hle : z / 100 ≤ z * 365 := by omega
  have hle' : (z + 1) / 100 ≤ (z + 1) * 365 := by omega
  simp only [daysBeforeYear, isLeap, Nat.add_sub_cancel, Bool.and_eq_true, Bool.or_eq_true, decide_eq_true_eq]
  simp only [Nat.dvd_iff_mod_eq_zero] at h4 h100 h400
  split_ifs at h4 h100 h400 ⊢ <;> omega

theorem daysBeforeYear_mono {y z : ℕ} (h : y ≤ z) : daysBeforeYear y ≤ daysBeforeYear z := by
  refine monotone_nat_of_le_succ (fun n => ?_) h
  rcases Nat.eq_zero_or_pos n with rfl | hn
  · exact Nat.zero_le _
  · rw [daysBeforeYear_succ hn]
    exact Nat.le_add_right _ _

theorem one_le_year (n : ℕ) : 1 ≤ year n := by
  unfold year
  dsimp only
  split_ifs with h
  · omega
  · omega

/-- The days before a year, by its cycles. -/
theorem daysBeforeYear_cycles (a : ℕ) {b c d : ℕ} (hb : b ≤ 3) (hc : c ≤ 24) (hd : d ≤ 3) :
    daysBeforeYear (400 * a + 100 * b + 4 * c + d + 1) = 146097 * a + 36524 * b + 1461 * c + 365 * d := by
  have h4 : (400 * a + 100 * b + 4 * c + d) / 4 = 100 * a + 25 * b + c := by omega
  have h100 : (400 * a + 100 * b + 4 * c + d) / 100 = 4 * a + b := by omega
  have h400 : (400 * a + 100 * b + 4 * c + d) / 400 = a := by omega
  rw [daysBeforeYear, Nat.add_sub_cancel, h4, h100, h400]
  omega

/-- A day is in its year. -/
theorem year_spec (n : ℕ) : daysBeforeYear (year n) ≤ n ∧ n < daysBeforeYear (year n + 1) := by
  obtain ⟨a, r, rfl, hr, ha, hr'⟩ : ∃ a r, n = 146097 * a + r ∧ r < 146097 ∧ n / 146097 = a ∧ n % 146097 = r :=
    ⟨_, _, (Nat.div_add_mod n 146097).symm, Nat.mod_lt _ (by decide), rfl, rfl⟩
  obtain ⟨b, s, rfl, hs, hb, hs'⟩ : ∃ b s, r = 36524 * b + s ∧ s < 36524 ∧ r / 36524 = b ∧ r % 36524 = s :=
    ⟨_, _, (Nat.div_add_mod r 36524).symm, Nat.mod_lt _ (by decide), rfl, rfl⟩
  obtain ⟨c, t, rfl, ht, hc, ht'⟩ : ∃ c t, s = 1461 * c + t ∧ t < 1461 ∧ s / 1461 = c ∧ s % 1461 = t :=
    ⟨_, _, (Nat.div_add_mod s 1461).symm, Nat.mod_lt _ (by decide), rfl, rfl⟩
  obtain ⟨d, u, rfl, hu, hd, -⟩ : ∃ d u, t = 365 * d + u ∧ u < 365 ∧ t / 365 = d ∧ t % 365 = u :=
    ⟨_, _, (Nat.div_add_mod t 365).symm, Nat.mod_lt _ (by decide), rfl, rfl⟩
  have hyear : year (146097 * a + (36524 * b + (1461 * c + (365 * d + u)))) =
      400 * a + 100 * b + 4 * c + d + if d = 4 ∨ b = 4 then 0 else 1 := by
    simp only [year, ha, hr', hb, hs', hc, ht', hd]
  rw [hyear]
  by_cases hlast : d = 4 ∨ b = 4
  · -- 31 December of a leap year, which ends a cycle of 4 or of 400 years.
    rw [if_pos hlast, Nat.add_zero]
    rcases Nat.lt_or_ge b 4 with hb4 | hb4
    · obtain ⟨rfl, rfl⟩ : d = 4 ∧ u = 0 := by omega
      have hfirst := daysBeforeYear_cycles a (by omega : b ≤ 3) (by omega : c ≤ 24) (by omega : 3 ≤ 3)
      have hleap : isLeap (400 * a + 100 * b + 4 * c + 3 + 1) = true := by
        simp only [isLeap, Bool.and_eq_true, Bool.or_eq_true, decide_eq_true_eq]
        omega
      have hnext := daysBeforeYear_succ (y := 400 * a + 100 * b + 4 * c + 3 + 1) (by omega)
      rw [hleap, if_pos rfl] at hnext
      show daysBeforeYear (400 * a + 100 * b + 4 * c + 3 + 1) ≤ _ ∧ _ < daysBeforeYear (400 * a + 100 * b + 4 * c + 3 + 1 + 1)
      omega
    · obtain ⟨rfl, rfl, rfl, rfl⟩ : b = 4 ∧ c = 0 ∧ d = 0 ∧ u = 0 := by omega
      have hfirst := daysBeforeYear_cycles a (by omega : 3 ≤ 3) (by omega : 24 ≤ 24) (by omega : 3 ≤ 3)
      have hleap : isLeap (400 * a + 100 * 3 + 4 * 24 + 3 + 1) = true := by
        simp only [isLeap, Bool.and_eq_true, Bool.or_eq_true, decide_eq_true_eq]
        omega
      have hnext := daysBeforeYear_succ (y := 400 * a + 100 * 3 + 4 * 24 + 3 + 1) (by omega)
      rw [hleap, if_pos rfl] at hnext
      show daysBeforeYear (400 * a + 100 * 3 + 4 * 24 + 3 + 1) ≤ _ ∧ _ < daysBeforeYear (400 * a + 100 * 3 + 4 * 24 + 3 + 1 + 1)
      omega
  · rw [if_neg hlast, daysBeforeYear_succ (Nat.succ_pos _),
      daysBeforeYear_cycles a (by omega) (by omega : c ≤ 24) (by omega : d ≤ 3)]
    omega

theorem year_mono {m n : ℕ} (h : m ≤ n) : year m ≤ year n := by
  by_contra hlt
  have hstep := daysBeforeYear_mono (y := year n + 1) (z := year m) (by omega)
  have hm := (year_spec m).1
  have hn := (year_spec n).2
  omega

theorem dayOfYear_lt (n : ℕ) : dayOfYear n < 365 + if isLeap (year n) then 1 else 0 := by
  have h := year_spec n
  rw [daysBeforeYear_succ (one_le_year n)] at h
  unfold dayOfYear
  omega

theorem daysBeforeYear_add_dayOfYear (n : ℕ) : daysBeforeYear (year n) + dayOfYear n = n := by
  have h := (year_spec n).1
  unfold dayOfYear
  omega

/-! ### Months -/

/-- A day of a year is in its month. -/
theorem monthOf_spec : ∀ leap : Bool, ∀ d < 365 + (if leap then 1 else 0),
    1 ≤ monthOf leap d ∧ monthOf leap d ≤ 12 ∧ daysBeforeMonth leap (monthOf leap d) ≤ d ∧
      d < daysBeforeMonth leap (monthOf leap d + 1) ∧ d < daysBeforeMonth leap (monthOf leap d) + 31 := by
  decide +kernel

theorem daysBeforeMonth_mono : ∀ leap : Bool, ∀ n ≤ 13, ∀ m ≤ n, daysBeforeMonth leap m ≤ daysBeforeMonth leap n := by
  decide

theorem month_spec (n : ℕ) : 1 ≤ month n ∧ month n ≤ 12 ∧ daysBeforeMonth (isLeap (year n)) (month n) ≤ dayOfYear n ∧
    dayOfYear n < daysBeforeMonth (isLeap (year n)) (month n + 1) ∧
    dayOfYear n < daysBeforeMonth (isLeap (year n)) (month n) + 31 :=
  monthOf_spec (isLeap (year n)) (dayOfYear n) (dayOfYear_lt n)

theorem day_le (n : ℕ) : day n ≤ 31 := by
  have h := month_spec n
  unfold day
  omega

/-- **A day is the day of its date.** -/
theorem ordinal_date (n : ℕ) : ordinal (year n) (month n) (day n) = n := by
  have hyear := daysBeforeYear_add_dayOfYear n
  have hmonth := month_spec n
  unfold ordinal day
  omega

/-- **A later day has a later date.** -/
theorem date_lt {m n : ℕ} (h : m < n) :
    year m < year n ∨ year m = year n ∧ (month m < month n ∨ month m = month n ∧ day m < day n) := by
  rcases Nat.lt_or_eq_of_le (year_mono h.le) with hyear | hyear
  · exact .inl hyear
  refine .inr ⟨hyear, ?_⟩
  have hm := daysBeforeYear_add_dayOfYear m
  have hn := daysBeforeYear_add_dayOfYear n
  have hdays : dayOfYear m < dayOfYear n := by
    rw [hyear] at hm
    omega
  have hmonth := month_spec m
  have hmonth' := month_spec n
  rw [hyear] at hmonth
  rcases Nat.lt_trichotomy (month m) (month n) with hlt | heq | hgt
  · exact .inl hlt
  · refine .inr ⟨heq, ?_⟩
    rw [heq] at hmonth
    unfold day
    rw [hyear, heq]
    omega
  · have hle := daysBeforeMonth_mono (isLeap (year n)) (month m) (by omega) (month n + 1) hgt
    omega

example : (year 738885, month 738885, day 738885) = (2024, 1, 1) := by decide

end MediaPreview.Calendar
