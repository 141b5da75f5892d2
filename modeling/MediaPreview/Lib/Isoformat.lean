import MediaPreview.Lib.Calendar
import Mathlib.Data.String.Basic
import Mathlib.Order.Lattice
import Mathlib.Order.Monotone.Basic

/-!
# Times and their ISO text

A `datetime` of UTC by its microseconds since the start of year 1, as far as the end of year 9999. `isoformat` writes
it as Python does: no fraction of a second when there is none, six digits else. Texts compare as the times they are of
(`isoformat_lt_iff`), which a fraction left out does not change: `+` comes before `.`. What was written is read back as
it was (`fromisoformat_isoformat`); of what `fromisoformat` accepts only this form is modelled.
-/

namespace MediaPreview

/-! ### Numbers of a fixed width -/

namespace Digits

/-- A decimal digit. -/
def digit (d : ℕ) : Char := Char.ofNat (48 + d)

/-- The last `w` digits of a number. -/
def pad : ℕ → ℕ → List Char
  | 0, _ => []
  | w + 1, n => pad w (n / 10) ++ [digit (n % 10)]

/-- The number the next `w` digits continue `acc` to, and the rest. -/
def read : ℕ → ℕ → List Char → Option (ℕ × List Char)
  | 0, acc, s => some (acc, s)
  | _ + 1, _, [] => none
  | w + 1, acc, c :: s => if c.isDigit then read w (10 * acc + (c.toNat - 48)) s else none

theorem digit_lt_digit : ∀ d < 10, ∀ e < 10, digit d < digit e ↔ d < e := by decide

theorem digit_inj : ∀ d < 10, ∀ e < 10, digit d = digit e ↔ d = e := by decide

theorem read_digit : ∀ d < 10, (digit d).isDigit = true ∧ (digit d).toNat - 48 = d := by decide

theorem length_pad (w n : ℕ) : (pad w n).length = w := by
  induction w generalizing n with
  | zero => rfl
  | succ w ih => rw [pad, List.length_append, ih, List.length_singleton]

/-- Texts of one length followed by more. -/
theorem append_lt_append_iff : ∀ {xs ys : List Char}, xs.length = ys.length → ∀ r s : List Char,
    xs ++ r < ys ++ s ↔ xs < ys ∨ xs = ys ∧ r < s
  | [], [], _, r, s => by simp
  | x :: xs, y :: ys, h, r, s => by
    have hrest := append_lt_append_iff (Nat.succ.inj h) r s
    rw [List.cons_append, List.cons_append, List.cons_lt_cons_iff, List.cons_lt_cons_iff, hrest, List.cons.injEq]
    tauto

/-- **Numbers of one width compare as texts do.** -/
theorem pad_lt_pad {w m n : ℕ} (hm : m < 10 ^ w) (hn : n < 10 ^ w) :
    (pad w m < pad w n ↔ m < n) ∧ (pad w m = pad w n ↔ m = n) := by
  induction w generalizing m n with
  | zero =>
    obtain rfl : m = 0 := by omega
    obtain rfl : n = 0 := by omega
    exact ⟨iff_of_false (List.not_lt_nil _) (Nat.lt_irrefl _), iff_of_true rfl rfl⟩
  | succ w ih =>
    rw [pow_succ] at hm hn
    obtain ⟨hlt, heq⟩ := ih (m := m / 10) (n := n / 10) (by omega) (by omega)
    have hd := digit_lt_digit (m % 10) (Nat.mod_lt _ (by decide)) (n % 10) (Nat.mod_lt _ (by decide))
    have he := digit_inj (m % 10) (Nat.mod_lt _ (by decide)) (n % 10) (Nat.mod_lt _ (by decide))
    have hlen : (pad w (m / 10)).length = (pad w (n / 10)).length := by rw [length_pad, length_pad]
    constructor
    · rw [pad, pad, append_lt_append_iff hlen, hlt, heq, List.cons_lt_cons_iff, hd]
      simp only [List.not_lt_nil, and_false, or_false]
      omega
    · have happ : pad w (m / 10) ++ [digit (m % 10)] = pad w (n / 10) ++ [digit (n % 10)] ↔
          pad w (m / 10) = pad w (n / 10) ∧ digit (m % 10) = digit (n % 10) :=
        ⟨fun h => (List.append_inj h hlen).imp_right fun h => (List.cons.inj h).1, fun ⟨hp, hl⟩ => by rw [hp, hl]⟩
      rw [pad, pad, happ, heq, he]
      omega

/-- A number, then more. -/
theorem pad_append_lt {w m n : ℕ} (hm : m < 10 ^ w) (hn : n < 10 ^ w) (r s : List Char) :
    pad w m ++ r < pad w n ++ s ↔ m < n ∨ m = n ∧ r < s := by
  obtain ⟨hlt, heq⟩ := pad_lt_pad hm hn
  rw [append_lt_append_iff (by rw [length_pad, length_pad]), hlt, heq]

theorem read_succ (w acc : ℕ) (s : List Char) : read (w + 1) acc s = (read w acc s).bind fun m => read 1 m.1 m.2 := by
  induction w generalizing acc s with
  | zero => rfl
  | succ w ih =>
    cases s with
    | nil => rfl
    | cons c s =>
      rw [read, read]
      split_ifs
      · exact ih _ s
      · rfl

/-- What was written is read. -/
theorem read_pad (w acc n : ℕ) (s : List Char) : read w acc (pad w n ++ s) = some (acc * 10 ^ w + n % 10 ^ w, s) := by
  induction w generalizing n s with
  | zero => simp [read, pad, Nat.mod_one]
  | succ w ih =>
    obtain ⟨hdigit, hval⟩ := read_digit (n % 10) (Nat.mod_lt _ (by decide))
    have hn : 10 * (acc * 10 ^ w + n / 10 % 10 ^ w) + n % 10 = acc * 10 ^ (w + 1) + n % 10 ^ (w + 1) := by
      rw [pow_succ', Nat.mod_mul, Nat.mul_left_comm]
      omega
    rw [read_succ, pad, List.append_assoc, ih, Option.bind_some, List.singleton_append, read, if_pos hdigit, hval, hn,
      read]

end Digits

open Digits Calendar

/-! ### Times -/

/-- The microseconds of a day. -/
def dayMicros : ℕ := 86400000000

/-- `datetime.max` is the microsecond before. -/
def maxMicros : ℕ := daysBeforeYear 10000 * dayMicros

/-- A `datetime` of UTC. -/
structure Datetime where
  /-- The microseconds since the start of year 1. -/
  micros : ℕ
  /-- Not after `datetime.max`. -/
  lt : micros < maxMicros
  deriving DecidableEq

namespace Datetime

theorem micros_injective : Function.Injective micros := fun ⟨_, _⟩ ⟨_, _⟩ h => by cases h; rfl

instance : LinearOrder Datetime := LinearOrder.lift' micros micros_injective

theorem lt_def {a b : Datetime} : a < b ↔ a.micros < b.micros := Iff.rfl

/-- A `timedelta` later; `none` for an `OverflowError`. -/
def add (d : Datetime) (delta : ℕ) : Option Datetime :=
  if h : d.micros + delta < maxMicros then some ⟨d.micros + delta, h⟩ else none

theorem add_eq_some_iff {d e : Datetime} {delta : ℕ} : d.add delta = some e ↔ e.micros = d.micros + delta := by
  unfold add
  split_ifs with h
  · rw [Option.some.injEq]
    exact ⟨fun he => he ▸ rfl, fun he => micros_injective he.symm⟩
  · exact iff_of_false (fun he => by cases he) fun he => h (he ▸ e.lt)

variable (d : Datetime)

/-- The day. -/
def days : ℕ := d.micros / dayMicros

/-- `hour`. -/
def hour : ℕ := d.micros % dayMicros / 3600000000

/-- `minute`. -/
def minute : ℕ := d.micros % 3600000000 / 60000000

/-- `second`. -/
def second : ℕ := d.micros % 60000000 / 1000000

/-- `microsecond`. -/
def microsecond : ℕ := d.micros % 1000000

/-- `+00:00`. -/
def utc : List Char := ['+', '0', '0', ':', '0', '0']

/-- What follows the seconds. -/
def fraction (micros : ℕ) : List Char := if micros = 0 then utc else '.' :: (pad 6 micros ++ utc)

/-- The characters of `isoformat`. -/
def isoChars : List Char :=
  pad 4 (year d.days) ++ '-' :: (pad 2 (month d.days) ++ '-' :: (pad 2 (day d.days) ++ 'T' :: (pad 2 d.hour ++ ':' ::
    (pad 2 d.minute ++ ':' :: (pad 2 d.second ++ fraction d.microsecond)))))

/-- `isoformat()`. -/
def isoformat : String := String.ofList d.isoChars

/-- The character `c`, and the rest. -/
def skip (c : Char) : List Char → Option (List Char)
  | [] => none
  | x :: s => if x = c then some s else none

/-- The fraction at the end of a text. -/
def readFraction (s : List Char) : Option ℕ :=
  if s = utc then some 0
  else do
    let (micros, s) ← read 6 0 (← skip '.' s)
    if s = utc then some micros else none

/-- A date and a time of day, where there are such. -/
def ofFields (year month day hour minute second micros : ℕ) : Option Datetime :=
  if 1 ≤ year ∧ 1 ≤ month ∧ month ≤ 12 ∧ 1 ≤ day ∧
      daysBeforeMonth (isLeap year) month + day ≤ daysBeforeMonth (isLeap year) (month + 1) ∧
      hour < 24 ∧ minute < 60 ∧ second < 60 then
    let micros := ordinal year month day * dayMicros + hour * 3600000000 + minute * 60000000 + second * 1000000 + micros
    if h : micros < maxMicros then some ⟨micros, h⟩ else none
  else none

/-- `datetime.fromisoformat`, of what `isoformat` writes. -/
def fromisoformat (text : String) : Option Datetime := do
  let (year, s) ← read 4 0 text.toList
  let (month, s) ← read 2 0 (← skip '-' s)
  let (day, s) ← read 2 0 (← skip '-' s)
  let (hour, s) ← read 2 0 (← skip 'T' s)
  let (minute, s) ← read 2 0 (← skip ':' s)
  let (second, s) ← read 2 0 (← skip ':' s)
  ofFields year month day hour minute second (← readFraction s)

/-! ### Order -/

theorem days_lt : d.days < daysBeforeYear 10000 := Nat.div_lt_of_lt_mul (Nat.mul_comm _ _ ▸ d.lt)

theorem year_lt : year d.days < 10 ^ 4 := by
  by_contra h
  have hle : daysBeforeYear 10000 ≤ daysBeforeYear (year d.days) := daysBeforeYear_mono (Nat.le_of_not_lt h)
  have hspec := (year_spec d.days).1
  have hlt := d.days_lt
  omega

theorem month_lt : month d.days < 10 ^ 2 := by
  have := month_spec d.days
  omega

theorem day_lt : day d.days < 10 ^ 2 := by
  have := day_le d.days
  omega

theorem hour_lt : d.hour < 24 := by
  unfold hour dayMicros
  omega

theorem minute_lt : d.minute < 60 := by
  unfold minute
  omega

theorem second_lt : d.second < 60 := by
  unfold second
  omega

theorem microsecond_lt : d.microsecond < 10 ^ 6 := Nat.mod_lt _ (by decide)

/-- A time by its day and its time of day. -/
theorem micros_eq : d.micros =
    d.days * dayMicros + d.hour * 3600000000 + d.minute * 60000000 + d.second * 1000000 + d.microsecond := by
  unfold days hour minute second microsecond dayMicros
  omega

theorem fraction_lt {m n : ℕ} (hm : m < 10 ^ 6) (hn : n < 10 ^ 6) : fraction m < fraction n ↔ m < n := by
  have hplus : ∀ r s : List Char, ('+' :: r) < ('.' :: s) := fun r s => List.cons_lt_cons_iff.2 (.inl (by decide))
  unfold fraction
  split_ifs with h0 h0' h0'
  · subst h0 h0'
    exact iff_of_false (List.lt_irrefl _) (Nat.lt_irrefl _)
  · subst h0
    exact iff_of_true (hplus _ _) (Nat.pos_of_ne_zero h0')
  · subst h0'
    exact iff_of_false (List.lt_asymm (hplus _ _)) (Nat.not_lt_zero _)
  · rw [List.cons_lt_cons_iff, pad_append_lt hm hn]
    simp

/-- Texts compare field by field. -/
theorem isoChars_lt_iff {a b : Datetime} : a.isoChars < b.isoChars ↔
    year a.days < year b.days ∨ year a.days = year b.days ∧ (month a.days < month b.days ∨
      month a.days = month b.days ∧ (day a.days < day b.days ∨ day a.days = day b.days ∧
        (a.hour < b.hour ∨ a.hour = b.hour ∧ (a.minute < b.minute ∨ a.minute = b.minute ∧
          (a.second < b.second ∨ a.second = b.second ∧ a.microsecond < b.microsecond))))) := by
  have hcons : ∀ (c : Char) (r s : List Char), c :: r < c :: s ↔ r < s := fun c r s => by simp
  have hlt60 : ∀ n, n < 60 → n < 10 ^ 2 := fun n hn => by omega
  have hlt24 : ∀ n, n < 24 → n < 10 ^ 2 := fun n hn => by omega
  unfold isoChars
  rw [pad_append_lt a.year_lt b.year_lt, hcons, pad_append_lt a.month_lt b.month_lt, hcons,
    pad_append_lt a.day_lt b.day_lt, hcons, pad_append_lt (hlt24 _ a.hour_lt) (hlt24 _ b.hour_lt), hcons,
    pad_append_lt (hlt60 _ a.minute_lt) (hlt60 _ b.minute_lt), hcons,
    pad_append_lt (hlt60 _ a.second_lt) (hlt60 _ b.second_lt), fraction_lt a.microsecond_lt b.microsecond_lt]

/-- A later time has a later text. -/
theorem isoChars_strictMono {a b : Datetime} (h : a < b) : a.isoChars < b.isoChars := by
  rw [isoChars_lt_iff]
  have ha := a.micros_eq
  have hb := b.micros_eq
  have hab := lt_def.1 h
  rcases Nat.lt_or_ge a.days b.days with hdays | hdays
  · rcases date_lt hdays with hy | ⟨hy, hm | ⟨hm, hd⟩⟩
    · exact .inl hy
    · exact .inr ⟨hy, .inl hm⟩
    · exact .inr ⟨hy, .inr ⟨hm, .inl hd⟩⟩
  · have hha := a.hour_lt
    have hma := a.minute_lt
    have hsa := a.second_lt
    have hua := a.microsecond_lt
    have hhb := b.hour_lt
    have hmb := b.minute_lt
    have hsb := b.second_lt
    have hub := b.microsecond_lt
    unfold dayMicros at ha hb
    have heq : a.days = b.days := by omega
    refine .inr ⟨by rw [heq], .inr ⟨by rw [heq], .inr ⟨by rw [heq], ?_⟩⟩⟩
    omega

/-- **Texts compare as their times.** -/
theorem isoformat_lt_iff {a b : Datetime} : a.isoformat < b.isoformat ↔ a < b := by
  have hmono : StrictMono isoformat := fun a b h => by
    rw [String.lt_iff, isoformat, isoformat, String.toList_ofList, String.toList_ofList]
    exact isoChars_strictMono h
  exact hmono.lt_iff_lt

theorem isoformat_le_iff {a b : Datetime} : a.isoformat ≤ b.isoformat ↔ a ≤ b := by
  rw [← not_lt, isoformat_lt_iff, not_lt]

/-! ### Reading back -/

theorem readFraction_fraction {m : ℕ} (hm : m < 10 ^ 6) : readFraction (fraction m) = some m := by
  unfold fraction
  split_ifs with h
  · rw [readFraction, if_pos rfl, h]
  · have hne : '.' :: (pad 6 m ++ utc) ≠ utc := by simp [utc]
    simp only [readFraction, if_neg hne, skip, if_true, Option.bind_eq_bind, Option.bind_some, read_pad, zero_mul,
      zero_add, Nat.mod_eq_of_lt hm]

theorem ofFields_fields :
    ofFields (year d.days) (month d.days) (day d.days) d.hour d.minute d.second d.microsecond = some d := by
  have hmonth := month_spec d.days
  have hday : 1 ≤ day d.days ∧ daysBeforeMonth (isLeap (year d.days)) (month d.days) + day d.days ≤
      daysBeforeMonth (isLeap (year d.days)) (month d.days + 1) := by
    unfold day
    omega
  have hmicros := d.micros_eq
  rw [ofFields, if_pos ⟨one_le_year _, hmonth.1, hmonth.2.1, hday.1, hday.2, d.hour_lt, d.minute_lt, d.second_lt⟩,
    ordinal_date, ← hmicros]
  exact dif_pos d.lt

/-- **What was written is read back as it was.** -/
theorem fromisoformat_isoformat : fromisoformat d.isoformat = some d := by
  have hmod : ∀ {w n : ℕ}, n < 10 ^ w → n % 10 ^ w = n := Nat.mod_eq_of_lt
  have hhour : d.hour % 10 ^ 2 = d.hour := hmod (by have := d.hour_lt; omega)
  have hminute : d.minute % 10 ^ 2 = d.minute := hmod (by have := d.minute_lt; omega)
  have hsecond : d.second % 10 ^ 2 = d.second := hmod (by have := d.second_lt; omega)
  simp only [fromisoformat, isoformat, String.toList_ofList, isoChars, read_pad, skip, if_true, Option.bind_eq_bind,
    Option.bind_some, zero_mul, zero_add, hmod d.year_lt, hmod d.month_lt, hmod d.day_lt, hhour, hminute, hsecond,
    readFraction_fraction d.microsecond_lt, ofFields_fields]

example : (Datetime.mk 63839664000000000 (by decide)).isoformat = "2024-01-01T00:00:00+00:00" := by decide

end Datetime

end MediaPreview
