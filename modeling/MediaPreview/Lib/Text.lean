import Mathlib.Data.List.Basic
import Mathlib.Data.Int.Notation

/-!
# Reading numbers from text

The digits a Python regular expression's `\d` matches and `int` reads: every decimal
digit of Unicode, of which there is one run of ten for each script
(`decimalZeros`, Unicode 14).
-/

namespace MediaPreview.Text

/-- The code points of the zeros of Unicode's decimal digits. -/
def decimalZeros : List ℕ :=
  [48, 1632, 1776, 1984, 2406, 2534, 2662, 2790, 2918, 3046, 3174, 3302, 3430, 3558, 3664, 3792, 3872,
    4160, 4240, 6112, 6160, 6470, 6608, 6784, 6800, 6992, 7088, 7232, 7248, 42528, 43216, 43264, 43472,
    43504, 43600, 44016, 65296, 66720, 68912, 69734, 69872, 69942, 70096, 70384, 70736, 70864, 71248,
    71360, 71472, 71904, 72016, 72784, 73040, 73120, 92768, 92864, 93008, 120782, 120792, 120802, 120812,
    120822, 123200, 123632, 125264, 130032]

/-- The value of a decimal digit. -/
def digitValue (c : Char) : Option ℕ :=
  (decimalZeros.find? fun z => z ≤ c.toNat ∧ c.toNat < z + 10).map fun z => c.toNat - z

/-- `\d*`, greedily: the number read so far with the digits `s` starts with, and the rest. -/
def digits (acc : ℕ) : List Char → ℕ × List Char
  | [] => (acc, [])
  | c :: s =>
    match digitValue c with
    | some v => digits (10 * acc + v) s
    | none => (acc, c :: s)

/-- `(\d+)`, greedily: the number at the start of `s`, and the rest. -/
def number (s : List Char) : Option (ℕ × List Char) :=
  match s with
  | [] => none
  | c :: s => (digitValue c).map fun v => digits v s

/-- The rest of `s` after the text `p`. -/
def skip (p : String) (s : List Char) : Option (List Char) :=
  if p.toList <+: s then some (s.drop p.toList.length) else none

/-- `$`: the end of the text, or before a line feed that ends it. -/
def atEnd (s : List Char) : Bool := s = [] ∨ s = ['\n']

/-- `int(text)`, of what `str` writes of a number. -/
def decimal (text : String) : Option ℤ :=
  let unsigned := fun s : List Char =>
    if s ≠ [] ∧ s.all Char.isDigit then some (Nat.ofDigitChars 10 s 0) else none
  match text.toList with
  | '-' :: s => (unsigned s).map fun n => -(n : ℤ)
  | s => (unsigned s).map Int.ofNat

end MediaPreview.Text
