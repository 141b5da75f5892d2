import MediaPreview.Lib.Binary64
import MediaPreview.Lib.Dict

/-!
# Python values

The values a JSON text gives in Python, and what Python says of them: whether they are true, and whether two are equal,
where numbers of different types are compared as numbers.
-/

namespace MediaPreview

open Binary64 (PyFloat)

/-- A value. -/
inductive PyValue where
  /-- `None`. -/
  | none
  /-- A `bool`. -/
  | bool (b : Bool)
  /-- An `int`. -/
  | int (n : ℤ)
  /-- A `float`. -/
  | float (x : PyFloat)
  /-- A `str`. -/
  | str (s : String)
  /-- A `list`. -/
  | list (items : List PyValue)
  /-- A `dict`. -/
  | dict (entries : List (String × PyValue))

namespace PyValue

/-- `bool(value)`. -/
def truthy : PyValue → Bool
  | none => false
  | bool b => b
  | int n => n ≠ 0
  | float x => x ≠ .finite 0
  | str s => s ≠ ""
  | list items => !items.isEmpty
  | dict entries => !entries.isEmpty

/-- The number that a number is compared as. -/
def number : PyValue → Option PyFloat
  | bool b => some (.finite (if b then 1 else 0))
  | int n => some (.finite n)
  | float x => some x
  | _ => .none

/-- `entries.get(key)`. -/
def get (entries : List (String × PyValue)) (key : String) : PyValue := (Dict.get? entries key).getD none

mutual

/-- `a == b`. -/
def eq : PyValue → PyValue → Bool
  | none, none => true
  | str s, str t => s = t
  | list xs, list ys => eqItems xs ys
  | dict es, dict fs => es.length = fs.length && eqEntries es fs
  | a, b =>
    match a.number, b.number with
    | some x, some y => x = y && x ≠ .nan
    | _, _ => false

/-- The items are equal. -/
def eqItems : List PyValue → List PyValue → Bool
  | [], [] => true
  | x :: xs, y :: ys => eq x y && eqItems xs ys
  | _, _ => false

/-- Each entry has an equal one. -/
def eqEntries : List (String × PyValue) → List (String × PyValue) → Bool
  | [], _ => true
  | (key, x) :: es, fs =>
    match Dict.get? fs key with
    | some y => eq x y && eqEntries es fs
    | .none => false

end

end PyValue

end MediaPreview
