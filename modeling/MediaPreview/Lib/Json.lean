import Mathlib.Data.Int.Notation
import Mathlib.Data.List.Basic
import Mathlib.Data.Nat.Notation
import MediaPreview.Lib.Dict

/-!
# JSON texts

Values without fractions, the text `dumps` writes of one, and what `loads` reads of a text. Texts are lists of characters;
what is read of one may hold halves of surrogate pairs besides (`Point`). What was written is read back (`loads_dumps`), in
any layout.

A number with a fraction or an exponent is read as no value.
-/

namespace MediaPreview

/-- A code point of a text that is read: a character, or half a surrogate pair by its code unit. -/
inductive Point where
  | char (c : Char)
  | half (u : ℕ)
  deriving DecidableEq

/-- A value whose texts are lists of `α`. -/
inductive Json (α : Type*) where
  | null
  | bool (b : Bool)
  | int (n : ℤ)
  | str (s : List α)
  | arr (items : List (Json α))
  | obj (members : List (List α × Json α))

namespace Json

mutual

/-- The value, its characters as code points. -/
def points : Json Char → Json Point
  | .null => .null
  | .bool b => .bool b
  | .int n => .int n
  | .str s => .str (s.map .char)
  | .arr items => .arr (pointsItems items)
  | .obj members => .obj (pointsMembers members)

/-- The items of an array, in code points. -/
def pointsItems : List (Json Char) → List (Json Point)
  | [] => []
  | j :: items => points j :: pointsItems items

/-- The members of an object, in code points. -/
def pointsMembers : List (List Char × Json Char) → List (List Point × Json Point)
  | [] => []
  | (key, j) :: members => (key.map .char, points j) :: pointsMembers members

end

/-! ### Characters -/

/-- A hexadecimal digit. -/
def hexDigit (d : ℕ) : Char := Nat.digitChar d

/-- What a hexadecimal digit stands for, in either case. -/
def hexValue (c : Char) : Option ℕ :=
  if c.isDigit then some (c.toNat - 48)
  else if 'a' ≤ c ∧ c ≤ 'f' then some (c.toNat - 87)
  else if 'A' ≤ c ∧ c ≤ 'F' then some (c.toNat - 55)
  else none

/-- The escape of a code unit. -/
def escapeUnit (u : ℕ) : List Char :=
  ['\\', 'u', hexDigit (u / 4096), hexDigit (u / 256 % 16), hexDigit (u / 16 % 16), hexDigit (u % 16)]

/-- The code unit of four hexadecimal digits. -/
def unitOf (a b c d : Char) : Option ℕ :=
  (hexValue a).bind fun a => (hexValue b).bind fun b => (hexValue c).bind fun c => (hexValue d).map fun d =>
    4096 * a + 256 * b + 16 * c + d

/-- The short escapes. -/
def shortEscapes : List (Char × Char) :=
  [('\\', '\\'), ('"', '"'), ('\x08', 'b'), ('\x0c', 'f'), ('\n', 'n'), ('\r', 'r'), ('\t', 't')]

/-- The characters written of one; with `ascii` all others are escaped. -/
def escape (ascii : Bool) (c : Char) : List Char :=
  match Dict.get? shortEscapes c with
  | some e => ['\\', e]
  | none =>
    if c.toNat < 32 then escapeUnit c.toNat
    else if ascii = false ∨ c.toNat < 127 then [c]
    else if c.toNat < 65536 then escapeUnit c.toNat
    else escapeUnit (55296 + (c.toNat - 65536) / 1024) ++ escapeUnit (56320 + (c.toNat - 65536) % 1024)

/-- The character of a short escape. -/
def shortEscape (e : Char) : Option Char :=
  if e = '/' then some '/' else (shortEscapes.find? fun p => p.2 = e).map Prod.fst

/-- Four hexadecimal digits, and what follows. -/
def readHex : List Char → Option (ℕ × List Char)
  | a :: b :: c :: d :: s => (unitOf a b c d).map fun u => (u, s)
  | _ => none

/-- What is behind `\u`, and what follows: two escapes may be the halves of one character. -/
def readUnit (s : List Char) : Option (Point × List Char) :=
  (readHex s).bind fun p =>
    if 55296 ≤ p.1 ∧ p.1 < 56320 then
      match ['\\', 'u'].isPrefixOf? p.2 with
      | none => some (.half p.1, p.2)
      | some s => (readHex s).map fun q =>
        if 56320 ≤ q.1 ∧ q.1 < 57344 then (.char (Char.ofNat (65536 + (p.1 - 55296) * 1024 + (q.1 - 56320))), q.2)
        else (.half p.1, p.2)
    else if 56320 ≤ p.1 ∧ p.1 < 57344 then some (.half p.1, p.2)
    else some (.char (Char.ofNat p.1), p.2)

/-- The next code point of a string, and what follows; `none` inside is the closing quote. -/
def readChar : List Char → Option (Option Point × List Char)
  | [] => none
  | c :: s =>
    if c = '"' then some (none, s)
    else if c = '\\' then
      match s with
      | [] => none
      | e :: s =>
        if e = 'u' then (readUnit s).map fun p => (some p.1, p.2) else (shortEscape e).map fun c => (some (.char c), s)
    else if c.toNat < 32 then none
    else some (some (.char c), s)

/-- A string behind its opening quote, and what follows. -/
def readString : ℕ → List Char → Option (List Point × List Char)
  | 0, _ => none
  | n + 1, s =>
    (readChar s).bind fun p =>
      match p.1 with
      | none => some ([], p.2)
      | some c => (readString n p.2).map fun q => (c :: q.1, q.2)

/-! ### Writing -/

/-- White space. -/
def isSpace (c : Char) : Bool := c = ' ' || c = '\t' || c = '\n' || c = '\r'

/-- How texts are laid out. -/
structure Layout where
  /-- What follows a comma or a colon. -/
  gap : List Char
  /-- Other characters are escaped. -/
  ascii : Bool
  /-- The gap is white space. -/
  isSpace_gap : ∀ c ∈ gap, isSpace c = true

/-- `json.dumps` as it comes. -/
def Layout.plain : Layout := ⟨[' '], true, by simp [isSpace]⟩

/-- Compact, in any characters. -/
def Layout.compact : Layout := ⟨[], false, by simp⟩

variable (l : Layout)

/-- A quoted text. -/
def quoted (s : List Char) : List Char := '"' :: (s.flatMap (escape l.ascii) ++ ['"'])

/-- An integer. -/
def dumpsInt (n : ℤ) : List Char := if n < 0 then '-' :: Nat.toDigits 10 n.natAbs else Nat.toDigits 10 n.natAbs

mutual

/-- `json.dumps`. -/
def dumps : Json Char → List Char
  | .null => ['n', 'u', 'l', 'l']
  | .bool true => ['t', 'r', 'u', 'e']
  | .bool false => ['f', 'a', 'l', 's', 'e']
  | .int n => dumpsInt n
  | .str s => quoted l s
  | .arr [] => ['[', ']']
  | .arr (j :: items) => '[' :: (dumps j ++ dumpsItems items)
  | .obj [] => ['{', '}']
  | .obj ((key, j) :: members) => '{' :: (quoted l key ++ ':' :: (l.gap ++ (dumps j ++ dumpsMembers members)))

/-- The other items. -/
def dumpsItems : List (Json Char) → List Char
  | [] => [']']
  | j :: items => ',' :: (l.gap ++ (dumps j ++ dumpsItems items))

/-- The other members. -/
def dumpsMembers : List (List Char × Json Char) → List Char
  | [] => ['}']
  | (key, j) :: members => ',' :: (l.gap ++ (quoted l key ++ ':' :: (l.gap ++ (dumps j ++ dumpsMembers members))))

end

/-! ### Reading -/

/-- What follows white space. -/
def skipSpace (s : List Char) : List Char := s.dropWhile isSpace

/-- An integer without its sign, and what follows. -/
def readNat : List Char → Option (ℕ × List Char)
  | [] => none
  | c :: s =>
    let rest := if c = '0' then s else s.dropWhile Char.isDigit
    if c.isDigit ∧ rest.head? ∉ ['.', 'e', 'E'].map some then
      some (Nat.ofDigitChars 10 (if c = '0' then [c] else c :: s.takeWhile Char.isDigit) 0, rest)
    else none

mutual

/-- A value, and what follows. -/
def value : ℕ → List Char → Option (Json Point × List Char)
  | 0, _ => none
  | _ + 1, [] => none
  | n + 1, c :: s =>
    if c = 'n' then (['u', 'l', 'l'].isPrefixOf? s).map fun s => (.null, s)
    else if c = 't' then (['r', 'u', 'e'].isPrefixOf? s).map fun s => (.bool true, s)
    else if c = 'f' then (['a', 'l', 's', 'e'].isPrefixOf? s).map fun s => (.bool false, s)
    else if c = '"' then (readString n s).map fun p => (.str p.1, p.2)
    else if c = '[' then
      if (skipSpace s).head? = some ']' then some (.arr [], (skipSpace s).tail)
      else (value n (skipSpace s)).bind fun p => (itemsTail n p.2).map fun q => (.arr (p.1 :: q.1), q.2)
    else if c = '{' then
      if (skipSpace s).head? = some '}' then some (.obj [], (skipSpace s).tail)
      else (member n (skipSpace s)).bind fun p => (membersTail n p.2).map fun q => (.obj (p.1 :: q.1), q.2)
    else if c = '-' then (readNat s).map fun p => (.int (-p.1), p.2)
    else (readNat (c :: s)).map fun p => (.int p.1, p.2)

/-- The other items and the bracket, and what follows. -/
def itemsTail : ℕ → List Char → Option (List (Json Point) × List Char)
  | 0, _ => none
  | n + 1, s =>
    match skipSpace s with
    | [] => none
    | c :: s =>
      if c = ']' then some ([], s)
      else if c = ',' then
        (value n (skipSpace s)).bind fun p => (itemsTail n p.2).map fun q => (p.1 :: q.1, q.2)
      else none

/-- A member, and what follows. -/
def member : ℕ → List Char → Option ((List Point × Json Point) × List Char)
  | 0, _ => none
  | _ + 1, [] => none
  | n + 1, c :: s =>
    if c = '"' then
      (readString n s).bind fun key =>
        match skipSpace key.2 with
        | [] => none
        | c :: s => if c = ':' then (value n (skipSpace s)).map fun p => ((key.1, p.1), p.2) else none
    else none

/-- The other members and the brace, and what follows. -/
def membersTail : ℕ → List Char → Option (List (List Point × Json Point) × List Char)
  | 0, _ => none
  | n + 1, s =>
    match skipSpace s with
    | [] => none
    | c :: s =>
      if c = '}' then some ([], s)
      else if c = ',' then
        (member n (skipSpace s)).bind fun p => (membersTail n p.2).map fun q => (p.1 :: q.1, q.2)
      else none

end

/-- `json.loads`. -/
def loads (s : List Char) : Option (Json Point) :=
  (value (s.length + 1) (skipSpace s)).bind fun p => if skipSpace p.2 = [] then some p.1 else none

/-! ### What was written is read -/

theorem hexValue_hexDigit : ∀ d < 16, hexValue (hexDigit d) = some d := by decide

theorem readHex_escapeUnit {u : ℕ} (h : u < 65536) (s : List Char) :
    readHex ((escapeUnit u).drop 2 ++ s) = some (u, s) := by
  have hsum : 4096 * (u / 4096) + 256 * (u / 256 % 16) + 16 * (u / 16 % 16) + u % 16 = u := by omega
  show ((unitOf _ _ _ _).map fun u => (u, s)) = _
  rw [unitOf, hexValue_hexDigit _ (by omega), hexValue_hexDigit _ (by omega), hexValue_hexDigit _ (by omega),
    hexValue_hexDigit _ (by omega)]
  exact congrArg (fun u => some (u, s)) hsum

theorem isPrefixOf?_escapeUnit (u : ℕ) (s : List Char) :
    ['\\', 'u'].isPrefixOf? (escapeUnit u ++ s) = some ((escapeUnit u).drop 2 ++ s) := rfl

/-- Characters are no halves of surrogate pairs. -/
theorem toNat_lt_or (c : Char) : c.toNat < 55296 ∨ (57343 < c.toNat ∧ c.toNat < 1114112) := c.valid

theorem readUnit_escapeUnit {c : Char} (h : c.toNat < 65536) (s : List Char) :
    readUnit ((escapeUnit c.toNat).drop 2 ++ s) = some (.char c, s) := by
  have hvalid := toNat_lt_or c
  rw [readUnit, readHex_escapeUnit h]
  show (if _ then _ else if _ then _ else some (Point.char (Char.ofNat c.toNat), s)) = _
  rw [if_neg (by omega), if_neg (by omega), Char.ofNat_toNat]

theorem readUnit_pair {high low : ℕ} (hhigh : 55296 ≤ high ∧ high < 56320) (hlow : 56320 ≤ low ∧ low < 57344)
    (s : List Char) :
    readUnit ((escapeUnit high).drop 2 ++ (escapeUnit low ++ s)) =
      some (.char (Char.ofNat (65536 + (high - 55296) * 1024 + (low - 56320))), s) := by
  rw [readUnit, readHex_escapeUnit (by omega)]
  dsimp only [Option.bind_some]
  rw [if_pos hhigh, isPrefixOf?_escapeUnit]
  dsimp only
  rw [readHex_escapeUnit (by omega)]
  dsimp only [Option.map_some]
  rw [if_pos hlow]

theorem shortEscape_of_get? {c e : Char} (h : Dict.get? shortEscapes c = some e) : shortEscape e = some c ∧ e ≠ 'u' := by
  have hall : ∀ p ∈ shortEscapes, shortEscape p.2 = some p.1 ∧ p.2 ≠ 'u' := by decide
  exact hall (c, e) (Dict.mem_of_get? h)

theorem ne_of_get? {c : Char} (h : Dict.get? shortEscapes c = none) : c ≠ '"' ∧ c ≠ '\\' :=
  ⟨fun hc => (by rw [hc] at h; cases h), fun hc => (by rw [hc] at h; cases h)⟩

theorem readChar_escapeUnit {c : Char} (h : c.toNat < 65536) (s : List Char) :
    readChar (escapeUnit c.toNat ++ s) = some (some (.char c), s) := by
  show ((readUnit ((escapeUnit c.toNat).drop 2 ++ s)).map fun p => (some p.1, p.2)) = _
  rw [readUnit_escapeUnit h]
  rfl

/-- What is read of an escape is the character. -/
theorem readChar_escape (ascii : Bool) (c : Char) (s : List Char) :
    readChar (escape ascii c ++ s) = some (some (.char c), s) := by
  unfold escape
  cases hlookup : Dict.get? shortEscapes c with
  | some e =>
    obtain ⟨hshort, hne⟩ := shortEscape_of_get? hlookup
    show (if e = 'u' then _ else (shortEscape e).map fun c => (some (Point.char c), s)) = _
    rw [if_neg hne, hshort]
    rfl
  | none =>
    obtain ⟨hquote, hslash⟩ := ne_of_get? hlookup
    dsimp only
    by_cases hcontrol : c.toNat < 32
    · rw [if_pos hcontrol]
      exact readChar_escapeUnit (by omega) s
    · rw [if_neg hcontrol]
      by_cases hraw : ascii = false ∨ c.toNat < 127
      · rw [if_pos hraw]
        show readChar (c :: s) = _
        unfold readChar
        dsimp only
        rw [if_neg hquote, if_neg hslash, if_neg hcontrol]
      · rw [if_neg hraw]
        by_cases hplane : c.toNat < 65536
        · rw [if_pos hplane]
          exact readChar_escapeUnit hplane s
        · have hvalid := toNat_lt_or c
          have hnat : 65536 + (55296 + (c.toNat - 65536) / 1024 - 55296) * 1024 +
              (56320 + (c.toNat - 65536) % 1024 - 56320) = c.toNat := by omega
          rw [if_neg hplane, List.append_assoc]
          show ((readUnit ((escapeUnit (55296 + (c.toNat - 65536) / 1024)).drop 2 ++
            (escapeUnit (56320 + (c.toNat - 65536) % 1024) ++ s))).map fun p => (some p.1, p.2)) = _
          rw [readUnit_pair (by omega) (by omega), hnat, Char.ofNat_toNat]
          rfl

theorem length_escape_pos (ascii : Bool) (c : Char) : 0 < (escape ascii c).length := by
  refine List.length_pos_of_ne_nil fun h => ?_
  have hread := readChar_escape ascii c []
  rw [h] at hread
  cases hread

/-- A string is read piece by piece. -/
theorem readString_flatMap {ι : Type*} {w : ι → List Char} {f : ι → Char} {l : List ι}
    (hw : ∀ i ∈ l, ∀ s, readChar (w i ++ s) = some (some (.char (f i)), s)) {n : ℕ} (h : l.length < n) (rest : List Char) :
    readString n (l.flatMap w ++ '"' :: rest) = some (l.map fun i => .char (f i), rest) := by
  induction l generalizing n with
  | nil =>
    obtain ⟨n, rfl⟩ := Nat.exists_eq_add_one_of_ne_zero (Nat.ne_zero_of_lt h)
    rfl
  | cons i l ih =>
    obtain ⟨hi, hl⟩ := List.forall_mem_cons.1 hw
    obtain ⟨n, rfl⟩ := Nat.exists_eq_add_one_of_ne_zero (Nat.ne_zero_of_lt h)
    rw [List.flatMap_cons, List.append_assoc, readString, hi]
    dsimp only [Option.bind_some]
    rw [ih hl (Nat.lt_of_succ_lt_succ h)]
    rfl

theorem readString_escape (ascii : Bool) {n : ℕ} {s : List Char} (h : s.length < n) (rest : List Char) :
    readString n (s.flatMap (escape ascii) ++ '"' :: rest) = some (s.map .char, rest) :=
  readString_flatMap (fun c _ => readChar_escape ascii c) h rest

theorem length_lt_length_quoted (s : List Char) : s.length + 1 < (quoted l s).length := by
  have hle : s.length ≤ (s.flatMap (escape l.ascii)).length := by
    induction s with
    | nil => exact Nat.zero_le _
    | cons c s ih =>
      have := length_escape_pos l.ascii c
      rw [List.flatMap_cons, List.length_append, List.length_cons]
      omega
  rw [quoted, List.length_cons, List.length_append]
  exact Nat.succ_lt_succ (Nat.lt_succ_of_le hle)

/-! ### Integers -/

/-- What follows an integer goes on neither with its digits nor with a fraction or an exponent. -/
def Ends (s : List Char) : Prop := ∀ c ∈ s.head?, c.isDigit = false ∧ c ≠ '.' ∧ c ≠ 'e' ∧ c ≠ 'E'

theorem ends_cons {c : Char} (h : c.isDigit = false ∧ c ≠ '.' ∧ c ≠ 'e' ∧ c ≠ 'E') (s : List Char) : Ends (c :: s) :=
  fun _ hc => Option.some.inj hc ▸ h

theorem ends_nil : Ends [] := fun _ h => (by cases h)

/-- No number but zero begins with a zero. -/
theorem head_toDigits (n : ℕ) : ∃ c s, Nat.toDigits 10 n = c :: s ∧ c.isDigit = true ∧ (c = '0' → s = [] ∧ n = 0) := by
  induction n using Nat.strongRecOn with
  | ind n ih =>
    by_cases hlt : n < 10
    · refine ⟨n.digitChar, [], Nat.toDigits_of_lt_base hlt, ?_, fun hzero => ⟨rfl, ?_⟩⟩
      · have hall : ∀ n < 10, (Nat.digitChar n).isDigit = true := by decide
        exact hall n hlt
      · have hall : ∀ n < 10, Nat.digitChar n = '0' → n = 0 := by decide
        exact hall n hlt hzero
    · obtain ⟨c, s, heq, hdigit, hzero⟩ := ih (n / 10) (by omega)
      refine ⟨c, s ++ [(n % 10).digitChar], ?_, hdigit, fun hc => ?_⟩
      · rw [Nat.toDigits_of_base_le (by omega) (by omega), heq]
        rfl
      · have := (hzero hc).2
        omega

theorem readNat_toDigits (n : ℕ) {rest : List Char} (h : Ends rest) :
    readNat (Nat.toDigits 10 n ++ rest) = some (n, rest) := by
  obtain ⟨c, s, heq, hdigit, hzero⟩ := head_toDigits n
  have hall : ∀ d ∈ c :: s, d.isDigit = true := fun d hd =>
    Nat.isDigit_of_mem_toDigits (by omega) (by omega) (heq ▸ hd)
  have hrest : rest.takeWhile Char.isDigit = [] ∧ rest.dropWhile Char.isDigit = rest := by
    cases rest with
    | nil => exact ⟨rfl, rfl⟩
    | cons d rest =>
      have hd := (h d rfl).1
      exact ⟨List.takeWhile_cons_of_neg (by simp [hd]), List.dropWhile_cons_of_neg (by simp [hd])⟩
  have htake : (s ++ rest).takeWhile Char.isDigit = s := by
    rw [List.takeWhile_append_of_pos fun d hd => hall d (.tail _ hd), hrest.1, List.append_nil]
  have hdrop : (s ++ rest).dropWhile Char.isDigit = rest := by
    rw [List.dropWhile_append_of_pos fun d hd => hall d (.tail _ hd), hrest.2]
  have hnext : rest.head? ∉ ['.', 'e', 'E'].map some := by
    intro hmem
    obtain ⟨d, hd, hhead⟩ := List.mem_map.1 hmem
    obtain ⟨-, hne⟩ := h d hhead.symm
    simp only [List.mem_cons, List.not_mem_nil, or_false] at hd
    exact hne.elim fun h h' => hd.elim h fun hd => hd.elim h'.1 h'.2
  have hvalue := @Nat.ofDigitChars_ten_toDigits n
  rw [heq, List.cons_append, readNat]
  by_cases hc : c = '0'
  · obtain ⟨rfl, rfl⟩ := hzero hc
    rw [if_pos hc, List.nil_append, if_pos ⟨hdigit, hnext⟩, if_pos hc, ← heq, hvalue]
  · rw [if_neg hc, hdrop, if_pos ⟨hdigit, hnext⟩, if_neg hc, htake, ← heq, hvalue]

/-! ### Values -/

variable {l}

theorem skipSpace_cons {c : Char} (h : isSpace c = false) (s : List Char) : skipSpace (c :: s) = c :: s :=
  List.dropWhile_cons_of_neg (by simp [h])

theorem skipSpace_gap (s : List Char) : skipSpace (l.gap ++ s) = skipSpace s :=
  List.dropWhile_append_of_pos l.isSpace_gap

theorem value_digit {c : Char} (h : c.isDigit = true) (n : ℕ) (s : List Char) :
    value (n + 1) (c :: s) = (readNat (c :: s)).map fun p => (.int p.1, p.2) := by
  have hne : ∀ d : Char, d.isDigit = false → c ≠ d := by
    rintro d hd rfl
    exact absurd (h.symm.trans hd) (by decide)
  rw [value, if_neg (hne 'n' rfl), if_neg (hne 't' rfl), if_neg (hne 'f' rfl), if_neg (hne '"' rfl), if_neg (hne '[' rfl),
    if_neg (hne '{' rfl), if_neg (hne '-' rfl)]

theorem value_bracket (n : ℕ) (s : List Char) :
    value (n + 1) ('[' :: s) =
      if (skipSpace s).head? = some ']' then some (.arr [], (skipSpace s).tail)
      else (value n (skipSpace s)).bind fun p => (itemsTail n p.2).map fun q => (.arr (p.1 :: q.1), q.2) := rfl

theorem value_brace (n : ℕ) (s : List Char) :
    value (n + 1) ('{' :: s) =
      if (skipSpace s).head? = some '}' then some (.obj [], (skipSpace s).tail)
      else (member n (skipSpace s)).bind fun p => (membersTail n p.2).map fun q => (.obj (p.1 :: q.1), q.2) := rfl

/-- A value's text begins with no white space and no bracket that closes. -/
theorem head_dumps (j : Json Char) : ∃ c s, dumps l j = c :: s ∧ isSpace c = false ∧ c ≠ ']' := by
  match j with
  | .null => exact ⟨_, _, by rw [dumps], rfl, by decide⟩
  | .bool true => exact ⟨_, _, by rw [dumps], rfl, by decide⟩
  | .bool false => exact ⟨_, _, by rw [dumps], rfl, by decide⟩
  | .str s => exact ⟨_, _, by rw [dumps, quoted], rfl, by decide⟩
  | .arr [] => exact ⟨_, _, by rw [dumps], rfl, by decide⟩
  | .arr (j :: items) => exact ⟨_, _, by rw [dumps], rfl, by decide⟩
  | .obj [] => exact ⟨_, _, by rw [dumps], rfl, by decide⟩
  | .obj ((key, j) :: members) => exact ⟨_, _, by rw [dumps], rfl, by decide⟩
  | .int n =>
    rw [dumps, dumpsInt]
    by_cases hneg : n < 0
    · exact ⟨_, _, if_pos hneg, rfl, by decide⟩
    · obtain ⟨c, s, heq, hdigit, -⟩ := head_toDigits n.natAbs
      have hne : ∀ d : Char, d.isDigit = false → c ≠ d := by
        rintro d hd rfl
        exact absurd (hdigit.symm.trans hd) (by decide)
      refine ⟨c, s, (if_neg hneg).trans heq, ?_, hne ']' rfl⟩
      simp [isSpace, hne ' ' rfl, hne '\t' rfl, hne '\n' rfl, hne '\r' rfl]

theorem dumps_obj (members : List (List Char × Json Char)) : ∃ s, dumps l (.obj members) = '{' :: s := by
  cases members with
  | nil => exact ⟨_, by rw [dumps]⟩
  | cons m members => exact ⟨_, by rw [dumps]⟩

theorem skipSpace_dumps (j : Json Char) (s : List Char) : skipSpace (dumps l j ++ s) = dumps l j ++ s := by
  obtain ⟨c, s', heq, hc, -⟩ := head_dumps (l := l) j
  rw [heq, List.cons_append, skipSpace_cons hc]

theorem ends_dumpsItems (items : List (Json Char)) (s : List Char) : Ends (dumpsItems l items ++ s) := by
  cases items with
  | nil => exact ends_cons (by decide) s
  | cons j items => exact ends_cons (by decide) _

theorem ends_dumpsMembers (members : List (List Char × Json Char)) (s : List Char) : Ends (dumpsMembers l members ++ s) := by
  cases members with
  | nil => exact ends_cons (by decide) s
  | cons m members => exact ends_cons (by decide) _

theorem value_dumpsInt (i : ℤ) (n : ℕ) {rest : List Char} (h : Ends rest) :
    value (n + 1) (dumpsInt i ++ rest) = some (.int i, rest) := by
  rw [dumpsInt]
  by_cases hneg : i < 0
  · rw [if_pos hneg, List.cons_append]
    show ((readNat (Nat.toDigits 10 i.natAbs ++ rest)).map fun p => (Json.int (-p.1), p.2)) = _
    rw [readNat_toDigits _ h]
    have hi : -(i.natAbs : ℤ) = i := by omega
    exact congrArg (fun i => some (Json.int i, rest)) hi
  · obtain ⟨c, s, heq, hdigit, -⟩ := head_toDigits i.natAbs
    rw [if_neg hneg, heq, List.cons_append, value_digit hdigit, ← List.cons_append, ← heq, readNat_toDigits _ h]
    have hi : (i.natAbs : ℤ) = i := by omega
    exact congrArg (fun i => some (Json.int i, rest)) hi

/-- What reading gives of each kind of text, with `n` steps. -/
structure Reads (l : Layout) (n : ℕ) : Prop where
  value : ∀ j rest, (dumps l j).length < n → Ends rest → value n (dumps l j ++ rest) = some (points j, rest)
  items : ∀ items rest, (dumpsItems l items).length < n → itemsTail n (dumpsItems l items ++ rest) = some (pointsItems items, rest)
  member : ∀ key j rest, (quoted l key).length + (dumps l j).length + 1 < n → Ends rest →
    member n (quoted l key ++ ':' :: (l.gap ++ (dumps l j ++ rest))) = some ((key.map .char, points j), rest)
  members : ∀ members rest, (dumpsMembers l members).length < n →
    membersTail n (dumpsMembers l members ++ rest) = some (pointsMembers members, rest)

theorem length_dumpsItems_pos (items : List (Json Char)) : 0 < (dumpsItems l items).length := by
  cases items <;> simp [dumpsItems]

theorem length_dumpsMembers_pos (members : List (List Char × Json Char)) : 0 < (dumpsMembers l members).length := by
  cases members <;> simp [dumpsMembers]

theorem readString_quoted {n : ℕ} {s : List Char} (h : (quoted l s).length ≤ n + 1) (rest : List Char) :
    readString n (s.flatMap (escape l.ascii) ++ ['"'] ++ rest) = some (s.map .char, rest) := by
  have := length_lt_length_quoted l s
  rw [List.append_assoc]
  exact readString_escape l.ascii (by omega) rest

theorem reads_succ {n : ℕ} (h : Reads l n) : Reads l (n + 1) := by
  constructor
  · intro j rest hlen hends
    match j with
    | .null => rfl
    | .bool true => rfl
    | .bool false => rfl
    | .int i =>
      rw [dumps]
      exact value_dumpsInt i n hends
    | .str s =>
      rw [dumps] at hlen ⊢
      show ((readString n (s.flatMap (escape l.ascii) ++ ['"'] ++ rest)).map fun p => (Json.str p.1, p.2)) = _
      rw [readString_quoted (by omega)]
      rfl
    | .arr [] => rfl
    | .arr (j :: items) =>
      obtain ⟨c, s, hc, -, hne⟩ := head_dumps (l := l) j
      have := length_dumpsItems_pos (l := l) items
      rw [dumps, List.length_cons, List.length_append] at hlen
      have hhead : (dumps l j ++ (dumpsItems l items ++ rest)).head? ≠ some ']' := by
        rw [hc]
        exact fun h => hne (Option.some.inj h)
      rw [dumps, List.cons_append, value_bracket, List.append_assoc, skipSpace_dumps, if_neg hhead,
        h.value j _ (by omega) (ends_dumpsItems items rest)]
      dsimp only [Option.bind_some]
      rw [h.items items rest (by omega)]
      rfl
    | .obj [] => rfl
    | .obj ((key, j) :: members) =>
      have := length_dumpsMembers_pos (l := l) members
      rw [dumps] at hlen
      simp only [List.length_cons, List.length_append] at hlen
      have hquoted := h.member key j (dumpsMembers l members ++ rest) (by omega) (ends_dumpsMembers members rest)
      rw [dumps]
      simp only [List.cons_append, List.append_assoc]
      show (((member n (quoted l key ++ ':' :: (l.gap ++ (dumps l j ++ (dumpsMembers l members ++ rest))))).bind
        fun p => (membersTail n p.2).map fun q => (Json.obj (p.1 :: q.1), q.2))) = _
      rw [hquoted]
      dsimp only [Option.bind_some]
      rw [h.members members rest (by omega)]
      rfl
  · intro items rest hlen
    cases items with
    | nil => rfl
    | cons j items =>
      rw [dumpsItems] at hlen ⊢
      simp only [List.length_cons, List.length_append] at hlen
      have := length_dumpsItems_pos (l := l) items
      simp only [List.cons_append, List.append_assoc]
      show ((value n (skipSpace (l.gap ++ (dumps l j ++ (dumpsItems l items ++ rest))))).bind fun p =>
        (itemsTail n p.2).map fun q => (p.1 :: q.1, q.2)) = _
      rw [skipSpace_gap, skipSpace_dumps, h.value j _ (by omega) (ends_dumpsItems items rest)]
      dsimp only [Option.bind_some]
      rw [h.items items rest (by omega)]
      rfl
  · intro key j rest hlen hends
    have hstring : readString n (key.flatMap (escape l.ascii) ++ ['"'] ++ ':' :: (l.gap ++ (dumps l j ++ rest))) =
        some (key.map .char, ':' :: (l.gap ++ (dumps l j ++ rest))) := readString_quoted (by omega) _
    show ((readString n (key.flatMap (escape l.ascii) ++ ['"'] ++ ':' :: (l.gap ++ (dumps l j ++ rest)))).bind fun key =>
      match skipSpace key.2 with
      | [] => none
      | c :: s => if c = ':' then (value n (skipSpace s)).map fun p => ((key.1, p.1), p.2) else none) = _
    rw [hstring]
    show ((value n (skipSpace (l.gap ++ (dumps l j ++ rest)))).map fun p => ((key.map Point.char, p.1), p.2)) = _
    rw [skipSpace_gap, skipSpace_dumps, h.value j rest (by omega) hends]
    rfl
  · intro members rest hlen
    cases members with
    | nil => rfl
    | cons m members =>
      obtain ⟨key, j⟩ := m
      rw [dumpsMembers] at hlen ⊢
      simp only [List.length_cons, List.length_append] at hlen
      have := length_dumpsMembers_pos (l := l) members
      have hquoted := h.member key j (dumpsMembers l members ++ rest) (by omega) (ends_dumpsMembers members rest)
      have hskip : ∀ s, skipSpace (quoted l key ++ s) = quoted l key ++ s := fun s => skipSpace_cons rfl _
      simp only [List.cons_append, List.append_assoc]
      show ((member n (skipSpace (l.gap ++ (quoted l key ++
        ':' :: (l.gap ++ (dumps l j ++ (dumpsMembers l members ++ rest))))))).bind fun p =>
          (membersTail n p.2).map fun q => (p.1 :: q.1, q.2)) = _
      rw [skipSpace_gap, hskip, hquoted]
      dsimp only [Option.bind_some]
      rw [h.members members rest (by omega)]
      rfl

theorem reads (n : ℕ) : Reads l n := by
  induction n with
  | zero => exact ⟨fun _ _ h => (by omega), fun _ _ h => (by omega), fun _ _ _ h => (by omega), fun _ _ h => (by omega)⟩
  | succ n ih => exact reads_succ ih

/-- **What was written is read back.** -/
theorem loads_dumps (j : Json Char) : loads (dumps l j) = some (points j) := by
  have hread := (reads (l := l) ((dumps l j).length + 1)).value j [] (Nat.lt_succ_self _) ends_nil
  rw [List.append_nil] at hread
  have hskip := skipSpace_dumps (l := l) j []
  rw [List.append_nil] at hskip
  rw [loads, hskip, hread]
  rfl

end Json

end MediaPreview
