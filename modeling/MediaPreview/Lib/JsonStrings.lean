import MediaPreview.Lib.Json

/-!
# The strings of a JSON text

What is between the quotes of a string (`isBody`). A string that is read is read by that alone, whatever follows, and holds no
control character (`readString_spec`).
-/

namespace MediaPreview.Json

/-! ### What is between quotes -/

/-- What is between the quotes of a string: a quote is behind a backslash, and behind a backslash there is something. -/
def isBody : List Char → Bool
  | [] => true
  | c :: s =>
    if c = '\\' then
      match s with
      | [] => false
      | _ :: s => isBody s
    else c ≠ '"' && isBody s

/-- The text of a string, by what is between its quotes. -/
def textOf (body : List Char) : Option (List Point) :=
  match loads ('"' :: (body ++ ['"'])) with
  | some (.str s) => some s
  | _ => none

@[simp] theorem isBody_escape (e : Char) (s : List Char) : isBody ('\\' :: e :: s) = isBody s := rfl

theorem isBody_cons {c : Char} (h : c ≠ '\\') (s : List Char) : isBody (c :: s) = (c ≠ '"' && isBody s) := by
  conv_lhs => unfold isBody
  exact if_neg h

/-- A string ends at one quote. -/
theorem eq_of_isBody {a b r t : List Char} (ha : isBody a = true) (hb : isBody b = true)
    (h : a ++ '"' :: r = b ++ '"' :: t) : a = b ∧ r = t := by
  induction a using isBody.induct generalizing b with
  | case1 =>
    cases b with
    | nil => exact ⟨rfl, (List.cons.inj h).2⟩
    | cons c b =>
      obtain ⟨rfl, -⟩ := List.cons.inj h
      rw [isBody_cons (by decide)] at hb
      cases hb
  | case2 => cases ha
  | case3 e s ih =>
    match b with
    | [] => exact absurd (List.cons.inj h).1 (by decide)
    | [c] =>
      obtain ⟨rfl, -⟩ := List.cons.inj h
      cases hb
    | c :: e' :: b =>
      obtain ⟨rfl, hrest⟩ := List.cons.inj h
      obtain ⟨rfl, htail⟩ := List.cons.inj hrest
      have hb : isBody b = true := hb
      obtain ⟨rfl, rfl⟩ := ih ha hb htail
      exact ⟨rfl, rfl⟩
  | case4 c s hc ih =>
    rw [isBody_cons hc, Bool.and_eq_true] at ha
    cases b with
    | nil => exact absurd (List.cons.inj h).1 (of_decide_eq_true ha.1)
    | cons c' b =>
      obtain ⟨rfl, htail⟩ := List.cons.inj h
      rw [isBody_cons hc, Bool.and_eq_true] at hb
      obtain ⟨rfl, rfl⟩ := ih ha.2 hb.2 htail
      exact ⟨rfl, rfl⟩

/-! ### Reading a string -/

theorem of_hexValue {c : Char} {v : ℕ} (h : hexValue c = some v) : c ≠ '"' ∧ c ≠ '\\' ∧ 32 ≤ c.toNat := by
  have hle : ∀ {d e : Char}, d ≤ e → d.toNat ≤ e.toNat := fun h => UInt32.le_iff_toNat_le.1 h
  have hnat : 48 ≤ c.toNat ∧ c.toNat ≠ 92 := by
    unfold hexValue at h
    by_cases hdigit : c.isDigit
    · have hlow : '0'.val ≤ c.val := of_decide_eq_true (Bool.and_eq_true_iff.1 hdigit).1
      have hhigh : c.val ≤ '9'.val := of_decide_eq_true (Bool.and_eq_true_iff.1 hdigit).2
      have hlow : 48 ≤ c.toNat := UInt32.le_iff_toNat_le.1 hlow
      have hhigh : c.toNat ≤ 57 := UInt32.le_iff_toNat_le.1 hhigh
      omega
    · rw [if_neg hdigit] at h
      by_cases hlower : 'a' ≤ c ∧ c ≤ 'f'
      · have hlow : 97 ≤ c.toNat := hle hlower.1
        omega
      · rw [if_neg hlower] at h
        by_cases hupper : 'A' ≤ c ∧ c ≤ 'F'
        · have hlow : 65 ≤ c.toNat := hle hupper.1
          have hhigh : c.toNat ≤ 70 := hle hupper.2
          omega
        · rw [if_neg hupper] at h
          cases h
  refine ⟨?_, ?_, by omega⟩
  · rintro rfl
    exact absurd hnat.1 (by decide)
  · rintro rfl
    exact absurd hnat.2 (by decide)

/-- The four digits that are read stand before the rest. -/
theorem readHex_spec {s r : List Char} {u : ℕ} (h : readHex s = some (u, r)) :
    ∃ hex : List Char, s = hex ++ r ∧ (∀ c ∈ hex, c ≠ '"' ∧ c ≠ '\\' ∧ 32 ≤ c.toNat) ∧
      ∀ t, readHex (hex ++ t) = some (u, t) := by
  match s with
  | a :: b :: c :: d :: s =>
    obtain ⟨u', hu, heq⟩ := Option.map_eq_some_iff.1 h
    obtain ⟨rfl, rfl⟩ := Prod.mk.inj heq
    refine ⟨[a, b, c, d], rfl, ?_, fun t => ?_⟩
    · obtain ⟨va, ha, h⟩ := Option.bind_eq_some_iff.1 hu
      obtain ⟨vb, hb, h⟩ := Option.bind_eq_some_iff.1 h
      obtain ⟨vc, hc, h⟩ := Option.bind_eq_some_iff.1 h
      obtain ⟨vd, hd, -⟩ := Option.map_eq_some_iff.1 h
      simp only [List.mem_cons, List.not_mem_nil, or_false]
      rintro x (rfl | rfl | rfl | rfl)
      · exact of_hexValue ha
      · exact of_hexValue hb
      · exact of_hexValue hc
      · exact of_hexValue hd
    · show (unitOf a b c d).map _ = _
      rw [hu]
      rfl
  | [] | [_] | [_, _] | [_, _, _] => cases h

theorem isBody_append_of_plain {p : List Char} (h : ∀ c ∈ p, c ≠ '"' ∧ c ≠ '\\' ∧ 32 ≤ c.toNat) (s : List Char) :
    isBody (p ++ s) = isBody s := by
  induction p with
  | nil => rfl
  | cons c p ih =>
    obtain ⟨hc, hrest⟩ := List.forall_mem_cons.1 h
    rw [List.cons_append, isBody_cons hc.2.1, ih hrest]
    simp [hc.1]

theorem plain_hexDigit : ∀ d < 16, hexDigit d ≠ '"' ∧ hexDigit d ≠ '\\' ∧ 32 ≤ (hexDigit d).toNat := by decide

theorem isBody_escapeUnit {u : ℕ} (h : u < 65536) (s : List Char) : isBody (escapeUnit u ++ s) = isBody s := by
  have hplain : ∀ c ∈ (escapeUnit u).drop 2, c ≠ '"' ∧ c ≠ '\\' ∧ 32 ≤ c.toNat := by
    have hdrop : (escapeUnit u).drop 2 =
        [hexDigit (u / 4096), hexDigit (u / 256 % 16), hexDigit (u / 16 % 16), hexDigit (u % 16)] := rfl
    rw [hdrop]
    simp only [List.mem_cons, List.not_mem_nil, or_false]
    rintro c (rfl | rfl | rfl | rfl)
    · exact plain_hexDigit _ (by omega)
    · exact plain_hexDigit _ (by omega)
    · exact plain_hexDigit _ (by omega)
    · exact plain_hexDigit _ (by omega)
  show isBody ('\\' :: 'u' :: ((escapeUnit u).drop 2 ++ s)) = _
  rw [isBody_escape, isBody_append_of_plain hplain]

/-- Digits that are read before a quote are of what is before it. -/
theorem prefix_of_plain {hex b q r : List Char} (h : ∀ c ∈ hex, c ≠ '"' ∧ c ≠ '\\' ∧ 32 ≤ c.toNat)
    (heq : b ++ '"' :: r = hex ++ q) : ∃ b', b = hex ++ b' ∧ q = b' ++ '"' :: r := by
  induction hex generalizing b with
  | nil => exact ⟨b, rfl, heq.symm⟩
  | cons c hex ih =>
    obtain ⟨hc, hrest⟩ := List.forall_mem_cons.1 h
    cases b with
    | nil => exact absurd (List.cons.inj heq).1.symm hc.1
    | cons c' b =>
      obtain ⟨rfl, htail⟩ := List.cons.inj heq
      obtain ⟨b', rfl, hq⟩ := ih hrest htail
      exact ⟨b', rfl, hq⟩

theorem isPrefixOf?_eq_some {s t : List Char} : ['\\', 'u'].isPrefixOf? s = some t ↔ s = '\\' :: 'u' :: t := by
  match s with
  | [] => simp [List.isPrefixOf?]
  | [c] => simp [List.isPrefixOf?]
  | c :: d :: s =>
    by_cases hc : c = '\\'
    · by_cases hd : d = 'u'
      · simp [List.isPrefixOf?, hc, hd]
      · simp [List.isPrefixOf?, hc, hd, Ne.symm hd]
    · simp [List.isPrefixOf?, hc, Ne.symm hc]

/-- Whether another escape follows is seen before the quote. -/
theorem isPrefixOf?_body {b : List Char} (hb : isBody b = true) (r : List Char) :
    ['\\', 'u'].isPrefixOf? (b ++ '"' :: r) = (['\\', 'u'].isPrefixOf? b).map (· ++ '"' :: r) := by
  match b with
  | [] => rfl
  | [c] =>
    by_cases hc : c = '\\'
    · subst hc
      cases hb
    · simp [List.isPrefixOf?, Ne.symm hc]
  | c :: d :: b =>
    by_cases hc : c = '\\'
    · by_cases hd : d = 'u'
      · subst hc hd
        rfl
      · simp [List.isPrefixOf?, hc, Ne.symm hd]
    · simp [List.isPrefixOf?, Ne.symm hc]

/-- An escape is read by what is before the quote. -/
theorem readUnit_spec {b s r : List Char} {p : Point} (hb : isBody b = true) (h : readUnit s = some (p, b ++ '"' :: r)) :
    ∃ piece : List Char, s = piece ++ (b ++ '"' :: r) ∧ isBody ('\\' :: 'u' :: (piece ++ b)) = true ∧
      (∀ c ∈ piece, 32 ≤ c.toNat) ∧ ∀ t, readUnit (piece ++ (b ++ '"' :: t)) = some (p, b ++ '"' :: t) := by
  obtain ⟨⟨u, q⟩, hhex, hunit⟩ := Option.bind_eq_some_iff.1 h
  dsimp only at hunit
  obtain ⟨hex, rfl, hplain, hread⟩ := readHex_spec hhex
  have hcontrol : ∀ c ∈ hex, 32 ≤ c.toNat := fun c hc => (hplain c hc).2.2
  have hbody : ∀ s, isBody ('\\' :: 'u' :: (hex ++ s)) = isBody s := fun s => isBody_append_of_plain hplain s
  by_cases hhigh : 55296 ≤ u ∧ u < 56320
  · rw [if_pos hhigh] at hunit
    cases hstarts : ['\\', 'u'].isPrefixOf? q with
    | none =>
      rw [hstarts] at hunit
      obtain ⟨rfl, rfl⟩ := Prod.mk.inj (Option.some.inj hunit)
      refine ⟨hex, rfl, (hbody b).trans hb, hcontrol, fun t => ?_⟩
      rw [isPrefixOf?_body hb, Option.map_eq_none_iff] at hstarts
      rw [readUnit, hread]
      dsimp only [Option.bind_some]
      rw [if_pos hhigh, isPrefixOf?_body hb, hstarts]
      rfl
    | some s =>
      rw [hstarts] at hunit
      obtain ⟨⟨u', q'⟩, hhex', hpair⟩ := Option.map_eq_some_iff.1 hunit
      obtain ⟨hex', rfl, hplain', hread'⟩ := readHex_spec hhex'
      obtain rfl := isPrefixOf?_eq_some.1 hstarts
      dsimp only at hpair
      by_cases hlow : 56320 ≤ u' ∧ u' < 57344
      · rw [if_pos hlow] at hpair
        obtain ⟨rfl, rfl⟩ := Prod.mk.inj hpair
        refine ⟨hex ++ '\\' :: 'u' :: hex', by simp, ?_, ?_, fun t => ?_⟩
        · rw [List.append_assoc, hbody]
          exact (isBody_append_of_plain hplain' b).trans hb
        · intro c hc
          simp only [List.mem_append, List.mem_cons] at hc
          obtain hc | rfl | rfl | hc := hc
          · exact hcontrol c hc
          · decide
          · decide
          · exact (hplain' c hc).2.2
        · rw [List.append_assoc, readUnit, hread]
          dsimp only [Option.bind_some]
          rw [if_pos hhigh]
          show (readHex (hex' ++ (b ++ '"' :: t))).map _ = _
          rw [hread']
          dsimp only [Option.map_some]
          rw [if_pos hlow]
      · rw [if_neg hlow] at hpair
        obtain ⟨rfl, hq⟩ := Prod.mk.inj hpair
        have hstarts' := hstarts
        rw [hq, isPrefixOf?_body hb] at hstarts'
        obtain ⟨b₁, hb₁, hs⟩ := Option.map_eq_some_iff.1 hstarts'
        obtain rfl := isPrefixOf?_eq_some.1 hb₁
        obtain ⟨b₂, rfl, -⟩ := prefix_of_plain hplain' hs
        refine ⟨hex, congrArg (hex ++ ·) hq, (hbody _).trans hb, hcontrol, fun t => ?_⟩
        rw [readUnit, hread]
        dsimp only [Option.bind_some]
        rw [if_pos hhigh, isPrefixOf?_body hb, hb₁]
        dsimp only [Option.map_some]
        rw [List.append_assoc, hread']
        dsimp only [Option.map_some]
        rw [if_neg hlow]
  · rw [if_neg hhigh] at hunit
    by_cases hlow : 56320 ≤ u ∧ u < 57344
    · rw [if_pos hlow] at hunit
      obtain ⟨rfl, rfl⟩ := Prod.mk.inj (Option.some.inj hunit)
      refine ⟨hex, rfl, (hbody b).trans hb, hcontrol, fun t => ?_⟩
      rw [readUnit, hread]
      dsimp only [Option.bind_some]
      rw [if_neg hhigh, if_pos hlow]
    · rw [if_neg hlow] at hunit
      obtain ⟨rfl, rfl⟩ := Prod.mk.inj (Option.some.inj hunit)
      refine ⟨hex, rfl, (hbody b).trans hb, hcontrol, fun t => ?_⟩
      rw [readUnit, hread]
      dsimp only [Option.bind_some]
      rw [if_neg hhigh, if_neg hlow]

theorem of_shortEscape {e c : Char} (h : shortEscape e = some c) : 32 ≤ e.toNat := by
  unfold shortEscape at h
  by_cases hslash : e = '/'
  · rw [hslash]
    decide
  · rw [if_neg hslash] at h
    obtain ⟨p, hp, -⟩ := Option.map_eq_some_iff.1 h
    have hall : ∀ p ∈ shortEscapes, 32 ≤ p.2.toNat := by decide
    have heq : p.2 = e := of_decide_eq_true (List.find?_some hp :)
    exact heq ▸ hall p (List.mem_of_find?_eq_some hp)

/-- A code point is read by what is before the quote. -/
theorem readChar_spec {b s r : List Char} {p : Point} (hb : isBody b = true)
    (h : readChar s = some (some p, b ++ '"' :: r)) :
    ∃ piece : List Char, s = piece ++ (b ++ '"' :: r) ∧ piece ≠ [] ∧ isBody (piece ++ b) = true ∧
      (∀ c ∈ piece, 32 ≤ c.toNat) ∧ ∀ t, readChar (piece ++ (b ++ '"' :: t)) = some (some p, b ++ '"' :: t) := by
  cases s with
  | nil => cases h
  | cons c s =>
    unfold readChar at h
    dsimp only at h
    by_cases hquote : c = '"'
    · rw [if_pos hquote] at h
      cases h
    · rw [if_neg hquote] at h
      by_cases hslash : c = '\\'
      · rw [if_pos hslash] at h
        subst hslash
        cases s with
        | nil => cases h
        | cons e s =>
          dsimp only at h
          by_cases hunit : e = 'u'
          · rw [if_pos hunit] at h
            subst hunit
            obtain ⟨⟨p', s'⟩, hread, heq⟩ := Option.map_eq_some_iff.1 h
            obtain ⟨hp, rfl⟩ := Prod.mk.inj heq
            obtain rfl := Option.some.inj hp
            obtain ⟨piece, rfl, hbody, hcontrol, hall⟩ := readUnit_spec hb hread
            refine ⟨'\\' :: 'u' :: piece, rfl, by simp, hbody, ?_, fun t => ?_⟩
            · simp only [List.mem_cons]
              rintro c (rfl | rfl | hc)
              · decide
              · decide
              · exact hcontrol c hc
            · show (readUnit (piece ++ (b ++ '"' :: t))).map _ = _
              rw [hall]
              rfl
          · rw [if_neg hunit] at h
            obtain ⟨c, hshort, heq⟩ := Option.map_eq_some_iff.1 h
            obtain ⟨hp, rfl⟩ := Prod.mk.inj heq
            obtain rfl := Option.some.inj hp
            refine ⟨['\\', e], rfl, by simp, hb, ?_, fun t => ?_⟩
            · simp only [List.mem_cons, List.not_mem_nil, or_false]
              rintro c (rfl | rfl)
              · decide
              · exact of_shortEscape hshort
            · show (if e = 'u' then _ else (shortEscape e).map _) = _
              rw [if_neg hunit, hshort]
              rfl
      · rw [if_neg hslash] at h
        by_cases hlow : c.toNat < 32
        · rw [if_pos hlow] at h
          cases h
        · rw [if_neg hlow] at h
          obtain ⟨hp, rfl⟩ := Prod.mk.inj (Option.some.inj h)
          obtain rfl := Option.some.inj hp
          refine ⟨[c], rfl, by simp, ?_, ?_, fun t => ?_⟩
          · rw [List.singleton_append, isBody_cons hslash, hb]
            simp [hquote]
          · simp only [List.mem_singleton]
            rintro d rfl
            omega
          · rw [List.singleton_append]
            unfold readChar
            dsimp only
            rw [if_neg hquote, if_neg hslash, if_neg hlow]

theorem readChar_none {s r : List Char} (h : readChar s = some (none, r)) : s = '"' :: r := by
  cases s with
  | nil => cases h
  | cons c s =>
    unfold readChar at h
    dsimp only at h
    by_cases hquote : c = '"'
    · rw [if_pos hquote] at h
      obtain ⟨-, rfl⟩ := Prod.mk.inj (Option.some.inj h)
      rw [hquote]
    · rw [if_neg hquote] at h
      by_cases hslash : c = '\\'
      · rw [if_pos hslash] at h
        cases s with
        | nil => cases h
        | cons e s =>
          dsimp only at h
          by_cases hunit : e = 'u'
          · rw [if_pos hunit] at h
            obtain ⟨q, -, heq⟩ := Option.map_eq_some_iff.1 h
            cases heq
          · rw [if_neg hunit] at h
            obtain ⟨q, -, heq⟩ := Option.map_eq_some_iff.1 h
            cases heq
      · rw [if_neg hslash] at h
        by_cases hlow : c.toNat < 32
        · rw [if_pos hlow] at h
          cases h
        · rw [if_neg hlow] at h
          cases h

/-- **A string is read by what is between its quotes**, which holds no control character. -/
theorem readString_spec {n : ℕ} {s r : List Char} {x : List Point} (h : readString n s = some (x, r)) :
    ∃ b, s = b ++ '"' :: r ∧ isBody b = true ∧ (∀ c ∈ b, 32 ≤ c.toNat) ∧ x.length ≤ b.length ∧
      ∀ m t, x.length < m → readString m (b ++ '"' :: t) = some (x, t) := by
  induction n generalizing s x with
  | zero => cases h
  | succ n ih =>
    rw [readString] at h
    obtain ⟨⟨p, s'⟩, hread, h⟩ := Option.bind_eq_some_iff.1 h
    cases p with
    | none =>
      obtain ⟨rfl, rfl⟩ := Prod.mk.inj (Option.some.inj h)
      refine ⟨[], readChar_none hread, rfl, fun c hc => absurd hc List.not_mem_nil, Nat.le_refl _, fun m t hm => ?_⟩
      obtain ⟨m, rfl⟩ := Nat.exists_eq_add_one_of_ne_zero (Nat.ne_zero_of_lt hm)
      rfl
    | some p =>
      obtain ⟨⟨x', r'⟩, hrest, heq⟩ := Option.map_eq_some_iff.1 h
      obtain ⟨rfl, rfl⟩ := Prod.mk.inj heq
      obtain ⟨b, rfl, hbody, hcontrol, hlength, hall⟩ := ih hrest
      obtain ⟨piece, rfl, hne, hpiece, hlow, hchar⟩ := readChar_spec hbody hread
      refine ⟨piece ++ b, (List.append_assoc _ _ _).symm, hpiece, fun c hc => ?_, ?_, fun m t hm => ?_⟩
      · exact (List.mem_append.1 hc).elim (hlow c) (hcontrol c)
      · have hpos := List.length_pos_of_ne_nil hne
        have hlength : x'.length ≤ b.length := hlength
        rw [List.length_append, List.length_cons]
        show x'.length + 1 ≤ _
        omega
      · obtain ⟨m, rfl⟩ := Nat.exists_eq_add_one_of_ne_zero (Nat.ne_zero_of_lt hm)
        rw [List.append_assoc, readString, hchar]
        dsimp only [Option.bind_some]
        rw [hall m t (Nat.lt_of_succ_lt_succ hm)]
        rfl

/-- The text of what is between the quotes. -/
theorem textOf_of_readString {n : ℕ} {b r : List Char} {x : List Point} (hb : isBody b = true)
    (h : readString n (b ++ '"' :: r) = some (x, r)) : textOf b = some x := by
  obtain ⟨b', heq, hbody, -, hlength, hall⟩ := readString_spec h
  obtain ⟨rfl, -⟩ := eq_of_isBody hb hbody heq
  have hread := hall (b.length + 2) [] (by omega)
  have hvalue : value (b.length + 3) ('"' :: (b ++ ['"'])) = some (.str x, []) := by
    show (readString (b.length + 2) (b ++ ['"'])).map _ = _
    rw [hread]
    rfl
  have hloads : loads ('"' :: (b ++ ['"'])) = some (.str x) := by
    have hlen : ('"' :: (b ++ ['"'])).length + 1 = b.length + 3 := by simp
    rw [loads, skipSpace_cons (by decide), hlen, hvalue]
    rfl
  rw [textOf, hloads]

/-! ### Writing a string -/

theorem isBody_escape_append (ascii : Bool) (c : Char) (s : List Char) : isBody (escape ascii c ++ s) = isBody s := by
  unfold escape
  cases hlookup : Dict.get? shortEscapes c with
  | some e => rfl
  | none =>
    obtain ⟨hquote, hslash⟩ := ne_of_get? hlookup
    have hvalid := toNat_lt_or c
    dsimp only
    by_cases hcontrol : c.toNat < 32
    · rw [if_pos hcontrol, isBody_escapeUnit (by omega)]
    · rw [if_neg hcontrol]
      by_cases hraw : ascii = false ∨ c.toNat < 127
      · rw [if_pos hraw, List.singleton_append, isBody_cons hslash]
        simp [hquote]
      · rw [if_neg hraw]
        by_cases hplane : c.toNat < 65536
        · rw [if_pos hplane, isBody_escapeUnit hplane]
        · rw [if_neg hplane, List.append_assoc, isBody_escapeUnit (by omega), isBody_escapeUnit (by omega)]

theorem isBody_flatMap_escape (ascii : Bool) (s : List Char) : isBody (s.flatMap (escape ascii)) = true := by
  induction s with
  | nil => rfl
  | cons c s ih => rw [List.flatMap_cons, isBody_escape_append, ih]

/-- A written text is the text of what is between its quotes. -/
theorem textOf_flatMap_escape (ascii : Bool) (s : List Char) : textOf (s.flatMap (escape ascii)) = some (s.map .char) :=
  textOf_of_readString (isBody_flatMap_escape ascii s) (readString_escape ascii (Nat.lt_succ_self s.length) [])

theorem plain_flatMap_escape (ascii : Bool) (s : List Char) : ∀ c ∈ s.flatMap (escape ascii), 32 ≤ c.toNat := by
  obtain ⟨b, heq, hb, hplain, -⟩ := readString_spec (readString_escape ascii (Nat.lt_succ_self s.length) [])
  obtain ⟨rfl, -⟩ := eq_of_isBody (isBody_flatMap_escape ascii s) hb heq
  exact hplain

end MediaPreview.Json
