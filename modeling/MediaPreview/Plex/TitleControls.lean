import MediaPreview.Lib.JsonSpelling
import MediaPreview.Plex.ExtraData

/-!
# Literal control characters in a title

Plex sometimes writes the control characters of `ma:title` as they are, so that its text is no JSON
(`markers/publishers/plex_db.py`). `_escape_native_title_controls` escapes them, and `decode_extra_data` takes the fields if
the `url` field agrees. The repair is narrow: a text that is read by it has control characters nowhere else in its strings, and
its fields are those of its `url` field (`repaired_spec`).
-/

namespace MediaPreview.Plex

open Json

/-! ### Tokens -/

theorem stringToken_quote (s : List Char) : stringToken ('"' :: s) = some (['"'], s) := by
  conv_lhs => unfold stringToken
  exact if_pos rfl

theorem stringToken_escape (e : Char) (s : List Char) :
    stringToken ('\\' :: e :: s) = (stringToken s).map fun p => ('\\' :: e :: p.1, p.2) := by
  conv_lhs => unfold stringToken
  rw [if_neg (by decide), if_pos rfl]

theorem stringToken_cons {c : Char} (hquote : c ≠ '"') (hc : c ≠ '\\') (s : List Char) :
    stringToken (c :: s) = (stringToken s).map fun p => (c :: p.1, p.2) := by
  conv_lhs => unfold stringToken
  rw [if_neg hquote, if_neg hc]

theorem escapeControls_escape (e : Char) (s : List Char) : escapeControls ('\\' :: e :: s) =
    if isControl e then none else (escapeControls s).map fun s => '\\' :: e :: s := by
  conv_lhs => unfold escapeControls
  exact if_pos rfl

theorem escapeControls_cons {c : Char} (hc : c ≠ '\\') (s : List Char) : escapeControls (c :: s) =
    (escapeControls s).map fun s => (if isControl c then escapeUnit c.toNat else [c]) ++ s := by
  conv_lhs => unfold escapeControls
  exact if_neg hc

theorem escapeControls_quote : escapeControls ['"'] = some ['"'] := by decide

theorem stringToken_body {b : List Char} (hb : isBody b = true) (rest : List Char) :
    stringToken (b ++ '"' :: rest) = some (b ++ ['"'], rest) := by
  induction b using isBody.induct with
  | case1 => exact stringToken_quote rest
  | case2 => cases hb
  | case3 e s ih =>
    rw [isBody_escape] at hb
    rw [List.cons_append, List.cons_append, stringToken_escape, ih hb]
    rfl
  | case4 c s hc ih =>
    rw [isBody_cons hc, Bool.and_eq_true] at hb
    rw [List.cons_append, stringToken_cons (of_decide_eq_true hb.1) hc, ih hb.2]
    rfl

theorem stringToken_spec {s body rest : List Char} (h : stringToken s = some (body, rest)) :
    ∃ b, body = b ++ ['"'] ∧ isBody b = true ∧ s = b ++ '"' :: rest := by
  induction s using stringToken.induct generalizing body with
  | case1 => cases h
  | case2 s =>
    rw [stringToken_quote] at h
    obtain ⟨rfl, rfl⟩ := Prod.mk.inj (Option.some.inj h)
    exact ⟨[], rfl, rfl, rfl⟩
  | case3 => cases h
  | case4 e s hne ih =>
    rw [stringToken_escape] at h
    obtain ⟨⟨body', rest'⟩, htoken, heq⟩ := Option.map_eq_some_iff.1 h
    obtain ⟨rfl, rfl⟩ := Prod.mk.inj heq
    obtain ⟨b, rfl, hb, rfl⟩ := ih htoken
    exact ⟨'\\' :: e :: b, rfl, hb, rfl⟩
  | case5 c s hquote hc ih =>
    rw [stringToken_cons hquote hc] at h
    obtain ⟨⟨body', rest'⟩, htoken, heq⟩ := Option.map_eq_some_iff.1 h
    obtain ⟨rfl, rfl⟩ := Prod.mk.inj heq
    obtain ⟨b, rfl, hb, rfl⟩ := ih htoken
    refine ⟨c :: b, rfl, ?_, rfl⟩
    rw [isBody_cons hc, hb]
    simp [hquote]

theorem toNat_lt_of_isControl {c : Char} (h : isControl c = true) : c.toNat < 32 := of_decide_eq_true h

/-- The escaped characters of a token are a token. -/
theorem escapeControls_body {b e : List Char} (hb : isBody b = true) (h : escapeControls (b ++ ['"']) = some e) :
    ∃ b', e = b' ++ ['"'] ∧ isBody b' = true ∧ escapeControls b = some b' := by
  induction b using isBody.induct generalizing e with
  | case1 =>
    obtain rfl := Option.some.inj (escapeControls_quote.symm.trans h)
    exact ⟨[], rfl, rfl, by unfold escapeControls; rfl⟩
  | case2 => cases hb
  | case3 c s ih =>
    rw [isBody_escape] at hb
    rw [List.cons_append, List.cons_append, escapeControls_escape] at h
    by_cases hcontrol : isControl c
    · rw [if_pos hcontrol] at h
      cases h
    · rw [if_neg hcontrol] at h
      obtain ⟨e', he', rfl⟩ := Option.map_eq_some_iff.1 h
      obtain ⟨b', rfl, hb', hescape⟩ := ih hb he'
      refine ⟨'\\' :: c :: b', rfl, hb', ?_⟩
      rw [escapeControls_escape, if_neg hcontrol, hescape]
      rfl
  | case4 c s hc ih =>
    rw [isBody_cons hc, Bool.and_eq_true] at hb
    rw [List.cons_append, escapeControls_cons hc] at h
    obtain ⟨e', he', rfl⟩ := Option.map_eq_some_iff.1 h
    obtain ⟨b', rfl, hb', hescape⟩ := ih hb.2 he'
    refine ⟨(if isControl c then escapeUnit c.toNat else [c]) ++ b', (List.append_assoc _ _ _).symm, ?_, ?_⟩
    · by_cases hcontrol : isControl c
      · have hlow := toNat_lt_of_isControl hcontrol
        rw [if_pos hcontrol, isBody_escapeUnit (by omega), hb']
      · rw [if_neg hcontrol, List.singleton_append, isBody_cons hc, hb', Bool.and_true]
        exact hb.1
    · rw [escapeControls_cons hc, hescape]
      rfl

/-! ### The scan -/

/-- A text and what the scan behind a key makes of it. -/
inductive Scanned : Option (List Point) → List Char → List Char → Prop where
  | nil (key : Option (List Point)) : Scanned key [] []
  | char {key : Option (List Point)} {c : Char} {s t : List Char} (h : c = '"' → stringToken s = none)
      (hs : Scanned key s t) : Scanned key (c :: s) (c :: t)
  | key {key : Option (List Point)} {k : List Point} {b s t : List Char} (hb : isBody b = true)
      (hcolon : (skipSpace s).head? = some ':') (hk : textOf b = some k) (hs : Scanned (some k) s t) :
      Scanned key ('"' :: (b ++ '"' :: s)) ('"' :: (b ++ '"' :: t))
  | plain {key : Option (List Point)} {b s t : List Char} (hb : isBody b = true)
      (hcolon : (skipSpace s).head? ≠ some ':') (hplain : ∀ c ∈ b, isControl c = false) (hs : Scanned key s t) :
      Scanned key ('"' :: (b ++ '"' :: s)) ('"' :: (b ++ '"' :: t))
  | title {key : Option (List Point)} {b b' s t : List Char} (hb : isBody b = true) (hb' : isBody b' = true)
      (hcolon : (skipSpace s).head? ≠ some ':') (hkey : key = some (titleKey.map .char)) (hescape : escapeControls b = some b')
      (hs : Scanned key s t) : Scanned key ('"' :: (b ++ '"' :: s)) ('"' :: (b' ++ '"' :: t))

theorem append_quote (b t : List Char) : b ++ ['"'] ++ t = b ++ '"' :: t := by simp

theorem scanned_of_escape {n : ℕ} {key : Option (List Point)} {s t : List Char} {repaired : Bool}
    (h : escapeNativeTitleControls n key s = some (t, repaired)) : Scanned key s t := by
  induction n generalizing key s t repaired with
  | zero => cases h
  | succ n ih =>
    cases s with
    | nil =>
      obtain ⟨rfl, -⟩ := Prod.mk.inj (Option.some.inj h)
      exact .nil key
    | cons c s =>
      rw [escapeNativeTitleControls] at h
      cases htoken : if c = '"' then stringToken s else none with
      | none =>
        rw [htoken] at h
        obtain ⟨⟨t', repaired'⟩, hrest, heq⟩ := Option.map_eq_some_iff.1 h
        obtain ⟨rfl, -⟩ := Prod.mk.inj heq
        refine .char (fun hc => ?_) (ih hrest)
        rwa [if_pos hc] at htoken
      | some token =>
        rw [htoken] at h
        by_cases hc : c = '"'
        · rw [if_pos hc] at htoken
          subst hc
          obtain ⟨b, hbody, hb, rfl⟩ := stringToken_spec htoken
          dsimp only at h
          rw [hbody] at h
          by_cases hcolon : (skipSpace token.2).head? = some ':'
          · rw [if_pos hcolon] at h
            cases hloads : loads ('"' :: (b ++ ['"'])) with
            | none =>
              rw [hloads] at h
              cases h
            | some j =>
              rw [hloads] at h
              cases j with
              | str k =>
                obtain ⟨⟨t', repaired'⟩, hrest, heq⟩ := Option.map_eq_some_iff.1 h
                obtain ⟨rfl, -⟩ := Prod.mk.inj heq
                rw [append_quote]
                exact .key hb hcolon (by rw [textOf, hloads]) (ih hrest)
              | _ => cases h
          · rw [if_neg hcolon] at h
            by_cases hplain : (b ++ ['"']).any isControl
            · rw [if_neg (by simp [hplain])] at h
              by_cases hkey : key = some (titleKey.map .char)
              · rw [if_pos hkey] at h
                obtain ⟨e, he, h⟩ := Option.bind_eq_some_iff.1 h
                obtain ⟨b', rfl, hb', hescape⟩ := escapeControls_body hb he
                obtain ⟨⟨t', repaired'⟩, hrest, heq⟩ := Option.map_eq_some_iff.1 h
                obtain ⟨rfl, -⟩ := Prod.mk.inj heq
                rw [append_quote]
                exact .title hb hb' hcolon hkey hescape (ih hrest)
              · rw [if_neg hkey] at h
                cases h
            · have hfalse : (b ++ ['"']).any isControl = false := by simpa using hplain
              rw [hfalse, if_pos (by decide)] at h
              obtain ⟨⟨t', repaired'⟩, hrest, heq⟩ := Option.map_eq_some_iff.1 h
              obtain ⟨rfl, -⟩ := Prod.mk.inj heq
              rw [append_quote]
              refine .plain hb hcolon (fun c hc => ?_) (ih hrest)
              exact Bool.eq_false_iff.2 fun hcontrol => hplain (List.any_eq_true.2 ⟨c, List.mem_append_left _ hc, hcontrol⟩)
        · rw [if_neg hc] at htoken
          cases htoken

/-- A scan leaves the characters outside strings. -/
theorem Scanned.cons {key : Option (List Point)} {c : Char} {s t : List Char} (hc : c ≠ '"')
    (h : Scanned key s (c :: t)) : ∃ s', s = c :: s' ∧ Scanned key s' t := by
  cases h with
  | char _ hs => exact ⟨_, rfl, hs⟩
  | key => exact absurd rfl hc
  | plain => exact absurd rfl hc
  | title => exact absurd rfl hc

theorem ne_quote_of_isSpace {c : Char} (h : isSpace c = true) : c ≠ '"' := by
  rintro rfl
  cases h

theorem Scanned.blank {key : Option (List Point)} {g s t : List Char} (hg : Blank g) (h : Scanned key s (g ++ t)) :
    ∃ s', s = g ++ s' ∧ Scanned key s' t := by
  induction g generalizing s with
  | nil => exact ⟨s, rfl, h⟩
  | cons c g ih =>
    obtain ⟨hc, hrest⟩ := List.forall_mem_cons.1 hg
    obtain ⟨s', rfl, hs'⟩ := Scanned.cons (ne_quote_of_isSpace hc) h
    obtain ⟨s'', rfl, hs''⟩ := ih hrest hs'
    exact ⟨s'', rfl, hs''⟩

theorem Scanned.eq_nil {key : Option (List Point)} {s : List Char} (h : Scanned key s []) : s = [] := by
  cases h
  rfl

/-- Where no string ends, a scan changes nothing. -/
theorem Scanned.eq_of_stringToken {key : Option (List Point)} {s t : List Char} (h : stringToken s = none)
    (hs : Scanned key s t) : t = s := by
  induction s using stringToken.induct generalizing t with
  | case1 =>
    cases hs
    rfl
  | case2 s =>
    rw [stringToken_quote] at h
    cases h
  | case3 =>
    cases hs with
    | char _ hs =>
      cases hs
      rfl
  | case4 e s hne ih =>
    rw [stringToken_escape, Option.map_eq_none_iff] at h
    cases hs with
    | char _ hs =>
      cases hs with
      | char _ hs => rw [ih h hs]
      | key hb => exact absurd h (by rw [stringToken_body hb]; simp)
      | plain hb => exact absurd h (by rw [stringToken_body hb]; simp)
      | title hb => exact absurd h (by rw [stringToken_body hb]; simp)
  | case5 c s hquote hc ih =>
    rw [stringToken_cons hquote hc, Option.map_eq_none_iff] at h
    cases hs with
    | char _ hs => rw [ih h hs]
    | key => exact absurd rfl hquote
    | plain => exact absurd rfl hquote
    | title => exact absurd rfl hquote

/-- What the scan makes of a string. -/
theorem Scanned.string {key : Option (List Point)} {b s t : List Char} (hb : isBody b = true)
    (h : Scanned key s ('"' :: (b ++ '"' :: t))) :
    ∃ b₀ s', s = '"' :: (b₀ ++ '"' :: s') ∧ isBody b₀ = true ∧
      ((skipSpace s').head? = some ':' ∧ b₀ = b ∧ (∃ k, textOf b = some k ∧ Scanned (some k) s' t) ∨
        (skipSpace s').head? ≠ some ':' ∧ Scanned key s' t ∧
          (b₀ = b ∧ (∀ c ∈ b, isControl c = false) ∨
            key = some (titleKey.map .char) ∧ escapeControls b₀ = some b)) := by
  generalize hu : '"' :: (b ++ '"' :: t) = u at h
  cases h with
  | nil => cases hu
  | char hnone hs =>
    obtain ⟨rfl, rfl⟩ := List.cons.inj hu
    have hnone := hnone rfl
    have heq := Scanned.eq_of_stringToken hnone hs
    rw [← heq, stringToken_body hb] at hnone
    cases hnone
  | key hb' hcolon hk hs =>
    obtain ⟨-, hrest⟩ := List.cons.inj hu
    obtain ⟨rfl, rfl⟩ := eq_of_isBody hb hb' hrest
    exact ⟨_, _, rfl, hb, .inl ⟨hcolon, rfl, _, hk, hs⟩⟩
  | plain hb' hcolon hplain hs =>
    obtain ⟨-, hrest⟩ := List.cons.inj hu
    obtain ⟨rfl, rfl⟩ := eq_of_isBody hb hb' hrest
    exact ⟨_, _, rfl, hb, .inr ⟨hcolon, hs, .inl ⟨rfl, hplain⟩⟩⟩
  | title hb₀ hb' hcolon hkey hescape hs =>
    obtain ⟨-, hrest⟩ := List.cons.inj hu
    obtain ⟨rfl, rfl⟩ := eq_of_isBody hb hb' hrest
    exact ⟨_, _, rfl, hb₀, .inr ⟨hcolon, hs, .inr ⟨hkey, hescape⟩⟩⟩

/-! ### The members of a scanned text -/

/-- A member before its literal characters are escaped. -/
structure Repaired (m₀ m : Spelling) : Prop where
  key : m₀.1 = m.1
  value : (m₀.2 = m.2 ∧ ∀ c ∈ m.2, isControl c = false) ∨
    textOf m₀.1 = some (titleKey.map .char) ∧ escapeControls m₀.2 = some m.2

theorem skipSpace_blank {g : List Char} (hg : Blank g) {c : Char} (hc : isSpace c = false) (s : List Char) :
    skipSpace (g ++ c :: s) = c :: s := by
  rw [skipSpace, List.dropWhile_append_of_pos hg]
  exact skipSpace_cons hc s

/-- A member is followed by a comma or the brace. -/
theorem head_spellsTail {s : List Char} {raw : List Spelling} (h : SpellsTail s raw) :
    ∃ g c s', s = g ++ c :: s' ∧ Blank g ∧ (c = '}' ∨ c = ',') := by
  cases h with
  | close hg _ => exact ⟨_, _, _, rfl, hg, .inl rfl⟩
  | more hg _ _ => exact ⟨_, _, _, rfl, hg, .inr rfl⟩

theorem Scanned.member {key : Option (List Point)} {text s t : List Char} {m : Spelling} {raw : List Spelling}
    (hm : SpellsMember text m) (ht : SpellsTail t raw) (h : Scanned key s (text ++ t)) :
    ∃ text₀ m₀ s', s = text₀ ++ s' ∧ SpellsMember text₀ m₀ ∧ Repaired m₀ m ∧ (m₀ = m → text₀ = text) ∧
      ∃ key', Scanned key' s' t := by
  obtain ⟨g, g', g'', hg, hg', hg'', rfl⟩ := hm.text
  simp only [List.append_assoc, List.cons_append, List.nil_append] at h
  obtain ⟨s₁, rfl, h₁⟩ := Scanned.blank hg h
  obtain ⟨b₀, s₂, rfl, hb₀, hkey⟩ := Scanned.string hm.key h₁
  obtain ⟨hcolon, rfl, k, hk, h₂⟩ | ⟨hcolon, h₂, -⟩ := hkey
  · obtain ⟨s₃, rfl, h₃⟩ := Scanned.blank hg' h₂
    obtain ⟨s₄, rfl, h₄⟩ := Scanned.cons (by decide) h₃
    obtain ⟨s₅, rfl, h₅⟩ := Scanned.blank hg'' h₄
    obtain ⟨b₁, s₆, rfl, hb₁, hvalue⟩ := Scanned.string hm.value h₅
    obtain ⟨gt, c, t', rfl, hgt, hc⟩ := head_spellsTail ht
    have hend : ∀ {key : Option (List Point)}, Scanned key s₆ (gt ++ c :: t') → (skipSpace s₆).head? = some c := by
      intro key hs
      obtain ⟨s₇, rfl, h₇⟩ := Scanned.blank hgt hs
      have hne : c ≠ '"' := by obtain rfl | rfl := hc <;> decide
      obtain ⟨s₈, rfl, -⟩ := Scanned.cons hne h₇
      have hspace : isSpace c = false := by obtain rfl | rfl := hc <;> decide
      rw [skipSpace_blank hgt hspace]
      rfl
    have hcolon' : c ≠ ':' := by obtain rfl | rfl := hc <;> decide
    obtain ⟨hcolon₁, rfl, k', hk', h₆⟩ | ⟨-, h₆, hvalue⟩ := hvalue
    · -- a value is no key: what follows it is no colon
      exact absurd (Option.some.inj ((hend h₆).symm.trans hcolon₁)) hcolon'
    · refine ⟨g ++ '"' :: (m.1 ++ '"' :: (g' ++ ':' :: (g'' ++ '"' :: (b₁ ++ ['"'])))), (m.1, b₁), s₆, by simp,
        ⟨hb₀, hb₁, g, g', g'', hg, hg', hg'', rfl⟩, ⟨rfl, ?_⟩, fun heq => ?_, some k, h₆⟩
      · obtain hplain | ⟨htitle, hescape⟩ := hvalue
        · exact .inl hplain
        · exact .inr ⟨hk.trans htitle, hescape⟩
      · rw [← heq]
  · -- a key is followed by a colon
    obtain ⟨s₃, rfl, h₃⟩ := Scanned.blank hg' h₂
    obtain ⟨s₄, rfl, -⟩ := Scanned.cons (by decide) h₃
    rw [skipSpace_blank hg' (by decide)] at hcolon
    exact absurd rfl hcolon

theorem Scanned.tail {key : Option (List Point)} {s t : List Char} {raw : List Spelling} (ht : SpellsTail t raw)
    (h : Scanned key s t) : ∃ raw₀, SpellsTail s raw₀ ∧ List.Forall₂ Repaired raw₀ raw ∧ (raw₀ = raw → s = t) := by
  induction ht generalizing key s with
  | @close g g' hg hg' =>
    obtain ⟨s₁, rfl, h₁⟩ := Scanned.blank hg h
    obtain ⟨s₂, rfl, h₂⟩ := Scanned.cons (by decide) h₁
    have h₂' : Scanned key s₂ (g' ++ []) := by
      rw [List.append_nil]
      exact h₂
    obtain ⟨s₃, rfl, h₃⟩ := Scanned.blank hg' h₂'
    rw [Scanned.eq_nil h₃, List.append_nil]
    exact ⟨[], .close hg hg', .nil, fun _ => rfl⟩
  | more hg hm hs ih =>
    obtain ⟨s₁, rfl, h₁⟩ := Scanned.blank hg h
    obtain ⟨s₂, rfl, h₂⟩ := Scanned.cons (by decide) h₁
    obtain ⟨text₀, m₀, s₃, rfl, hm₀, hrepaired, htext, key', h₃⟩ := Scanned.member hm hs h₂
    obtain ⟨raw₀, hraw₀, hall, hsame⟩ := ih h₃
    refine ⟨m₀ :: raw₀, .more hg hm₀ hraw₀, .cons hrepaired hall, fun heq => ?_⟩
    obtain ⟨hm, hraw⟩ := List.cons.inj heq
    rw [htext hm, hsame hraw]

/-- **A scanned text is spelled as its scan is**, but for the title's literal characters. -/
theorem Scanned.spells {key : Option (List Point)} {s t : List Char} {raw : List Spelling} (ht : Spells t raw)
    (h : Scanned key s t) : ∃ raw₀, Spells s raw₀ ∧ List.Forall₂ Repaired raw₀ raw ∧ (raw₀ = raw → s = t) := by
  cases ht with
  | empty hg hs =>
    obtain ⟨s₁, rfl, h₁⟩ := Scanned.blank hg h
    obtain ⟨s₂, rfl, h₂⟩ := Scanned.cons (by decide) h₁
    obtain ⟨raw₀, hraw₀, hall, hsame⟩ := Scanned.tail hs h₂
    obtain rfl := List.forall₂_nil_right_iff.1 hall
    exact ⟨[], .empty hg hraw₀, .nil, fun _ => by rw [hsame rfl]⟩
  | members hg hm hs =>
    obtain ⟨s₁, rfl, h₁⟩ := Scanned.blank hg h
    obtain ⟨s₂, rfl, h₂⟩ := Scanned.cons (by decide) h₁
    obtain ⟨text₀, m₀, s₃, rfl, hm₀, hrepaired, htext, key', h₃⟩ := Scanned.member hm hs h₂
    obtain ⟨raw₀, hraw₀, hall, hsame⟩ := Scanned.tail hs h₃
    refine ⟨m₀ :: raw₀, .members hg hm₀ hraw₀, .cons hrepaired hall, fun heq => ?_⟩
    obtain ⟨hm, hraw⟩ := List.cons.inj heq
    rw [htext hm, hsame hraw]

/-! ### The repair is narrow -/

/-- What a member of a text that is repaired stands for: its value may hold literal control characters, in a title. -/
structure StandsFor (m : Spelling) (e : List Point × List Point) : Prop where
  key : textOf m.1 = some e.1
  keyPlain : ∀ c ∈ m.1, isControl c = false
  value : (∀ c ∈ m.2, isControl c = false) ∧ textOf m.2 = some e.2 ∨
    e.1 = titleKey.map .char ∧ (escapeControls m.2).bind textOf = some e.2

theorem standsFor_of_repaired {m₀ m : Spelling} {e : List Point × List Point} (h : Repaired m₀ m) (he : ReadsAs m e) :
    StandsFor m₀ e := by
  have hplain : ∀ {s : List Char}, (∀ c ∈ s, 32 ≤ c.toNat) → ∀ c ∈ s, isControl c = false := fun hs c hc =>
    decide_eq_false (Nat.not_lt.2 (hs c hc))
  refine ⟨h.key ▸ he.key, h.key ▸ hplain he.keyPlain, ?_⟩
  obtain ⟨heq, -⟩ | ⟨htitle, hescape⟩ := h.value
  · exact .inl (heq ▸ ⟨hplain he.valuePlain, he.value⟩)
  · refine .inr ⟨Option.some.inj ((h.key ▸ he.key).symm.trans htitle), ?_⟩
    rw [hescape]
    exact he.value

theorem eq_map_of_textMembers {members : List (List Point × Json Point)} {d : Fields Point}
    (h : textMembers members = some d) : members = d.map fun e => (e.1, .str e.2) := by
  induction members generalizing d with
  | nil =>
    obtain rfl := Option.some.inj h
    rfl
  | cons m members ih =>
    rw [textMembers, List.mapM_cons] at h
    obtain ⟨e, he, h⟩ := Option.bind_eq_some_iff.1 h
    obtain ⟨d', hd', h⟩ := Option.bind_eq_some_iff.1 h
    obtain rfl := Option.some.inj h
    obtain ⟨key, j⟩ := m
    cases j with
    | str value =>
      obtain rfl := Option.some.inj he
      rw [ih hd', List.map_cons]
    | _ => cases he

theorem forall₂_standsFor {raw₀ raw : List Spelling} {d : Fields Point} (h : List.Forall₂ Repaired raw₀ raw)
    (hd : List.Forall₂ ReadsAs raw d) : List.Forall₂ StandsFor raw₀ d := by
  induction h generalizing d with
  | nil =>
    cases hd
    exact .nil
  | cons hm hrest ih =>
    cases hd with
    | cons he hd => exact .cons (standsFor_of_repaired hm he) (ih hd)

/-- Where nothing is a title, nothing was escaped. -/
theorem eq_of_repaired {raw₀ raw : List Spelling} (h : List.Forall₂ Repaired raw₀ raw)
    (hno : ∀ m ∈ raw₀, textOf m.1 ≠ some (titleKey.map .char)) : raw₀ = raw := by
  induction h with
  | nil => rfl
  | @cons m₀ m _ _ hm hrest ih =>
    obtain ⟨hm₀, hno⟩ := List.forall_mem_cons.1 hno
    have hvalue : m₀.2 = m.2 := (hm.value.resolve_right fun htitle => hm₀ htitle.1).1
    rw [ih hno, Prod.ext hm.key hvalue]

theorem exists_of_forall₂ {raw : List Spelling} {d : Fields Point} (h : List.Forall₂ StandsFor raw d) {m : Spelling}
    (hm : m ∈ raw) : ∃ e ∈ d, StandsFor m e := by
  induction h with
  | nil => exact absurd hm List.not_mem_nil
  | cons he _ ih =>
    obtain rfl | hm := List.mem_cons.1 hm
    · exact ⟨_, List.mem_cons_self, he⟩
    · obtain ⟨e, hmem, hstands⟩ := ih hm
      exact ⟨e, List.mem_cons_of_mem _ hmem, hstands⟩

/-- What the `url` field of fields that agree with it decodes to. -/
theorem decode_mirror {d : Fields Point} (hnodup : (d.map Prod.fst).Nodup) (hagrees : mirrorAgrees d = true)
    (hne : withoutUrl d ≠ []) :
    ∃ mirror d', Dict.get? d (urlKey.map .char) = some (mirror.map .char) ∧
      decodeExtraData (some mirror) = some (d', true) ∧ d'.Perm (withoutUrl d) := by
  unfold mirrorAgrees at hagrees
  cases he : charFields d with
  | none =>
    rw [urlForm, he] at hagrees
    cases hagrees
  | some e =>
    obtain ⟨hnodup', hfilter⟩ := nodup_charFields hnodup he
    have hpoints := points_of_charFields he
    have hsorted : sortedFields e ≠ [] := by
      intro hnil
      rw [sortedFields, hfilter, Ranking.sortBy_eq_nil_iff] at hnil
      rw [hpoints, hnil] at hne
      exact hne rfl
    refine ⟨toUrlForm e, Fields.points (sortedFields e), ?_, decode_encodeChars_url hnodup' hsorted, ?_⟩
    · rw [urlForm, he] at hagrees
      cases hloads : (encodeExtraData d false).bind loads with
      | none =>
        rw [hloads] at hagrees
        cases hagrees
      | some j =>
        rw [hloads] at hagrees
        exact of_decide_eq_true (Bool.and_eq_true_iff.1 hagrees).1
    · rw [hpoints, sortedFields, hfilter]
      exact points_perm (Ranking.sortBy_perm _ _)

/-- **The repair is narrow**: of a text that is no JSON and is read, each string is a key or a value, control characters are
in the title's value alone, and the fields are what the `url` field decodes to. -/
theorem repaired_spec {extra : List Char} {d : Fields Point} (hextra : loads extra = none) (hne : extra ≠ [])
    (h : decodeExtraData (some extra) = some (d, false)) :
    ∃ raw, Spells extra raw ∧ List.Forall₂ StandsFor raw d ∧
      ∃ mirror d', Dict.get? d (urlKey.map .char) = some (mirror.map .char) ∧
        decodeExtraData (some mirror) = some (d', true) ∧ d'.Perm (withoutUrl d) := by
  obtain ⟨c, s, rfl⟩ := List.exists_cons_of_ne_nil hne
  rw [decodeExtraData] at h
  by_cases hc : c = '{'
  · rw [if_pos hc] at h
    obtain ⟨d', hread, heq⟩ := Option.map_eq_some_iff.1 h
    obtain ⟨rfl, -⟩ := Prod.mk.inj heq
    rw [readJson, hextra] at hread
    obtain ⟨⟨t, repaired⟩, hescaped, hread⟩ := Option.bind_eq_some_iff.1 hread
    obtain ⟨hscan, -⟩ := Option.filter_eq_some_iff.1 hescaped
    obtain ⟨hread, hagrees⟩ := Option.filter_eq_some_iff.1 hread
    obtain ⟨j, hloads, hfields⟩ := Option.bind_eq_some_iff.1 hread
    obtain ⟨members, rfl, hmembers, hnodup⟩ := textFields_spec hfields
    obtain rfl := eq_map_of_textMembers hmembers
    obtain ⟨raw, hspells, hreads⟩ := spells_of_loads hloads
    obtain ⟨raw₀, hspells₀, hrepaired, hsame⟩ := Scanned.spells hspells (scanned_of_escape hscan)
    have hstands := forall₂_standsFor hrepaired hreads
    refine ⟨raw₀, hspells₀, hstands, decode_mirror hnodup (Bool.and_eq_true_iff.1 hagrees).2 ?_⟩
    -- a title is among the fields: without one the text would be JSON
    by_cases hno : ∀ m ∈ raw₀, textOf m.1 ≠ some (titleKey.map .char)
    · have heq := hsame (eq_of_repaired hrepaired hno)
      rw [heq] at hextra
      exact absurd (hextra.symm.trans hloads) (by simp)
    · push Not at hno
      obtain ⟨m, hm, htitle⟩ := hno
      obtain ⟨e, he, hstandsFor⟩ := exists_of_forall₂ hstands hm
      have hkey : e.1 = titleKey.map .char := Option.some.inj (hstandsFor.key.symm.trans htitle)
      refine List.ne_nil_of_mem (a := e) (List.mem_filter.2 ⟨he, decide_eq_true ?_⟩)
      rw [hkey]
      decide
  · rw [if_neg hc] at h
    obtain ⟨e, -, heq⟩ := Option.map_eq_some_iff.1 h
    cases heq

end MediaPreview.Plex
