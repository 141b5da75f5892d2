import MediaPreview.Plex.TitleControls

/-!
# Titles with literal control characters

The text `encode_extra_data` writes of fields, with some of the control characters of `ma:title` as they are
(`literalTitle`). The repair of `decode_extra_data` reads it as the text itself (`decode_literalTitle`).
-/

namespace MediaPreview.Plex

open Json

/-! ### The text with literal characters -/

/-- A member's text. -/
def memberText (body : List Char × List Char → List Char) (e : List Char × List Char) : List Char :=
  '"' :: (e.1.flatMap (escape false) ++ '"' :: ':' :: '"' :: (body e ++ ['"']))

/-- The other members' text. -/
def membersText (body : List Char × List Char → List Char) : Fields Char → List Char
  | [] => ['}']
  | e :: d => ',' :: (memberText body e ++ membersText body d)

/-- The text of an object of texts, by what is between the quotes of the values. -/
def objectText (body : List Char × List Char → List Char) : Fields Char → List Char
  | [] => ['{', '}']
  | e :: d => '{' :: (memberText body e ++ membersText body d)

/-- A control character of a title, at one of some positions. -/
def Chosen (literal : ℕ → Bool) (e : List Char × List Char) (p : Char × ℕ) : Prop :=
  (e.1 = titleKey ∧ isControl p.1 = true) ∧ literal p.2 = true

instance (literal : ℕ → Bool) (e : List Char × List Char) (p : Char × ℕ) : Decidable (Chosen literal e p) :=
  inferInstanceAs (Decidable (_ ∧ _))

/-- What is between the quotes of a value, where the control characters of a title at some positions are written in another
way. -/
def fieldBody (write : Char → List Char) (literal : ℕ → Bool) (e : List Char × List Char) : List Char :=
  e.2.zipIdx.flatMap fun p => if Chosen literal e p then write p.1 else escape false p.1

/-- `encode_extra_data`, with some of the title's control characters as they are. -/
def literalTitle (d : Fields Char) (literal : ℕ → Bool) : List Char :=
  objectText (fieldBody (fun c => [c]) literal) (mirrored d)

theorem dumpsMembers_eq (d : Fields Char) : dumpsMembers .compact (d.map fun e => (e.1, .str e.2)) =
    membersText (fun e => e.2.flatMap (escape false)) d := by
  induction d with
  | nil => rfl
  | cons e d ih =>
    rw [List.map_cons, dumpsMembers, ih, membersText, memberText, dumps, quoted, quoted]
    simp [Layout.compact]

theorem dumps_eq (d : Fields Char) : dumps .compact (.obj (d.map fun e => (e.1, .str e.2))) =
    objectText (fun e => e.2.flatMap (escape false)) d := by
  cases d with
  | nil => rfl
  | cons e d =>
    rw [List.map_cons, dumps, dumpsMembers_eq, objectText, memberText, dumps, quoted, quoted]
    simp [Layout.compact]

/-- Without literal characters a value is written as it always is. -/
theorem fieldBody_false (write : Char → List Char) :
    (fieldBody write fun _ => false) = fun e => e.2.flatMap (escape false) := by
  funext e
  have hzip : ∀ (s : List Char) (n : ℕ), (s.zipIdx n).flatMap (fun p => escape false p.1) = s.flatMap (escape false) := by
    intro s
    induction s with
    | nil => exact fun n => rfl
    | cons c s ih =>
      intro n
      rw [List.zipIdx_cons, List.flatMap_cons, List.flatMap_cons, ih]
  simp [fieldBody, Chosen, hzip]

theorem literalTitle_false (d : Fields Char) : literalTitle d (fun _ => false) = encodeChars d false := by
  rw [literalTitle, fieldBody_false, ← dumps_eq]
  rfl

/-! ### It is no JSON -/

/-- A member that is read has no control character in its value, and ends where it does. -/
theorem of_member {body : List Char × List Char → List Char} {e : List Char × List Char} (hb : isBody (body e) = true) {n : ℕ}
    {rest t : List Char} {p : List Point × Json Point} (h : member n (memberText body e ++ rest) = some (p, t)) :
    t = rest ∧ ∀ c ∈ body e, 32 ≤ c.toNat := by
  cases n with
  | zero => cases h
  | succ n =>
    have htext : memberText body e ++ rest =
        '"' :: (e.1.flatMap (escape false) ++ '"' :: ':' :: '"' :: (body e ++ '"' :: rest)) := by simp [memberText]
    rw [htext, member, if_pos rfl] at h
    obtain ⟨⟨key, r⟩, hkey, h⟩ := Option.bind_eq_some_iff.1 h
    obtain ⟨b, heq, hbody, -⟩ := readString_spec hkey
    obtain ⟨-, rfl⟩ := eq_of_isBody (isBody_flatMap_escape false e.1) hbody heq
    have hcolon : skipSpace (':' :: '"' :: (body e ++ '"' :: rest)) = ':' :: '"' :: (body e ++ '"' :: rest) :=
      skipSpace_cons (by decide) _
    dsimp only at h
    rw [hcolon] at h
    dsimp only at h
    rw [if_pos rfl, skipSpace_cons (by decide)] at h
    obtain ⟨⟨j, r⟩, hvalue, heq⟩ := Option.map_eq_some_iff.1 h
    obtain ⟨-, rfl⟩ := Prod.mk.inj heq
    cases n with
    | zero => cases hvalue
    | succ n =>
      obtain ⟨-, x, -, hstring⟩ | ⟨hbrace, -⟩ | ⟨hne, -⟩ := value_cases hvalue
      · obtain ⟨b', heq', hbody', hplain, -⟩ := readString_spec hstring
        obtain ⟨rfl, rfl⟩ := eq_of_isBody hb hbody' heq'
        exact ⟨rfl, hplain⟩
      · exact absurd hbrace (by decide)
      · exact absurd rfl hne

theorem of_membersTail {body : List Char × List Char → List Char} (hb : ∀ e, isBody (body e) = true) {n : ℕ} {d : Fields Char}
    {p : List (List Point × Json Point)} {t : List Char} (h : membersTail n (membersText body d) = some (p, t)) :
    ∀ e ∈ d, ∀ c ∈ body e, 32 ≤ c.toNat := by
  induction d generalizing n p with
  | nil => exact fun e he => absurd he List.not_mem_nil
  | cons e d ih =>
    cases n with
    | zero => cases h
    | succ n =>
      have hcomma : skipSpace (membersText body (e :: d)) = ',' :: (memberText body e ++ membersText body d) :=
        skipSpace_cons (by decide) _
      have hquote : skipSpace (memberText body e ++ membersText body d) = memberText body e ++ membersText body d :=
        skipSpace_cons (by decide) _
      rw [membersTail, hcomma] at h
      dsimp only at h
      rw [if_neg (by decide), if_pos rfl, hquote] at h
      obtain ⟨⟨m, r⟩, hmember, h⟩ := Option.bind_eq_some_iff.1 h
      obtain ⟨⟨members, r'⟩, hmembers, heq⟩ := Option.map_eq_some_iff.1 h
      obtain ⟨-, rfl⟩ := Prod.mk.inj heq
      obtain ⟨rfl, hplain⟩ := of_member (hb e) hmember
      have hrest : membersTail n (membersText body d) = some (members, r') := hmembers
      exact List.forall_mem_cons.2 ⟨hplain, ih hrest⟩

/-- A text with a literal control character in a value is no JSON. -/
theorem loads_objectText {body : List Char × List Char → List Char} (hb : ∀ e, isBody (body e) = true) {d : Fields Char}
    {e : List Char × List Char} {c : Char} (he : e ∈ d) (hc : c ∈ body e) (hcontrol : isControl c = true) :
    loads (objectText body d) = none := by
  by_contra hne
  obtain ⟨j, hj⟩ := Option.ne_none_iff_exists'.1 hne
  obtain ⟨⟨j', r⟩, hvalue, -⟩ := Option.bind_eq_some_iff.1 hj
  have hlow := toNat_lt_of_isControl hcontrol
  obtain ⟨f, d, rfl⟩ := List.exists_cons_of_ne_nil (List.ne_nil_of_mem he)
  have hbrace : skipSpace (objectText body (f :: d)) = '{' :: (memberText body f ++ membersText body d) :=
    skipSpace_cons (by decide) _
  have hquote : skipSpace (memberText body f ++ membersText body d) = memberText body f ++ membersText body d :=
    skipSpace_cons (by decide) _
  rw [hbrace] at hvalue
  obtain ⟨hfalse, -⟩ | ⟨-, hobj⟩ | ⟨-, hne, -⟩ := value_cases hvalue
  · exact absurd hfalse (by decide)
  · rw [hquote] at hobj
    obtain ⟨hhead, -⟩ | ⟨m, t, members, -, hmember, hmembers⟩ := hobj
    · exact absurd (Option.some.inj hhead) (by decide)
    · obtain ⟨rfl, hplain⟩ := of_member (hb f) hmember
      have hall := List.forall_mem_cons.2 ⟨hplain, of_membersTail hb hmembers⟩
      have := hall e he c hc
      omega
  · exact absurd rfl hne

/-! ### It is repaired -/

theorem scan_char {n : ℕ} {key : Option (List Point)} {c : Char} (hc : c ≠ '"') (s : List Char) :
    escapeNativeTitleControls (n + 1) key (c :: s) =
      (escapeNativeTitleControls n key s).map fun p => (c :: p.1, p.2) := by
  rw [escapeNativeTitleControls, if_neg hc]

theorem scan_key {n : ℕ} {key : Option (List Point)} {k : List Point} {b s : List Char} (hb : isBody b = true)
    (hcolon : (skipSpace s).head? = some ':') (hk : textOf b = some k) :
    escapeNativeTitleControls (n + 1) key ('"' :: (b ++ '"' :: s)) =
      (escapeNativeTitleControls n (some k) s).map fun p => ('"' :: (b ++ '"' :: p.1), p.2) := by
  have hloads : loads ('"' :: (b ++ ['"'])) = some (.str k) := by
    unfold textOf at hk
    split at hk
    · rename_i hread
      rw [hread, Option.some.inj hk]
    · cases hk
  rw [escapeNativeTitleControls, if_pos rfl, stringToken_body hb]
  dsimp only
  rw [if_pos hcolon, hloads]
  simp only [append_quote]

theorem scan_plain {n : ℕ} {key : Option (List Point)} {b s : List Char} (hb : isBody b = true)
    (hcolon : (skipSpace s).head? ≠ some ':') (hplain : ∀ c ∈ b, isControl c = false) :
    escapeNativeTitleControls (n + 1) key ('"' :: (b ++ '"' :: s)) =
      (escapeNativeTitleControls n key s).map fun p => ('"' :: (b ++ '"' :: p.1), p.2) := by
  have hnone : (b ++ ['"']).any isControl = false := by
    rw [List.any_append, List.any_eq_false.2 fun c hc => Bool.eq_false_iff.1 (hplain c hc)]
    rfl
  rw [escapeNativeTitleControls, if_pos rfl, stringToken_body hb]
  dsimp only
  rw [if_neg hcolon, hnone, if_pos (by decide)]
  simp only [append_quote]

theorem scan_title {n : ℕ} {b b' s : List Char} {c : Char} (hb : isBody b = true)
    (hcolon : (skipSpace s).head? ≠ some ':') (hc : c ∈ b) (hcontrol : isControl c = true)
    (hescape : escapeControls (b ++ ['"']) = some (b' ++ ['"'])) :
    escapeNativeTitleControls (n + 1) (some (titleKey.map .char)) ('"' :: (b ++ '"' :: s)) =
      (escapeNativeTitleControls n (some (titleKey.map .char)) s).map fun p => ('"' :: (b' ++ '"' :: p.1), true) := by
  have hany : (b ++ ['"']).any isControl = true := List.any_eq_true.2 ⟨c, List.mem_append_left _ hc, hcontrol⟩
  rw [escapeNativeTitleControls, if_pos rfl, stringToken_body hb]
  dsimp only
  rw [if_neg hcolon, hany, if_neg (by decide), if_pos rfl, hescape]
  simp only [Option.bind_some, append_quote]

/-- What the scan makes of a value: nothing, or the escapes of a title. -/
structure Escaped (e : List Char × List Char) (b b' : List Char) : Prop where
  body : isBody b = true
  scanned : (b' = b ∧ ∀ c ∈ b, isControl c = false) ∨
    e.1 = titleKey ∧ (∃ c ∈ b, isControl c = true) ∧ escapeControls (b ++ ['"']) = some (b' ++ ['"'])

theorem scan_member {body body' : List Char × List Char → List Char} {e : List Char × List Char}
    (he : Escaped e (body e) (body' e)) {n : ℕ} {key : Option (List Point)} {s : List Char}
    (hs : (skipSpace s).head? ≠ some ':') :
    escapeNativeTitleControls (n + 3) key (memberText body e ++ s) =
      (escapeNativeTitleControls n (some (e.1.map .char)) s).map fun p =>
        (memberText body' e ++ p.1, p.2 || (body e).any isControl) := by
  have htext : ∀ (body : List Char × List Char → List Char) (s : List Char), memberText body e ++ s =
      '"' :: (e.1.flatMap (escape false) ++ '"' :: ':' :: '"' :: (body e ++ '"' :: s)) := fun body s => by simp [memberText]
  have hcolon : (skipSpace (':' :: '"' :: (body e ++ '"' :: s))).head? = some ':' := by
    rw [skipSpace_cons (by decide)]
    rfl
  rw [htext, scan_key (isBody_flatMap_escape false e.1) hcolon (textOf_flatMap_escape false e.1), scan_char (by decide)]
  obtain ⟨heq, hplain⟩ | ⟨htitle, ⟨c, hc, hcontrol⟩, hescape⟩ := he.scanned
  · have hnone : (body e).any isControl = false := List.any_eq_false.2 fun c hc => Bool.eq_false_iff.1 (hplain c hc)
    rw [scan_plain he.body hs hplain, hnone, Option.map_map, Option.map_map]
    refine congrArg (Option.map · _) (funext fun p => ?_)
    rw [htext, heq, Bool.or_false]
    rfl
  · have hany : (body e).any isControl = true := List.any_eq_true.2 ⟨c, hc, hcontrol⟩
    rw [htitle, scan_title he.body hs hc hcontrol hescape, hany, Option.map_map, Option.map_map]
    refine congrArg (Option.map · _) (funext fun p => ?_)
    rw [htext, htitle, Bool.or_true]
    rfl

theorem head_membersText {body : List Char × List Char → List Char} (d : Fields Char) :
    (skipSpace (membersText body d)).head? ≠ some ':' := by
  cases d with
  | nil =>
    rw [membersText, skipSpace_cons (by decide)]
    exact fun h => absurd (Option.some.inj h) (by decide)
  | cons e d =>
    rw [membersText, skipSpace_cons (by decide)]
    exact fun h => absurd (Option.some.inj h) (by decide)

theorem scan_members {body body' : List Char × List Char → List Char} {d : Fields Char}
    (hd : ∀ e ∈ d, Escaped e (body e) (body' e)) {n : ℕ} (hn : 4 * d.length + 1 < n) (key : Option (List Point)) :
    escapeNativeTitleControls n key (membersText body d) =
      some (membersText body' d, d.any fun e => (body e).any isControl) := by
  induction d generalizing n key with
  | nil =>
    obtain ⟨n, rfl⟩ := Nat.exists_eq_add_of_le' (show 2 ≤ n by omega)
    rw [membersText, scan_char (by decide), escapeNativeTitleControls]
    rfl
  | cons e d ih =>
    obtain ⟨he, hrest⟩ := List.forall_mem_cons.1 hd
    rw [List.length_cons] at hn
    obtain ⟨n, rfl⟩ := Nat.exists_eq_add_of_le' (show 4 ≤ n by omega)
    rw [membersText, scan_char (by decide), scan_member he (head_membersText d), ih hrest (by omega)]
    simp [membersText, Bool.or_comm]

/-- **The scan escapes the titles of a text.** -/
theorem scan_objectText {body body' : List Char × List Char → List Char} {d : Fields Char}
    (hd : ∀ e ∈ d, Escaped e (body e) (body' e)) (hne : d ≠ []) :
    escapeNativeTitleControls ((objectText body d).length + 1) none (objectText body d) =
      some (objectText body' d, d.any fun e => (body e).any isControl) := by
  obtain ⟨e, d, rfl⟩ := List.exists_cons_of_ne_nil hne
  obtain ⟨he, hrest⟩ := List.forall_mem_cons.1 hd
  have hlength : ∀ d : Fields Char, 6 * d.length + 1 ≤ (membersText body d).length := by
    intro d
    induction d with
    | nil => exact le_refl 1
    | cons e d ih =>
      simp only [membersText, memberText, List.length_cons, List.length_append, List.length_nil]
      omega
  have hlen := hlength d
  have htotal : (objectText body (e :: d)).length + 1 = (membersText body d).length + (memberText body e).length + 2 := by
    simp only [objectText, List.length_cons, List.length_append]
    omega
  have hmember : 5 ≤ (memberText body e).length := by
    simp only [memberText, List.length_cons, List.length_append, List.length_nil]
    omega
  obtain ⟨n, hn⟩ := Nat.exists_eq_add_of_le' (show 4 ≤ (objectText body (e :: d)).length + 1 by omega)
  rw [hn, objectText, scan_char (by decide), scan_member he (head_membersText d), scan_members hrest (by omega)]
  simp [objectText, Bool.or_comm]

/-- Escapes have nothing to be escaped. -/
theorem escapeControls_plain {p : List Char} (hp : isBody p = true) (hplain : ∀ c ∈ p, isControl c = false) (s : List Char) :
    escapeControls (p ++ s) = (escapeControls s).map (p ++ ·) := by
  induction p using isBody.induct with
  | case1 => simp
  | case2 => cases hp
  | case3 e p ih =>
    rw [isBody_escape] at hp
    obtain ⟨-, hrest⟩ := List.forall_mem_cons.1 hplain
    obtain ⟨he, hrest⟩ := List.forall_mem_cons.1 hrest
    rw [List.cons_append, List.cons_append, escapeControls_escape, he, if_neg Bool.false_ne_true, ih hp hrest, Option.map_map]
    rfl
  | case4 c p hc ih =>
    rw [isBody_cons hc, Bool.and_eq_true] at hp
    obtain ⟨hcontrol, hrest⟩ := List.forall_mem_cons.1 hplain
    rw [List.cons_append, escapeControls_cons hc, hcontrol, if_neg Bool.false_ne_true, ih hp.2 hrest, Option.map_map]
    rfl

theorem isBody_fieldBody {write : Char → List Char} (hwrite : ∀ c s, isControl c = true → isBody (write c ++ s) = isBody s)
    (literal : ℕ → Bool) (e : List Char × List Char) : isBody (fieldBody write literal e) = true := by
  unfold fieldBody
  generalize e.2.zipIdx = l
  induction l with
  | nil => rfl
  | cons p l ih =>
    rw [List.flatMap_cons]
    by_cases hp : Chosen literal e p
    · rw [if_pos hp, hwrite _ _ hp.1.2, ih]
    · rw [if_neg hp, isBody_escape_append, ih]

theorem ne_of_isControl {c : Char} (h : isControl c = true) : c ≠ '"' ∧ c ≠ '\\' := by
  constructor
  · rintro rfl
    cases h
  · rintro rfl
    cases h

theorem escaped_fieldBody (literal : ℕ → Bool) (e : List Char × List Char) :
    Escaped e (fieldBody (fun c => [c]) literal e) (fieldBody (fun c => escapeUnit c.toNat) literal e) := by
  refine ⟨isBody_fieldBody (fun c s hc => ?_) literal e, ?_⟩
  · rw [List.singleton_append, isBody_cons (ne_of_isControl hc).2]
    simp [(ne_of_isControl hc).1]
  · by_cases hchosen : ∃ p ∈ e.2.zipIdx, Chosen literal e p
    · obtain ⟨p, hp, hchoice⟩ := hchosen
      refine .inr ⟨hchoice.1.1, ⟨p.1, List.mem_flatMap.2 ⟨p, hp, ?_⟩, hchoice.1.2⟩, ?_⟩
      · rw [if_pos hchoice]
        exact List.mem_singleton_self p.1
      · unfold fieldBody
        generalize e.2.zipIdx = l
        induction l with
        | nil => exact escapeControls_quote
        | cons p l ih =>
          rw [List.flatMap_cons, List.flatMap_cons, List.append_assoc, List.append_assoc]
          by_cases hp : Chosen literal e p
          · rw [if_pos hp, if_pos hp, List.singleton_append, escapeControls_cons (ne_of_isControl hp.1.2).2, ih, if_pos hp.1.2]
            rfl
          · have hplain : ∀ c ∈ escape false p.1, isControl c = false := by
              intro c hc
              refine decide_eq_false (Nat.not_lt.2 (plain_flatMap_escape false [p.1] c ?_))
              rwa [List.flatMap_singleton]
            have hbody : isBody (escape false p.1) = true := by
              have happend := isBody_escape_append false p.1 []
              rwa [List.append_nil] at happend
            rw [if_neg hp, if_neg hp, escapeControls_plain hbody hplain, ih]
            rfl
    · have hwrite : ∀ write : Char → List Char, fieldBody write literal e = e.2.flatMap (escape false) := by
        intro write
        have hsame : fieldBody write literal e = fieldBody write (fun _ => false) e := by
          refine List.flatMap_congr fun p hp => ?_
          rw [if_neg fun hchoice => hchosen ⟨p, hp, hchoice⟩, if_neg fun hchoice => Bool.false_ne_true hchoice.2]
        rw [hsame, fieldBody_false]
      rw [hwrite, hwrite]
      exact .inl ⟨rfl, fun c hc => decide_eq_false (Nat.not_lt.2 (plain_flatMap_escape false e.2 c hc))⟩

/-- What is between the quotes of a value is read as the value. -/
def ReadsBack (body : List Char × List Char → List Char) (e : List Char × List Char) : Prop :=
  ∀ n t, e.2.length < n → readString n (body e ++ '"' :: t) = some (e.2.map .char, t)

theorem readsBack_fieldBody (literal : ℕ → Bool) (e : List Char × List Char) :
    ReadsBack (fieldBody (fun c => escapeUnit c.toNat) literal) e := by
  intro n t hn
  have hread : ∀ p ∈ e.2.zipIdx, ∀ s, readChar ((if Chosen literal e p then escapeUnit p.1.toNat else escape false p.1) ++ s) =
      some (some (.char p.1), s) := by
    intro p _ s
    by_cases hp : Chosen literal e p
    · have hlow := toNat_lt_of_isControl hp.1.2
      rw [if_pos hp, readChar_escapeUnit (by omega)]
    · rw [if_neg hp, readChar_escape]
  have hstring := readString_flatMap hread (show e.2.zipIdx.length < n by rwa [List.length_zipIdx]) t
  have hmap : (e.2.zipIdx.map fun p => Point.char p.1) = e.2.map .char := by
    have hfst := congrArg (List.map Point.char) (List.zipIdx_map_fst 0 e.2)
    rwa [List.map_map] at hfst
  rwa [hmap] at hstring

theorem length_le_of_readsBack {body : List Char × List Char → List Char} {e : List Char × List Char}
    (h : ReadsBack body e) (hb : isBody (body e) = true) : e.2.length ≤ (body e).length := by
  obtain ⟨b, heq, hb', -, hlength, -⟩ := readString_spec (h (e.2.length + 1) [] (Nat.lt_succ_self _))
  obtain ⟨rfl, -⟩ := eq_of_isBody hb hb' heq
  rwa [List.length_map] at hlength

section

variable {body : List Char × List Char → List Char}

theorem length_le_flatMap_escape (s : List Char) : s.length ≤ (s.flatMap (escape false)).length := by
  have hlt := length_lt_length_quoted .compact s
  simp only [quoted, List.length_cons, List.length_append, List.length_nil] at hlt
  exact Nat.le_of_succ_le_succ (Nat.le_of_succ_le_succ hlt)

theorem member_memberText {e : List Char × List Char} (h : ReadsBack body e) (hb : isBody (body e) = true) {n : ℕ}
    (hn : (memberText body e).length ≤ n) (rest : List Char) :
    member n (memberText body e ++ rest) = some ((e.1.map .char, .str (e.2.map .char)), rest) := by
  have htext : memberText body e ++ rest =
      '"' :: (e.1.flatMap (escape false) ++ '"' :: ':' :: '"' :: (body e ++ '"' :: rest)) := by simp [memberText]
  have hkey := length_le_flatMap_escape e.1
  have hvalue := length_le_of_readsBack h hb
  simp only [memberText, List.length_cons, List.length_append, List.length_nil] at hn
  obtain ⟨n, rfl⟩ := Nat.exists_eq_add_of_le' (show 2 ≤ n by omega)
  rw [htext, member, if_pos rfl, readString_escape false (by omega)]
  dsimp only [Option.bind_some]
  rw [skipSpace_cons (by decide)]
  dsimp only
  rw [if_pos rfl, skipSpace_cons (by decide)]
  show ((readString n (body e ++ '"' :: rest)).map fun p => (Json.str p.1, p.2)).map _ = _
  rw [h n rest (by omega)]
  rfl

theorem membersTail_membersText {d : Fields Char} (h : ∀ e ∈ d, ReadsBack body e ∧ isBody (body e) = true) {n : ℕ}
    (hn : (membersText body d).length ≤ n) :
    membersTail n (membersText body d) = some (pointsMembers (d.map fun e => (e.1, .str e.2)), []) := by
  induction d generalizing n with
  | nil =>
    obtain ⟨n, rfl⟩ := Nat.exists_eq_add_of_le' (show 1 ≤ n from hn)
    rw [membersTail, membersText, skipSpace_cons (by decide)]
    rfl
  | cons e d ih =>
    obtain ⟨⟨he, hb⟩, hrest⟩ := List.forall_mem_cons.1 h
    have hquote : skipSpace (memberText body e ++ membersText body d) = memberText body e ++ membersText body d :=
      skipSpace_cons (by decide) _
    simp only [membersText, List.length_cons, List.length_append] at hn
    obtain ⟨n, rfl⟩ := Nat.exists_eq_add_of_le' (show 1 ≤ n by omega)
    rw [membersTail, membersText, skipSpace_cons (by decide)]
    dsimp only
    rw [if_neg (by decide), if_pos rfl, hquote, member_memberText he hb (by omega)]
    dsimp only [Option.bind_some]
    rw [ih hrest (by omega), List.map_cons, pointsMembers]
    rfl

/-- **A text whose values read back is read as its fields.** -/
theorem loads_objectText_eq {d : Fields Char} (h : ∀ e ∈ d, ReadsBack body e ∧ isBody (body e) = true) (hne : d ≠ []) :
    loads (objectText body d) = some (.obj (pointsMembers (d.map fun e => (e.1, .str e.2)))) := by
  obtain ⟨e, d, rfl⟩ := List.exists_cons_of_ne_nil hne
  obtain ⟨⟨he, hb⟩, hrest⟩ := List.forall_mem_cons.1 h
  have hquote : skipSpace (memberText body e ++ membersText body d) = memberText body e ++ membersText body d :=
    skipSpace_cons (by decide) _
  have hhead : (memberText body e ++ membersText body d).head? ≠ some '}' := fun h =>
    absurd (Option.some.inj h) (by decide)
  have hlength : (objectText body (e :: d)).length = (memberText body e).length + (membersText body d).length + 1 := by
    simp only [objectText, List.length_cons, List.length_append]
  have hvalue : value ((objectText body (e :: d)).length + 1) (objectText body (e :: d)) =
      some (.obj (pointsMembers ((e :: d).map fun e => (e.1, .str e.2))), []) := by
    rw [hlength, objectText, value_brace, hquote, if_neg hhead, member_memberText he hb (by omega)]
    dsimp only [Option.bind_some]
    rw [membersTail_membersText hrest (by omega), List.map_cons, pointsMembers]
    rfl
  rw [loads, objectText, skipSpace_cons (by decide), ← objectText, hvalue]
  rfl

end

/-! ### The repair loses nothing -/

theorem mirrorAgrees_mirrored {d : Fields Char} (h : (d.map Prod.fst).Nodup) : mirrorAgrees (mirrored d).points = true := by
  have hfilter : (mirrored d).filter (fun e => e.1 ≠ urlKey) = sortedFields d := by
    have hkeep : (sortedFields d).filter (fun e => e.1 ≠ urlKey) = sortedFields d :=
      List.filter_eq_self.2 fun e he => (List.mem_filter.1 (Ranking.mem_sortBy.1 he)).2
    rw [mirrored, List.filter_append, hkeep]
    simp
  have hchars : charFields (mirrored d).points = some (sortedFields d) := by rw [charFields_points, hfilter]
  have hsame : mirrored (sortedFields d) = mirrored d := by
    rw [mirrored, sortedFields_sortedFields, toUrlForm_eq_of_sortedFields (sortedFields_sortedFields d), ← mirrored]
  obtain ⟨j, hj, hfields⟩ := loads_encodeChars (nodup_sortedFields h)
  have hget : Dict.get? (mirrored d).points (urlKey.map .char) = some ((toUrlForm (sortedFields d)).map .char) := by
    refine (Dict.get?_eq_some_iff (nodup_points (nodup_mirrored h))).2 (List.mem_map.2 ⟨(urlKey, toUrlForm d), ?_, ?_⟩)
    · exact List.mem_append_right _ (List.mem_singleton_self _)
    · rw [toUrlForm_eq_of_sortedFields (sortedFields_sortedFields d)]
  unfold mirrorAgrees
  rw [urlForm, encodeExtraData, hchars]
  dsimp only [Option.map_some, Option.bind_some]
  rw [hj]
  dsimp only
  rw [hfields, hsame, decide_eq_true hget]
  exact decide_eq_true (List.Perm.refl _)

theorem isPlainKey_mirrored {d : Fields Char} (h : ∀ key ∈ d.map Prod.fst, key ≠ [] ∧ ∀ c ∈ key, isControl c = false) :
    (mirrored d).points.all (fun e => isPlainKey e.1) = true := by
  have hplain : ∀ key : List Char, key ≠ [] → (∀ c ∈ key, isControl c = false) → isPlainKey (key.map .char) = true := by
    intro key hne hcontrol
    have hne' : key.map Point.char ≠ [] := fun hnil => hne (List.map_eq_nil_iff.1 hnil)
    unfold isPlainKey
    rw [decide_eq_true hne', Bool.true_and, List.all_map, List.all_eq_true]
    intro c hc
    simp [hcontrol c hc]
  rw [List.all_eq_true]
  intro e he
  obtain ⟨f, hf, rfl⟩ := List.mem_map.1 he
  obtain hf | hf := List.mem_append.1 hf
  · have hmem : f ∈ d := List.mem_of_mem_filter (Ranking.mem_sortBy.1 hf)
    obtain ⟨hne, hcontrol⟩ := h f.1 (List.mem_map_of_mem hmem)
    exact hplain f.1 hne hcontrol
  · obtain rfl := List.mem_singleton.1 hf
    exact hplain urlKey (List.cons_ne_nil _ _) (by simp [urlKey, isControl])

/-- **The repair loses nothing**: with some of the title's escapes undone, a text decodes to what it decoded to. -/
theorem decode_literalTitle {d : Fields Char} (hnodup : (d.map Prod.fst).Nodup)
    (hkeys : ∀ key ∈ d.map Prod.fst, key ≠ [] ∧ ∀ c ∈ key, isControl c = false) {literal : ℕ → Bool} {value : List Char}
    {i : ℕ} {c : Char} (hvalue : (titleKey, value) ∈ d) (hc : value[i]? = some c) (hcontrol : isControl c = true)
    (hi : literal i = true) :
    decodeExtraData (some (literalTitle d literal)) = some ((mirrored d).points, false) := by
  have htitle : titleKey ≠ urlKey := by decide
  have hmem : (titleKey, value) ∈ mirrored d :=
    List.mem_append_left _ (Ranking.mem_sortBy.2 (List.mem_filter.2 ⟨hvalue, decide_eq_true htitle⟩))
  have hne := List.ne_nil_of_mem hmem
  have hin : c ∈ fieldBody (fun c => [c]) literal (titleKey, value) := by
    have hzip : (c, i) ∈ value.zipIdx := by
      rw [List.mem_zipIdx_iff_getElem?]
      exact hc
    refine List.mem_flatMap.2 ⟨(c, i), hzip, ?_⟩
    rw [if_pos ⟨⟨rfl, hcontrol⟩, hi⟩]
    exact List.mem_singleton_self c
  have hany : (mirrored d).any (fun e => (fieldBody (fun c => [c]) literal e).any isControl) = true :=
    List.any_eq_true.2 ⟨_, hmem, List.any_eq_true.2 ⟨c, hin, hcontrol⟩⟩
  have hloads : loads (literalTitle d literal) = none :=
    loads_objectText (fun e => (escaped_fieldBody literal e).body) hmem hin hcontrol
  have hscan := scan_objectText (fun e _ => escaped_fieldBody literal e) hne
  rw [hany] at hscan
  have hbody : ∀ e, isBody (fieldBody (fun c => escapeUnit c.toNat) literal e) = true := fun e =>
    isBody_fieldBody (fun c s h => isBody_escapeUnit (by have := toNat_lt_of_isControl h; omega) s) literal e
  have hread := loads_objectText_eq (fun e _ => ⟨readsBack_fieldBody literal e, hbody e⟩) hne
  have hjson : readJson (literalTitle d literal) = some (mirrored d).points := by
    rw [readJson, hloads, readRepaired, literalTitle, hscan, Option.filter_some, if_pos rfl]
    dsimp only [Option.bind_some]
    rw [hread]
    dsimp only [Option.bind_some]
    rw [textFields_points (nodup_mirrored hnodup), Option.filter_some, isPlainKey_mirrored hkeys,
      mirrorAgrees_mirrored hnodup]
    rfl
  obtain ⟨s, hs⟩ : ∃ s, literalTitle d literal = '{' :: s := by
    obtain ⟨e, l, hl⟩ := List.exists_cons_of_ne_nil hne
    exact ⟨_, by rw [literalTitle, hl]; rfl⟩
  rw [hs] at hjson ⊢
  rw [decodeExtraData, if_pos rfl, hjson]
  rfl

/-- **The repair of a title**: with some of the title's control characters as they are, the text of fields decodes to what
the text itself decodes to; and a text that is no JSON, and is read, has control characters in its title's value alone, and its
fields are what its `url` field decodes to. -/
theorem titleRepair_spec :
    (∀ d : Fields Char, (d.map Prod.fst).Nodup → (∀ key ∈ d.map Prod.fst, key ≠ [] ∧ ∀ c ∈ key, isControl c = false) →
      ∃ text fields, encodeExtraData d.points false = some text ∧ literalTitle d (fun _ => false) = text ∧
        decodeExtraData (some text) = some (fields, false) ∧
        ∀ literal value i c, (titleKey, value) ∈ d → value[i]? = some c → isControl c = true → literal i = true →
          decodeExtraData (some (literalTitle d literal)) = some (fields, false)) ∧
    ∀ extra d, loads extra = none → extra ≠ [] → decodeExtraData (some extra) = some (d, false) →
      ∃ raw, Spells extra raw ∧ List.Forall₂ StandsFor raw d ∧
        ∃ mirror d', Dict.get? d (urlKey.map .char) = some (mirror.map .char) ∧
          decodeExtraData (some mirror) = some (d', true) ∧ d'.Perm (withoutUrl d) := by
  refine ⟨fun d hnodup hkeys => ?_, fun extra d hextra hne h => repaired_spec hextra hne h⟩
  refine ⟨encodeChars d false, (mirrored d).points, ?_, literalTitle_false d, decode_encodeChars_json hnodup, ?_⟩
  · rw [encodeExtraData, charFields_points, Option.map_some, encodeChars, if_neg Bool.false_ne_true, encodeChars,
      if_neg Bool.false_ne_true, sortedFields_filter, toUrlForm_eq_of_sortedFields (sortedFields_filter d)]
  · intro literal value i c hvalue hc hcontrol hi
    exact decode_literalTitle hnodup hkeys hvalue hc hcontrol hi

/-- A title of one line break. -/
def lineBreak : Fields Char := [(titleKey, ['\n'])]

/-- Its text with the line break as it is decodes to what the text itself decodes to, and is read through `url`. -/
theorem titleRepair_spec_lineBreak :
    (∃ text fields, encodeExtraData lineBreak.points false = some text ∧ literalTitle lineBreak (fun _ => false) = text ∧
      decodeExtraData (some text) = some (fields, false) ∧
      decodeExtraData (some (literalTitle lineBreak fun _ => true)) = some (fields, false)) ∧
    ∃ raw, Spells (literalTitle lineBreak fun _ => true) raw ∧ List.Forall₂ StandsFor raw (mirrored lineBreak).points ∧
      ∃ mirror d', Dict.get? (mirrored lineBreak).points (urlKey.map .char) = some (mirror.map .char) ∧
        decodeExtraData (some mirror) = some (d', true) ∧ d'.Perm (withoutUrl (mirrored lineBreak).points) := by
  obtain ⟨hloads, hne, hdecode⟩ : loads (literalTitle lineBreak fun _ => true) = none ∧
      literalTitle lineBreak (fun _ => true) ≠ [] ∧
      decodeExtraData (some (literalTitle lineBreak fun _ => true)) = some ((mirrored lineBreak).points, false) := by
    decide +kernel
  have hkeys : ∀ key ∈ lineBreak.map Prod.fst, key ≠ [] ∧ ∀ c ∈ key, isControl c = false := by
    intro key hkey
    obtain rfl : key = titleKey := List.mem_singleton.1 hkey
    have hplain : titleKey.all (fun c => !isControl c) = true := by decide
    exact ⟨by decide, fun c hc => Bool.not_eq_true' _ ▸ List.all_eq_true.1 hplain c hc⟩
  obtain ⟨hwritten, hread⟩ := titleRepair_spec
  obtain ⟨text, fields, hencode, htext, hplain, hliteral⟩ := hwritten lineBreak (List.nodup_singleton _) hkeys
  exact ⟨⟨text, fields, hencode, htext, hplain, hliteral (fun _ => true) ['\n'] 0 '\n' (List.mem_singleton_self _) rfl rfl rfl⟩,
    hread _ _ hloads hne hdecode⟩

end MediaPreview.Plex
