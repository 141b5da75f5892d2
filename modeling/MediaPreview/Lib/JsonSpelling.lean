import MediaPreview.Lib.JsonStrings

/-!
# How an object of texts is spelled

The text of an object whose values are texts: what is between the quotes of each key and each value, and white space between
(`Spells`). What is read of a text as such an object comes from such a spelling (`spells_of_loads`).
-/

namespace MediaPreview.Json

/-- White space only. -/
def Blank (s : List Char) : Prop := ∀ c ∈ s, isSpace c = true

/-- A member: what is between the quotes of its key and of its value. -/
abbrev Spelling := List Char × List Char

/-- A member's text, with white space before the key, the colon and the value. -/
structure SpellsMember (text : List Char) (m : Spelling) : Prop where
  key : isBody m.1 = true
  value : isBody m.2 = true
  text : ∃ g g' g'', Blank g ∧ Blank g' ∧ Blank g'' ∧
    text = g ++ '"' :: (m.1 ++ '"' :: (g' ++ ':' :: (g'' ++ '"' :: (m.2 ++ ['"']))))

/-- The text of the other members and the brace. -/
inductive SpellsTail : List Char → List Spelling → Prop where
  | close {g g' : List Char} (hg : Blank g) (hg' : Blank g') : SpellsTail (g ++ '}' :: g') []
  | more {g text s : List Char} {m : Spelling} {raw : List Spelling} (hg : Blank g) (hm : SpellsMember text m)
      (hs : SpellsTail s raw) : SpellsTail (g ++ ',' :: (text ++ s)) (m :: raw)

/-- The text of an object. -/
inductive Spells : List Char → List Spelling → Prop where
  | empty {g s : List Char} (hg : Blank g) (hs : SpellsTail s []) : Spells (g ++ '{' :: s) []
  | members {g text s : List Char} {m : Spelling} {raw : List Spelling} (hg : Blank g) (hm : SpellsMember text m)
      (hs : SpellsTail s raw) : Spells (g ++ '{' :: (text ++ s)) (m :: raw)

/-- What a member's spelling reads as, with no control character in it. -/
structure ReadsAs (m : Spelling) (e : List Point × List Point) : Prop where
  key : textOf m.1 = some e.1
  value : textOf m.2 = some e.2
  keyPlain : ∀ c ∈ m.1, 32 ≤ c.toNat
  valuePlain : ∀ c ∈ m.2, 32 ≤ c.toNat

/-! ### White space -/

theorem exists_skipSpace (s : List Char) : ∃ g, Blank g ∧ s = g ++ skipSpace s :=
  ⟨s.takeWhile isSpace, fun c hc => (List.all_eq_true.1 (List.all_takeWhile) c hc), (List.takeWhile_append_dropWhile).symm⟩

theorem blank_of_skipSpace {s : List Char} (h : skipSpace s = []) : Blank s := by
  obtain ⟨g, hg, heq⟩ := exists_skipSpace s
  rw [h, List.append_nil] at heq
  exact heq ▸ hg

/-! ### What was read -/

/-- What begins with a quote is a text, with a brace an object; other values are neither. -/
theorem value_cases {n : ℕ} {c : Char} {s r : List Char} {j : Json Point} (h : value (n + 1) (c :: s) = some (j, r)) :
    (c = '"' ∧ ∃ x, j = .str x ∧ readString n s = some (x, r)) ∨
      (c = '{' ∧ ((skipSpace s).head? = some '}' ∧ j = .obj [] ∧ r = (skipSpace s).tail ∨
        ∃ m t members, j = .obj (m :: members) ∧ member n (skipSpace s) = some (m, t) ∧
          membersTail n t = some (members, r))) ∨
      (c ≠ '"' ∧ c ≠ '{' ∧ (∀ x, j ≠ .str x) ∧ ∀ members, j ≠ .obj members) := by
  have hother : ∀ {α : Type} {o : Option α} {f : α → Json Point × List Char},
      (∀ a, (∀ x, (f a).1 ≠ .str x) ∧ ∀ members, (f a).1 ≠ .obj members) → o.map f = some (j, r) →
      (∀ x, j ≠ .str x) ∧ ∀ members, j ≠ .obj members := by
    intro α o f hf hmap
    obtain ⟨a, -, heq⟩ := Option.map_eq_some_iff.1 hmap
    have hfa := hf a
    rwa [heq] at hfa
  rw [value] at h
  by_cases hn : c = 'n'
  · rw [if_pos hn] at h
    exact .inr (.inr ⟨hn ▸ (by decide), hn ▸ (by decide), hother (by simp) h⟩)
  rw [if_neg hn] at h
  by_cases ht : c = 't'
  · rw [if_pos ht] at h
    exact .inr (.inr ⟨ht ▸ (by decide), ht ▸ (by decide), hother (by simp) h⟩)
  rw [if_neg ht] at h
  by_cases hf : c = 'f'
  · rw [if_pos hf] at h
    exact .inr (.inr ⟨hf ▸ (by decide), hf ▸ (by decide), hother (by simp) h⟩)
  rw [if_neg hf] at h
  by_cases hquote : c = '"'
  · rw [if_pos hquote] at h
    obtain ⟨⟨x, r'⟩, hread, heq⟩ := Option.map_eq_some_iff.1 h
    obtain ⟨rfl, rfl⟩ := Prod.mk.inj heq
    exact .inl ⟨hquote, x, rfl, hread⟩
  rw [if_neg hquote] at h
  by_cases hbracket : c = '['
  · rw [if_pos hbracket] at h
    by_cases hempty : (skipSpace s).head? = some ']'
    · rw [if_pos hempty] at h
      obtain ⟨rfl, -⟩ := Prod.mk.inj (Option.some.inj h)
      exact .inr (.inr ⟨hquote, hbracket ▸ (by decide), by simp, by simp⟩)
    · rw [if_neg hempty] at h
      obtain ⟨p, -, h⟩ := Option.bind_eq_some_iff.1 h
      exact .inr (.inr ⟨hquote, hbracket ▸ (by decide), hother (by simp) h⟩)
  rw [if_neg hbracket] at h
  by_cases hbrace : c = '{'
  · rw [if_pos hbrace] at h
    by_cases hempty : (skipSpace s).head? = some '}'
    · rw [if_pos hempty] at h
      obtain ⟨rfl, rfl⟩ := Prod.mk.inj (Option.some.inj h)
      exact .inr (.inl ⟨hbrace, .inl ⟨hempty, rfl, rfl⟩⟩)
    · rw [if_neg hempty] at h
      obtain ⟨⟨m, t⟩, hmember, h⟩ := Option.bind_eq_some_iff.1 h
      obtain ⟨⟨members, r'⟩, hmembers, heq⟩ := Option.map_eq_some_iff.1 h
      obtain ⟨rfl, rfl⟩ := Prod.mk.inj heq
      exact .inr (.inl ⟨hbrace, .inr ⟨m, t, members, rfl, hmember, hmembers⟩⟩)
  rw [if_neg hbrace] at h
  by_cases hminus : c = '-'
  · rw [if_pos hminus] at h
    exact .inr (.inr ⟨hquote, hbrace, hother (by simp) h⟩)
  · rw [if_neg hminus] at h
    exact .inr (.inr ⟨hquote, hbrace, hother (by simp) h⟩)

/-- A member with a text as its value is spelled. -/
theorem spellsMember_of_member {n : ℕ} {s r : List Char} {key x : List Point}
    (h : member n (skipSpace s) = some ((key, .str x), r)) :
    ∃ text m, s = text ++ r ∧ SpellsMember text m ∧ ReadsAs m (key, x) := by
  obtain ⟨g, hg, hs⟩ := exists_skipSpace s
  cases n with
  | zero => cases h
  | succ n =>
    cases hskip : skipSpace s with
    | nil =>
      rw [hskip] at h
      cases h
    | cons c s₁ =>
      rw [hskip, member] at h
      by_cases hquote : c = '"'
      · rw [if_pos hquote] at h
        obtain ⟨⟨key', s₂⟩, hkey, h⟩ := Option.bind_eq_some_iff.1 h
        obtain ⟨g', hg', hs₂⟩ := exists_skipSpace s₂
        cases hcolon : skipSpace s₂ with
        | nil =>
          dsimp only at h
          rw [hcolon] at h
          cases h
        | cons c' s₃ =>
          dsimp only at h
          rw [hcolon] at h
          dsimp only at h
          by_cases hc' : c' = ':'
          · rw [if_pos hc'] at h
            obtain ⟨⟨j, r'⟩, hvalue, heq⟩ := Option.map_eq_some_iff.1 h
            obtain ⟨hpair, rfl⟩ := Prod.mk.inj heq
            obtain ⟨rfl, rfl⟩ := Prod.mk.inj hpair
            obtain ⟨g'', hg'', hs₃⟩ := exists_skipSpace s₃
            cases n with
            | zero => cases hvalue
            | succ n =>
              cases hskip' : skipSpace s₃ with
              | nil =>
                rw [hskip'] at hvalue
                cases hvalue
              | cons c'' s₄ =>
                rw [hskip'] at hvalue
                obtain ⟨hc'', x', hx, hstring⟩ | ⟨-, hobj⟩ | ⟨-, -, hstr, -⟩ := value_cases hvalue
                · obtain rfl := Json.str.inj hx
                  obtain ⟨b, rfl, hb, hplain, -, hall⟩ := readString_spec hkey
                  obtain ⟨b', rfl, hb', hplain', -, hall'⟩ := readString_spec hstring
                  refine ⟨g ++ '"' :: (b ++ '"' :: (g' ++ ':' :: (g'' ++ '"' :: (b' ++ ['"'])))), (b, b'), ?_,
                    ⟨hb, hb', g, g', g'', hg, hg', hg'', rfl⟩,
                    ⟨textOf_of_readString hb hkey, textOf_of_readString hb' hstring, hplain, hplain'⟩⟩
                  rw [hs, hskip, hquote, hs₂, hcolon, hc', hs₃, hskip', hc'']
                  simp
                · obtain ⟨-, hobj, -⟩ | ⟨_, _, _, hobj, -⟩ := hobj
                  · cases hobj
                  · cases hobj
                · exact absurd rfl (hstr x)
          · rw [if_neg hc'] at h
            cases h
      · rw [if_neg hquote] at h
        cases h

theorem spellsTail_of_membersTail {n : ℕ} {s r : List Char} {members : List (List Point × List Point)} (hr : Blank r)
    (h : membersTail n s = some (members.map fun m => (m.1, .str m.2), r)) :
    ∃ raw, SpellsTail s raw ∧ List.Forall₂ ReadsAs raw members := by
  induction n generalizing s members with
  | zero => cases h
  | succ n ih =>
    obtain ⟨g, hg, hs⟩ := exists_skipSpace s
    rw [membersTail] at h
    cases hskip : skipSpace s with
    | nil =>
      rw [hskip] at h
      cases h
    | cons c s' =>
      rw [hskip] at h hs
      dsimp only at h
      by_cases hclose : c = '}'
      · rw [if_pos hclose] at h
        obtain ⟨hnil, rfl⟩ := Prod.mk.inj (Option.some.inj h)
        obtain rfl := List.map_eq_nil_iff.1 hnil.symm
        rw [hs, hclose]
        exact ⟨[], .close hg hr, .nil⟩
      · rw [if_neg hclose] at h
        by_cases hcomma : c = ','
        · rw [if_pos hcomma] at h
          obtain ⟨⟨m, t⟩, hmember, h⟩ := Option.bind_eq_some_iff.1 h
          obtain ⟨⟨rest, r'⟩, hrest, heq⟩ := Option.map_eq_some_iff.1 h
          obtain ⟨hcons, rfl⟩ := Prod.mk.inj heq
          obtain ⟨e, members, rfl, rfl, rfl⟩ := List.map_eq_cons_iff.1 hcons.symm
          obtain ⟨text, m, rfl, hm, hreads⟩ := spellsMember_of_member hmember
          obtain ⟨raw, hraw, hall⟩ := ih hrest
          rw [hs, hcomma]
          exact ⟨m :: raw, .more hg hm hraw, .cons hreads hall⟩
        · rw [if_neg hcomma] at h
          cases h

/-- **What is read as an object of texts is spelled so.** -/
theorem spells_of_loads {s : List Char} {members : List (List Point × List Point)}
    (h : loads s = some (.obj (members.map fun m => (m.1, .str m.2)))) :
    ∃ raw, Spells s raw ∧ List.Forall₂ ReadsAs raw members := by
  obtain ⟨⟨j, r⟩, hvalue, hr⟩ := Option.bind_eq_some_iff.1 h
  dsimp only at hr
  by_cases hblank : skipSpace r = []
  · rw [if_pos hblank] at hr
    obtain rfl := Option.some.inj hr
    have hrest := blank_of_skipSpace hblank
    obtain ⟨g, hg, hs⟩ := exists_skipSpace s
    cases hskip : skipSpace s with
    | nil =>
      rw [hskip] at hvalue
      cases hvalue
    | cons c s' =>
      rw [hskip] at hvalue hs
      obtain ⟨-, x, hx, -⟩ | ⟨hc, hobj⟩ | ⟨-, -, -, hobj⟩ := value_cases hvalue
      · cases hx
      · rw [hs, hc]
        obtain ⟨hhead, hnil, rfl⟩ | ⟨m, t, rest, hcons, hmember, hmembers⟩ := hobj
        · obtain rfl := List.map_eq_nil_iff.1 (Json.obj.inj hnil)
          obtain ⟨g', hg', hs'⟩ := exists_skipSpace s'
          obtain ⟨rest, hbrace⟩ : ∃ rest, skipSpace s' = '}' :: rest := by
            cases hs'' : skipSpace s' with
            | nil =>
              rw [hs''] at hhead
              cases hhead
            | cons d rest =>
              rw [hs''] at hhead
              obtain rfl := Option.some.inj hhead
              exact ⟨rest, rfl⟩
          rw [hbrace] at hs' hrest
          rw [hs']
          exact ⟨[], .empty hg (.close hg' hrest), .nil⟩
        · obtain ⟨e, members, rfl, rfl, rfl⟩ := List.map_eq_cons_iff.1 (Json.obj.inj hcons)
          obtain ⟨text, m, rfl, hm, hreads⟩ := spellsMember_of_member hmember
          obtain ⟨raw, hraw, hall⟩ := spellsTail_of_membersTail hrest hmembers
          exact ⟨m :: raw, .members hg hm hraw, .cons hreads hall⟩
      · exact absurd rfl (hobj _)
  · rw [if_neg hblank] at hr
    cases hr

end MediaPreview.Json
