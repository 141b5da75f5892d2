import MediaPreview.Markers.ShowNames

/-!
# What the show search finds

An id is in every name that has it, so a search for it sees all of them. A word is searched as it is spelled, and a name
that is folded to the same may spell it otherwise: `ß` and `ss`. The search finds every folder of the show exactly if
every name on one line spells the longest word (`sameShowNames_iff`), as where it is folded alike in them, character by
character (`FoldsAlike`), so wherever each character is folded to one (`findable_of_single`).
-/

namespace MediaPreview.Markers

open Lines Text

variable {u : Characters}

/-! ### What id tags hold -/

theorem lowerChar_of_isDigit {c : Char} (h : isDigit c = true) : lowerChar c = [c] := by
  unfold lowerChar
  split <;> first | rfl | exact absurd h (by decide)

/-- A character of an id's value. -/
def IsValueChar (c : Char) : Prop := c = 't' ∨ c = 'T' ∨ isDigit c = true

/-- An id's value. -/
def IsValue (value : List Char) : Prop := value ≠ [] ∧ ∀ c ∈ value, IsValueChar c

theorem tt_of_wordAhead {s : List Char} (h : wordAhead "tt".toList s = true) : ∀ c ∈ s.take 2, c = 't' ∨ c = 'T' := by
  have hword : "tt".toList = ['t', 't'] := rfl
  rw [wordAhead, hword] at h
  match s with
  | [] => cases h
  | [_] => simp [startsWith] at h
  | a :: b :: s => simpa [startsWith, variants] using h

/-- The digits of a value are those behind its `tt`. -/
theorem isValue_take {s : List Char} {prefixed : ℕ} (h : ∀ c ∈ s.take prefixed, c = 't' ∨ c = 'T')
    (hdigits : (s.drop prefixed).takeWhile isDigit ≠ []) :
    IsValue (s.take (prefixed + ((s.drop prefixed).takeWhile isDigit).length)) := by
  have htake : (s.drop prefixed).takeWhile isDigit =
      (s.drop prefixed).take ((s.drop prefixed).takeWhile isDigit).length :=
    List.prefix_iff_eq_take.1 (List.takeWhile_prefix _)
  rw [List.take_add, ← htake]
  refine ⟨List.append_ne_nil_of_right_ne_nil _ hdigits, fun c hc => ?_⟩
  obtain hc | hc := List.mem_append.1 hc
  · exact (h c hc).imp_right .inl
  · exact .inr (.inr (List.mem_takeWhile_imp hc))

theorem idTag_spec {s : List Char} {tag : IdTag} (h : idTag s = some tag) :
    tag.value <:+: s ∧ IsValue tag.value := by
  cases s with
  | nil => cases h
  | cons c s =>
    rw [idTag] at h
    split at h
    · dsimp only at h
      generalize (if wordAhead "id".toList (s.drop 4) = true then 6 else 4) = word at h
      cases hdrop : s.drop word with
      | nil =>
        rw [hdrop] at h
        cases h
      | cons sep s' =>
        rw [hdrop] at h
        dsimp only at h
        have hsuffix : sep :: s' <:+ c :: s := by
          rw [← hdrop]
          exact (List.drop_suffix _ _).trans (List.suffix_cons _ _)
        have hprefixed : ∀ d ∈ s'.take (if wordAhead "tt".toList s' = true then 2 else 0), d = 't' ∨ d = 'T' := by
          split_ifs with htt
          · exact tt_of_wordAhead htt
          · exact fun d hd => (by cases hd)
        generalize (if wordAhead "tt".toList s' = true then 2 else 0) = prefixed at h hprefixed
        split at h
        · split at h
          · cases h
          · split at h
            · rename_i hclose
              obtain rfl := Option.some.inj h
              have hvalue : s'.take (prefixed + ((s'.drop prefixed).takeWhile isDigit).length) <:+: sep :: s' :=
                (List.take_prefix _ _).isInfix.trans (List.suffix_cons _ _).isInfix
              exact ⟨hvalue.trans hsuffix.isInfix, isValue_take hprefixed hclose.1⟩
            · cases h
        · cases h
    · cases h

theorem findTags_spec {skip : ℕ} {s : List Char} {tag : IdTag} (h : tag ∈ findTags skip s) :
    tag.value <:+: s ∧ IsValue tag.value := by
  induction s generalizing skip with
  | nil => cases h
  | cons c s ih =>
    have hlater : ∀ {skip : ℕ}, tag ∈ findTags skip s → tag.value <:+: c :: s ∧ IsValue tag.value :=
      fun h => ⟨(ih h).1.trans (List.infix_cons (List.infix_refl s)), (ih h).2⟩
    cases skip with
    | succ skip => exact hlater h
    | zero =>
      rw [findTags] at h
      cases htag : idTag (c :: s) with
      | none =>
        rw [htag] at h
        exact hlater h
      | some first =>
        rw [htag] at h
        obtain rfl | h := List.mem_cons.1 h
        · exact idTag_spec htag
        · exact hlater h

theorem lowerChar_of_isValueChar (u : Characters) {c : Char} (h : IsValueChar c) :
    ∃ d, lowerChar c = [d] ∧ IsValueChar d ∧ u.same d c = true := by
  obtain rfl | rfl | hdigit := h
  · exact ⟨'t', rfl, .inl rfl, u.same_self _⟩
  · exact ⟨'t', rfl, .inl rfl, u.same_t⟩
  · exact ⟨c, lowerChar_of_isDigit hdigit, .inr (.inr hdigit), u.same_self _⟩

/-- The value as it is searched is matched by the value as it is spelled. -/
theorem lower_spec (u : Characters) {value : List Char} (h : ∀ c ∈ value, IsValueChar c) :
    (lower value).length = value.length ∧ (∀ c ∈ lower value, IsValueChar c) ∧
      startsWith u.same (lower value) value = true := by
  induction value with
  | nil => exact ⟨rfl, fun c hc => (by cases hc), rfl⟩
  | cons c value ih =>
    obtain ⟨hlength, hchars, hstart⟩ := ih fun d hd => h d (List.mem_cons_of_mem _ hd)
    obtain ⟨d, hd, hchar, hsame⟩ := lowerChar_of_isValueChar u (h c List.mem_cons_self)
    have hlower : lower (c :: value) = d :: lower value := by
      rw [lower, List.flatMap_cons, hd]
      rfl
    rw [hlower]
    refine ⟨congrArg (· + 1) hlength, List.forall_mem_cons.2 ⟨hchar, hchars⟩, ?_⟩
    rw [startsWith, hsame, hstart]
    rfl

theorem startsWith_self (u : Characters) (s : List Char) : startsWith u.same s s = true := by
  induction s with
  | nil => rfl
  | cons c s ih =>
    rw [startsWith, u.same_self, ih]
    rfl

/-- **A name holds its ids.** -/
theorem holds_of_mem_idsIn (u : Characters) {name : FolderName} {key : List Char × List Char} (h : key ∈ idsIn name) :
    IsValue key.2 ∧ holds u.same key.2 name = true := by
  obtain ⟨tag, htag, hid⟩ := List.mem_filterMap.1 h
  obtain ⟨hwithin, hne, hchars⟩ := findTags_spec htag
  obtain ⟨hlength, hlower, hstart⟩ := lower_spec u hchars
  unfold idOf at hid
  dsimp only at hid
  split_ifs at hid
  all_goals
    obtain rfl := Option.some.inj hid
    first
    | exact ⟨⟨List.ne_nil_of_length_pos (hlength ▸ List.length_pos_iff.2 hne), hlower⟩, holds_of_infix hwithin hstart⟩
    | exact ⟨⟨hne, hchars⟩, holds_of_infix hwithin (startsWith_self u _)⟩

/-- The key of a name without ids of the three kinds, or one of its ids. -/
theorem showKey_cases (u : Characters) (name : FolderName) :
    (showKey u name ∈ idsIn name ∧ (showKey u name).1 ≠ "name".toList) ∨
      showKey u name = ("name".toList, bareName u name) := by
  unfold showKey
  cases hkey : showIdOrder.findSome? fun scheme => ((idsIn name).lookup scheme).map fun value => (scheme, value) with
  | none => exact .inr rfl
  | some key =>
    obtain ⟨scheme, hscheme, hvalue⟩ := List.exists_of_findSome?_eq_some hkey
    obtain ⟨value, hlookup, rfl⟩ := Option.map_eq_some_iff.1 hvalue
    obtain ⟨before, after, hids, -⟩ := List.lookup_eq_some_iff.1 hlookup
    refine .inl ⟨?_, ?_⟩
    · rw [hids]
      exact List.mem_append_right _ List.mem_cons_self
    · rintro rfl
      exact absurd hscheme (by decide)

/-! ### Words -/

theorem isSpace_newline : isSpace '\n' = true := by decide

/-- The pieces a list is split into: the first is in front, the others are within it, and none has a separator. -/
theorem splitOnP_spec {p : Char → Bool} (s : List Char) : ∃ first rest, s.splitOnP p = first :: rest ∧
    first <+: s ∧ ∀ piece ∈ first :: rest, piece <:+: s ∧ ∀ c ∈ piece, p c = false := by
  induction s with
  | nil => exact ⟨[], [], rfl, List.prefix_refl _, by simp⟩
  | cons c s ih =>
    obtain ⟨first, rest, hsplit, hfirst, hall⟩ := ih
    have hcons : ∀ {piece : List Char}, piece <:+: s → piece <:+: c :: s := fun h =>
      h.trans (List.infix_cons (List.infix_refl s))
    rw [List.splitOnP_cons_eq_if_modifyHead, hsplit]
    cases hc : p c with
    | true =>
      refine ⟨[], first :: rest, if_pos rfl, List.nil_prefix, ?_⟩
      rintro piece (_ | ⟨_, hpiece⟩)
      · exact ⟨List.nil_infix, by simp⟩
      · exact ⟨hcons (hall piece hpiece).1, (hall piece hpiece).2⟩
    | false =>
      refine ⟨c :: first, rest, if_neg Bool.false_ne_true, List.cons_prefix_cons.2 ⟨rfl, hfirst⟩, ?_⟩
      rintro piece (_ | ⟨_, hpiece⟩)
      · refine ⟨(List.cons_prefix_cons.2 ⟨rfl, hfirst⟩).isInfix, ?_⟩
        rintro d (_ | ⟨_, hd⟩)
        · exact hc
        · exact (hall first List.mem_cons_self).2 d hd
      · have hrest := hall piece (List.mem_cons_of_mem _ hpiece)
        exact ⟨hcons hrest.1, hrest.2⟩

theorem withoutTags_cons (c : Char) (s : List Char) :
    (∃ skip, withoutTags 0 (c :: s) = ' ' :: withoutTags skip s) ∨ withoutTags 0 (c :: s) = c :: withoutTags 0 s := by
  rw [withoutTags]
  cases idTag (c :: s) with
  | none => exact .inr rfl
  | some tag => exact .inl ⟨_, rfl⟩

theorem prefix_of_withoutTags {w : List Char} (hw : ∀ c ∈ w, isSpace c = false) {skip : ℕ} {s : List Char}
    (h : w <+: withoutTags skip s) : w <+: s.drop skip := by
  induction s generalizing skip w with
  | nil => cases skip <;> simpa [withoutTags] using h
  | cons c s ih =>
    cases skip with
    | succ skip => exact ih hw h
    | zero =>
      cases w with
      | nil => exact List.nil_prefix
      | cons d w =>
        -- A space stands where a tag was.
        obtain ⟨skip, hcons⟩ | hcons := withoutTags_cons c s
        all_goals
          rw [hcons] at h
          obtain ⟨rfl, htail⟩ := List.cons_prefix_cons.1 h
        · exact absurd (hw ' ' List.mem_cons_self) (by decide)
        · exact List.cons_prefix_cons.2 ⟨rfl, ih (fun e he => hw e (List.mem_cons_of_mem _ he)) htail⟩

/-- What has no space in it is within the name if it is there when the tags are gone. -/
theorem infix_of_withoutTags {w : List Char} (hw : ∀ c ∈ w, isSpace c = false) {skip : ℕ} {s : List Char}
    (h : w <:+: withoutTags skip s) : w <:+: s := by
  induction s generalizing skip with
  | nil => cases skip <;> simpa [withoutTags] using h
  | cons c s ih =>
    have hlater : ∀ {skip : ℕ}, w <:+: withoutTags skip s → w <:+: c :: s := fun h =>
      (ih h).trans (List.infix_cons (List.infix_refl s))
    cases skip with
    | succ skip => exact hlater h
    | zero =>
      obtain ⟨a, ha⟩ : ∃ a : List Char × ℕ, withoutTags 0 (c :: s) = a.1 ++ withoutTags a.2 s ∧ a.1.length = 1 := by
        obtain ⟨skip, hcons⟩ | hcons := withoutTags_cons c s
        · exact ⟨([' '], skip), hcons, rfl⟩
        · exact ⟨([c], 0), hcons, rfl⟩
      obtain ⟨head, hhead⟩ := List.length_eq_one_iff.1 ha.2
      rw [ha.1, hhead, List.singleton_append, List.infix_cons_iff] at h
      obtain h | h := h
      · have hprefix : w <+: withoutTags 0 (c :: s) := by rwa [ha.1, hhead]
        exact (prefix_of_withoutTags hw hprefix).isInfix
      · exact hlater h

/-- **The words of a name are in it**, and have no spaces. -/
theorem mem_words {name : FolderName} {w : List Char} (h : w ∈ words name) :
    w <:+: name ∧ w ≠ [] ∧ ∀ c ∈ w, isSpace c = false := by
  obtain ⟨hmem, hne⟩ := List.mem_filter.1 h
  obtain ⟨first, rest, hsplit, -, hall⟩ := splitOnP_spec (p := isSpace) (withoutTags 0 name)
  rw [hsplit] at hmem
  obtain ⟨hwithin, hspace⟩ := hall w hmem
  exact ⟨infix_of_withoutTags hspace hwithin, of_decide_eq_true hne, hspace⟩

/-! ### The search -/

/-- A word is the first of the longest. -/
def FirstLongest (words : List (List Char)) (w : List Char) : Prop :=
  ∃ before after, words = before ++ w :: after ∧ (∀ v ∈ before, v.length < w.length) ∧ ∀ v ∈ after, v.length ≤ w.length

theorem firstLongest_longest {words : List (List Char)} (h : words ≠ []) : FirstLongest words (longest words) := by
  cases words with
  | nil => exact absurd rfl h
  | cons word words =>
    have hfold : ∀ (words seen : List (List Char)) (best : List Char), FirstLongest seen best →
        FirstLongest (seen ++ words) (words.foldl (fun best word => if best.length < word.length then word else best) best) := by
      intro words
      induction words with
      | nil => exact fun seen best hbest => (List.append_nil seen).symm ▸ hbest
      | cons word words ih =>
        intro seen best hbest
        obtain ⟨before, after, rfl, hbefore, hafter⟩ := hbest
        rw [List.foldl_cons, List.append_cons]
        apply ih
        split_ifs with hlt
        -- a longer word is the first of its length
        · refine ⟨before ++ best :: after, [], rfl, fun v hv => ?_, by simp⟩
          obtain hv | hv := List.mem_append.1 hv
          · exact (hbefore v hv).trans hlt
          · obtain rfl | hv := List.mem_cons.1 hv
            · exact hlt
            · exact (hafter v hv).trans_lt hlt
        · refine ⟨before, after ++ [word], by simp, hbefore, fun v hv => ?_⟩
          obtain hv | hv := List.mem_append.1 hv
          · exact hafter v hv
          · exact List.mem_singleton.1 hv ▸ not_lt.1 hlt
    exact hfold words [word] word ⟨[], [], rfl, by simp, by simp⟩

/-- One word is. -/
theorem FirstLongest.unique {words : List (List Char)} {v w : List Char} (hv : FirstLongest words v)
    (hw : FirstLongest words w) : v = w := by
  obtain ⟨before, after, rfl, hbefore, hafter⟩ := hv
  obtain ⟨before', after', heq, hbefore', hafter'⟩ := hw
  obtain ⟨mid, rfl, hmid⟩ | ⟨mid, rfl, hmid⟩ := List.append_eq_append_iff.1 heq
  · cases mid with
    | nil => exact (List.cons.inj hmid).1
    | cons c mid =>
      obtain ⟨rfl, rfl⟩ := List.cons.inj hmid
      have hlt := hbefore' v (List.mem_append_right _ List.mem_cons_self)
      have hle := hafter w (List.mem_append_right _ List.mem_cons_self)
      exact absurd hlt (not_lt.2 hle)
  · cases mid with
    | nil => exact (List.cons.inj hmid).1.symm
    | cons c mid =>
      obtain ⟨rfl, rfl⟩ := List.cons.inj hmid
      have hlt := hbefore w (List.mem_append_right _ List.mem_cons_self)
      have hle := hafter' v (List.mem_append_right _ List.mem_cons_self)
      exact absurd hlt (not_lt.2 hle)

theorem FirstLongest.mem {words : List (List Char)} {w : List Char} (h : FirstLongest words w) : w ∈ words := by
  obtain ⟨before, after, rfl, -⟩ := h
  exact List.mem_append_right _ List.mem_cons_self

/-- A word has a letter, or no word of the name has. -/
def Telling (u : Characters) (name : FolderName) (w : List Char) : Prop :=
  (∃ c ∈ w, u.isAlpha c = true) ∨ ∀ v ∈ words name, ∀ c ∈ v, u.isAlpha c = false

instance (u : Characters) (name : FolderName) (w : List Char) : Decidable (Telling u name w) :=
  inferInstanceAs (Decidable (_ ∨ _))

/-- The name's longest word: the first of the longest, of those with a letter if there are any. -/
def LongestWord (u : Characters) (name : FolderName) (w : List Char) : Prop :=
  FirstLongest ((words name).filter fun v => Telling u name v) w

/-- The words with a letter, or all if none has one. -/
theorem filter_telling (u : Characters) (name : FolderName) :
    ((words name).filter fun v => Telling u name v) =
      if ((words name).filter fun word => word.any u.isAlpha) = [] then words name
      else (words name).filter fun word => word.any u.isAlpha := by
  split_ifs with hnone
  · refine List.filter_eq_self.2 fun w _ => decide_eq_true (.inr fun v hv c hc => ?_)
    have hany := List.filter_eq_nil_iff.1 hnone v hv
    rw [Bool.not_eq_true, List.any_eq_false] at hany
    simpa using hany c hc
  · obtain ⟨w, hw⟩ := List.exists_mem_of_ne_nil _ hnone
    obtain ⟨hmem, hany⟩ := List.mem_filter.1 hw
    obtain ⟨c, hc, halpha⟩ := List.any_eq_true.1 hany
    refine List.filter_congr fun v _ => ?_
    rw [Bool.eq_iff_iff, decide_eq_true_iff, List.any_eq_true]
    refine or_iff_left fun hno => ?_
    rw [hno w hmem c hc] at halpha
    cases halpha

/-- **The hint is the longest word.** -/
theorem longestWord_hintWord (u : Characters) {name : FolderName} (h : words name ≠ []) :
    LongestWord u name (hintWord u name) := by
  unfold LongestWord hintWord
  rw [filter_telling]
  apply firstLongest_longest
  split_ifs with hnone
  · exact h
  · exact hnone

theorem LongestWord.mem {u : Characters} {name : FolderName} {w : List Char} (h : LongestWord u name w) : w ∈ words name :=
  List.mem_of_mem_filter (FirstLongest.mem h)

theorem LongestWord.eq_hintWord {u : Characters} {name : FolderName} {w : List Char} (h : LongestWord u name w) :
    w = hintWord u name :=
  FirstLongest.unique h (longestWord_hintWord u (List.ne_nil_of_mem h.mem))

theorem hintWord_mem (u : Characters) {name : FolderName} (h : words name ≠ []) : hintWord u name ∈ words name :=
  (longestWord_hintWord u h).mem

theorem hintWord_eq_nil (u : Characters) {name : FolderName} : hintWord u name = [] ↔ words name = [] := by
  constructor
  · intro hnil
    by_contra hne
    exact (mem_words (hintWord_mem u hne)).2.1 hnil
  · intro hwords
    simp [hintWord, hwords, longest]

/-- The search for what a name's key says finds exactly the entries with this key. -/
def FindsShow (u : Characters) (name : FolderName) (entries : List FolderName) (given : List FolderName ⊕ FolderNames) :
    Prop :=
  (sameShowNames u name given).Perm (entries.filter fun entry => showKey u entry = showKey u name)

/-- Some stretch of an entry is a word in another case, one character for each. -/
def Spells (u : Characters) (entry : FolderName) (w : List Char) : Prop :=
  ∃ v, v <:+: entry ∧ List.Forall₂ (fun a b => u.same a b = true) w v

/-- An entry is a folder of the show, and on one line. -/
def Wanted (u : Characters) (name entry : FolderName) : Prop := '\n' ∉ entry ∧ showKey u entry = showKey u name

/-- The key is an id; or the name has a word, and every folder of the show that is on one line spells its longest word;
or it has none, and the entries on one line are not one empty name. -/
def Findable (u : Characters) (name : FolderName) (entries : List FolderName) : Prop :=
  (showKey u name).1 ≠ "name".toList ∨
    (words name ≠ [] ∧ ∀ w, LongestWord u name w → ∀ entry ∈ entries, Wanted u name entry → Spells u entry w) ∨
    words name = [] ∧ (entries.filter fun entry => '\n' ∉ entry) ≠ [[]]

/-- In every folder of the show that is on one line some word is folded as the name's longest word is, character by
character: none is folded to several where the other spells these out. -/
def FoldsAlike (u : Characters) (name : FolderName) (entries : List FolderName) : Prop :=
  ∀ w, LongestWord u name w → ∀ entry ∈ entries, Wanted u name entry →
    ∃ v ∈ words entry, v.map u.casefold = w.map u.casefold

/-- A list is filtered in two parts. -/
theorem perm_filter_iff {α : Type} {l : List α} {p q : α → Bool} {rest : List α} :
    ((l.filter q ++ rest).filter p).Perm (l.filter p ++ rest.filter p) ↔ ∀ a ∈ l, p a = true → q a = true := by
  rw [List.filter_append, List.perm_append_right_iff]
  constructor
  · intro hperm a ha hp
    have hmem : a ∈ (l.filter q).filter p := hperm.mem_iff.2 (List.mem_filter.2 ⟨ha, hp⟩)
    exact (List.mem_filter.1 (List.mem_filter.1 hmem).1).2
  · intro h
    rw [List.filter_filter]
    refine List.Perm.of_eq (List.filter_congr fun a ha => ?_)
    cases hp : p a with
    | false => rfl
    | true => rw [h a ha hp]; rfl

/-- The entries in two parts: those on one line and the others. -/
theorem perm_parts (entries : List FolderName) (p : FolderName → Bool) :
    (entries.filter p).Perm ((entries.filter fun entry => '\n' ∉ entry).filter p ++
      (FolderNames.ofEntries entries).withNewline.filter p) := by
  rw [← List.filter_append]
  refine List.Perm.filter _ ?_
  have happend := List.filter_append_perm (fun entry : FolderName => decide ('\n' ∉ entry)) entries
  simp only [decide_not, Bool.not_not] at happend
  simpa only [FolderNames.ofEntries, decide_not] using happend.symm

/-- A search for a word without a newline finds the show's folders if it is in all of them that are on one line. -/
theorem perm_searched (u : Characters) {hint : List Char} (hne : hint ≠ []) (hline : '\n' ∉ hint)
    (entries : List FolderName) (p : FolderName → Bool) :
    ((found '\n' u.same hint (FolderNames.ofEntries entries).text ++
      (FolderNames.ofEntries entries).withNewline).filter p).Perm (entries.filter p) ↔
      ∀ entry ∈ entries, '\n' ∉ entry → p entry = true → holds u.same hint entry = true := by
  have hsep : ∀ c ∈ hint, u.same c '\n' = false := by
    intro c hc
    rw [← Bool.not_eq_true]
    intro hsame
    exact hline (u.same_newline c hsame ▸ hc)
  have hlines : ∀ line ∈ entries.filter (fun entry => '\n' ∉ entry), '\n' ∉ line := fun line hmem =>
    of_decide_eq_true (List.mem_filter.1 hmem).2
  have hfound := perm_found (m := u.same) hne hsep hlines
  have hparts := perm_parts entries p
  have hleft := (hfound.append_right (FolderNames.ofEntries entries).withNewline).filter p
  rw [show (FolderNames.ofEntries entries).text = join '\n' (entries.filter fun entry => '\n' ∉ entry) from rfl]
  rw [hleft.congr_left, hparts.congr_right, perm_filter_iff]
  constructor
  · intro h entry hmem hnl hp
    exact h entry (List.mem_filter.2 ⟨hmem, decide_eq_true hnl⟩) hp
  · intro h entry hmem hp
    obtain ⟨hmem, hnl⟩ := List.mem_filter.1 hmem
    exact h entry hmem (of_decide_eq_true hnl) hp

/-- Joined lines are nothing if there are none, or just the empty one. -/
theorem join_eq_nil {lines : List FolderName} : join '\n' lines = [] ↔ lines = [] ∨ lines = [[]] := by
  match lines with
  | [] => simp [join]
  | [line] => simp [join, List.intercalate_singleton]
  | line :: line' :: lines => simp [join, List.intercalate_cons_cons]

/-- The names of a listing are its entries, except that one empty name is lost. -/
theorem perm_names (entries : List FolderName) {p : FolderName → Bool} (hp : p [] = true) :
    ((FolderNames.ofEntries entries).names.filter p).Perm (entries.filter p) ↔
      (entries.filter fun entry => '\n' ∉ entry) ≠ [[]] := by
  rw [FolderNames.names, List.filter_append, (perm_parts entries p).congr_right, List.perm_append_right_iff]
  rw [show (FolderNames.ofEntries entries).text = join '\n' (entries.filter fun entry => '\n' ∉ entry) from rfl]
  have hlines : ∀ line ∈ entries.filter (fun entry => '\n' ∉ entry), '\n' ∉ line := fun line hmem =>
    of_decide_eq_true (List.mem_filter.1 hmem).2
  generalize entries.filter (fun entry => '\n' ∉ entry) = lines at hlines ⊢
  split_ifs with htext
  · obtain rfl | rfl := join_eq_nil.1 htext
    · simp
    · simp [hp]
  · obtain ⟨hnil, hone⟩ := not_or.1 (mt join_eq_nil.2 htext)
    have hsplit : (join '\n' lines).splitOn '\n' = lines := List.splitOn_intercalate '\n' hlines hnil
    rw [hsplit]
    exact iff_of_true (List.Perm.refl _) hone

/-- The name without words is the empty name's. -/
theorem showKey_nil (u : Characters) : showKey u [] = ("name".toList, []) := rfl

/-- **The search finds the show's folders exactly if it can**: an id always is, and a word where it is spelled alike. -/
theorem findsShow_iff (u : Characters) (name : FolderName) (entries : List FolderName) :
    FindsShow u name entries (.inr (.ofEntries entries)) ↔ Findable u name entries := by
  have hkey : ∀ (entry : FolderName), (decide (showKey u entry = showKey u name) = true) ↔
      showKey u entry = showKey u name := fun entry => decide_eq_true_iff
  unfold FindsShow Findable sameShowNames
  dsimp only [Sum.elim_inr, id]
  obtain ⟨hmem, hid⟩ | hname := showKey_cases u name
  · obtain ⟨⟨hne, hchars⟩, -⟩ := holds_of_mem_idsIn u hmem
    have hline : '\n' ∉ (showKey u name).2 := fun h => by
      obtain h | h | h := hchars _ h <;> exact absurd h (by decide)
    rw [if_neg hid, if_neg hne, perm_searched u hne hline]
    refine iff_of_true (fun entry _ _ hp => ?_) (.inl hid)
    have hsame := (hkey entry).1 hp
    obtain ⟨hmem', -⟩ | hname' := showKey_cases u entry
    · rw [← hsame]
      exact (holds_of_mem_idsIn u hmem').2
    · rw [← hsame, hname'] at hid
      exact absurd rfl hid
  · have hfst : (showKey u name).1 = "name".toList := by rw [hname]
    rw [if_pos hfst, or_iff_right (not_not.2 hfst)]
    by_cases hwords : words name = []
    · have hnil : showKey u name = ("name".toList, []) := by rw [hname, bareName, hwords]; rfl
      rw [if_pos ((hintWord_eq_nil u).2 hwords), perm_names entries (by rw [hnil, showKey_nil]; rfl)]
      exact ⟨fun h => .inr ⟨hwords, h⟩, fun h => h.elim (fun h => absurd hwords h.1) And.right⟩
    · have hhint := mem_words (hintWord_mem u hwords)
      have hline : '\n' ∉ hintWord u name := fun h => by
        have hspace := hhint.2.2 _ h
        rw [isSpace_newline] at hspace
        cases hspace
      rw [if_neg hhint.2.1, perm_searched u hhint.2.1 hline]
      constructor
      · refine fun h => .inl ⟨hwords, fun w hw entry hmem hwanted => ?_⟩
        obtain rfl := hw.eq_hintWord
        exact holds_iff.1 (h entry hmem hwanted.1 ((hkey entry).2 hwanted.2))
      · rintro (⟨-, h⟩ | ⟨hnone, -⟩) entry hmem hnl hp
        · exact holds_iff.2 (h _ (longestWord_hintWord u hwords) entry hmem ⟨hnl, (hkey entry).1 hp⟩)
        · exact absurd hnone hwords

/-- A word that is folded alike, character by character, is spelled. -/
theorem findable_of_foldsAlike {name : FolderName} {entries : List FolderName} (hwords : words name ≠ [])
    (h : FoldsAlike u name entries) : Findable u name entries := by
  refine .inr (.inl ⟨hwords, fun w hw entry hmem hwanted => ?_⟩)
  obtain ⟨v, hv, hfold⟩ := h w hw entry hmem hwanted
  refine ⟨v, (mem_words hv).1, ?_⟩
  have halike : List.Forall₂ (fun a b => u.casefold a = u.casefold b) w v := by
    have heq : List.Forall₂ Eq (w.map u.casefold) (v.map u.casefold) := by
      rw [List.forall₂_eq_eq_eq]
      exact hfold.symm
    rwa [List.forall₂_map_left_iff, List.forall₂_map_right_iff] at heq
  exact halike.imp fun a b => u.same_of_casefold a b

/-- **The search finds every folder of the show exactly if they spell its longest word**, of a list and of its
`FolderNames`; they do where that word is folded alike in them, character by character. -/
theorem sameShowNames_iff (u : Characters) (name : FolderName) (entries : List FolderName) :
    (FindsShow u name entries (.inl entries) ↔ Findable u name entries) ∧
      (FindsShow u name entries (.inr (.ofEntries entries)) ↔ Findable u name entries) ∧
      (words name ≠ [] → FoldsAlike u name entries → Findable u name entries) :=
  ⟨findsShow_iff u name entries, findsShow_iff u name entries, findable_of_foldsAlike⟩

/-! ### Where a letter is folded to one -/

theorem flatMap_intercalate {α : Type} (f : α → List α) (sep : List α) (lines : List (List α)) :
    (sep.intercalate lines).flatMap f = (sep.flatMap f).intercalate (lines.map (List.flatMap f)) := by
  induction lines with
  | nil => rfl
  | cons line lines ih =>
    cases lines with
    | nil => simp [List.intercalate_singleton]
    | cons line' lines =>
      rw [List.map_cons] at ih
      rw [List.intercalate_cons_cons, List.flatMap_append, List.flatMap_append, ih, List.map_cons, List.map_cons,
        List.intercalate_cons_cons]

/-- **A bare name is split into the name's words, folded.** -/
theorem splitOn_bareName (u : Characters) {name : FolderName} (hwords : words name ≠ []) :
    (bareName u name).splitOn ' ' = (words name).map (List.flatMap u.casefold) := by
  have hspace : [' '].flatMap u.casefold = [' '] := by rw [List.flatMap_singleton, u.casefold_space]
  rw [bareName, flatMap_intercalate, hspace]
  apply List.splitOn_intercalate
  · intro word hword hmem
    obtain ⟨w, hw, rfl⟩ := List.mem_map.1 hword
    obtain ⟨c, hc, hfolded⟩ := List.mem_flatMap.1 hmem
    have hnot := (mem_words hw).2.2 c hc
    rw [u.space_of_casefold c hfolded] at hnot
    exact absurd hnot (by decide)
  · simpa using hwords

/-- Each character is folded to one. -/
def Single (u : Characters) (s : List Char) : Prop := ∀ c ∈ s, (u.casefold c).length = 1

/-- Words that are folded alike are so character by character. -/
theorem map_casefold_of_single {v w : List Char} (hv : Single u v) (hw : Single u w)
    (h : v.flatMap u.casefold = w.flatMap u.casefold) : v.map u.casefold = w.map u.casefold := by
  induction v generalizing w with
  | nil =>
    cases w with
    | nil => rfl
    | cons d w =>
      have hlength := congrArg List.length h
      rw [List.flatMap_cons, List.length_append, hw d List.mem_cons_self, List.flatMap_nil, List.length_nil] at hlength
      omega
  | cons c v ih =>
    have hone := hv c List.mem_cons_self
    cases w with
    | nil =>
      have hlength := congrArg List.length h
      rw [List.flatMap_cons, List.length_append, hone, List.flatMap_nil, List.length_nil] at hlength
      omega
    | cons d w =>
      rw [List.flatMap_cons, List.flatMap_cons] at h
      obtain ⟨hhead, htail⟩ := List.append_inj h (hone.trans (hw d List.mem_cons_self).symm)
      have hrest := ih (fun e he => hv e (List.mem_cons_of_mem _ he)) (fun e he => hw e (List.mem_cons_of_mem _ he)) htail
      rw [List.map_cons, List.map_cons, hhead, hrest]

/-- Some word of a folder of the show is folded to what a word of the name is. -/
theorem exists_word_of_showKey {name entry : FolderName} (hkey : (showKey u name).1 = "name".toList)
    (hsame : showKey u entry = showKey u name) {w : List Char} (hw : w ∈ words name) (hne : w.flatMap u.casefold ≠ []) :
    ∃ v ∈ words entry, v.flatMap u.casefold = w.flatMap u.casefold := by
  have hbare : ∀ {s : FolderName}, (showKey u s).1 = "name".toList → showKey u s = ("name".toList, bareName u s) :=
    fun hs => (showKey_cases u _).resolve_left fun h => h.2 hs
  have hfold : bareName u entry = bareName u name := by
    have hpair := hsame
    rw [hbare (hsame ▸ hkey), hbare hkey] at hpair
    exact (Prod.mk.inj hpair).2
  have hmem : w.flatMap u.casefold ∈ (bareName u entry).splitOn ' ' := by
    rw [hfold, splitOn_bareName u (List.ne_nil_of_mem hw)]
    exact List.mem_map.2 ⟨w, hw, rfl⟩
  by_cases hentry : words entry = []
  · have hnil : bareName u entry = [] := by rw [bareName, hentry]; rfl
    rw [hnil, List.splitOn_nil, List.mem_singleton] at hmem
    exact absurd hmem hne
  · rw [splitOn_bareName u hentry] at hmem
    exact List.mem_map.1 hmem

/-- **Names whose characters are each folded to one are found.** -/
theorem findable_of_single {name : FolderName} {entries : List FolderName} (hname : Single u name)
    (hentries : ∀ entry ∈ entries, Single u entry)
    (hempty : words name = [] → (entries.filter fun entry => '\n' ∉ entry) ≠ [[]]) : Findable u name entries := by
  by_cases hkey : (showKey u name).1 = "name".toList
  · by_cases hwords : words name = []
    · exact .inr (.inr ⟨hwords, hempty hwords⟩)
    · refine findable_of_foldsAlike hwords fun w hw entry hmem hwanted => ?_
      have hsingle : ∀ {s : FolderName} {w : List Char}, Single u s → w ∈ words s → Single u w := fun hs hw c hc =>
        hs c ((mem_words hw).1.subset hc)
      have hone := hsingle hname hw.mem
      have hne : w.flatMap u.casefold ≠ [] := by
        obtain ⟨c, hc⟩ := List.exists_mem_of_ne_nil _ (mem_words hw.mem).2.1
        intro hnil
        have hlength := hone c hc
        rw [List.flatMap_eq_nil_iff.1 hnil c hc] at hlength
        cases hlength
      obtain ⟨v, hv, hfold⟩ := exists_word_of_showKey hkey hwanted.2 hw.mem hne
      exact ⟨v, hv, map_casefold_of_single (hsingle (hentries entry hmem) hv) hone hfold⟩
  · exact .inl hkey

/-! ### Where it is not -/

/-- The capital letters of ASCII with their small ones. -/
def asciiLetters : List (Char × Char) := "ABCDEFGHIJKLMNOPQRSTUVWXYZ".toList.zip "abcdefghijklmnopqrstuvwxyz".toList

/-- The small letter of a letter of ASCII. -/
def asciiLower (c : Char) : Char := (asciiLetters.lookup c).getD c

theorem asciiLower_ne {c d : Char} (hd : d ∉ asciiLetters.map Prod.snd) (h : asciiLower c = d) : c = d := by
  unfold asciiLower at h
  cases hlookup : asciiLetters.lookup c with
  | none => rwa [hlookup] at h
  | some e =>
    obtain ⟨before, after, hletters, -⟩ := List.lookup_eq_some_iff.1 hlookup
    rw [hlookup] at h
    obtain rfl : e = d := h
    refine absurd (List.mem_map.2 ⟨(c, e), ?_, rfl⟩) hd
    rw [hletters]
    exact List.mem_append_right _ List.mem_cons_self

/-- Characters as far as ASCII and `ß`. -/
def latin : Characters where
  isAlpha c := c ∈ asciiLetters.map Prod.fst ∨ c ∈ asciiLetters.map Prod.snd ∨ c = 'ß'
  casefold c := if c = 'ß' then ['s', 's'] else [asciiLower c]
  same p c := asciiLower p = asciiLower c
  same_self c := decide_eq_true rfl
  same_newline c h := asciiLower_ne (by decide) (of_decide_eq_true h)
  same_t := by decide
  same_of_casefold a b h := by
    split_ifs at h with ha hb hb
    · rw [ha, hb]
      exact decide_eq_true rfl
    · simp at h
    · simp at h
    · exact decide_eq_true (List.singleton_inj.1 h)
  casefold_space := by decide
  space_of_casefold c h := by
    split_ifs at h with hc
    · exact absurd h (by decide)
    · exact asciiLower_ne (by decide) (List.mem_singleton.1 h).symm

/-- A show whose name is spelled with `ß` is not found where it is spelled with `ss`, nor is an empty name alone. -/
theorem not_findsShow_latin :
    ¬FindsShow latin "Weißensee".toList ["WEISSENSEE".toList] (.inl ["WEISSENSEE".toList]) ∧
      ¬FindsShow latin [] [[]] (.inl [[]]) := by
  constructor
  · intro h
    obtain hid | ⟨hwords, hspells⟩ | ⟨hwords, -⟩ := (findsShow_iff _ _ _).1 h
    · exact hid (by decide +kernel)
    · have hwanted : Wanted latin "Weißensee".toList "WEISSENSEE".toList := ⟨by decide, by decide +kernel⟩
      have hholds := holds_iff.2 (hspells _ (longestWord_hintWord latin hwords) _ List.mem_cons_self hwanted)
      exact absurd hholds (by decide +kernel)
    · exact absurd hwords (by decide +kernel)
  · intro h
    obtain hid | ⟨hwords, -⟩ | ⟨-, hlines⟩ := (findsShow_iff _ _ _).1 h
    · exact hid rfl
    · exact hwords (by decide +kernel)
    · exact hlines rfl

/-- The show is found where `ß` is spelled `ß`, whatever the case of the rest. -/
theorem sameShowNames_iff_sharpS :
    FoldsAlike latin "Weißensee".toList ["WEIßENSEE".toList] ∧
      FindsShow latin "Weißensee".toList ["WEIßENSEE".toList] (.inl ["WEIßENSEE".toList]) := by
  have hwords : words "Weißensee".toList ≠ [] := by decide +kernel
  have halike : FoldsAlike latin "Weißensee".toList ["WEIßENSEE".toList] := by
    intro w hw entry hmem _
    obtain rfl := hw.eq_hintWord
    obtain rfl := List.mem_singleton.1 hmem
    exact ⟨"WEIßENSEE".toList, by decide +kernel, by decide +kernel⟩
  obtain ⟨hlist, -, hfindable⟩ := sameShowNames_iff latin "Weißensee".toList ["WEIßENSEE".toList]
  exact ⟨halike, hlist.2 (hfindable hwords halike)⟩

/-- Another word may spell it too: `ssx`, where the word that is folded to `ss` is `ß`. -/
example : sameShowNames latin "ss ßx".toList (.inl ["ß ssx".toList]) = ["ß ssx".toList] := by decide +kernel

end MediaPreview.Markers
