import Mathlib.Data.List.Dedup
import Mathlib.Data.List.Infix
import Mathlib.Data.List.Nodup
import Mathlib.Data.List.Sort
import Mathlib.Data.List.TakeWhile

/-!
# Searching joined lines

Lines over any type, joined by one item `sep`, are searched for a pattern in one scan of the joined text: each match's
line is found by its start. The scan takes matches that do not overlap, as a regular expression's `finditer` does. As
long as no item of the pattern matches the separator, what it finds are the lines that hold the pattern
(`perm_found`).
-/

namespace MediaPreview.Lines

variable {α : Type} {sep : α}

/-! ### Scanning -/

/-- The places a pattern matches, where `len s` is how much of the front of `s` it takes: after a match the scan goes on
behind it. -/
def finditer (len : List α → Option ℕ) : ℕ → ℕ → List α → List ℕ
  | _, _, [] => []
  | skip + 1, i, _ :: s => finditer len skip (i + 1) s
  | 0, i, c :: s =>
    match len (c :: s) with
    | some k => i :: finditer len (k - 1) (i + 1) s
    | none => finditer len 0 (i + 1) s

/-- The text starts with the pattern, item by item. -/
def startsWith (m : α → α → Bool) : List α → List α → Bool
  | [], _ => true
  | _ :: _, [] => false
  | p :: ps, c :: cs => m p c && startsWith m ps cs

/-- The text holds the pattern. -/
def holds (m : α → α → Bool) (ps s : List α) : Bool := s.tails.any (startsWith m ps)

/-- What a pattern takes of the front. -/
def taken (m : α → α → Bool) (ps s : List α) : Option ℕ := if startsWith m ps s then some ps.length else none

/-! ### Patterns -/

variable {m : α → α → Bool} {ps : List α}

theorem length_le_of_startsWith {s : List α} (h : startsWith m ps s = true) : ps.length ≤ s.length := by
  induction ps generalizing s with
  | nil => exact Nat.zero_le _
  | cons p ps ih =>
    cases s with
    | nil => cases h
    | cons c s =>
      rw [startsWith, Bool.and_eq_true] at h
      exact Nat.succ_le_succ (ih h.2)

/-- **No match goes over a separator.** -/
theorem startsWith_append_sep (hsep : ∀ p ∈ ps, m p sep = false) (s t : List α) :
    startsWith m ps (s ++ sep :: t) = startsWith m ps s := by
  induction ps generalizing s with
  | nil => simp [startsWith]
  | cons p ps ih =>
    cases s with
    | nil => simp [startsWith, hsep p List.mem_cons_self]
    | cons c s => rw [List.cons_append, startsWith, startsWith, ih fun q hq => hsep q (List.mem_cons_of_mem _ hq)]

theorem holds_cons (c : α) (s : List α) : holds m ps (c :: s) = (startsWith m ps (c :: s) || holds m ps s) := by
  rw [holds, List.tails_cons, List.any_cons, holds]

theorem startsWith_nil (hne : ps ≠ []) : startsWith m ps [] = false := by
  cases ps with
  | nil => exact absurd rfl hne
  | cons p ps => rfl

theorem holds_nil (hne : ps ≠ []) : holds m ps [] = false := by
  simp [holds, startsWith_nil hne]

/-- The text starts with a stretch that matches item by item. -/
theorem startsWith_iff {s : List α} :
    startsWith m ps s = true ↔ ∃ v, v <+: s ∧ List.Forall₂ (fun p c => m p c = true) ps v := by
  constructor
  · intro h
    induction ps generalizing s with
    | nil => exact ⟨[], List.nil_prefix, .nil⟩
    | cons p ps ih =>
      cases s with
      | nil => cases h
      | cons c s =>
        rw [startsWith, Bool.and_eq_true] at h
        obtain ⟨v, hv, hmatch⟩ := ih h.2
        exact ⟨c :: v, List.cons_prefix_cons.2 ⟨rfl, hv⟩, .cons h.1 hmatch⟩
  · rintro ⟨v, ⟨r, rfl⟩, hmatch⟩
    induction hmatch with
    | nil => rfl
    | cons hpc _ ih => rw [List.cons_append, startsWith, hpc, ih, Bool.and_self]

/-- **The text holds the pattern where a stretch of it matches item by item.** -/
theorem holds_iff {s : List α} :
    holds m ps s = true ↔ ∃ v, v <:+: s ∧ List.Forall₂ (fun p c => m p c = true) ps v := by
  rw [holds, List.any_eq_true]
  constructor
  · rintro ⟨t, ht, hstart⟩
    obtain ⟨v, hv, hmatch⟩ := startsWith_iff.1 hstart
    exact ⟨v, hv.isInfix.trans ((List.mem_tails _ _).1 ht).isInfix, hmatch⟩
  · rintro ⟨v, ⟨before, after, rfl⟩, hmatch⟩
    refine ⟨v ++ after, ?_, startsWith_iff.2 ⟨v, List.prefix_append v after, hmatch⟩⟩
    rw [List.mem_tails, List.append_assoc]
    exact List.suffix_append before (v ++ after)

/-- A text holds what an infix of it is matched by. -/
theorem holds_of_infix {s w : List α} (h : w <:+: s) (hw : startsWith m ps w = true) : holds m ps s = true := by
  obtain ⟨v, hv, hmatch⟩ := startsWith_iff.1 hw
  exact holds_iff.2 ⟨v, hv.isInfix.trans h, hmatch⟩

/-! ### Matches line by line -/

theorem finditer_append (hne : ps ≠ []) (hsep : ∀ p ∈ ps, m p sep = false) {skip : ℕ} (i : ℕ) {s : List α} (hskip : skip ≤ s.length)
    (t : List α) : finditer (taken m ps) skip i (s ++ sep :: t) =
      finditer (taken m ps) skip i s ++ finditer (taken m ps) 0 (i + s.length + 1) t := by
  induction s generalizing skip i with
  | nil =>
    obtain rfl := Nat.le_zero.1 hskip
    have hnone : startsWith m ps (sep :: t) = false := by
      have hnil := startsWith_append_sep hsep [] t
      rwa [List.nil_append, startsWith_nil hne] at hnil
    have htaken : taken m ps (sep :: t) = none := by
      rw [taken, hnone]
      rfl
    show (match taken m ps (sep :: t) with
      | some k => i :: finditer (taken m ps) (k - 1) (i + 1) t
      | none => finditer (taken m ps) 0 (i + 1) t) = _
    rw [htaken]
    rfl
  | cons c s ih =>
    rw [List.length_cons] at hskip ⊢
    rw [List.cons_append, ← Nat.add_assoc, Nat.add_right_comm i s.length 1]
    cases skip with
    | succ skip => exact ih (i + 1) (Nat.le_of_succ_le_succ hskip)
    | zero =>
      have hstart := startsWith_append_sep hsep (c :: s) t
      rw [List.cons_append] at hstart
      rw [finditer, finditer, taken, taken, hstart]
      cases hmatch : startsWith m ps (c :: s) with
      | false => exact ih (i + 1) (Nat.zero_le _)
      | true =>
        have hlength := length_le_of_startsWith hmatch
        rw [List.length_cons] at hlength
        simp only [if_true, List.cons_append]
        rw [ih (i + 1) (by omega)]

/-- There is a match if there is a place the pattern is at. -/
theorem finditer_eq_nil (hne : ps ≠ []) (i : ℕ) {s : List α} :
    finditer (taken m ps) 0 i s = [] ↔ holds m ps s = false := by
  induction s generalizing i with
  | nil => simp [finditer, holds_nil hne]
  | cons c s ih =>
    rw [finditer, taken, holds_cons]
    cases hmatch : startsWith m ps (c :: s) with
    | false =>
      rw [Bool.false_or]
      exact ih (i + 1)
    | true => simp

/-- Matches are within the text. -/
theorem lt_of_mem_finditer {skip i k : ℕ} {s : List α} (h : k ∈ finditer (taken m ps) skip i s) :
    i ≤ k ∧ k < i + s.length := by
  induction s generalizing skip i with
  | nil => cases h
  | cons c s ih =>
    rw [List.length_cons]
    have hlater : ∀ {skip : ℕ}, k ∈ finditer (taken m ps) skip (i + 1) s → i ≤ k ∧ k < i + (s.length + 1) := by
      intro skip hk
      obtain ⟨hle, hlt⟩ := ih hk
      omega
    cases skip with
    | succ skip => exact hlater h
    | zero =>
      rw [finditer] at h
      cases hlen : taken m ps (c :: s) with
      | none =>
        rw [hlen] at h
        exact hlater h
      | some len =>
        rw [hlen] at h
        obtain rfl | h := List.mem_cons.1 h
        · omega
        · exact hlater h

/-! ### Lines -/

variable [DecidableEq α]

/-- The start of the line a place is on. -/
def lineStart (sep : α) (text : List α) (i : ℕ) : ℕ := i - ((text.take i).reverse.takeWhile (· ≠ sep)).length

/-- The line that starts there. -/
def lineAt (sep : α) (text : List α) (start : ℕ) : List α := (text.drop start).takeWhile (· ≠ sep)

/-- The starts of the lines with a match, each once, in order. -/
def lineStarts (sep : α) (m : α → α → Bool) (ps text : List α) : List ℕ :=
  ((finditer (taken m ps) 0 0 text).map (lineStart sep text)).dedup.mergeSort fun a b => a ≤ b

/-- The lines with a match. -/
def found (sep : α) (m : α → α → Bool) (ps text : List α) : List (List α) :=
  (lineStarts sep m ps text).map (lineAt sep text)


/-- Joined lines. -/
def join (sep : α) (lines : List (List α)) : List α := [sep].intercalate lines

/-- The lines with their starts in the joined text, the first starting at `i`. -/
def starts : ℕ → List (List α) → List (ℕ × List α)
  | _, [] => []
  | i, line :: lines => (i, line) :: starts (i + line.length + 1) lines

omit [DecidableEq α] in
theorem map_snd_starts (i : ℕ) (lines : List (List α)) : (starts i lines).map Prod.snd = lines := by
  induction lines generalizing i with
  | nil => rfl
  | cons line lines ih => rw [starts, List.map_cons, ih]

omit [DecidableEq α] in
theorem le_of_mem_starts {i : ℕ} {lines : List (List α)} {start : ℕ} {line : List α} (h : (start, line) ∈ starts i lines) :
    i ≤ start := by
  induction lines generalizing i with
  | nil => cases h
  | cons line' lines ih =>
    obtain h | h := List.mem_cons.1 h
    · exact (Prod.mk.inj h).1.ge
    · have := ih h
      omega

omit [DecidableEq α] in
theorem nodup_starts (i : ℕ) (lines : List (List α)) : ((starts i lines).map Prod.fst).Nodup := by
  induction lines generalizing i with
  | nil => exact List.nodup_nil
  | cons line lines ih =>
    rw [starts, List.map_cons, List.nodup_cons]
    refine ⟨fun hmem => ?_, ih _⟩
    obtain ⟨⟨start, line'⟩, hmem, rfl⟩ := List.mem_map.1 hmem
    have := le_of_mem_starts hmem
    omega

/-- What may stand before a line: nothing, or whole lines each with its separator. -/
def Before (sep : α) (before : List α) : Prop := before = [] ∨ ∃ b, before = b ++ [sep]

theorem lineStart_append {before line rest : List α} (hb : Before sep before) (hline : sep ∉ line) {k : ℕ}
    (hk : k ≤ line.length) : lineStart sep (before ++ (line ++ rest)) (before.length + k) = before.length := by
  have htake : (before ++ (line ++ rest)).take (before.length + k) = before ++ line.take k := by
    rw [List.take_length_add_append, List.take_append_of_le_length hk]
  have hnot : sep ∉ (line.take k).reverse := fun h => hline (List.mem_of_mem_take (List.mem_reverse.1 h))
  have hall : ∀ c ∈ (line.take k).reverse, decide (c ≠ sep) = true := by
    intro c hc
    exact decide_eq_true fun h => hnot (h ▸ hc)
  have hstop : (before.reverse.takeWhile fun c => decide (c ≠ sep)) = [] := by
    obtain rfl | ⟨b, rfl⟩ := hb
    · rfl
    · rw [List.reverse_append, List.reverse_singleton, List.singleton_append, List.takeWhile_cons_of_neg (by simp)]
  rw [lineStart, htake, List.reverse_append, List.takeWhile_append_of_pos hall, hstop, List.append_nil,
    List.length_reverse, List.length_take, min_eq_left hk, Nat.add_sub_cancel]

/-- **Each line is found at its start.** -/
theorem lineAt_of_mem_starts {before : List α} {lines : List (List α)} (hlines : ∀ line ∈ lines, sep ∉ line)
    {start : ℕ} {line : List α} (h : (start, line) ∈ starts before.length lines) :
    lineAt sep (before ++ join sep lines) start = line := by
  induction lines generalizing before with
  | nil => cases h
  | cons first lines ih =>
    have hfirst := hlines first List.mem_cons_self
    have hall : ∀ c ∈ first, decide (c ≠ sep) = true := fun c hc => decide_eq_true fun h => hfirst (h ▸ hc)
    obtain h | h := List.mem_cons.1 h
    · obtain ⟨rfl, rfl⟩ := Prod.mk.inj h
      rw [lineAt, List.drop_left, join]
      cases lines with
      | nil =>
        have htake : line.takeWhile (fun c => decide (c ≠ sep)) = line := List.takeWhile_eq_self_iff.2 hall
        rwa [List.intercalate_singleton]
      | cons second lines =>
        rw [List.intercalate_cons_cons, List.append_assoc, List.takeWhile_append_of_pos hall, List.singleton_append,
          List.takeWhile_cons_of_neg (by simp), List.append_nil]
    · cases lines with
      | nil => cases h
      | cons second lines =>
        have hrest : (start, line) ∈ starts (before ++ first ++ [sep]).length (second :: lines) := by
          rwa [List.length_append, List.length_append, List.length_singleton]
        rw [← ih (fun l hl => hlines l (List.mem_cons_of_mem _ hl)) hrest, join, List.intercalate_cons_cons, join]
        simp only [List.append_assoc]

/-- The matches on one line. -/
theorem mem_lineStart_line (hne : ps ≠ []) {before : List α} (hb : Before sep before) {line : List α}
    (hline : sep ∉ line) (rest : List α) (start : ℕ) :
    start ∈ (finditer (taken m ps) 0 before.length line).map (lineStart sep (before ++ (line ++ rest))) ↔
      start = before.length ∧ holds m ps line = true := by
  have hat : ∀ k ∈ finditer (taken m ps) 0 before.length line,
      lineStart sep (before ++ (line ++ rest)) k = before.length := by
    intro k hk
    obtain ⟨hle, hlt⟩ := lt_of_mem_finditer hk
    obtain ⟨d, rfl⟩ := Nat.exists_eq_add_of_le hle
    exact lineStart_append hb hline (by omega)
  rw [List.mem_map]
  constructor
  · rintro ⟨k, hk, rfl⟩
    refine ⟨hat k hk, ?_⟩
    rw [← Bool.not_eq_false, ← finditer_eq_nil hne before.length]
    exact List.ne_nil_of_mem hk
  · rintro ⟨rfl, hholds⟩
    rw [← Bool.not_eq_false, ← finditer_eq_nil hne before.length] at hholds
    obtain ⟨k, hk⟩ := List.exists_mem_of_ne_nil _ hholds
    exact ⟨k, hk, hat k hk⟩

/-- The line starts of matches are the starts of the lines that hold the pattern. -/
theorem mem_lineStart_iff (hne : ps ≠ []) (hsep : ∀ p ∈ ps, m p sep = false) {before : List α} (hb : Before sep before)
    {lines : List (List α)} (hlines : ∀ line ∈ lines, sep ∉ line) (start : ℕ) :
    start ∈ (finditer (taken m ps) 0 before.length (join sep lines)).map (lineStart sep (before ++ join sep lines)) ↔
      ∃ line, (start, line) ∈ starts before.length lines ∧ holds m ps line = true := by
  induction lines generalizing before with
  | nil => simp [join, finditer, starts]
  | cons first lines ih =>
    have hfirst := hlines first List.mem_cons_self
    cases lines with
    | nil =>
      have hone := mem_lineStart_line (m := m) hne hb hfirst [] start
      rw [List.append_nil] at hone
      rw [join, List.intercalate_singleton, hone]
      simp [starts]
    | cons second lines =>
      have hb' : Before sep (before ++ first ++ [sep]) := .inr ⟨_, rfl⟩
      have hrest := ih hb' fun l hl => hlines l (List.mem_cons_of_mem _ hl)
      have hjoin : join sep (first :: second :: lines) = first ++ sep :: join sep (second :: lines) := by
        rw [join, List.intercalate_cons_cons, List.append_assoc]
        rfl
      have hlength : (before ++ first ++ [sep]).length = before.length + first.length + 1 := by
        rw [List.length_append, List.length_append, List.length_singleton]
      have htext : before ++ first ++ [sep] ++ join sep (second :: lines) =
          before ++ (first ++ sep :: join sep (second :: lines)) := by
        simp only [List.append_assoc, List.singleton_append]
      rw [hlength, htext] at hrest
      rw [hjoin, finditer_append hne hsep _ (Nat.zero_le _), List.map_append, List.mem_append, hrest,
        mem_lineStart_line hne hb hfirst]
      rw [starts]
      constructor
      · rintro (⟨rfl, hholds⟩ | ⟨line, hmem, hholds⟩)
        · exact ⟨first, List.mem_cons_self, hholds⟩
        · exact ⟨line, List.mem_cons_of_mem _ hmem, hholds⟩
      · rintro ⟨line, hmem, hholds⟩
        obtain heq | hmem := List.mem_cons.1 hmem
        · obtain ⟨rfl, rfl⟩ := Prod.mk.inj heq
          exact .inl ⟨rfl, hholds⟩
        · exact .inr ⟨line, hmem, hholds⟩

/-- **The search finds the lines that hold the pattern**, each as often as it is there. -/
theorem perm_found (hne : ps ≠ []) (hsep : ∀ p ∈ ps, m p sep = false) {lines : List (List α)}
    (hlines : ∀ line ∈ lines, sep ∉ line) :
    (found sep m ps (join sep lines)).Perm (lines.filter (holds m ps)) := by
  have hmem : ∀ start, start ∈ (finditer (taken m ps) 0 0 (join sep lines)).map (lineStart sep (join sep lines)) ↔
      ∃ line, (start, line) ∈ starts 0 lines ∧ holds m ps line = true :=
    mem_lineStart_iff hne hsep (.inl rfl) hlines
  have hstarts : (lineStarts sep m ps (join sep lines)).Perm
      (((starts 0 lines).filter fun line => holds m ps line.2).map Prod.fst) := by
    refine (List.mergeSort_perm _ _).trans ((List.perm_ext_iff_of_nodup (List.nodup_dedup _) ?_).2 fun start => ?_)
    · exact (nodup_starts 0 lines).sublist (List.filter_sublist.map _)
    · rw [List.mem_dedup, hmem start]
      simp [List.mem_map, List.mem_filter]
  have hlineAt : ∀ line ∈ (starts 0 lines).filter (fun line => holds m ps line.2),
      (lineAt sep (join sep lines) ∘ Prod.fst) line = line.2 := by
    intro line hline
    have hstart : (line.1, line.2) ∈ starts ([] : List α).length lines := (List.mem_filter.1 hline).1
    exact lineAt_of_mem_starts hlines hstart
  have hfilter : ((starts 0 lines).filter fun line => holds m ps line.2).map Prod.snd = lines.filter (holds m ps) := by
    conv_rhs => rw [← map_snd_starts 0 lines, List.filter_map]
    rfl
  rw [found, ← hfilter]
  refine (hstarts.map _).trans ?_
  rw [List.map_map, List.map_congr_left hlineAt]

end MediaPreview.Lines
