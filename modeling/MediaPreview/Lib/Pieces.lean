import Mathlib.Data.List.DropRight
import Mathlib.Data.List.Basic

/-!
# The pieces between separators

A list cut at every separator, what is empty left out (`pieces`): so that it does not matter how many separators stand
between two pieces, nor whether some stand in front of all or behind.

The pieces of two lists with a separator between them are those of the one and of the other (`pieces_append_cons`); what
keeps separators apart from the rest can be done to each piece (`pieces_flatMap`); and a coarser cut can be cut on
(`pieces_flatMap_pieces`).
-/

namespace MediaPreview.Pieces

variable {α : Type*}

/-- The pieces of a list that separators leave. -/
def pieces (p : α → Bool) (s : List α) : List (List α) := (s.splitOnP p).filter fun piece => !piece.isEmpty

variable {p : α → Bool}

@[simp] theorem pieces_nil : pieces p [] = [] := by simp [pieces]

/-- **Around a separator.** -/
theorem pieces_append_cons {c : α} (hc : p c = true) (a b : List α) :
    pieces p (a ++ c :: b) = pieces p a ++ pieces p b := by
  rw [pieces, List.splitOnP_append_cons a b hc, List.filter_append]
  rfl

theorem pieces_cons {c : α} (hc : p c = true) (b : List α) : pieces p (c :: b) = pieces p b := by
  have h := pieces_append_cons hc [] b
  rwa [List.nil_append, pieces_nil, List.nil_append] at h

theorem pieces_concat {c : α} (hc : p c = true) (a : List α) : pieces p (a ++ [c]) = pieces p a := by
  rw [pieces_append_cons hc, pieces_nil, List.append_nil]

/-- Without a separator there is one piece, or none of nothing. -/
theorem pieces_of_free {s : List α} (h : ∀ c ∈ s, p c = false) : pieces p s = if s = [] then [] else [s] := by
  rw [pieces, List.splitOnP_eq_singleton h]
  cases s <;> rfl

theorem ne_nil_of_mem_pieces {s piece : List α} (h : piece ∈ pieces p s) : piece ≠ [] := by
  have h := (List.mem_filter.1 h).2
  rintro rfl
  cases h

/-- **Every list is one piece, or one before a separator and a list.** -/
theorem cut_induction {motive : List α → Prop} (p : α → Bool) (free : ∀ s, (∀ c ∈ s, p c = false) → motive s)
    (cut : ∀ a c b, (∀ x ∈ a, p x = false) → p c = true → motive b → motive (a ++ c :: b)) (s : List α) : motive s := by
  have hall : ∀ n, ∀ s : List α, s.length ≤ n → motive s := by
    intro n
    induction n with
    | zero =>
      intro s hs
      obtain rfl := List.eq_nil_of_length_eq_zero (Nat.le_zero.1 hs)
      exact free [] fun c hc => absurd hc List.not_mem_nil
    | succ n ih =>
      intro s hs
      have hbefore : ∀ x ∈ s.takeWhile fun c => !p c, p x = false := fun x hx => by
        simpa using List.mem_takeWhile_imp hx
      cases hrest : s.dropWhile fun c => !p c with
      | nil =>
        refine free s fun c hc => ?_
        simpa using List.dropWhile_eq_nil_iff.1 hrest c hc
      | cons c b =>
        have hc : p c = true := by
          have hhead := List.head?_dropWhile_not (fun c => !p c) s
          rw [hrest] at hhead
          simpa using hhead
        have hs' : s = (s.takeWhile fun c => !p c) ++ c :: b := by rw [← hrest, List.takeWhile_append_dropWhile]
        rw [hs']
        refine cut _ c b hbefore hc (ih b ?_)
        have hlength := congrArg List.length hs'
        simp only [List.length_append, List.length_cons] at hlength
        omega
  exact hall s.length s le_rfl

/-- Separators in front leave no piece. -/
theorem pieces_dropWhile {q : α → Bool} (hq : ∀ c, q c = true → p c = true) (s : List α) :
    pieces p (s.dropWhile q) = pieces p s := by
  induction s with
  | nil => rfl
  | cons c s ih =>
    rw [List.dropWhile_cons]
    split_ifs with hc
    · rw [ih, pieces_cons (hq c hc)]
    · rfl

/-- Separators behind leave no piece. -/
theorem pieces_rdropWhile {q : α → Bool} (hq : ∀ c, q c = true → p c = true) (s : List α) :
    pieces p (s.rdropWhile q) = pieces p s := by
  induction s using List.reverseRecOn with
  | nil => rfl
  | append_singleton s c ih =>
    by_cases hc : q c = true
    · rw [List.rdropWhile_concat_pos q s c hc, ih, pieces_concat (hq c hc)]
    · rw [List.rdropWhile_concat_neg q s c hc]

/-- The first piece starts where the list does, if not with a separator. -/
theorem exists_pieces_cons {d : α} (hd : p d = false) (s : List α) :
    ∃ piece rest, pieces p (d :: s) = (d :: piece) :: rest := by
  have hfree : ∀ a : List α, (∀ c ∈ a, p c = false) → pieces p (d :: a) = [d :: a] := by
    intro a ha
    rw [pieces_of_free, if_neg (List.cons_ne_nil _ _)]
    intro c hc
    obtain rfl | hc := List.mem_cons.1 hc
    · exact hd
    · exact ha c hc
  induction s using cut_induction p with
  | free a ha => exact ⟨a, [], hfree a ha⟩
  | cut a c b ha hc _ =>
    refine ⟨a, pieces p b, ?_⟩
    rw [← List.cons_append, pieces_append_cons hc, hfree a ha]
    rfl

/-- What is in a piece is in the list. -/
theorem mem_of_mem_piece {s piece : List α} (h : piece ∈ pieces p s) {x : α} (hx : x ∈ piece) : x ∈ s := by
  have hfree : ∀ a : List α, (∀ c ∈ a, p c = false) → piece ∈ pieces p a → x ∈ a := by
    intro a ha h
    rw [pieces_of_free ha] at h
    split_ifs at h
    · cases h
    · exact List.mem_singleton.1 h ▸ hx
  induction s using cut_induction p with
  | free a ha => exact hfree a ha h
  | cut a c b ha hc ih =>
    rw [pieces_append_cons hc, List.mem_append] at h
    obtain h | h := h
    · exact List.mem_append_left _ (hfree a ha h)
    · exact List.mem_append_right _ (.tail _ (ih h))

/-- Only separators leave no piece. -/
theorem pieces_eq_nil_iff {s : List α} : pieces p s = [] ↔ ∀ c ∈ s, p c = true := by
  induction s with
  | nil => simp
  | cons d s ih =>
    cases hd : p d with
    | true => rw [pieces_cons hd, ih]; simp [hd]
    | false =>
      obtain ⟨piece, rest, hpieces⟩ := exists_pieces_cons hd s
      rw [hpieces]
      simp [hd]

/-- **Each piece is mapped**, where a separator stays itself and nothing else becomes one or vanishes. -/
theorem pieces_flatMap {f : α → List α} (hsep : ∀ c, p c = true → f c = [c])
    (hkeep : ∀ c, p c = false → f c ≠ [] ∧ ∀ d ∈ f c, p d = false) (s : List α) :
    pieces p (s.flatMap f) = (pieces p s).map fun piece => piece.flatMap f := by
  have hfree : ∀ a : List α, (∀ c ∈ a, p c = false) →
      pieces p (a.flatMap f) = (pieces p a).map fun piece => piece.flatMap f := by
    intro a ha
    rw [pieces_of_free ha, pieces_of_free]
    · cases a with
      | nil => rfl
      | cons c a =>
        have hne : (c :: a).flatMap f ≠ [] := by
          rw [List.flatMap_cons]
          exact List.append_ne_nil_of_left_ne_nil (hkeep c (ha c (.head _))).1 _
        rw [if_neg hne, if_neg (List.cons_ne_nil _ _)]
        rfl
    · intro d hd
      obtain ⟨c, hc, hd⟩ := List.mem_flatMap.1 hd
      exact (hkeep c (ha c hc)).2 d hd
  induction s using cut_induction p with
  | free a ha => exact hfree a ha
  | cut a c b ha hc ih =>
    rw [List.flatMap_append, List.flatMap_cons, hsep c hc, List.singleton_append, pieces_append_cons hc,
      pieces_append_cons hc, hfree a ha, ih, List.map_append]

/-- Another separator for each separator, and the pieces are the same. -/
theorem pieces_map_sep {f : α → α} (hsep : ∀ c, p c = true → p (f c) = true) (hkeep : ∀ c, p c = false → f c = c)
    (s : List α) : pieces p (s.map f) = pieces p s := by
  have hfree : ∀ a : List α, (∀ c ∈ a, p c = false) → a.map f = a := fun a ha =>
    (List.map_congr_left fun c hc => hkeep c (ha c hc)).trans (List.map_id a)
  induction s using cut_induction p with
  | free a ha => rw [hfree a ha]
  | cut a c b ha hc ih =>
    rw [List.map_append, List.map_cons, pieces_append_cons (hsep c hc), pieces_append_cons hc, ih, hfree a ha]

/-- **A coarser cut, cut on.** -/
theorem pieces_flatMap_pieces {q : α → Bool} (hq : ∀ c, q c = true → p c = true) (s : List α) :
    (pieces q s).flatMap (pieces p) = pieces p s := by
  have hfree : ∀ a : List α, (∀ c ∈ a, q c = false) → (pieces q a).flatMap (pieces p) = pieces p a := by
    intro a ha
    rw [pieces_of_free ha]
    split_ifs with hnil
    · rw [hnil, List.flatMap_nil, pieces_nil]
    · exact List.flatMap_singleton _ _
  induction s using cut_induction q with
  | free a ha => exact hfree a ha
  | cut a c b ha hc ih => rw [pieces_append_cons hc, List.flatMap_append, hfree a ha, ih, pieces_append_cons (hq c hc)]

end MediaPreview.Pieces
