import Mathlib.Data.List.DropRight

/-!
# Lists cut at a separator

A list over any type is read as segments between occurrences of one item, the
separator `c`, as a path is read between its slashes. The module has the three
things such reading needs.

* `rstrip c s` takes the separators off the end of `s`. What a string splits into is
  stated with `Cut c t`: `t` is empty or starts with the separator, so that `s ++ t` is
  `s` followed by whole segments.
* `SegmentMap c` is a map that treats the segments one by one: it is idempotent, and it
  leaves the separator alone. It commutes with `rstrip` and with splitting at a cut.
* `collapse c s` writes one separator for each run of them.
-/

namespace MediaPreview.Separators

variable {α : Type} {c : α}

/-! ### Splitting between segments -/

/-- `t` is what may follow a whole segment: nothing, or the separator and more. -/
def Cut (c : α) (t : List α) : Prop := t = [] ∨ t.head? = some c

instance [DecidableEq α] (t : List α) : Decidable (Cut c t) := inferInstanceAs (Decidable (_ ∨ _))

theorem cut_nil : Cut c ([] : List α) := Or.inl rfl

theorem cut_cons (t : List α) : Cut c (c :: t) := Or.inr rfl

theorem cut_iff {t : List α} : Cut c t ↔ t = [] ∨ ∃ b, t = c :: b := by
  cases t with
  | nil => simp [Cut]
  | cons x b => simp [Cut]

theorem Cut.append {t u : List α} (ht : Cut c t) (hu : Cut c u) : Cut c (t ++ u) := by
  obtain rfl | ⟨b, rfl⟩ := cut_iff.1 ht
  · exact hu
  · exact cut_cons _

theorem cut_replicate (k : ℕ) : Cut c (List.replicate k c) := by
  cases k with
  | zero => exact cut_nil
  | succ k => exact cut_cons _

/-- A list with the separator in it splits at the last one. -/
theorem exists_last_split [DecidableEq α] {s : List α} (h : c ∈ s) : ∃ a b, s = a ++ c :: b ∧ c ∉ b := by
  induction s using List.reverseRecOn with
  | nil => simp at h
  | append_singleton s x ih =>
    by_cases hx : x = c
    · exact ⟨s, [], by rw [hx], by simp⟩
    · have hs : c ∈ s := by simpa [Ne.symm hx] using h
      obtain ⟨a, b, rfl, hb⟩ := ih hs
      exact ⟨a, b ++ [x], by simp, by simp [hb, Ne.symm hx]⟩

/-- **What stands before some separator is the start of what stands before the last one**, and whole
segments follow it there. -/
theorem cut_before_last {a t h b : List α} (e : a ++ c :: t = h ++ c :: b) (hb : c ∉ b) :
    ∃ u, h = a ++ u ∧ Cut c u := by
  obtain ⟨u, hu, htu⟩ | ⟨v, hv, hbv⟩ := List.append_eq_append_iff.1 e
  · cases u with
    | nil => exact ⟨[], hu, cut_nil⟩
    | cons x u =>
      obtain ⟨rfl, -⟩ := List.cons.inj htu
      exact ⟨_, hu, cut_cons u⟩
  · cases v with
    | nil => exact ⟨[], by rw [hv]; simp, cut_nil⟩
    | cons x v =>
      obtain ⟨-, rfl⟩ := List.cons.inj hbv
      simp at hb

/-- A segment boundary of `s` at the end of `a` shows in `s` with one separator put after it. -/
theorem cut_of_prefix {a s : List α} (h : a ++ [c] <+: s ++ [c]) : ∃ t, s = a ++ t ∧ Cut c t := by
  obtain ⟨w, hw⟩ := h
  rw [List.append_assoc, List.singleton_append] at hw
  obtain ⟨u, hu, hcut⟩ | ⟨u, hu, hcut⟩ := List.append_eq_append_iff.1 hw
  · cases u with
    | nil => exact ⟨[], by simpa using hu, cut_nil⟩
    | cons x u =>
      obtain ⟨rfl, -⟩ := List.cons.inj hcut
      exact ⟨_, hu, cut_cons u⟩
  · cases u with
    | nil => exact ⟨[], by simpa using hu.symm, cut_nil⟩
    | cons x u => simp at hcut

theorem run_append_cons (k : ℕ) (t : List α) :
    List.replicate k c ++ c :: t = c :: (List.replicate k c ++ t) := by
  rw [← List.singleton_append, ← List.append_assoc, ← List.replicate_succ', List.replicate_succ, List.cons_append]

theorem prefix_of_cut {t : List α} (a u : List α) (h : Cut c t) : a ++ [c] <+: a ++ t ++ c :: u := by
  obtain rfl | ⟨b, rfl⟩ := cut_iff.1 h
  · exact ⟨u, by simp⟩
  · exact ⟨b ++ c :: u, by simp⟩

/-! ### The separators at the end -/

section Strip

variable [DecidableEq α]

/-- `s` without the separators it ends with. -/
def rstrip (c : α) (s : List α) : List α := s.rdropWhile (· = c)

@[simp] theorem rstrip_nil : rstrip c [] = [] := rfl

theorem rstrip_concat (s : List α) (x : α) : rstrip c (s ++ [x]) = if x = c then rstrip c s else s ++ [x] := by
  simp [rstrip, List.rdropWhile_concat]

/-- What `rstrip` takes off is a run of separators. -/
theorem rstrip_append_run (c : α) (s : List α) : ∃ k, s = rstrip c s ++ List.replicate k c := by
  induction s using List.reverseRecOn with
  | nil => exact ⟨0, rfl⟩
  | append_singleton s x ih =>
    rw [rstrip_concat]
    split
    · rename_i hx
      obtain ⟨k, hk⟩ := ih
      refine ⟨k + 1, ?_⟩
      rw [List.replicate_succ', ← List.append_assoc, ← hk, hx]
    · exact ⟨0, by simp⟩

theorem rstrip_append (a b : List α) :
    rstrip c (a ++ b) = if rstrip c b = [] then rstrip c a else a ++ rstrip c b := by
  induction b using List.reverseRecOn with
  | nil => simp
  | append_singleton b x ih =>
    rw [← List.append_assoc, rstrip_concat, rstrip_concat]
    split
    · exact ih
    · simp

@[simp] theorem rstrip_replicate (k : ℕ) : rstrip c (List.replicate k c) = [] := by
  simp [rstrip, List.rdropWhile_eq_nil_iff]

@[simp] theorem rstrip_append_replicate (s : List α) (k : ℕ) :
    rstrip c (s ++ List.replicate k c) = rstrip c s := by
  rw [rstrip_append, if_pos (rstrip_replicate k)]

/-- Behind a list that ends in no separator only what is appended is stripped. -/
theorem rstrip_append_of_rstrip {a : List α} (h : rstrip c a = a) (b : List α) :
    rstrip c (a ++ b) = a ++ rstrip c b := by
  rw [rstrip_append]
  split
  · rename_i hb
    rw [h, hb, List.append_nil]
  · rfl

@[simp] theorem rstrip_rstrip (s : List α) : rstrip c (rstrip c s) = rstrip c s :=
  List.rdropWhile_idempotent _ _

theorem Cut.rstrip {t : List α} (ht : Cut c t) : Cut c (rstrip c t) := by
  obtain ⟨k, hk⟩ := rstrip_append_run c t
  cases hr : Separators.rstrip c t with
  | nil => exact cut_nil
  | cons x b =>
    rw [hr] at hk
    subst hk
    simpa [Cut] using ht

end Strip

/-! ### Maps of segments -/

/-- A normalisation of the segments: applying it again changes nothing, the separators stay where they
are, none appears and no segment vanishes. -/
structure SegmentMap (c : α) where
  /-- The map. -/
  map : List α → List α
  idem : ∀ s, map (map s) = map s
  split : ∀ a b, map (a ++ c :: b) = map a ++ c :: map b
  free : ∀ a, c ∉ a → c ∉ map a
  eq_nil : ∀ a, map a = [] ↔ a = []

namespace SegmentMap

variable (f : SegmentMap c)

@[simp] theorem map_nil : f.map [] = [] := (f.eq_nil []).2 rfl

@[simp] theorem map_cons (b : List α) : f.map (c :: b) = c :: f.map b := by
  simpa using f.split [] b

theorem map_append {t : List α} (a : List α) (ht : Cut c t) : f.map (a ++ t) = f.map a ++ f.map t := by
  obtain rfl | ⟨b, rfl⟩ := cut_iff.1 ht
  · simp
  · rw [f.split, map_cons]

theorem map_cut {t : List α} (ht : Cut c t) : Cut c (f.map t) := by
  obtain rfl | ⟨b, rfl⟩ := cut_iff.1 ht
  · rw [map_nil]
    exact cut_nil
  · rw [map_cons]
    exact cut_cons _

@[simp] theorem map_replicate (k : ℕ) : f.map (List.replicate k c) = List.replicate k c := by
  induction k with
  | zero => exact f.map_nil
  | succ k ih => rw [List.replicate_succ, map_cons, ih]

theorem map_run_append (k : ℕ) (s : List α) : f.map (List.replicate k c ++ s) = List.replicate k c ++ f.map s := by
  induction k with
  | zero => rfl
  | succ k ih => rw [List.replicate_succ, List.cons_append, map_cons, ih, List.cons_append]

section Strip

variable [DecidableEq α]

/-- A list that does not end with the separator keeps not ending with it. -/
theorem rstrip_map_of_rstrip {s : List α} (h : rstrip c s = s) : rstrip c (f.map s) = f.map s := by
  have hlast : ∀ b, c ∉ b → b ≠ [] → rstrip c b = b := by
    intro b hb hne
    rw [rstrip, List.rdropWhile_eq_self_iff]
    intro hl he
    rw [decide_eq_true_eq] at he
    exact hb (he ▸ List.getLast_mem hl)
  by_cases hs : s = []
  · rw [hs, map_nil, rstrip_nil]
  by_cases hc : c ∈ s
  · obtain ⟨a, b, rfl, hb⟩ := exists_last_split hc
    have hb0 : b ≠ [] := by
      rintro rfl
      rw [rstrip_concat, if_pos rfl] at h
      have hlen := congrArg List.length h
      have hle := (List.rdropWhile_prefix (p := (· = c)) a).length_le
      simp only [rstrip, List.length_append, List.length_singleton] at hlen
      omega
    have hfb : f.map b ≠ [] := fun he => hb0 ((f.eq_nil b).1 he)
    rw [f.split, ← List.singleton_append, ← List.append_assoc, rstrip_append, hlast _ (f.free b hb) hfb,
      if_neg hfb]
  · exact hlast _ (f.free s hc) fun he => hs ((f.eq_nil s).1 he)

/-- **The map and taking the separators off the end commute.** -/
theorem map_rstrip (s : List α) : f.map (rstrip c s) = rstrip c (f.map s) := by
  obtain ⟨k, hk⟩ := rstrip_append_run c s
  conv_rhs => rw [hk]
  rw [f.map_append _ (cut_replicate k), map_replicate, rstrip_append_replicate,
    f.rstrip_map_of_rstrip (rstrip_rstrip s)]

theorem map_rstrip_append {a t : List α} (h : rstrip c (f.map a) = f.map a) (ht : Cut c t) :
    f.map (rstrip c (a ++ t)) = f.map a ++ f.map (rstrip c t) := by
  rw [f.map_rstrip, f.map_append a ht, rstrip_append_of_rstrip h, f.map_rstrip]

end Strip

/-- A list that does not start with the separator keeps not starting with it. -/
theorem head?_map_ne {s : List α} (h : s.head? ≠ some c) : (f.map s).head? ≠ some c := by
  by_cases hc : c ∈ s
  · obtain ⟨a, b, rfl, ha⟩ := List.eq_append_cons_of_mem hc
    have hne : f.map a ≠ [] := by
      intro hnil
      rw [(f.eq_nil a).1 hnil] at h
      exact h rfl
    rw [f.split, List.head?_append_of_ne_nil _ hne]
    exact fun hhead => f.free a ha (List.mem_of_head? hhead)
  · exact fun hhead => f.free s hc (List.mem_of_head? hhead)

/-- The map and taking the separators off the front commute. -/
theorem map_dropWhile [DecidableEq α] (s : List α) :
    (f.map s).dropWhile (· = c) = f.map (s.dropWhile (· = c)) := by
  induction s with
  | nil => rw [f.map_nil, List.dropWhile_nil, f.map_nil]
  | cons x s ih =>
    by_cases hx : x = c
    · rw [hx, map_cons, List.dropWhile_cons_of_pos (by simp), List.dropWhile_cons_of_pos (by simp), ih]
    · have hhead : (f.map (x :: s)).head? ≠ some c := f.head?_map_ne (by simpa using hx)
      rw [List.dropWhile_cons_of_neg (by simpa using hx)]
      cases hm : f.map (x :: s) with
      | nil => rfl
      | cons y t =>
        rw [hm] at hhead
        rw [List.dropWhile_cons_of_neg (by simpa using hhead)]

end SegmentMap

/-! ### Runs of separators -/

/-- No two separators stand next to each other. -/
def Single (c : α) (s : List α) : Prop := s.IsChain fun x y => ¬ (x = c ∧ y = c)

theorem single_cons {x : α} {s : List α} : Single c (x :: s) ↔ ¬ (x = c ∧ s.head? = some c) ∧ Single c s := by
  cases s with
  | nil => simp [Single]
  | cons y s => simp [Single]

variable [DecidableEq α]

instance (s : List α) : Decidable (Single c s) := inferInstanceAs (Decidable (List.IsChain _ _))

/-- One separator for each run of them. -/
def collapse (c : α) : List α → List α
  | [] => []
  | x :: s => if x = c ∧ s.head? = some c then collapse c s else x :: collapse c s

/-- Nothing is collapsed where every separator stands alone. -/
theorem collapse_of_single {s : List α} (h : Single c s) : collapse c s = s := by
  induction s with
  | nil => rfl
  | cons x s ih =>
    obtain ⟨hx, hs⟩ := single_cons.1 h
    rw [collapse, if_neg hx, ih hs]

/-- One more separator at the start of a run changes nothing. -/
theorem collapse_append_double (a b : List α) : collapse c (a ++ c :: c :: b) = collapse c (a ++ c :: b) := by
  induction a with
  | nil => simp [collapse]
  | cons x a ih =>
    have hhead : (a ++ c :: c :: b).head? = (a ++ c :: b).head? := by cases a <;> rfl
    rw [List.cons_append, List.cons_append, collapse, collapse, ih, hhead]

theorem collapse_append_run (k : ℕ) (a b : List α) :
    collapse c (a ++ List.replicate k c ++ c :: b) = collapse c (a ++ c :: b) := by
  induction k with
  | zero => simp
  | succ k ih =>
    rw [List.replicate_succ', ← List.append_assoc, List.append_assoc (_ ++ _), List.singleton_append,
      collapse_append_double, ih]

/-- A list is a run of separators and what does not start with one. -/
theorem exists_run (c : α) (s : List α) :
    ∃ k, s = List.replicate k c ++ s.dropWhile (· = c) ∧ (s.dropWhile (· = c)).head? ≠ some c := by
  induction s with
  | nil => exact ⟨0, rfl, by simp⟩
  | cons x s ih =>
    by_cases hx : x = c
    · obtain ⟨k, hk, hhead⟩ := ih
      rw [List.dropWhile_cons_of_pos (by simpa using hx)]
      refine ⟨k + 1, ?_, hhead⟩
      rw [List.replicate_succ, List.cons_append, ← hk, hx]
    · rw [List.dropWhile_cons_of_neg (by simpa using hx)]
      exact ⟨0, rfl, by simpa using hx⟩

/-- Before a segment one separator or many make no difference. -/
theorem collapse_rstrip_run (k : ℕ) (a : List α) {b : List α} (hb : b ≠ []) (hhead : b.head? ≠ some c) :
    collapse c (rstrip c (a ++ (List.replicate k c ++ c :: b))) = collapse c (rstrip c (a ++ c :: b)) := by
  have hne : rstrip c b ≠ [] := by
    intro hnil
    obtain ⟨n, hn⟩ := rstrip_append_run c b
    rw [hnil, List.nil_append] at hn
    cases n with
    | zero => exact hb hn
    | succ n =>
      rw [hn] at hhead
      exact hhead rfl
  have hstrip : ∀ s : List α, rstrip c (s ++ c :: b) = s ++ c :: rstrip c b := by
    intro s
    rw [← List.singleton_append, ← List.append_assoc, rstrip_append, if_neg hne]
    simp
  rw [← List.append_assoc, hstrip, hstrip, collapse_append_run]

end MediaPreview.Separators
