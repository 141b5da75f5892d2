import Mathlib.Data.List.SplitBy
import Mathlib.Order.Lattice

/-!
# Chains of joined elements

A list splits into its maximal chains of joined neighbours (`List.splitBy`). A loop that goes over the list once need only
keep the ends of each chain: the next element makes the last chain longer, or begins one (`extend`, `chainEnds_concat`).
In a sorted list the chains stand one after another (`pairwise_chainEnds`), each between its ends (`between_of_ends`).
-/

namespace MediaPreview.Chains

variable {α : Type*} (r : α → α → Bool)

/-- The ends of a chain. -/
def ends (m : List α) : Option (α × α) := m.head?.bind fun a => m.getLast?.map fun b => (a, b)

/-- The ends of the maximal chains of a list. -/
def chainEnds (l : List α) : List (α × α) := (l.splitBy r).filterMap ends

/-- A further element, after chains of which the last comes first. -/
def extend (x : α) : List (α × α) → List (α × α)
  | [] => [(x, x)]
  | (a, b) :: earlier => if r b x then (a, x) :: earlier else (x, x) :: (a, b) :: earlier

variable {r}

theorem ends_eq_some {m : List α} {a b : α} : ends m = some (a, b) ↔ m.head? = some a ∧ m.getLast? = some b := by
  rw [ends, Option.bind_eq_some_iff]
  constructor
  · rintro ⟨x, hx, h⟩
    obtain ⟨y, hy, h⟩ := Option.map_eq_some_iff.1 h
    obtain ⟨rfl, rfl⟩ := Prod.mk.inj h
    exact ⟨hx, hy⟩
  · rintro ⟨ha, hb⟩
    exact ⟨a, ha, by rw [hb]; rfl⟩

theorem ends_singleton (x : α) : ends [x] = some (x, x) := rfl

/-- A chain has ends. -/
theorem exists_ends {m : List α} (h : m ≠ []) : ∃ a b, ends m = some (a, b) :=
  ⟨m.head h, m.getLast h, ends_eq_some.2 ⟨List.head?_eq_some_head h, List.getLast?_eq_some_getLast h⟩⟩

theorem ends_concat {m : List α} {a b : α} (h : ends m = some (a, b)) (x : α) : ends (m ++ [x]) = some (a, x) := by
  obtain ⟨ha, -⟩ := ends_eq_some.1 h
  refine ends_eq_some.2 ⟨?_, List.getLast?_concat⟩
  rw [List.head?_append, ha]
  rfl

/-- An element joined to the last one makes its chain longer. -/
theorem splitBy_concat_of_rel {l : List α} {init : List (List α)} {m : List α} {b : α} (hl : l.splitBy r = init ++ [m])
    (hb : m.getLast? = some b) {x : α} (hx : r b x = true) : (l ++ [x]).splitBy r = init ++ [m ++ [x]] := by
  obtain ⟨hflatten, hnil, hchain, hapart⟩ := List.splitBy_eq_iff.1 hl
  have hm : m ≠ [] := by
    rintro rfl
    cases hb
  refine List.splitBy_eq_iff.2 ⟨?_, ?_, ?_, ?_⟩
  · rw [hflatten]
    simp
  · rw [List.mem_append, not_or] at hnil ⊢
    exact ⟨hnil.1, by simp⟩
  · intro c hc
    obtain hc | hc := List.mem_append.1 hc
    · exact hchain c (List.mem_append_left _ hc)
    · obtain rfl := List.mem_singleton.1 hc
      refine List.isChain_append.2 ⟨hchain m (List.mem_append_right _ (List.mem_singleton.2 rfl)),
        List.isChain_singleton x, fun y hy z hz => ?_⟩
      obtain rfl := Option.some.inj (hb.symm.trans hy)
      obtain rfl := Option.some.inj hz
      exact hx
  · rw [List.isChain_append] at hapart ⊢
    refine ⟨hapart.1, List.isChain_singleton _, fun c hc c' hc' => ?_⟩
    obtain ⟨hne, hne', hr⟩ := hapart.2.2 c hc m rfl
    obtain rfl := Option.some.inj hc'
    exact ⟨hne, by simp, by rwa [List.head_append_of_ne_nil hm]⟩

theorem splitBy_concat_of_not_rel {l : List α} {x : α} (hx : ∀ b, l.getLast? = some b → r b x = false) :
    (l ++ [x]).splitBy r = l.splitBy r ++ [[x]] :=
  List.splitBy_append_cons [] fun b hb => hx b hb

/-- The last chain ends in the list's last element. -/
theorem getLast?_of_splitBy {l : List α} {init : List (List α)} {m : List α} (hl : l.splitBy r = init ++ [m]) :
    l.getLast? = m.getLast? := by
  obtain ⟨hflatten, hnil, -⟩ := List.splitBy_eq_iff.1 hl
  have hm : m ≠ [] := by
    rintro rfl
    exact hnil (List.mem_append_right _ (List.mem_singleton.2 rfl))
  rw [hflatten, List.flatten_append, List.flatten_singleton, List.getLast?_append_of_ne_nil _ hm]

/-- **The ends of the chains when an element comes.** -/
theorem chainEnds_concat (l : List α) (x : α) :
    (chainEnds r (l ++ [x])).reverse = extend r x (chainEnds r l).reverse := by
  obtain hsplit | ⟨init, m, hsplit⟩ := List.eq_nil_or_concat (l.splitBy r)
  · obtain rfl := List.splitBy_eq_nil.1 hsplit
    rfl
  · rw [List.concat_eq_append] at hsplit
    have hlast := getLast?_of_splitBy hsplit
    have hm : m ≠ [] := List.ne_nil_of_mem_splitBy (r := r) (l := l) (by rw [hsplit]; simp)
    obtain ⟨a, b, hends⟩ := exists_ends hm
    have hb := (ends_eq_some.1 hends).2
    rw [chainEnds, chainEnds, hsplit, List.filterMap_append, List.filterMap_cons, hends, List.filterMap_nil,
      List.reverse_append, List.reverse_singleton, List.singleton_append, extend]
    by_cases hx : r b x = true
    · rw [if_pos hx, splitBy_concat_of_rel hsplit hb hx, List.filterMap_append, List.filterMap_cons, ends_concat hends]
      simp
    · rw [if_neg hx, splitBy_concat_of_not_rel, hsplit]
      · simp [List.filterMap_append, hends, ends_singleton]
      · intro c hc
        rw [hlast, hb] at hc
        obtain rfl := Option.some.inj hc
        exact Bool.eq_false_iff.2 hx

/-! ### Chains of a sorted list -/

theorem mem_chainEnds {l : List α} {e : α × α} : e ∈ chainEnds r l ↔ ∃ m ∈ l.splitBy r, ends m = some e :=
  List.mem_filterMap

theorem mem_of_ends {m : List α} {a b : α} (h : ends m = some (a, b)) : a ∈ m ∧ b ∈ m :=
  ⟨List.mem_of_mem_head? (ends_eq_some.1 h).1, List.mem_of_mem_getLast? (ends_eq_some.1 h).2⟩

theorem mem_of_mem_splitBy {l m : List α} (hm : m ∈ l.splitBy r) {x : α} (hx : x ∈ m) : x ∈ l := by
  rw [← List.flatten_splitBy r l]
  exact List.mem_flatten.2 ⟨m, hm, hx⟩

/-- Every element is in a chain. -/
theorem exists_chain {l : List α} {x : α} (h : x ∈ l) : ∃ m ∈ l.splitBy r, x ∈ m := by
  rw [← List.flatten_splitBy r l] at h
  exact List.mem_flatten.1 h

section Sorted

variable [Preorder α] {l : List α} (hl : l.Pairwise (· < ·))

include hl

/-- The elements of a chain lie between its ends. -/
theorem between_of_ends {m : List α} (hm : m ∈ l.splitBy r) {a b x : α} (h : ends m = some (a, b)) (hx : x ∈ m) :
    a ≤ x ∧ x ≤ b := by
  have hsorted : m.Pairwise (· < ·) := by
    rw [← List.flatten_splitBy r l] at hl
    exact (List.pairwise_flatten.1 hl).1 m hm
  obtain ⟨ha, hb⟩ := ends_eq_some.1 h
  obtain ⟨tail, rfl⟩ := List.head?_eq_some_iff.1 ha
  constructor
  · obtain rfl | hx := List.mem_cons.1 hx
    · exact le_rfl
    · exact ((List.pairwise_cons.1 hsorted).1 x hx).le
  · obtain ⟨init, hinit⟩ := List.getLast?_eq_some_iff.1 hb
    rw [hinit] at hsorted hx
    obtain hx | hx := List.mem_append.1 hx
    · exact ((List.pairwise_append.1 hsorted).2.2 x hx b (List.mem_singleton.2 rfl)).le
    · exact (List.mem_singleton.1 hx).le

/-- **The chains stand one after another.** -/
theorem pairwise_chainEnds : (chainEnds r l).Pairwise fun e e' => e.2 < e'.1 := by
  rw [← List.flatten_splitBy r l] at hl
  rw [chainEnds, List.pairwise_filterMap]
  refine (List.pairwise_flatten.1 hl).2.imp fun {m m'} h e he e' he' => ?_
  exact h _ (mem_of_ends he).2 _ (mem_of_ends he').1

end Sorted

end MediaPreview.Chains
