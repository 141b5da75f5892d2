import Mathlib.Data.List.Sort
import Mathlib.Data.List.MinMax
import Mathlib.Data.List.Dedup
import Mathlib.Data.List.Forall2
import Mathlib.Data.List.Perm.Subperm
import Mathlib.Data.Prod.Lex

/-!
# Ranking by a key

Sorting and choosing by a key, as Python's `sorted(xs, key=…)` and `min(xs, key=…)`
do: the sort is stable, and `List.argmin` takes the first of several equally small.

A program whose answer must not depend on the order its inputs arrive in may use
these freely as long as what it takes from a result is determined by the key. The
lemmas say when that is so: a list is known up to its elements (`SameElems`), the
least key is then known (`map_argmin_congr`), and a sorted set is known outright when
no two elements share a key (`sortedSet_congr`).
-/

namespace MediaPreview.Ranking

variable {α β κ : Type*}

/-! ### Lists with the same elements -/

/-- Two lists have the same elements, in whatever order and however often. -/
def SameElems (l₁ l₂ : List α) : Prop := ∀ x, x ∈ l₁ ↔ x ∈ l₂

theorem SameElems.refl (l : List α) : SameElems l l := fun _ => Iff.rfl

theorem SameElems.symm {l₁ l₂ : List α} (h : SameElems l₁ l₂) : SameElems l₂ l₁ := fun x => (h x).symm

theorem SameElems.trans {l₁ l₂ l₃ : List α} (h : SameElems l₁ l₂) (h' : SameElems l₂ l₃) : SameElems l₁ l₃ :=
  fun x => (h x).trans (h' x)

theorem SameElems.of_perm {l₁ l₂ : List α} (h : l₁.Perm l₂) : SameElems l₁ l₂ := fun _ => h.mem_iff

theorem SameElems.filter {l₁ l₂ : List α} (h : SameElems l₁ l₂) (p : α → Bool) :
    SameElems (l₁.filter p) (l₂.filter p) := fun x => by simp only [List.mem_filter, h x]

theorem SameElems.map {l₁ l₂ : List α} (h : SameElems l₁ l₂) (f : α → β) : SameElems (l₁.map f) (l₂.map f) :=
  fun y => by simp only [List.mem_map, h _]

theorem SameElems.cons {l₁ l₂ : List α} (h : SameElems l₁ l₂) (a : α) : SameElems (a :: l₁) (a :: l₂) :=
  fun x => by simp only [List.mem_cons, h x]

theorem SameElems.append {l₁ l₂ m₁ m₂ : List α} (h : SameElems l₁ l₂) (h' : SameElems m₁ m₂) :
    SameElems (l₁ ++ m₁) (l₂ ++ m₂) := fun x => by simp only [List.mem_append, h x, h' x]

theorem SameElems.any_eq {l₁ l₂ : List α} (h : SameElems l₁ l₂) (p : α → Bool) : l₁.any p = l₂.any p := by
  rw [Bool.eq_iff_iff]
  simp only [List.any_eq_true, h _]

theorem SameElems.all_eq {l₁ l₂ : List α} (h : SameElems l₁ l₂) (p : α → Bool) : l₁.all p = l₂.all p := by
  rw [Bool.eq_iff_iff]
  simp only [List.all_eq_true, h _]

theorem SameElems.eq_nil_iff {l₁ l₂ : List α} (h : SameElems l₁ l₂) : l₁ = [] ↔ l₂ = [] := by
  simp only [List.eq_nil_iff_forall_not_mem, h _]

theorem SameElems.flatten {L₁ L₂ : List (List α)} (h : List.Forall₂ SameElems L₁ L₂) :
    SameElems L₁.flatten L₂.flatten := by
  induction h with
  | nil => exact .refl _
  | cons hl _ ih => simpa only [List.flatten_cons] using hl.append ih

theorem SameElems.filterMap {l₁ l₂ : List α} (h : SameElems l₁ l₂) (f : α → Option β) :
    SameElems (l₁.filterMap f) (l₂.filterMap f) := fun y => by simp only [List.mem_filterMap, h _]

/-- How many different elements there are is determined by the elements. -/
theorem SameElems.length_dedup_eq [DecidableEq α] {l₁ l₂ : List α} (h : SameElems l₁ l₂) :
    l₁.dedup.length = l₂.dedup.length := by
  refine List.Perm.length_eq ((List.perm_ext_iff_of_nodup (List.nodup_dedup _) (List.nodup_dedup _)).mpr fun x => ?_)
  simp only [List.mem_dedup, h x]

/-- The greatest element is determined by the elements. -/
theorem SameElems.max?_eq {l₁ l₂ : List ℤ} (h : SameElems l₁ l₂) : l₁.max? = l₂.max? := by
  ext a
  simp only [List.max?_eq_some_iff, h _]

/-- The least element is determined by the elements. -/
theorem SameElems.min?_eq {l₁ l₂ : List ℤ} (h : SameElems l₁ l₂) : l₁.min? = l₂.min? := by
  ext a
  simp only [List.min?_eq_some_iff, h _]

/-- A list with two different values under `f` has one different from any. -/
theorem exists_ne_of_two_le_dedup [DecidableEq β] {f : α → β} {l : List α} (h : 2 ≤ (l.map f).dedup.length) (b : β) :
    ∃ a ∈ l, f a ≠ b := by
  by_contra hc
  push Not at hc
  have hsub : (l.map f).dedup ⊆ [b] := by
    intro x hx
    obtain ⟨a, ha, rfl⟩ := List.mem_map.mp (List.mem_dedup.mp hx)
    rw [hc a ha]
    exact List.mem_singleton_self b
  have hle := (List.Nodup.subperm (List.nodup_dedup (l.map f)) hsub).length_le
  simp only [List.length_singleton] at hle
  omega

/-- Of what a list's members give, what carries one member's mark is what that member gives. -/
theorem filter_flatMap_eq [DecidableEq κ] {mark : β → κ} {f : κ → List β} {l : List κ} (hl : l.Nodup)
    (hf : ∀ k, ∀ b ∈ f k, mark b = k) {k : κ} (hk : k ∈ l) : (l.flatMap f).filter (fun b => mark b = k) = f k := by
  induction l with
  | nil => exact absurd hk List.not_mem_nil
  | cons a l ih =>
    obtain ⟨ha, hl⟩ := List.nodup_cons.mp hl
    rw [List.flatMap_cons, List.filter_append]
    rcases List.mem_cons.mp hk with rfl | hkl
    · have hrest : (l.flatMap f).filter (fun b => mark b = k) = [] := by
        refine List.filter_eq_nil_iff.mpr fun b hb heq => ?_
        obtain ⟨u, hu, hbu⟩ := List.mem_flatMap.mp hb
        exact ha ((of_decide_eq_true heq).symm.trans (hf u b hbu) ▸ hu)
      rw [hrest, List.append_nil, List.filter_eq_self.mpr fun b hb => decide_eq_true (hf k b hb)]
    · have hne : a ≠ k := fun h => ha (h ▸ hkl)
      have hhead : (f a).filter (fun b => mark b = k) = [] :=
        List.filter_eq_nil_iff.mpr fun b hb heq => hne ((hf a b hb).symm.trans (of_decide_eq_true heq))
      rw [hhead, List.nil_append, ih hl hkl]

/-! ### Elementwise relations -/

theorem forall₂_filterMap {γ : Type*} {R : β → γ → Prop} {f : α → Option β} {g : α → Option γ} {l : List α}
    (h : ∀ a ∈ l, Option.Rel R (f a) (g a)) : List.Forall₂ R (l.filterMap f) (l.filterMap g) := by
  induction l with
  | nil => exact .nil
  | cons a l ih =>
    have hl := ih fun b hb => h b (.tail a hb)
    have ha := h a (.head l)
    rw [List.filterMap_cons, List.filterMap_cons]
    generalize f a = x, g a = y at ha
    cases ha with
    | none => exact hl
    | some hxy => exact .cons hxy hl

theorem find?_rel {R : α → β → Prop} {p : α → Bool} {q : β → Bool} {l₁ : List α} {l₂ : List β}
    (h : List.Forall₂ R l₁ l₂) (hpq : ∀ a b, R a b → p a = q b) : Option.Rel R (l₁.find? p) (l₂.find? q) := by
  induction h with
  | nil => exact .none
  | @cons a b _ _ hab _ ih =>
    rw [List.find?_cons, List.find?_cons, hpq a b hab]
    cases q b
    · exact ih
    · exact .some hab

theorem head?_rel {R : α → β → Prop} {l₁ : List α} {l₂ : List β} (h : List.Forall₂ R l₁ l₂) :
    Option.Rel R l₁.head? l₂.head? := by
  cases h with
  | nil => exact .none
  | cons hab _ => exact .some hab

theorem rel_imp {R S : α → β → Prop} {o₁ : Option α} {o₂ : Option β} (h : Option.Rel R o₁ o₂)
    (hRS : ∀ a b, R a b → S a b) : Option.Rel S o₁ o₂ := by
  cases h with
  | none => exact .none
  | some hab => exact .some (hRS _ _ hab)

theorem map_eq_of_rel {γ : Type*} {R : α → β → Prop} {f : α → γ} {g : β → γ} {o₁ : Option α} {o₂ : Option β}
    (h : Option.Rel R o₁ o₂) (hfg : ∀ a b, R a b → f a = g b) : o₁.map f = o₂.map g := by
  cases h with
  | none => rfl
  | some hab => exact congrArg some (hfg _ _ hab)

theorem map_eq_of_forall₂ {γ : Type*} {R : α → β → Prop} {f : α → γ} {g : β → γ} {l₁ : List α} {l₂ : List β}
    (h : List.Forall₂ R l₁ l₂) (hfg : ∀ a b, R a b → f a = g b) : l₁.map f = l₂.map g := by
  induction h with
  | nil => rfl
  | cons hab _ ih => rw [List.map_cons, List.map_cons, hfg _ _ hab, ih]

theorem all_eq_of_forall₂ {R : α → β → Prop} {p : α → Bool} {q : β → Bool} {l₁ : List α} {l₂ : List β}
    (h : List.Forall₂ R l₁ l₂) (hpq : ∀ a b, R a b → p a = q b) : l₁.all p = l₂.all q := by
  induction h with
  | nil => rfl
  | cons hab _ ih => rw [List.all_cons, List.all_cons, hpq _ _ hab, ih]

theorem forall₂_of_map_eq {γ : Type*} {f : α → γ} {g : β → γ} : ∀ {l₁ : List α} {l₂ : List β},
    l₁.map f = l₂.map g → List.Forall₂ (fun a b => (f a = g b ∧ a ∈ l₁) ∧ b ∈ l₂) l₁ l₂
  | [], [], _ => .nil
  | a :: l₁, b :: l₂, h => by
    rw [List.map_cons, List.map_cons, List.cons.injEq] at h
    refine .cons ⟨⟨h.1, .head _⟩, .head _⟩ ((forall₂_of_map_eq h.2).imp ?_)
    exact fun x y hxy => ⟨⟨hxy.1.1, .tail _ hxy.1.2⟩, .tail _ hxy.2⟩

/-! ### Pairs -/

/-- `itertools.combinations(l, 2)`. -/
def pairs : List α → List (α × α)
  | [] => []
  | a :: l => l.map (a, ·) ++ pairs l

theorem mem_of_mem_pairs {l : List α} {p : α × α} (h : p ∈ pairs l) : p.1 ∈ l ∧ p.2 ∈ l := by
  induction l with
  | nil => simp [pairs] at h
  | cons a l ih =>
    rw [pairs, List.mem_append, List.mem_map] at h
    rcases h with ⟨b, hb, rfl⟩ | h
    · exact ⟨by simp, by simp [hb]⟩
    · exact ⟨.tail _ (ih h).1, .tail _ (ih h).2⟩

/-- Two different elements are a pair, one way round or the other. -/
theorem mem_pairs_of_ne {l : List α} {a b : α} (ha : a ∈ l) (hb : b ∈ l) (hne : a ≠ b) :
    (a, b) ∈ pairs l ∨ (b, a) ∈ pairs l := by
  induction l with
  | nil => simp at ha
  | cons c l ih =>
    simp only [pairs, List.mem_append, List.mem_map, Prod.mk.injEq]
    rcases List.mem_cons.mp ha with hac | hal <;> rcases List.mem_cons.mp hb with hbc | hbl
    · exact absurd (hac.trans hbc.symm) hne
    · exact .inl (.inl ⟨b, hbl, hac.symm, rfl⟩)
    · exact .inr (.inl ⟨a, hal, hbc.symm, rfl⟩)
    · exact (ih hal hbl).imp .inr .inr

/-- Whether a symmetric relation between different elements holds of a pair does not depend on
how the list is ordered. -/
theorem exists_mem_pairs_iff {l : List α} {R : α → α → Prop} (hsymm : ∀ a ∈ l, ∀ b ∈ l, R a b → R b a)
    (hirr : ∀ a ∈ l, ¬ R a a) : (∃ p ∈ pairs l, R p.1 p.2) ↔ ∃ a ∈ l, ∃ b ∈ l, R a b := by
  constructor
  · rintro ⟨p, hp, hR⟩
    have := mem_of_mem_pairs hp
    exact ⟨p.1, this.1, p.2, this.2, hR⟩
  · rintro ⟨a, ha, b, hb, hR⟩
    have hne : a ≠ b := fun h => hirr b hb (h ▸ hR)
    rcases mem_pairs_of_ne ha hb hne with h | h
    · exact ⟨_, h, hR⟩
    · exact ⟨_, h, hsymm a ha b hb hR⟩

/-! ### The first with the least key -/

/-- Integer keys are compared by the order that computes, also beside the integers' complete one. -/
instance (priority := high) intPreorder : Preorder ℤ := Int.instLinearOrder.toPreorder

section Keyed

variable [LinearOrder κ]

theorem argmin_mem {key : α → κ} {l : List α} {m : α} (h : l.argmin key = some m) : m ∈ l := List.argmin_mem h

theorem argmin_le {key : α → κ} {l : List α} {m a : α} (h : l.argmin key = some m) (ha : a ∈ l) : key m ≤ key a :=
  List.le_of_mem_argmin ha h

/-- The least key is determined by the elements. -/
theorem map_argmin_congr (key : α → κ) {l₁ l₂ : List α} (h : SameElems l₁ l₂) :
    (l₁.argmin key).map key = (l₂.argmin key).map key := by
  cases h₁ : l₁.argmin key with
  | none =>
    rw [List.argmin_eq_none] at h₁
    rw [(List.argmin_eq_none (f := key) (l := l₂)).mpr (h.eq_nil_iff.mp h₁)]
  | some a =>
    cases h₂ : l₂.argmin key with
    | none =>
      rw [List.argmin_eq_none, ← h.eq_nil_iff] at h₂
      simp [h₂] at h₁
    | some b =>
      have hab := argmin_le h₁ ((h b).mpr (argmin_mem h₂))
      have hba := argmin_le h₂ ((h a).mp (argmin_mem h₁))
      simp only [Option.map_some, le_antisymm hab hba]

/-- What the first least element is a function of the key on, it is a function of the
elements on. -/
theorem argmin_rel (key : α → κ) {l₁ l₂ : List α} (h : SameElems l₁ l₂) :
    Option.Rel (fun a b => key a = key b ∧ a ∈ l₁ ∧ b ∈ l₂) (l₁.argmin key) (l₂.argmin key) := by
  have hk := map_argmin_congr key h
  cases h₁ : l₁.argmin key with
  | none =>
    cases h₂ : l₂.argmin key with
    | none => exact .none
    | some b => simp [h₁, h₂] at hk
  | some a =>
    cases h₂ : l₂.argmin key with
    | none => simp [h₁, h₂] at hk
    | some b =>
      simp only [h₁, h₂, Option.map_some, Option.some.injEq] at hk
      exact .some ⟨hk, argmin_mem h₁, argmin_mem h₂⟩

/-! ### Stable sorting -/

/-- `sorted(l, key=key)`: stable. -/
def sortBy (key : α → κ) (l : List α) : List α := l.insertionSort fun a b => key a ≤ key b

theorem sortBy_perm (key : α → κ) (l : List α) : (sortBy key l).Perm l := List.perm_insertionSort _ l

@[simp] theorem mem_sortBy {key : α → κ} {l : List α} {a : α} : a ∈ sortBy key l ↔ a ∈ l :=
  (sortBy_perm key l).mem_iff

theorem pairwise_sortBy (key : α → κ) (l : List α) : (sortBy key l).Pairwise fun a b => key a ≤ key b := by
  have : Std.Total fun a b : α => key a ≤ key b := ⟨fun a b => le_total (key a) (key b)⟩
  have : IsTrans α fun a b => key a ≤ key b := ⟨fun _ _ _ => le_trans⟩
  exact List.pairwise_insertionSort _ l

/-- Sorting keeps an elementwise relation between lists whose keys agree. -/
theorem forall₂_orderedInsert {R : α → β → Prop} {f : α → κ} {g : β → κ} (hk : ∀ a b, R a b → f a = g b)
    {a : α} {b : β} (hab : R a b) {l₁ : List α} {l₂ : List β} (h : List.Forall₂ R l₁ l₂) :
    List.Forall₂ R (l₁.orderedInsert (fun x y => f x ≤ f y) a) (l₂.orderedInsert (fun x y => g x ≤ g y) b) := by
  induction h with
  | nil => exact .cons hab .nil
  | @cons x y xs ys hxy hr ih =>
    simp only [List.orderedInsert_cons, hk a b hab, hk x y hxy]
    split_ifs
    · exact .cons hab (.cons hxy hr)
    · exact .cons hxy ih

theorem forall₂_sortBy {R : α → β → Prop} {f : α → κ} {g : β → κ} (hk : ∀ a b, R a b → f a = g b)
    {l₁ : List α} {l₂ : List β} (h : List.Forall₂ R l₁ l₂) : List.Forall₂ R (sortBy f l₁) (sortBy g l₂) := by
  induction h with
  | nil => exact .nil
  | cons hab _ ih => exact forall₂_orderedInsert hk hab ih

/-- **A strictly ordered list is determined by its elements.** -/
theorem eq_of_pairwise_lt {R : α → α → Prop} (hirr : ∀ a, ¬ R a a) (htrans : ∀ a b c, R a b → R b c → R a c)
    {l₁ l₂ : List α} (h₁ : l₁.Pairwise R) (h₂ : l₂.Pairwise R) (h : SameElems l₁ l₂) : l₁ = l₂ := by
  have hnodup : ∀ {l : List α}, l.Pairwise R → l.Nodup := by
    intro l hl
    refine hl.imp fun {a b} hab heq => ?_
    subst heq
    exact hirr a hab
  have hp : l₁.Perm l₂ := (List.perm_ext_iff_of_nodup (hnodup h₁) (hnodup h₂)).mpr h
  exact hp.eq_of_pairwise (fun a b _ _ hab hba => absurd (htrans a b a hab hba) (hirr a)) h₁ h₂

/-- Sorting images by a key sorts by the key of the image. -/
theorem sortBy_map (key : β → κ) (f : α → β) (l : List α) :
    sortBy key (l.map f) = (sortBy (fun a => key (f a)) l).map f := by
  have hrel : List.Forall₂ (fun a b => f a = b) l (l.map f) := by
    induction l with
    | nil => exact .nil
    | cons a l ih => exact .cons rfl ih
  have hsorted := forall₂_sortBy (f := fun a => key (f a)) (g := key) (fun a b hab => congrArg key hab) hrel
  have hmap := map_eq_of_forall₂ (g := id) hsorted fun a b hab => hab
  rw [hmap, List.map_id]

/-- **The first `k` of a sort** have keys no greater than any `k` of its elements have. -/
theorem key_le_of_mem_take {key : α → κ} {l few : List α} {k : ℕ} {bound : κ} (hfew : few.Subperm l)
    (hlen : k ≤ few.length) (hkey : ∀ a ∈ few, key a ≤ bound) {a : α} (ha : a ∈ (sortBy key l).take k) :
    key a ≤ bound := by
  obtain ⟨n, hn, rfl⟩ := List.mem_iff_getElem.mp ha
  rw [List.length_take] at hn
  rw [List.getElem_take]
  by_contra hlt
  -- from position `n` on every key is above the bound
  have hdrop : ((sortBy key l).drop n).countP (fun x => key x ≤ bound) = 0 := by
    have hsorted := (pairwise_sortBy key l).sublist (List.drop_sublist n _)
    rw [List.drop_eq_getElem_cons (by omega)] at hsorted ⊢
    rw [List.countP_eq_zero]
    intro x hx hle
    have hle : key x ≤ bound := of_decide_eq_true hle
    rcases List.mem_cons.mp hx with rfl | hx
    · exact hlt hle
    · exact hlt (((List.pairwise_cons.mp hsorted).1 x hx).trans hle)
  have htake : ((sortBy key l).take n).countP (fun x => key x ≤ bound) ≤ n :=
    List.countP_le_length.trans (List.length_take_le _ _)
  have hsplit : (sortBy key l).countP (fun x => key x ≤ bound) =
      ((sortBy key l).take n).countP (fun x => key x ≤ bound) +
        ((sortBy key l).drop n).countP (fun x => key x ≤ bound) := by
    rw [← List.countP_append, List.take_append_drop]
  have hall : few.countP (fun x => key x ≤ bound) = few.length := by
    rw [List.countP_eq_length]
    exact fun x hx => decide_eq_true (hkey x hx)
  have hle := (hfew.trans (sortBy_perm key l).symm.subperm).countP_le fun x => key x ≤ bound
  omega

/-- In an ascending list an element has as many before it as are smaller. -/
theorem mem_take_of_pairwise_lt {key : α → κ} {s : List α} (h : s.Pairwise fun a b => key a < key b) {k : ℕ} {x : α}
    (hx : x ∈ s) : x ∈ s.take k ↔ (s.filter fun a => key a < key x).length < k := by
  induction s generalizing k with
  | nil => cases hx
  | cons a s ih =>
    obtain ⟨ha, hs⟩ := List.pairwise_cons.mp h
    cases k with
    | zero => simp
    | succ k =>
      rw [List.take_succ_cons, List.mem_cons]
      rcases List.mem_cons.mp hx with rfl | hxs
      · have hnone : ((x :: s).filter fun b => key b < key x) = [] := by
          refine List.filter_eq_nil_iff.mpr fun b hb hlt => ?_
          have hlt : key b < key x := of_decide_eq_true hlt
          rcases List.mem_cons.mp hb with rfl | hb
          · exact lt_irrefl _ hlt
          · exact lt_asymm hlt (ha b hb)
        rw [hnone]
        simp
      · have hne : x ≠ a := by
          rintro rfl
          exact lt_irrefl _ (ha x hxs)
        have hcons : ((a :: s).filter fun b => key b < key x) = a :: s.filter fun b => key b < key x :=
          List.filter_cons_of_pos (decide_eq_true (ha x hxs))
        rw [hcons, List.length_cons, or_iff_right hne, ih hs hxs]
        omega

/-- **Among the first `k` of a sort** are the elements with fewer than `k` smaller ones. -/
theorem mem_take_sortBy_iff {key : α → κ} {l : List α} (h : l.Pairwise fun a b => key a ≠ key b) {k : ℕ} {x : α}
    (hx : x ∈ l) : x ∈ (sortBy key l).take k ↔ (l.filter fun a => key a < key x).length < k := by
  have hsymm : ∀ {a b : α}, key a ≠ key b → key b ≠ key a := fun hab => hab.symm
  have hne := ((sortBy_perm key l).pairwise_iff hsymm).mpr h
  have hlt : (sortBy key l).Pairwise fun a b => key a < key b :=
    ((pairwise_sortBy key l).and hne).imp fun hab => lt_of_le_of_ne hab.1 hab.2
  rw [mem_take_of_pairwise_lt hlt (mem_sortBy.mpr hx), ((sortBy_perm key l).filter _).length_eq]

/-- The keys of a sorted list are determined by the list's elements and their number. -/
theorem map_sortBy_congr (key : α → κ) {l₁ l₂ : List α} (h : l₁.Perm l₂) :
    (sortBy key l₁).map key = (sortBy key l₂).map key := by
  have hp : ((sortBy key l₁).map key).Perm ((sortBy key l₂).map key) :=
    (((sortBy_perm key l₁).trans h).trans (sortBy_perm key l₂).symm).map key
  have hsorted : ∀ l : List α, ((sortBy key l).map key).Pairwise fun a b => a ≤ b := by
    intro l
    rw [List.pairwise_map]
    exact pairwise_sortBy key l
  exact hp.eq_of_pairwise (fun a b _ _ => le_antisymm) (hsorted l₁) (hsorted l₂)

/-- What is in the order of its keys is left as it is. -/
theorem sortBy_eq_self {key : α → κ} {l : List α} (h : l.Pairwise fun a b => key a ≤ key b) : sortBy key l = l :=
  h.insertionSort_eq

/-- When no two elements share a key, the sorted list is the only order of the keys. -/
theorem sortBy_eq_of_pairwise {key : α → κ} (hinj : Function.Injective key) {l l' : List α} (hp : l'.Perm l)
    (h : l'.Pairwise fun a b => key a ≤ key b) : sortBy key l = l' :=
  ((sortBy_perm key l).trans hp.symm).eq_of_pairwise (fun _ _ _ _ hab hba => hinj (le_antisymm hab hba))
    (pairwise_sortBy key l) h

/-- **When no two elements share a key**, sorting tells lists apart up to their order. -/
theorem sortBy_eq_sortBy_iff {key : α → κ} (hinj : Function.Injective key) {l l' : List α} :
    sortBy key l = sortBy key l' ↔ l.Perm l' := by
  constructor
  · intro h
    exact (sortBy_perm key l).symm.trans (h ▸ sortBy_perm key l')
  · intro h
    exact sortBy_eq_of_pairwise hinj ((sortBy_perm key l').trans h.symm) (pairwise_sortBy key l')

@[simp] theorem sortBy_eq_nil_iff {key : α → κ} {l : List α} : sortBy key l = [] ↔ l = [] := by
  rw [← List.length_eq_zero_iff, (sortBy_perm key l).length_eq, List.length_eq_zero_iff]

/-- **Stability**: sorting by `f` what is already in the order of `g` leaves ties of `f`
in the order of `g`. -/
theorem pairwise_lex_sortBy {κ' : Type*} [LinearOrder κ'] (f : α → κ) (g : α → κ') {l : List α}
    (h : l.Pairwise fun a b => g a ≤ g b) :
    (sortBy f l).Pairwise fun a b => toLex (f a, g a) ≤ toLex (f b, g b) := by
  induction l with
  | nil => exact .nil
  | cons a l ih =>
    obtain ⟨ha, hl⟩ := List.pairwise_cons.mp h
    have key : ∀ m : List α, (∀ b ∈ m, g a ≤ g b) → m.Pairwise (fun x y => toLex (f x, g x) ≤ toLex (f y, g y)) →
        (m.orderedInsert (fun x y => f x ≤ f y) a).Pairwise fun x y => toLex (f x, g x) ≤ toLex (f y, g y) := by
      intro m
      induction m with
      | nil => intro _ _; simp
      | cons b m ihm =>
        intro hm hpw
        obtain ⟨hb, hpw'⟩ := List.pairwise_cons.mp hpw
        rw [List.orderedInsert_cons]
        split_ifs with hab
        · have hle : toLex (f a, g a) ≤ toLex (f b, g b) := by
            rw [Prod.Lex.toLex_le_toLex]
            rcases lt_or_eq_of_le hab with hlt | heq
            · exact .inl hlt
            · exact .inr ⟨heq, hm b (by simp)⟩
          refine List.pairwise_cons.mpr ⟨fun x hx => ?_, hpw⟩
          rcases List.mem_cons.mp hx with rfl | hx
          · exact hle
          · exact hle.trans (hb x hx)
        · refine List.pairwise_cons.mpr ⟨fun x hx => ?_, ihm (fun x hx => hm x (by simp [hx])) hpw'⟩
          rcases (List.mem_orderedInsert _).mp hx with rfl | hx
          · exact Prod.Lex.toLex_le_toLex.mpr (.inl (not_le.mp hab))
          · exact hb x hx
    exact key _ (fun b hb => ha b (mem_sortBy.mp hb)) (ih hl)

/-! ### Sorted sets -/

variable [DecidableEq α]

/-- `sorted(set(l), key=key)`. -/
def sortedSet (key : α → κ) (l : List α) : List α := sortBy key l.dedup

@[simp] theorem mem_sortedSet {key : α → κ} {l : List α} {a : α} : a ∈ sortedSet key l ↔ a ∈ l := by
  simp [sortedSet]

/-- **A sorted set is determined by its elements**, when no two share a key. -/
theorem sortedSet_congr {key : α → κ} (hinj : Function.Injective key) {l₁ l₂ : List α} (h : SameElems l₁ l₂) :
    sortedSet key l₁ = sortedSet key l₂ := by
  have hp : (sortedSet key l₁).Perm (sortedSet key l₂) := by
    refine (sortBy_perm key _).trans (List.Perm.trans ?_ (sortBy_perm key _).symm)
    rw [List.perm_ext_iff_of_nodup (List.nodup_dedup _) (List.nodup_dedup _)]
    intro x
    simp only [List.mem_dedup, h x]
  have hanti : ∀ a b, a ∈ sortedSet key l₁ → b ∈ sortedSet key l₂ → key a ≤ key b → key b ≤ key a → a = b :=
    fun a b _ _ hab hba => hinj (le_antisymm hab hba)
  exact hp.eq_of_pairwise hanti (pairwise_sortBy key _) (pairwise_sortBy key _)

end Keyed

end MediaPreview.Ranking
