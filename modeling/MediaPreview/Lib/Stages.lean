import Mathlib.Data.List.Basic
import Mathlib.Data.List.Forall2

/-!
# Steps that may fail, and what they pass through

A piece of work on a state that is done step by step (`Stages`): the states it passes through before the last one, the
last one, and whether it was done or raised. A process that dies while it works is found in one of these states.

Work on each element of a list, of which only the results are known where none raises, is a relation between the two
lists (`mapM_eq_some_iff`).
-/

namespace MediaPreview

/-- **Work done on each element** gives each its result. -/
theorem mapM_eq_some_iff {α β : Type} {f : α → Option β} {l : List α} {r : List β} :
    l.mapM f = some r ↔ List.Forall₂ (fun a b => f a = some b) l r := by
  induction l generalizing r with
  | nil =>
    rw [List.mapM_nil, List.forall₂_nil_left_iff]
    exact ⟨fun h => (Option.some.inj h).symm, fun h => h ▸ rfl⟩
  | cons a l ih =>
    rw [List.mapM_cons]
    constructor
    · intro h
      obtain ⟨b, hb, h⟩ := Option.bind_eq_some_iff.1 h
      obtain ⟨bs, hbs, h⟩ := Option.bind_eq_some_iff.1 h
      obtain rfl := Option.some.inj h
      exact .cons hb (ih.1 hbs)
    · intro h
      cases h with
      | cons hb hbs =>
        rw [hb]
        change (l.mapM f).bind _ = _
        rw [ih.2 hbs]
        rfl

/-- Related lists: each element of the one has its counterpart in the other. -/
theorem forall₂_mem_left {α β : Type*} {R : α → β → Prop} {l : List α} {r : List β} (h : List.Forall₂ R l r) {a : α}
    (ha : a ∈ l) : ∃ b ∈ r, R a b := by
  induction h with
  | nil => exact absurd ha List.not_mem_nil
  | cons hab _ ih =>
    rcases List.mem_cons.1 ha with rfl | ha
    · exact ⟨_, List.mem_cons_self, hab⟩
    · obtain ⟨b, hb, hR⟩ := ih ha
      exact ⟨b, List.mem_cons_of_mem _ hb, hR⟩

theorem forall₂_mem_right {α β : Type*} {R : α → β → Prop} {l : List α} {r : List β} (h : List.Forall₂ R l r) {b : β}
    (hb : b ∈ r) : ∃ a ∈ l, R a b := forall₂_mem_left h.flip hb

/-- The states some work goes through. -/
structure Stages (σ : Type) where
  /-- Those before the last one. -/
  passed : List σ
  /-- The last one. -/
  last : σ
  /-- It was done, or it raised. -/
  done : Bool

namespace Stages

variable {σ τ : Type}

/-- All states it goes through. -/
def all (s : Stages σ) : List σ := s.passed ++ [s.last]

/-- Nothing is to be done. -/
def skip (x : σ) : Stages σ := ⟨[], x, true⟩

/-- It raises. -/
def raise (x : σ) : Stages σ := ⟨[], x, false⟩

/-- One step, which may fail and then changes nothing. -/
def act (fails : Bool) (f : σ → σ) (x : σ) : Stages σ := if fails then ⟨[], x, false⟩ else ⟨[x], f x, true⟩

/-- Goes on one way where the work was done, and another where it raised. -/
def handle (s : Stages σ) (ok bad : σ → Stages σ) : Stages σ :=
  let t := if s.done then ok s.last else bad s.last
  ⟨s.passed ++ t.passed, t.last, t.done⟩

/-- Goes on where the work was done. -/
def andThen (s : Stages σ) (ok : σ → Stages σ) : Stages σ := s.handle ok raise

/-- The work on a part of a larger state. -/
def map (f : σ → τ) (s : Stages σ) : Stages τ := ⟨s.passed.map f, f s.last, s.done⟩

/-- Every state it goes through meets a condition. -/
def Always (p : σ → Prop) (s : Stages σ) : Prop := ∀ x ∈ s.all, p x

variable {p : σ → Prop} {s : Stages σ} {x : σ}

theorem Always.last (h : s.Always p) : p s.last := h _ (List.mem_append_right _ (List.mem_singleton.2 rfl))

theorem Always.mono {q : σ → Prop} (h : s.Always p) (hpq : ∀ x, p x → q x) : s.Always q := fun x hx => hpq x (h x hx)

theorem always_skip (h : p x) : (skip x).Always p := fun _ hy => List.mem_singleton.1 hy ▸ h

theorem always_raise (h : p x) : (raise x).Always p := fun _ hy => List.mem_singleton.1 hy ▸ h

theorem always_act {fails : Bool} {f : σ → σ} (h : p x) (hf : fails = false → p (f x)) : (act fails f x).Always p := by
  cases fails with
  | true => exact always_raise h
  | false =>
    rintro y (_ | ⟨_, hy⟩)
    · exact h
    · exact List.mem_singleton.1 hy ▸ hf rfl

/-- **What both parts keep the whole keeps.** -/
theorem Always.handle {ok bad : σ → Stages σ} (h : s.Always p) (hok : s.done = true → (ok s.last).Always p)
    (hbad : s.done = false → (bad s.last).Always p) : (s.handle ok bad).Always p := by
  intro y hy
  rw [all, Stages.handle, List.append_assoc] at hy
  obtain hy | hy := List.mem_append.1 hy
  · exact h y (List.mem_append_left _ hy)
  · cases hdone : s.done with
    | true =>
      rw [hdone] at hy
      exact hok hdone y hy
    | false =>
      rw [hdone] at hy
      exact hbad hdone y hy

theorem Always.andThen {ok : σ → Stages σ} (h : s.Always p) (hok : s.done = true → (ok s.last).Always p) :
    (s.andThen ok).Always p :=
  h.handle hok fun _ => always_raise h.last

/-- As `andThen`, where the second part keeps it from any state. -/
theorem Always.bind {ok : σ → Stages σ} (h : s.Always p) (hok : ∀ x, p x → (ok x).Always p) :
    (s.andThen ok).Always p :=
  h.andThen fun _ => hok _ h.last

/-- One step, and what is done after it where it is made and where it fails. -/
theorem always_act_handle {fails : Bool} {f : σ → σ} {ok bad : σ → Stages σ} (h : p x) (hf : p (f x))
    (hok : (ok (f x)).Always p) (hbad : (bad x).Always p) : ((act fails f x).handle ok bad).Always p := by
  refine (always_act h fun _ => hf).handle (fun hdone => ?_) fun hdone => ?_
  all_goals
    cases fails with
    | true => first | exact hbad | cases hdone
    | false => first | exact hok | cases hdone

theorem last_act_handle {fails : Bool} {f : σ → σ} {ok bad : σ → Stages σ} :
    ((act fails f x).handle ok bad).last = if fails then (bad x).last else (ok (f x)).last := by
  cases fails <;> rfl

theorem done_act_handle {fails : Bool} {f : σ → σ} {ok bad : σ → Stages σ} :
    ((act fails f x).handle ok bad).done = if fails then (bad x).done else (ok (f x)).done := by
  cases fails <;> rfl

theorem Always.map {τ : Type} {q : τ → Prop} {f : σ → τ} (h : s.Always fun x => q (f x)) : (s.map f).Always q := by
  intro y hy
  have hall : (s.map f).all = s.all.map f := by simp [all, Stages.map]
  rw [hall] at hy
  obtain ⟨x, hx, rfl⟩ := List.mem_map.1 hy
  exact h x hx

theorem handle_of_done {ok bad : σ → Stages σ} (h : s.done = true) :
    (s.handle ok bad).last = (ok s.last).last ∧ (s.handle ok bad).done = (ok s.last).done := by
  simp [Stages.handle, h]

theorem handle_of_raised {ok bad : σ → Stages σ} (h : s.done = false) :
    (s.handle ok bad).last = (bad s.last).last ∧ (s.handle ok bad).done = (bad s.last).done := by
  simp [Stages.handle, h]

/-- Two parts are done when both are. -/
theorem andThen_done {ok : σ → Stages σ} (h : (s.andThen ok).done = true) :
    s.done = true ∧ (ok s.last).done = true ∧ (s.andThen ok).last = (ok s.last).last := by
  cases hdone : s.done with
  | true =>
    have hboth : (s.handle ok raise).last = (ok s.last).last ∧ (s.handle ok raise).done = (ok s.last).done :=
      handle_of_done hdone
    exact ⟨rfl, hboth.2 ▸ h, hboth.1⟩
  | false =>
    have hraised : (s.handle ok raise).done = (raise s.last).done := (handle_of_raised hdone).2
    rw [andThen, hraised] at h
    cases h

theorem act_done {fails : Bool} {f : σ → σ} (h : (act fails f x).done = true) :
    fails = false ∧ (act fails f x).last = f x := by
  cases fails with
  | true => cases h
  | false => exact ⟨rfl, rfl⟩

end Stages

end MediaPreview
