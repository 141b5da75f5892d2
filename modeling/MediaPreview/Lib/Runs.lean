import Mathlib.Data.List.Basic

/-!
# Runs of a step function

A system is its `step`: what an event makes of a state, `none` where the event cannot happen. A run (`Runs`) is a list
of events each of which happened, and met a condition on the state it happened in. What one step keeps a run keeps
(`Runs.keeps`), also of an invariant that speaks of the events so far (`Runs.keeps_from`), or of notes taken of them
(`noting`).
-/

namespace MediaPreview

variable {σ ε : Type*}

/-- A run whose steps all meet a condition. -/
inductive Runs (step : σ → ε → Option σ) (C : σ → ε → Prop) : σ → List ε → σ → Prop where
  | nil (s : σ) : Runs step C s [] s
  | cons {s s' s'' : σ} {e : ε} {es : List ε} (hc : C s e) (h : step s e = some s') (hr : Runs step C s' es s'') :
      Runs step C s (e :: es) s''

/-- The condition every step meets. -/
def Any : σ → ε → Prop := fun _ _ => True

/-- Steps one after another. -/
def exec (step : σ → ε → Option σ) : σ → List ε → Option σ
  | s, [] => some s
  | s, e :: es => (step s e).bind fun s' => exec step s' es

theorem exec_append (step : σ → ε → Option σ) : ∀ (s : σ) (es es' : List ε),
    exec step s (es ++ es') = (exec step s es).bind fun s' => exec step s' es'
  | s, [], es' => rfl
  | s, e :: es, es' => by
    rw [List.cons_append, exec, exec, Option.bind_assoc]
    exact congrArg _ (funext fun s' => exec_append step s' es es')

namespace Runs

variable {step : σ → ε → Option σ} {C D : σ → ε → Prop} {s s' s'' : σ} {e : ε} {es es' : List ε}

theorem mono (h : Runs step C s es s') (hCD : ∀ s e, C s e → D s e) : Runs step D s es s' := by
  induction h with
  | nil s => exact .nil s
  | cons hc h _ ih => exact .cons (hCD _ _ hc) h ih

theorem append (h : Runs step C s es s') (h' : Runs step C s' es' s'') : Runs step C s (es ++ es') s'' := by
  induction h with
  | nil s => exact h'
  | cons hc h _ ih => exact .cons hc h (ih h')

/-- A step is determined, so two conditions on one run are met by it together. -/
theorem and (h : Runs step C s es s') (h' : Runs step D s es s') : Runs step (fun s e => C s e ∧ D s e) s es s' := by
  induction h with
  | nil s => exact .nil s
  | cons hc hs _ ih =>
    cases h' with
    | cons hd hs' hr' =>
      obtain rfl := Option.some.inj (hs.symm.trans hs')
      exact .cons ⟨hc, hd⟩ hs (ih hr')

/-- Every event of a run is one of its events. -/
theorem mem (h : Runs step C s es s') : Runs step (fun s e => C s e ∧ e ∈ es) s es s' := by
  induction h with
  | nil s => exact .nil s
  | cons hc hs _ ih => exact .cons ⟨hc, .head _⟩ hs (ih.mono fun _ _ h => ⟨h.1, .tail _ h.2⟩)

/-- A run goes on by a step. -/
theorem snoc (h : Runs step C s es s') (hc : C s' e) (hs : step s' e = some s'') : Runs step C s (es ++ [e]) s'' :=
  h.append (.cons hc hs (.nil s''))

/-- Steps one after another that meet a condition in any state are a run. -/
theorem of_exec (hC : ∀ e ∈ es, ∀ s, C s e) (h : exec step s es = some s') : Runs step C s es s' := by
  induction es generalizing s with
  | nil => exact Option.some.inj h ▸ .nil s
  | cons e es ih =>
    obtain ⟨s₁, h₁, h⟩ := Option.bind_eq_some_iff.1 h
    exact .cons (hC e (.head _) s) h₁ (ih (fun e he => hC e (.tail _ he)) h)

/-- Steps one after another, each of them checked, are a run; and what its end is found to be, it is. -/
theorem exists_of_exec (step : σ → ε → Option σ) (s : σ) (es : List ε) {D : σ → ε → Bool} {P : σ → Bool}
    (hC : ∀ s e, D s e = true → C s e)
    (h : (exec (fun s e => if D s e then step s e else none) s es).any P = true) :
    ∃ s', Runs step C s es s' ∧ P s' = true := by
  induction es generalizing s with
  | nil => exact ⟨s, .nil s, h⟩
  | cons e es ih =>
    obtain ⟨s₂, h₂, hp⟩ := (Option.any_eq_true _ _).1 h
    obtain ⟨s₁, h₁, hexec⟩ := Option.bind_eq_some_iff.1 h₂
    obtain ⟨hd, h₁⟩ := Option.ite_none_right_eq_some.1 h₁
    obtain ⟨s', hr, hp⟩ := ih s₁ ((Option.any_eq_true _ _).2 ⟨s₂, hexec, hp⟩)
    exact ⟨s', .cons (hC s e hd) h₁ hr, hp⟩

/-- **What every step that meets the condition keeps, every run of such steps keeps.** -/
theorem keeps {I : σ → Prop} (h : Runs step C s es s') (hs : I s)
    (hI : ∀ s e s', C s e → step s e = some s' → I s → I s') : I s' := by
  induction h with
  | nil s => exact hs
  | cons hc h _ ih => exact ih (hI _ _ _ hc h hs)

/-- An invariant that speaks of the events so far. -/
theorem keeps_from {I : List ε → σ → Prop} (h : Runs step C s es s') {pre : List ε} (hs : I pre s)
    (hI : ∀ pre s e s', C s e → step s e = some s' → I pre s → I (pre ++ [e]) s') : I (pre ++ es) s' := by
  induction h generalizing pre with
  | nil s => rwa [List.append_nil]
  | cons hc h _ ih =>
    rw [List.append_cons]
    exact ih (hI pre _ _ _ hc h hs)

end Runs

/-! ### Notes of a run -/

section Noting

variable {γ : Type*}

/-- A step, of which a note is taken. -/
def noting (step : σ → ε → Option σ) (note : σ → γ → ε → γ) (w : σ × γ) (e : ε) : Option (σ × γ) :=
  (step w.1 e).map fun s' => (s', note w.1 w.2 e)

variable {step : σ → ε → Option σ} {note : σ → γ → ε → γ} {C : σ → ε → Prop} {e : ε} {es : List ε}

theorem noting_eq_some_iff {w w' : σ × γ} :
    noting step note w e = some w' ↔ step w.1 e = some w'.1 ∧ w'.2 = note w.1 w.2 e := by
  obtain ⟨s', g'⟩ := w'
  simp only [noting, Option.map_eq_some_iff, Prod.mk.injEq]
  constructor
  · rintro ⟨_, h, rfl, rfl⟩
    exact ⟨h, rfl⟩
  · rintro ⟨h, rfl⟩
    exact ⟨s', h, rfl, rfl⟩

/-- **Notes change nothing**: a run of which notes are taken is a run. -/
theorem Runs.of_noting {w w' : σ × γ} (h : Runs (noting step note) (fun w e => C w.1 e) w es w') :
    Runs step C w.1 es w'.1 := by
  induction h with
  | nil w => exact .nil w.1
  | cons hc h _ ih => exact .cons hc (noting_eq_some_iff.1 h).1 ih

/-- **Notes can be taken of every run.** -/
theorem Runs.exists_noting {s s' : σ} (h : Runs step C s es s') (g : γ) :
    ∃ g', Runs (noting step note) (fun w e => C w.1 e) (s, g) es (s', g') := by
  induction h generalizing g with
  | nil s => exact ⟨g, .nil _⟩
  | cons hc h _ ih =>
    obtain ⟨g', hr⟩ := ih (note _ g _)
    exact ⟨g', .cons hc (noting_eq_some_iff.2 ⟨h, rfl⟩) hr⟩

end Noting

end MediaPreview
