import MediaPreview.Bridge.Chapters

/-!
# What a write stores

A store file is usable when it holds a set of markers that can be stored, beside it perhaps the set a write under way
replaces, or that set alone (`storedProblem`). What a write saves always is (`storedProblem_withReplacing`), also with
what `ShownOf` found the rows to show still (`shownOf_spec`, `valid_shownOf`).
-/

namespace MediaPreview.Bridge

/-! ### What is stored -/

variable {m : StoredMarkers} {markers replacing stored : Option StoredMarkers} {rows : List ChapterInfo}

/-- An intro that can be stored. -/
def ValidIntro (m : StoredMarkers) : Prop :=
  m.introStartTicks.isSome = m.introEndTicks.isSome ∧
    ∀ start ∈ m.introStartTicks, 0 ≤ start ∧ ∀ stop ∈ m.introEndTicks, start < stop

/-- Credits that can be stored. -/
def ValidCredits (m : StoredMarkers) : Prop := ∀ start ∈ m.creditsStartTicks, 0 ≤ start

theorem problem_eq_none_iff : problem (some m) = none ↔
    ValidIntro m ∧ ValidCredits m ∧ (∀ size ∈ m.fileSize, 0 < size) ∧ hasMarkers (some m) = true := by
  unfold problem ValidIntro ValidCredits
  dsimp only
  split_ifs with h₁ h₂ h₃ h₄ h₅
  · simp only [false_iff]
    exact fun h => h₁ h.1.1
  · simp only [false_iff]
    obtain ⟨start, hstart, hbad⟩ := h₂
    intro h
    obtain ⟨hpos, hstop⟩ := h.1.2 start hstart
    rcases hbad with hneg | ⟨stop, hmem, hle⟩
    · omega
    · exact absurd (hstop stop hmem) (by omega)
  · simp only [false_iff]
    obtain ⟨start, hstart, hneg⟩ := h₃
    exact fun h => absurd (h.2.1 start hstart) (by omega)
  · simp only [false_iff]
    obtain ⟨size, hsize, hle⟩ := h₄
    exact fun h => absurd (h.2.2.1 size hsize) (by omega)
  · simp only [false_iff]
    intro h
    rw [h.2.2.2] at h₅
    exact absurd h₅ (by decide)
  · simp only [true_iff]
    refine ⟨⟨not_not.mp h₁, fun start hstart => ⟨?_, fun stop hstop => ?_⟩⟩, fun start hstart => ?_,
      fun size hsize => ?_, by simpa using h₅⟩
    · by_contra hneg
      exact h₂ ⟨start, hstart, .inl (not_le.mp hneg)⟩
    · by_contra hle
      exact h₂ ⟨start, hstart, .inr ⟨stop, hstop, not_lt.mp hle⟩⟩
    · by_contra hneg
      exact h₃ ⟨start, hstart, not_le.mp hneg⟩
    · by_contra hle
      exact h₄ ⟨size, hsize, not_lt.mp hle⟩

theorem hasMarkers_of_problem (h : problem (some m) = none) : hasMarkers (some m) = true :=
  (problem_eq_none_iff.mp h).2.2.2

/-- Without markers there are no rows. -/
theorem rowsFor_of_not_hasMarkers (h : hasMarkers markers = false) : rowsFor markers = [] := by
  cases markers with
  | none => rfl
  | some m =>
    simp only [hasMarkers, Option.any_some, Bool.or_eq_false_iff, Option.isSome_eq_false_iff,
      Option.isNone_iff_eq_none] at h
    simp only [rowsFor, introRows, creditsRows, h.1, h.2, List.append_nil]

/-- **What is saved names both sets' rows.** -/
theorem rowsFor_withReplacing : rowsFor (withReplacing markers replacing) = rowsFor markers ∧
    rowsFor (replacingOf (withReplacing markers replacing)) = rowsFor replacing := by
  unfold withReplacing
  split_ifs with h₁ h₂
  · simp only [Bool.and_eq_true, Bool.not_eq_true'] at h₁
    rw [rowsFor_of_not_hasMarkers h₁.1, rowsFor_of_not_hasMarkers h₁.2]
    exact ⟨rfl, rfl⟩
  · refine ⟨?_, rfl⟩
    cases markers with
    | none => rfl
    | some m => rfl
  · have hreplacing : rowsFor replacing = [] := rowsFor_of_not_hasMarkers (Bool.not_eq_true _ ▸ h₂)
    rw [hreplacing]
    refine ⟨?_, rfl⟩
    cases markers with
    | none => rfl
    | some m => rfl

theorem ourRows_withReplacing : ourRows (withReplacing markers replacing) = rowsFor markers ++ rowsFor replacing := by
  rw [ourRows, rowsFor_withReplacing.1, rowsFor_withReplacing.2]

/-- What a write saves can be used. -/
theorem storedProblem_withReplacing (hm : markers = none ∨ problem markers = none)
    (hr : ∀ r ∈ replacing, problem (some r) = none ∧ r.replacing = none) (h : withReplacing markers replacing ≠ none) :
    storedProblem (withReplacing markers replacing) = none := by
  have hcopy : ∀ {m : StoredMarkers} {r : Option StoredMarkers}, problem (some m) = none →
      problem (some { m with replacing := r }) = none := by
    intro m r hm
    exact problem_eq_none_iff.mpr (problem_eq_none_iff.mp hm)
  cases replacing with
  | none =>
    rcases hm with rfl | hm
    · exact absurd rfl h
    · cases markers with
      | none => exact absurd rfl h
      | some m =>
        have hmarkers := hasMarkers_of_problem hm
        rw [withReplacing, hmarkers]
        exact hcopy hm
  | some r =>
    obtain ⟨hproblem, hnone⟩ := hr r rfl
    have hmarkers := hasMarkers_of_problem hproblem
    simp only [withReplacing, hmarkers, Bool.not_true, Bool.and_false, Bool.false_eq_true, if_false, if_true,
      storedProblem, replacingOf, Option.bind_some, hnone, hproblem, Option.isSome_none, or_self]
    rcases hm with rfl | hm
    · rfl
    · cases markers with
      | none => rfl
      | some m =>
        split_ifs
        · exact hcopy hm
        · rfl

/-! ### What rows still show -/

/-- A row of a kind that is there belongs to a set with markers of the kind. -/
theorem exists_of_hasRowOf {set : Option StoredMarkers} {types : List MarkerType}
    (h : hasRowOf rows (rowsFor set) types = true) : ∃ m, set = some m ∧ ∃ r ∈ ofTypes types (rowsFor (some m)),
      Named rows r := by
  obtain ⟨r, hr, hrow⟩ := List.any_eq_true.mp h
  rw [Bool.and_eq_true, decide_eq_true_eq, List.any_eq_true] at hrow
  obtain ⟨htype, c, hc, hsame⟩ := hrow
  cases set with
  | none => cases hr
  | some m => exact ⟨m, rfl, r, mem_ofTypes.mpr ⟨hr, htype⟩, c, hc, sameRow_iff.mp hsame⟩

section ShowOf

variable (rows : List ChapterInfo) (shown : StoredMarkers) (set : Option StoredMarkers)

/-- One round for the intro: the set's, where none is shown yet and a row of it is there. -/
theorem intro_showOf :
    ((showOf rows shown set).introStartTicks, (showOf rows shown set).introEndTicks) =
      if shown.introStartTicks.isNone && hasRowOf rows (rowsFor set) introTypes then
        (set.bind StoredMarkers.introStartTicks, set.bind StoredMarkers.introEndTicks)
      else (shown.introStartTicks, shown.introEndTicks) := by
  unfold showOf
  dsimp only
  split_ifs <;> rfl

/-- The same for credits. -/
theorem credits_showOf : (showOf rows shown set).creditsStartTicks =
    if shown.creditsStartTicks.isNone && hasRowOf rows (rowsFor set) creditsTypes then
      set.bind StoredMarkers.creditsStartTicks
    else shown.creditsStartTicks := by
  have hcredits : (if shown.introStartTicks.isNone && hasRowOf rows (rowsFor set) introTypes then
      { shown with
        introStartTicks := set.bind StoredMarkers.introStartTicks
        introEndTicks := set.bind StoredMarkers.introEndTicks }
    else shown).creditsStartTicks = shown.creditsStartTicks := by split_ifs <;> rfl
  unfold showOf
  dsimp only
  rw [hcredits]
  split_ifs <;> rfl

/-- Neither the file nor what is replaced is taken over. -/
theorem others_showOf : (showOf rows shown set).fileSize = shown.fileSize ∧
    (showOf rows shown set).replacing = shown.replacing := by
  unfold showOf
  dsimp only
  split_ifs <;> exact ⟨rfl, rfl⟩

end ShowOf

/-- The set a kind is shown of: the stored one, where a row of it is there, or else the replaced one. -/
def shownSet (rows : List ChapterInfo) (stored : Option StoredMarkers) (types : List MarkerType) :
    Option StoredMarkers :=
  if hasRowOf rows (rowsFor stored) types then stored
  else if hasRowOf rows (rowsFor (replacingOf stored)) types then replacingOf stored
  else none

/-- **What `ShownOf` says, kind by kind.** -/
theorem shownOf_spec (rows : List ChapterInfo) (stored : Option StoredMarkers) :
    ∃ shown : StoredMarkers, shownOf rows stored = (if hasMarkers (some shown) then some shown else none) ∧
      (shown.introStartTicks, shown.introEndTicks) =
        ((shownSet rows stored introTypes).bind StoredMarkers.introStartTicks,
          (shownSet rows stored introTypes).bind StoredMarkers.introEndTicks) ∧
      shown.creditsStartTicks = (shownSet rows stored creditsTypes).bind StoredMarkers.creditsStartTicks ∧
      shown.fileSize = none ∧ shown.replacing = none := by
  refine ⟨showOf rows (showOf rows {} stored) (replacingOf stored), rfl, ?_, ?_, ?_, ?_⟩
  · have hfirst := intro_showOf rows {} stored
    rw [intro_showOf, shownSet]
    by_cases hs : hasRowOf rows (rowsFor stored) introTypes = true
    · obtain ⟨m, rfl, r, hr, -⟩ := exists_of_hasRowOf hs
      rw [(ofTypes_rowsFor m).1] at hr
      obtain ⟨-, -, start, stop, hstart, hstop⟩ := mem_introRows hr
      rw [hs] at hfirst
      simp only [Option.isNone_none, Bool.and_self, if_true, Option.bind_some, hstart, hstop, Prod.mk.injEq] at hfirst
      simp only [hs, if_true, hfirst.1, hfirst.2, Option.isNone_some, Bool.false_and, Bool.false_eq_true, if_false,
        Option.bind_some, hstart, hstop]
    · rw [Bool.not_eq_true] at hs
      rw [hs] at hfirst
      simp only [Bool.and_false, Bool.false_eq_true, if_false, Prod.mk.injEq] at hfirst
      simp only [hs, Bool.false_eq_true, if_false, hfirst.1, hfirst.2, Option.isNone_none, Bool.true_and]
      split_ifs <;> rfl
  · have hfirst := credits_showOf rows {} stored
    rw [credits_showOf, shownSet]
    by_cases hs : hasRowOf rows (rowsFor stored) creditsTypes = true
    · obtain ⟨m, rfl, r, hr, -⟩ := exists_of_hasRowOf hs
      rw [(ofTypes_rowsFor m).2] at hr
      obtain ⟨-, -, start, hstart⟩ := mem_creditsRows hr
      rw [hs] at hfirst
      simp only [Option.isNone_none, Bool.and_self, if_true, Option.bind_some, hstart] at hfirst
      simp only [hs, if_true, hfirst, Option.isNone_some, Bool.false_and, Bool.false_eq_true, if_false,
        Option.bind_some, hstart]
    · rw [Bool.not_eq_true] at hs
      rw [hs] at hfirst
      simp only [Bool.and_false, Bool.false_eq_true, if_false] at hfirst
      simp only [hs, Bool.false_eq_true, if_false, hfirst, Option.isNone_none, Bool.true_and]
      split_ifs <;> rfl
  · rw [(others_showOf ..).1, (others_showOf ..).1]
  · rw [(others_showOf ..).2, (others_showOf ..).2]

/-- The rows `ShownOf` names of a kind are those of the set the kind is shown of. -/
theorem ofTypes_shownOf {types : List MarkerType} (htypes : types ∈ [introTypes, creditsTypes]) :
    ofTypes types (rowsFor (shownOf rows stored)) = ofTypes types (rowsFor (shownSet rows stored types)) := by
  obtain ⟨shown, hshown, hintro, hcredits, -, -⟩ := shownOf_spec rows stored
  have hrows : rowsFor (shownOf rows stored) = rowsFor (some shown) := by
    rw [hshown]
    split_ifs with h
    · rfl
    · exact (rowsFor_of_not_hasMarkers (Bool.not_eq_true _ ▸ h)).symm
  rw [hrows]
  simp only [List.mem_cons, List.not_mem_nil, or_false] at htypes
  rcases htypes with rfl | rfl
  · rw [(ofTypes_rowsFor shown).1, introRows]
    rw [Prod.mk.injEq] at hintro
    rw [hintro.1, hintro.2]
    cases shownSet rows stored introTypes with
    | none => rfl
    | some m => exact (ofTypes_rowsFor m).1.symm
  · rw [(ofTypes_rowsFor shown).2, creditsRows, hcredits]
    cases shownSet rows stored creditsTypes with
    | none => rfl
    | some m => exact (ofTypes_rowsFor m).2.symm

/-- Markers of a usable store file can be stored. -/
theorem problem_of_storedProblem (h : storedProblem (some m) = none) (hmarkers : hasMarkers (some m) = true) :
    problem (some m) = none := by
  unfold storedProblem at h
  split at h
  · exact h
  · rw [hmarkers, Bool.true_or, if_pos rfl] at h
    split_ifs at h
    exact h

/-- A set that can be stored shows markers that can be. -/
theorem valid_shownSet {types : List MarkerType} (h : storedProblem stored = none ∨ stored = none)
    (hm : shownSet rows stored types = some m) : problem (some m) = none := by
  unfold shownSet at hm
  split_ifs at hm with hs hr
  · obtain ⟨m', rfl, r, hmem, -⟩ := exists_of_hasRowOf hs
    obtain rfl := Option.some.inj hm
    have hmarkers : hasMarkers (some m') = true := by
      by_contra hno
      rw [rowsFor_of_not_hasMarkers (Bool.not_eq_true _ ▸ hno)] at hmem
      exact absurd (mem_ofTypes.mp hmem).1 List.not_mem_nil
    exact problem_of_storedProblem (h.resolve_right (Option.some_ne_none m')) hmarkers
  · rcases h with h | rfl
    · unfold storedProblem at h
      rw [hm] at h
      dsimp only at h
      split_ifs at h with hbad
      all_goals
        rw [not_or, Option.not_isSome_iff_eq_none] at hbad
        exact Option.not_isSome_iff_eq_none.mp hbad.2
    · cases hm

/-- What `ShownOf` gives can be stored as what is replaced. -/
theorem valid_shownOf (h : storedProblem stored = none ∨ stored = none) :
    ∀ r ∈ shownOf rows stored, problem (some r) = none ∧ r.replacing = none := by
  obtain ⟨shown, hshown, hintro, hcredits, hsize, hnone⟩ := shownOf_spec rows stored
  intro r hr
  rw [hshown] at hr
  split_ifs at hr with hmarkers
  · obtain rfl := Option.some.inj hr
    refine ⟨problem_eq_none_iff.mpr ⟨?_, ?_, ?_, hmarkers⟩, hnone⟩
    · rw [Prod.mk.injEq] at hintro
      rw [ValidIntro, hintro.1, hintro.2]
      cases hset : shownSet rows stored introTypes with
      | none => exact ⟨rfl, fun _ hc => by cases hc⟩
      | some m => exact (problem_eq_none_iff.mp (valid_shownSet h hset)).1
    · rw [ValidCredits, hcredits]
      cases hset : shownSet rows stored creditsTypes with
      | none => exact fun _ hc => by cases hc
      | some m => exact (problem_eq_none_iff.mp (valid_shownSet h hset)).2.1
    · rw [hsize]
      exact fun _ hc => by cases hc
  · cases hr

end MediaPreview.Bridge
