import MediaPreview.Bridge.Writes

/-!
# What a call leaves that went through

A POST, a DELETE or an item update that was neither stopped nor refused leaves every kind of row as it should be
(`Shows`): ours, where markers of the kind are wanted and nobody else's are there or may go, and others' rows otherwise.
No other row of ours is left, whatever became of the calls before it, where those were safe (`Event.Safe`) and this one
could read the store (`post_done`, `delete_done`, `itemUpdated_done`).
-/

namespace MediaPreview.Bridge

variable {rows : List ChapterInfo} {previous next ours wanted : Option StoredMarkers} {s s' : Item} {faults : Faults}
  {replaceOthers : Bool} {c : ChapterInfo} {m : StoredMarkers}

/-- An item shows what is wanted beside the rows that are not ours, kind by kind. -/
def Shows (s' : Item) (existing : List ChapterInfo) (ours wanted : Option StoredMarkers) (replaceOthers : Bool) : Prop :=
  ∀ types ∈ [introTypes, creditsTypes, [.chapter]], ((ofTypes types s'.rows).map ChapterInfo.key).Perm
    ((if ofTypes types (rowsFor wanted) ≠ [] ∧ (ofTypes types (others existing ours) = [] ∨ replaceOthers = true) then
        ofTypes types (rowsFor wanted)
      else ofTypes types (others existing ours)).map ChapterInfo.key)

/-- Rows with the same keys are the same kind by kind. -/
theorem ofTypes_perm_of_sameRows {a b : List ChapterInfo} (h : sameRows a b = true) (types : List MarkerType) :
    ((ofTypes types a).map ChapterInfo.key).Perm ((ofTypes types b).map ChapterInfo.key) := by
  have hkeys : ∀ l : List ChapterInfo, (ofTypes types l).map ChapterInfo.key =
      (l.map ChapterInfo.key).filter fun k => k.2.1 ∈ types := by
    intro l
    rw [List.filter_map]
    rfl
  rw [hkeys, hkeys]
  exact (sameRows_iff.mp h).filter _

/-- Rows worked out by `apply`, saved or there already, show what is wanted. -/
theorem shows_of_sameRows
    (h : sameRows s'.rows (apply rows ours wanted replaceOthers).1 = true) : Shows s' rows ours wanted replaceOthers :=
  fun _ htypes => (ofTypes_perm_of_sameRows h _).trans ((ofTypes_apply htypes).map _)

theorem sameRows_refl (rows : List ChapterInfo) : sameRows rows rows = true := sameRows_iff.mpr (List.Perm.refl _)

namespace Item

/-- **A write that went through**: the rows are the ones worked out, and the store names the new markers. -/
theorem write_done (h : (s.writeStoreThenChapters faults rows previous next).done = true) :
    ((s.writeStoreThenChapters faults rows previous next).last.rows = rows ∨
      sameRows s.rows rows = true ∧ (s.writeStoreThenChapters faults rows previous next).last.rows = s.rows) ∧
      rowsFor (s.writeStoreThenChapters faults rows previous next).last.stored = rowsFor next ∧
      (faults.finish = false →
        rowsFor (replacingOf (s.writeStoreThenChapters faults rows previous next).last.stored) = []) := by
  have hnone : rowsFor (replacingOf (withReplacing next none)) = [] := rowsFor_withReplacing.2
  unfold writeStoreThenChapters Stages.andThen at h ⊢
  rw [Stages.done_act_handle] at h
  rw [Stages.last_act_handle]
  by_cases hsave : faults.save = true
  · rw [if_pos hsave] at h
    exact absurd h Bool.false_ne_true
  rw [if_neg hsave] at h ⊢
  by_cases hsame : sameRows s.rows rows = true
  · simp only [if_pos hsame] at h ⊢
    exact ⟨.inr ⟨hsame, rfl⟩, rowsFor_withReplacing.1, fun _ => hnone⟩
  simp only [if_neg hsame] at h ⊢
  rw [Stages.done_act_handle] at h
  rw [Stages.last_act_handle]
  by_cases hchapters : faults.chapters = true
  · rw [if_pos hchapters, Stages.done_act_handle] at h
    split_ifs at h <;> exact absurd h Bool.false_ne_true
  rw [if_neg hchapters]
  by_cases hshown : (shownOf s.rows previous).isNone = true
  · rw [if_pos hshown]
    refine ⟨.inl rfl, rowsFor_withReplacing.1, fun _ => ?_⟩
    rw [Option.isNone_iff_eq_none.mp hshown]
    exact hnone
  · rw [if_neg hshown, Stages.last_act_handle]
    split_ifs with hfinish
    · exact ⟨.inl rfl, rowsFor_withReplacing.1, fun hno => absurd (hfinish.symm.trans hno) (by decide)⟩
    · exact ⟨.inl rfl, rowsFor_withReplacing.1, fun _ => hnone⟩

/-- What a call leaves of ours once it went through. -/
structure Left (s' : Item) (shown kept : Option StoredMarkers) (finished : Prop) : Prop where
  /-- Every row of ours is one of those shown. -/
  rows : ∀ c ∈ s'.rows, c.written = true → Named (rowsFor shown) c
  /-- The store names the rows of what is stored. -/
  stored : rowsFor s'.stored = rowsFor kept
  /-- It names no others, once the store was saved the second time. -/
  finished : finished → ourRows s'.stored = rowsFor kept

/-- A write that went through leaves what is wanted, and no other row of ours. -/
theorem Sound.left_of_write (hs : s.Sound) (h : (s.writeStoreThenChapters faults
      (apply s.rows (s.load false) wanted replaceOthers).1 (s.load false) next).done = true) :
    Shows (s.writeStoreThenChapters faults (apply s.rows (s.load false) wanted replaceOthers).1 (s.load false) next).last s.rows
        s.stored wanted replaceOthers ∧
      Left (s.writeStoreThenChapters faults (apply s.rows (s.load false) wanted replaceOthers).1 (s.load false) next).last wanted next
        (faults.finish = false) := by
  obtain ⟨hrows, hstored, hfinished⟩ := write_done h
  rw [hs.valid] at hrows hstored hfinished ⊢
  refine ⟨?_, fun c hc hw => ?_, hstored, fun hno => ?_⟩
  · refine shows_of_sameRows ?_
    rcases hrows with hrows | ⟨hsame, hrows⟩
    · rw [hrows]
      exact sameRows_refl _
    · rw [hrows]
      exact hsame
  · rcases hrows with hrows | ⟨hsame, hrows⟩
    · rw [hrows] at hc
      exact ⟨c, hs.named_of_written hc hw, rfl⟩
    · rw [hrows] at hc
      exact hs.named_of_sameRows hsame hc hw
  · rw [ourRows, hstored, hfinished hno, List.append_nil]

/-- **A POST that read the store and went through**, whatever became of the calls before it, shows its markers beside the
rows that are not ours, and leaves no row of ours from before. -/
theorem post_done {s₀ : Item} {es : List Event} {request : SetMarkers} {measured : Option ℤ} (h₀ : s₀.Untouched)
    (hrun : Runs step (fun s e => e.Safe s) s₀ es s)
    (hread : faults.read = false) (h : (s.post request measured faults).done = true) :
    Shows (s.post request measured faults).last s.rows s.stored (s.shownFor request measured) request.replaceOwn ∧
      Left (s.post request measured faults).last (s.shownFor request measured) (some (s.markersOf request))
        (faults.finish = false) := by
  have hs := h₀.sound.keeps hrun
  unfold post at h ⊢
  rw [hread] at h ⊢
  split_ifs at h ⊢
  · cases h
  · cases h
  · exact hs.left_of_write h

/-- **A DELETE that read the store and went through** leaves no row of ours, and every other. -/
theorem delete_done {s₀ : Item} {es : List Event} (h₀ : s₀.Untouched)
    (hrun : Runs step (fun s e => e.Safe s) s₀ es s) (hread : faults.read = false) (h : (s.delete faults).done = true) :
    Shows (s.delete faults).last s.rows s.stored none false ∧
      Left (s.delete faults).last none none (faults.finish = false) := by
  have hs := h₀.sound.keeps hrun
  unfold delete at h ⊢
  rw [hread] at h ⊢
  split_ifs at h ⊢
  · cases h
  · exact hs.left_of_write h

/-- The end of an update: what was being replaced is forgotten. -/
theorem left_of_finish {x : Item} (hx : x.stored = some m)
    (hrows : ∀ c ∈ x.rows, c.written = true → Named (rowsFor (some m)) c)
    (h : (if m.replacing.isSome then Stages.act faults.finish (save (some m) none) x else .skip x).done = true) :
    (if m.replacing.isSome then Stages.act faults.finish (save (some m) none) x else .skip x).last.rows = x.rows ∧
      Left (if m.replacing.isSome then Stages.act faults.finish (save (some m) none) x else .skip x).last (some m)
        (some m)
        True := by
  split_ifs at h ⊢ with hreplacing
  · cases hfail : faults.finish with
    | true =>
      rw [hfail] at h
      cases h
    | false =>
      refine ⟨rfl, hrows, rowsFor_withReplacing.1, fun _ => ?_⟩
      exact ourRows_withReplacing.trans (List.append_nil _)
  · refine ⟨rfl, hrows, congrArg rowsFor hx, fun _ => ?_⟩
    change ourRows x.stored = rowsFor (some m)
    rw [hx, ourRows, replacingOf, Option.bind_some, Option.not_isSome_iff_eq_none.mp hreplacing]
    exact List.append_nil _

/-- **An update that read the store and went through** takes our rows off a replaced file; on any other it shows the stored markers where a
kind has no rows, and ends a write that was stopped. -/
theorem itemUpdated_done {s₀ : Item} {es : List Event} {measured : Option ℤ} (h₀ : s₀.Untouched)
    (hrun : Runs step (fun s e => e.Safe s) s₀ es s) (hstored : s.stored = some m)
    (hread : faults.read = false) (h : (s.itemUpdated measured faults).done = true) :
    (isStale (some m) measured s.path = true → Shows (s.itemUpdated measured faults).last s.rows (some m) none false ∧
      ∀ c ∈ (s.itemUpdated measured faults).last.rows, c.written = false) ∧
    (isStale (some m) measured s.path = false →
      Shows (s.itemUpdated measured faults).last s.rows m.replacing (some m) false ∧
        Left (s.itemUpdated measured faults).last (some m) (some m) True) := by
  have hs := h₀.sound.keeps hrun
  unfold itemUpdated at h ⊢
  rw [hread, hs.valid, hstored] at h ⊢
  dsimp only at h ⊢
  by_cases hunread : faults.rows = true
  · rw [if_pos hunread] at h
    cases h
  rw [if_neg hunread] at h ⊢
  constructor
  · intro hstale
    rw [if_pos hstale] at h ⊢
    by_cases hsame : sameRows s.rows (apply s.rows (some m) none false).1 = true
    · rw [if_pos hsame]
      refine ⟨shows_of_sameRows hsame, fun c hc => Bool.eq_false_iff.mpr fun hw => ?_⟩
      rw [← hstored] at hsame
      obtain ⟨r, hr, -⟩ := hs.named_of_sameRows hsame hc hw
      exact absurd hr List.not_mem_nil
    · rw [if_neg hsame] at h ⊢
      cases hfail : faults.chapters with
      | true =>
        rw [hfail] at h
        cases h
      | false =>
        refine ⟨shows_of_sameRows (sameRows_refl _), fun c hc => Bool.eq_false_iff.mpr fun hw => ?_⟩
        change c ∈ (apply s.rows (some m) none false).1 at hc
        rw [← hstored] at hc
        exact absurd (hs.named_of_written hc hw) List.not_mem_nil
  · intro hstale
    have hstale : ¬ isStale (some m) measured s.path = true := by simp [hstale]
    rw [if_neg hstale] at h ⊢
    unfold Stages.andThen at h ⊢
    by_cases hsame : sameRows s.rows (apply s.rows m.replacing (some m) false).1 = true
    · rw [if_pos hsame] at h ⊢
      obtain ⟨hrows, hleft⟩ := left_of_finish hstored
        (fun c hc hw => hs.named_of_unchanged hstored hsame hc hw) h
      exact ⟨shows_of_sameRows ((congrArg (sameRows · _) hrows).trans hsame), hleft⟩
    · rw [if_neg hsame] at h ⊢
      rw [Stages.done_act_handle] at h
      rw [Stages.last_act_handle]
      by_cases hfail : faults.chapters = true
      · rw [if_pos hfail] at h
        cases h
      · rw [if_neg hfail] at h ⊢
        obtain ⟨hrows, hleft⟩ :=
          left_of_finish (x := s.saveChapters (apply s.rows m.replacing (some m) false).1) hstored
          (fun c hc hw => hs.named_of_healed hstored hc hw) h
        exact ⟨shows_of_sameRows ((congrArg (sameRows · _) hrows).trans (sameRows_refl _)), hleft⟩

/-! ### After a write that was stopped -/

/-- The episode whose first write was stopped once the store was saved. -/
theorem exists_stopped {p : Item → Bool}
    (h : (step episode (.post (introRequest 10 40) none noFaults (some 1))).any p = true) :
    ∃ s, Runs step (fun s e => e.Safe s) episode
      [.post (introRequest 10 40) none noFaults (some 1)] s ∧ p s = true := by
  obtain ⟨s, hs, hp⟩ := (Option.any_eq_true ..).mp h
  exact ⟨s, .cons ⟨rfl, fun hmixed => absurd hmixed (by decide)⟩ hs (.nil s), hp⟩

/-- A second POST shows its own intro alone. -/
theorem post_done_episode : ∃ s, Runs step (fun s e => e.Safe s) episode
    [.post (introRequest 10 40) none noFaults (some 1)] s ∧
      Shows (s.post (introRequest 20 60) none noFaults).last s.rows s.stored (s.shownFor (introRequest 20 60) none)
        false ∧
        Left (s.post (introRequest 20 60) none noFaults).last (s.shownFor (introRequest 20 60) none)
          (some (s.markersOf (introRequest 20 60))) (noFaults.finish = false) := by
  obtain ⟨s, hrun, hdone⟩ := exists_stopped
    (p := fun s => (s.post (introRequest 20 60) none noFaults).done) (by decide +kernel)
  exact ⟨s, hrun, post_done untouched_episode hrun rfl hdone⟩

/-- An update writes the stored intro. -/
theorem itemUpdated_done_episode : ∃ s m, Runs step (fun s e => e.Safe s) episode
    [.post (introRequest 10 40) none noFaults (some 1)] s ∧ s.stored = some m ∧
      (isStale (some m) none s.path = true → Shows (s.itemUpdated none noFaults).last s.rows (some m) none false ∧
        ∀ c ∈ (s.itemUpdated none noFaults).last.rows, c.written = false) ∧
      (isStale (some m) none s.path = false →
        Shows (s.itemUpdated none noFaults).last s.rows m.replacing (some m) false ∧
          Left (s.itemUpdated none noFaults).last (some m) (some m) True) := by
  obtain ⟨s, hrun, hp⟩ := exists_stopped
    (p := fun s => s.stored.isSome && (s.itemUpdated none noFaults).done) (by decide +kernel)
  rw [Bool.and_eq_true] at hp
  obtain ⟨m, hm⟩ := Option.isSome_iff_exists.mp hp.1
  exact ⟨s, m, hrun, hm, itemUpdated_done untouched_episode hrun hm rfl hp.2⟩

end Item

end MediaPreview.Bridge
