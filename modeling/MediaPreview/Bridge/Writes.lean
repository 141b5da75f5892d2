import MediaPreview.Bridge.Shown
import MediaPreview.Lib.Runs
import MediaPreview.Lib.Stages

/-!
# Writing markers to Emby

The bridge plugin keeps two things of an item in step: the item's store file and its chapter rows. The store is saved
before the rows, and names beside the new markers what the rows showed of ours before (`writeStoreThenChapters`), so
that a row this plugin wrote is named by the store wherever Emby stops or a save fails (`written_named`). What nothing
names, nothing would ever take away again.

There are two ways out of it. `ShownOf` looks at a kind of marker as a whole: where an item shows a row of the stored
intro, or credits, and a row of the replaced ones alone (`Item.Mixed`), the store names one of the two while the rows are
written. A write must come through there (`Event.ComesThrough`, `not_sound_of_mixed`). And a store file that cannot be
read counts as none: a write then takes our rows for another's, and forgets them (`Event.Reads`, `not_sound_of_unread`).
-/

namespace MediaPreview.Bridge

/-! ### The plugin -/

/-- A video of Emby's library, with its store file. -/
structure Item where
  /-- The store file, as it deserializes. -/
  stored : Option StoredMarkers
  /-- The chapter rows. -/
  rows : List ChapterInfo
  /-- The file's path. -/
  path : Option String
  /-- The item is in the library. -/
  inLibrary : Bool

/-- Which of a call's steps fail. -/
structure Faults where
  /-- The store file is there, but cannot be read, or is cut off. -/
  read : Bool
  /-- The chapters are not read. -/
  rows : Bool
  /-- The store is not saved. -/
  save : Bool
  /-- The chapters are not saved. -/
  chapters : Bool
  /-- The store does not get back what it held. -/
  restore : Bool
  /-- The store is not saved once more. -/
  finish : Bool
  deriving DecidableEq, Repr

/-- `SetMarkersRequest`. -/
structure SetMarkers where
  /-- `IntroStartTicks`. -/
  introStartTicks : Option ℤ
  /-- `IntroEndTicks`. -/
  introEndTicks : Option ℤ
  /-- `CreditsStartTicks`. -/
  creditsStartTicks : Option ℤ
  /-- `FileSize`. -/
  fileSize : Option ℤ
  /-- `ReplaceOwn`. -/
  replaceOwn : Bool
  deriving DecidableEq, Repr

namespace Item

/-- `MarkerStore.Load`: what cannot be read, or used, counts as none. -/
def load (fails : Bool) (s : Item) : Option StoredMarkers :=
  if fails then none else if storedProblem s.stored = none then s.stored else none

/-- `MarkerStore.Save`, with what a write under way replaces. -/
def save (markers replacing : Option StoredMarkers) (s : Item) : Item :=
  { s with stored := withReplacing markers replacing }

/-- `RestoreStore`. -/
def restore (previous : Option StoredMarkers) (s : Item) : Item := { s with stored := previous }

/-- `SaveChapters`. -/
def saveChapters (rows : List ChapterInfo) (s : Item) : Item := { s with rows := rows }

/-- `WriteStoreThenChapters`. -/
def writeStoreThenChapters (faults : Faults) (rows : List ChapterInfo) (previous next : Option StoredMarkers)
    (s : Item) : Stages Item :=
  let unchanged := sameRows s.rows rows
  let replacing := if unchanged then none else shownOf s.rows previous
  (Stages.act faults.save (save next replacing) s).andThen fun s =>
    if unchanged then .skip s
    else (Stages.act faults.chapters (saveChapters rows) s).handle
      (fun s =>
        if replacing.isNone then .skip s
        else (Stages.act faults.finish (save next none) s).handle .skip .skip)
      fun s => (Stages.act faults.restore (restore previous) s).handle .raise .raise

/-- The markers a request is for. -/
def markersOf (request : SetMarkers) (s : Item) : StoredMarkers where
  introStartTicks := request.introStartTicks
  introEndTicks := request.introEndTicks
  creditsStartTicks := request.creditsStartTicks
  fileSize := request.fileSize
  path := s.path

/-- The markers of a request that are shown: none on a file that is another. -/
def shownFor (request : SetMarkers) (measured : Option ℤ) (s : Item) : Option StoredMarkers :=
  if isStale (some (s.markersOf request)) measured s.path then none else some (s.markersOf request)

/-- `Post(SetMarkersRequest)`, with the size measured before. -/
def post (request : SetMarkers) (measured : Option ℤ) (faults : Faults) (s : Item) : Stages Item :=
  if !s.inLibrary then .raise s
  else if (problem (some (s.markersOf request))).isSome || faults.rows then .raise s
  else s.writeStoreThenChapters faults
    (apply s.rows (s.load faults.read) (s.shownFor request measured) request.replaceOwn).1 (s.load faults.read)
    (some (s.markersOf request))

/-- `Delete(DeleteMarkersRequest)`. -/
def delete (faults : Faults) (s : Item) : Stages Item :=
  if !s.inLibrary || faults.rows then .raise s
  else s.writeStoreThenChapters faults (apply s.rows (s.load faults.read) none false).1 (s.load faults.read) none

/-- `OnItemUpdated`, with the size measured before. -/
def itemUpdated (measured : Option ℤ) (faults : Faults) (s : Item) : Stages Item :=
  match s.load faults.read with
  | none => .skip s
  | some stored =>
    if faults.rows then .raise s
    else if isStale (some stored) measured s.path then
      let withoutOurs := (apply s.rows (some stored) none false).1
      if sameRows s.rows withoutOurs then .skip s
      else Stages.act faults.chapters (saveChapters withoutOurs) s
    else
      let rows := (apply s.rows stored.replacing (some stored) false).1
      (if sameRows s.rows rows then .skip s else Stages.act faults.chapters (saveChapters rows) s).andThen fun s =>
        if stored.replacing.isSome then Stages.act faults.finish (save (some stored) none) s else .skip s

end Item

/-! ### The item's life -/

/-- What happens to an item. A call may raise at any of its steps, and Emby may stop while it runs (`stop`: after that
many of its steps). -/
inductive Event where
  /-- The app sends markers. -/
  | post (request : SetMarkers) (measured : Option ℤ) (faults : Faults) (stop : Option ℕ)
  /-- The app clears the markers. -/
  | delete (faults : Faults) (stop : Option ℕ)
  /-- Emby has updated the item. -/
  | itemUpdated (measured : Option ℤ) (faults : Faults) (stop : Option ℕ)
  /-- The item left the library; its store file goes unless that fails. -/
  | itemRemoved (fails : Bool)
  /-- `MarkerStoreSweepTask` looked at the item. -/
  | sweep
  /-- Emby, another plugin or the user changed the rows. -/
  | edited (rows : List ChapterInfo)
  /-- The item's file has another path. -/
  | moved (path : Option String)

/-- Where a call leaves the item. -/
def stopAt (stop : Option ℕ) (call : Stages Item) : Option Item :=
  match stop with
  | none => some call.last
  | some k => call.all[k]?

/-- What an event makes of the item. Others write no row as this plugin's, but may take any row away. -/
def step (s : Item) : Event → Option Item
  | .post request measured faults stop => stopAt stop (s.post request measured faults)
  | .delete faults stop => stopAt stop (s.delete faults)
  | .itemUpdated measured faults stop =>
    if s.inLibrary then stopAt stop (s.itemUpdated measured faults) else none
  | .itemRemoved fails => some { s with inLibrary := false, rows := [], stored := if fails then s.stored else none }
  | .sweep => some (if s.inLibrary then s else { s with stored := none })
  | .edited rows =>
    if s.inLibrary = true ∧ ∀ c ∈ rows, c.written = true → c ∈ s.rows then some { s with rows := rows } else none
  | .moved path => some { s with path := path }

/-- What the store says and what the item shows fit together. -/
structure Item.Sound (s : Item) : Prop where
  /-- What is stored can be used. -/
  valid : s.load false = s.stored
  /-- Every row this plugin wrote is named by the store. -/
  named : ∀ c ∈ s.rows, c.written = true → Named (ourRows s.stored) c
  /-- An item that left the library has no rows. -/
  gone : s.inLibrary = false → s.rows = []

/-- A row of the stored markers is there, and of the same kind one of ours that only the replaced ones name. -/
def Item.Mixed (s : Item) : Prop :=
  ∃ types ∈ [introTypes, creditsTypes], hasRowOf s.rows (rowsFor s.stored) types = true ∧
    ∃ c ∈ ofTypes types s.rows, c.written = true ∧ Named (rowsFor (replacingOf s.stored)) c ∧
      ¬ Named (rowsFor s.stored) c

/-- A write is neither stopped nor left with a store that does not get back what it held. -/
def Event.ComesThrough : Event → Prop
  | .post _ _ faults stop => stop = none ∧ (faults.chapters = true → faults.restore = false)
  | .delete faults stop => stop = none ∧ (faults.chapters = true → faults.restore = false)
  | _ => True

/-- A write could read the store. -/
def Event.Reads : Event → Prop
  | .post _ _ faults _ => faults.read = false
  | .delete faults _ => faults.read = false
  | _ => True

/-- An event that leaves the store naming our rows: a write reads the store, and of a mixed item comes through. -/
def Event.Safe (s : Item) (e : Event) : Prop := e.Reads ∧ (s.Mixed → e.ComesThrough)

/-! ### A write -/

variable {m : StoredMarkers} {markers replacing stored next wanted : Option StoredMarkers} {c : ChapterInfo}
  {rows : List ChapterInfo} {s s' : Item}

theorem Named.append_iff {rows' : List ChapterInfo} : Named (rows ++ rows') c ↔ Named rows c ∨ Named rows' c := by
  simp only [Named, List.mem_append, or_and_right, exists_or]

theorem Named.of_key_eq {c' : ChapterInfo} (h : Named rows c) (hkey : c.key = c'.key) : Named rows c' :=
  h.imp fun _ hr => ⟨hr.1, hr.2.trans hkey⟩

namespace Item

/-- What is stored, where there is something, can be used. -/
theorem Sound.storedProblem (h : s.Sound) : storedProblem s.stored = none ∨ s.stored = none := by
  have hvalid := h.valid
  rw [load, if_neg Bool.false_ne_true] at hvalid
  split_ifs at hvalid with hproblem
  · exact .inl hproblem
  · exact .inr hvalid.symm

/-- What is read is what is stored. -/
theorem Sound.stored_of_load (h : s.Sound) {fails : Bool} (hload : s.load fails = some m) : s.stored = some m := by
  cases fails with
  | true => cases hload
  | false => exact h.valid.symm.trans hload

theorem load_eq_of_storedProblem (h : s.stored ≠ none → Bridge.storedProblem s.stored = none) :
    s.load false = s.stored := by
  rw [load, if_neg Bool.false_ne_true]
  split_ifs with hproblem
  · rfl
  · by_contra hne
    exact hproblem (h fun hnone => hne hnone.symm)

/-- A row of ours is not among the rows left once ours are taken out. -/
theorem Sound.not_written_of_mem_others (h : s.Sound) (hc : c ∈ others s.rows s.stored) : c.written = false := by
  obtain ⟨hmem, hnot⟩ := mem_others.mp hc
  exact Bool.eq_false_iff.mpr fun hw => hnot (h.named c hmem hw)

/-- What a write is for: nothing, or markers that can be stored. -/
structure Write (s : Item) (next wanted : Option StoredMarkers) : Prop where
  /-- The markers to store. -/
  storable : next = none ∨ problem next = none
  /-- The markers to show are those, or none. -/
  shown : rowsFor wanted ⊆ rowsFor next

variable {replaceOthers : Bool} {faults : Faults}

/-- The rows of ours on an item that was written to are the wanted ones. -/
theorem Sound.named_of_written (h : s.Sound)
    (hc : c ∈ (apply s.rows s.stored wanted replaceOthers).1) (hw : c.written = true) : c ∈ rowsFor wanted := by
  refine (mem_apply hc).resolve_left fun hother => ?_
  rw [h.not_written_of_mem_others hother] at hw
  exact Bool.false_ne_true hw

/-- Rows the same as those wanted have none of ours but the wanted ones. -/
theorem Sound.named_of_sameRows (h : s.Sound)
    (hsame : sameRows s.rows (apply s.rows s.stored wanted replaceOthers).1 = true) (hc : c ∈ s.rows)
    (hw : c.written = true) : Named (rowsFor wanted) c := by
  have hkey := (sameRows_iff.mp hsame).mem_iff.mp (List.mem_map_of_mem hc)
  obtain ⟨c', hc', hkey⟩ := List.mem_map.mp hkey
  rcases mem_apply hc' with hother | hwanted
  · exact absurd ((h.named c hc hw).of_key_eq hkey.symm) (mem_others.mp hother).2
  · exact ⟨c', hwanted, hkey⟩

/-- **While the rows are written the store names what they showed**, unless the item is mixed. -/
theorem Sound.named_shownOf (h : s.Sound) (hmixed : ¬ s.Mixed) (hc : c ∈ s.rows) (hw : c.written = true) :
    Named (rowsFor (shownOf s.rows s.stored)) c := by
  have hof : ∀ {types}, types ∈ [introTypes, creditsTypes] → ∀ r ∈ rowsFor (shownSet s.rows s.stored types),
      r.markerType ∈ types → r.key = c.key → Named (rowsFor (shownOf s.rows s.stored)) c := by
    intro types htypes r hr htype hkey
    have hmem : r ∈ ofTypes types (rowsFor (shownOf s.rows s.stored)) := by
      rw [ofTypes_shownOf htypes]
      exact mem_ofTypes.mpr ⟨hr, htype⟩
    exact ⟨r, (mem_ofTypes.mp hmem).1, hkey⟩
  have hrow : ∀ {set types r}, r ∈ rowsFor set → r.markerType ∈ types → r.key = c.key →
      hasRowOf s.rows (rowsFor set) types = true := by
    intro set types r hr htype hkey
    refine List.any_eq_true.mpr ⟨r, hr, ?_⟩
    rw [Bool.and_eq_true, decide_eq_true_eq, List.any_eq_true]
    exact ⟨htype, c, hc, sameRow_iff.mpr hkey.symm⟩
  rcases Named.append_iff.mp (h.named c hc hw) with ⟨r, hr, hkey⟩ | ⟨r, hr, hkey⟩
  · obtain ⟨-, types, htypes, htype⟩ := mem_rowsFor hr
    refine hof htypes r ?_ htype hkey
    rw [shownSet, if_pos (hrow hr htype hkey)]
    exact hr
  · obtain ⟨-, types, htypes, htype⟩ := mem_rowsFor hr
    by_cases hstored : hasRowOf s.rows (rowsFor s.stored) types = true
    · -- a row of the stored markers is there, so this row is one of them: the item is not mixed
      by_cases hnamed : Named (rowsFor s.stored) c
      · obtain ⟨r', hr', hkey'⟩ := hnamed
        have htypeEq : r'.markerType = r.markerType := congrArg (fun k => k.2.1) (hkey'.trans hkey.symm)
        refine hof htypes r' ?_ (htypeEq ▸ htype) hkey'
        rw [shownSet, if_pos hstored]
        exact hr'
      · have htypeEq : c.markerType = r.markerType := congrArg (fun k => k.2.1) hkey.symm
        exact absurd ⟨types, htypes, hstored, c, mem_ofTypes.mpr ⟨hc, htypeEq ▸ htype⟩, hw, ⟨r, hr, hkey⟩, hnamed⟩
          hmixed
    · refine hof htypes r ?_ htype hkey
      rw [shownSet, if_neg hstored, if_pos (hrow hr htype hkey)]
      exact hr

variable {b : Bool}

/-- **The store is saved**: whatever rows of ours the item shows are named. -/
theorem Sound.of_save (h : s.Sound) (hwrite : Write s next wanted)
    (hmixed : sameRows s.rows (apply s.rows s.stored wanted b).1 = true ∨ ¬ s.Mixed) :
    (s.save next (if sameRows s.rows (apply s.rows s.stored wanted b).1 then none
      else shownOf s.rows s.stored)).Sound := by
  constructor
  · refine load_eq_of_storedProblem fun hsome => storedProblem_withReplacing hwrite.storable (fun r hr => ?_) hsome
    split_ifs at hr
    · cases hr
    · exact valid_shownOf h.storedProblem r hr
  · intro c hc hw
    rw [save, ourRows_withReplacing, Named.append_iff]
    split_ifs with hsame
    · obtain ⟨r, hr, hkey⟩ := h.named_of_sameRows hsame hc hw
      exact .inl ⟨r, hwrite.shown hr, hkey⟩
    · exact .inr (h.named_shownOf (hmixed.resolve_left hsame) hc hw)
  · exact h.gone

/-- **The rows are saved**: those of ours are the wanted ones, and stored. -/
theorem Sound.of_saveChapters (h : s.Sound) (hin : s.inLibrary = true) (hwrite : Write s next wanted)
    (hreplacing : ∀ r ∈ replacing, problem (some r) = none ∧ r.replacing = none) :
    ((s.save next replacing).saveChapters (apply s.rows s.stored wanted b).1).Sound := by
  constructor
  · exact load_eq_of_storedProblem fun hsome => storedProblem_withReplacing hwrite.storable hreplacing hsome
  · intro c hc hw
    change Named (ourRows (withReplacing next replacing)) c
    rw [ourRows_withReplacing, Named.append_iff]
    exact .inl ⟨c, hwrite.shown (h.named_of_written hc hw), rfl⟩
  · exact fun hgone => absurd (hin.symm.trans hgone) (by decide)

/-- The store is saved a second time, without the markers there were. -/
theorem Sound.of_finished (h : s.Sound) (hin : s.inLibrary = true) (hwrite : Write s next wanted) :
    ((s.save next none).saveChapters (apply s.rows s.stored wanted b).1).Sound :=
  h.of_saveChapters hin hwrite fun r hr => by cases hr

/-- Whatever is shown of the markers there were can be stored beside the new ones. -/
theorem Sound.valid_replacing (h : s.Sound) (hsame : ¬ sameRows s.rows rows = true) :
    ∀ r ∈ (if sameRows s.rows rows then none else shownOf s.rows s.stored), problem (some r) = none ∧
      r.replacing = none := by
  rw [if_neg hsame]
  exact valid_shownOf h.storedProblem

/-- **A write keeps the two together at every step** of an item that is not mixed. -/
theorem Sound.always_write (h : s.Sound) (hin : s.inLibrary = true) (hwrite : Write s next wanted)
    (hmixed : ¬ s.Mixed) :
    (s.writeStoreThenChapters faults (apply s.rows (s.load false) wanted b).1 (s.load false) next).Always Sound := by
  rw [h.valid]
  have hsaved := h.of_save hwrite (b := b) (.inr hmixed)
  unfold writeStoreThenChapters
  refine Stages.always_act_handle h hsaved ?_ (Stages.always_raise h)
  by_cases hsame : sameRows s.rows (apply s.rows s.stored wanted b).1 = true
  · simp only [if_pos hsame] at hsaved ⊢
    exact Stages.always_skip hsaved
  · simp only [if_neg hsame] at hsaved ⊢
    have hreplacing := h.valid_replacing hsame
    rw [if_neg hsame] at hreplacing
    have hshown := h.of_saveChapters hin hwrite hreplacing (b := b)
    have hfinished := h.of_finished hin hwrite (b := b)
    refine Stages.always_act_handle hsaved hshown ?_ ?_
    · by_cases hnone : (shownOf s.rows s.stored).isNone = true
      · rw [if_pos hnone]
        exact Stages.always_skip hshown
      · rw [if_neg hnone]
        exact Stages.always_act_handle hshown hfinished (Stages.always_skip hfinished) (Stages.always_skip hshown)
    · exact Stages.always_act_handle hsaved h (Stages.always_raise h) (Stages.always_raise hsaved)

/-- **A write that comes through** keeps the two together whatever the item shows. -/
theorem Sound.last_write (h : s.Sound) (hin : s.inLibrary = true) (hwrite : Write s next wanted)
    (hthrough : faults.chapters = true → faults.restore = false) :
    (s.writeStoreThenChapters faults (apply s.rows (s.load false) wanted b).1 (s.load false) next).last.Sound := by
  rw [h.valid]
  unfold writeStoreThenChapters Stages.andThen
  rw [Stages.last_act_handle]
  by_cases hsave : faults.save = true
  · rw [if_pos hsave]
    exact h
  rw [if_neg hsave]
  by_cases hsame : sameRows s.rows (apply s.rows s.stored wanted b).1 = true
  · have hsaved := h.of_save hwrite (b := b) (.inl hsame)
    simp only [if_pos hsame] at hsaved ⊢
    exact hsaved
  · have hreplacing := h.valid_replacing hsame
    simp only [if_neg hsame] at hreplacing ⊢
    rw [Stages.last_act_handle]
    by_cases hchapters : faults.chapters = true
    · rw [if_pos hchapters, Stages.last_act_handle, hthrough hchapters]
      exact h
    · rw [if_neg hchapters]
      have hshown := h.of_saveChapters hin hwrite hreplacing (b := b)
      by_cases hnone : (shownOf s.rows s.stored).isNone = true
      · rw [if_pos hnone]
        exact hshown
      · rw [if_neg hnone, Stages.last_act_handle]
        split_ifs
        · exact hshown
        · exact h.of_finished hin hwrite

/-! ### An update -/

/-- Rows that are saved keep the two together where the store names those of ours. -/
theorem Sound.of_rows (h : s.Sound) (hin : s.inLibrary = true)
    (hrows : ∀ c ∈ rows, c.written = true → Named (ourRows s.stored) c) :
    (Item.saveChapters rows s).Sound :=
  ⟨h.valid, hrows, fun hgone => absurd (hin.symm.trans hgone) (by decide)⟩

/-- Once the rows of the replaced markers gave way, the stored ones name every row of ours. -/
theorem Sound.named_of_healed (h : s.Sound) (hstored : s.stored = some m)
    (hc : c ∈ (apply s.rows m.replacing (some m) b).1) (hw : c.written = true) : Named (rowsFor (some m)) c := by
  rcases mem_apply hc with hother | hwanted
  · obtain ⟨hmem, hnot⟩ := mem_others.mp hother
    have hnamed := h.named c hmem hw
    rw [hstored, ourRows, Named.append_iff] at hnamed
    exact hnamed.resolve_right fun hr => hnot (Named.append_iff.mpr (.inl hr))
  · exact ⟨c, hwanted, rfl⟩

/-- So they do where the rows needed no change. -/
theorem Sound.named_of_unchanged (h : s.Sound) (hstored : s.stored = some m)
    (hsame : sameRows s.rows (apply s.rows m.replacing (some m) b).1 = true) (hc : c ∈ s.rows)
    (hw : c.written = true) : Named (rowsFor (some m)) c := by
  obtain ⟨c', hc', hkey⟩ := List.mem_map.mp ((sameRows_iff.mp hsame).mem_iff.mp (List.mem_map_of_mem hc))
  rcases mem_apply hc' with hother | hwanted
  · have hnamed := h.named c hc hw
    rw [hstored, ourRows, Named.append_iff] at hnamed
    refine hnamed.resolve_right fun hr => (mem_others.mp hother).2 (Named.append_iff.mpr (.inl ?_))
    exact hr.of_key_eq hkey.symm
  · exact ⟨c', hwanted, hkey⟩

/-- What was being replaced may be forgotten where the stored markers name every row of ours. -/
theorem Sound.of_finish (h : s.Sound) (hstored : s.stored = some m)
    (hrows : ∀ c ∈ s.rows, c.written = true → Named (rowsFor (some m)) c) : (Item.save (some m) none s).Sound := by
  constructor
  · refine load_eq_of_storedProblem fun hsome => ?_
    have hmarkers : hasMarkers (some m) = true := by
      by_contra hno
      refine hsome ?_
      simp only [Item.save, withReplacing, Bool.not_eq_true _ ▸ hno]
      rfl
    have hproblem := h.storedProblem.resolve_right (hstored ▸ Option.some_ne_none m)
    rw [hstored] at hproblem
    exact storedProblem_withReplacing (.inr (problem_of_storedProblem hproblem hmarkers)) (fun r hr => by cases hr)
      hsome
  · intro c hc hw
    rw [Item.save, ourRows_withReplacing]
    exact Named.append_iff.mpr (.inl (hrows c hc hw))
  · exact h.gone

/-- **An update keeps the two together at every step.** -/
theorem Sound.always_itemUpdated (h : s.Sound) (hin : s.inLibrary = true) (measured : Option ℤ) :
    (s.itemUpdated measured faults).Always Sound := by
  unfold itemUpdated
  cases hload : s.load faults.read with
  | none => exact Stages.always_skip h
  | some m =>
    have hstored : s.stored = some m := h.stored_of_load hload
    dsimp only
    by_cases hunread : faults.rows = true
    · rw [if_pos hunread]
      exact Stages.always_raise h
    rw [if_neg hunread]
    by_cases hstale : isStale (some m) measured s.path = true
    · rw [if_pos hstale]
      split_ifs
      · exact Stages.always_skip h
      · refine Stages.always_act h fun _ => h.of_rows hin fun c hc hw => ?_
        rw [← hstored] at hc
        exact absurd (h.named_of_written hc hw) List.not_mem_nil
    · rw [if_neg hstale]
      by_cases hsame : sameRows s.rows (apply s.rows m.replacing (some m) false).1 = true
      · rw [if_pos hsame]
        have hfinished := h.of_finish hstored fun c hc hw => h.named_of_unchanged hstored hsame hc hw
        refine (Stages.always_skip h).andThen fun _ => ?_
        change (if m.replacing.isSome then _ else Stages.skip s).Always Sound
        split_ifs
        · exact Stages.always_act h fun _ => hfinished
        · exact Stages.always_skip h
      · rw [if_neg hsame]
        have hrows := fun c hc hw => h.named_of_healed (b := false) (c := c) hstored hc hw
        have hsaved : (Item.saveChapters (apply s.rows m.replacing (some m) false).1 s).Sound := by
          refine h.of_rows hin fun c hc hw => ?_
          rw [hstored]
          exact Named.append_iff.mpr (.inl (hrows c hc hw))
        refine Stages.always_act_handle h hsaved ?_ (Stages.always_raise h)
        split_ifs
        · exact Stages.always_act hsaved fun _ => hsaved.of_finish hstored hrows
        · exact Stages.always_skip hsaved

/-! ### Runs -/

/-- What a request asks for is a write. -/
theorem write_of_request {request : SetMarkers} (h : problem (some (s.markersOf request)) = none)
    (measured : Option ℤ) : Write s (some (s.markersOf request)) (s.shownFor request measured) := by
  refine ⟨.inr h, ?_⟩
  unfold shownFor
  split_ifs
  · exact List.nil_subset _
  · exact List.Subset.refl _

theorem write_of_delete (s : Item) : Write s none none := ⟨.inl rfl, List.Subset.refl _⟩

theorem sound_of_stopAt {call : Stages Item} {stop : Option ℕ} (hcall : call.Always Sound)
    (h : stopAt stop call = some s') : s'.Sound := by
  cases stop with
  | none => exact Option.some.inj h ▸ hcall.last
  | some k => exact hcall s' (List.mem_of_getElem? h)

/-- **Every safe step keeps the two together.** -/
theorem Sound.step {e : Event} (h : s.Sound) (hsafe : e.Safe s) (hstep : step s e = some s') :
    s'.Sound := by
  obtain ⟨hreads, hthrough⟩ := hsafe
  cases e with
  | post request measured faults stop =>
    change stopAt stop (s.post request measured faults) = some s' at hstep
    have hread : faults.read = false := hreads
    unfold post at hstep
    rw [hread] at hstep
    split_ifs at hstep with hgone hproblem
    · exact sound_of_stopAt (Stages.always_raise h) hstep
    · exact sound_of_stopAt (Stages.always_raise h) hstep
    · have hin : s.inLibrary = true := by simpa using hgone
      rw [Bool.or_eq_true, not_or] at hproblem
      have hwrite := write_of_request (Option.not_isSome_iff_eq_none.mp hproblem.1) measured
      by_cases hmixed : s.Mixed
      · obtain ⟨rfl, hrestore⟩ := hthrough hmixed
        exact Option.some.inj hstep ▸ h.last_write hin hwrite hrestore
      · exact sound_of_stopAt (h.always_write hin hwrite hmixed) hstep
  | delete faults stop =>
    change stopAt stop (s.delete faults) = some s' at hstep
    have hread : faults.read = false := hreads
    unfold delete at hstep
    rw [hread] at hstep
    split_ifs at hstep with hgone
    · exact sound_of_stopAt (Stages.always_raise h) hstep
    · rw [Bool.or_eq_true, not_or] at hgone
      have hin : s.inLibrary = true := by simpa using hgone.1
      by_cases hmixed : s.Mixed
      · obtain ⟨rfl, hrestore⟩ := hthrough hmixed
        exact Option.some.inj hstep ▸ h.last_write hin (write_of_delete s) hrestore
      · exact sound_of_stopAt (h.always_write hin (write_of_delete s) hmixed) hstep
  | itemUpdated measured faults stop =>
    change (if s.inLibrary then stopAt stop (s.itemUpdated measured faults) else none) = some s' at hstep
    split_ifs at hstep with hin
    exact sound_of_stopAt (h.always_itemUpdated hin measured) hstep
  | itemRemoved fails =>
    obtain rfl := Option.some.inj hstep
    refine ⟨load_eq_of_storedProblem fun hsome => ?_, fun c hc => absurd hc List.not_mem_nil, fun _ => rfl⟩
    cases fails with
    | true => exact h.storedProblem.resolve_right hsome
    | false => exact absurd rfl hsome
  | sweep =>
    obtain rfl := Option.some.inj hstep
    split_ifs with hin
    · exact h
    · have hrows : s.rows = [] := h.gone (by simpa using hin)
      refine ⟨load_eq_of_storedProblem fun hsome => absurd rfl hsome, fun c hc => ?_, h.gone⟩
      rw [hrows] at hc
      exact absurd hc List.not_mem_nil
  | edited rows =>
    change (if s.inLibrary = true ∧ ∀ c ∈ rows, c.written = true → c ∈ s.rows then some { s with rows := rows }
      else none) = some s' at hstep
    split_ifs at hstep with hrows
    obtain rfl := Option.some.inj hstep
    exact ⟨h.valid, fun c hc hw => h.named c (hrows.2 c hc hw) hw,
      fun hgone => absurd (hrows.1.symm.trans hgone) (by decide)⟩
  | moved path =>
    obtain rfl := Option.some.inj hstep
    exact ⟨h.valid, h.named, h.gone⟩

/-- An item nothing was stored for, with no row of ours. -/
structure Untouched (s : Item) : Prop where
  /-- There is no store file. -/
  stored : s.stored = none
  /-- No row is the plugin's. -/
  rows : ∀ c ∈ s.rows, c.written = false
  /-- The item is in the library. -/
  inLibrary : s.inLibrary = true

theorem Untouched.sound (h : s.Untouched) : s.Sound where
  valid := load_eq_of_storedProblem fun hsome => absurd h.stored hsome
  named c hc hw := absurd (hw.symm.trans (h.rows c hc)) (by decide)
  gone hgone := absurd (h.inLibrary.symm.trans hgone) (by decide)

/-- A run of safe steps keeps the two together. -/
theorem Sound.keeps {es : List Event} (hs : s.Sound)
    (h : Runs Bridge.step (fun s e => e.Safe s) s es s') : s'.Sound :=
  Runs.keeps h hs fun _ _ _ hsafe hstep hsound => hsound.step hsafe hstep

/-- **Every row this plugin wrote is named by its store**, and what is stored can be used, whatever happens to an item:
calls that fail or stop at any step, rows taken away or added by others, files that move, when every write reads the
store, and of a mixed item comes through. -/
theorem written_named {es : List Event} (hs : s.Untouched) (h : Runs Bridge.step (fun s e => e.Safe s) s es s') :
    (∀ c ∈ s'.rows, c.written = true → Named (ourRows s'.stored) c) ∧ s'.load false = s'.stored :=
  have hsound := hs.sound.keeps h
  ⟨hsound.named, hsound.valid⟩

end Item

/-! ### A mixed item -/

instance (rows : List ChapterInfo) (c : ChapterInfo) : Decidable (Named rows c) := by
  unfold Named
  infer_instance

instance (s : Item) : Decidable s.Mixed := by
  unfold Item.Mixed
  infer_instance

instance : (e : Event) → Decidable e.Reads
  | .post _ _ faults _ => inferInstanceAs (Decidable (faults.read = false))
  | .delete faults _ => inferInstanceAs (Decidable (faults.read = false))
  | .itemUpdated _ _ _ => .isTrue trivial
  | .itemRemoved _ => .isTrue trivial
  | .sweep => .isTrue trivial
  | .edited _ => .isTrue trivial
  | .moved _ => .isTrue trivial

/-- An episode in Emby, as scanned. -/
def episode : Item := ⟨none, [⟨"Chapter 1", 0, .chapter, false⟩], some "/tv/E.mkv", true⟩

/-- A request for one intro. -/
def introRequest (start stop : ℤ) : SetMarkers := ⟨some start, some stop, none, none, false⟩

/-- Nothing fails. -/
def noFaults : Faults := ⟨false, false, false, false, false, false⟩

theorem untouched_episode : episode.Untouched := ⟨rfl, by decide, rfl⟩

/-- A row of ours is there that the store does not name. -/
def Item.forgets (s : Item) : Bool := s.rows.any fun c => c.written && !decide (Named (ourRows s.stored) c)

theorem Item.not_sound_of_forgets (h : s.forgets = true) : ¬ s.Sound := by
  intro hsound
  obtain ⟨c, hc, hbad⟩ := List.any_eq_true.mp h
  rw [Bool.and_eq_true, Bool.not_eq_true', decide_eq_false_iff_not] at hbad
  exact hbad.2 (hsound.named c hc hbad.1)

/-- A write Emby stopped once the store was saved, an update that finished it, and a write after it. -/
theorem written_named_episode : ∃ s', Runs step (fun s e => e.Safe s) episode
    [.post (introRequest 10 40) none noFaults (some 1), .itemUpdated none noFaults none,
      .post (introRequest 20 60) none noFaults none] s' ∧
      (∀ c ∈ s'.rows, c.written = true → Named (ourRows s'.stored) c) ∧ s'.load false = s'.stored := by
  obtain ⟨s', hs'⟩ := Option.isSome_iff_exists.mp (show (exec step episode
    [.post (introRequest 10 40) none noFaults (some 1), .itemUpdated none noFaults none,
      .post (introRequest 20 60) none noFaults none]).isSome = true by decide +kernel)
  obtain ⟨s₁, hs₁, hrest⟩ := Option.bind_eq_some_iff.mp hs'
  have hsafe : ∀ e ∈ [Event.itemUpdated none noFaults none, .post (introRequest 20 60) none noFaults none],
      ∀ s : Item, e.Safe s := by
    intro e he s
    simp only [List.mem_cons, List.not_mem_nil, or_false] at he
    rcases he with rfl | rfl
    · exact ⟨trivial, fun _ => trivial⟩
    · exact ⟨rfl, fun _ => ⟨rfl, fun hc => absurd hc (by decide)⟩⟩
  have hrun := Runs.cons ⟨rfl, fun hmixed => absurd hmixed (by decide)⟩ hs₁ (Runs.of_exec hsafe hrest)
  exact ⟨s', hrun, Item.written_named untouched_episode hrun⟩

/-- **Stopped at a mixed item, a row is lost**: two writes stopped one after the other, the intro of the second starting
with the first's. -/
theorem not_sound_of_mixed :
    ¬ ∀ (s s' : Item) (es : List Event), s.Untouched → Runs step (fun _ e => e.Reads) s es s' → s'.Sound := by
  intro h
  obtain ⟨s', hrun, hbad⟩ := Runs.exists_of_exec step episode [.post (introRequest 10 40) none noFaults none,
      .post (introRequest 10 50) none noFaults (some 1), .post (introRequest 20 60) none noFaults (some 1)]
    (D := fun _ e => decide e.Reads) (P := Item.forgets) (fun _ _ => of_decide_eq_true) (by decide +kernel)
  exact Item.not_sound_of_forgets hbad (h _ _ _ untouched_episode hrun)

/-- **Cleared while the store cannot be read, a row is lost.** -/
theorem not_sound_of_unread :
    ¬ ∀ (s s' : Item) (es : List Event), s.Untouched → Runs step (fun s e => s.Mixed → e.ComesThrough) s es s' → s'.Sound := by
  intro h
  obtain ⟨s', hrun, hbad⟩ := Runs.exists_of_exec step episode [.post (introRequest 10 40) none noFaults none,
      .delete { noFaults with read := true } none]
    (C := fun s e => s.Mixed → e.ComesThrough) (D := fun s _ => !decide s.Mixed) (P := Item.forgets)
    (fun s _ hs hmixed => absurd hmixed (by simpa using hs))
    (by decide +kernel)
  exact Item.not_sound_of_forgets hbad (h _ _ _ untouched_episode hrun)

end MediaPreview.Bridge
