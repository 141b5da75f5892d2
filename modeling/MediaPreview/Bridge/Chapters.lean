import MediaPreview.Lib.Ranking
import Mathlib.Data.String.Basic

/-!
# Markers as chapter rows

Emby keeps markers as chapter rows of an item. What the bridge plugin stored for an item (`StoredMarkers`) stands for
rows (`rowsFor`), and the plugin takes rows equal to those for its own (`apply`, `shownOf`).

What `apply` makes of an item's rows is known type by type (`ofTypes_apply`): the wanted rows of a type, or those of
others where they stay.
-/

namespace MediaPreview.Bridge

open Ranking

/-- `MarkerType` of Emby: a plain chapter, or a marker. -/
inductive MarkerType where
  | chapter
  | introStart
  | introEnd
  | creditsStart
  deriving DecidableEq, Repr

/-- `ChapterInfo`, as far as the plugin reads it. -/
structure ChapterInfo where
  /-- `Name`. -/
  name : String
  /-- `StartPositionTicks`. -/
  startPositionTicks : ℤ
  /-- `MarkerType`. -/
  markerType : MarkerType
  /-- This plugin wrote the row. Nothing reads it. -/
  written : Bool
  deriving DecidableEq, Repr

/-- `StoredMarkers`: what was sent for one item, in ticks. -/
structure StoredMarkers where
  /-- `IntroStartTicks`. -/
  introStartTicks : Option ℤ := none
  /-- `IntroEndTicks`. -/
  introEndTicks : Option ℤ := none
  /-- `CreditsStartTicks`. -/
  creditsStartTicks : Option ℤ := none
  /-- `FileSize`. -/
  fileSize : Option ℤ := none
  /-- `Path`. -/
  path : Option String := none
  /-- `Replacing`: while a write is under way, the markers of ours the rows showed before it. -/
  replacing : Option StoredMarkers := none

/-! ### Stored markers -/

/-- `HasMarkers`. -/
def hasMarkers (m : Option StoredMarkers) : Bool :=
  m.any fun m => m.introStartTicks.isSome || m.creditsStartTicks.isSome

/-- `Problem`: why markers cannot be stored. -/
def problem : Option StoredMarkers → Option String
  | none => some "body is required"
  | some m =>
    if m.introStartTicks.isSome ≠ m.introEndTicks.isSome then some "intro start and end must be sent together"
    else if ∃ start ∈ m.introStartTicks, start < 0 ∨ ∃ stop ∈ m.introEndTicks, stop ≤ start then
      some "invalid intro ticks"
    else if ∃ start ∈ m.creditsStartTicks, start < 0 then some "invalid credits ticks"
    else if ∃ size ∈ m.fileSize, size ≤ 0 then some "invalid fileSize"
    else if !hasMarkers (some m) then some "no markers; use DELETE to clear"
    else none

/-- What is being replaced by a set. -/
def replacingOf (m : Option StoredMarkers) : Option StoredMarkers := m.bind StoredMarkers.replacing

/-- `StoredProblem`: why a store file's content cannot be used. -/
def storedProblem (m : Option StoredMarkers) : Option String :=
  match replacingOf m with
  | none => problem m
  | some r =>
    if r.replacing.isSome ∨ (problem (some r)).isSome then some "invalid replaced markers"
    else if hasMarkers m || m.any fun m => m.introEndTicks.isSome then problem m
    else none

/-- `With`: a copy holding what it replaces; `none` when neither has markers. -/
def withReplacing (markers replacing : Option StoredMarkers) : Option StoredMarkers :=
  if !hasMarkers markers && !hasMarkers replacing then none
  else some {
    introStartTicks := markers.bind StoredMarkers.introStartTicks
    introEndTicks := markers.bind StoredMarkers.introEndTicks
    creditsStartTicks := markers.bind StoredMarkers.creditsStartTicks
    fileSize := markers.bind StoredMarkers.fileSize
    path := markers.bind StoredMarkers.path
    replacing := if hasMarkers replacing then replacing else none }

/-- `IsStale`: the file's size or path is known to be another. -/
def isStale (m : Option StoredMarkers) (currentFileSize : Option ℤ) (currentPath : Option String) : Bool :=
  m.any fun m =>
    (m.fileSize.any fun size => currentFileSize.any fun current => size ≠ current) ||
      (m.path.any fun path => path ≠ "" && currentPath.any fun current => current ≠ "" && path ≠ current)

/-! ### Rows -/

/-- `IntroTypes`. -/
def introTypes : List MarkerType := [.introStart, .introEnd]

/-- `CreditsTypes`. -/
def creditsTypes : List MarkerType := [.creditsStart]

/-- What `SameRow` and `SameRows` compare of a row. -/
def ChapterInfo.key (c : ChapterInfo) : ℤ × MarkerType × String := (c.startPositionTicks, c.markerType, c.name)

/-- `SameRow`. -/
def sameRow (a b : ChapterInfo) : Bool := a.key = b.key

/-- `SameRows`: the same rows in any order. -/
def sameRows (a b : List ChapterInfo) : Bool := (a.map ChapterInfo.key).isPerm (b.map ChapterInfo.key)

/-- The rows of an intro. Every set that has no `problem` has both times or none. -/
def introRows (m : StoredMarkers) : List ChapterInfo :=
  match m.introStartTicks, m.introEndTicks with
  | some start, some stop => [⟨"Intro", start, .introStart, true⟩, ⟨"Intro End", stop, .introEnd, true⟩]
  | _, _ => []

/-- The row of credits. -/
def creditsRows (m : StoredMarkers) : List ChapterInfo :=
  match m.creditsStartTicks with
  | some start => [⟨"Credits", start, .creditsStart, true⟩]
  | none => []

/-- `RowsFor`: the rows written for markers. -/
def rowsFor : Option StoredMarkers → List ChapterInfo
  | none => []
  | some m => introRows m ++ creditsRows m

/-- `ourRows` of `Apply`: the rows written for a set or for the one it was replacing. -/
def ourRows (ours : Option StoredMarkers) : List ChapterInfo := rowsFor ours ++ rowsFor (replacingOf ours)

/-- The rows of some types. -/
def ofTypes (types : List MarkerType) (rows : List ChapterInfo) : List ChapterInfo :=
  rows.filter fun c => c.markerType ∈ types

/-- `AddType`: the rows after it, and how many of them it added. -/
def addType (wantedRows : List ChapterInfo) (types : List MarkerType) (replaceOthers : Bool)
    (list : List ChapterInfo) : List ChapterInfo × ℕ :=
  let rows := ofTypes types wantedRows
  if rows = [] then (list, 0)
  else if ofTypes types list ≠ [] then
    if !replaceOthers then (list, 0)
    else ((list.filter fun c => c.markerType ∉ types) ++ rows, rows.length)
  else (list ++ rows, rows.length)

/-- The rows that are not ours. -/
def others (existing : List ChapterInfo) (ours : Option StoredMarkers) : List ChapterInfo :=
  existing.filter fun c => !(ourRows ours).any fun r => sameRow c r

/-- `Apply`: the rows without ours, with the wanted ones, by start; and how many of them are there. -/
def apply (existing : List ChapterInfo) (ours wanted : Option StoredMarkers) (replaceOthers : Bool) :
    List ChapterInfo × ℕ :=
  let intro := addType (rowsFor wanted) introTypes replaceOthers (others existing ours)
  let credits := addType (rowsFor wanted) creditsTypes replaceOthers intro.1
  (sortBy ChapterInfo.startPositionTicks credits.1, intro.2 + credits.2)

/-- `HasRowOf`: a row of a set, of one of the types, is there. -/
def hasRowOf (rows setRows : List ChapterInfo) (types : List MarkerType) : Bool :=
  setRows.any fun r => r.markerType ∈ types && rows.any fun c => sameRow c r

/-- One round of `ShownOf`: what a set adds to what is shown. -/
def showOf (rows : List ChapterInfo) (shown : StoredMarkers) (set : Option StoredMarkers) : StoredMarkers :=
  let shown :=
    if shown.introStartTicks.isNone && hasRowOf rows (rowsFor set) introTypes then
      { shown with
        introStartTicks := set.bind StoredMarkers.introStartTicks
        introEndTicks := set.bind StoredMarkers.introEndTicks }
    else shown
  if shown.creditsStartTicks.isNone && hasRowOf rows (rowsFor set) creditsTypes then
    { shown with creditsStartTicks := set.bind StoredMarkers.creditsStartTicks }
  else shown

/-- `ShownOf`: what rows still show of a set or of the one it was replacing. -/
def shownOf (existing : List ChapterInfo) (stored : Option StoredMarkers) : Option StoredMarkers :=
  let shown := [stored, replacingOf stored].foldl (showOf existing) {}
  if hasMarkers (some shown) then some shown else none

/-! ### What applying leaves -/

variable {existing list wantedRows : List ChapterInfo} {ours wanted : Option StoredMarkers} {replaceOthers : Bool}
  {types types' : List MarkerType} {c : ChapterInfo}

theorem sameRow_iff {a b : ChapterInfo} : sameRow a b = true ↔ a.key = b.key := decide_eq_true_iff

theorem sameRows_iff {a b : List ChapterInfo} :
    sameRows a b = true ↔ (a.map ChapterInfo.key).Perm (b.map ChapterInfo.key) := List.isPerm_iff

/-- Some row of a list is the same as this one. -/
def Named (rows : List ChapterInfo) (c : ChapterInfo) : Prop := ∃ r ∈ rows, r.key = c.key

theorem mem_others : c ∈ others existing ours ↔ c ∈ existing ∧ ¬ Named (ourRows ours) c := by
  rw [others, List.mem_filter, Bool.not_eq_true', List.any_eq_false]
  simp only [sameRow_iff, Named, not_exists, not_and]
  exact and_congr_right fun _ => forall₂_congr fun _ _ => not_congr eq_comm

theorem mem_ofTypes : c ∈ ofTypes types list ↔ c ∈ list ∧ c.markerType ∈ types := by simp [ofTypes]

/-- The rows of an intro are there for a set with both its times. -/
theorem mem_introRows {m : StoredMarkers} (h : c ∈ introRows m) : c.written = true ∧ c.markerType ∈ introTypes ∧
    ∃ start stop, m.introStartTicks = some start ∧ m.introEndTicks = some stop := by
  unfold introRows at h
  split at h
  · rename_i start stop hstart hstop
    simp only [List.mem_cons, List.not_mem_nil, or_false] at h
    rcases h with rfl | rfl
    · exact ⟨rfl, .head _, start, stop, hstart, hstop⟩
    · exact ⟨rfl, .tail _ (.head _), start, stop, hstart, hstop⟩
  · cases h

theorem mem_creditsRows {m : StoredMarkers} (h : c ∈ creditsRows m) : c.written = true ∧ c.markerType ∈ creditsTypes ∧
    ∃ start, m.creditsStartTicks = some start := by
  unfold creditsRows at h
  split at h
  · rename_i start hstart
    obtain rfl := List.mem_singleton.mp h
    exact ⟨rfl, .head _, start, hstart⟩
  · cases h

/-- No type is of an intro and of credits. -/
theorem not_mem_creditsTypes {t : MarkerType} (h : t ∈ introTypes) : t ∉ creditsTypes := by
  cases t <;> revert h <;> decide

/-- The rows of one set that are of a kind. -/
theorem ofTypes_rowsFor (m : StoredMarkers) : ofTypes introTypes (rowsFor (some m)) = introRows m ∧
    ofTypes creditsTypes (rowsFor (some m)) = creditsRows m := by
  have hintro : ofTypes introTypes (introRows m) = introRows m :=
    List.filter_eq_self.mpr fun c hc => decide_eq_true (mem_introRows hc).2.1
  have hcredits : ofTypes creditsTypes (creditsRows m) = creditsRows m :=
    List.filter_eq_self.mpr fun c hc => decide_eq_true (mem_creditsRows hc).2.1
  have hno : ofTypes introTypes (creditsRows m) = [] :=
    List.filter_eq_nil_iff.mpr fun c hc h => not_mem_creditsTypes (of_decide_eq_true h) (mem_creditsRows hc).2.1
  have hno' : ofTypes creditsTypes (introRows m) = [] :=
    List.filter_eq_nil_iff.mpr fun c hc h => not_mem_creditsTypes (mem_introRows hc).2.1 (of_decide_eq_true h)
  constructor
  · refine (List.filter_append ..).trans ?_
    change ofTypes introTypes _ ++ ofTypes introTypes _ = _
    rw [hintro, hno, List.append_nil]
  · refine (List.filter_append ..).trans ?_
    change ofTypes creditsTypes _ ++ ofTypes creditsTypes _ = _
    rw [hcredits, hno', List.nil_append]

/-- The rows written for markers are the plugin's, and markers. -/
theorem mem_rowsFor (h : c ∈ rowsFor wanted) : c.written = true ∧ ∃ types ∈ [introTypes, creditsTypes],
    c.markerType ∈ types := by
  cases wanted with
  | none => cases h
  | some m =>
    rcases List.mem_append.mp h with h | h
    · exact ⟨(mem_introRows h).1, _, .head _, (mem_introRows h).2.1⟩
    · exact ⟨(mem_creditsRows h).1, _, .tail _ (.head _), (mem_creditsRows h).2.1⟩

/-- The rows of the types a call is for: the wanted ones, or those there where they stay. -/
theorem ofTypes_addType : ofTypes types (addType wantedRows types replaceOthers list).1 =
    if ofTypes types wantedRows ≠ [] ∧ (ofTypes types list = [] ∨ replaceOthers = true) then ofTypes types wantedRows
    else ofTypes types list := by
  have hsame : ofTypes types (ofTypes types wantedRows) = ofTypes types wantedRows := by
    simp only [ofTypes, List.filter_filter, Bool.and_self]
  have hgone : ofTypes types (list.filter fun c => c.markerType ∉ types) = [] := by
    rw [ofTypes, List.filter_filter, List.filter_eq_nil_iff]
    intro c _
    simp
  have happend : ∀ l, ofTypes types (l ++ ofTypes types wantedRows) = ofTypes types l ++ ofTypes types wantedRows := by
    intro l
    conv_rhs => rw [← hsame]
    exact List.filter_append ..
  unfold addType
  dsimp only
  by_cases hw : ofTypes types wantedRows = []
  · simp [hw]
  by_cases hl : ofTypes types list = []
  · rw [if_neg hw, if_neg (not_not.mpr hl), if_pos ⟨hw, .inl hl⟩]
    exact (happend list).trans (by rw [hl, List.nil_append])
  rw [if_neg hw, if_pos hl]
  cases replaceOthers with
  | false => simp [hl]
  | true =>
    rw [if_neg (by decide), if_pos ⟨hw, .inr rfl⟩]
    exact (happend _).trans (by rw [hgone, List.nil_append])

/-- The rows of other types are left alone. -/
theorem ofTypes_addType_of_disjoint (h : ∀ t ∈ types', t ∉ types) :
    ofTypes types' (addType wantedRows types replaceOthers list).1 = ofTypes types' list := by
  have hnone : ofTypes types' (ofTypes types wantedRows) = [] := by
    rw [ofTypes, ofTypes, List.filter_filter, List.filter_eq_nil_iff]
    intro c _
    simp only [Bool.and_eq_true, decide_eq_true_eq, not_and]
    exact fun hc => h _ hc
  have hall : ofTypes types' (list.filter fun c => c.markerType ∉ types) = ofTypes types' list := by
    simp only [ofTypes, List.filter_filter]
    refine List.filter_congr fun c _ => ?_
    by_cases hc : c.markerType ∈ types'
    · simp [hc, h _ hc]
    · simp [hc]
  have happend : ∀ l, ofTypes types' (l ++ ofTypes types wantedRows) = ofTypes types' l := by
    intro l
    refine (List.filter_append ..).trans ?_
    change ofTypes types' l ++ ofTypes types' (ofTypes types wantedRows) = _
    rw [hnone, List.append_nil]
  unfold addType
  dsimp only
  split_ifs
  · rfl
  · rfl
  · exact (happend _).trans hall
  · exact happend list

/-- **The rows of a kind after `apply`**: the wanted ones, or those of others where they stay. -/
theorem ofTypes_apply (htypes : types ∈ [introTypes, creditsTypes, [.chapter]]) :
    (ofTypes types (apply existing ours wanted replaceOthers).1).Perm
      (if ofTypes types (rowsFor wanted) ≠ [] ∧
          (ofTypes types (others existing ours) = [] ∨ replaceOthers = true) then ofTypes types (rowsFor wanted)
        else ofTypes types (others existing ours)) := by
  refine ((sortBy_perm _ _).filter _).trans (List.Perm.of_eq ?_)
  change ofTypes types (addType (rowsFor wanted) creditsTypes replaceOthers _).1 = _
  have hchapters : ofTypes [.chapter] (rowsFor wanted) = [] := by
    rw [ofTypes, List.filter_eq_nil_iff]
    intro c hc
    obtain ⟨-, types, htypes, hmarker⟩ := mem_rowsFor hc
    rw [decide_eq_true_eq, List.mem_singleton]
    intro htype
    rw [htype] at hmarker
    revert hmarker
    revert types
    decide
  simp only [List.mem_cons, List.not_mem_nil, or_false] at htypes
  rcases htypes with rfl | rfl | rfl
  · rw [ofTypes_addType_of_disjoint (by decide), ofTypes_addType]
  · rw [ofTypes_addType, ofTypes_addType_of_disjoint (by decide)]
  · rw [ofTypes_addType_of_disjoint (by decide), ofTypes_addType_of_disjoint (by decide),
      if_neg fun h => h.1 hchapters]

/-- A row after `apply` was there and is not ours, or is wanted. -/
theorem mem_apply (h : c ∈ (apply existing ours wanted replaceOthers).1) :
    c ∈ others existing ours ∨ c ∈ rowsFor wanted := by
  obtain ⟨types, htypes, hc⟩ : ∃ types ∈ [introTypes, creditsTypes, [.chapter]], c.markerType ∈ types := by
    cases c.markerType <;> decide
  have hmem := (ofTypes_apply htypes).mem_iff.mp (mem_ofTypes.mpr ⟨h, hc⟩)
  split_ifs at hmem
  · exact .inr (mem_ofTypes.mp hmem).1
  · exact .inl (mem_ofTypes.mp hmem).1

end MediaPreview.Bridge
