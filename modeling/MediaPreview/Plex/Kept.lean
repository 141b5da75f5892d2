import MediaPreview.Plex.Stored
import MediaPreview.Markers.Sanity

/-!
# Which rows are Plex's own

What `markers/publishers/plex_db.py` infers about an item's rows: the types whose rows were made for an earlier file
at the path (`typesNotMadeForFile`), the types "Keep Plex's" leaves as they are (`keptTypes`), and the types whose
`final` flag is put right (`refreshFinalTypes`).

None of it looks at a row's number or id, or at more of a part than its file, times and the type's own value
(`typesNotMadeForFile_congr`).
-/

namespace MediaPreview.Plex

open Ranking Markers

/-! ### Rows made for an earlier file -/

/-- `STALE_MARGIN_S`. -/
def staleMarginS : ℤ := 60

/-- `_epoch`: a timestamp column that is a number; `none` when not after 1970. -/
def epoch (value : Option ℤ) : Option ℤ := value.filter fun seconds => 0 < seconds

/-- The first of the times, when there are some and all are known. -/
def earliest (times : List (Option ℤ)) : Option ℤ :=
  if none ∈ times then none else (times.filterMap id).min?

/-- The last of the times, when there are some and all are known. -/
def latest (times : List (Option ℤ)) : Option ℤ :=
  if none ∈ times then none else (times.filterMap id).max?

/-- `_a_part_records`: a live part's value holds the rows' times, as stored; `none` when a part's cannot be read. -/
def aPartRecords (t : PlexType) (rows : List TaggingRow) : List Part → Option Bool
  | [] => some false
  | p :: parts =>
    match p.pv t with
    | none => none
    | some none => aPartRecords t rows parts
    | some (some v) =>
      match v.entries with
      | none => none
      | some entries =>
        if ∀ r ∈ rows, ∃ e ∈ entries, (e.startTimeOffset, e.endTimeOffset) = (r.timeOffset, r.endTimeOffset) then
          some true
        else aPartRecords t rows parts

/-- The rows of a type were made for an earlier file: tagged before the file changed, and no part records them. -/
def madeForEarlierFile (t : PlexType) (rows : List TaggingRow) (parts : List Part) : Bool :=
  match earliest (parts.map fun p => epoch p.updatedAt), latest (rows.map fun r => epoch r.createdAt) with
  | some fileChanged, some tagged =>
    tagged + staleMarginS < fileChanged && aPartRecords t rows parts = some false
  | _, _ => false

/-- `_types_not_made_for_file`: the types whose rows were made for an earlier file at this path. -/
def typesNotMadeForFile (rows : List TaggingRow) (parts : List Part) : Finset PlexType :=
  Finset.univ.filter fun t => madeForEarlierFile t (rowsOf rows t) parts

@[simp] theorem mem_typesNotMadeForFile {rows : List TaggingRow} {parts : List Part} {t : PlexType} :
    t ∈ typesNotMadeForFile rows parts ↔ madeForEarlierFile t (rowsOf rows t) parts = true := by
  simp [typesNotMadeForFile]

/-! ### Rows that stay -/

/-- `_plex_rows_cant_be_right`: there are rows of a type besides ours, and every one of them cannot be right for the
file. -/
def plexRowsCantBeRight (t : PlexType) (current : List (ℤ × ℤ)) (provablyOurs : List (List (ℤ × ℤ)))
    (limits : FileLimits) : Bool :=
  let plexRows := current.filter fun times => times ∉ provablyOurs.flatten
  plexRows ≠ [] && plexRows.all fun times =>
    (unusableServerMarker { type := t.markerType, startMs := times.1, endMs := some times.2, source := .serverMarkers }
      limits).isSome

/-- `_kept_types`: the types whose rows on the item are Plex's own and must stay. -/
def keptTypes (rows : List TaggingRow) (wanted prior ownPrior : List PlexMarker) (keptBefore : Finset PlexType)
    (keepPlex : Bool) (limits : Option FileLimits) (stale : Finset PlexType) : Finset PlexType :=
  if !keepPlex then ∅
  else Finset.univ.filter fun t =>
    let current := rowsServed rows t
    let wouldShow := servedOf wanted t
    let provablyOurs := [wouldShow, servedOf prior t, servedOf ownPrior t]
    current ≠ [] ∧ ¬ (∃ l ∈ limits, plexRowsCantBeRight t current provablyOurs l = true) ∧
      ¬ (t ∈ stale ∧ wouldShow ≠ []) ∧ (t ∈ keptBefore ∨ wouldShow ≠ [] ∧ current ∉ provablyOurs)

/-- `_refresh_final_types`: the types rewritten when they serve the wanted times with a stale `final` flag. -/
def refreshFinalTypes (parts : List Part) (wanted : List PlexMarker) (durationMs : Option ℤ) (keepPlex : Bool) :
    Finset PlexType :=
  if (∀ d ∈ durationMs, d ≤ 0) ∨ (versionFiles parts).length ≠ 1 then ∅
  else typesOf (wanted.filter fun m => m.locked || !keepPlex)

/-! ### What they depend on -/

variable {rows rows' : List TaggingRow} {parts parts' : List Part} {t : PlexType}

theorem latest_congr {l l' : List (Option ℤ)} (h : SameElems l l') : latest l = latest l' := by
  rw [latest, latest, (h.filterMap id).max?_eq]
  simp only [h none]

theorem aPartRecords_congr (hrows : SameElems (rows.map TaggingRow.content) (rows'.map TaggingRow.content))
    (hparts : (parts.map fun p => p.pv t) = parts'.map fun p => p.pv t) :
    aPartRecords t rows parts = aPartRecords t rows' parts' := by
  have hall : ∀ P : MarkerTag × Option ℤ → Prop, (∀ r ∈ rows, P r.content) ↔ ∀ r ∈ rows', P r.content := by
    intro P
    have h : (∀ c ∈ rows.map TaggingRow.content, P c) ↔ ∀ c ∈ rows'.map TaggingRow.content, P c :=
      forall_congr' fun c => imp_congr_left (hrows c)
    rwa [List.forall_mem_map, List.forall_mem_map] at h
  induction parts generalizing parts' with
  | nil =>
    rw [List.map_nil, eq_comm, List.map_eq_nil_iff] at hparts
    rw [hparts]
    rfl
  | cons p parts ih =>
    cases parts' with
    | nil => simp at hparts
    | cons p' parts' =>
      rw [List.map_cons, List.map_cons, List.cons.injEq] at hparts
      obtain ⟨hp, hparts⟩ := hparts
      have ih := ih hparts
      unfold aPartRecords
      rw [← hp, ← ih]
      cases p.pv t with
      | none => rfl
      | some value =>
        cases value with
        | none => rfl
        | some v =>
          dsimp only
          cases v.entries with
          | none => rfl
          | some entries =>
            exact if_congr (hall fun c => ∃ e ∈ entries,
              (e.startTimeOffset, e.endTimeOffset) = (c.1.timeOffset, c.1.endTimeOffset)) rfl rfl

/-- **Whether a type's rows are stale** is known from what they say, when the parts changed and what the type's
values hold. -/
theorem typesNotMadeForFile_congr (hrows : SameRows rows rows' t)
    (hchanged : parts.map Part.updatedAt = parts'.map Part.updatedAt)
    (hparts : (parts.map fun p => p.pv t) = parts'.map fun p => p.pv t) :
    t ∈ typesNotMadeForFile rows parts ↔ t ∈ typesNotMadeForFile rows' parts' := by
  have hfile : (parts.map fun p => epoch p.updatedAt) = parts'.map fun p => epoch p.updatedAt := by
    have := congrArg (List.map epoch) hchanged
    rwa [List.map_map, List.map_map] at this
  have htagged : SameElems ((rowsOf rows t).map fun r => epoch r.createdAt) ((rowsOf rows' t).map fun r => epoch r.createdAt) :=
    .of_perm (hrows.map_perm fun c => epoch c.2)
  rw [mem_typesNotMadeForFile, mem_typesNotMadeForFile, madeForEarlierFile, madeForEarlierFile, hfile,
    latest_congr htagged, aPartRecords_congr (.of_perm hrows) hparts]

variable {wanted prior ownPrior : List PlexMarker} {keptBefore stale : Finset PlexType} {limits : Option FileLimits}

theorem mem_keptTypes : t ∈ keptTypes rows wanted prior ownPrior keptBefore true limits stale ↔
    rowsServed rows t ≠ [] ∧
      (∀ l ∈ limits, plexRowsCantBeRight t (rowsServed rows t)
        [servedOf wanted t, servedOf prior t, servedOf ownPrior t] l = false) ∧
      ¬ (t ∈ stale ∧ t ∈ typesOf wanted) ∧
      (t ∈ keptBefore ∨ t ∈ typesOf wanted ∧
        rowsServed rows t ∉ [servedOf wanted t, servedOf prior t, servedOf ownPrior t]) := by
  have hshow : servedOf wanted t ≠ [] ↔ t ∈ typesOf wanted := by rw [Ne, servedOf_eq_nil_iff, not_not]
  simp only [keptTypes, Bool.not_true, Bool.false_eq_true, if_false, Finset.mem_filter, Finset.mem_univ, true_and,
    hshow, not_exists, not_and, Bool.not_eq_true]

/-- Nothing is kept unless the setting says so. -/
theorem keepPlex_of_mem_keptTypes {keepPlex : Bool}
    (h : t ∈ keptTypes rows wanted prior ownPrior keptBefore keepPlex limits stale) : keepPlex = true := by
  cases keepPlex with
  | true => rfl
  | false => exact absurd h (Finset.notMem_empty t)

end MediaPreview.Plex
