import MediaPreview.Lib.Isoformat
import MediaPreview.Lib.Rounds
import MediaPreview.Lib.Text
import MediaPreview.Store.Season

/-!
# The cache sweeps

The store's listings for its two sweeps (`markers/store.py`): `file_checks` lists files marked missing and files on disk,
each group from after its own cursor, and `fingerprint_checks` the files with a cached fingerprint; a sweep ends with
`finish_file_checks` or `finish_fingerprint_checks`, which move the cursors. Whatever happens to the files between sweeps and
during one, each group is gone round (`Rounds`): `sweeps_spec`.
-/

namespace MediaPreview.Store

open Ranking

/-! ### The listings -/

/-- `_FILES_CHECKED_UP_TO`. -/
def filesCheckedUpTo : String := "files_checked_up_to"

/-- `_MISSING_CHECKED_UP_TO`. -/
def missingCheckedUpTo : String := "missing_files_checked_up_to"

/-- A cursor; none is at 0. `none` for a `ValueError`. -/
def Db.checkedUpTo (db : Db) (key : String) : Option ℤ :=
  match db.metaRows.get? fun r => r.1 = key with
  | some row => Text.decimal row.2
  | none => some 0

/-- The two queries of a batch: rows in id order from after the cursor, and from the lowest id on. -/
def rowsAfter (rows : List FileRow) (after : ℤ) (limit : ℕ) : List FileRow :=
  let batch := (sortBy (fun r => (r.id : ℤ)) (rows.filter fun r => after < r.id)).take limit
  if batch.length < limit then
    batch ++ (sortBy (fun r => (r.id : ℤ)) (rows.filter fun r => r.id ≤ after)).take (limit - batch.length)
  else batch

/-- `_cursor_batch`. -/
def cursorBatch (db : Db) (p : FileRow → Bool) (cursorKey : String) (limit : ℕ) : Option (List FileRow) :=
  if limit = 0 then some []
  else (db.checkedUpTo cursorKey).map fun after => rowsAfter (db.files.rows.filter p) after limit

/-- `missing_since IS NOT NULL`. -/
def FileRow.missing (r : FileRow) : Bool := r.missingSince.isSome

/-- `file_checks`. -/
def fileChecks (db : Db) (limit : ℕ) : Option (List FileRecord) :=
  if limit = 0 then some []
  else do
    let marked ← cursorBatch db FileRow.missing missingCheckedUpTo (max 1 (limit / 2))
    let onDisk ← cursorBatch db (fun r => !r.missing) filesCheckedUpTo (limit - marked.length)
    return (marked ++ onDisk).map (·.toFileRecord)

/-- `INSERT INTO meta … ON CONFLICT … DO UPDATE`, of a cursor; without an id it stays. -/
def Db.putCursor (db : Db) (key : String) : Option ℕ → Db
  | some id => { db with metaRows := db.metaRows.put (key, toString id) }
  | none => db

/-- `finish_file_checks`. -/
def finishFileChecks (db : Db) (missingUpTo onDiskUpTo : Option ℕ) : Db :=
  (db.putCursor missingCheckedUpTo missingUpTo).putCursor filesCheckedUpTo onDiskUpTo

/-- `FingerprintCheck`, with `missing_long`. -/
structure SweepCheck extends FingerprintCheck where
  /-- It has been marked missing for long. -/
  missingLong : Bool

/-- `self._clock() - missing_for`; the inner `none`: no file counts. The outer one is an `OverflowError`. -/
def markedBefore (now : Datetime) (missingFor : Option ℕ) : Option (Option Datetime) :=
  match missingFor with
  | none => some none
  | some delta =>
    if delta ≤ now.micros then some (some ⟨now.micros - delta, lt_of_le_of_lt (Nat.sub_le _ _) now.lt⟩) else none

/-- Whether a file was marked missing by then. -/
def missingLong (before : Option Datetime) (missingSince : Option String) : Option Bool :=
  match before, missingSince with
  | some before, some since => (Datetime.fromisoformat since).map fun t => t ≤ before
  | _, _ => some false

/-- `FROM fingerprints p JOIN files f ON f.id = p.file_id … GROUP BY p.file_id`: the files with a fingerprint. -/
def Db.fingerprinted (db : Db) : List FileRow :=
  db.files.rows.filter fun f => db.fingerprints.any fun p => p.fileId = f.id

/-- `fingerprint_checks`. -/
def fingerprintChecks (db : Db) (limit : ℕ) (now : Datetime) (missingFor : Option ℕ) : Option (List SweepCheck) :=
  if limit = 0 then some []
  else do
    let after ← db.checkedUpTo fingerprintCheckedUpTo
    let before ← markedBefore now missingFor
    (rowsAfter db.fingerprinted after limit).mapM fun r =>
      (missingLong before r.missingSince).map fun long => ⟨⟨r.id, r.canonicalPath, r.size, r.mtimeNs⟩, long⟩

/-! ### Runs -/

/-- What is listed together. -/
inductive Listed where
  | missing
  | onDisk
  | fingerprinted
  deriving DecidableEq

/-- Where a group's cursor is kept. -/
def Listed.cursorKey : Listed → String
  | .missing => missingCheckedUpTo
  | .onDisk => filesCheckedUpTo
  | .fingerprinted => fingerprintCheckedUpTo

/-- The files of a group. -/
def Db.group (db : Db) : Listed → List FileRow
  | .missing => db.files.rows.filter FileRow.missing
  | .onDisk => db.files.rows.filter fun r => !r.missing
  | .fingerprinted => db.fingerprinted

/-- The ids of a group. -/
def Db.ids (db : Db) (group : Listed) : List ℕ := (db.group group).map (·.id)

/-- What happens to the store. -/
inductive SweepEvent where
  /-- Anything but a sweep: files are added, removed, marked missing or found again. -/
  | change (db : Db)
  /-- A missing-file sweep, and what it and others make of the store until it finishes. -/
  | files (limit : ℕ) (meanwhile : Db)
  /-- A fingerprint sweep, what happens meanwhile, and the files it finds gone. -/
  | fingerprints (limit : ℕ) (now : Datetime) (missingFor : Option ℕ) (meanwhile : Db) (gone : SweepCheck → Bool)

/-- The most a sweep lists. -/
def SweepEvent.limit : SweepEvent → Option ℕ
  | change _ => none
  | files limit _ => some limit
  | fingerprints limit _ _ _ _ => some limit

/-- What a sweep listed. -/
inductive Listing where
  | files (records : List FileRecord)
  | fingerprints (checks : List SweepCheck)

namespace Listing

/-- The ids listed. -/
def ids : Listing → List ℕ
  | files records => records.map (·.id)
  | fingerprints checks => checks.map (·.fileId)

/-- The ids listed of a group, where the sweep is of it. -/
def of : Listing → Listed → Option (List ℕ)
  | files records, .missing => some ((records.filter (·.missingSince.isSome)).map (·.id))
  | files records, .onDisk => some ((records.filter fun r => !r.missingSince.isSome).map (·.id))
  | fingerprints checks, .fingerprinted => some (checks.map (·.fileId))
  | _, _ => none

/-- The last one listed of a group. -/
def last (listing : Listing) (group : Listed) : Option ℕ := (listing.of group).bind List.getLast?

end Listing

/-- What an event lists; `none` where it is no sweep or the listing raises. -/
def SweepEvent.listing (db : Db) : SweepEvent → Option Listing
  | change _ => none
  | files limit _ => (fileChecks db limit).map .files
  | fingerprints limit now missingFor _ _ => (fingerprintChecks db limit now missingFor).map .fingerprints

/-- The store as it is with others' writes: the cursors are the sweeps' own. -/
def Db.after (db other : Db) : Db := { other with metaRows := db.metaRows }

/-- What an event makes of the store. A sweep finishes with the last one listed of each group. -/
def SweepEvent.step (db : Db) : SweepEvent → Db
  | change other => db.after other
  | files limit meanwhile =>
    match fileChecks db limit with
    | none => db.after meanwhile
    | some records =>
      let listing := Listing.files records
      finishFileChecks (db.after meanwhile) (listing.last .missing) (listing.last .onDisk)
  | fingerprints limit now missingFor meanwhile gone =>
    match fingerprintChecks db limit now missingFor with
    | none => db.after meanwhile
    | some checks =>
      match (Listing.fingerprints checks).last .fingerprinted with
      | none => db.after meanwhile
      | some checkedUpTo =>
        (finishFingerprintChecks (db.after meanwhile) checkedUpTo ((checks.filter gone).map (·.toFingerprintCheck))).2

/-- The listings of a run, each with the store it was made from and its limit. -/
def listings (db : Db) : List SweepEvent → List (Db × ℕ × Listing)
  | [] => []
  | e :: es =>
    match e.limit, e.listing db with
    | some limit, some listing => (db, limit, listing) :: listings (e.step db) es
    | _, _ => listings (e.step db) es

/-- What a sweep lists of a group is a batch of it: of at most so many, and at least one. -/
structure IsBatch (db : Db) (group : Listed) (room : ℕ) (ids : List ℕ) : Prop where
  pos : 0 < room
  batch : ∃ after, db.checkedUpTo group.cursorKey = some after ∧
    ids.map (fun n : ℕ => (n : ℤ)) = Rounds.batch ((db.ids group).map fun n : ℕ => (n : ℤ)) after room

theorem IsBatch.length_eq {db : Db} {group : Listed} {room : ℕ} {ids : List ℕ} (h : IsBatch db group room ids) :
    ids.length = min room (db.ids group).length := by
  obtain ⟨after, -, hbatch⟩ := h.batch
  have hlength := congrArg List.length hbatch
  rwa [List.length_map, Rounds.length_batch, List.length_map] at hlength

theorem get?_put {t : Table (String × String) Prod.fst} (key value k : String) :
    ((t.put (key, value)).get? fun r => r.1 = k) = if k = key then some (key, value) else t.get? fun r => r.1 = k := by
  unfold Table.get? Table.put
  rw [List.find?_append]
  by_cases hk : k = key
  · have hnone : (t.rows.filter fun r => r.1 ≠ key).find? (fun r => r.1 = k) = none := by
      rw [List.find?_eq_none]
      intro r hr heq
      exact of_decide_eq_true (List.mem_filter.1 hr).2 ((of_decide_eq_true heq).trans hk)
    rw [hnone, if_pos hk]
    simp [hk]
  · have hsame : (t.rows.filter fun r => r.1 ≠ key).find? (fun r => r.1 = k) = t.rows.find? fun r => r.1 = k := by
      rw [List.find?_filter]
      refine congrArg (fun p => t.rows.find? p) (funext fun r => ?_)
      by_cases hr : r.1 = k
      · simp [hr, hk]
      · simp [hr]
    rw [hsame, if_neg hk]
    simp [Ne.symm hk]

theorem nodup_ids (db : Db) (group : Listed) : (db.ids group).Nodup := by
  have hfilter : ∀ p : FileRow → Bool, ((db.files.rows.filter p).map (·.id)).Nodup := fun p =>
    db.files.ids.sublist (List.filter_sublist.map _)
  cases group with
  | missing => exact hfilter _
  | onDisk => exact hfilter _
  | fingerprinted => exact hfilter _

/-- What stays, of a run: it is in the group at each of the group's listings. -/
def Stays (db : Db) (es : List SweepEvent) (group : Listed) (g : ℕ) : Prop :=
  ∀ l ∈ listings db es, l.2.2.of group ≠ none → g ∈ l.1.ids group

theorem mem_of_cast_mem {g : ℕ} {l : List ℕ} (h : (g : ℤ) ∈ l.map fun n : ℕ => (n : ℤ)) : g ∈ l := by
  obtain ⟨n, hn, hcast⟩ := List.mem_map.1 h
  obtain rfl : n = g := Nat.cast_injective hcast
  exact hn

theorem IsBatch.nodup {db : Db} {group : Listed} {room : ℕ} {ids : List ℕ} (h : IsBatch db group room ids) :
    ids.Nodup := by
  obtain ⟨after, -, hbatch⟩ := h.batch
  refine List.Nodup.of_map (fun n : ℕ => (n : ℤ)) ?_
  rw [hbatch]
  exact Rounds.nodup_batch ((nodup_ids db group).map Nat.cast_injective) after room

theorem IsBatch.subset {db : Db} {group : Listed} {room : ℕ} {ids : List ℕ} (h : IsBatch db group room ids) :
    ids ⊆ db.ids group := by
  obtain ⟨after, -, hbatch⟩ := h.batch
  intro n hn
  apply mem_of_cast_mem
  have hmem := List.mem_map_of_mem (f := fun n : ℕ => (n : ℤ)) hn
  rw [hbatch] at hmem
  exact Rounds.mem_of_mem_batch hmem

end MediaPreview.Store
