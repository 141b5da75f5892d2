import MediaPreview.Store.Evidence
import MediaPreview.Store.Season

/-!
# Storing files

`upsert_file`, `record_member`, `move_file` and the missing mark (`markers/store.py`). A file
whose size or mtime changed is another file at the same path: `upsert_file` clears everything
worked out from the old one, keeps aside what it had decided, and leaves the user's locked
markers. Only `upsert_file` changes an identity.
-/

namespace MediaPreview.Store

open Binary64 Markers Ranking

/-- `REPLACED_LENGTH_TOLERANCE_MS`. -/
def replacedLengthToleranceMs : ℤ := 1000

/-! ### What a replaced identity decided -/

/-- `_JUDGED`. -/
def StoredStatus.judged : StoredStatus → Bool
  | .of .decided | .of .noEvidence | .needsReview => true
  | .of .disabled => false

/-- `_judged`: a file's decisions per type, with the decided marker's times and sources. -/
def judged (db : Db) (fileId : ℕ) : List (MarkerType × Option (ℤ × ℤ) × List String) :=
  ((db.decisions.select fun r => r.fileId = fileId).filter fun r => r.status.judged).map fun r =>
    match (if r.status = .of .decided then db.markers.get? fun m => m.fileId = fileId ∧ m.type = r.type else none) with
    | none => (r.type, none, [])
    | some m => (r.type, some (m.startMs, m.endMs), m.decidedBy)

/-- `_answer_versions`: a file's stored answer version per source. -/
def answerVersion (db : Db) (fileId : ℕ) (source : String) : Option ℤ :=
  (db.evidenceVersions.get? fun r => r.fileId = fileId ∧ r.origin = "" ∧ r.source.value = source).map (·.version)

/-- What is kept aside of the identities a path had. -/
structure Replaced where
  /-- `replaced_decisions`. -/
  decisions : Table ReplacedDecision fun r => (r.fileId, r.type)
  /-- `replaced_versions`. -/
  versions : Table ReplacedVersions fun r => (r.fileId, r.type)

/-- One type kept aside: no marker leaves one kept aside from a file of another length. -/
def keepReplaced (db : Db) (row : FileRow) (durationMs : ℤ) (kept : Replaced)
    (j : MarkerType × Option (ℤ × ℤ) × List String) : Replaced :=
  let held := kept.decisions.get? fun r => r.fileId = row.id ∧ r.type = j.1 ∧ r.startMs.isSome
  if j.2.1.isNone ∧ held.any fun r => replacedLengthToleranceMs < |r.durationMs - durationMs| then kept
  else
    { decisions :=
        kept.decisions.put ⟨row.id, j.1, j.2.1.map Prod.fst, j.2.1.map Prod.snd, j.2.2, durationMs, row.updatedAt⟩
      versions :=
        kept.versions.put ⟨row.id, j.1, row.updatedAt,
          (sortedSet id j.2.2).filterMap fun source => (answerVersion db row.id source).map (source, ·)⟩ }

/-- `_keep_replaced_decisions`. -/
def keepReplacedDecisions (db : Db) (row : FileRow) : Replaced :=
  match row.durationMs with
  | none => ⟨db.replacedDecisions, db.replacedVersions⟩
  | some durationMs =>
    if durationMs = 0 then ⟨db.replacedDecisions, db.replacedVersions⟩
    else (judged db row.id).foldl (keepReplaced db row durationMs) ⟨db.replacedDecisions, db.replacedVersions⟩

/-! ### Upserting -/

/-- What a run learned of a file: `upsert_file`'s arguments. -/
structure FileFacts where
  /-- Its path, size and mtime. -/
  identity : FileIdentity
  /-- Its length, when it is known. -/
  durationMs : Option ℤ
  /-- Its season folder. -/
  seasonKey : Option String
  /-- Whether it is a movie. -/
  isMovie : Bool

/-- Whether a row is stored exactly like this. -/
def FileFacts.storedAs (f : FileFacts) (r : FileRow) : Bool :=
  r.canonicalPath = f.identity.canonicalPath ∧ r.identity = f.identity.stamp ∧
    (f.durationMs = none ∨ r.durationMs = f.durationMs) ∧ r.seasonKey = f.seasonKey ∧ r.isMovie = f.isMovie ∧
    r.missingSince = none

/-- The row of a file the store never saw. -/
def FileFacts.newRow (f : FileFacts) (now : String) : FileRow :=
  { id := 0, canonicalPath := f.identity.canonicalPath, size := f.identity.size, mtimeNs := f.identity.mtimeNs,
    durationMs := f.durationMs, seasonKey := f.seasonKey, isMovie := f.isMovie, missingSince := none, updatedAt := now }

/-- The row of a known file, with a length. -/
def FileFacts.refresh (f : FileFacts) (now : String) (durationMs : Option ℤ → Option ℤ) (r : FileRow) : FileRow :=
  { r with size := f.identity.size, mtimeNs := f.identity.mtimeNs, durationMs := durationMs r.durationMs,
           seasonKey := f.seasonKey, isMovie := f.isMovie, missingSince := none, updatedAt := now }

/-- The first transaction of `upsert_file`: a file stored exactly like this only has its `updated_at`
moved. -/
def touchFile (db : Db) (f : FileFacts) (now : String) : Option (FileRecord × Db) :=
  (db.files.rows.find? f.storedAs).map fun r =>
    let files := db.files.modify r.id (fun r => { r with updatedAt := now }) (fun _ => rfl) fun _ => rfl
    (r.toFileRecord, { db with files := files })

/-- A database without what was worked out from a file: an identity changed. -/
def forgetFile (db : Db) (row : FileRow) (files : FileTable) : Db :=
  let kept := keepReplacedDecisions db row
  { db with
    files := files
    replacedDecisions := kept.decisions
    replacedVersions := kept.versions
    evidence := db.evidence.delete fun r => r.fileId = row.id
    evidenceVersions := db.evidenceVersions.delete fun r => r.fileId = row.id
    fingerprints := db.fingerprints.delete fun r => r.fileId = row.id
    decisions := db.decisions.delete fun r => r.fileId = row.id
    serverKinds := db.serverKinds.delete fun r => r.fileId = row.id
    publishBasis := db.publishBasis.delete fun r => r.fileId = row.id
    detectorRuns := db.detectorRuns.delete fun r => r.fileId = row.id
    detectorFailures := db.detectorFailures.delete fun r => r.fileId = row.id
    introChapterLimits := db.introChapterLimits.delete fun r => r.fileId = row.id
    serverMarkerRereads := db.serverMarkerRereads.delete fun r => r.fileId = row.id
    frameRates := db.frameRates.delete fun r => r.fileId = row.id
    versionReruns := db.versionReruns.delete fun r => r.fileId = row.id
    seasonPairRuns := db.pairsWithout row.id
    seasonEndPictures := db.picturesWithout row.id
    markers := db.markers.delete fun r => r.fileId = row.id ∧ !r.locked }

/-- The second transaction of `upsert_file`. -/
def storeFile (db : Db) (f : FileFacts) (now : String) : Option FileRecord × Db :=
  match db.files.byPath f.identity.canonicalPath with
  | none =>
    let files := db.files.insert (f.newRow now)
    ((files.byId db.files.nextId).map (·.toFileRecord), { db with files := files })
  | some row =>
    if row.identity ≠ f.identity.stamp then
      let files := db.files.modify row.id (f.refresh now fun _ => f.durationMs) (fun _ => rfl) fun _ => rfl
      ((files.byId row.id).map (·.toFileRecord), forgetFile db row files)
    else
      let files := db.files.modify row.id (f.refresh now fun d => f.durationMs <|> d) (fun _ => rfl) fun _ => rfl
      ((files.byId row.id).map (·.toFileRecord), { db with files := files })

/-- `upsert_file`. -/
def upsertFile (db : Db) (f : FileFacts) (now : String) : Option FileRecord × Db :=
  match touchFile db f now with
  | some (record, touched) => (some record, touched)
  | none => storeFile db f now

/-! ### Season members -/

/-- A file another file's season step probed: `record_member`'s arguments. -/
structure MemberFacts where
  /-- Its path, size and mtime when it was probed. -/
  identity : FileIdentity
  /-- Its length. -/
  durationMs : ℤ
  /-- The season folder. -/
  seasonKey : String
  /-- Its chapter candidates. -/
  chapters : List Candidate
  /-- The chapter rules' version. -/
  chapterVersion : ℤ
  /-- Its frame rate; `none`: the probe found none. -/
  frameRate : Option ℚ

/-- A member's chapters and frame rate, stored under its row. -/
def writeMember (db : Db) (fileId : ℕ) (m : MemberFacts) (now : String) : Db :=
  let t := writeEvidence db.answers fileId .chapters m.chapters "" "" (some m.chapterVersion) [] now
  writeFrameRate { db with evidence := t.evidence, evidenceVersions := t.versions }
    ⟨fileId, m.identity.size, m.identity.mtimeNs, m.frameRate⟩

/-- `record_member`. -/
def recordMember (db : Db) (m : MemberFacts) (now : String) : Option FileRecord × Db :=
  match db.files.byPath m.identity.canonicalPath with
  | none =>
    let facts : FileFacts := ⟨m.identity, some m.durationMs, some m.seasonKey, false⟩
    let files := db.files.insert (facts.newRow now)
    ((files.byId db.files.nextId).map (·.toFileRecord), writeMember { db with files := files } db.files.nextId m now)
  | some row =>
    if row.identity ≠ m.identity.stamp then (none, db)
    else
      let files := db.files.modify row.id
        (fun r => { r with durationMs := some m.durationMs, seasonKey := r.seasonKey <|> some m.seasonKey,
                           missingSince := none, updatedAt := now }) (fun _ => rfl) fun _ => rfl
      ((files.byId row.id).map (·.toFileRecord), writeMember { db with files := files } row.id m now)

/-! ### Moves and the missing mark -/

/-- `os.path.dirname`. -/
def dirname (path : String) : String :=
  let head := (path.toList.reverse.dropWhile (· ≠ '/')).reverse
  String.ofList (if head.all (· = '/') then head else (head.reverse.dropWhile (· = '/')).reverse)

/-- A failure kept by path goes with its file, unless the new path has one. -/
def moveFailure (t : Table FailureRow FailureRow.canonicalPath) (oldPath newPath : String) :
    Table FailureRow FailureRow.canonicalPath :=
  match t.get? fun r => r.canonicalPath = oldPath with
  | none => t
  | some r =>
    if t.any fun r => r.canonicalPath = newPath then t
    else (t.delete fun r => r.canonicalPath = oldPath).put { r with canonicalPath := newPath }

/-- `move_file`. -/
def moveFile (db : Db) (fileId : ℕ) (oldPath newPath : String) : Option FileRecord × Db :=
  if (db.files.byPath newPath).isSome then (none, db)
  else if (db.files.byId fileId).all fun r => r.canonicalPath ≠ oldPath then (none, db)
  else
    let files := db.files.moveTo fileId newPath
      (fun r => { r with canonicalPath := newPath, missingSince := none, seasonKey := r.seasonKey.map fun _ => dirname newPath })
      (fun _ => rfl) fun _ => rfl
    ((files.byId fileId).map (·.toFileRecord),
      { db with files := files, failures := fun table => moveFailure (db.failures table) oldPath newPath })

/-- `mark_missing`, of a file as its row was read. -/
def markMissing (db : Db) (record : FileRecord) (now : String) : Bool × Db :=
  if db.files.rows.any fun r => r.id = record.id ∧ r.canonicalPath = record.canonicalPath ∧
      r.identity = record.identity ∧ r.missingSince = none then
    let files := db.files.modify record.id (fun r => { r with missingSince := some now }) (fun _ => rfl) fun _ => rfl
    (true, { db with files := files })
  else (false, db)

/-- `clear_missing`. -/
def clearMissing (db : Db) (fileId : ℕ) : Bool × Db :=
  if db.files.rows.any fun r => r.id = fileId ∧ r.missingSince ≠ none then
    let files := db.files.modify fileId (fun r => { r with missingSince := none }) (fun _ => rfl) fun _ => rfl
    (true, { db with files := files })
  else (false, db)

end MediaPreview.Store
