import MediaPreview.Store.Statements

/-!
# Transactions and what they note

A transaction of the store as `_tx` sees it: what it leaves in the database, or that it raises and is rolled back
(`Transaction.apply`), and the statements that write it executes, with the two promises its caller gives. The connection
it is handed notes the tables these statements write (`_WritesSeen`).
-/

namespace MediaPreview.Store

open Binary64 Markers Ranking

/-! ### Transactions -/

/-- A transaction, with its arguments and, where it reads the clock, the time. -/
inductive Transaction where
  /-- The first of `upsert_file`. -/
  | touchFile (f : FileFacts) (now : String)
  /-- The second of `upsert_file`. -/
  | storeFile (f : FileFacts) (now : String)
  | recordMember (m : MemberFacts) (now : String)
  | moveFile (fileId : ℕ) (oldPath newPath : String)
  | markMissing (record : FileRecord) (now : String)
  | clearMissing (fileId : ℕ)
  | replaceEvidence (fileId : ℕ) (source : Source) (candidates : List Candidate) (origin detail : String)
      (version : Option ℤ) (alsoReplaces : List Source) (now : String)
  | replaceDetectorAnswer (fileId : ℕ) (answers : List (Source × List Candidate)) (version : ℤ)
      (run : Option (Source × String)) (now : String)
  | restampEvidenceVersion (fileId : ℕ) (source : Source) (origin : String) (version : ℤ)
  | saveDecisions (fileId : ℕ) (decisions : List (MarkerType × TypeDecision)) (settingsFingerprint now : String)
  | lockMarker (fileId : ℕ) (marker : Marker) (now : String)
  | saveUserMarkers (fileId : ℕ) (markers : List Marker) (settingsFingerprint now : String)
  | unlockMarkers (fileId : ℕ) (types : List MarkerType) (now : String)
  | setFingerprint (row : FingerprintRow) (identity : ℤ × ℤ)
  | setFrameRate (fileId : ℕ) (frameRate : Option ℚ) (identity : ℤ × ℤ)
  | setSeasonPair (row : PairRow) (identityA identityB : ℤ × ℤ)
  | setEndPicture (row : EndPictureRow) (identityA identityB : ℤ × ℤ)
  | finishFingerprintChecks (checkedUpTo : ℕ) (gone : List FingerprintCheck)
  | setDetectorRun (row : DetectorRow)
  | setDetectorFailure (row : DetectorRow)
  | recordIdentityFailure (table : FailureTable) (row : FailureRow) (forgetBefore : String)
  /-- One of the writes to tables no modelled read comes from. -/
  | elsewhere (statements : List ElsewhereStatement) (after : Elsewhere)

/-- The database a transaction commits; `none` where it raises. -/
def Transaction.apply (db : Db) : Transaction → Option Db
  | .touchFile f now => some ((MediaPreview.Store.touchFile db f now).elim db Prod.snd)
  | .storeFile f now => some (MediaPreview.Store.storeFile db f now).2
  | .recordMember m now => some (MediaPreview.Store.recordMember db m now).2
  | .moveFile fileId oldPath newPath => some (MediaPreview.Store.moveFile db fileId oldPath newPath).2
  | .markMissing record now => some (MediaPreview.Store.markMissing db record now).2
  | .clearMissing fileId => some (MediaPreview.Store.clearMissing db fileId).2
  | .replaceEvidence fileId source candidates origin detail version alsoReplaces now =>
    MediaPreview.Store.replaceEvidence db fileId source candidates origin detail version alsoReplaces now
  | .replaceDetectorAnswer fileId answers version run now =>
    MediaPreview.Store.replaceDetectorAnswer db fileId answers version run now
  | .restampEvidenceVersion fileId source origin version =>
    some (MediaPreview.Store.restampEvidenceVersion db fileId source origin version)
  | .saveDecisions fileId decisions settingsFingerprint now =>
    MediaPreview.Store.saveDecisions db fileId decisions settingsFingerprint now
  | .lockMarker fileId marker now => MediaPreview.Store.lockMarker db fileId marker now
  | .saveUserMarkers fileId markers settingsFingerprint now =>
    (MediaPreview.Store.saveUserMarkers db fileId markers settingsFingerprint now).map Prod.snd
  | .unlockMarkers fileId types now => some (MediaPreview.Store.unlockMarkers db fileId types now).2
  | .setFingerprint row identity => some (MediaPreview.Store.setFingerprint db row identity).2
  | .setFrameRate fileId frameRate identity => some (MediaPreview.Store.setFrameRate db fileId frameRate identity).2
  | .setSeasonPair row identityA identityB => some (MediaPreview.Store.setSeasonPair db row identityA identityB).2
  | .setEndPicture row identityA identityB => some (MediaPreview.Store.setEndPicture db row identityA identityB).2
  | .finishFingerprintChecks checkedUpTo gone =>
    some (MediaPreview.Store.finishFingerprintChecks db checkedUpTo gone).2
  | .setDetectorRun row => MediaPreview.Store.setDetectorRun db row
  | .setDetectorFailure row => MediaPreview.Store.setDetectorFailure db row
  | .recordIdentityFailure table row forgetBefore =>
    some (MediaPreview.Store.recordIdentityFailure db table row forgetBefore)
  | .elsewhere _ after => some (db.withElsewhere after)

/-! ### Their statements -/

/-- `DELETE FROM table WHERE …`. -/
def deleteFrom (table condition : String) : Sql := ⟨"DELETE FROM " ++ table ++ " ", "WHERE " ++ condition⟩

/-- The insert of a row of `files`. -/
def insertFile : Sql :=
  ⟨"INSERT INTO files ", "(canonical_path, size, mtime_ns, duration_ms, season_key, is_movie, updated_at) VALUES (?,?,?,?,?,?,?)"⟩

/-- The update of a stored file that another has replaced. -/
def replaceFile : Sql :=
  ⟨"UPDATE files ", "SET size=?, mtime_ns=?, duration_ms=?, season_key=?, is_movie=?, updated_at=?, " ++
    "missing_since=NULL WHERE id=?"⟩

/-- The update of the same file. -/
def refreshFile : Sql :=
  ⟨"UPDATE files ", "SET size=?, mtime_ns=?, duration_ms=COALESCE(?, duration_ms), season_key=?, " ++
    "is_movie=?, updated_at=?, missing_since=NULL WHERE id=?"⟩

/-- The update of a season's member. -/
def updateMember : Sql :=
  ⟨"UPDATE files ", "SET duration_ms=?, season_key=COALESCE(season_key, ?), updated_at=?, missing_since=NULL WHERE id=?"⟩

/-- The update of a path. -/
def renameFile : Sql :=
  ⟨"UPDATE files ", "SET canonical_path=?, missing_since=NULL, " ++
    "season_key=CASE WHEN season_key IS NULL THEN NULL ELSE ? END WHERE id=? AND canonical_path=?"⟩

/-- The update of `mark_missing`. -/
def setMissingSince : Sql :=
  ⟨"UPDATE files ", "SET missing_since=? WHERE id=? AND canonical_path=? AND size=? AND mtime_ns=? " ++
    "AND missing_since IS NULL"⟩

/-- The update of `clear_missing`. -/
def clearMissingSince : Sql := ⟨"UPDATE files ", "SET missing_since=NULL WHERE id=? AND missing_since IS NOT NULL"⟩

/-- The inserts of `_keep_replaced_decisions`. -/
def replacedStatements (db : Db) (row : FileRow) (durationMs : ℤ) : Replaced → List (MarkerType × Option (ℤ × ℤ) × List String) →
    List Sql
  | _, [] => []
  | kept, j :: js =>
    let held := kept.decisions.get? fun r => r.fileId = row.id ∧ r.type = j.1 ∧ r.startMs.isSome
    (if j.2.1.isNone ∧ held.any fun r => replacedLengthToleranceMs < |r.durationMs - durationMs| then []
    else
      [⟨"INSERT OR REPLACE INTO replaced_decisions ",
          "(file_id, type, start_ms, end_ms, decided_by, duration_ms, seen_at) VALUES (?,?,?,?,?,?,?)"⟩,
        ⟨"INSERT OR REPLACE INTO replaced_versions ", "(file_id, type, seen_at, versions) VALUES (?,?,?,?)"⟩]) ++
    replacedStatements db row durationMs (keepReplaced db row durationMs kept j) js

/-- The statements of the second transaction of `upsert_file`. -/
def storeFileStatements (db : Db) (f : FileFacts) : List Sql :=
  match db.files.byPath f.identity.canonicalPath with
  | none => [insertFile]
  | some row =>
    if row.identity ≠ f.identity.stamp then
      (match row.durationMs with
        | none => []
        | some durationMs =>
          if durationMs = 0 then []
          else replacedStatements db row durationMs ⟨db.replacedDecisions, db.replacedVersions⟩ (judged db row.id)) ++
      (["evidence", "evidence_versions", "fingerprints", "decisions", "server_kinds", "publish_basis", "detector_runs",
        "detector_failures", "intro_chapter_limits", "server_marker_rereads", "frame_rates",
        "version_reruns"].map fun table => deleteFrom table "file_id=?") ++
      (["season_pair_runs", "season_end_pictures"].map fun table => deleteFrom table "file_a=? OR file_b=?") ++
      [deleteFrom "markers" "file_id=? AND locked=0", replaceFile]
    else [refreshFile]

/-- What replaces a source's evidence first. -/
def deleteEvidence : Sql := deleteFrom "evidence" "file_id=? AND source=? AND origin=?"

/-- The statements of `_write_evidence`. -/
def writeEvidenceStatements (source : Source) (candidates : List Candidate) (version : Option ℤ)
    (alsoReplaces : List Source) : List Sql :=
  ((source :: alsoReplaces).dedup.flatMap fun _ =>
    [deleteEvidence, deleteFrom "evidence_versions" "file_id=? AND source=? AND origin=?"]) ++
  (match version with
    | some _ => [⟨"INSERT INTO evidence_versions ", "(file_id, source, origin, version) VALUES (?,?,?,?)"⟩]
    | none => []) ++
  (if candidates = [] then
    [⟨"INSERT INTO evidence ", "(file_id, source, origin, detail, fetched_at) VALUES (?,?,?,?,?)"⟩]
  else candidates.map fun _ =>
    ⟨"INSERT INTO evidence ", "(file_id, source, origin, label, type, start_ms, end_ms, confidence, " ++
      "detail, fetched_at) VALUES (?,?,?,?,?,?,?,?,?,?)"⟩)

/-- The statements of `_count_server_reread`. -/
def countServerRereadStatements (db : Db) (fileId : ℕ) (serverId : String) (hasMarkers : Bool) : List Sql :=
  if hasMarkers then [deleteFrom "server_marker_rereads" "file_id=? AND server_id=?"]
  else
    let stored := db.evidence.select fun r => r.fileId = fileId ∧ r.origin = serverId ∧ r.source.isServer
    if stored ≠ [] ∧ stored.all fun r => r.type.isNone then
      [⟨"INSERT INTO server_marker_rereads ", "(file_id, server_id, rereads) VALUES (?,?,1) " ++
        "ON CONFLICT(file_id, server_id) DO UPDATE SET rereads = rereads + 1"⟩]
    else []

/-- The insert of a decision row. -/
def insertDecision (values : String) : Sql :=
  ⟨"INSERT OR REPLACE INTO decisions ", "(file_id, type, status, reason, proposed_start_ms, proposed_end_ms, " ++
    "settings_fingerprint, decided_at, decided_by) VALUES " ++ values⟩

/-- The insert of a decided segment. -/
def insertMarker : Sql :=
  ⟨"INSERT OR REPLACE INTO markers ", "(file_id, type, start_ms, end_ms, decided_by, locked, updated_at) " ++
    "VALUES (?,?,?,?,?,0,?)"⟩

/-- What takes a segment that is not decided. -/
def deleteMarker : Sql := deleteFrom "markers" "file_id=? AND type=? AND locked=0"

/-- The statements of `save_decisions`. -/
def saveDecisionsStatements (fileId : ℕ) (settingsFingerprint now : String) : Db → List (MarkerType × TypeDecision) → List Sql
  | _, [] => []
  | db, e :: es =>
    insertDecision "(?,?,?,?,?,?,?,?,?)" ::
    (if db.lockedType fileId e.1 then []
    else
      match e.2.status, e.2.marker with
      | .decided, some _ => [insertMarker]
      | _, _ => [deleteMarker]) ++
    saveDecisionsStatements fileId settingsFingerprint now (saveDecision fileId settingsFingerprint now db e) es

/-- The insert of `_write_lock`. -/
def insertLock : Sql :=
  ⟨"INSERT OR REPLACE INTO markers ", "(file_id, type, start_ms, end_ms, decided_by, locked, updated_at, " ++
    "locked_at) VALUES (?,?,?,?,?,1,?,?)"⟩

/-- What unlocks a segment. -/
def deleteLock : Sql := deleteFrom "markers" "file_id=? AND type=? AND locked=1"

/-- The statements of `unlock_markers`. -/
def unlockStatements (fileId : ℕ) (now : String) : List MarkerType × Db → List MarkerType → List Sql
  | _, [] => []
  | acc, type :: types =>
    deleteLock ::
    (if acc.2.lockedType fileId type then [insertDecision "(?,?,?,?,NULL,NULL,'',?,'[]')"] else []) ++
    unlockStatements fileId now (unlockType fileId now acc type) types

/-- The insert of a frame rate. -/
def insertFrameRate : Sql :=
  ⟨"INSERT OR REPLACE INTO frame_rates ", "(file_id, size, mtime_ns, frame_rate) VALUES (?,?,?,?)"⟩

/-- The statements of `_write_frame_rate`. -/
def writeFrameRateStatements (db : Db) (row : FrameRateRow) : List Sql :=
  (if (db.frameRates.get? fun r => r.fileId = row.fileId) = some row then []
  else [deleteFrom "season_pair_runs" "file_a=? OR file_b=?"]) ++
  [insertFrameRate]

/-- The statements of `move_file`. -/
def moveFileStatements (db : Db) (fileId : ℕ) (oldPath newPath : String) : List Sql :=
  if (db.files.byPath newPath).isSome then []
  else
    renameFile ::
    if (db.files.byId fileId).all fun r => r.canonicalPath ≠ oldPath then []
    else [FailureTable.memberProbeFailures, .memberFingerprintFailures, .creditsTextTimeouts, .endPictureFailures].map
      fun table => ⟨"UPDATE OR IGNORE " ++ table.name ++ " ", "SET canonical_path=? WHERE canonical_path=?"⟩

/-- The insert of a fingerprint. -/
def insertFingerprint : Sql :=
  ⟨"INSERT OR REPLACE INTO fingerprints ", "(file_id, window, start_s, length_s, algorithm, points) " ++
    "VALUES (?,?,?,?,?,?)"⟩

/-- What drops a file's fingerprints. -/
def deleteFingerprints : Sql := deleteFrom "fingerprints" "file_id=?"

/-- The statements of `set_fingerprint`. -/
def setFingerprintStatements (db : Db) (row : FingerprintRow) (identity : ℤ × ℤ) : List Sql :=
  if db.identityOf row.fileId ≠ some identity then []
  else
    (if db.hasFingerprint row.fileId row.window then [deleteFrom "season_pair_runs" "file_a=? OR file_b=?"] else []) ++
    [insertFingerprint]

/-- The statements a gone file's caches are dropped with. -/
def dropCacheStatements : Db → List FingerprintCheck → List Sql
  | _, [] => []
  | db, check :: gone =>
    (if db.unchanged check then
      [deleteFingerprints, deleteFrom "season_pair_runs" "file_a=? OR file_b=?",
        deleteFrom "season_end_pictures" "file_a=? OR file_b=?", deleteFrom "member_probe_failures" "canonical_path=?",
        deleteFrom "member_fingerprint_failures" "canonical_path=?", deleteFrom "end_picture_failures" "canonical_path=?"]
    else []) ++
    dropCacheStatements (dropCache (0, db) check).2 gone

/-- The statements that write of `record_member`. -/
def recordMemberStatements (db : Db) (m : MemberFacts) : List Sql :=
  let written (files : FileTable) (fileId : ℕ) : List Sql :=
    writeEvidenceStatements .chapters m.chapters (some m.chapterVersion) [] ++
    writeFrameRateStatements { db with files := files } ⟨fileId, m.identity.size, m.identity.mtimeNs, m.frameRate⟩
  match db.files.byPath m.identity.canonicalPath with
  | none => insertFile :: written db.files db.files.nextId
  | some row =>
    if row.identity ≠ m.identity.stamp then []
    else
      updateMember ::
      written db.files row.id

/-- The insert of a detector's run. -/
def insertDetectorRun : Sql :=
  ⟨"INSERT OR REPLACE INTO detector_runs ", "(file_id, source, signature, run_at) VALUES (?,?,?,?)"⟩

/-- The insert of a detector's failure. -/
def insertDetectorFailure : Sql :=
  ⟨"INSERT OR REPLACE INTO detector_failures ", "(file_id, source, signature, failed_at) VALUES (?,?,?,?)"⟩

/-- The update of `restamp_evidence_version`. -/
def updateEvidenceVersion : Sql :=
  ⟨"UPDATE evidence_versions ", "SET version=? WHERE file_id=? AND source=? AND origin=?"⟩

/-- What forgets old failures of a step. -/
def deleteFailures (table : FailureTable) : Sql := deleteFrom table.name "failed_at < ?"

/-- The statements that write a transaction executes until it commits or raises. -/
def Transaction.statements (db : Db) : Transaction → List Sql
  | .touchFile _ _ =>
    [⟨"UPDATE files ", "SET updated_at=? WHERE canonical_path=? AND size=? AND mtime_ns=? " ++
      "AND (? IS NULL OR duration_ms=?) AND season_key IS ? AND is_movie=? AND missing_since IS NULL"⟩]
  | .storeFile f _ => storeFileStatements db f
  | .recordMember m _ => recordMemberStatements db m
  | .moveFile fileId oldPath newPath => moveFileStatements db fileId oldPath newPath
  | .markMissing _ _ => [setMissingSince]
  | .clearMissing _ => [clearMissingSince]
  | .replaceEvidence fileId source candidates origin _ version alsoReplaces _ =>
    (if source.isServer ∧ origin ≠ "" then countServerRereadStatements db fileId origin (candidates ≠ []) else []) ++
    writeEvidenceStatements source candidates version alsoReplaces
  | .replaceDetectorAnswer _ answers version run _ =>
    ((sortBy (fun a => a.1.value) answers).flatMap fun a => writeEvidenceStatements a.1 a.2 (some version) []) ++
    (if run.isSome then [insertDetectorRun] else []) ++
    (if answers.any fun a => a.1 = .creditsText then
      [⟨"DELETE FROM credits_text_timeouts ", "WHERE canonical_path = (SELECT canonical_path FROM files WHERE id=?)"⟩,
        deleteFrom "detector_failures" "file_id=? AND source=?"]
    else [])
  | .restampEvidenceVersion _ _ _ _ => [updateEvidenceVersion]
  | .saveDecisions fileId decisions settingsFingerprint now =>
    saveDecisionsStatements fileId settingsFingerprint now db decisions
  | .lockMarker _ _ _ => [insertLock]
  | .saveUserMarkers _ markers _ _ => (byType markers).flatMap fun _ => [insertLock, insertDecision "(?,?,?,?,NULL,NULL,?,?,'[]')"]
  | .unlockMarkers fileId types now => unlockStatements fileId now ([], db) types
  | .setFingerprint row identity => setFingerprintStatements db row identity
  | .setFrameRate fileId frameRate identity =>
    if db.identityOf fileId ≠ some identity then []
    else writeFrameRateStatements db ⟨fileId, identity.1, identity.2, frameRate⟩
  | .setSeasonPair row identityA identityB =>
    if (MediaPreview.Store.setSeasonPair db row identityA identityB).1 then
      [deleteFrom "season_pair_runs" "file_a=? AND file_b=? AND matcher_version % ? != ?",
        ⟨"INSERT OR REPLACE INTO season_pair_runs ", "(file_a, file_b, matcher_version, runs_json) VALUES (?,?,?,?)"⟩]
    else []
  | .setEndPicture row identityA identityB =>
    if (MediaPreview.Store.setEndPicture db row identityA identityB).1 then
      [⟨"INSERT OR REPLACE INTO season_end_pictures ", "(file_a, file_b, start_ms, end_ms, offset_ms, " ++
        "check_version, share) VALUES (?,?,?,?,?,?,?)"⟩]
    else []
  | .finishFingerprintChecks checkedUpTo gone =>
    ⟨"INSERT INTO meta(", "key, value) VALUES (?, ?) ON CONFLICT(key) DO UPDATE SET value=excluded.value"⟩ ::
      dropCacheStatements { db with metaRows := db.metaRows.put (fingerprintCheckedUpTo, toString checkedUpTo) } gone
  | .setDetectorRun _ => [insertDetectorRun]
  | .setDetectorFailure _ => [insertDetectorFailure]
  | .recordIdentityFailure table _ _ =>
    [deleteFailures table,
      ⟨"INSERT OR REPLACE INTO " ++ table.name ++ " ", "(canonical_path, size, mtime_ns, failed_at) VALUES (?,?,?,?)"⟩]
  | .elsewhere statements _ => statements.map ElsewhereStatement.text

/-- `cached_reads_unchanged`. -/
def Transaction.cachedReadsUnchanged : Transaction → Bool
  | .touchFile _ _ => true
  | _ => false

/-- `season_reads_unchanged`. -/
def Transaction.seasonReadsUnchanged : Transaction → Bool
  | .replaceEvidence _ source _ _ _ _ alsoReplaces _ => (source :: alsoReplaces).all (·.isServer)
  | .restampEvidenceVersion _ source _ _ => source.isServer
  | _ => false

end MediaPreview.Store
