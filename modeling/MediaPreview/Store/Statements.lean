import MediaPreview.Store.Run

/-!
# The statements of the transactions

The texts each write of the store executes, as far as they write (`markers/store.py`), and the tables that
`_WRITTEN_TABLE` finds in them. The writes to tables that no modelled read comes from (publish records, series lookups,
usage and the like) are told by their statements alone, in any order and number (`elsewhere`); the rest are those of
`MediaPreview.Store.Run`, one transaction each, with the four that are only needed here.
-/

namespace MediaPreview.Store

open Binary64 Markers Ranking

/-! ### The table a statement writes -/

/-- `\w`, of ASCII. -/
def isWordChar (c : Char) : Bool := c.isAlphanum || c = '_'

/-- What follows a keyword, in any case. -/
def keyword : List Char → List Char → Option (List Char)
  | [], s => some s
  | _ :: _, [] => none
  | k :: ks, c :: s => if k = c.toUpper then keyword ks s else none

/-- What follows `\s+`. -/
def spaces : List Char → Option (List Char)
  | [] => none
  | c :: s => if c.isWhitespace then some (s.dropWhile Char.isWhitespace) else none

/-- `(\w+)`, and what follows. -/
def word (s : List Char) : Option (List Char × List Char) :=
  match s.takeWhile isWordChar with
  | [] => none
  | w => some (w, s.dropWhile isWordChar)

/-- What follows `\s+OR\s+\w+`. -/
def orClause (s : List Char) : Option (List Char) :=
  ((spaces s).bind fun s => (keyword ['O', 'R'] s).bind spaces).bind fun s => (word s).map Prod.snd

/-- What follows `\s+INTO`. -/
def intoClause (s : List Char) : Option (List Char) := (spaces s).bind (keyword ['I', 'N', 'T', 'O'])

/-- `\s+(\w+)`, in lower case. -/
def tableName (s : List Char) : Option String :=
  ((spaces s).bind word).map fun w => String.ofList (w.1.map Char.toLower)

/-- The text of a statement, in two parts. -/
structure Sql where
  /-- Through the name of the table it writes. -/
  head : String
  /-- What follows. -/
  rest : String

/-- `_WRITTEN_TABLE`: the table the text of a statement writes. -/
def writtenTable (sql : Sql) : Option String :=
  let s := (sql.head.toList ++ sql.rest.toList).dropWhile Char.isWhitespace
  let inserted := (keyword "INSERT".toList s).bind fun s =>
    ((orClause s).bind intoClause).bind tableName <|> (intoClause s).bind tableName
  let replaced := ((keyword "REPLACE".toList s).bind intoClause).bind tableName
  let updated := (keyword "UPDATE".toList s).bind fun s => (orClause s).bind tableName <|> tableName s
  let deleted := ((keyword "DELETE".toList s).bind fun s => (spaces s).bind (keyword "FROM".toList)).bind tableName
  inserted <|> replaced <|> updated <|> deleted

/-- The name of a table of `_IDENTITY_FAILURE_TABLES`. -/
def FailureTable.name : FailureTable → String
  | .memberProbeFailures => "member_probe_failures"
  | .memberFingerprintFailures => "member_fingerprint_failures"
  | .creditsTextTimeouts => "credits_text_timeouts"
  | .endPictureFailures => "end_picture_failures"

/-- `_READ_TABLES`. -/
def readTables : List String :=
  ["files", "evidence", "evidence_versions", "frame_rates", "fingerprints", "markers", "detector_runs",
    "detector_failures", "member_probe_failures", "member_fingerprint_failures", "credits_text_timeouts",
    "end_picture_failures"]

/-! ### The writes only needed here -/

/-- `restamp_evidence_version`. -/
def restampEvidenceVersion (db : Db) (fileId : ℕ) (source : Source) (origin : String) (version : ℤ) : Db :=
  { db with
    evidenceVersions := db.evidenceVersions.update
      (fun r => r.fileId = fileId ∧ r.source = source ∧ r.origin = origin) (fun r => { r with version := version })
      fun _ => rfl }

/-- `set_detector_run`. -/
def setDetectorRun (db : Db) (row : DetectorRow) : Option Db :=
  if db.hasFile row.fileId then some { db with detectorRuns := db.detectorRuns.put row } else none

/-- `set_detector_failure`. -/
def setDetectorFailure (db : Db) (row : DetectorRow) : Option Db :=
  if db.hasFile row.fileId then some { db with detectorFailures := db.detectorFailures.put row } else none

/-- `_record_identity_failure`. -/
def recordIdentityFailure (db : Db) (table : FailureTable) (row : FailureRow) (forgetBefore : String) : Db :=
  { db with
    failures := fun t =>
      if t = table then ((db.failures t).delete fun r => r.failedAt < forgetBefore).put row else db.failures t }

/-- The tables that only writes outside the run model write, where one of the model's clears them. -/
structure Elsewhere where
  /-- `server_kinds`. -/
  serverKinds : Table OwnedRow id
  /-- `publish_basis`. -/
  publishBasis : Table OwnedRow id
  /-- `intro_chapter_limits`. -/
  introChapterLimits : Table OwnedRow id
  /-- `server_marker_rereads`. -/
  serverMarkerRereads : Table RereadRow fun r => (r.fileId, r.serverId)
  /-- `version_reruns`. -/
  versionReruns : Table OwnedRow id
  /-- `meta`. -/
  metaRows : Table (String × String) Prod.fst

/-- The database with other rows in these. -/
def Db.withElsewhere (db : Db) (e : Elsewhere) : Db :=
  { db with
    serverKinds := e.serverKinds
    publishBasis := e.publishBasis
    introChapterLimits := e.introChapterLimits
    serverMarkerRereads := e.serverMarkerRereads
    versionReruns := e.versionReruns
    metaRows := e.metaRows }

/-- The statements of the writes to tables no modelled read comes from. -/
inductive ElsewhereStatement where
  /-- `record_version_reruns`. -/
  | versionReruns
  /-- `set_publish_state`. -/
  | publishState
  /-- `set_server_kind`. -/
  | serverKind
  /-- `set_intro_chapter_limit`. -/
  | introChapterLimit
  /-- `finish_file_checks`. -/
  | fileChecks
  /-- `set_item_publish_state`. -/
  | itemVersions
  | itemPublishState
  | clearKeptTypes
  | keptTypes
  /-- `record_failed_item_retries`. -/
  | failedItemRetries
  /-- `mark_server_rechecks_taken`. -/
  | serverRechecksTaken
  /-- `mark_item_gone`. -/
  | itemGone
  /-- `count_failed_server_reread`. -/
  | failedServerReread
  /-- `record_drift_listed`. -/
  | driftListed
  /-- `set_publish_basis`. -/
  | publishBasis
  /-- `clear_publish_basis`. -/
  | clearPublishBasis
  /-- `record_source_usage`. -/
  | sourceUsage
  /-- `record_series_lookup`. -/
  | seriesLookup
  | clearSeriesPause
  | seriesPause

/-- Their texts. -/
def ElsewhereStatement.text : ElsewhereStatement → Sql
  | .versionReruns =>
    ⟨"INSERT OR REPLACE INTO version_reruns ",
      "(file_id, detector, version, taken_at) SELECT id, ?, ?, ? FROM files WHERE canonical_path=?"⟩
  | .publishState =>
    ⟨"INSERT OR REPLACE INTO publish_state ",
      "(file_id, server_id, item_id, markers_json, status, message, updated_at) VALUES " ++
        "(?,?,?,?,?,?,?)"⟩
  | .serverKind => ⟨"INSERT OR REPLACE INTO server_kinds ", "(file_id, kind, confirmed_at) VALUES (?,?,?)"⟩
  | .introChapterLimit =>
    ⟨"INSERT OR REPLACE INTO intro_chapter_limits ", "(file_id, limit_ms, decided_at) VALUES (?,?,?)"⟩
  | .fileChecks =>
    ⟨"INSERT INTO meta(", "key, value) VALUES (?, ?) ON CONFLICT(key) DO UPDATE SET value=excluded.value"⟩
  | .itemVersions => ⟨"INSERT OR REPLACE INTO item_versions ", "(server_id, item_id, files_json) VALUES (?,?,?)"⟩
  | .itemPublishState =>
    ⟨"INSERT OR REPLACE INTO item_publish_state ",
      "(server_id, item_id, markers_json, status, version, updated_at) VALUES (?,?,?,?,?,?)"⟩
  | .clearKeptTypes => ⟨"DELETE FROM item_kept_types ", "WHERE server_id=? AND item_id=?"⟩
  | .keptTypes => ⟨"INSERT INTO item_kept_types ", "(server_id, item_id, type) VALUES (?,?,?)"⟩
  | .failedItemRetries =>
    ⟨"INSERT INTO failed_item_retries ",
      "(server_id, item_id, item_version, retries, retried_at) SELECT server_id, item_id, version, " ++
        "1, ? FROM item_publish_state WHERE server_id=? AND item_id=? ON CONFLICT(server_id, item_id) " ++
        "DO UPDATE SET retries = CASE WHEN failed_item_retries.item_version = excluded.item_version " ++
        "THEN failed_item_retries.retries + 1 ELSE 1 END, item_version = excluded.item_version, " ++
        "retried_at = excluded.retried_at WHERE ? IS NULL OR failed_item_retries.retried_at < ?"⟩
  | .serverRechecksTaken =>
    ⟨"INSERT INTO server_marker_rereads ",
      "(file_id, server_id, taken_at) SELECT f.id, ?, ? FROM files f WHERE f.canonical_path = ? AND " ++
        "(  SELECT COUNT(*) > 0 AND COUNT(e.type) = 0 FROM evidence e  WHERE e.file_id = f.id AND " ++
        "e.origin = ? AND e.source IN (?,?)) ON CONFLICT(file_id, server_id) DO UPDATE SET taken_at = " ++
        "excluded.taken_at"⟩
  | .itemGone =>
    ⟨"UPDATE item_publish_state ",
      "SET status='gone', version=version+1, updated_at=? WHERE server_id=? AND item_id=? AND " ++
        "status='written'"⟩
  | .failedServerReread =>
    ⟨"INSERT INTO server_marker_rereads ",
      "(file_id, server_id, rereads, failed_reread_at) VALUES (?,?,1,?) ON CONFLICT(file_id, " ++
        "server_id) DO UPDATE SET rereads = rereads + 1, failed_reread_at = excluded.failed_reread_at"⟩
  | .driftListed => ⟨"INSERT OR REPLACE INTO drift_listings ", "(server_id, item_id, listed_at) VALUES (?,?,?)"⟩
  | .publishBasis =>
    ⟨"INSERT OR REPLACE INTO publish_basis ", "(file_id, server_id, decided_hash, item_version) VALUES (?,?,?,?)"⟩
  | .clearPublishBasis => ⟨"DELETE FROM publish_basis ", "WHERE file_id=? AND server_id=?"⟩
  | .sourceUsage =>
    ⟨"INSERT OR REPLACE INTO source_usage ",
      "(source, day, used, limit_, remaining, updated_at) VALUES (?,?,?,?,?,?)"⟩
  | .seriesLookup =>
    ⟨"INSERT OR REPLACE INTO series_lookups ", "(source, series_key, episode, found, answered_at) VALUES (?,?,?,?,?)"⟩
  | .clearSeriesPause => ⟨"DELETE FROM series_pauses ", "WHERE source=? AND series_key=?"⟩
  | .seriesPause => ⟨"INSERT OR REPLACE INTO series_pauses ", "(source, series_key, paused_at) VALUES (?,?,?)"⟩

/-- The table each writes. -/
def ElsewhereStatement.table : ElsewhereStatement → String
  | .versionReruns => "version_reruns"
  | .publishState => "publish_state"
  | .serverKind => "server_kinds"
  | .introChapterLimit => "intro_chapter_limits"
  | .fileChecks => "meta"
  | .itemVersions => "item_versions"
  | .itemPublishState | .itemGone => "item_publish_state"
  | .clearKeptTypes | .keptTypes => "item_kept_types"
  | .failedItemRetries => "failed_item_retries"
  | .serverRechecksTaken | .failedServerReread => "server_marker_rereads"
  | .driftListed => "drift_listings"
  | .publishBasis | .clearPublishBasis => "publish_basis"
  | .sourceUsage => "source_usage"
  | .seriesLookup => "series_lookups"
  | .clearSeriesPause | .seriesPause => "series_pauses"

/-- **None of them writes a table that cached reads come from.** -/
theorem ElsewhereStatement.writtenTable_text (e : ElsewhereStatement) :
    writtenTable e.text = some e.table ∧ e.table ∉ readTables := by
  cases e <;> decide +kernel

end MediaPreview.Store
