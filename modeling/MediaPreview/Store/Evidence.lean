import MediaPreview.Store.Schema
import MediaPreview.Lib.Ranking
import Mathlib.Data.String.Basic

/-!
# Storing answers

`replace_evidence` and `replace_detector_answer` (`markers/store.py`): what a source answered
about a file replaces what it answered before under the same lookup key. Both write the
`evidence` tables and what counts lookups; neither touches a decision or a marker.

An operation that may raise returns `none` there: its transaction is rolled back.
-/

namespace MediaPreview.Store

open Binary64 Markers Ranking

/-- `STALE_SERVER_MARKERS_DETAIL`. -/
def staleServerMarkersDetail : String :=
  "Made for an earlier file at this path (the file was replaced since); not a second opinion"

/-- The tables an answer is stored in. -/
structure Answers where
  /-- `evidence`. -/
  evidence : Table EvidenceRow EvidenceRow.id
  /-- `evidence_versions`. -/
  versions : Table EvidenceVersion fun r => (r.fileId, r.source, r.origin)

/-- The database's. -/
def Db.answers (db : Db) : Answers := ⟨db.evidence, db.evidenceVersions⟩

/-- `INSERT INTO evidence`, of a row with the next id. -/
def insertEvidence (t : Table EvidenceRow EvidenceRow.id) (r : EvidenceRow) : Table EvidenceRow EvidenceRow.id :=
  t.put { r with id := (t.rows.map (·.id)).foldr max 0 + 1 }

/-- A `REAL` column's value: SQLite stores not-a-number as `NULL`. -/
def realColumn (x : PyFloat) : Option PyFloat := if x = .nan then none else some x

/-- The rows an answer is stored as: one for each candidate, and one without a type for none. -/
def answerRows (fileId : ℕ) (source : Source) (candidates : List Candidate) (origin detail now : String) :
    List EvidenceRow :=
  if candidates = [] then [⟨0, fileId, source, origin, "", none, none, none, none, detail, now⟩]
  else candidates.map fun c =>
    ⟨0, fileId, source, origin, c.origin, some c.type, some c.startMs, c.endMs, realColumn c.confidence,
      if c.stale then staleServerMarkersDetail else detail, now⟩

/-- `_write_evidence`. -/
def writeEvidence (t : Answers) (fileId : ℕ) (source : Source) (candidates : List Candidate) (origin detail : String)
    (version : Option ℤ) (alsoReplaces : List Source) (now : String) : Answers :=
  let cleared := t.evidence.delete fun r => r.fileId = fileId ∧ r.source ∈ source :: alsoReplaces ∧ r.origin = origin
  let unversioned :=
    t.versions.delete fun r => r.fileId = fileId ∧ r.source ∈ source :: alsoReplaces ∧ r.origin = origin
  { evidence := (answerRows fileId source candidates origin detail now).foldl insertEvidence cleared
    versions :=
      match version with
      | some v => unversioned.put ⟨fileId, source, origin, v⟩
      | none => unversioned }

/-- `_count_server_reread`: an answer with markers forgets the re-reads, an empty one that replaces an
empty one counts one more. -/
def countServerReread (db : Db) (fileId : ℕ) (serverId : String) (hasMarkers : Bool) :
    Table RereadRow fun r => (r.fileId, r.serverId) :=
  if hasMarkers then db.serverMarkerRereads.delete fun r => r.fileId = fileId ∧ r.serverId = serverId
  else
    let stored := db.evidence.select fun r => r.fileId = fileId ∧ r.origin = serverId ∧ r.source.isServer
    if stored ≠ [] ∧ stored.all fun r => r.type.isNone then
      match db.serverMarkerRereads.get? fun r => r.fileId = fileId ∧ r.serverId = serverId with
      | some r => db.serverMarkerRereads.put { r with rereads := r.rereads + 1 }
      | none => db.serverMarkerRereads.put ⟨fileId, serverId, 1, none, none⟩
    else db.serverMarkerRereads

/-- `replace_evidence`. -/
def replaceEvidence (db : Db) (fileId : ℕ) (source : Source) (candidates : List Candidate) (origin detail : String)
    (version : Option ℤ) (alsoReplaces : List Source) (now : String) : Option Db :=
  if db.hasFile fileId then
    let t := writeEvidence db.answers fileId source candidates origin detail version alsoReplaces now
    some { db with
      serverMarkerRereads :=
        if source.isServer ∧ origin ≠ "" then countServerReread db fileId origin (candidates ≠ [])
        else db.serverMarkerRereads
      evidence := t.evidence
      evidenceVersions := t.versions }
  else none

/-- `replace_detector_answer`. -/
def replaceDetectorAnswer (db : Db) (fileId : ℕ) (answers : List (Source × List Candidate)) (version : ℤ)
    (run : Option (Source × String)) (now : String) : Option Db :=
  if (answers = [] ∧ run = none) ∨ db.hasFile fileId then
    let t := (sortBy (fun a => a.1.value) answers).foldl
      (fun t a => writeEvidence t fileId a.1 a.2 "" "" (some version) [] now) db.answers
    let readText := answers.any fun a => a.1 = .creditsText
    some { db with
      evidence := t.evidence
      evidenceVersions := t.versions
      detectorRuns :=
        match run with
        | some r => db.detectorRuns.put ⟨fileId, r.1, r.2, now⟩
        | none => db.detectorRuns
      failures := fun table =>
        if table = .creditsTextTimeouts ∧ readText then
          (db.failures table).delete fun r => some r.canonicalPath = (db.files.byId fileId).map (·.canonicalPath)
        else db.failures table
      detectorFailures :=
        if readText then db.detectorFailures.delete fun r => r.fileId = fileId ∧ r.source = .creditsText
        else db.detectorFailures }
  else none

end MediaPreview.Store
