import MediaPreview.Store.Evidence

/-!
# The memoised reads

The methods of the store that `read_memoised` wraps (`markers/store.py`), as functions of the database. All they read of
it is its `ReadTables`: of a file's row not when it was last looked at, which no memoised read hands out. The times of
`evidence_fetched_at` and `_identity_failed_at` are the texts stored, which the methods parse.
-/

namespace MediaPreview.Store

open Binary64 Markers Ranking

/-! ### What they return -/

/-- `EvidenceRow` as the store hands it out: without the row's ids. -/
structure EvidenceAnswer where
  /-- The source. -/
  source : Source
  /-- The lookup key. -/
  origin : String
  /-- The segment type. -/
  type : Option MarkerType
  /-- The start. -/
  startMs : Option ℤ
  /-- The end. -/
  endMs : Option ℤ
  /-- The confidence. -/
  confidence : Option PyFloat
  /-- Shown with the row. -/
  detail : String
  /-- When it was fetched. -/
  fetchedAt : String
  /-- The candidate's own title. -/
  label : String

/-- What a memoised read returns. -/
inductive Answer where
  | file (record : Option FileRecord)
  | version (version : Option ℤ)
  | time (text : Option String)
  | rows (rows : List EvidenceAnswer)
  | candidates (candidates : List Candidate)
  | markers (markers : List (MarkerType × Marker))
  | found (found : Bool)
  | signature (signature : Option String)
  | rate (stored : Bool) (frameRate : Option ℚ)

/-- A memoised method with its arguments. -/
inductive Read where
  | getFile (canonicalPath : String)
  | evidenceVersion (fileId : ℕ) (source : Source) (origin : String)
  | evidenceFetchedAt (fileId : ℕ) (source : Source) (origin : String)
  | evidenceRows (fileId : ℕ)
  | getEvidence (fileId : ℕ)
  | getLocked (fileId : ℕ)
  | hasFingerprint (fileId : ℕ) (window : String) (algorithm : Option ℤ) (lengthS : Option ℚ)
  | getDetectorRun (fileId : ℕ) (source : Source)
  | getDetectorFailure (fileId : ℕ) (source : Source)
  | getFrameRate (fileId : ℕ)
  | identityFailedAt (table : FailureTable) (identity : FileIdentity)
  deriving DecidableEq

/-! ### Importer plugins -/

/-- A character as `re.IGNORECASE` compares it. -/
def foldCase (c : Char) : Char :=
  if c = 'İ' ∨ c = 'ı' then 'i' else if c = 'ſ' then 's' else if c = 'K' then 'k' else c.toLower

/-- `first[ _-]?second` is found in the text, in any case. -/
def names (first second : List Char) (text : String) : Bool :=
  (text.toList.map foldCase).tails.any fun s =>
    [[], [' '], ['_'], ['-']].any fun between => (first ++ between ++ second).isPrefixOf s

/-- `_IMPORTER_DATABASES`. -/
def importerDatabases : List (String × List Char × List Char) :=
  [("introdb", ['i', 'n', 't', 'r', 'o'], ['d', 'b']), ("skipdb", ['s', 'k', 'i', 'p'], ['d', 'b']),
    ("aniskip", ['a', 'n', 'i'], ['s', 'k', 'i', 'p'])]

/-- `importer_database`. -/
def importerDatabase (text : String) : String :=
  match importerDatabases.filter fun database => names database.2.1 database.2.2 text with
  | [database] => database.1
  | _ => ""

/-! ### The methods -/

/-- The tables the memoised reads come from. -/
structure ReadTables where
  /-- `files`, without `updated_at`. -/
  files : List FileRecord
  /-- `evidence`. -/
  evidence : List EvidenceRow
  /-- `evidence_versions`. -/
  evidenceVersions : List EvidenceVersion
  /-- `frame_rates`. -/
  frameRates : List FrameRateRow
  /-- `fingerprints`. -/
  fingerprints : List FingerprintRow
  /-- `markers`. -/
  markers : List MarkerRow
  /-- `detector_runs`. -/
  detectorRuns : List DetectorRow
  /-- `detector_failures`. -/
  detectorFailures : List DetectorRow
  /-- The tables of `_IDENTITY_FAILURE_TABLES`. -/
  failures : FailureTable → List FailureRow

/-- The database's. -/
def Db.readTables (db : Db) : ReadTables where
  files := db.files.rows.map (·.toFileRecord)
  evidence := db.evidence.rows
  evidenceVersions := db.evidenceVersions.rows
  frameRates := db.frameRates.rows
  fingerprints := db.fingerprints.rows
  markers := db.markers.rows
  detectorRuns := db.detectorRuns.rows
  detectorFailures := db.detectorFailures.rows
  failures table := (db.failures table).rows

/-- `round(x, 3)`, in thousandths. -/
def toMillis (x : ℚ) : ℤ := roundEven (x * 1000)

/-- `_made_as`. -/
def FingerprintRow.madeAs (row : FingerprintRow) (algorithm : Option ℤ) (lengthS : Option ℚ) : Bool :=
  algorithm.all (row.algorithm = ·) && lengthS.all fun length => toMillis row.lengthS = toMillis length

/-- The row `evidence_rows` hands out. -/
def EvidenceRow.answer (r : EvidenceRow) : EvidenceAnswer :=
  ⟨r.source, r.origin, r.type, r.startMs, r.endMs, r.confidence, r.detail, r.fetchedAt, r.label⟩

/-- The candidate of a row that has a type and a start; its object is the row's. -/
def EvidenceRow.candidate (r : EvidenceRow) : Option Candidate :=
  match r.type, r.startMs with
  | some type, some start => some
    { type := type
      startMs := start
      endMs := r.endMs
      source := r.source
      confidence := r.confidence.getD (.finite 1)
      origin := if r.label = "" then r.origin else r.label
      copiedFrom := if r.source = .serverMarkersImported then importerDatabase r.detail else ""
      stale := r.detail = staleServerMarkersDetail
      obj := r.id }
  | _, _ => none

/-- `_evidence_query`. -/
def ReadTables.evidenceQuery (t : ReadTables) (fileId : ℕ) : List EvidenceRow :=
  sortBy EvidenceRow.id (t.evidence.filter fun r => r.fileId = fileId)

/-- `MAX(fetched_at)`, if it is not empty. -/
def latestFetched (times : List String) : Option String := times.max?.filter (· ≠ "")

/-- What a method reads. -/
def ReadTables.answer (t : ReadTables) : Read → Answer
  | .getFile canonicalPath => .file (t.files.find? fun r => r.canonicalPath = canonicalPath)
  | .evidenceVersion fileId source origin =>
    .version ((t.evidenceVersions.find? fun r =>
      r.fileId = fileId && r.source = source && r.origin = origin).map EvidenceVersion.version)
  | .evidenceFetchedAt fileId source origin =>
    .time (latestFetched ((t.evidence.filter fun r =>
      r.fileId = fileId && r.source = source && r.origin = origin).map EvidenceRow.fetchedAt))
  | .evidenceRows fileId => .rows ((t.evidenceQuery fileId).map EvidenceRow.answer)
  | .getEvidence fileId => .candidates ((t.evidenceQuery fileId).filterMap EvidenceRow.candidate)
  | .getLocked fileId =>
    .markers ((t.markers.filter fun r => r.fileId = fileId && r.locked).map fun r =>
      (r.type, ⟨r.type, r.startMs, r.endMs, r.decidedBy, r.locked⟩))
  | .hasFingerprint fileId window algorithm lengthS =>
    .found ((t.fingerprints.find? fun r => r.fileId = fileId && r.window = window).any fun r => r.madeAs algorithm lengthS)
  | .getDetectorRun fileId source =>
    .signature ((t.detectorRuns.find? fun r => r.fileId = fileId && r.source = source).map DetectorRow.signature)
  | .getDetectorFailure fileId source =>
    .signature ((t.detectorFailures.find? fun r => r.fileId = fileId && r.source = source).map DetectorRow.signature)
  | .getFrameRate fileId =>
    match t.frameRates.find? fun r => r.fileId = fileId && t.files.any fun f => f.id = r.fileId && f.identity = (r.size, r.mtimeNs)
    with
    | none => .rate false none
    | some r => .rate true r.frameRate
  | .identityFailedAt table identity =>
    .time (((t.failures table).find? fun r =>
      r.canonicalPath = identity.canonicalPath && r.size = identity.size && r.mtimeNs = identity.mtimeNs).map
        FailureRow.failedAt)

/-- What the undecorated method returns. -/
def Db.answer (db : Db) (r : Read) : Answer := db.readTables.answer r

end MediaPreview.Store
