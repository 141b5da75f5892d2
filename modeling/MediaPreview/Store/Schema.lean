import MediaPreview.Lib.Table
import MediaPreview.Markers.Agreement
import Mathlib.Data.List.MinMax

/-!
# The database

`markers.db`'s tables as the store's writes need them (`markers/store.py`). A table is keyed by
its primary key; `files` has two, the id and the path (`FileTable`). Every child row belongs
to a file and is inserted only while that file's row is there (`foreign_keys=ON`). No write of
the store's that is modelled deletes a file.

Columns no modelled write reads or hands on are left out: of the tables that are only cleared
with their file (`server_kinds`, `publish_basis`, `intro_chapter_limits`, `version_reruns`) the
row's key is kept (`OwnedRow`).
-/

namespace MediaPreview.Store

open Binary64 Markers

/-! ### Files -/

/-- `FileIdentity`: path, size and mtime. -/
structure FileIdentity where
  /-- The path. -/
  canonicalPath : String
  /-- The size. -/
  size : ℤ
  /-- The modified time. -/
  mtimeNs : ℤ
  deriving DecidableEq

/-- `FileRecord`: what the store hands out of a row of `files`. -/
structure FileRecord where
  /-- The row id. -/
  id : ℕ
  /-- The path. -/
  canonicalPath : String
  /-- The size. -/
  size : ℤ
  /-- The modified time. -/
  mtimeNs : ℤ
  /-- The length. -/
  durationMs : Option ℤ
  /-- The season folder. -/
  seasonKey : Option String
  /-- Whether it is a movie. -/
  isMovie : Bool
  /-- Since when it is missing from disk. -/
  missingSince : Option String
  deriving DecidableEq

/-- A row of `files`. -/
structure FileRow extends FileRecord where
  /-- When it was last looked at. -/
  updatedAt : String
  deriving DecidableEq

/-- Size and mtime: what tells a file from the one it replaced. -/
def FileRecord.identity (r : FileRecord) : ℤ × ℤ := (r.size, r.mtimeNs)

/-- The size and mtime of an identity. -/
def FileIdentity.stamp (i : FileIdentity) : ℤ × ℤ := (i.size, i.mtimeNs)

/-- `files`: no two rows share an id, and none a path. -/
structure FileTable where
  /-- The rows. -/
  rows : List FileRow
  /-- `id INTEGER PRIMARY KEY`. -/
  ids : (rows.map (·.id)).Nodup
  /-- `canonical_path TEXT NOT NULL UNIQUE`. -/
  paths : (rows.map (·.canonicalPath)).Nodup

namespace FileTable

/-- No files. -/
def empty : FileTable := ⟨[], List.nodup_nil, List.nodup_nil⟩

/-- `SELECT * FROM files WHERE canonical_path=?`. -/
def byPath (t : FileTable) (path : String) : Option FileRow := t.rows.find? fun r => r.canonicalPath = path

/-- `SELECT * FROM files WHERE id=?`. -/
def byId (t : FileTable) (id : ℕ) : Option FileRow := t.rows.find? fun r => r.id = id

/-- The row id an insert takes: one more than the greatest. -/
def nextId (t : FileTable) : ℕ := (t.rows.map (·.id)).foldr max 0 + 1

theorem id_lt_nextId {t : FileTable} {r : FileRow} (hr : r ∈ t.rows) : r.id < t.nextId := by
  have hle : ∀ l : List ℕ, ∀ n ∈ l, n ≤ l.foldr max 0 := by
    intro l
    induction l with
    | nil => exact fun n hn => absurd hn List.not_mem_nil
    | cons m l ih =>
      intro n hn
      rw [List.foldr_cons]
      rcases List.mem_cons.mp hn with rfl | hn
      · exact le_max_left _ _
      · exact (ih n hn).trans (le_max_right _ _)
  exact Nat.lt_succ_of_le (hle _ _ (List.mem_map_of_mem hr))

theorem byPath_eq_none {t : FileTable} {path : String} :
    t.byPath path = none ↔ ∀ r ∈ t.rows, r.canonicalPath ≠ path := by
  simp only [byPath, List.find?_eq_none, decide_eq_true_eq, ne_eq]

theorem of_byPath {t : FileTable} {path : String} {r : FileRow} (h : t.byPath path = some r) :
    r ∈ t.rows ∧ r.canonicalPath = path :=
  ⟨List.mem_of_find?_eq_some h, of_decide_eq_true (List.find?_some h :)⟩

theorem of_byId {t : FileTable} {id : ℕ} {r : FileRow} (h : t.byId id = some r) : r ∈ t.rows ∧ r.id = id :=
  ⟨List.mem_of_find?_eq_some h, of_decide_eq_true (List.find?_some h :)⟩

/-- `INSERT INTO files`, of a row with the next id; a path that is taken is refused. -/
def insert (t : FileTable) (r : FileRow) : FileTable :=
  if h : t.byPath r.canonicalPath = none then
    { rows := t.rows ++ [{ r with id := t.nextId }]
      ids := by
        rw [List.map_append, List.map_singleton]
        refine t.ids.append (List.nodup_singleton _) fun n hn hx => ?_
        obtain ⟨s, hs, rfl⟩ := List.mem_map.mp hn
        rw [List.mem_singleton] at hx
        exact (id_lt_nextId hs).ne hx
      paths := by
        rw [List.map_append, List.map_singleton]
        refine t.paths.append (List.nodup_singleton _) fun p hp hx => ?_
        obtain ⟨s, hs, rfl⟩ := List.mem_map.mp hp
        rw [List.mem_singleton] at hx
        exact byPath_eq_none.mp h s hs hx }
  else t

/-- Rewriting a row leaves the columns it keeps. -/
theorem map_ite {α : Type*} {g : FileRow → α} {f : FileRow → FileRow} (hg : ∀ r, g (f r) = g r) {id : ℕ}
    {rows : List FileRow} : (rows.map fun r => if r.id = id then f r else r).map g = rows.map g := by
  rw [List.map_map]
  refine List.map_congr_left fun r _ => ?_
  simp only [Function.comp]
  split_ifs
  · exact hg r
  · rfl

/-- `UPDATE files SET … WHERE id=?`, of columns other than the id and the path. -/
def modify (t : FileTable) (id : ℕ) (f : FileRow → FileRow) (hid : ∀ r, (f r).id = r.id)
    (hpath : ∀ r, (f r).canonicalPath = r.canonicalPath) : FileTable where
  rows := t.rows.map fun r => if r.id = id then f r else r
  ids := by
    rw [map_ite hid]
    exact t.ids
  paths := by
    rw [map_ite hpath]
    exact t.paths

/-- `UPDATE files SET canonical_path=path, … WHERE id=?`; a path that is taken is refused. -/
def moveTo (t : FileTable) (id : ℕ) (path : String) (f : FileRow → FileRow) (hid : ∀ r, (f r).id = r.id)
    (hpath : ∀ r, (f r).canonicalPath = path) : FileTable :=
  if h : t.byPath path = none then
    { rows := t.rows.map fun r => if r.id = id then f r else r
      ids := by
        rw [map_ite hid]
        exact t.ids
      paths := by
        rw [List.map_map]
        refine List.Nodup.map_on ?_ (List.Nodup.of_map _ t.ids)
        intro r hr s hs heq
        simp only [Function.comp] at heq
        split_ifs at heq with hrid hsid hsid
        · exact List.inj_on_of_nodup_map t.ids hr hs (hrid.trans hsid.symm)
        · exact absurd (heq.symm.trans (hpath r)) (byPath_eq_none.mp h s hs)
        · exact absurd (heq.trans (hpath s)) (byPath_eq_none.mp h r hr)
        · exact List.inj_on_of_nodup_map t.paths hr hs heq }
  else t

end FileTable

/-! ### What belongs to a file -/

/-- A row of `evidence`; `type` is `NULL` for "looked it up, nothing there". -/
structure EvidenceRow where
  /-- The row id. -/
  id : ℕ
  /-- The file. -/
  fileId : ℕ
  /-- The source it is stored under. -/
  source : Source
  /-- The lookup key. -/
  origin : String
  /-- The candidate's own origin. -/
  label : String
  /-- The segment type. -/
  type : Option MarkerType
  /-- The start. -/
  startMs : Option ℤ
  /-- The end. -/
  endMs : Option ℤ
  /-- The confidence; SQLite stores not-a-number as `NULL`. -/
  confidence : Option PyFloat
  /-- Shown with the row. -/
  detail : String
  /-- When it was fetched. -/
  fetchedAt : String

/-- A row of `evidence_versions`. -/
structure EvidenceVersion where
  /-- The file. -/
  fileId : ℕ
  /-- The source. -/
  source : Source
  /-- The lookup key. -/
  origin : String
  /-- The version the answer was made with. -/
  version : ℤ

/-- A row of `markers`. -/
structure MarkerRow where
  /-- The file. -/
  fileId : ℕ
  /-- The segment type. -/
  type : MarkerType
  /-- The start. -/
  startMs : ℤ
  /-- The end. -/
  endMs : ℤ
  /-- The sources that decided it. -/
  decidedBy : List String
  /-- The user locked it. -/
  locked : Bool
  /-- When it was written. -/
  updatedAt : String
  /-- When the user locked it. -/
  lockedAt : Option String
  deriving DecidableEq

/-- `PRIMARY KEY (file_id, type)`. -/
def MarkerRow.key (r : MarkerRow) : ℕ × MarkerType := (r.fileId, r.type)

/-- A stored status: one of today's, or the one older rules left behind. -/
inductive StoredStatus where
  /-- A status of `decide()`'s. -/
  | of (status : DecisionStatus)
  /-- `LEGACY_NEEDS_REVIEW`. -/
  | needsReview
  deriving DecidableEq

/-- A row of `decisions`. -/
structure DecisionRow where
  /-- The file. -/
  fileId : ℕ
  /-- The segment type. -/
  type : MarkerType
  /-- The outcome. -/
  status : StoredStatus
  /-- Why. -/
  reason : String
  /-- The proposal's start. -/
  proposedStartMs : Option ℤ
  /-- The proposal's end. -/
  proposedEndMs : Option ℤ
  /-- The settings it was decided with. -/
  settingsFingerprint : String
  /-- When. -/
  decidedAt : String
  /-- The proposal's sources. -/
  decidedBy : List String
  deriving DecidableEq

/-- `PRIMARY KEY (file_id, type)`. -/
def DecisionRow.key (r : DecisionRow) : ℕ × MarkerType := (r.fileId, r.type)

/-- A row of `fingerprints`. -/
structure FingerprintRow where
  /-- The file. -/
  fileId : ℕ
  /-- The window fingerprinted. -/
  window : String
  /-- Where the window starts. -/
  startS : ℚ
  /-- How long it is. -/
  lengthS : ℚ
  /-- The chromaprint algorithm. -/
  algorithm : ℤ
  /-- The points' bytes. -/
  points : List UInt8
  deriving DecidableEq

/-- `PRIMARY KEY (file_id, window)`. -/
def FingerprintRow.key (r : FingerprintRow) : ℕ × String := (r.fileId, r.window)

/-- A row of `frame_rates`, with the identity it was read from. -/
structure FrameRateRow where
  /-- The file. -/
  fileId : ℕ
  /-- Its size when it was probed. -/
  size : ℤ
  /-- Its mtime then. -/
  mtimeNs : ℤ
  /-- The rate; `NULL`: it has none. -/
  frameRate : Option ℚ
  deriving DecidableEq

/-- A row of `season_pair_runs`: what the matcher found between two files. -/
structure PairRow where
  /-- The matcher's first file. -/
  fileA : ℕ
  /-- The second. -/
  fileB : ℕ
  /-- The version of the runs, which names the speeds. -/
  matcherVersion : ℤ
  /-- The runs. -/
  runs : List (ℚ × ℚ × ℚ × ℚ)
  deriving DecidableEq

/-- `PRIMARY KEY (file_a, file_b, matcher_version)`. -/
def PairRow.key (r : PairRow) : ℕ × ℕ × ℤ := (r.fileA, r.fileB, r.matcherVersion)

/-- `EndPictureKey`: the files and the stretch compared. -/
structure EndPictureKey where
  /-- The first file. -/
  fileA : ℕ
  /-- The second. -/
  fileB : ℕ
  /-- Where the first file's candidate starts. -/
  startMs : ℤ
  /-- Where it ends. -/
  endMs : ℤ
  /-- How much later it is in the second. -/
  offsetMs : ℤ
  deriving DecidableEq

/-- A row of `season_end_pictures`. -/
structure EndPictureRow where
  /-- What was compared. -/
  key : EndPictureKey
  /-- The check's version. -/
  checkVersion : ℤ
  /-- The share of matching frames; `NULL`: none could be compared. -/
  share : Option ℚ
  deriving DecidableEq

/-- A row of `detector_runs` or `detector_failures`. -/
structure DetectorRow where
  /-- The file. -/
  fileId : ℕ
  /-- The detector. -/
  source : Source
  /-- What the answer, or the failed attempt, was based on. -/
  signature : String
  /-- When. -/
  at_ : String

/-- `PRIMARY KEY (file_id, source)`. -/
def DetectorRow.key (r : DetectorRow) : ℕ × Source := (r.fileId, r.source)

/-- A row of `server_marker_rereads`. -/
structure RereadRow where
  /-- The file. -/
  fileId : ℕ
  /-- The server. -/
  serverId : String
  /-- How often it was read again without markers. -/
  rereads : ℕ
  /-- When Check servers last took the file. -/
  takenAt : Option String
  /-- When a re-read last failed. -/
  failedRereadAt : Option String

/-- A row of `replaced_decisions`: what an earlier identity at the path decided. -/
structure ReplacedDecision where
  /-- The file. -/
  fileId : ℕ
  /-- The segment type. -/
  type : MarkerType
  /-- Its marker's start; `NULL`: no marker. -/
  startMs : Option ℤ
  /-- Its marker's end. -/
  endMs : Option ℤ
  /-- The sources that decided it. -/
  decidedBy : List String
  /-- The replaced file's length. -/
  durationMs : ℤ
  /-- When it was last stored. -/
  seenAt : String

/-- A row of `replaced_versions`. -/
structure ReplacedVersions where
  /-- The file. -/
  fileId : ℕ
  /-- The segment type. -/
  type : MarkerType
  /-- The `seen_at` of the row it goes with. -/
  seenAt : String
  /-- The answer version of each deciding source. -/
  versions : List (String × ℤ)

/-- A row of a table that is only cleared with its file: the file and the rest of the key. -/
structure OwnedRow where
  /-- The file. -/
  fileId : ℕ
  /-- The rest of the key. -/
  detail : String
  deriving DecidableEq

/-! ### What belongs to a path -/

/-- `_IDENTITY_FAILURE_TABLES`. -/
inductive FailureTable where
  | memberProbeFailures
  | memberFingerprintFailures
  | creditsTextTimeouts
  | endPictureFailures
  deriving DecidableEq

/-- A row of one: a file a step couldn't read, with the identity it had. -/
structure FailureRow where
  /-- The path. -/
  canonicalPath : String
  /-- The size it had. -/
  size : ℤ
  /-- The mtime it had. -/
  mtimeNs : ℤ
  /-- When. -/
  failedAt : String

/-! ### The database -/

/-- `markers.db`. -/
structure Db where
  /-- `files`. -/
  files : FileTable
  /-- `evidence`. -/
  evidence : Table EvidenceRow EvidenceRow.id
  /-- `evidence_versions`. -/
  evidenceVersions : Table EvidenceVersion fun r => (r.fileId, r.source, r.origin)
  /-- `fingerprints`. -/
  fingerprints : Table FingerprintRow FingerprintRow.key
  /-- `markers`. -/
  markers : Table MarkerRow MarkerRow.key
  /-- `decisions`. -/
  decisions : Table DecisionRow DecisionRow.key
  /-- `server_kinds`. -/
  serverKinds : Table OwnedRow id
  /-- `publish_basis`. -/
  publishBasis : Table OwnedRow id
  /-- `detector_runs`. -/
  detectorRuns : Table DetectorRow DetectorRow.key
  /-- `detector_failures`. -/
  detectorFailures : Table DetectorRow DetectorRow.key
  /-- `intro_chapter_limits`. -/
  introChapterLimits : Table OwnedRow id
  /-- `server_marker_rereads`. -/
  serverMarkerRereads : Table RereadRow fun r => (r.fileId, r.serverId)
  /-- `frame_rates`. -/
  frameRates : Table FrameRateRow FrameRateRow.fileId
  /-- `version_reruns`. -/
  versionReruns : Table OwnedRow id
  /-- `season_pair_runs`. -/
  seasonPairRuns : Table PairRow PairRow.key
  /-- `season_end_pictures`. -/
  seasonEndPictures : Table EndPictureRow EndPictureRow.key
  /-- `replaced_decisions`. -/
  replacedDecisions : Table ReplacedDecision fun r => (r.fileId, r.type)
  /-- `replaced_versions`. -/
  replacedVersions : Table ReplacedVersions fun r => (r.fileId, r.type)
  /-- The tables of `_IDENTITY_FAILURE_TABLES`. -/
  failures : FailureTable → Table FailureRow FailureRow.canonicalPath
  /-- `meta`. -/
  metaRows : Table (String × String) Prod.fst

/-- A new store. -/
def Db.empty : Db :=
  ⟨.empty, .empty, .empty, .empty, .empty, .empty, .empty, .empty, .empty, .empty, .empty, .empty, .empty, .empty, .empty,
    .empty, .empty, .empty, fun _ => .empty, .empty⟩

/-- Whether a row of `files` has this id: what `foreign_keys` asks of an insert. -/
def Db.hasFile (db : Db) (fileId : ℕ) : Bool := (db.files.byId fileId).isSome

end MediaPreview.Store
