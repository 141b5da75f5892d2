import MediaPreview.Store.Schema

/-!
# The season caches

Fingerprints, frame rates, the matcher's runs between two files and the end-picture shares
(`markers/store.py`). Each is worked out from a file outside any transaction and stored with the
identity the file had then; a setter that finds another identity in the file's row stores
nothing.
-/

namespace MediaPreview.Store

/-- `SEASON_PAIR_WINDOW`. -/
def seasonPairWindow : String := "intro"

/-- `PAIR_VERSION_STEP`. -/
def pairVersionStep : ℤ := 1000

/-- The size and mtime of a file's row. -/
def Db.identityOf (db : Db) (fileId : ℕ) : Option (ℤ × ℤ) := (db.files.byId fileId).map (·.identity)

/-- The pairs without a file's. -/
def Db.pairsWithout (db : Db) (fileId : ℕ) : Table PairRow PairRow.key :=
  db.seasonPairRuns.delete fun r => r.fileA = fileId ∨ r.fileB = fileId

/-- The end pictures without a file's. -/
def Db.picturesWithout (db : Db) (fileId : ℕ) : Table EndPictureRow EndPictureRow.key :=
  db.seasonEndPictures.delete fun r => r.key.fileA = fileId ∨ r.key.fileB = fileId

/-- Whether a file has a fingerprint of a window. -/
def Db.hasFingerprint (db : Db) (fileId : ℕ) (window : String) : Bool :=
  db.fingerprints.any fun r => r.fileId = fileId ∧ r.window = window

/-- `set_fingerprint`, of a fingerprint computed from the file with an identity. -/
def setFingerprint (db : Db) (row : FingerprintRow) (identity : ℤ × ℤ) : Bool × Db :=
  if db.identityOf row.fileId ≠ some identity then (false, db)
  else
    (true, { db with
      seasonPairRuns :=
        if db.hasFingerprint row.fileId row.window then db.pairsWithout row.fileId else db.seasonPairRuns
      fingerprints := db.fingerprints.put row })

/-- `_write_frame_rate`. -/
def writeFrameRate (db : Db) (row : FrameRateRow) : Db :=
  { db with
    seasonPairRuns :=
      if (db.frameRates.get? fun r => r.fileId = row.fileId) = some row then db.seasonPairRuns
      else db.pairsWithout row.fileId
    frameRates := db.frameRates.put row }

/-- `set_frame_rate`. -/
def setFrameRate (db : Db) (fileId : ℕ) (frameRate : Option ℚ) (identity : ℤ × ℤ) : Bool × Db :=
  if db.identityOf fileId ≠ some identity then (false, db)
  else (true, writeFrameRate db ⟨fileId, identity.1, identity.2, frameRate⟩)

/-- `set_season_pair`. -/
def setSeasonPair (db : Db) (row : PairRow) (identityA identityB : ℤ × ℤ) : Bool × Db :=
  let rows := db.files.rows.filter fun f =>
    (f.id = row.fileA ∨ f.id = row.fileB) ∧ db.hasFingerprint f.id seasonPairWindow
  let matched := fun id => if id = row.fileB then identityB else identityA
  if rows.length ≠ 2 ∨ rows.any fun f => f.identity ≠ matched f.id then (false, db)
  else
    (true, { db with
      seasonPairRuns :=
        (db.seasonPairRuns.delete fun r => r.fileA = row.fileA ∧ r.fileB = row.fileB ∧
          r.matcherVersion.tmod pairVersionStep ≠ row.matcherVersion.fmod pairVersionStep).put row })

/-- `set_end_picture`. -/
def setEndPicture (db : Db) (row : EndPictureRow) (identityA identityB : ℤ × ℤ) : Bool × Db :=
  let rows := db.files.rows.filter fun f => f.id = row.key.fileA ∨ f.id = row.key.fileB
  let decoded := fun id => if id = row.key.fileB then identityB else identityA
  if rows.length ≠ 2 ∨ rows.any fun f => f.identity ≠ decoded f.id then (false, db)
  else (true, { db with seasonEndPictures := db.seasonEndPictures.put row })

/-- `FingerprintCheck`: a file the cache sweep listed. -/
structure FingerprintCheck where
  /-- The file. -/
  fileId : ℕ
  /-- The path it was listed at. -/
  canonicalPath : String
  /-- Its size then. -/
  size : ℤ
  /-- Its mtime then. -/
  mtimeNs : ℤ

/-- Whether a file found gone is still as it was listed. -/
def Db.unchanged (db : Db) (check : FingerprintCheck) : Bool :=
  db.files.rows.any fun r =>
    r.id = check.fileId ∧ r.identity = (check.size, check.mtimeNs) ∧ r.canonicalPath = check.canonicalPath

/-- One file found gone: its caches go, unless the row has another identity or path now. -/
def dropCache (acc : ℕ × Db) (check : FingerprintCheck) : ℕ × Db :=
  if acc.2.unchanged check then
    (acc.1 + 1, { acc.2 with
      fingerprints := acc.2.fingerprints.delete fun r => r.fileId = check.fileId
      seasonPairRuns := acc.2.pairsWithout check.fileId
      seasonEndPictures := acc.2.picturesWithout check.fileId
      failures := fun table =>
        if table = .creditsTextTimeouts then acc.2.failures table
        else (acc.2.failures table).delete fun r => r.canonicalPath = check.canonicalPath })
  else acc

/-- `_FINGERPRINT_CHECKED_UP_TO`. -/
def fingerprintCheckedUpTo : String := "fingerprint_checked_up_to"

/-- `finish_fingerprint_checks`. -/
def finishFingerprintChecks (db : Db) (checkedUpTo : ℕ) (gone : List FingerprintCheck) : ℕ × Db :=
  gone.foldl dropCache (0, { db with metaRows := db.metaRows.put (fingerprintCheckedUpTo, toString checkedUpTo) })

end MediaPreview.Store
