import MediaPreview.Store.Files
import MediaPreview.Store.Decisions

/-!
# Runs of the store

The store's operations as one step relation. Every operation is a transaction (`BEGIN
IMMEDIATE` under the store's lock), so threads that share the store interleave whole
operations; one that raises leaves the database as it was. `upsert_file` alone makes two
transactions: `upsertFile` is a call no other operation came between, and `storeFile` the second
transaction of a call whose first found nothing to touch, whatever was committed since.
-/

namespace MediaPreview.Store

open Binary64 Markers

/-- An operation, with its arguments and, where it reads the clock, the time. -/
inductive Op where
  | upsertFile (f : FileFacts) (now : String)
  | storeFile (f : FileFacts) (now : String)
  | recordMember (m : MemberFacts) (now : String)
  | moveFile (fileId : ℕ) (oldPath newPath : String)
  | markMissing (record : FileRecord) (now : String)
  | clearMissing (fileId : ℕ)
  | replaceEvidence (fileId : ℕ) (source : Source) (candidates : List Candidate) (origin detail : String)
      (version : Option ℤ) (alsoReplaces : List Source) (now : String)
  | replaceDetectorAnswer (fileId : ℕ) (answers : List (Source × List Candidate)) (version : ℤ)
      (run : Option (Source × String)) (now : String)
  | saveDecisions (fileId : ℕ) (decisions : List (MarkerType × TypeDecision)) (settingsFingerprint now : String)
  | lockMarker (fileId : ℕ) (marker : Marker) (now : String)
  | saveUserMarkers (fileId : ℕ) (markers : List Marker) (settingsFingerprint now : String)
  | unlockMarkers (fileId : ℕ) (types : List MarkerType) (now : String)
  | setFingerprint (row : FingerprintRow) (identity : ℤ × ℤ)
  | setFrameRate (fileId : ℕ) (frameRate : Option ℚ) (identity : ℤ × ℤ)
  | setSeasonPair (row : PairRow) (identityA identityB : ℤ × ℤ)
  | setEndPicture (row : EndPictureRow) (identityA identityB : ℤ × ℤ)
  | finishFingerprintChecks (checkedUpTo : ℕ) (gone : List FingerprintCheck)

/-- The database after an operation. -/
def step (db : Db) : Op → Db
  | .upsertFile f now => (upsertFile db f now).2
  | .storeFile f now => (storeFile db f now).2
  | .recordMember m now => (recordMember db m now).2
  | .moveFile fileId oldPath newPath => (moveFile db fileId oldPath newPath).2
  | .markMissing record now => (markMissing db record now).2
  | .clearMissing fileId => (clearMissing db fileId).2
  | .replaceEvidence fileId source candidates origin detail version alsoReplaces now =>
    (replaceEvidence db fileId source candidates origin detail version alsoReplaces now).getD db
  | .replaceDetectorAnswer fileId answers version run now =>
    (replaceDetectorAnswer db fileId answers version run now).getD db
  | .saveDecisions fileId decisions settingsFingerprint now =>
    (saveDecisions db fileId decisions settingsFingerprint now).getD db
  | .lockMarker fileId marker now => (lockMarker db fileId marker now).getD db
  | .saveUserMarkers fileId markers settingsFingerprint now =>
    ((saveUserMarkers db fileId markers settingsFingerprint now).map Prod.snd).getD db
  | .unlockMarkers fileId types now => (unlockMarkers db fileId types now).2
  | .setFingerprint row identity => (setFingerprint db row identity).2
  | .setFrameRate fileId frameRate identity => (setFrameRate db fileId frameRate identity).2
  | .setSeasonPair row identityA identityB => (setSeasonPair db row identityA identityB).2
  | .setEndPicture row identityA identityB => (setEndPicture db row identityA identityB).2
  | .finishFingerprintChecks checkedUpTo gone => (finishFingerprintChecks db checkedUpTo gone).2

/-- The database after a run. -/
def run (db : Db) (ops : List Op) : Db := ops.foldl step db

@[simp] theorem run_nil (db : Db) : run db [] = db := rfl

@[simp] theorem run_cons (db : Db) (op : Op) (ops : List Op) : run db (op :: ops) = run (step db op) ops := rfl

/-- **Runs keep what steps keep.** -/
theorem run_invariant {P : Db → Prop} {Q : Op → Prop} (hstep : ∀ db op, Q op → P db → P (step db op))
    {db : Db} (h : P db) (ops : List Op) (hops : ∀ op ∈ ops, Q op) : P (run db ops) := by
  induction ops generalizing db with
  | nil => exact h
  | cons op ops ih =>
    exact ih (hstep db op (hops op (.head _)) h) fun o ho => hops o (.tail _ ho)

end MediaPreview.Store
