import MediaPreview.Store.Schema

/-!
# Decisions, markers and locks

`save_decisions`, `lock_marker`, `save_user_markers` and `unlock_markers` (`markers/store.py`).
Detection writes a marker only where the user locked none; a lock is written by the user's
operations alone. A decision row says what detection found, or that the user locked the type.
-/

namespace MediaPreview.Store

open Markers

/-- `LOCKED_BY_USER`. -/
def lockedByUser : String := "locked by user"

/-- `UNLOCKED_PENDING`. -/
def unlockedPending : String := "unlocked; the next run decides this type again"

/-- Whether the user locked a type of a file. -/
def Db.lockedType (db : Db) (fileId : ℕ) (type : MarkerType) : Bool :=
  db.markers.any fun m => m.fileId = fileId ∧ m.type = type ∧ m.locked

/-- The decision row of a type `decide()` decided. -/
def decisionRow (fileId : ℕ) (type : MarkerType) (d : TypeDecision) (settingsFingerprint now : String) : DecisionRow where
  fileId := fileId
  type := type
  status := .of d.status
  reason := d.reason
  proposedStartMs := d.proposed.map (·.startMs)
  proposedEndMs := d.proposed.map (·.endMs)
  settingsFingerprint := settingsFingerprint
  decidedAt := now
  decidedBy := (d.proposed.map (·.decidedBy)).getD []

/-- One type of `save_decisions`. -/
def saveDecision (fileId : ℕ) (settingsFingerprint now : String) (db : Db) (e : MarkerType × TypeDecision) : Db :=
  let decisions := db.decisions.put (decisionRow fileId e.1 e.2 settingsFingerprint now)
  if db.lockedType fileId e.1 then { db with decisions := decisions }
  else
    match e.2.status, e.2.marker with
    | .decided, some m =>
      { db with
        decisions := decisions
        markers := db.markers.put ⟨fileId, e.1, m.startMs, m.endMs, m.decidedBy, false, now, none⟩ }
    | _, _ =>
      { db with
        decisions := decisions
        markers := db.markers.delete fun m => m.fileId = fileId ∧ m.type = e.1 ∧ !m.locked }

/-- `save_decisions`. -/
def saveDecisions (db : Db) (fileId : ℕ) (decisions : List (MarkerType × TypeDecision))
    (settingsFingerprint now : String) : Option Db :=
  if decisions = [] ∨ db.hasFile fileId then some (decisions.foldl (saveDecision fileId settingsFingerprint now) db)
  else none

/-- `_write_lock`. -/
def writeLock (db : Db) (fileId : ℕ) (m : Marker) (now : String) : Db :=
  { db with markers := db.markers.put ⟨fileId, m.type, m.startMs, m.endMs, m.decidedBy, true, now, some now⟩ }

/-- `lock_marker`. -/
def lockMarker (db : Db) (fileId : ℕ) (m : Marker) (now : String) : Option Db :=
  if db.hasFile fileId then some (writeLock db fileId m now) else none

/-- A decision row with a status and a reason and nothing proposed. -/
def bareDecision (fileId : ℕ) (type : MarkerType) (status : DecisionStatus)
    (reason settingsFingerprint now : String) : DecisionRow where
  fileId := fileId
  type := type
  status := .of status
  reason := reason
  proposedStartMs := none
  proposedEndMs := none
  settingsFingerprint := settingsFingerprint
  decidedAt := now
  decidedBy := []

/-- `{m.type: m for m in markers}`: one marker a type, a repeated type keeps the last. -/
def byType : List Marker → List Marker
  | [] => []
  | m :: ms => if ms.any fun n => n.type = m.type then byType ms else m :: byType ms

/-- One marker of `save_user_markers`. -/
def saveUserMarker (fileId : ℕ) (settingsFingerprint now : String) (db : Db) (m : Marker) : Db :=
  let locked := writeLock db fileId m now
  { locked with
    decisions :=
      db.decisions.put (bareDecision fileId m.type .decided lockedByUser settingsFingerprint now) }

/-- `save_user_markers`, with the locked markers as stored. -/
def saveUserMarkers (db : Db) (fileId : ℕ) (markers : List Marker) (settingsFingerprint now : String) :
    Option (List Marker × Db) :=
  if markers = [] ∨ db.hasFile fileId then
    let saved := (byType markers).map fun m => { m with locked := true }
    some (saved, saved.foldl (saveUserMarker fileId settingsFingerprint now) db)
  else none

/-- One type of `unlock_markers`. -/
def unlockType (fileId : ℕ) (now : String) (acc : List MarkerType × Db) (type : MarkerType) : List MarkerType × Db :=
  if acc.2.lockedType fileId type then
    (acc.1 ++ [type], { acc.2 with
      markers := acc.2.markers.delete fun m => m.fileId = fileId ∧ m.type = type ∧ m.locked
      decisions := acc.2.decisions.put (bareDecision fileId type .noEvidence unlockedPending "" now) })
  else acc

/-- `unlock_markers`, with the types that were locked. -/
def unlockMarkers (db : Db) (fileId : ℕ) (types : List MarkerType) (now : String) : List MarkerType × Db :=
  types.foldl (unlockType fileId now) ([], db)

end MediaPreview.Store
