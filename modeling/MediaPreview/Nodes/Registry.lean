import Mathlib.Algebra.Order.Ring.Unbundled.Rat
import Mathlib.Data.Option.Basic

/-!
# The node registry's live records

What `nodes/registry.py` keeps of each configured node, and what each block under the registry's lock makes of it: a
changed settings record (`Live.merge`), a health check's answer (`Live.answer`), a new id settled (`Live.settle`), a
report (`Live.report`), and whether Plex database work is held (`Live.plexDbHold`). The texts shown to the user are left
out; why work is held is `PlexDbHold`.
-/

namespace MediaPreview.Nodes

/-- A stored node record. -/
structure NodeRecord where
  /-- `id`. -/
  id : String
  /-- `url`. -/
  url : String
  /-- `key`. -/
  key : String
  /-- `node_uid`. -/
  nodeUid : Option String
  /-- `enabled`. -/
  enabled : Bool
  /-- `path_mappings`. -/
  pathMappings : List (String × String)
  deriving DecidableEq, Repr

/-- The saved id, empty where there is none. -/
def NodeRecord.uid (r : NodeRecord) : String := r.nodeUid.getD ""

/-- What a check found (`probe_state`). -/
inductive ProbeState where
  | connecting | ready | offline | updateNeeded | keyRefused | noFfmpeg | tempProblem | duplicate
  deriving DecidableEq, Repr

/-- What one health check found. -/
structure Outcome where
  /-- `state`. -/
  state : ProbeState
  /-- `uid`. -/
  uid : String
  /-- `info`: the Plex machine identifier it names, empty where it names none. -/
  info : Option String
  /-- `legacy`. -/
  legacy : Bool
  /-- `restarting`. -/
  restarting : Bool
  deriving DecidableEq, Repr

/-- The Plex machine identifier of an answer. -/
def Outcome.machine (o : Outcome) : String := o.info.getD ""

/-- How far a check is. -/
inductive CheckPhase where
  /-- It asks the node. -/
  | probing
  /-- Its answer was applied, and names a new id. -/
  | answered (outcome : Outcome)
  /-- Whether the id may replace the saved one, and the servers that was weighed with. -/
  | weighed (outcome : Outcome) (confirmed : Option Bool) (served : List String)
  /-- All that is left is its `finally`. -/
  | done
  deriving DecidableEq

/-- A check's answer was applied, and a new id is still to be settled. -/
def CheckPhase.settling : CheckPhase → Bool
  | .answered _ => true
  | .weighed _ _ _ => true
  | _ => false

/-- A health check that holds the node's `check_lock`. -/
structure Check where
  /-- `number`. -/
  number : ℕ
  /-- The record it started from. -/
  record : NodeRecord
  /-- The client it asks. -/
  client : ℕ
  /-- How far it is. -/
  phase : CheckPhase
  /-- It began after the last report. -/
  sinceReport : Bool
  deriving DecidableEq

/-- A new id that was accepted. -/
structure Acceptance where
  /-- The id. -/
  uid : String
  /-- The id saved then. -/
  inPlaceOf : String
  /-- The Plex of each server that used the node. -/
  served : List String
  /-- The Plex the answer named. -/
  machine : String
  deriving DecidableEq

/-- A node's live record. -/
structure Live where
  /-- Which object it is. -/
  serial : ℕ
  /-- `record`. -/
  record : NodeRecord
  /-- `client`. -/
  client : ℕ
  /-- `probe_state`. -/
  probeState : ProbeState
  /-- `info`: the Plex machine identifier in it. -/
  machine : String
  /-- `offline_streak`. -/
  offlineStreak : ℕ
  /-- `next_check`. -/
  nextCheck : ℚ
  /-- `restarting_since`. -/
  restartingSince : Option ℚ
  /-- `key_refused_at`. -/
  keyRefusedAt : Option ℚ
  /-- `checking`. -/
  checking : Bool
  /-- There is an `access_problem`. -/
  accessProblem : Bool
  /-- `unconfirmed_uid`. -/
  unconfirmedUid : String
  /-- `untied_uid`. -/
  untiedUid : String
  /-- `heard_uid`. -/
  heardUid : Option String
  /-- The check that holds `check_lock`. -/
  check : Option Check
  /-- `checks_begun`. -/
  checksBegun : ℕ
  /-- `ready_check`. -/
  readyCheck : ℕ
  /-- `reported_at_check`. -/
  reportedAtCheck : ℕ
  /-- The id the last check applied since the address or key changed heard. -/
  lastHeard : Option String
  /-- The new id accepted last. -/
  accepted : Option Acceptance
  deriving DecidableEq

/-- `HEALTH_INTERVAL_S`. -/
def healthIntervalS : ℚ := 30

/-- `OFFLINE_BACKOFF_S`. -/
def offlineBackoffS : List ℚ := [30, 60, 120, 300]

/-- `WAITING_RECHECK_S`. -/
def waitingRecheckS : ℚ := 15

/-- `RESTART_RECHECK_S`. -/
def restartRecheckS : ℚ := 3

/-- `RESTART_WINDOW_S`. -/
def restartWindowS : ℚ := 120

/-- `KEY_REFUSED_RECHECK_S`. -/
def keyRefusedRecheckS : ℚ := 10

/-- `_beside_their_plex`. -/
def besideTheirPlex (served : List String) (machine : String) : Bool :=
  machine ≠ "" && served.all fun ours => ours = machine

/-- `_new_uid_confirmed`, with the servers read, if they were. -/
def newUidConfirmed (record : NodeRecord) (served : Option (List String)) (o : Outcome) : Option Bool :=
  if record.uid = "" then some true
  else served.map fun served => served = [] || besideTheirPlex served o.machine

/-- Why Plex database work is held. -/
inductive PlexDbHold where
  /-- The machine is another node. -/
  | duplicate
  /-- It reports a new id. -/
  | newId
  /-- It is still to be checked: the work waits. -/
  | checking
  /-- It answers with no id. -/
  | noId
  /-- It answers with no id, and is not ready. -/
  | notReady
  deriving DecidableEq, Repr

namespace Live

/-- A new node's. -/
def new (k : ℕ) (record : NodeRecord) : Live where
  serial := k
  record := record
  client := k
  probeState := .connecting
  machine := ""
  offlineStreak := 0
  nextCheck := 0
  restartingSince := none
  keyRefusedAt := none
  checking := false
  accessProblem := false
  unconfirmedUid := ""
  untiedUid := ""
  heardUid := none
  check := none
  checksBegun := 0
  readyCheck := 0
  reportedAtCheck := 0
  lastHeard := none
  accepted := none

/-- Another address or key. -/
def addressChanged (live : Live) (record : NodeRecord) : Bool :=
  (live.record.url, live.record.key) ≠ (record.url, record.key)

/-- Another saved id. -/
def uidChanged (live : Live) (record : NodeRecord) : Bool := live.record.nodeUid ≠ record.nodeUid

/-- The node is switched on. -/
def enabledNow (live : Live) (record : NodeRecord) : Bool := record.enabled && !live.record.enabled

/-- `_merge`, for a node that was there. -/
def merge (k : ℕ) (live : Live) (record : NodeRecord) : Live :=
  let reconnect := live.addressChanged record || live.record.pathMappings ≠ record.pathMappings ||
    live.enabledNow record
  let restored := live.uidChanged record && record.uid ≠ "" && live.heardUid ≠ some record.uid
  let unheard := live.addressChanged record || restored || live.enabledNow record
  { live with
    record := record
    client := if live.addressChanged record then k else live.client
    probeState := if reconnect then .connecting else live.probeState
    offlineStreak := if reconnect then 0 else live.offlineStreak
    nextCheck := if unheard || reconnect then 0 else live.nextCheck
    accessProblem := !reconnect && live.accessProblem
    unconfirmedUid := if live.addressChanged record || live.uidChanged record then "" else live.unconfirmedUid
    heardUid := if unheard then none else live.heardUid
    lastHeard := if live.addressChanged record then none else live.lastHeard }

/-- A check begins, with the record and client it started from. -/
def begin (live : Live) (record : NodeRecord) (client : ℕ) : Live :=
  { live with
    checksBegun := live.checksBegun + 1
    check := some ⟨live.checksBegun + 1, record, client, .probing, true⟩ }

/-- The check is as far as this. -/
def setPhase (live : Live) (phase : CheckPhase) : Live :=
  { live with check := live.check.map fun c => { c with phase := phase } }

/-- `_apply`: how long until the next check, the streak of failed ones and since when it restarts. -/
def delay (live : Live) (o : Outcome) (now : ℚ) : ℚ × ℕ × Option ℚ :=
  let since := if o.restarting then live.restartingSince.or (some now) else live.restartingSince
  if o.state = .offline then
    if since.any fun t => now - t < restartWindowS then (restartRecheckS, 0, since)
    else (offlineBackoffS.getD (min (live.offlineStreak + 1) offlineBackoffS.length - 1) 0, live.offlineStreak + 1, none)
  else (healthIntervalS, 0, none)

/-- `_apply`. -/
def apply (live : Live) (o : Outcome) (number : ℕ) (now : ℚ) : Live :=
  let d := live.delay o now
  { live with
    probeState := o.state
    heardUid := if o.state = .offline ∧ o.uid = "" then none else live.heardUid
    restartingSince := d.2.2
    offlineStreak := d.2.1
    readyCheck := if o.state = .ready then number else live.readyCheck
    keyRefusedAt := if o.state = .keyRefused then some now else live.keyRefusedAt
    nextCheck := if number ≤ live.reportedAtCheck ∧ o.state ≠ .keyRefused then 0 else now + d.1
    machine := if o.info.isSome || o.legacy then o.machine else live.machine }

/-- A check's answer goes through: it is about this address, and was weighed against this id. -/
def current (live : Live) (c : Check) : Bool := live.client = c.client && live.record.nodeUid = c.record.nodeUid

/-- The answer names an id that is neither saved nor another node's. -/
def isNew (live : Live) (twin : Bool) (o : Outcome) : Bool := o.uid ≠ "" && !twin && live.record.nodeUid ≠ some o.uid

/-- What a check's answer is, if the id is another node's. -/
def seenAs (twin : Bool) (o : Outcome) : Outcome := if twin then { o with state := .duplicate } else o

/-- `_run_check`, once its answer is there and goes through. -/
def answer (live : Live) (c : Check) (twin : Bool) (o : Outcome) (now : ℚ) : Live :=
  let o := seenAs twin o
  let new := live.isNew twin o
  let applied := live.apply o c.number now
  { applied with
    heardUid :=
      if new || twin then none
      else if o.uid ≠ "" || o.state ≠ .offline then some o.uid
      else applied.heardUid
    unconfirmedUid :=
      if !new && o.uid ≠ "" && live.record.uid ≠ "" && o.uid ≠ live.untiedUid then
        if live.record.nodeUid = some o.uid then "" else o.uid
      else live.unconfirmedUid
    check := some { c with phase := if new then .answered o else .done }
    lastHeard := some o.uid }

/-- `_new_uid`, once the servers were read. -/
def settle (live : Live) (c : Check) (o : Outcome) (confirmed : Option Bool) (served : List String) (now : ℚ) : Live :=
  if live.record.nodeUid ≠ c.record.nodeUid then { live with nextCheck := 0 }
  else
    match confirmed with
    | none => { live with nextCheck := min live.nextCheck (now + waitingRecheckS) }
    | some true =>
      { live with
        unconfirmedUid := ""
        heardUid := some o.uid
        untiedUid := if c.record.uid = "" then "" else o.uid
        accepted := some ⟨o.uid, c.record.uid, served, o.machine⟩ }
    | some false => { live with unconfirmedUid := o.uid }

/-- The id is recorded next. -/
def records (live : Live) (c : Check) (confirmed : Option Bool) : Bool :=
  live.record.nodeUid = c.record.nodeUid && confirmed = some true

/-- `report_unavailable`. -/
def report (live : Live) (now : ℚ) : Live :=
  { live with
    reportedAtCheck := live.checksBegun
    heardUid := none
    nextCheck :=
      if live.probeState = .keyRefused ∧ live.keyRefusedAt.any (fun t => now - t < keyRefusedRecheckS) then live.nextCheck
      else 0
    check := live.check.map fun c => { c with sinceReport := false } }

/-- `checked_ready_since_unavailable`. -/
def checkedReady (live : Live) : Bool :=
  live.record.enabled && live.probeState = .ready && !live.accessProblem && live.reportedAtCheck < live.readyCheck

/-- An id is still to be tied to the Plex of the servers using the node, and is the saved one. -/
def untied (live : Live) : Bool := live.untiedUid ≠ "" && live.record.nodeUid = some live.untiedUid

/-- `_tie_new_uid`, once the servers were read. -/
def tie (live : Live) (tied : Bool) : Live :=
  if tied then
    { live with
      untiedUid := ""
      unconfirmedUid := if live.unconfirmedUid = live.untiedUid then "" else live.unconfirmedUid }
  else { live with unconfirmedUid := live.untiedUid }

/-- What `plex_db_hold` finds, with the tie decided or not. -/
def plexDbHold (live : Live) (tieDecided : Bool) : Option PlexDbHold :=
  if live.probeState = .duplicate then some .duplicate
  else if live.unconfirmedUid ≠ "" then some .newId
  else if !tieDecided then some .checking
  else if live.record.uid = "" || live.heardUid.getD "" ≠ "" then none
  else if live.heardUid = some "" then if live.probeState = .ready then some .noId else some .notReady
  else some .checking

end Live

/-- The first node with this id gets the uid. -/
def setUid (id uid : String) : List NodeRecord → List NodeRecord
  | [] => []
  | n :: nodes => if n.id = id then { n with nodeUid := some uid } :: nodes else n :: setUid id uid nodes

/-- `_default_record_uid`. -/
def recordUid (nodes : List NodeRecord) (id uid url : String) : List NodeRecord :=
  match nodes.find? fun n => n.id = id with
  | none => nodes
  | some node =>
    if node.nodeUid = some uid ∨ node.url ≠ url then nodes
    else if nodes.any fun other => other.nodeUid = some uid && other.id ≠ id then nodes
    else setUid id uid nodes

end MediaPreview.Nodes
