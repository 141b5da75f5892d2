import Mathlib.Logic.Function.Basic
import MediaPreview.Lib.Runs
import MediaPreview.Nodes.Registry

/-!
# The registry at work

The node registry with the threads that use it: health checks (`_run_check`), requests that ask whether Plex database
work is held (`plex_db_hold`), reports, and the settings, which change at any time. Each block under the registry's lock
is one event, as is each read of the settings between two of them; `_sync` may find any list of records. A check holds
its node's `check_lock` until it ends.
-/

namespace MediaPreview.Nodes

/-- A check that waits for the lock: its node, the live record it found and what it copied of it. -/
structure Call where
  /-- `node_id`. -/
  node : String
  /-- The live record. -/
  serial : ℕ
  /-- `record`. -/
  record : NodeRecord
  /-- `client`. -/
  client : ℕ

/-- What a request's tie compared: the id, the Plex the answer held named, and that of each server using the node. -/
structure TieRead where
  /-- The id. -/
  uid : String
  /-- The Plex the answer held names. -/
  machine : String
  /-- The Plex of each server using the node. -/
  served : List String
  deriving DecidableEq

/-- How far a request is. -/
inductive AskPhase where
  /-- It reads the servers using the node. -/
  | reading (serial : ℕ) (uid machine : String)
  /-- It read them. -/
  | comparing (serial : ℕ) (read : TieRead)
  /-- Whether the tie is decided, and what it compared. -/
  | decided (tie : Bool) (read : Option TieRead)
  deriving DecidableEq

/-- What a request does with the servers it read. -/
def AskPhase.read (served : Option (List String)) (serial : ℕ) (uid machine : String) : AskPhase :=
  match served with
  | none => .decided false none
  | some [] => .decided true (some ⟨uid, machine, []⟩)
  | some served => .comparing serial ⟨uid, machine, served⟩

/-- A request in `plex_db_hold`. -/
structure Ask where
  /-- `node_id`. -/
  node : String
  /-- How far it is. -/
  phase : AskPhase
  /-- `waited`. -/
  waited : Bool
  /-- `started`. -/
  started : Bool
  /-- The node's saved id, address or key changed meanwhile, or a new id of it was settled. -/
  overtaken : Bool

/-- The registry, the settings and the threads at work. -/
structure Registry where
  /-- `_nodes`. -/
  lives : String → Option Live
  /-- The nodes' ids, in order. -/
  ids : List String
  /-- How often the settings were read. -/
  syncs : ℕ
  /-- The nodes stored in the settings. -/
  settings : List NodeRecord
  /-- `_served_plex_ids`; `none` where the settings can't be read. -/
  served : String → Option (List String)
  /-- Checks that wait for the lock. -/
  calls : ℕ → Option Call
  /-- Requests. -/
  asks : ℕ → Option Ask
  /-- New ids to be recorded: the node, the id and the address. -/
  recordings : List (String × String × String)
  /-- The node was reported, and no check begun since was applied. -/
  stale : String → Bool

/-- What happens. -/
inductive RegistryEvent where
  /-- The stored nodes change. -/
  | edit (settings : List NodeRecord)
  /-- The servers using a node change. -/
  | serve (id : String) (served : Option (List String))
  /-- `_sync`. -/
  | sync (records : List NodeRecord)
  /-- A check starts. -/
  | call (c : ℕ) (id : String)
  /-- It gets the lock. -/
  | begin (c : ℕ)
  /-- Its answer is applied, or dropped. -/
  | answer (id : String) (o : Outcome) (now : ℚ)
  /-- `_new_uid_confirmed`. -/
  | weigh (id : String)
  /-- The rest of `_new_uid`. -/
  | settle (id : String) (now : ℚ)
  /-- The check ends. -/
  | finish (id : String)
  /-- `_record_uid`, or its failure. -/
  | record (id uid url : String) (ok : Bool)
  /-- `report_unavailable`. -/
  | report (id : String) (now : ℚ)
  /-- `work_waiting`. -/
  | workWaiting (id : String) (now : ℚ)
  /-- An access problem is noted or cleared. -/
  | access (id : String) (problem : Bool)
  /-- A request starts. -/
  | ask (a : ℕ) (id : String)
  /-- It reads the servers using the node. -/
  | readServed (a : ℕ)
  /-- It ties the new id. -/
  | tie (a : ℕ)
  /-- It looks whether work is held, with time left to wait or not. -/
  | hold (a : ℕ) (now : ℚ) (left : Bool)

namespace Live

/-- `plex_db_hold` brings the next check forward, or starts it, once; and whether it started it. -/
def recheck (live : Live) (waited : Bool) (now : ℚ) : Live × Bool :=
  if live.checking || waited || !live.record.enabled then (live, false)
  else if live.nextCheck ≤ now then ({ live with checking := true }, true)
  else ({ live with nextCheck := min live.nextCheck (now + waitingRecheckS) }, false)

/-- `_tie_new_uid`, at the same live record with the same id still to be tied. -/
def tieIf (live : Live) (serial : ℕ) (read : TieRead) : Live :=
  if live.serial = serial ∧ live.untiedUid = read.uid ∧ live.record.nodeUid = some read.uid then
    live.tie (besideTheirPlex read.served read.machine)
  else live

/-- It waits for the check. -/
def waitsFor (live : Live) (hold : PlexDbHold) (started left : Bool) : Bool :=
  match hold with
  | .checking => live.checking && live.probeState = .connecting && left
  | _ => started && live.checking && left

end Live

namespace Registry

/-- A registry with nothing read yet. -/
def new (settings : List NodeRecord) (served : String → Option (List String)) : Registry where
  lives _ := none
  ids := []
  syncs := 0
  settings := settings
  served := served
  calls _ := none
  asks _ := none
  recordings := []
  stale _ := false

/-- A node's live record is changed. -/
def setLive (s : Registry) (id : String) (live : Live) : Registry :=
  { s with lives := Function.update s.lives id (some live) }

/-- A request is changed, or over. -/
def setAsk (s : Registry) (a : ℕ) (ask : Option Ask) : Registry := { s with asks := Function.update s.asks a ask }

/-- The requests at a node some change overtakes. -/
def overtake (s : Registry) (p : String → Bool) : ℕ → Option Ask := fun a =>
  (s.asks a).map fun ask => { ask with overtaken := ask.overtaken || p ask.node }

/-- `_merge`, or a new live record. -/
def merged (s : Registry) (record : NodeRecord) : Live :=
  match s.lives record.id with
  | none => .new s.syncs record
  | some live => live.merge s.syncs record

/-- A node's saved id, address or key is another after the settings were read, or the node is gone. -/
def replaced (s : Registry) (records : List NodeRecord) (id : String) : Bool :=
  match s.lives id, records.find? fun r => r.id = id with
  | some live, some r => live.addressChanged r || live.uidChanged r
  | _, _ => true

/-- `_sync`. -/
def sync (s : Registry) (records : List NodeRecord) : Registry :=
  { s with
    lives := fun id => if id = "" then none else (records.find? fun r => r.id = id).map s.merged
    ids := records.map NodeRecord.id
    syncs := s.syncs + 1
    asks := s.overtake (s.replaced records) }

/-- `_twin_of`: another node is saved with this id. -/
def twin (s : Registry) (id uid : String) : Bool :=
  uid ≠ "" && s.ids.any fun other => other ≠ id && (s.lives other).any fun live => live.record.nodeUid = some uid

/-- A check's answer at a node. -/
def answer (s : Registry) (id : String) (live : Live) (c : Check) (o : Outcome) (now : ℚ) : Registry :=
  if live.current c then
    { s.setLive id (live.answer c (s.twin id o.uid) o now) with
      stale := if c.sinceReport then Function.update s.stale id false else s.stale }
  else if live.client = c.client then s.setLive id ({ live with nextCheck := 0 }.setPhase .done)
  else s.setLive id (live.setPhase .done)

/-- A new id at a node is settled. -/
def settle (s : Registry) (id : String) (live : Live) (c : Check) (o : Outcome) (confirmed : Option Bool)
    (served : List String) (now : ℚ) : Registry :=
  { s.setLive id ((live.settle c o confirmed served now).setPhase .done) with
    recordings := if live.records c confirmed then (id, o.uid, c.record.url) :: s.recordings else s.recordings
    asks := s.overtake fun node => node = id }

/-- A request that starts: a new id that is saved and not tied yet is to be. -/
def newAsk (s : Registry) (id : String) : Ask where
  node := id
  phase :=
    match s.lives id with
    | none => .decided true none
    | some live => if live.untied then .reading live.serial live.untiedUid live.machine else .decided true none
  waited := false
  started := false
  overtaken := false

/-- A request ties the new id, if it still is the one. -/
def tie (s : Registry) (ask : Ask) (serial : ℕ) (read : TieRead) : Registry :=
  { s with lives := Function.update s.lives ask.node ((s.lives ask.node).map fun live => live.tieIf serial read) }

/-- A request looks whether work is held. -/
def hold (s : Registry) (a : ℕ) (ask : Ask) (tieDecided : Bool) (now : ℚ) (left : Bool) : Registry :=
  match s.lives ask.node with
  | none => s.setAsk a none
  | some live =>
    match live.plexDbHold tieDecided with
    | none => s.setAsk a none
    | some hold =>
      if hold = .duplicate ∨ hold = .checking ∧ tieDecided = false then s.setAsk a none
      else
        let r := live.recheck ask.waited now
        let started := ask.started || r.2
        (s.setLive ask.node r.1).setAsk a
          (if r.1.waitsFor hold started left then some { ask with waited := true, started := started } else none)

/-- One step. -/
def step (s : Registry) : RegistryEvent → Option Registry
  | .edit settings => some { s with settings := settings }
  | .serve id served => some { s with served := Function.update s.served id served }
  | .sync records => some (s.sync records)
  | .call c id =>
    match s.calls c, s.lives id with
    | none, some live =>
      some { s.setLive id { live with checking := true } with
        calls := Function.update s.calls c (some ⟨id, live.serial, live.record, live.client⟩) }
    | _, _ => none
  | .begin c =>
    match s.calls c with
    | none => none
    | some call =>
      match s.lives call.node with
      | none => some { s with calls := Function.update s.calls c none }
      | some live =>
        if live.serial ≠ call.serial then some { s with calls := Function.update s.calls c none }
        else if live.check.isSome then none
        else
          some { s.setLive call.node (live.begin call.record call.client) with
            calls := Function.update s.calls c none }
  | .answer id o now =>
    match s.lives id with
    | none => none
    | some live =>
      match live.check with
      | none => none
      | some c => if c.phase = .probing then some (s.answer id live c o now) else none
  | .weigh id =>
    match s.lives id with
    | none => none
    | some live =>
      match live.check with
      | none => none
      | some c =>
        match c.phase with
        | .answered o =>
          some (s.setLive id
            (live.setPhase (.weighed o (newUidConfirmed c.record (s.served id) o) ((s.served id).getD []))))
        | _ => none
  | .settle id now =>
    match s.lives id with
    | none => none
    | some live =>
      match live.check with
      | none => none
      | some c =>
        match c.phase with
        | .weighed o confirmed served => some (s.settle id live c o confirmed served now)
        | _ => none
  | .finish id =>
    match s.lives id with
    | none => none
    | some live =>
      match live.check with
      | none => none
      | some c => if c.phase = .done then some (s.setLive id { live with check := none, checking := false }) else none
  | .record id uid url ok =>
    if (id, uid, url) ∈ s.recordings then
      some { s with
        recordings := s.recordings.erase (id, uid, url)
        settings := if ok then recordUid s.settings id uid url else s.settings }
    else none
  | .report id now =>
    some { s with
      lives := Function.update s.lives id ((s.lives id).map fun live => live.report now)
      stale := Function.update s.stale id true }
  | .workWaiting id now =>
    some { s with
      lives := Function.update s.lives id ((s.lives id).map fun live =>
        if live.probeState = .offline ∧ now + waitingRecheckS < live.nextCheck then
          { live with nextCheck := now + waitingRecheckS }
        else live) }
  | .access id problem =>
    some { s with
      lives := Function.update s.lives id ((s.lives id).map fun live => { live with accessProblem := problem }) }
  | .ask a id =>
    match s.asks a with
    | some _ => none
    | none => some (s.setAsk a (some (s.newAsk id)))
  | .readServed a =>
    match s.asks a with
    | none => none
    | some ask =>
      match ask.phase with
      | .reading serial uid machine =>
        some (s.setAsk a (some { ask with phase := .read (s.served ask.node) serial uid machine }))
      | _ => none
  | .tie a =>
    match s.asks a with
    | none => none
    | some ask =>
      match ask.phase with
      | .comparing serial read =>
        some ((s.tie ask serial read).setAsk a (some { ask with phase := .decided true (some read) }))
      | _ => none
  | .hold a now left =>
    match s.asks a with
    | none => none
    | some ask =>
      match ask.phase with
      | .decided tieDecided _ => some (s.hold a ask tieDecided now left)
      | _ => none

end Registry

end MediaPreview.Nodes
