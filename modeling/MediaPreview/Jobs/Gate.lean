import MediaPreview.Lib.Ranking
import MediaPreview.Lib.Table
import Mathlib.Data.List.MinMax
import Mathlib.Data.Prod.Lex
import Mathlib.Data.String.Basic
import Mathlib.Logic.Function.Basic

/-!
# The gate on job start-up

At most `STARTUP_SLOTS` jobs start up at once. A job that has registered keeps its place in
the queue, by priority and then by when it was created; a thread that wants a slot waits
until the gate's heap has its entry before every other that could be admitted.

The gate's operations are the blocks the code runs under its condition's lock, one
function each. Three of them are parts of one call: `acquire` enters the queue, decides
again and again, and at last takes its entry away; a refresh copies the requests, asks the
jobs' policies without the lock, and merges the answers into what the table holds by then.

A heap is kept as the list of its entries, since the code only ever asks for the smallest
of some of them. An `object()` is the number of objects made before it.
-/

namespace MediaPreview.Jobs

/-- How many jobs may be starting up at once. -/
def STARTUP_SLOTS : ℕ := 3

/-- An `object()`. -/
abbrev Token := ℕ

/-- A place in the queue: when the job was created and its id, compared as text. -/
abbrev Order := String ×ₗ String

/-- `_Request`. The policy is what a refresh asks. -/
structure Request where
  /-- The job the request is registered for. -/
  jobId : String
  /-- The job's `created_at`. -/
  createdAt : String
  /-- `token`. -/
  token : Token
  /-- `priority`: smaller goes first. -/
  priority : ℤ
  /-- `kind`. -/
  kind : String
  /-- `owner`: the runner that claimed the request. -/
  owner : Option Token
  /-- `revision`: how often the request was changed. -/
  revision : ℕ
  /-- `ready`. -/
  ready : Bool
  /-- `preflight_complete`. -/
  preflightComplete : Bool
  /-- `preflight_waiting`. -/
  preflightWaiting : Bool

/-- `order`. -/
def Request.order (r : Request) : Order := toLex (r.createdAt, r.jobId)

/-- An entry of the heap. -/
structure Entry where
  /-- Its priority. -/
  priority : ℤ
  /-- Its place among those of one priority. -/
  order : Order
  /-- Whose entry it is. -/
  token : Token

/-- What entries are compared by. -/
def Entry.key (e : Entry) : ℤ ×ₗ Order := toLex (e.priority, e.order)

/-- `JobGate`. -/
structure Gate where
  /-- `_kind_limits`: the capacity last read of each kind, `none` where it is unlimited. -/
  kindLimits : String → Option (Option ℕ)
  /-- `_waiter_kinds`. -/
  waiterKinds : Token → Option (Option String)
  /-- `_active`. -/
  active : ℕ
  /-- `_heap`. -/
  heap : List Entry
  /-- `_seq`: callers that came without a request. -/
  seq : ℕ
  /-- `_requests`. -/
  requests : Table Request Request.jobId
  /-- `_refreshed_epoch`. -/
  refreshedEpoch : ℤ
  /-- `_policy_epoch`. -/
  policyEpoch : ℕ
  /-- How many objects there are. -/
  created : ℕ

/-- What a refresh copied: the epoch, and each queued request as it was. -/
structure Snapshot where
  /-- `epoch`. -/
  epoch : ℕ
  /-- `snapshots`. -/
  requests : List Request

/-- What came of asking a job's policy. -/
inductive Answer where
  /-- The job is over: the policy returned `None`. -/
  | terminal
  /-- The policy raised. -/
  | failed
  /-- Its priority and whether it is ready. -/
  | policy (priority : ℤ) (ready : Bool)

/-- The priority and the readiness an answer gives a request. -/
def Answer.read (r : Request) : Answer → ℤ × Bool
  | .terminal => (r.priority, false)
  | .failed => (r.priority, false)
  | .policy priority ready => (priority, ready)

/-- `f"{next(self._seq):020}"`. -/
def padded (n : ℕ) : String :=
  String.ofList (List.replicate (20 - (Nat.toDigits 10 n).length) '0' ++ Nat.toDigits 10 n)

theorem padded_injective : Function.Injective padded := by
  intro m n h
  have hread : ∀ k, Nat.ofDigitChars 10 (padded k).toList 0 = k := by
    intro k
    rw [padded, String.toList_ofList, Nat.ofDigitChars_append, Nat.ofDigitChars_replicate_zero, Nat.mul_zero,
      Nat.ofDigitChars_ten_toDigits]
  rw [← hread m, h, hread n]

namespace Gate

/-- A gate no job has come to. -/
def empty : Gate where
  kindLimits _ := none
  waiterKinds _ := none
  active := 0
  heap := []
  seq := 0
  requests := Table.empty
  refreshedEpoch := -1
  policyEpoch := 0
  created := 0

/-- The request with a token. -/
def requestOf (g : Gate) (token : Token) : Option Request := g.requests.get? (·.token = token)

/-- Every entry of a token taken off the heap. -/
def dropEntry (g : Gate) (token : Token) : List Entry := g.heap.filter (·.token ≠ token)

/-- `request.revision += 1` and other changes, of the request of a job that has one. -/
def change (g : Gate) (jobId : String) (f : Request → Request) (hf : ∀ r, (f r).jobId = r.jobId) :
    Table Request Request.jobId :=
  g.requests.update (·.jobId = jobId) f hf

/-! ### Requests -/

/-- `register_request`. -/
def registerRequest (g : Gate) (jobId createdAt : String) (priority : ℤ) (kind : String) : Gate :=
  if g.requests.any (·.jobId = jobId) then g
  else
    let request : Request := ⟨jobId, createdAt, g.created, priority, kind, none, 0, false, false, false⟩
    { g with requests := g.requests.put request
             waiterKinds := Function.update g.waiterKinds request.token (some (some kind))
             heap := g.heap ++ [⟨priority, request.order, request.token⟩]
             policyEpoch := g.policyEpoch + 1
             created := g.created + 1 }

/-- `claim_request`: the runner that gets the owner cleans up. -/
def claimRequest (g : Gate) (jobId : String) : Gate × Option Token :=
  match g.requests.get? (·.jobId = jobId) with
  | some request =>
    if request.owner.isSome then (g, none)
    else ({ g with requests := g.change jobId (fun r => { r with owner := some g.created }) fun _ => rfl
                   created := g.created + 1 }, some g.created)
  | none => (g, none)

/-- `finish_request`. -/
def finishRequest (g : Gate) (jobId : String) (owner : Option Token) : Gate :=
  match g.requests.get? (·.jobId = jobId) with
  | some request =>
    if request.owner ≠ owner then g
    else { g with requests := g.requests.delete (·.jobId = jobId)
                  heap := g.dropEntry request.token
                  waiterKinds := Function.update g.waiterKinds request.token none
                  policyEpoch := g.policyEpoch + 1 }
  | none => g

/-- `complete_preflight`. -/
def completePreflight (g : Gate) (jobId : String) : Gate :=
  if g.requests.any (·.jobId = jobId) then
    { g with requests := g.change jobId
               (fun r => { r with preflightComplete := true, preflightWaiting := false, revision := r.revision + 1 })
               fun _ => rfl
             policyEpoch := g.policyEpoch + 1 }
  else g

/-- `defer_preflight`. -/
def deferPreflight (g : Gate) (jobId : String) : Gate :=
  if g.requests.any (·.jobId = jobId) then
    { g with requests := g.change jobId
               (fun r => { r with preflightWaiting := true, ready := false, revision := r.revision + 1 })
               fun _ => rfl
             policyEpoch := g.policyEpoch + 1 }
  else g

/-- `reprioritize`: the request takes its new place at once. -/
def reprioritize (g : Gate) (jobId : String) (priority : ℤ) : Gate :=
  match g.requests.get? (·.jobId = jobId) with
  | some request =>
    { g with requests := g.change jobId
               (fun r => { r with priority := priority, revision := r.revision + 1 }) fun _ => rfl
             heap := g.heap.map fun e => if e.token = request.token then { e with priority := priority } else e
             policyEpoch := g.policyEpoch + 1 }
  | none => g

/-! ### Refreshes -/

/-- The first part of `_refresh_requests_once`; `early` is whether the clock is still before `_refresh_at`.
Nothing is copied then, while the last refresh saw this epoch. -/
def snapshot (g : Gate) (early : Bool) : Option Snapshot :=
  if early ∧ g.refreshedEpoch = g.policyEpoch then none
  else some ⟨g.policyEpoch, g.requests.select fun r => g.heap.any (·.token = r.token)⟩

/-- The update of a request: its copy, and what its policy answered. -/
def Snapshot.update (copied : Snapshot) (answers : Token → Answer) (r : Request) : Option (Request × Answer) :=
  (copied.requests.find? (·.token = r.token)).map fun copy => (copy, answers r.token)

/-- A job that is over, whose request no runner has claimed and nothing changed meanwhile. -/
def retired (copied : Snapshot) (answers : Token → Answer) (r : Request) : Bool :=
  match Snapshot.update copied answers r with
  | some (copy, .terminal) => r.owner = none ∧ r.revision = copy.revision
  | _ => false

/-- A request after the merge: an update is dropped when the request changed meanwhile. -/
def refreshed (copied : Snapshot) (answers : Token → Answer) (r : Request) : Request :=
  match Snapshot.update copied answers r with
  | some (copy, answer) =>
    if r.revision = copy.revision then
      { r with priority := (answer.read copy).1, ready := (answer.read copy).2 && !r.preflightWaiting }
    else r
  | none => r

/-- The last part of `_refresh_requests_once`, with what the policies and the capacities were. -/
def merge (g : Gate) (copied : Snapshot) (answers : Token → Answer) (limits : String → Option ℕ) : Gate :=
  { g with
    kindLimits := fun kind => if copied.requests.any (·.kind = kind) then some (limits kind) else g.kindLimits kind
    waiterKinds := fun token =>
      match g.requestOf token with
      | some r => if retired copied answers r then none else g.waiterKinds token
      | none => g.waiterKinds token
    heap := g.heap.filterMap fun e =>
      match g.requestOf e.token with
      | some r =>
        if retired copied answers r then none else some { e with priority := (refreshed copied answers r).priority }
      | none => some e
    requests := (g.requests.delete (retired copied answers)).update (fun _ => true) (refreshed copied answers) (by
      intro r
      unfold refreshed
      split
      · split <;> rfl
      · rfl)
    refreshedEpoch := copied.epoch }

/-! ### Slots -/

/-- `_kind_can_admit`: a kind whose capacity was never read has none. -/
def kindCanAdmit (g : Gate) : Option String → Bool
  | none => true
  | some kind =>
    match (g.kindLimits kind).getD (some 0) with
    | none => true
    | some limit => 0 < limit

/-- The request of the token is ready; an entry of no request always is. -/
def ready (g : Gate) (token : Token) : Bool :=
  match g.requestOf token with
  | some request => request.ready
  | none => true

/-- An entry that could be admitted. Every entry has its kind (`GateKept.kinds`); without one the code raises. -/
def eligible (g : Gate) (e : Entry) : Bool :=
  g.ready e.token && match g.waiterKinds e.token with
    | some kind => g.kindCanAdmit kind
    | none => false

/-- `_next_eligible`. -/
def nextEligible (g : Gate) : Option Token :=
  if STARTUP_SLOTS ≤ g.active then none
  else ((g.heap.filter g.eligible).argmin Entry.key).map Entry.token

/-- The first block of `acquire`: the caller's token, whether it has a request, and the gate with its entry. -/
def enter (g : Gate) (priority : ℤ) (kind : Option String) (requestId : Option String) : Gate × Token × Bool :=
  match requestId.bind fun jobId => g.requests.get? (·.jobId = jobId) with
  | some request =>
    ({ g with waiterKinds := Function.update g.waiterKinds request.token (some kind)
              heap := if g.heap.any (·.token = request.token) then g.heap
                else g.heap ++ [⟨priority, request.order, request.token⟩]
              policyEpoch := if g.heap.any (·.token = request.token) then g.policyEpoch else g.policyEpoch + 1 },
      request.token, true)
  | none =>
    ({ g with waiterKinds := Function.update g.waiterKinds g.created (some kind)
              heap := g.heap ++ [⟨priority, toLex ("", padded g.seq), g.created⟩]
              policyEpoch := g.policyEpoch + 1
              seq := g.seq + 1
              created := g.created + 1 }, g.created, false)

/-- The gate as a caller sees it when it decides: one without a request has just read its kind's capacity. -/
def view (g : Gate) (kind : Option String) (registered : Bool) (limit : Option ℕ) : Gate :=
  match kind, registered with
  | some kind, false => { g with kindLimits := Function.update g.kindLimits kind (some limit) }
  | _, _ => g

/-- A slot taken. -/
def takeSlot (g : Gate) (token : Token) : Gate :=
  { g with heap := g.dropEntry token
           active := g.active + 1 }

/-- The `finally` of `acquire`. -/
def leave (g : Gate) (token : Token) : Gate :=
  { g with heap := g.dropEntry token
           waiterKinds := Function.update g.waiterKinds token none }

/-- `release`. -/
def release (g : Gate) : Gate := { g with active := g.active - 1 }

end Gate

end MediaPreview.Jobs
