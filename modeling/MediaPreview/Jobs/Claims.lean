import Mathlib.Data.Finset.Dedup
import Mathlib.Data.Finset.Option
import Mathlib.Data.Finset.Lattice.Basic
import Mathlib.Data.Rat.Defs
import Mathlib.Algebra.Order.Ring.Rat
import MediaPreview.Jobs.WorkerGroups

/-!
# Claiming a worker for a file

`JobDispatcher._claim_worker` of `jobs/dispatcher.py` with what it asks of the pool. A job's files wait in one queue; nodes
that cannot see a file, dropped it or failed to start it, and GPUs that could not run it, are kept for each path, as they
are told of (`requeueOrFail`, `requeueForAnotherGpu`).

A claim holds the dispatcher's lock and the pool's, so here the pool and the clock stand still during one. A cancel takes
neither: it may clear the queue after the queue was looked at, and nothing is left to take then.
-/

namespace MediaPreview.Claims

open Groups

/-! ### What the pool is asked -/

/-- The pool with its workers' nodes and jobs, at one time. -/
structure Fleet where
  /-- The pool. -/
  pool : WorkerPool
  /-- `node_id` of each worker. -/
  nodeOf : ℕ → Option String
  /-- `current_job_id` of each worker. -/
  jobOf : ℕ → Option String
  /-- `_suspect_nodes`. -/
  suspectNodes : List (String × ℚ)
  /-- `_node_hardware`. -/
  hardware : NodeHardware
  /-- What `member_can_come_back` says of a member on a node. -/
  memberCanComeBack : Policy → Bool
  /-- `stuck_node_members`. -/
  stuckNodeMembers : JobKind → Finset String → List String
  /-- The minute of the week. -/
  minute : ℕ
  /-- `time.monotonic()`. -/
  now : ℚ

/-- The keys of a dictionary. -/
def keys {α : Type} (d : List (String × α)) : Finset String := (d.map Prod.fst).toFinset

namespace Fleet

variable (f : Fleet)

/-- The worker's node is one of these. -/
def onNode (w : Worker) (nodes : Finset String) : Bool := (f.nodeOf w.id).any fun node => node ∈ nodes

/-- `_is_suspect`. -/
def isSuspect (node : String) : Bool := (Dict.get? f.suspectNodes node).any fun until' => f.now < until'

/-- `mark_node_suspect`. -/
def markNodeSuspect (node : String) : Fleet := { f with suspectNodes := Dict.set f.suspectNodes node (f.now + 300) }

/-- What `_find_available_worker` goes by. -/
def isFound (cpuOnly : Bool) (kind : JobKind) (excludeNodes excludeGpus : Finset String) (w : Worker) : Bool :=
  !(cpuOnly && w.workerType ≠ .cpu) &&
    !(f.nodeOf w.id).any (fun node => node ∈ excludeNodes || f.isSuspect node) &&
    !(excludeGpus ≠ ∅ && (w.workerType ≠ .gpu || w.groupResource ∈ excludeGpus)) &&
    (w.isAvailable && f.pool.workerSupportsKind w kind f.minute true)

/-- `_find_available_worker`: the first that will do, the GPUs' workers before the CPU's. -/
def findAvailableWorker (cpuOnly : Bool) (kind : JobKind) (excludeNodes excludeGpus : Finset String) : Option Worker :=
  (f.pool.workers.filter (·.workerType = .gpu) ++ f.pool.workers.filter (·.workerType ≠ .gpu)).find?
    (f.isFound cpuOnly kind excludeNodes excludeGpus)

/-- `runs_kind_outside`. -/
def runsKindOutside (kind : JobKind) (excludeNodes : Finset String) : Bool :=
  f.pool.workers.any fun w =>
    !w.pendingRemoval && !f.onNode w excludeNodes && f.pool.workerSupportsKind w kind f.minute false

/-- `runs_kind_on_other_gpu`. -/
def runsKindOnOtherGpu (kind : JobKind) (excludeGpus excludeNodes frozenJobs : Finset String) : Bool :=
  f.pool.workers.any fun w =>
    w.workerType = .gpu && !w.pendingRemoval && w.groupResource ∉ excludeGpus && !f.onNode w excludeNodes &&
      !(w.isBusy && (f.jobOf w.id).any fun job => job ∈ frozenJobs) && f.pool.workerSupportsKind w kind f.minute false

/-- A member of the kind that has workers, or may get them again by itself. -/
def canComeBack (policy : Policy) : Bool :=
  match policy.onNode with
  | some _ => f.memberCanComeBack policy
  | none => memberDetected policy f.pool.selectedGpus f.hardware

/-- `can_run_outside`. -/
def canRunOutside (kind : JobKind) (excludeNodes : Finset String) : Bool :=
  match f.pool.policies with
  | none =>
    let open' := f.pool.workers.filter fun w =>
      !w.pendingRemoval && (kind ≠ .loudness || w.workerType = .cpu) && !w.allowedJobTypes.any (kind ∉ ·)
    open'.isEmpty || open'.any fun w => !f.onNode w excludeNodes
  | some policies =>
    let configured := (policies.map Prod.snd).filter fun policy =>
      policy.enabled && 0 < policy.count && kind ∈ policy.jobTypes && (kind ≠ .loudness || policy.resource = .cpu)
    configured.isEmpty ||
      (configured.filter f.canComeBack).any fun policy => !policy.node.any fun node => node ∈ excludeNodes

end Fleet

/-! ### A job's files -/

/-- `StartWait`. -/
structure StartWait where
  /-- `node_name`. -/
  nodeName : String
  /-- `failures`. -/
  failures : ℕ
  /-- `retry_at`. -/
  retryAt : ℚ

/-- What a claim reads and writes of a `JobTracker`. A file's refused GPUs are also kept as one set, and a node that failed
a start has dropped the file too. -/
structure Tracker (ι : Type) where
  /-- `kind`. -/
  kind : JobKind
  /-- `item_queue`. -/
  itemQueue : List ι
  /-- `excluded_nodes`. -/
  excludedNodes : List (String × List (String × String))
  /-- `start_waits`. -/
  startWaits : List (String × List (String × StartWait))
  /-- `dropped_on`. -/
  droppedOn : List (String × String)
  /-- `sent_back`. -/
  sentBack : List (String × String)
  /-- `stays_off`. -/
  staysOff : List (String × String)
  /-- `node_drops`. -/
  nodeDrops : List (String × List String)
  /-- `node_start_failures`. -/
  nodeStartFailures : List (String × ℕ)
  /-- `gpus_refused`. -/
  gpusRefused : List (String × List (String × String))
  /-- `refused_keys`. -/
  refusedKeys : List (String × Finset String)
  /-- `all_waiting_at`. -/
  allWaitingAt : ℚ
  /-- `all_waiting_state`. -/
  allWaitingState : Option (ℕ × List Bool)
  /-- `active_processing`. -/
  activeProcessing : ℕ
  nodup_refused : (gpusRefused.map Prod.fst).Nodup
  get?_refusedKeys : ∀ p, Dict.get? refusedKeys p = (Dict.get? gpusRefused p).map keys
  waits_of_dropped : ∀ p, Dict.get? droppedOn p = none → Dict.get? startWaits p = none

namespace Tracker

variable {ι : Type} (t : Tracker ι)

/-- A new job's tracker, with what a parked one had counted of its nodes. -/
def new (kind : JobKind) (nodeDrops : List (String × List String)) (nodeStartFailures : List (String × ℕ))
    (droppedOn : List (String × String)) (excludedNodes : List (String × List (String × String))) : Tracker ι where
  kind := kind
  itemQueue := []
  excludedNodes := excludedNodes
  startWaits := []
  droppedOn := droppedOn
  sentBack := []
  staysOff := []
  nodeDrops := nodeDrops
  nodeStartFailures := nodeStartFailures
  gpusRefused := []
  refusedKeys := []
  allWaitingAt := 0
  allWaitingState := none
  activeProcessing := 0
  nodup_refused := List.nodup_nil
  get?_refusedKeys _ := rfl
  waits_of_dropped _ _ := rfl

/-- A file goes back to the front of the queue. -/
def giveBack (item : ι) : Tracker ι :=
  { t with itemQueue := item :: t.itemQueue, activeProcessing := t.activeProcessing - 1 }

/-- The GPUs that could not run a file, with one more. -/
def refusedWith (p gpu label : String) : List (String × String) :=
  Dict.set ((Dict.get? t.gpusRefused p).getD []) gpu label

/-- `_requeue_for_another_gpu`. -/
def requeueForAnotherGpu (path : ι → String) (item : ι) (gpu label : String) : Tracker ι :=
  { t with
    itemQueue := item :: t.itemQueue
    activeProcessing := t.activeProcessing - 1
    gpusRefused := Dict.set t.gpusRefused (path item) (t.refusedWith (path item) gpu label)
    refusedKeys := Dict.set t.refusedKeys (path item) (keys (t.refusedWith (path item) gpu label))
    nodup_refused := (Dict.nodup_set t.nodup_refused _ _).1
    get?_refusedKeys := by
      intro p
      rw [Dict.get?_set, Dict.get?_set, t.get?_refusedKeys]
      by_cases hp : path item = p
      · rw [if_pos hp, if_pos hp, Option.map_some]
      · rw [if_neg hp, if_neg hp] }

/-- `_forget_gpus_refused`. -/
def forgetGpusRefused (p : String) : Tracker ι :=
  { t with
    gpusRefused := Dict.erase t.gpusRefused p
    refusedKeys := Dict.erase t.refusedKeys p
    nodup_refused := t.nodup_refused.sublist (List.filter_sublist.map _)
    get?_refusedKeys := by
      intro p'
      by_cases hp : p = p'
      · rw [← hp, Dict.get?_erase_self, Dict.get?_erase_self, Option.map_none]
      · rw [Dict.get?_erase _ hp, Dict.get?_erase _ hp, t.get?_refusedKeys] }

/-- `NodeRequeue`'s reasons. -/
inductive Reason where
  /-- `REQUEUE_NODE_UNAVAILABLE`. -/
  | unavailable
  /-- `REQUEUE_NODE_NOT_STARTED`. -/
  | notStarted
  /-- The node cannot see the file. -/
  | notVisible
  deriving DecidableEq

/-- `NodeRequeue`. -/
structure NodeRequeue where
  /-- `node_id`. -/
  nodeId : String
  /-- `node_name`. -/
  nodeName : String
  /-- `reason`. -/
  reason : Reason
  /-- `message`. -/
  message : String

/-- `_starts_failure`. -/
def startsFailure (names : List String) (lastTry : String) : String :=
  (match names with
    | [name] => "node " ++ name ++ " unavailable (it couldn't start the file 5 times)"
    | _ =>
      "nodes " ++ ", ".intercalate names.dropLast ++ " and " ++ names.getLastD "" ++
        " unavailable (none of them could start the file)") ++
    ". Last try: " ++ lastTry

/-- `_drops_failure`. -/
def dropsFailure (names : List String) : String :=
  let nodes := Dict.update ([] : List (String × Unit)) ((names.filter (· ≠ "")).map fun name => (name, ()))
  let nodes := nodes.map Prod.fst
  if nodes = [] then "nodes unavailable (they dropped the file twice)"
  else
    match if "" ∈ names then nodes ++ ["an earlier one"] else nodes with
    | [name] => "node " ++ name ++ " unavailable (it dropped the file twice)"
    | nodes =>
      "nodes " ++ ", ".intercalate nodes.dropLast ++ " and " ++ nodes.getLastD "" ++
        " unavailable (each dropped the file once)"

/-- `_not_visible_failure`. -/
def notVisibleFailure (f : Fleet) (kind : JobKind) (excluded : List (String × String)) : String :=
  let failure := "not visible on " ++ ", ".intercalate (excluded.map Prod.snd)
  let stuck := f.stuckNodeMembers kind (keys excluded)
  if stuck = [] then failure
  else failure ++ "; no other worker can take it: " ++ ", ".intercalate stuck

/-- A node dropped the file or failed its start: its retry goes elsewhere when it can. -/
def droppedBy (p node : String) : Tracker ι :=
  { t with
    droppedOn := Dict.set t.droppedOn p node
    waits_of_dropped := by
      intro p' hp'
      rw [Dict.get?_set] at hp'
      by_cases hp : p = p'
      · rw [if_pos hp] at hp'
        cases hp'
      · rw [if_neg hp] at hp'
        exact t.waits_of_dropped p' hp' }

/-- A node that failed a file's start, its wait begun or doubled. -/
def waitsWith (p : String) (requeue : NodeRequeue) (now : ℚ) : List (String × StartWait) :=
  let waits := (Dict.get? t.startWaits p).getD []
  let tries := (((Dict.get? waits requeue.nodeId).map StartWait.failures).getD 0) + 1
  Dict.set waits requeue.nodeId ⟨requeue.nodeName, tries, now + min (1 * 2 ^ (tries - 1)) 30⟩

/-- The start of a file failed: one more wait for the node that failed it. -/
def startFailed (p : String) (requeue : NodeRequeue) (now : ℚ) : Tracker ι :=
  { t.droppedBy p requeue.nodeId with
    startWaits := Dict.set t.startWaits p (t.waitsWith p requeue now)
    waits_of_dropped := by
      intro p' hp'
      rw [droppedBy, Dict.get?_set] at hp'
      rw [Dict.get?_set]
      by_cases hp : p = p'
      · rw [if_pos hp] at hp'
        cases hp'
      · rw [if_neg hp] at hp'
        rw [if_neg hp]
        exact t.waits_of_dropped p' hp' }

/-- A node dropped the file: a second drop fails it, unless it was handed back to the node only as no other was free. -/
def nodeDropped (f : Fleet) (p : String) (requeue : NodeRequeue) (sentBack : Bool) : Tracker ι × Fleet × Option String :=
  let node := requeue.nodeId
  let f := f.markNodeSuspect node
  let t := t.droppedBy p node
  if sentBack && f.runsKindOutside t.kind (insert node (keys ((Dict.get? t.excludedNodes p).getD []))) then
    ({ t with staysOff := Dict.set t.staysOff p node }, f, none)
  else
    let drops := (Dict.get? t.nodeDrops p).getD [] ++ [requeue.nodeName]
    ({ t with nodeDrops := Dict.set t.nodeDrops p drops }, f, if 2 ≤ drops.length then some (dropsFailure drops) else none)

/-- A node did not start the file: it counts where no other worker runs its kind, and the fifth fails it. -/
def nodeNotStarted (f : Fleet) (p : String) (requeue : NodeRequeue) : Tracker ι × Fleet × Option String :=
  let f := f.markNodeSuspect requeue.nodeId
  let waits := t.waitsWith p requeue f.now
  let t := t.startFailed p requeue f.now
  if f.runsKindOutside t.kind (keys ((Dict.get? t.excludedNodes p).getD []) ∪ keys waits) then (t, f, none)
  else
    let starts := (Dict.get? t.nodeStartFailures p).getD 0 + 1
    ({ t with nodeStartFailures := Dict.set t.nodeStartFailures p starts }, f,
      if 5 ≤ starts then some (startsFailure (waits.map fun wait => wait.2.nodeName) requeue.message) else none)

/-- A node cannot see the file: it fails once no other may run it. -/
def nodeNotVisible (f : Fleet) (p : String) (requeue : NodeRequeue) : Tracker ι × Fleet × Option String :=
  let excluded := Dict.set ((Dict.get? t.excludedNodes p).getD []) requeue.nodeId requeue.nodeName
  ({ t with excludedNodes := Dict.set t.excludedNodes p excluded }, f,
    if f.canRunOutside t.kind (keys excluded) then none else some (notVisibleFailure f t.kind excluded))

/-- What a node's answer makes of the file's counts, and why the file fails, if it does. -/
def settle (f : Fleet) (p : String) (requeue : NodeRequeue) : Tracker ι × Fleet × Option String :=
  let sentBack := Dict.get? t.sentBack p = some requeue.nodeId
  let t := { t with sentBack := Dict.erase t.sentBack p }
  match requeue.reason with
  | .unavailable => t.nodeDropped f p requeue sentBack
  | .notStarted => t.nodeNotStarted f p requeue
  | .notVisible => t.nodeNotVisible f p requeue

/-- `_requeue_or_fail`, but for the counts of a failed file: why it fails, or it is back in the queue. -/
def requeueOrFail (f : Fleet) (path : ι → String) (item : ι) (requeue : NodeRequeue) : Tracker ι × Fleet × Option String :=
  let settled := t.settle f (path item) requeue
  if settled.2.2 = none then (settled.1.giveBack item, settled.2)
  else
    ({ settled.1.forgetGpusRefused (path item) with activeProcessing := settled.1.activeProcessing - 1 }, settled.2)

/-! ### A claim -/

/-- `any_node_limits`. -/
def anyNodeLimits : Bool := t.excludedNodes ≠ [] || t.droppedOn ≠ [] || t.startWaits ≠ []

/-- The nodes that cannot see the file. -/
def excluded (p : String) : List (String × String) := (Dict.get? t.excludedNodes p).getD []

/-- The GPUs that could not run the file. -/
def refused (p : String) : List (String × String) := (Dict.get? t.gpusRefused p).getD []

/-- The nodes whose wait after a failed start has not run out. -/
def waiting (now : ℚ) (p : String) : Finset String :=
  keys (((Dict.get? t.startWaits p).getD []).filter fun wait => now < wait.2.retryAt)

/-- `_nodes_off`. -/
def nodesOff (p : String) : Finset String :=
  keys (t.excluded p) ∪ keys ((Dict.get? t.startWaits p).getD []) ∪ (Dict.get? t.droppedOn p).toFinset

/-- `_queue_head`, with one more for each file that refused a GPU. -/
def queueHead : List ι := t.itemQueue.take (64 + t.gpusRefused.length)

/-- `_first_free_file`. -/
def firstFreeFile (f : Fleet) (path : ι → String) (frozenJobs : Finset String) (head : List ι) : Option ℕ :=
  let busyGpus (key : Finset String) : Bool :=
    f.runsKindOnOtherGpu t.kind key ∅ frozenJobs && (f.findAvailableWorker false t.kind ∅ key).isNone
  head.findIdx? fun item => !(Dict.get? t.refusedKeys (path item)).any busyGpus

/-- What a pass over the queue has worked out. -/
structure Memo where
  /-- `other_gpu_runs`. -/
  otherGpuRuns : List ((Finset String × Finset String) × Bool)
  /-- `no_free_gpu`. -/
  noFreeGpu : List (Finset String)

/-- Whether a GPU off these nodes runs the kind for a file that these GPUs refused, asked once. -/
def otherGpuRuns (f : Fleet) (frozenJobs : Finset String) (memo : Memo) (key : Finset String × Finset String) : Bool :=
  (Dict.get? memo.otherGpuRuns key).getD (f.runsKindOnOtherGpu t.kind key.1 key.2 frozenJobs)

/-- The answer for a file's refused GPUs, remembered. -/
def remember (f : Fleet) (frozenJobs : Finset String) (memo : Memo) (p : String) : Memo :=
  let key := (keys (t.refused p), t.nodesOff p)
  if key.1 = ∅ then memo
  else { memo with otherGpuRuns := Dict.set memo.otherGpuRuns key (t.otherGpuRuns f frozenJobs memo key) }

/-- What a file comes to when a worker is sought for it. -/
inductive Choice where
  | take (w : Worker)
  /-- The file waits for a worker elsewhere. -/
  | wait
  | no

/-- The worker for a file: off the node that dropped it first. -/
def choose (f : Fleet) (backNodes skipGpus : Finset String) (p : String) : Choice :=
  let avoid := keys (t.excluded p) ∪ t.waiting f.now p
  let anywhere : Choice := match f.findAvailableWorker false t.kind avoid skipGpus with
    | some w => .take w
    | none => .no
  match Dict.get? t.droppedOn p with
  | none => anywhere
  | some node =>
    match f.findAvailableWorker false t.kind (insert node avoid) skipGpus with
    | some w => .take w
    | none =>
      let back := node ∈ backNodes && Dict.get? t.staysOff p ≠ some node
      if node ∈ t.waiting f.now p || (!back && f.runsKindOutside t.kind (insert node (keys (t.excluded p)))) then .wait
      else anywhere

/-- What a pass over the queue comes to. -/
inductive Pass where
  | none
  /-- A worker for the file at an index. -/
  | take (w : Worker) (index : ℕ)
  /-- The file at an index has nowhere left to run. -/
  | strand (index : ℕ)

/-- The pass over the queue, file by file. -/
def pass (f : Fleet) (path : ι → String) (backNodes frozenJobs : Finset String) : List ι → ℕ → Memo → Pass
  | [], _, _ => .none
  | item :: rest, index, memo =>
    let p := path item
    let refused := keys (t.refused p)
    let off := t.nodesOff p
    if refused ≠ ∅ && !t.anyNodeLimits && (Dict.get? t.refusedKeys p).any (· ∈ memo.noFreeGpu) then
      pass f path backNodes frozenJobs rest (index + 1) memo
    else
      let runs := refused ≠ ∅ && t.otherGpuRuns f frozenJobs memo (refused, off)
      let memo := t.remember f frozenJobs memo p
      if runs && off = ∅ && refused ∈ memo.noFreeGpu then pass f path backNodes frozenJobs rest (index + 1) memo
      else
        let skipGpus := if runs then refused else ∅
        match t.choose f backNodes skipGpus p with
        | .take w => .take w index
        | .wait => pass f path backNodes frozenJobs rest (index + 1) memo
        | .no =>
          if skipGpus ≠ ∅ then
            let noFreeGpu := if off = ∅ then skipGpus :: memo.noFreeGpu else memo.noFreeGpu
            pass f path backNodes frozenJobs rest (index + 1) { memo with noFreeGpu := noFreeGpu }
          else if t.excluded p = [] && t.waiting f.now p = ∅ then .none
          else if t.excluded p ≠ [] && !f.canRunOutside t.kind (keys (t.excluded p)) then .strand index
          else pass f path backNodes frozenJobs rest (index + 1) memo

/-- `_take_queued`; a cancel may have cleared the queue since it was looked at. -/
def takeQueued (cancelled : Bool) (index : ℕ) : Option (ι × Tracker ι) :=
  if cancelled then none
  else t.itemQueue[index]?.map fun item => (item, { t with itemQueue := t.itemQueue.eraseIdx index })

/-- A claim: the tracker and the pool after it, the files with nowhere left to run, and the worker with its file. -/
structure Claim (ι : Type) where
  /-- The tracker. -/
  tracker : Tracker ι
  /-- The pool. -/
  pool : WorkerPool
  /-- `stranded`. -/
  stranded : List (ι × String)
  /-- What the claim returns. -/
  claimed : Option (Worker × ι)

/-- A claim that returns nothing. -/
def noClaim (f : Fleet) : Claim ι := ⟨t, f.pool, [], none⟩

/-- The file at an index is taken for a worker; with the queue cleared the worker is given back. -/
def takeFor (f : Fleet) (path : ι → String) (cancelled : Bool) (w : Worker) (index : ℕ) : Claim ι :=
  match t.takeQueued cancelled index with
  | none => t.noClaim f
  | some (item, t) =>
    let p := path item
    let sentBack := match Dict.get? t.droppedOn p with
      | some node => if f.nodeOf w.id = some node then Dict.set t.sentBack p node else Dict.erase t.sentBack p
      | none => Dict.erase t.sentBack p
    ⟨{ t with sentBack := sentBack }, f.pool.setBusy w.id true, [], some (w, item)⟩

/-- The file at an index is taken off the queue, to fail. -/
def strandAt (f : Fleet) (path : ι → String) (cancelled : Bool) (index : ℕ) : Claim ι :=
  match t.takeQueued cancelled index with
  | none => t.noClaim f
  | some (item, t) =>
    ⟨{ t with activeProcessing := t.activeProcessing + 1 }, f.pool,
      [(item, notVisibleFailure f t.kind (t.excluded (path item)))], none⟩

/-- The queue's length and which workers are busy. -/
def state (f : Fleet) : ℕ × List Bool := (t.itemQueue.length, f.pool.workers.map Worker.isBusy)

/-- Every file was found waiting, just now, with the queue as long and the same workers busy. -/
def Throttled (f : Fleet) : Prop := t.allWaitingState = some (t.state f) ∧ f.now - t.allWaitingAt < 1 / 4

instance (f : Fleet) : Decidable (t.Throttled f) := inferInstanceAs (Decidable (_ ∧ _))

/-- `_claim_worker`. -/
def claimWorker (f : Fleet) (path : ι → String) (backNodes frozenJobs : Finset String) (cancelled : Bool) : Claim ι :=
  if t.excludedNodes = [] ∧ t.droppedOn = [] ∧ t.gpusRefused = [] then
    match f.findAvailableWorker false t.kind ∅ ∅ with
    | none => t.noClaim f
    | some w =>
      match t.takeQueued cancelled 0 with
      | none => t.noClaim f
      | some (item, t) => ⟨t, f.pool.setBusy w.id true, [], some (w, item)⟩
  else
    let sweep := t.gpusRefused ≠ [] && !t.anyNodeLimits
    if sweep && (f.findAvailableWorker false t.kind ∅ ∅).isNone then t.noClaim f
    else if sweep && t.Throttled f then t.noClaim f
    else
      let head := t.queueHead
      match if sweep then t.firstFreeFile f path frozenJobs head else some 0 with
      | none => noClaim { t with allWaitingAt := f.now, allWaitingState := some (t.state f) } f
      | some start =>
        let t := if sweep then { t with allWaitingState := none } else t
        match t.pass f path backNodes frozenJobs (head.drop start) start ⟨[], []⟩ with
        | .none => t.noClaim f
        | .take w index => t.takeFor f path cancelled w index
        | .strand index => t.strandAt f path cancelled index

end Tracker

end MediaPreview.Claims
