import Mathlib.Algebra.Order.Ring.Int
import Mathlib.Data.List.Sort
import MediaPreview.Lib.Dict

/-!
# The workers of a pool with groups

`WorkerPool.reconcile_groups` and `_worker_supports_kind` of `jobs/worker.py`, over the member policies and weekly hours of
`worker_groups.py` and the node capacities of `jobs/node_members.py`. Each member of a group owns its workers; the members
on one device share its budget, which busy workers of closed, removed and moved members count against until they are done.
Workers are told apart by `worker_id`. Names, GPU types and FFmpeg threads, which no decision reads, are left out.
-/

namespace MediaPreview.Groups

/-! ### Groups and their members -/

/-- What a worker runs on. -/
inductive Resource where
  | cpu
  | gpu
  deriving DecidableEq

/-- `JOB_KINDS`. -/
inductive JobKind where
  | previews
  | introCredits
  | loudness
  deriving DecidableEq

/-- `HH:MM`. -/
structure TimeOfDay where
  /-- `hour`. -/
  hour : ℕ
  /-- `minute`. -/
  minute : ℕ

/-- `_minute`. -/
def TimeOfDay.minutes (t : TimeOfDay) : ℕ := t.hour * 60 + t.minute

/-- An availability window: the days it starts on, and its times. -/
structure Window where
  /-- `days`. -/
  days : List ℕ
  /-- `start`. -/
  start : TimeOfDay
  /-- `end`. -/
  stop : TimeOfDay

/-- `availability`. -/
inductive Availability where
  | always
  | scheduled (windows : List Window)

/-- A device of a group. -/
structure Member where
  /-- `id`. -/
  id : String
  /-- `resource`. -/
  resource : Resource
  /-- `device`. -/
  device : Option String
  /-- `count`. -/
  count : ℕ
  /-- `job_types`. -/
  jobTypes : List JobKind
  /-- `node`. -/
  node : Option String

/-- What the members of a group share. -/
structure Owner where
  /-- `id`. -/
  id : String
  /-- `enabled`. -/
  enabled : Option Bool
  /-- `availability`. -/
  availability : Option Availability

/-- A group. -/
inductive Group where
  /-- One with members. -/
  | members (owner : Owner) (members : List Member)
  /-- A legacy one, with one device of its own. -/
  | legacy (owner : Owner) (member : Member)
  /-- A member policy. -/
  | flat (id : String) (owner : Owner) (member : Member)

/-- A member policy. -/
structure Policy where
  /-- `id`. -/
  id : String
  /-- `enabled`. -/
  enabled : Bool
  /-- `availability`. -/
  availability : Availability
  /-- `resource`. -/
  resource : Resource
  /-- `device`. -/
  device : Option String
  /-- `count`. -/
  count : ℕ
  /-- `job_types`. -/
  jobTypes : List JobKind
  /-- `node`. -/
  node : Option String

/-- The policy of a member. -/
def Owner.policy (owner : Owner) (id : String) (member : Member) : Policy where
  id := id
  enabled := owner.enabled.getD true
  availability := owner.availability.getD .always
  resource := member.resource
  device := member.device
  count := member.count
  jobTypes := member.jobTypes
  node := member.node

/-- `member_policies`. -/
def memberPolicies (groups : List Group) : List Policy :=
  groups.flatMap fun
    | .members owner members => members.map fun member => owner.policy (owner.id ++ ":" ++ member.id) member
    | .legacy owner member => [owner.policy (owner.id ++ ":m1") member]
    | .flat id owner member => [owner.policy id member]

/-- The policies by their ids; of two with one id the later one counts. -/
def policiesById (groups : List Group) : List (String × Policy) :=
  Dict.update [] ((memberPolicies groups).map fun policy => (policy.id, policy))

namespace Policy

variable (policy : Policy)

/-- The node, if there is one. -/
def onNode : Option String := policy.node.filter (· ≠ "")

/-- `group_resource_key`. -/
def resourceKey : String :=
  let here := match policy.resource with
    | .cpu => "cpu"
    | .gpu => "gpu:" ++ policy.device.getD "None"
  match policy.onNode with
  | some node => "node:" ++ node ++ ":" ++ here
  | none => here

/-! ### Hours -/

/-- `WEEK_MINUTES`. -/
def weekMinutes : ℕ := 7 * 24 * 60

/-- `_ALL_WEEK`. -/
def allWeek : ℕ := 1 <<< weekMinutes - 1

/-- The minutes of the week of a window that starts on a day; what goes past the week starts it. -/
def windowMask (window : Window) (day : ℕ) : ℕ :=
  let duration := (((window.stop.minutes : ℤ) - window.start.minutes) % (24 * 60)).toNat
  let segment := (1 <<< duration - 1) <<< (day * 24 * 60 + window.start.minutes)
  (segment &&& allWeek) ||| (segment >>> weekMinutes)

/-- `group_weekly_mask`. -/
def groupWeeklyMask : ℕ :=
  if policy.enabled then
    match policy.availability with
    | .always => allWeek
    | .scheduled windows =>
      windows.foldl (fun mask window => window.days.foldl (fun mask day => mask ||| windowMask window day) mask) 0
  else 0

/-- `group_is_available`, at a minute of the week. -/
def groupIsAvailable (now : ℕ) : Bool :=
  policy.enabled &&
    match policy.availability with
    | .always => true
    | .scheduled _ => policy.groupWeeklyMask.testBit now

end Policy

/-! ### Hardware -/

/-- What a node gives work to. -/
structure NodeCapacity where
  /-- `cpu`. -/
  cpu : Bool
  /-- `gpu`. -/
  gpu : Bool

/-- A GPU a node lists. -/
structure NodeGpu where
  /-- `device`. -/
  device : Option String
  /-- `status`. -/
  status : Option String

/-- What the registry says about the nodes. -/
structure NodeHardware where
  /-- `capacities`. -/
  capacities : List (String × NodeCapacity)
  /-- The GPUs of `views`. -/
  gpus : List (String × List NodeGpu)

/-- `NodeHardware.member(policy).available`. -/
def NodeHardware.available (nodes : NodeHardware) (policy : Policy) (node : String) : Bool :=
  match Dict.get? nodes.capacities node, policy.resource with
  | none, _ => false
  | some capacity, .cpu => capacity.cpu
  | some capacity, .gpu =>
    capacity.gpu && ((Dict.get? nodes.gpus node).getD []).any fun gpu =>
      gpu.device = policy.device && gpu.status ≠ some "failed"

/-- `member_detected`. -/
def memberDetected (policy : Policy) (localDevices : List String) (nodes : NodeHardware) : Bool :=
  match policy.onNode with
  | some node => nodes.available policy node
  | none => policy.resource = .cpu || localDevices.any fun device => policy.device = some device

/-! ### The pool -/

/-- A worker. -/
structure Worker where
  /-- `worker_id`. -/
  id : ℕ
  /-- `worker_type`. -/
  workerType : Resource
  /-- `policy_id`. -/
  policyId : Option String
  /-- `group_resource`. -/
  groupResource : String
  /-- `allowed_job_types`. -/
  allowedJobTypes : Option (List JobKind)
  /-- `is_busy`. -/
  isBusy : Bool
  /-- `_pending_removal`. -/
  pendingRemoval : Bool

/-- `is_available`. -/
def Worker.isAvailable (w : Worker) : Bool := !w.isBusy && !w.pendingRemoval

/-- The order of `(_pending_removal, not is_busy)`. -/
def Worker.before (v w : Worker) : Bool :=
  if v.pendingRemoval = w.pendingRemoval then v.isBusy || !w.isBusy else w.pendingRemoval

/-- A busy worker is to go when it is done; an idle one goes. -/
def Worker.retire (w : Worker) : Option Worker := if w.isBusy then some { w with pendingRemoval := true } else none

/-- The pool. -/
structure WorkerPool where
  /-- `workers`. -/
  workers : List Worker
  /-- `_pending_removals`. -/
  pendingRemovals : Resource → ℕ
  /-- The devices of `selected_gpus`. -/
  selectedGpus : List String
  /-- `_next_worker_id`. -/
  nextId : ℕ
  /-- `_policies`. -/
  policies : Option (List (String × Policy))
  /-- `_policy_targets`. -/
  policyTargets : List (String × ℕ)
  /-- `_resource_targets`. -/
  resourceTargets : List (String × ℕ)
  /-- `_group_revision`. -/
  groupRevision : Option ℤ

/-- The pool as it is made, with workers that no member owns. -/
def WorkerPool.initial (gpuWorkers cpuWorkers : ℕ) (selectedGpus : List String) : WorkerPool where
  workers :=
    ((List.range gpuWorkers).map fun k =>
      ⟨k, .gpu, none, "gpu:" ++ selectedGpus.getD (k % selectedGpus.length) "None", none, false, false⟩) ++
    (List.range cpuWorkers).map fun k => ⟨gpuWorkers + k, .cpu, none, "cpu", none, false, false⟩
  pendingRemovals _ := 0
  selectedGpus := selectedGpus
  nextId := gpuWorkers + cpuWorkers
  policies := none
  policyTargets := []
  resourceTargets := []
  groupRevision := none

/-- The worker is the policy's, on its resource. -/
def OwnedBy (entry : String × Policy) (w : Worker) : Prop :=
  w.policyId = some entry.1 ∧ w.groupResource = entry.2.resourceKey

instance (entry : String × Policy) (w : Worker) : Decidable (OwnedBy entry w) := inferInstanceAs (Decidable (_ ∧ _))

/-- What `reconcile_groups` is given, and what it reads of the nodes and, for each policy, of the clock. -/
structure Reconcile where
  /-- `groups`. -/
  groups : List Group
  /-- `selected_gpus`. -/
  selectedGpus : Option (List String)
  /-- `read_node_hardware`. -/
  nodes : NodeHardware
  /-- The minute of the week. -/
  now : Policy → ℕ
  /-- `revision`. -/
  revision : Option ℤ

/-- The workers a policy is to have now. -/
def Reconcile.target (r : Reconcile) (selectedGpus : List String) (policy : Policy) : ℕ :=
  if policy.groupIsAvailable (r.now policy) && memberDetected policy selectedGpus r.nodes then policy.count else 0

/-- What the policies on each resource may have busy between them. -/
def sumTargets (target : Policy → ℕ) (byId : List (String × Policy)) : List (String × ℕ) :=
  byId.foldl (fun resources entry =>
    Dict.set resources entry.2.resourceKey ((Dict.get? resources entry.2.resourceKey).getD 0 + target entry.2)) []

/-- The pool in a reconcile, the workers made so far and how many went. -/
structure Reconciled where
  /-- The pool. -/
  pool : WorkerPool
  /-- The ids of the workers made, `added` of them. -/
  created : List ℕ
  /-- `removed`. -/
  removed : ℕ

/-- Workers that no member owns any more may finish. -/
def retireUnowned (byId : List (String × Policy)) (workers : List Worker) : List Worker :=
  workers.filterMap fun w =>
    if (w.policyId.bind (Dict.get? byId)).any fun policy => w.groupResource = policy.resourceKey then some w else w.retire

/-- The workers of a member, those not to go first and of these the busy ones. -/
def ownedWorkers (entry : String × Policy) (workers : List Worker) : List Worker :=
  (workers.filter (OwnedBy entry ·)).insertionSort (Worker.before · ·)

/-- A worker of a member stays if it is one of the kept ones; of the others a busy one is to go and an idle one goes. -/
def settleWorker (entry : String × Policy) (kept : List ℕ) (w : Worker) : Option Worker :=
  if OwnedBy entry w then
    let w := { w with allowedJobTypes := some entry.2.jobTypes }
    if w.id ∈ kept then some { w with pendingRemoval := false } else w.retire
  else some w

/-- New workers of a member. -/
def newWorkers (entry : String × Policy) (nextId count : ℕ) : List Worker :=
  (List.range count).map fun k =>
    { id := nextId + k
      workerType := entry.2.resource
      policyId := some entry.1
      groupResource := entry.2.resourceKey
      allowedJobTypes := some entry.2.jobTypes
      isBusy := false
      pendingRemoval := false }

/-- The loop over the members: of a member's workers as many as its target stay, and what is missing is made. -/
def reconcileMember (target : Policy → ℕ) (r : Reconciled) (entry : String × Policy) : Reconciled :=
  let owned := ownedWorkers entry r.pool.workers
  let desired := target entry.2
  let created := newWorkers entry r.pool.nextId (desired - owned.length)
  { pool := { r.pool with
      workers := r.pool.workers.filterMap (settleWorker entry ((owned.take desired).map Worker.id)) ++ created
      nextId := r.pool.nextId + created.length }
    created := r.created ++ created.map Worker.id
    removed := r.removed + (owned.drop desired).countP fun w => !w.isBusy }

namespace WorkerPool

variable (p : WorkerPool)

/-- The revision is older than the last one applied. -/
def isOlder (r : Reconcile) : Bool := r.revision.any fun n => p.groupRevision.any fun last => n < last

/-- The GPUs a reconcile goes by: those it is given, or those it was given last. -/
def gpusFor (r : Reconcile) : List String := r.selectedGpus.getD p.selectedGpus

/-- The pool with the targets of a reconcile, before its members' workers are settled. -/
def withTargets (r : Reconcile) : WorkerPool :=
  let byId := policiesById r.groups
  { p with
    groupRevision := r.revision <|> p.groupRevision
    policies := some byId
    policyTargets := byId.map fun entry => (entry.1, r.target (p.gpusFor r) entry.2)
    resourceTargets := sumTargets (r.target (p.gpusFor r)) byId
    selectedGpus := p.gpusFor r
    pendingRemovals := fun _ => 0
    workers := retireUnowned byId p.workers }

/-- `reconcile_groups`. -/
def reconcileGroups (r : Reconcile) : Reconciled :=
  if p.isOlder r then ⟨p, [], 0⟩
  else
    (policiesById r.groups).foldl (reconcileMember (r.target (p.gpusFor r)))
      ⟨p.withTargets r, [], p.workers.length - (p.withTargets r).workers.length⟩

/-- The busy workers on a resource. -/
def busyOn (resource : String) : ℕ := p.workers.countP fun w => w.isBusy && w.groupResource = resource

/-- `_worker_supports_kind`. -/
def workerSupportsKind (w : Worker) (kind : JobKind) (now : ℕ) (budget : Bool) : Bool :=
  if kind = .loudness && w.workerType ≠ .cpu then false
  else if w.allowedJobTypes.any (kind ∉ ·) then false
  else
    match p.policies with
    | none => true
    | some policies =>
      let pid := w.policyId.getD ""
      if pid = "" || (Dict.get? p.policyTargets pid).getD 0 = 0 then false
      else if !(Dict.get? policies pid).any (·.groupIsAvailable now) then false
      else !budget || p.busyOn w.groupResource < (Dict.get? p.resourceTargets w.groupResource).getD 0

/-- A worker starts or ends a task. -/
def setBusy (id : ℕ) (isBusy : Bool) : WorkerPool :=
  { p with workers := p.workers.map fun w => if w.id = id then { w with isBusy := isBusy } else w }

/-- `_retire_idle_worker_if_scheduled`. -/
def retireIdleWorkerIfScheduled (id : ℕ) : WorkerPool :=
  match p.workers.find? fun w => w.id = id with
  | none => p
  | some w =>
    if w.isBusy then p
    else if w.pendingRemoval then { p with workers := p.workers.eraseP fun w => w.id = id }
    else if p.pendingRemovals w.workerType = 0 then p
    else { p with
      workers := p.workers.eraseP fun w => w.id = id
      pendingRemovals := Function.update p.pendingRemovals w.workerType (p.pendingRemovals w.workerType - 1) }

/-- `_apply_deferred_removals`, over a snapshot of the workers. -/
def applyDeferredRemovals : WorkerPool := p.workers.foldl (fun p w => p.retireIdleWorkerIfScheduled w.id) p

end WorkerPool

end MediaPreview.Groups
