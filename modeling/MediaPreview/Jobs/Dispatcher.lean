import Mathlib.Data.List.Count
import Mathlib.Data.Nat.Notation

/-!
# The dispatcher's queues

A job's files go through two queues. The dispatch loop picks a file off `check_queue` and starts
a checking thread with it; the thread records the file, or appends it to `item_queue`. The loop
takes files off `item_queue` for the workers and reaps what the workers finished: a file is
recorded, or goes back to the front of `item_queue` for another worker. A job may be parked, once
nothing of it is under way, and it may be cancelled from any thread at any time.

Three locks are at work, and only what one thread does under one of them is one event here:
* the dispatch loop holds `_trackers_lock` from its look at a queue until the file is with a
  thread (`picking`, `assigning` and the flights that are `locked`); parking and the ends of
  checks and tasks take it too;
* `_counts_lock` guards the counters. A cancel holds it (`drain`) while it reads the lengths of
  the two queues, then clears them, one after the other; files are taken off `item_queue` under
  it, but not off `check_queue`;
* checking threads append to `item_queue` without any lock.

A file that is on its way is a flight, at one of the points between those blocks (`Stage`). The
counts by outcome, the publishers' rows, what is remembered about nodes and GPUs, and which
worker takes which file are left out: they move no file.

`recorded`, `parked`, `stale` and `touched` are no part of the code. They keep what the code has
counted, what parking took out of the queues, and what became of cancels.
-/

namespace MediaPreview.Dispatch

/-- `JobTracker`. -/
structure JobTracker (ι : Type) where
  /-- `total_items`. -/
  totalItems : ℕ
  /-- `check_queue`. -/
  checkQueue : List ι
  /-- `item_queue`. -/
  itemQueue : List ι
  /-- `active_checks`. -/
  activeChecks : ℕ
  /-- `active_processing`. -/
  activeProcessing : ℕ
  /-- `successful`. -/
  successful : ℕ
  /-- `failed`. -/
  failed : ℕ
  /-- `failed_paths`. -/
  failedPaths : List String
  /-- `park_requested`. -/
  parkRequested : Bool
  /-- `detached`. -/
  detached : Bool
  /-- `cancelled`. -/
  cancelled : Bool
  /-- `done_event`. -/
  doneEvent : Bool

/-- What a job brings from an earlier run. -/
structure Carried where
  /-- `successful`. -/
  successful : ℕ
  /-- `failed`. -/
  failed : ℕ
  /-- `failed_paths`. -/
  failedPaths : List String

/-- Which count the thread with a file still has to lower when it is through with it. -/
inductive Duty where
  /-- `active_checks`: a checking thread. -/
  | check
  /-- `active_processing`: a file that was with a worker, or was stranded. -/
  | work
  /-- None: a file its worker couldn't start on, which the loop records under `_trackers_lock`. -/
  | unstarted
  deriving DecidableEq

/-- Where a file is that is in no queue. -/
inductive Stage where
  /-- The loop picked it and starts its thread; `late` if a cancel had counted it in `check_queue`. -/
  | picked (late : Bool)
  /-- Its thread has started, and is before its first look at the cancel. -/
  | checking (late : Bool)
  /-- Its check runs. -/
  | running
  /-- It needs work, and its thread has looked at the cancel for the last time. -/
  | appending
  /-- It is off `item_queue`, and the loop still holds `_trackers_lock`. -/
  | taken
  /-- A worker has it. -/
  | working
  /-- A worker gave it back, and it is about to go to the front of `item_queue`. -/
  | requeueing
  /-- `record_completion` is called, and has not counted it. -/
  | recording (duty : Duty) (success : Bool)
  /-- It is counted, and `done_event` is still to be set if it was the last. -/
  | counted (duty : Duty) (isDone : Bool)
  /-- It is recorded, queued again or dropped, and a count is still to be lowered. -/
  | ending (duty : Duty)
  /-- Nothing is left to do. -/
  | gone

namespace Stage

/-- The file is nowhere else. -/
def holds : Stage → Bool
  | picked _ => true
  | checking _ => true
  | running => true
  | appending => true
  | taken => true
  | working => true
  | requeueing => true
  | recording _ _ => true
  | counted _ _ => false
  | ending _ => false
  | gone => false

/-- What the thread still has to lower. -/
def duty : Stage → Option Duty
  | picked _ => some .check
  | checking _ => some .check
  | running => some .check
  | appending => some .check
  | taken => some .unstarted
  | working => some .work
  | requeueing => some .work
  | recording duty _ => some duty
  | counted duty _ => some duty
  | ending duty => some duty
  | gone => none

/-- The loop holds `_trackers_lock` for it. -/
def locked (stage : Stage) : Bool := stage.duty = some .unstarted

/-- It has been picked and its thread has not started. -/
def isPicked : Stage → Bool
  | picked _ => true
  | _ => false

/-- A cancel had counted it when it was picked. -/
def late : Stage → Bool
  | picked late => late
  | checking late => late
  | _ => false

/-- It was the last file, and its thread is about to set `done_event`. -/
def announces : Stage → Bool
  | counted _ isDone => isDone
  | _ => false

end Stage

/-- A file on its way. -/
structure Flight (ι : Type) where
  /-- The file. -/
  item : ι
  /-- Where it is. -/
  stage : Stage

/-- How far a cancel got under `_counts_lock`; `remaining` is what it read. -/
inductive Drain where
  /-- It read how many files `check_queue` has. -/
  | checks (remaining : ℕ)
  /-- It read how many `item_queue` has. -/
  | items (remaining : ℕ)
  /-- It extended `failed_paths`. -/
  | named (remaining : ℕ)
  /-- It cleared `check_queue`. -/
  | cleared (remaining : ℕ)
  /-- It cleared `item_queue`. -/
  | both (remaining : ℕ)

/-- What `park_snapshot` returns. -/
structure Snapshot (ι : Type) where
  /-- `items`. -/
  items : List ι
  /-- `successful`. -/
  successful : ℕ
  /-- `failed`. -/
  failed : ℕ
  /-- `failed_paths`. -/
  failedPaths : List String
  /-- `total_items`. -/
  totalItems : ℕ

/-- A job's tracker, and the threads that are at it. -/
structure JobDispatcher (ι : Type) where
  /-- The items the job was submitted with. -/
  items : List ι
  /-- The tracker. -/
  tracker : JobTracker ι
  /-- `submit_items` has registered the tracker, and has not looked whether there are items. -/
  submitting : Bool
  /-- The files that are or were on their way, in the order they left a queue. -/
  flights : List (Flight ι)
  /-- `_get_next_check_item` found the job eligible and holds `_trackers_lock`. -/
  picking : Bool
  /-- `_assign_tasks_locked` found the job eligible and holds `_trackers_lock`. -/
  assigning : Bool
  /-- What `cancel_check` says. -/
  flagged : Bool
  /-- Calls of `cancel` that have set `cancelled`, and wait for `_counts_lock`. -/
  begun : ℕ
  /-- The call of `cancel` that has `_counts_lock`. -/
  drain : Option Drain
  /-- Calls of `cancel` that have left the lock, and not set `done_event`. -/
  ending : ℕ
  /-- The files that were counted. -/
  recorded : List ι
  /-- The files that were in the queues when the tracker was detached. -/
  parked : List ι
  /-- How many files of `check_queue` a cancel has counted before: they were picked before it cleared the queue, and
  put back when their threads couldn't start. -/
  stale : ℕ
  /-- The job has been cancelled, or asked to. -/
  touched : Bool

variable {ι : Type}

namespace JobTracker

/-- `JobTracker.__init__`. -/
def new (items : List ι) (carried : Carried) : JobTracker ι where
  totalItems := items.length + carried.successful + carried.failed
  checkQueue := items
  itemQueue := []
  activeChecks := 0
  activeProcessing := 0
  successful := carried.successful
  failed := carried.failed
  failedPaths := carried.failedPaths
  parkRequested := false
  detached := false
  cancelled := false
  doneEvent := false

/-- The counts of `record_completion`. -/
def tally (t : JobTracker ι) (path : ι → String) (item : ι) (success : Bool) : JobTracker ι :=
  if success then { t with successful := t.successful + 1 }
  else { t with failed := t.failed + 1
                failedPaths := if path item = "" then t.failedPaths else t.failedPaths ++ [path item] }

/-- `is_done` of `record_completion`. -/
def isDone (t : JobTracker ι) : Bool := t.totalItems ≤ t.successful + t.failed

end JobTracker

/-- What came of a worker's task. -/
inductive Outcome where
  /-- It is over. -/
  | finished (success : Bool)
  /-- Its GPU couldn't run the file: `_requeue_for_another_gpu`. -/
  | handedOff
  /-- Its node gave the file back: `_requeue_or_fail`, and whether that fails it. -/
  | requeue (failure : Bool)
  deriving DecidableEq

/-- What the thread with a file does next. -/
inductive Act where
  /-- The checking thread starts. -/
  | start
  /-- It couldn't start: the file goes back to the front of `check_queue`. -/
  | failStart
  /-- The checking thread's first look at the cancel. -/
  | look
  /-- The check says the file needs work, or raises. -/
  | needsWork
  /-- The check decides the file. -/
  | decide (success : Bool)
  /-- `item_queue.append`. -/
  | append
  /-- `record_completion` counts the file. -/
  | count
  /-- `record_completion` sets `done_event` if it was the last. -/
  | signal
  /-- The count the thread has to lower is lowered. -/
  | leave
  /-- `assign_task` started a worker on the file. -/
  | assigned
  /-- `assign_task` raised. -/
  | refuse
  /-- No configured worker can run the file: it is stranded. -/
  | strand
  /-- `_check_completions` finds the worker's task over. -/
  | reap (outcome : Outcome)
  /-- The file goes back to the front of `item_queue`. -/
  | requeue
  deriving DecidableEq

/-- Something that happens. -/
inductive Event where
  /-- `submit_items` looks whether there are items. -/
  | submit
  /-- `_get_next_check_item` finds the job eligible. -/
  | pickTest
  /-- It takes the first file off `check_queue`. -/
  | pickPop
  /-- `_assign_tasks_locked` finds the job eligible. -/
  | assignTest
  /-- `_take_queued` at an index. -/
  | take (index : ℕ)
  /-- No worker is claimed. -/
  | assignNone
  /-- The thread with a file goes on. -/
  | act (flight : ℕ) (act : Act)
  /-- `request_park`. -/
  | requestPark
  /-- `detach_parked`. -/
  | detachParked
  /-- `cancel_check` changes. -/
  | flag (value : Bool)
  /-- `cancel` sets `cancelled`. -/
  | cancelBegin
  /-- `cancel` reads the length of `check_queue`. -/
  | cancelChecks
  /-- `cancel` reads the length of `item_queue`. -/
  | cancelItems
  /-- `cancel` extends `failed_paths`. -/
  | cancelPaths
  /-- `cancel` clears `check_queue`. -/
  | cancelClearChecks
  /-- `cancel` clears `item_queue`. -/
  | cancelClearItems
  /-- `cancel` adds to `failed`, and leaves `_counts_lock`. -/
  | cancelAdd
  /-- `cancel` sets `done_event`. -/
  | cancelDone
  deriving DecidableEq

namespace JobDispatcher

/-- A job that has just been submitted. -/
def start (items : List ι) (carried : Carried) : JobDispatcher ι where
  items := items
  tracker := .new items carried
  submitting := true
  flights := []
  picking := false
  assigning := false
  flagged := false
  begun := 0
  drain := none
  ending := 0
  recorded := []
  parked := []
  stale := 0
  touched := false

/-- `is_cancelled`. -/
def isCancelled (d : JobDispatcher ι) : Bool := d.flagged || d.tracker.cancelled

/-- Nobody holds `_trackers_lock`. -/
def trackersFree (d : JobDispatcher ι) : Bool := !d.picking && !d.assigning && !d.flights.any (·.stage.locked)

/-- A cancel has counted the files of `check_queue`, and not cleared it. -/
def counting (d : JobDispatcher ι) : Bool :=
  match d.drain with
  | some (.checks _) => true
  | some (.items _) => true
  | some (.named _) => true
  | _ => false

/-- A flight moved on. -/
def moved (d : JobDispatcher ι) (i : ℕ) (f : Flight ι) (stage : Stage) : JobDispatcher ι :=
  { d with flights := d.flights.set i { f with stage := stage } }

/-- What the thread with a file does, where it is. -/
def actStep (d : JobDispatcher ι) (path : ι → String) (i : ℕ) (f : Flight ι) (act : Act) : Option (JobDispatcher ι) :=
  let t := d.tracker
  match act, f.stage with
  | .start, .picked late => some (d.moved i f (.checking late))
  | .failStart, .picked late =>
    if d.trackersFree then
      some { d.moved i f .gone with
        tracker := { t with activeChecks := t.activeChecks - 1, checkQueue := f.item :: t.checkQueue }
        stale := d.stale + late.toNat }
    else none
  | .look, .checking _ => some (d.moved i f (if d.isCancelled || t.doneEvent then .ending .check else .running))
  | .needsWork, .running =>
    some (d.moved i f (if d.isCancelled || t.doneEvent then .ending .check else .appending))
  -- Recording a preview check's result may still raise before the file is counted.
  | .needsWork, .recording .check _ =>
    some (d.moved i f (if d.isCancelled || t.doneEvent then .ending .check else .appending))
  | .decide success, .running =>
    some (d.moved i f (if t.doneEvent then .ending .check else .recording .check success))
  | .append, .appending =>
    some { d.moved i f (.ending .check) with tracker := { t with itemQueue := t.itemQueue ++ [f.item] } }
  | .count, .recording duty success =>
    if d.drain.isNone then
      let tallied := t.tally path f.item success
      some { d.moved i f (.counted duty tallied.isDone) with tracker := tallied, recorded := d.recorded ++ [f.item] }
    else none
  | .signal, .counted duty isDone =>
    some { d.moved i f (.ending duty) with tracker := { t with doneEvent := t.doneEvent || isDone } }
  | .leave, .ending .check =>
    if d.trackersFree then
      some { d.moved i f .gone with tracker := { t with activeChecks := t.activeChecks - 1 } }
    else none
  | .leave, .ending .work =>
    if d.trackersFree then
      some { d.moved i f .gone with tracker := { t with activeProcessing := t.activeProcessing - 1 } }
    else none
  | .leave, .ending .unstarted => some (d.moved i f .gone)
  | .assigned, .taken =>
    some { d.moved i f .working with tracker := { t with activeProcessing := t.activeProcessing + 1 } }
  -- `active_processing` goes up, and down again.
  | .refuse, .taken => some (d.moved i f (.recording .unstarted false))
  | .strand, .taken =>
    some { d.moved i f (.recording .work false) with
      tracker := { t with activeProcessing := t.activeProcessing + 1 } }
  | .reap outcome, .working =>
    -- A task of a job that is done is only logged.
    if t.doneEvent then some (d.moved i f .gone)
    else match outcome with
      | .finished success => some (d.moved i f (.recording .work success))
      | .handedOff => some (d.moved i f .requeueing)
      | .requeue failure => some (d.moved i f (if failure then .recording .work false else .requeueing))
  | .requeue, .requeueing =>
    if d.trackersFree then
      some { d.moved i f .gone with
        tracker := { t with itemQueue := f.item :: t.itemQueue, activeProcessing := t.activeProcessing - 1 } }
    else none
  | _, _ => none

/-- One event; `none` where it cannot happen. -/
def step (d : JobDispatcher ι) (path : ι → String) (event : Event) : Option (JobDispatcher ι) :=
  let t := d.tracker
  match event with
  | .submit =>
    if d.submitting then
      some { d with submitting := false, tracker := { t with doneEvent := t.doneEvent || d.items.isEmpty } }
    else none
  | .pickTest =>
    if d.trackersFree ∧ !d.flights.any (·.stage.isPicked) ∧ !t.detached ∧ !t.doneEvent ∧ !t.parkRequested ∧
        !d.isCancelled ∧ !t.checkQueue.isEmpty then
      some { d with picking := true }
    else none
  | .pickPop =>
    if d.picking then
      match t.checkQueue with
      -- A cancel has cleared the queue since: `popleft` raises.
      | [] => some { d with picking := false }
      | item :: rest =>
        some { d with picking := false
                      flights := d.flights ++ [⟨item, .picked d.counting⟩]
                      tracker := { t with checkQueue := rest, activeChecks := t.activeChecks + 1 } }
    else none
  | .assignTest =>
    -- `is_cancelled` was asked before the lock was taken.
    if d.trackersFree ∧ !t.detached ∧ !t.doneEvent ∧ !t.parkRequested ∧ !t.cancelled ∧ !t.itemQueue.isEmpty then
      some { d with assigning := true }
    else none
  | .take index =>
    if d.assigning ∧ d.drain.isNone then
      match t.itemQueue[index]? with
      | none => some { d with assigning := false }
      | some item =>
        some { d with assigning := false
                      flights := d.flights ++ [⟨item, .taken⟩]
                      tracker := { t with itemQueue := t.itemQueue.eraseIdx index } }
    else none
  | .assignNone => if d.assigning then some { d with assigning := false } else none
  | .act i act => d.flights[i]?.bind fun f => d.actStep path i f act
  | .requestPark =>
    if d.trackersFree ∧ !t.detached ∧ !t.doneEvent then
      some { d with tracker := { t with parkRequested := true } }
    else none
  | .detachParked =>
    if d.trackersFree ∧ !t.detached ∧ t.parkRequested ∧ t.activeChecks = 0 ∧ t.activeProcessing = 0 ∧
        !t.doneEvent then
      some { d with tracker := { t with detached := true, checkQueue := [], itemQueue := [] }
                    parked := d.parked ++ t.itemQueue ++ t.checkQueue
                    stale := 0 }
    else none
  | .flag value => some { d with flagged := value, touched := d.touched || value }
  | .cancelBegin => some { d with tracker := { t with cancelled := true }, begun := d.begun + 1, touched := true }
  | .cancelChecks =>
    if 0 < d.begun ∧ d.drain.isNone then
      some { d with begun := d.begun - 1, drain := some (.checks t.checkQueue.length) }
    else none
  | .cancelItems =>
    match d.drain with
    | some (.checks remaining) => some { d with drain := some (.items (remaining + t.itemQueue.length)) }
    | _ => none
  | .cancelPaths =>
    match d.drain with
    | some (.items remaining) =>
      some { d with drain := some (.named remaining)
                    tracker := { t with failedPaths := t.failedPaths ++ (t.checkQueue ++ t.itemQueue).map path } }
    | _ => none
  | .cancelClearChecks =>
    match d.drain with
    | some (.named remaining) =>
      some { d with drain := some (.cleared remaining), tracker := { t with checkQueue := [] }, stale := 0 }
    | _ => none
  | .cancelClearItems =>
    match d.drain with
    | some (.cleared remaining) =>
      some { d with drain := some (.both remaining), tracker := { t with itemQueue := [] } }
    | _ => none
  | .cancelAdd =>
    match d.drain with
    | some (.both remaining) =>
      some { d with drain := none, ending := d.ending + 1, tracker := { t with failed := t.failed + remaining } }
    | _ => none
  | .cancelDone =>
    if 0 < d.ending then some { d with ending := d.ending - 1, tracker := { t with doneEvent := true } } else none

/-- Events one after another. -/
def run (d : JobDispatcher ι) (path : ι → String) : List Event → Option (JobDispatcher ι)
  | [] => some d
  | e :: es => (d.step path e).bind fun d' => d'.run path es

/-- `park_snapshot`. -/
def parkSnapshot (d : JobDispatcher ι) : Option (Snapshot ι) :=
  let t := d.tracker
  if d.trackersFree ∧ d.drain.isNone ∧ t.parkRequested ∧ !t.detached ∧ t.activeChecks = 0 ∧ t.activeProcessing = 0 ∧
      !t.doneEvent then
    some ⟨t.itemQueue ++ t.checkQueue, t.successful, t.failed, t.failedPaths, t.totalItems⟩
  else none

/-- The files on their way: with a check, with a worker or stranded. -/
def inFlight (d : JobDispatcher ι) : List ι := (d.flights.filter (·.stage.holds)).map Flight.item

end JobDispatcher

end MediaPreview.Dispatch
