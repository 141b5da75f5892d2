import MediaPreview.Lib.Runs
import Mathlib.Data.List.Dedup
import Mathlib.Data.Nat.Basic
import Mathlib.Logic.Function.Basic

/-!
# A node's task table

`TaskTable` of `nodes/server/tasks.py`: each task is one op run in a thread of its own, with a temp dir of its own. A
call is the critical sections it goes through, and what it does between them, one step each: a start checks, makes
its temp dir, and checks again before it registers the task; dropping a task takes it from the table and then tells
its thread; the thread returns from the op, says so, and looks whether it was told. Calls that are under way are kept
as what they have left to do (`Start`, `Drop`).

Every task ever registered stays in the model under a number of its own, whether the table still has it or not.
-/

namespace MediaPreview.Nodes

/-- `DELETED_ID_KEEP_S`, in nanoseconds as every time here. -/
def deletedIdKeep : ℕ := 300000000000

/-- `DELETED_IDS_MAX`. -/
def deletedIdsMax : ℕ := 1024

/-- How far a task's thread is. -/
inductive Thread where
  /-- It could not be made. -/
  | none
  /-- In its op. -/
  | running
  /-- Back from the op. -/
  | returned
  /-- The task is finished; the thread is yet to look whether it was discarded. -/
  | finishing
  /-- It was, and its temp dir is to be removed. -/
  | removing
  /-- At its end. -/
  | over
  deriving DecidableEq, Repr

/-- `NodeTask`. -/
structure Task (κ : Type*) where
  /-- The task's id. -/
  id : κ
  /-- `finished`: when. -/
  finished : Option ℕ
  /-- `last_contact`. -/
  lastContact : ℕ
  /-- `discarded`. -/
  discarded : Bool
  /-- `temp_dir`, by number. -/
  tempDir : ℕ
  /-- `thread`. -/
  thread : Thread

/-- A start under way. -/
inductive Start (κ : Type*) where
  /-- Its first critical section let it through. -/
  | checked (id : κ)
  /-- It has its temp dir. -/
  | made (id : κ) (tempDir : ℕ)
  deriving DecidableEq

/-- A `_discard` under way. -/
inductive Drop where
  /-- To be told its task. -/
  | pending (k : ℕ)
  /-- The task was finished: its temp dir is to be removed. -/
  | removing (k : ℕ)
  deriving DecidableEq, Repr

/-- The table, the tasks, and the calls under way. -/
structure TaskTable (κ : Type*) where
  /-- `time.monotonic()`. -/
  clock : ℕ
  /-- `_stop`. -/
  stop : Bool
  /-- `close` has collected the tasks. -/
  collected : Bool
  /-- `_tasks`: a task's number by its id. -/
  table : κ → Option ℕ
  /-- Every task registered. -/
  tasks : ℕ → Option (Task κ)
  /-- How many there are. -/
  taskCount : ℕ
  /-- `_deleted_unknown`, oldest first. -/
  deletedUnknown : List (κ × ℕ)
  /-- The starts under way. -/
  starts : List (Start κ)
  /-- The discards under way. -/
  drops : List Drop
  /-- The temp dirs there are. -/
  dirs : ℕ → Bool
  /-- How many were made. -/
  dirCount : ℕ

/-- The table's settings. -/
structure TableConfig where
  /-- `unpolled_expiry_s`. -/
  unpolledExpiry : ℕ
  /-- `finished_keep_s`. -/
  finishedKeep : ℕ

/-- What happens to a table. -/
inductive TaskEvent (κ : Type*) where
  /-- Time passes. -/
  | tick (n : ℕ)
  /-- `start`, its first critical section. -/
  | check (id : κ)
  /-- `_make_temp_dir`, or its failure. -/
  | makeDir (id : κ) (ok : Bool)
  /-- `start`, its second critical section; the thread may not be makeable. -/
  | register (id : κ) (tempDir : ℕ) (threadOk : Bool)
  /-- An op returns or raises. -/
  | opReturns (k : ℕ)
  /-- `finish`. -/
  | finish (k : ℕ)
  /-- `_run` looks whether its task was discarded. -/
  | look (k : ℕ)
  /-- `_run` removes the temp dir. -/
  | threadRemoves (k : ℕ)
  /-- `_touch`: a poll, a cancel, a pause. -/
  | touch (id : κ)
  /-- `delete`, its critical section. -/
  | delete (id : κ)
  /-- `_discard`, its critical section. -/
  | discard (k : ℕ)
  /-- `_discard` removes the temp dir. -/
  | dropRemoves (k : ℕ)
  /-- `reap`, its critical section, by the time read before it. -/
  | reap (now : ℕ)
  /-- `close` sets the stop flag. -/
  | stop
  /-- `close` collects the tasks. -/
  | collect

namespace TaskTable

variable {κ : Type*} [DecidableEq κ]

/-- `__init__`. -/
def empty : TaskTable κ where
  clock := 0
  stop := false
  collected := false
  table _ := none
  tasks _ := none
  taskCount := 0
  deletedUnknown := []
  starts := []
  drops := []
  dirs _ := false
  dirCount := 0

/-- `_refuse_deleted`'s loop: ids past their time go first. -/
def purge (now : ℕ) (deleted : List (κ × ℕ)) : List (κ × ℕ) :=
  deleted.dropWhile fun d => decide (deletedIdKeep ≤ now - d.2)

/-- `delete` of an id the table does not know. -/
def remember (now : ℕ) (id : κ) (deleted : List (κ × ℕ)) : List (κ × ℕ) :=
  let deleted := deleted.filter (fun d => d.1 ≠ id) ++ [(id, now)]
  deleted.drop (deleted.length - deletedIdsMax)

/-- A start that is refused after its temp dir was made. -/
def abandon (s : TaskTable κ) (id : κ) (tempDir : ℕ) : TaskTable κ :=
  { s with starts := s.starts.erase (.made id tempDir), dirs := Function.update s.dirs tempDir false }

/-- A task's record changes. -/
def update (s : TaskTable κ) (k : ℕ) (f : Task κ → Task κ) : TaskTable κ :=
  { s with tasks := Function.update s.tasks k ((s.tasks k).map f) }

omit [DecidableEq κ] in
theorem tasks_update_self (s : TaskTable κ) (k : ℕ) (f : Task κ → Task κ) : (s.update k f).tasks k = (s.tasks k).map f :=
  Function.update_self ..

omit [DecidableEq κ] in
theorem tasks_update_of_ne (s : TaskTable κ) {k k' : ℕ} (h : k' ≠ k) (f : Task κ → Task κ) :
    (s.update k f).tasks k' = s.tasks k' := Function.update_of_ne h ..

/-- `start` registers its task and starts its thread; the task stays in the table when that raises. -/
def add (s : TaskTable κ) (id : κ) (tempDir : ℕ) (threadOk : Bool) : TaskTable κ :=
  { s with
    starts := s.starts.erase (.made id tempDir)
    table := Function.update s.table id (some s.taskCount)
    tasks := Function.update s.tasks s.taskCount (some {
      id := id
      finished := none
      lastContact := s.clock
      discarded := false
      tempDir := tempDir
      thread := if threadOk then .running else .none })
    taskCount := s.taskCount + 1 }

/-- `reap`'s test of a task. -/
def expired (cfg : TableConfig) (now : ℕ) (t : Task κ) : Bool :=
  match t.finished with
  | some finished => cfg.finishedKeep ≤ now - max t.lastContact finished
  | none => cfg.unpolledExpiry ≤ now - t.lastContact

/-- The tasks of the table, by number, that meet a test. -/
def tasksOf (s : TaskTable κ) (p : Task κ → Bool) : List ℕ :=
  (List.range s.taskCount).filter fun k => (s.tasks k).any fun t => s.table t.id = some k && p t

/-- `reap`. -/
def reap (cfg : TableConfig) (now : ℕ) (s : TaskTable κ) : TaskTable κ :=
  let expired := s.tasksOf (expired cfg now)
  { s with
    table := fun id => (s.table id).filter fun k => k ∉ expired
    drops := s.drops ++ expired.map .pending }

/-- One step; `none` where no call is there to make it. -/
def step (cfg : TableConfig) (s : TaskTable κ) : TaskEvent κ → Option (TaskTable κ)
  | .tick n => some { s with clock := s.clock + n }
  | .check id =>
    if s.stop then some s
    else
      let deleted := purge s.clock s.deletedUnknown
      if id ∈ deleted.map Prod.fst ∨ (s.table id).isSome then some { s with deletedUnknown := deleted }
      else some { s with deletedUnknown := deleted, starts := s.starts ++ [.checked id] }
  | .makeDir id ok =>
    if .checked id ∈ s.starts then
      if ok then
        some { s with
          starts := s.starts.erase (.checked id) ++ [.made id s.dirCount]
          dirs := Function.update s.dirs s.dirCount true
          dirCount := s.dirCount + 1 }
      else some { s with starts := s.starts.erase (.checked id) }
    else none
  | .register id tempDir threadOk =>
    if .made id tempDir ∈ s.starts then
      if s.stop then some (s.abandon id tempDir)
      else
        let s := { s with deletedUnknown := purge s.clock s.deletedUnknown }
        if id ∈ s.deletedUnknown.map Prod.fst then some (s.abandon id tempDir)
        else if (s.table id).isSome then some (s.abandon id tempDir)
        else some (s.add id tempDir threadOk)
    else none
  | .opReturns k =>
    if (s.tasks k).map Task.thread = some .running then some (s.update k fun t => { t with thread := .returned }) else none
  | .finish k =>
    if (s.tasks k).map Task.thread = some .returned then
      some (s.update k fun t => { t with finished := some s.clock, thread := .finishing })
    else none
  | .look k =>
    if (s.tasks k).map Task.thread = some .finishing then
      some (s.update k fun t => { t with thread := if t.discarded then .removing else .over })
    else none
  | .threadRemoves k =>
    match s.tasks k with
    | some t =>
      if t.thread = .removing then
        some { s.update k fun t => { t with thread := .over } with dirs := Function.update s.dirs t.tempDir false }
      else none
    | none => none
  | .touch id =>
    match s.table id with
    | some k => some (s.update k fun t => { t with lastContact := s.clock })
    | none => some s
  | .delete id =>
    match s.table id with
    | some k => some { s with table := Function.update s.table id none, drops := s.drops ++ [.pending k] }
    | none => some { s with deletedUnknown := remember s.clock id s.deletedUnknown }
  | .discard k =>
    if .pending k ∈ s.drops then
      match s.tasks k with
      | some t =>
        let s' := s.update k fun t => { t with discarded := true }
        if t.finished.isSome then some { s' with drops := s.drops.erase (.pending k) ++ [.removing k] }
        else some { s' with drops := s.drops.erase (.pending k) }
      | none => none
    else none
  | .dropRemoves k =>
    if .removing k ∈ s.drops then
      match s.tasks k with
      | some t =>
        some { s with drops := s.drops.erase (.removing k), dirs := Function.update s.dirs t.tempDir false }
      | none => none
    else none
  | .reap now => if now ≤ s.clock then some (s.reap cfg now) else none
  | .stop => some { s with stop := true }
  | .collect =>
    if s.stop then
      some { s with collected := true, drops := s.drops ++ (s.tasksOf fun _ => true).map .pending }
    else none

/-- What a step can do, branch by branch. -/
inductive Moves (cfg : TableConfig) (s : TaskTable κ) : TaskEvent κ → TaskTable κ → Prop where
  | tick (n : ℕ) : Moves cfg s (.tick n) { s with clock := s.clock + n }
  | stopping (id : κ) (hs : s.stop = true) : Moves cfg s (.check id) s
  | known (id : κ) (hs : s.stop = false) :
      Moves cfg s (.check id) { s with deletedUnknown := purge s.clock s.deletedUnknown }
  | checked (id : κ) (hs : s.stop = false) :
      Moves cfg s (.check id)
        { s with deletedUnknown := purge s.clock s.deletedUnknown, starts := s.starts ++ [.checked id] }
  | dirMade (id : κ) (h : .checked id ∈ s.starts) :
      Moves cfg s (.makeDir id true) { s with
        starts := s.starts.erase (.checked id) ++ [.made id s.dirCount]
        dirs := Function.update s.dirs s.dirCount true
        dirCount := s.dirCount + 1 }
  | dirFailed (id : κ) (h : .checked id ∈ s.starts) :
      Moves cfg s (.makeDir id false) { s with starts := s.starts.erase (.checked id) }
  | refused (id : κ) (tempDir : ℕ) (ok : Bool) (h : .made id tempDir ∈ s.starts) (hs : s.stop = true) :
      Moves cfg s (.register id tempDir ok) (s.abandon id tempDir)
  | abandoned (id : κ) (tempDir : ℕ) (ok : Bool) (h : .made id tempDir ∈ s.starts) (hs : s.stop = false) :
      Moves cfg s (.register id tempDir ok)
        ({ s with deletedUnknown := purge s.clock s.deletedUnknown }.abandon id tempDir)
  | added (id : κ) (tempDir : ℕ) (ok : Bool) (h : .made id tempDir ∈ s.starts) (hs : s.stop = false)
      (hd : id ∉ (purge s.clock s.deletedUnknown).map Prod.fst) (ht : s.table id = none) :
      Moves cfg s (.register id tempDir ok)
        ({ s with deletedUnknown := purge s.clock s.deletedUnknown }.add id tempDir ok)
  | opReturned (k : ℕ) (t : Task κ) (ht : s.tasks k = some t) (hr : t.thread = .running) :
      Moves cfg s (.opReturns k) (s.update k fun t => { t with thread := .returned })
  | finished (k : ℕ) (t : Task κ) (ht : s.tasks k = some t) (hr : t.thread = .returned) :
      Moves cfg s (.finish k) (s.update k fun t => { t with finished := some s.clock, thread := .finishing })
  | looked (k : ℕ) (t : Task κ) (ht : s.tasks k = some t) (hr : t.thread = .finishing) :
      Moves cfg s (.look k) (s.update k fun t => { t with thread := if t.discarded then .removing else .over })
  | threadRemoved (k : ℕ) (t : Task κ) (ht : s.tasks k = some t) (hr : t.thread = .removing) :
      Moves cfg s (.threadRemoves k)
        { s.update k fun t => { t with thread := .over } with dirs := Function.update s.dirs t.tempDir false }
  | touched (id : κ) (k : ℕ) (h : s.table id = some k) :
      Moves cfg s (.touch id) (s.update k fun t => { t with lastContact := s.clock })
  | untouched (id : κ) (h : s.table id = none) : Moves cfg s (.touch id) s
  | deleted (id : κ) (k : ℕ) (h : s.table id = some k) :
      Moves cfg s (.delete id) { s with table := Function.update s.table id none, drops := s.drops ++ [.pending k] }
  | remembered (id : κ) (h : s.table id = none) :
      Moves cfg s (.delete id) { s with deletedUnknown := remember s.clock id s.deletedUnknown }
  | discarded (k : ℕ) (t : Task κ) (ht : s.tasks k = some t) (h : .pending k ∈ s.drops) (hf : t.finished = none) :
      Moves cfg s (.discard k)
        { s.update k fun t => { t with discarded := true } with drops := s.drops.erase (.pending k) }
  | discardedFinished (k : ℕ) (t : Task κ) (ht : s.tasks k = some t) (h : .pending k ∈ s.drops)
      (hf : t.finished.isSome = true) :
      Moves cfg s (.discard k) { s.update k fun t => { t with discarded := true } with
        drops := s.drops.erase (.pending k) ++ [.removing k] }
  | dropRemoved (k : ℕ) (t : Task κ) (ht : s.tasks k = some t) (h : .removing k ∈ s.drops) :
      Moves cfg s (.dropRemoves k)
        { s with drops := s.drops.erase (.removing k), dirs := Function.update s.dirs t.tempDir false }
  | reaped (now : ℕ) (h : now ≤ s.clock) : Moves cfg s (.reap now) (s.reap cfg now)
  | stopped : Moves cfg s .stop { s with stop := true }
  | collected (h : s.stop = true) :
      Moves cfg s .collect { s with collected := true, drops := s.drops ++ (s.tasksOf fun _ => true).map .pending }

omit [DecidableEq κ] in
theorem exists_of_thread_eq {s : TaskTable κ} {k : ℕ} {th : Thread} (h : (s.tasks k).map Task.thread = some th) :
    ∃ t, s.tasks k = some t ∧ t.thread = th := Option.map_eq_some_iff.1 h

/-- **A step does one of these.** -/
theorem moves_of_step {cfg : TableConfig} {s s' : TaskTable κ} {e : TaskEvent κ} (h : step cfg s e = some s') :
    Moves cfg s e s' := by
  cases e with
  | tick n => exact Option.some.inj h ▸ .tick n
  | check id =>
    simp only [step] at h
    split_ifs at h with hs hk
    · exact Option.some.inj h ▸ .stopping id hs
    · exact Option.some.inj h ▸ .known id (Bool.eq_false_iff.2 hs)
    · exact Option.some.inj h ▸ .checked id (Bool.eq_false_iff.2 hs)
  | makeDir id ok =>
    simp only [step] at h
    split_ifs at h with hc hok
    · subst hok
      exact Option.some.inj h ▸ .dirMade id hc
    · obtain rfl := Bool.eq_false_iff.2 hok
      exact Option.some.inj h ▸ .dirFailed id hc
  | register id tempDir threadOk =>
    simp only [step] at h
    split_ifs at h with hm hs hd ht
    · exact Option.some.inj h ▸ .refused id tempDir threadOk hm hs
    · exact Option.some.inj h ▸ .abandoned id tempDir threadOk hm (Bool.eq_false_iff.2 hs)
    · exact Option.some.inj h ▸ .abandoned id tempDir threadOk hm (Bool.eq_false_iff.2 hs)
    · exact Option.some.inj h ▸ .added id tempDir threadOk hm (Bool.eq_false_iff.2 hs) hd (Option.not_isSome_iff_eq_none.1 ht)
  | opReturns k =>
    simp only [step] at h
    split_ifs at h with ht
    obtain ⟨t, ht, hr⟩ := exists_of_thread_eq ht
    exact Option.some.inj h ▸ .opReturned k t ht hr
  | finish k =>
    simp only [step] at h
    split_ifs at h with ht
    obtain ⟨t, ht, hr⟩ := exists_of_thread_eq ht
    exact Option.some.inj h ▸ .finished k t ht hr
  | look k =>
    simp only [step] at h
    split_ifs at h with ht
    obtain ⟨t, ht, hr⟩ := exists_of_thread_eq ht
    exact Option.some.inj h ▸ .looked k t ht hr
  | threadRemoves k =>
    simp only [step] at h
    split at h
    · next t ht =>
      split_ifs at h with hr
      exact Option.some.inj h ▸ .threadRemoved k t ht hr
    · cases h
  | touch id =>
    simp only [step] at h
    split at h
    · next k hk => exact Option.some.inj h ▸ .touched id k hk
    · next hk => exact Option.some.inj h ▸ .untouched id hk
  | delete id =>
    simp only [step] at h
    split at h
    · next k hk => exact Option.some.inj h ▸ .deleted id k hk
    · next hk => exact Option.some.inj h ▸ .remembered id hk
  | discard k =>
    simp only [step] at h
    split_ifs at h with hp
    split at h
    · next t ht =>
      split_ifs at h with hf
      · exact Option.some.inj h ▸ .discardedFinished k t ht hp hf
      · exact Option.some.inj h ▸ .discarded k t ht hp (Option.not_isSome_iff_eq_none.1 hf)
    · cases h
  | dropRemoves k =>
    simp only [step] at h
    split_ifs at h with hp
    split at h
    · next t ht => exact Option.some.inj h ▸ .dropRemoved k t ht hp
    · cases h
  | reap now =>
    simp only [step] at h
    split_ifs at h with hn
    exact Option.some.inj h ▸ .reaped now hn
  | stop => exact Option.some.inj h ▸ .stopped
  | collect =>
    simp only [step] at h
    split_ifs at h with hs
    exact Option.some.inj h ▸ .collected hs

/-- A step begins an op thread for an id. -/
def Begins (s s' : TaskTable κ) (id : κ) : Prop :=
  ∃ t, s.tasks s.taskCount = none ∧ s'.tasks s.taskCount = some t ∧ t.id = id ∧ t.thread = .running

/-- A task's op runs. -/
def Running (s : TaskTable κ) (k : ℕ) (id : κ) : Prop := ∃ t, s.tasks k = some t ∧ t.id = id ∧ t.thread = .running

end TaskTable

end MediaPreview.Nodes
