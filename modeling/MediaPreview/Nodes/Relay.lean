import MediaPreview.Lib.Cursor
import MediaPreview.Lib.Runs
import Mathlib.Algebra.Ring.Nat
import Mathlib.Data.List.Basic

/-!
# A task's log lines, from the node to the job's log

`NodeTask._add_line` and `to_json` of `nodes/server/tasks.py` on the node, `_TaskRun.wait` and `_relay` of
`nodes/executor.py` in the app. The node numbers a task's lines and keeps the last `TASK_LOG_LINES`; the app polls for
the lines from its `next_log` on, and takes the node's next number over only with an answer it gets, so one that is lost
loses no line and repeats none (`relay_in_order`). The lines of the op may come at any time, also while an answer is on
its way.

The job's log has every line when no poll finds more than `TASK_LOG_LINES` new ones (`relay_whole`), and the last
`TASK_LOG_LINES` before the last answer otherwise.
-/

namespace MediaPreview.Nodes

open Cursor

/-- `TASK_LOG_LINES`. -/
@[irreducible] def taskLogLines : ℕ := 2000

/-- `RELAY_LINE_MAX`. -/
def relayLineMax : ℕ := 4096

/-- `STATUS_RUNNING` and the rest, which are `FINISHED_STATUSES`. -/
inductive Status where
  | running
  | done
  | failed
  | cancelled
  | fileNotVisible
  deriving DecidableEq, Repr

/-- A line of a task's log. -/
structure LogLine where
  /-- `seq`: its number. -/
  seq : ℕ
  /-- `level`. -/
  level : String
  /-- `message`. -/
  message : String
  /-- `per_file`: a line of one file's step-by-step log. -/
  perFile : Bool
  deriving DecidableEq, Repr

/-- What a poll is answered: of `TASK_STATE`, what `wait` reads. -/
structure TaskState where
  /-- `status`. -/
  status : Status
  /-- `log`. -/
  log : List LogLine
  /-- `next_log`. -/
  nextLog : ℕ

/-- `NodeTask`, as far as its log and its end go. -/
structure NodeTask where
  /-- `_log`, oldest first. -/
  log : List LogLine
  /-- `_next_seq`. -/
  nextSeq : ℕ
  /-- `status`. -/
  status : Status

namespace NodeTask

/-- `_add_line`. -/
def addLine (t : NodeTask) (level message : String) (perFile : Bool) : NodeTask where
  log := List.rtake (t.log ++ [⟨t.nextSeq, level, message, perFile⟩]) taskLogLines
  nextSeq := t.nextSeq + 1
  status := t.status

theorem log_addLine (t : NodeTask) (level message : String) (perFile : Bool) :
    (t.addLine level message perFile).log = List.rtake (t.log ++ [⟨t.nextSeq, level, message, perFile⟩]) taskLogLines :=
  rfl

@[simp] theorem nextSeq_addLine (t : NodeTask) (level message : String) (perFile : Bool) :
    (t.addLine level message perFile).nextSeq = t.nextSeq + 1 := rfl

/-- `to_json(log_from)`. -/
def toJson (t : NodeTask) (logFrom : ℕ) : TaskState := ⟨t.status, since LogLine.seq logFrom t.log, t.nextSeq⟩

end NodeTask

/-! ### A line in the job's log -/

/-- `_LINE_BREAKING_CHARS`: control characters but tab, and the line and paragraph separators. -/
def lineBreaking (c : Char) : Bool :=
  c.toNat ≤ 0x08 ∨ 0x0a ≤ c.toNat ∧ c.toNat ≤ 0x1f ∨ 0x7f ≤ c.toNat ∧ c.toNat ≤ 0x9f ∨ c.toNat = 0x2028 ∨
    c.toNat = 0x2029

/-- The last hexadecimal digits of a number. -/
def hex (digits n : ℕ) : List Char := (List.range digits).reverse.map fun i => Nat.digitChar (n / 16 ^ i % 16)

/-- `repr(c)[1:-1]` of a line-breaking character. -/
def escaped (c : Char) : List Char :=
  if c = '\n' then ['\\', 'n'] else if c = '\r' then ['\\', 'r']
  else if c.toNat < 0x100 then '\\' :: 'x' :: hex 2 c.toNat else '\\' :: 'u' :: hex 4 c.toNat

/-- `relayed_text`. -/
def relayedText (raw : List Char) : List Char :=
  (raw.take relayLineMax).flatMap fun c => if lineBreaking c then escaped c else [c]

/-- `str.replace(old, new)` for an `old` that is not empty; `skip` characters belong to the last one replaced. -/
def replace (old new : List Char) : ℕ → List Char → List Char
  | _, [] => []
  | skip + 1, _ :: s => replace old new skip s
  | 0, c :: s =>
    if old.isPrefixOf (c :: s) then new ++ replace old new (old.length - 1) s else c :: replace old new 0 s

/-- `_LEVELS`. -/
def levels : List String := ["TRACE", "DEBUG", "INFO", "SUCCESS", "WARNING", "ERROR", "CRITICAL"]

/-- A character of `str.upper()`, as far as the names of levels tell. -/
def upperChar (c : Char) : List Char :=
  if c = 'ı' then ['I'] else if c = 'ſ' then ['S'] else if c = 'ß' then ['S', 'S'] else [c.toUpper]

/-- `str.upper()`. -/
def upper (s : String) : String := String.ofList (s.toList.flatMap upperChar)

/-- What a run puts before a node's lines, and the file's path on the node with its path here where they differ. -/
structure Names where
  /-- `_prefix`. -/
  start : List Char
  /-- `_path_swap`. -/
  pathSwap : Option (List Char × List Char)

/-- A line of the job's log. -/
structure JobLine where
  /-- The level it is logged at. -/
  level : String
  /-- Its text. -/
  text : List Char
  /-- It goes through `per_file_logger`. -/
  perFile : Bool

/-- A node's line as `_relay` logs it. -/
def jobLine (names : Names) (line : LogLine) : JobLine where
  level := if upper line.level ∈ levels then upper line.level else "INFO"
  text := names.start ++ names.pathSwap.elim id (fun swap => replace swap.1 swap.2 0) (relayedText line.message.toList)
  perFile := line.perFile

/-! ### Node and app -/

/-- `_TaskRun`, as far as its log and its end go. -/
structure TaskRun where
  /-- `_next_log`. -/
  nextLog : ℕ
  /-- The lines it logged. -/
  jobLog : List JobLine
  /-- The status `wait` returned with. -/
  ended : Option Status

/-- `_relay`, and the end of `wait`. -/
def TaskRun.relay (names : Names) (run : TaskRun) (state : TaskState) : TaskRun where
  nextLog := state.nextLog
  jobLog := run.jobLog ++ state.log.map (jobLine names)
  ended := if state.status = .running then none else some state.status

/-- A task on a node and its run in the app. -/
structure Relay where
  /-- On the node. -/
  task : NodeTask
  /-- In the app. -/
  run : TaskRun
  /-- An answer of the node on its way. -/
  answer : Option TaskState

/-- What can happen. -/
inductive RelayEvent where
  /-- The op, or a thread of it, logs a line. -/
  | addLine (level message : String) (perFile : Bool)
  /-- `NodeTask.finish`. -/
  | finish (status : Status)
  /-- The node answers a poll. -/
  | poll
  /-- Its answer arrives. -/
  | arrive
  /-- Its answer is lost, or too late for the app. -/
  | lose
  deriving DecidableEq

namespace Relay

/-- A task that just started. -/
def start : Relay := ⟨⟨[], 0, .running⟩, ⟨0, [], none⟩, none⟩

/-- One event. The app polls one poll at a time, until `wait` returns. -/
def step (names : Names) (s : Relay) : RelayEvent → Option Relay
  | .addLine level message perFile => some { s with task := s.task.addLine level message perFile }
  | .finish status =>
    if s.task.status = .running ∧ status ≠ .running then some { s with task := { s.task with status := status } }
    else none
  | .poll =>
    if s.run.ended = none ∧ s.answer = none then some { s with answer := some (s.task.toJson s.run.nextLog) } else none
  | .arrive => s.answer.map fun a => { s with answer := none, run := s.run.relay names a }
  | .lose => s.answer.map fun _ => { s with answer := none }

end Relay

/-! ### The lines of a run -/

/-- What an event logs. -/
def RelayEvent.line : RelayEvent → Option (String × String × Bool)
  | .addLine level message perFile => some (level, message, perFile)
  | _ => none

/-- The lines a run logged, numbered. -/
def logged (es : List RelayEvent) : List LogLine :=
  (es.filterMap RelayEvent.line).zipIdx.map fun x => ⟨x.2, x.1.1, x.1.2.1, x.1.2.2⟩

theorem length_logged (es : List RelayEvent) : (logged es).length = (es.filterMap RelayEvent.line).length := by
  rw [logged, List.length_map, List.length_zipIdx]

theorem numbered_logged (es : List RelayEvent) : Numbered LogLine.seq (logged es) := by
  rw [Numbered, length_logged, logged, List.map_map]
  exact (List.zipIdx_map_snd 0 _).trans List.range_eq_range'.symm

theorem logged_append_addLine (es : List RelayEvent) (level message : String) (perFile : Bool) :
    logged (es ++ [.addLine level message perFile]) = logged es ++ [⟨(logged es).length, level, message, perFile⟩] := by
  rw [length_logged, logged, List.filterMap_append, List.zipIdx_append, List.map_append, Nat.zero_add]
  rfl

theorem logged_append_of_line_eq_none (es : List RelayEvent) {e : RelayEvent} (he : e.line = none) :
    logged (es ++ [e]) = logged es := by
  rw [logged, List.filterMap_append, List.filterMap_cons_none he, List.filterMap_nil, List.append_nil, logged]

theorem length_logged_le_append (es es' : List RelayEvent) : (logged es).length ≤ (logged (es ++ es')).length := by
  rw [length_logged, length_logged, List.filterMap_append, List.length_append]
  exact Nat.le_add_right _ _

/-- The op finished, and what it logged before is below a number. -/
def FinishedBelow (es : List RelayEvent) (status : Status) (n : ℕ) : Prop :=
  ∃ before after, es = before ++ .finish status :: after ∧ (logged before).length ≤ n

theorem FinishedBelow.append {es : List RelayEvent} {status : Status} {n : ℕ} (h : FinishedBelow es status n)
    (es' : List RelayEvent) : FinishedBelow (es ++ es') status n := by
  obtain ⟨before, after, rfl, hle⟩ := h
  exact ⟨before, after ++ es', by rw [List.append_assoc, List.cons_append], hle⟩

/-- What a run's state is, by what the run logged. -/
structure Follows (names : Names) (es : List RelayEvent) (s : Relay) : Prop where
  /-- The node numbers on from what was logged. -/
  nextSeq : s.task.nextSeq = (logged es).length
  /-- It keeps the last lines. -/
  log : s.task.log = (logged es).rtake taskLogLines
  /-- A task that is finished was. -/
  status : s.task.status ≠ .running → FinishedBelow es s.task.status s.task.nextSeq
  /-- The app read the lines. -/
  reads : ∃ seen, s.run.jobLog = seen.map (jobLine names) ∧ Reads taskLogLines (logged es) s.run.nextLog seen
  /-- `wait` returned after the lines of the op. -/
  ended : ∀ status ∈ s.run.ended, FinishedBelow es status s.run.nextLog
  /-- An answer on its way gives the lines there were, from the app's number on. -/
  answer : ∀ a ∈ s.answer, s.run.nextLog ≤ a.nextLog ∧ a.nextLog ≤ (logged es).length ∧
    a.log = since LogLine.seq s.run.nextLog (((logged es).take a.nextLog).rtake taskLogLines) ∧
    (a.status ≠ .running → FinishedBelow es a.status a.nextLog)

theorem follows_start (names : Names) : Follows names [] Relay.start where
  nextSeq := rfl
  log := (List.rtake_nil _).symm
  status h := absurd rfl h
  reads := ⟨[], rfl, reads_nil⟩
  ended _ h := by cases h
  answer _ h := by cases h

variable {names : Names} {es : List RelayEvent} {e : RelayEvent} {s s' : Relay}

/-- An event that logs nothing leaves what was logged as it is. -/
theorem Follows.quiet (h : Follows names es s) (he : e.line = none) : Follows names (es ++ [e]) s where
  nextSeq := by rw [logged_append_of_line_eq_none es he, h.nextSeq]
  log := by rw [logged_append_of_line_eq_none es he, h.log]
  status hs := (h.status hs).append _
  reads := by
    rw [logged_append_of_line_eq_none es he]
    exact h.reads
  ended status hstatus := (h.ended status hstatus).append _
  answer a ha := by
    rw [logged_append_of_line_eq_none es he]
    obtain ⟨hle, hlength, hlog, hfinished⟩ := h.answer a ha
    exact ⟨hle, hlength, hlog, fun hs => (hfinished hs).append _⟩

/-- A line more. -/
theorem Follows.addLine (h : Follows names es s) (level message : String) (perFile : Bool) :
    Follows names (es ++ [.addLine level message perFile])
      { s with task := s.task.addLine level message perFile } := by
  have hlength : (logged (es ++ [.addLine level message perFile])).length = (logged es).length + 1 := by
    rw [logged_append_addLine, List.length_append, List.length_singleton]
  constructor
  · rw [hlength, ← h.nextSeq]
    rfl
  · rw [logged_append_addLine, NodeTask.log_addLine, h.log, rtake_concat, h.nextSeq]
  · intro hs
    obtain ⟨before, after, hes, hle⟩ := h.status hs
    refine ⟨before, after ++ [.addLine level message perFile], ?_, ?_⟩
    · rw [hes, List.append_assoc, List.cons_append]
      rfl
    · rw [NodeTask.nextSeq_addLine]
      exact hle.trans (Nat.le_succ _)
  · obtain ⟨seen, hjob, hreads⟩ := h.reads
    exact ⟨seen, hjob, logged_append_addLine es level message perFile ▸ hreads.add⟩
  · exact fun status hstatus => (h.ended status hstatus).append _
  · intro a ha
    obtain ⟨hle, hlen, hlog, hfinished⟩ := h.answer a ha
    refine ⟨hle, hlen.trans (hlength ▸ Nat.le_succ _), ?_, fun hs => (hfinished hs).append _⟩
    rw [logged_append_addLine, List.take_append_of_le_length hlen, hlog]

/-- The node answers a poll. -/
theorem Follows.poll (h : Follows names es s) :
    Follows names es { s with answer := some (s.task.toJson s.run.nextLog) } where
  nextSeq := h.nextSeq
  log := h.log
  status := h.status
  reads := h.reads
  ended := h.ended
  answer a ha := by
    obtain rfl := Option.mem_some.mp ha
    obtain ⟨seen, -, hreads⟩ := h.reads
    refine ⟨?_, ?_, ?_, h.status⟩
    · exact hreads.le.trans_eq h.nextSeq.symm
    · exact h.nextSeq.le
    · change since LogLine.seq s.run.nextLog s.task.log = since _ _ (((logged es).take s.task.nextSeq).rtake _)
      rw [h.log, h.nextSeq, List.take_length]

/-- Its answer arrives. -/
theorem Follows.arrive (h : Follows names es s) {a : TaskState} (ha : s.answer = some a) :
    Follows names es { s with answer := none, run := s.run.relay names a } := by
  obtain ⟨hle, hlength, hlog, hfinished⟩ := h.answer a ha
  obtain ⟨seen, hjob, hreads⟩ := h.reads
  refine ⟨h.nextSeq, h.log, h.status, ⟨seen ++ a.log, ?_, ?_⟩, ?_, fun _ hnone => by cases hnone⟩
  · change s.run.jobLog ++ a.log.map (jobLine names) = _
    rw [hjob, List.map_append]
  · rw [hlog]
    exact hreads.read_take (numbered_logged es) hle hlength
  · intro status hstatus
    change status ∈ (if a.status = .running then none else some a.status) at hstatus
    split_ifs at hstatus with hrunning
    · cases hstatus
    · obtain rfl := Option.mem_some.mp hstatus
      exact hfinished hrunning

/-- **One event.** -/
theorem Follows.step (h : Follows names es s) (hstep : Relay.step names s e = some s') :
    Follows names (es ++ [e]) s' := by
  cases e with
  | addLine level message perFile =>
    obtain rfl := Option.some.inj hstep
    exact h.addLine level message perFile
  | finish status =>
    change (if s.task.status = .running ∧ status ≠ .running then
      some { s with task := { s.task with status := status } } else none) = some s' at hstep
    split_ifs at hstep
    obtain rfl := Option.some.inj hstep
    have hquiet := h.quiet (e := .finish status) rfl
    exact ⟨hquiet.nextSeq, hquiet.log, fun _ => ⟨es, [], rfl, h.nextSeq.symm.le⟩, hquiet.reads, hquiet.ended,
      hquiet.answer⟩
  | poll =>
    change (if s.run.ended = none ∧ s.answer = none then some { s with answer := some (s.task.toJson s.run.nextLog) }
      else none) = some s' at hstep
    split_ifs at hstep
    obtain rfl := Option.some.inj hstep
    exact h.poll.quiet rfl
  | arrive =>
    obtain ⟨a, ha, rfl⟩ := Option.map_eq_some_iff.mp hstep
    exact (h.arrive ha).quiet rfl
  | lose =>
    obtain ⟨a, -, rfl⟩ := Option.map_eq_some_iff.mp hstep
    have hquiet := h.quiet (e := .lose) rfl
    exact ⟨hquiet.nextSeq, hquiet.log, hquiet.status, hquiet.reads, hquiet.ended, fun _ hnone => by cases hnone⟩

theorem follows_of_runs (h : Runs (Relay.step names) Any Relay.start es s) : Follows names es s :=
  h.keeps_from (I := Follows names) (follows_start names) fun _ _ _ _ _ hstep hfollows => hfollows.step hstep

/-- **No line of a task is repeated or out of order in the job's log**, and the last ones are there, whenever polls come
and whichever answers are lost; once `wait` returned, those of the whole op were read. -/
theorem relay_in_order (h : Runs (Relay.step names) Any Relay.start es s) :
    s.run.jobLog.Sublist (((logged es).take s.run.nextLog).map (jobLine names)) ∧
      (((logged es).take s.run.nextLog).rtake taskLogLines).map (jobLine names) <:+ s.run.jobLog ∧
      ∀ status ∈ s.run.ended, FinishedBelow es status s.run.nextLog := by
  have hfollows := follows_of_runs h
  obtain ⟨seen, hjob, hreads⟩ := hfollows.reads
  rw [hjob]
  exact ⟨hreads.sublist.map _, hreads.recent.map _, hfollows.ended⟩

/-- A task on a node that has its folder elsewhere. -/
def nodeNames : Names := ⟨"den/GPU0 · ".toList, some ("/mnt/E.mkv".toList, "/tv/E.mkv".toList)⟩

/-- An answer is lost, a line comes while the next one is on its way, and the op ends. -/
def lossyRun : List RelayEvent :=
  [.addLine "INFO" "reading /mnt/E.mkv" false, .poll, .lose, .addLine "DEBUG" "step 1" true, .poll,
    .addLine "WARNING" "slow" false, .arrive, .finish .done, .poll, .arrive]

theorem runs_lossyRun : ∃ s, Runs (Relay.step nodeNames) Any Relay.start lossyRun s := by
  obtain ⟨s, hs⟩ := Option.isSome_iff_exists.mp
    (show (exec (Relay.step nodeNames) Relay.start lossyRun).isSome = true by decide +kernel)
  exact ⟨s, Runs.of_exec (fun _ _ _ => trivial) hs⟩

/-- The three lines in their order, the first with the path it has here. -/
theorem relay_in_order_lossyRun : ∃ s, Runs (Relay.step nodeNames) Any Relay.start lossyRun s ∧
    s.run.jobLog.Sublist (((logged lossyRun).take s.run.nextLog).map (jobLine nodeNames)) ∧
      (((logged lossyRun).take s.run.nextLog).rtake taskLogLines).map (jobLine nodeNames) <:+ s.run.jobLog ∧
      ∀ status ∈ s.run.ended, FinishedBelow lossyRun status s.run.nextLog := by
  obtain ⟨s, hrun⟩ := runs_lossyRun
  exact ⟨s, hrun, relay_in_order hrun⟩

/-- A poll finds no more new lines than the node keeps. -/
def KeepsUp (s : Relay) (e : RelayEvent) : Prop := e = .poll → s.task.nextSeq ≤ s.run.nextLog + taskLogLines

/-- What is in the job's log, and on its way, when every poll keeps up. -/
structure Whole (names : Names) (es : List RelayEvent) (s : Relay) : Prop extends Follows names es s where
  /-- The app has every line it read past. -/
  jobLog : s.run.jobLog = ((logged es).take s.run.nextLog).map (jobLine names)
  /-- It does not fall behind. -/
  near : ∀ a ∈ s.answer, a.nextLog ≤ s.run.nextLog + taskLogLines

theorem Whole.step (h : Whole names es s) (hkeeps : KeepsUp s e) (hstep : Relay.step names s e = some s') :
    Whole names (es ++ [e]) s' := by
  have hfollows := h.toFollows.step hstep
  have htake : ((logged (es ++ [e])).take s.run.nextLog) = (logged es).take s.run.nextLog := by
    obtain ⟨seen, -, hreads⟩ := h.reads
    cases e with
    | addLine level message perFile => rw [logged_append_addLine, List.take_append_of_le_length hreads.le]
    | finish _ | poll | arrive | lose => rw [logged_append_of_line_eq_none es rfl]
  cases e with
  | addLine level message perFile =>
    obtain rfl := Option.some.inj hstep
    exact ⟨hfollows, h.jobLog.trans (congrArg _ htake.symm), h.near⟩
  | finish status =>
    change (if s.task.status = .running ∧ status ≠ .running then
      some { s with task := { s.task with status := status } } else none) = some s' at hstep
    split_ifs at hstep
    obtain rfl := Option.some.inj hstep
    exact ⟨hfollows, h.jobLog.trans (congrArg _ htake.symm), h.near⟩
  | poll =>
    change (if s.run.ended = none ∧ s.answer = none then some { s with answer := some (s.task.toJson s.run.nextLog) }
      else none) = some s' at hstep
    split_ifs at hstep
    obtain rfl := Option.some.inj hstep
    refine ⟨hfollows, h.jobLog.trans (congrArg _ htake.symm), fun a ha => ?_⟩
    obtain rfl := Option.mem_some.mp ha
    exact hkeeps rfl
  | arrive =>
    obtain ⟨a, ha, rfl⟩ := Option.map_eq_some_iff.mp hstep
    obtain ⟨hle, hlength, hlog, -⟩ := h.answer a ha
    refine ⟨hfollows, ?_, fun _ hnone => by cases hnone⟩
    change s.run.jobLog ++ a.log.map (jobLine names) = ((logged (es ++ [.arrive])).take a.nextLog).map (jobLine names)
    rw [logged_append_of_line_eq_none es rfl, h.jobLog, hlog, ← List.map_append,
      read_whole (numbered_logged es) hle hlength (h.near a ha)]
  | lose =>
    obtain ⟨a, -, rfl⟩ := Option.map_eq_some_iff.mp hstep
    exact ⟨hfollows, h.jobLog.trans (congrArg _ htake.symm), fun _ hnone => by cases hnone⟩

/-- **The job's log has every line** when no poll finds more new lines than the node keeps, and every line of the op
once `wait` returned. -/
theorem relay_whole (h : Runs (Relay.step names) KeepsUp Relay.start es s) :
    s.run.jobLog = ((logged es).take s.run.nextLog).map (jobLine names) ∧
      ∀ status ∈ s.run.ended, ∃ before after, es = before ++ .finish status :: after ∧
        (logged before).map (jobLine names) <+: s.run.jobLog := by
  have hwhole : Whole names es s := h.keeps_from (I := Whole names)
    ⟨follows_start names, rfl, fun _ hnone => by cases hnone⟩ fun _ _ _ _ hkeeps hstep hw => hw.step hkeeps hstep
  refine ⟨hwhole.jobLog, fun status hstatus => ?_⟩
  obtain ⟨before, after, rfl, hle⟩ := hwhole.ended status hstatus
  refine ⟨before, after, rfl, ?_⟩
  rw [hwhole.jobLog]
  have hbefore : logged before <+: logged (before ++ .finish status :: after) := by
    rw [logged, logged, List.filterMap_append, List.zipIdx_append, List.map_append]
    exact List.prefix_append _ _
  exact (List.prefix_take_iff.mpr ⟨hbefore, hle⟩).map _

/-- A task that logs no more lines than the node keeps has its polls keep up. -/
theorem keepsUp_of_runs {before : List RelayEvent} (hbefore : Follows names before s)
    (h : Runs (Relay.step names) Any s es s') (hfew : (logged (before ++ es)).length ≤ taskLogLines) :
    Runs (Relay.step names) KeepsUp s es s' := by
  induction h generalizing before with
  | nil s => exact .nil s
  | @cons s s₁ s' e es hany hstep hrest ih =>
    have hlength := (length_logged_le_append before (e :: es)).trans hfew
    refine .cons (fun _ => ?_) hstep (ih (hbefore.step hstep) ?_)
    · rw [hbefore.nextSeq]
      exact hlength.trans (Nat.le_add_left _ _)
    · rwa [List.append_assoc, List.singleton_append]

/-- Three lines are no more than the node keeps. -/
theorem relay_whole_lossyRun : ∃ s, Runs (Relay.step nodeNames) KeepsUp Relay.start lossyRun s ∧
    s.run.jobLog = ((logged lossyRun).take s.run.nextLog).map (jobLine nodeNames) ∧
      ∀ status ∈ s.run.ended, ∃ before after, lossyRun = before ++ .finish status :: after ∧
        (logged before).map (jobLine nodeNames) <+: s.run.jobLog := by
  obtain ⟨s, hrun⟩ := runs_lossyRun
  have hkeeps := keepsUp_of_runs (follows_start nodeNames) hrun
    (show (logged lossyRun).length ≤ taskLogLines by decide +kernel)
  exact ⟨s, hkeeps, relay_whole hkeeps⟩

/-! ### The lines themselves -/

theorem replace_subset {old new : List Char} : ∀ (skip : ℕ) (text : List Char),
    ∀ c ∈ replace old new skip text, c ∈ new ∨ c ∈ text := by
  intro skip text
  induction text generalizing skip with
  | nil => cases skip <;> exact fun c hc => .inr hc
  | cons d text ih =>
    intro c hc
    cases skip with
    | succ skip => exact (ih skip c hc).imp_right (.tail d)
    | zero =>
      rw [replace] at hc
      split_ifs at hc
      · rcases List.mem_append.mp hc with hnew | hrest
        · exact .inl hnew
        · exact (ih _ c hrest).imp_right (.tail d)
      · rcases List.mem_cons.mp hc with rfl | hrest
        · exact .inr (.head _)
        · exact (ih _ c hrest).imp_right (.tail d)

/-- What stands for a line-breaking character breaks no line. -/
theorem not_lineBreaking_of_mem_escaped {c d : Char} (hd : d ∈ escaped c) : lineBreaking d = false := by
  have hdigit : ∀ n < 16, lineBreaking (Nat.digitChar n) = false := by decide
  have hhex : ∀ k n, ∀ x ∈ hex k n, lineBreaking x = false := by
    intro k n x hx
    obtain ⟨i, -, rfl⟩ := List.mem_map.mp hx
    exact hdigit _ (Nat.mod_lt _ (by decide))
  unfold escaped at hd
  split_ifs at hd
  · rcases List.mem_cons.mp hd with rfl | hd
    · decide
    · obtain rfl := List.mem_singleton.mp hd
      decide
  · rcases List.mem_cons.mp hd with rfl | hd
    · decide
    · obtain rfl := List.mem_singleton.mp hd
      decide
  · rcases List.mem_cons.mp hd with rfl | hd
    · decide
    rcases List.mem_cons.mp hd with rfl | hd
    · decide
    exact hhex _ _ d hd
  · rcases List.mem_cons.mp hd with rfl | hd
    · decide
    rcases List.mem_cons.mp hd with rfl | hd
    · decide
    exact hhex _ _ d hd

/-- **A node's line is one line of the job's log**, at a level the log knows, whatever the node sent. -/
theorem jobLine_single (line : LogLine) (hstart : ∀ c ∈ names.start, lineBreaking c = false)
    (hpath : ∀ swap ∈ names.pathSwap, ∀ c ∈ swap.2, lineBreaking c = false) :
    (∀ c ∈ (jobLine names line).text, lineBreaking c = false) ∧ (jobLine names line).level ∈ levels := by
  have hrelayed : ∀ c ∈ relayedText line.message.toList, lineBreaking c = false := by
    intro c hc
    obtain ⟨d, -, hd⟩ := List.mem_flatMap.mp hc
    split_ifs at hd with hbreaks
    · exact not_lineBreaking_of_mem_escaped hd
    · rw [List.mem_singleton.mp hd]
      exact Bool.not_eq_true _ ▸ hbreaks
  constructor
  · intro c hc
    rcases List.mem_append.mp hc with hc | hc
    · exact hstart c hc
    cases hswap : names.pathSwap with
    | none =>
      rw [hswap] at hc
      exact hrelayed c hc
    | some swap =>
      rw [hswap] at hc
      rcases replace_subset 0 _ c hc with hnew | hold
      · exact hpath swap hswap c hnew
      · exact hrelayed c hold
  · unfold jobLine
    dsimp only
    split_ifs with hlevel
    · exact hlevel
    · decide

end MediaPreview.Nodes
