import MediaPreview.Jobs.Dispatcher
import MediaPreview.Lib.Parties

/-!
# What the dispatcher's events do

Each event of the dispatcher as a move: a file goes on, is given up, comes back to a queue, is counted, and so on.
What the counters say of the flights follows from the moves: `active_checks` is the checking threads, and no
file of a worker's is missing from `active_processing` (`Counters`).
-/

namespace MediaPreview.Dispatch

open Parties

variable {ι : Type} {path : ι → String}

/-! ### What an event does -/

namespace Stage

/-- The thread still has to lower `active_checks`. -/
def onCheck (stage : Stage) : Bool := stage.duty = some .check

/-- The thread still has to lower `active_processing`. -/
def onWork (stage : Stage) : Bool := stage.duty = some .work

/-- On its way, and no cancel has counted it. -/
def uncounted (stage : Stage) : Bool := stage.holds && !stage.late

/-- A file that is on its way goes on, and stays so. -/
structure Forward (stage stage' : Stage) (isCancelled : Bool) : Prop where
  holds : stage.holds = true
  holds' : stage'.holds = true
  duty : stage'.duty = stage.duty
  isPicked : stage'.isPicked = false
  late : stage'.late = stage.late ∨ stage'.late = false ∧ isCancelled = false

/-- A file that was on its way is given up. -/
structure Dropped (stage stage' : Stage) : Prop where
  holds : stage.holds = true
  holds' : stage'.holds = false
  announces : stage'.announces = false
  duty : stage'.duty = stage.duty ∨ stage.duty = some .work ∧ stage'.duty = none

theorem announces_of_holds {stage : Stage} (h : stage.holds = true) : stage.announces = false := by
  cases stage with
  | counted duty isDone => cases h
  | _ => rfl

theorem holds_of_late {stage : Stage} (h : stage.late = true) : stage.holds = true := by
  cases stage with
  | picked late => rfl
  | checking late => rfl
  | _ => cases h

theorem holds_of_isPicked {stage : Stage} (h : stage.isPicked = true) : stage.holds = true := by
  cases stage with
  | picked late => rfl
  | _ => cases h

theorem onCheck_congr {stage stage' : Stage} (h : stage'.duty = stage.duty) : stage'.onCheck = stage.onCheck := by
  rw [onCheck, onCheck, h]

theorem onWork_congr {stage stage' : Stage} (h : stage'.duty = stage.duty) : stage'.onWork = stage.onWork := by
  rw [onWork, onWork, h]

theorem duty_of_holds {stage : Stage} (h : stage.holds = true) : ∃ duty, stage.duty = some duty := by
  cases stage with
  | counted duty isDone => cases h
  | ending duty => cases h
  | gone => cases h
  | _ => exact ⟨_, rfl⟩

end Stage

/-- What an event can do. -/
inductive Move (path : ι → String) (d : JobDispatcher ι) : Event → JobDispatcher ι → Prop where
  /-- The submit is over. -/
  | submit : Move path d .submit
      { d with submitting := false, tracker := { d.tracker with doneEvent := d.tracker.doneEvent || d.items.isEmpty } }
  /-- A pick begins. -/
  | pickTest (hpicked : d.flights.any (·.stage.isPicked) = false) (hc : d.isCancelled = false) :
      Move path d .pickTest { d with picking := true }
  /-- The queue was cleared before the pick. -/
  | pickNone : Move path d .pickPop { d with picking := false }
  /-- A file is picked. -/
  | pickPop {item : ι} {rest : List ι} (hpicking : d.picking = true) (hq : d.tracker.checkQueue = item :: rest) :
      Move path d .pickPop
        { d with picking := false
                 flights := d.flights ++ [⟨item, .picked d.counting⟩]
                 tracker := { d.tracker with checkQueue := rest, activeChecks := d.tracker.activeChecks + 1 } }
  /-- The loop looks for a worker, or stops looking. -/
  | assigning {event : Event} (assigning : Bool) : Move path d event { d with assigning := assigning }
  /-- A file is taken off `item_queue`. -/
  | take {index : ℕ} {item : ι} (hdrain : d.drain = none) (hq : d.tracker.itemQueue[index]? = some item) :
      Move path d (.take index)
        { d with assigning := false
                 flights := d.flights ++ [⟨item, .taken⟩]
                 tracker := { d.tracker with itemQueue := d.tracker.itemQueue.eraseIdx index } }
  /-- A flight goes on. -/
  | forward {event : Event} {i : ℕ} {f : Flight ι} {stage : Stage} (hf : d.flights[i]? = some f)
      (h : f.stage.Forward stage d.isCancelled) : Move path d event (d.moved i f stage)
  /-- A flight is given up. -/
  | drop {event : Event} {i : ℕ} {f : Flight ι} {stage : Stage} (hf : d.flights[i]? = some f)
      (h : f.stage.Dropped stage) (hover : d.isCancelled = true ∨ d.tracker.doneEvent = true) :
      Move path d event (d.moved i f stage)
  /-- A checking thread couldn't start. -/
  | failStart {event : Event} {i : ℕ} {f : Flight ι} {late : Bool} (hf : d.flights[i]? = some f)
      (hstage : f.stage = .picked late) :
      Move path d event
        { d.moved i f .gone with
          tracker := { d.tracker with activeChecks := d.tracker.activeChecks - 1
                                      checkQueue := f.item :: d.tracker.checkQueue }
          stale := d.stale + late.toNat }
  /-- A file comes to the end of `item_queue`. -/
  | append {event : Event} {i : ℕ} {f : Flight ι} (hf : d.flights[i]? = some f) (hstage : f.stage = .appending) :
      Move path d event
        { d.moved i f (.ending .check) with
          tracker := { d.tracker with itemQueue := d.tracker.itemQueue ++ [f.item] } }
  /-- A file comes to the front of `item_queue`. -/
  | requeue {event : Event} {i : ℕ} {f : Flight ι} (hf : d.flights[i]? = some f) (hstage : f.stage = .requeueing) :
      Move path d event
        { d.moved i f .gone with
          tracker := { d.tracker with itemQueue := f.item :: d.tracker.itemQueue
                                      activeProcessing := d.tracker.activeProcessing - 1 } }
  /-- A file is counted. -/
  | count {event : Event} {i : ℕ} {f : Flight ι} {duty : Duty} {success : Bool} (hf : d.flights[i]? = some f)
      (hstage : f.stage = .recording duty success) :
      Move path d event
        { d.moved i f (.counted duty (d.tracker.tally path f.item success).isDone) with
          tracker := d.tracker.tally path f.item success, recorded := d.recorded ++ [f.item] }
  /-- The last file sets `done_event`. -/
  | signal {event : Event} {i : ℕ} {f : Flight ι} {duty : Duty} {isDone : Bool} (hf : d.flights[i]? = some f)
      (hstage : f.stage = .counted duty isDone) :
      Move path d event
        { d.moved i f (.ending duty) with tracker := { d.tracker with doneEvent := d.tracker.doneEvent || isDone } }
  /-- A thread is through with its file. -/
  | leave {event : Event} {i : ℕ} {f : Flight ι} {duty : Duty} (hf : d.flights[i]? = some f)
      (hstage : f.stage = .ending duty) :
      Move path d event
        { d.moved i f .gone with
          tracker := { d.tracker with
            activeChecks := d.tracker.activeChecks - (Stage.ending duty).onCheck.toNat
            activeProcessing := d.tracker.activeProcessing - (Stage.ending duty).onWork.toNat } }
  /-- A file goes to a worker, or is stranded. -/
  | handed {event : Event} {i : ℕ} {f : Flight ι} {stage : Stage} (hf : d.flights[i]? = some f)
      (hstage : f.stage = .taken) (hduty : stage.duty = some .work) (hholds : stage.holds = true)
      (hpicked : stage.isPicked = false) (hlate : stage.late = false) :
      Move path d event
        { d.moved i f stage with
          tracker := { d.tracker with activeProcessing := d.tracker.activeProcessing + 1 } }
  /-- Parking is asked for. -/
  | requestPark : Move path d .requestPark { d with tracker := { d.tracker with parkRequested := true } }
  /-- The tracker is detached. -/
  | detachParked (hdetached : d.tracker.detached = false) :
      Move path d .detachParked
        { d with tracker := { d.tracker with detached := true, checkQueue := [], itemQueue := [] }
                 parked := d.parked ++ d.tracker.itemQueue ++ d.tracker.checkQueue
                 stale := 0 }
  /-- `cancel_check` changes. -/
  | flag (value : Bool) : Move path d (.flag value) { d with flagged := value, touched := d.touched || value }
  /-- A cancel begins. -/
  | cancelBegin :
      Move path d .cancelBegin
        { d with tracker := { d.tracker with cancelled := true }, begun := d.begun + 1, touched := true }
  /-- A cancel counts `check_queue`. -/
  | cancelChecks (hbegun : 0 < d.begun) (hdrain : d.drain = none) :
      Move path d .cancelChecks
        { d with begun := d.begun - 1, drain := some (.checks d.tracker.checkQueue.length) }
  /-- It counts `item_queue`. -/
  | cancelItems {remaining : ℕ} (hdrain : d.drain = some (.checks remaining)) :
      Move path d .cancelItems { d with drain := some (.items (remaining + d.tracker.itemQueue.length)) }
  /-- It extends `failed_paths`. -/
  | cancelPaths {remaining : ℕ} (hdrain : d.drain = some (.items remaining)) :
      Move path d .cancelPaths
        { d with drain := some (.named remaining)
                 tracker := { d.tracker with
                   failedPaths := d.tracker.failedPaths ++ (d.tracker.checkQueue ++ d.tracker.itemQueue).map path } }
  /-- It clears `check_queue`. -/
  | cancelClearChecks {remaining : ℕ} (hdrain : d.drain = some (.named remaining)) :
      Move path d .cancelClearChecks
        { d with drain := some (.cleared remaining), tracker := { d.tracker with checkQueue := [] }, stale := 0 }
  /-- It clears `item_queue`. -/
  | cancelClearItems {remaining : ℕ} (hdrain : d.drain = some (.cleared remaining)) :
      Move path d .cancelClearItems
        { d with drain := some (.both remaining), tracker := { d.tracker with itemQueue := [] } }
  /-- It adds to `failed`. -/
  | cancelAdd {remaining : ℕ} (hdrain : d.drain = some (.both remaining)) :
      Move path d .cancelAdd
        { d with drain := none, ending := d.ending + 1
                 tracker := { d.tracker with failed := d.tracker.failed + remaining } }
  /-- It sets `done_event`. -/
  | cancelDone (hending : 0 < d.ending) :
      Move path d .cancelDone { d with ending := d.ending - 1, tracker := { d.tracker with doneEvent := true } }

namespace JobDispatcher

/-- Where a check that asks about the cancel sends its file. -/
theorem move_asked {d : JobDispatcher ι} {event : Event} {i : ℕ} {f : Flight ι} {stage : Stage} {stops : Bool}
    (hf : d.flights[i]? = some f) (hover : stops = true → d.isCancelled = true ∨ d.tracker.doneEvent = true)
    (hforward : stops = false → f.stage.Forward stage d.isCancelled) (hdrop : f.stage.Dropped (.ending .check)) :
    Move path d event (d.moved i f (if stops then .ending .check else stage)) := by
  cases stops with
  | true => exact .drop hf hdrop (hover rfl)
  | false => exact .forward hf (hforward rfl)

/-- **What the thread with a file does is one of the moves.** -/
theorem move_of_actStep {d d' : JobDispatcher ι} {event : Event} {i : ℕ} {f : Flight ι} {act : Act}
    (hf : d.flights[i]? = some f) (h : d.actStep path i f act = some d') : Move path d event d' := by
  have hor : (d.isCancelled || d.tracker.doneEvent) = true → d.isCancelled = true ∨ d.tracker.doneEvent = true :=
    Bool.or_eq_true_iff.1
  have hnor : (d.isCancelled || d.tracker.doneEvent) = false → d.isCancelled = false := fun h =>
    (Bool.or_eq_false_iff.1 h).1
  unfold actStep at h
  dsimp only at h
  split at h
  · rename_i late hstage
    cases h
    exact .forward hf ⟨hstage ▸ rfl, rfl, hstage ▸ rfl, rfl, Or.inl (hstage ▸ rfl)⟩
  · rename_i late hstage
    split at h
    · cases h
      exact .failStart hf hstage
    · cases h
  · rename_i late hstage
    cases h
    refine move_asked hf hor (fun hno => ⟨hstage ▸ rfl, rfl, hstage ▸ rfl, rfl, Or.inr ⟨rfl, hnor hno⟩⟩) ?_
    exact ⟨hstage ▸ rfl, rfl, rfl, Or.inl (hstage ▸ rfl)⟩
  · rename_i hstage
    cases h
    refine move_asked hf hor (fun _ => ⟨hstage ▸ rfl, rfl, hstage ▸ rfl, rfl, Or.inl (hstage ▸ rfl)⟩) ?_
    exact ⟨hstage ▸ rfl, rfl, rfl, Or.inl (hstage ▸ rfl)⟩
  · rename_i success hstage
    cases h
    refine move_asked hf hor (fun _ => ⟨hstage ▸ rfl, rfl, hstage ▸ rfl, rfl, Or.inl (hstage ▸ rfl)⟩) ?_
    exact ⟨hstage ▸ rfl, rfl, rfl, Or.inl (hstage ▸ rfl)⟩
  · rename_i success hstage
    cases h
    refine move_asked hf Or.inr (fun _ => ⟨hstage ▸ rfl, rfl, hstage ▸ rfl, rfl, Or.inl (hstage ▸ rfl)⟩) ?_
    exact ⟨hstage ▸ rfl, rfl, rfl, Or.inl (hstage ▸ rfl)⟩
  · cases h
    exact .append hf ‹_›
  · split at h
    · cases h
      exact .count hf ‹_›
    · cases h
  · cases h
    exact .signal hf ‹_›
  · split at h
    · cases h
      exact .leave hf ‹_›
    · cases h
  · split at h
    · cases h
      exact .leave hf ‹_›
    · cases h
  · cases h
    exact .leave hf ‹_›
  · cases h
    exact .handed hf ‹_› rfl rfl rfl rfl
  · rename_i hstage
    cases h
    exact .forward hf ⟨hstage ▸ rfl, rfl, hstage ▸ rfl, rfl, Or.inl (hstage ▸ rfl)⟩
  · cases h
    exact .handed hf ‹_› rfl rfl rfl rfl
  · rename_i outcome hstage
    have hkeep : ∀ stage : Stage, stage.holds = true → stage.duty = some .work → stage.isPicked = false →
        stage.late = false → f.stage.Forward stage d.isCancelled := by
      intro stage hholds hduty hpicked hlate
      exact ⟨hstage ▸ rfl, hholds, hstage ▸ hduty, hpicked, Or.inl (hstage ▸ hlate)⟩
    split at h
    · cases h
      exact .drop hf ⟨hstage ▸ rfl, rfl, rfl, Or.inr ⟨hstage ▸ rfl, rfl⟩⟩ (Or.inr ‹_›)
    · cases outcome with
      | finished success =>
        cases h
        exact .forward hf (hkeep _ rfl rfl rfl rfl)
      | handedOff =>
        cases h
        exact .forward hf (hkeep _ rfl rfl rfl rfl)
      | requeue failure =>
        cases h
        cases failure <;> exact .forward hf (hkeep _ rfl rfl rfl rfl)
  · split at h
    · cases h
      exact .requeue hf ‹_›
    · cases h
  · cases h

/-- **Every event is one of the moves.** -/
theorem move_of_step {d d' : JobDispatcher ι} {event : Event} (h : d.step path event = some d') :
    Move path d event d' := by
  cases event with
  | submit =>
    obtain ⟨-, h⟩ := Option.ite_none_right_eq_some.1 h
    cases h
    exact .submit
  | pickTest =>
    obtain ⟨⟨-, hpicked, -, -, -, hc, -⟩, h⟩ := Option.ite_none_right_eq_some.1 h
    cases h
    rw [Bool.not_eq_true'] at hpicked hc
    exact .pickTest hpicked hc
  | pickPop =>
    obtain ⟨hpicking, h⟩ := Option.ite_none_right_eq_some.1 h
    split at h
    · cases h
      exact .pickNone
    · cases h
      exact .pickPop hpicking ‹_›
  | assignTest =>
    obtain ⟨-, h⟩ := Option.ite_none_right_eq_some.1 h
    cases h
    exact .assigning true
  | take index =>
    obtain ⟨⟨-, hdrain⟩, h⟩ := Option.ite_none_right_eq_some.1 h
    split at h
    · cases h
      exact .assigning false
    · cases h
      exact .take (Option.isNone_iff_eq_none.1 hdrain) ‹_›
  | assignNone =>
    obtain ⟨-, h⟩ := Option.ite_none_right_eq_some.1 h
    cases h
    exact .assigning false
  | act i act =>
    obtain ⟨f, hf, h⟩ := Option.bind_eq_some_iff.1 h
    exact move_of_actStep hf h
  | requestPark =>
    obtain ⟨-, h⟩ := Option.ite_none_right_eq_some.1 h
    cases h
    exact .requestPark
  | detachParked =>
    obtain ⟨⟨-, hdetached, -⟩, h⟩ := Option.ite_none_right_eq_some.1 h
    cases h
    exact .detachParked (by simpa using hdetached)
  | flag value =>
    cases h
    exact .flag value
  | cancelBegin =>
    cases h
    exact .cancelBegin
  | cancelChecks =>
    obtain ⟨⟨hbegun, hdrain⟩, h⟩ := Option.ite_none_right_eq_some.1 h
    cases h
    exact .cancelChecks hbegun (Option.isNone_iff_eq_none.1 hdrain)
  | cancelItems =>
    unfold step at h
    dsimp only at h
    split at h
    · cases h
      exact .cancelItems ‹_›
    · cases h
  | cancelPaths =>
    unfold step at h
    dsimp only at h
    split at h
    · cases h
      exact .cancelPaths ‹_›
    · cases h
  | cancelClearChecks =>
    unfold step at h
    dsimp only at h
    split at h
    · cases h
      exact .cancelClearChecks ‹_›
    · cases h
  | cancelClearItems =>
    unfold step at h
    dsimp only at h
    split at h
    · cases h
      exact .cancelClearItems ‹_›
    · cases h
  | cancelAdd =>
    unfold step at h
    dsimp only at h
    split at h
    · cases h
      exact .cancelAdd ‹_›
    · cases h
  | cancelDone =>
    obtain ⟨hending, h⟩ := Option.ite_none_right_eq_some.1 h
    cases h
    exact .cancelDone hending

/-- **What every move keeps, every run keeps.** -/
theorem run_induct {P : JobDispatcher ι → Prop} (hP : ∀ d d' event, Move path d event d' → P d → P d')
    {d d' : JobDispatcher ι} {events : List Event} (h : d.run path events = some d') (h₀ : P d) : P d' := by
  induction events generalizing d with
  | nil =>
    cases h
    exact h₀
  | cons event events ih =>
    obtain ⟨d₁, hstep, hrun⟩ := Option.bind_eq_some_iff.1 h
    exact ih hrun (hP d d₁ event (move_of_step hstep) h₀)

end JobDispatcher

theorem items_move {d d' : JobDispatcher ι} {event : Event} (h : Move path d event d') : d'.items = d.items := by
  cases h <;> rfl

theorem items_run {d d' : JobDispatcher ι} {events : List Event} (h : d.run path events = some d') :
    d'.items = d.items :=
  JobDispatcher.run_induct (P := fun d₁ => d₁.items = d.items) (fun _ _ _ hmove h => (items_move hmove).trans h) h rfl

/-! ### The counters -/

/-- How many flights are at a stage of a kind. -/
def number (flights : List (Flight ι)) (q : Stage → Bool) : ℕ := flights.countP fun f => q f.stage

/-- How many files of a kind are on their way. -/
def holding (flights : List (Flight ι)) (p : ι → Bool) : ℕ := flights.countP fun f => f.stage.holds && p f.item

theorem number_set {flights : List (Flight ι)} {i : ℕ} {f : Flight ι} (hf : flights[i]? = some f) (q : Stage → Bool)
    (stage : Stage) :
    number (flights.set i { f with stage := stage }) q + (q f.stage).toNat = number flights q + (q stage).toNat :=
  countP_set_move hf (fun f => q f.stage) _

theorem holding_set {flights : List (Flight ι)} {i : ℕ} {f : Flight ι} (hf : flights[i]? = some f) (p : ι → Bool)
    (stage : Stage) :
    holding (flights.set i { f with stage := stage }) p + (f.stage.holds && p f.item).toNat =
      holding flights p + (stage.holds && p f.item).toNat :=
  countP_set_move hf (fun f => f.stage.holds && p f.item) _

/-- A flight that is counted as before. -/
theorem number_same {flights : List (Flight ι)} {i : ℕ} {f : Flight ι} (hf : flights[i]? = some f) (q : Stage → Bool)
    (stage : Stage) (h : q stage = q f.stage) :
    number (flights.set i { f with stage := stage }) q = number flights q := by
  have hset := number_set hf q stage
  rw [h] at hset
  exact Nat.add_right_cancel hset

/-- A flight that is counted as `m` before and as `n` after. -/
theorem number_step {flights : List (Flight ι)} {i : ℕ} {f : Flight ι} (hf : flights[i]? = some f) {stage : Stage}
    (hstage : f.stage = stage) (q : Stage → Bool) (stage' : Stage) (m n : ℕ) (hm : (q stage).toNat = m)
    (hn : (q stage').toNat = n) :
    number (flights.set i { f with stage := stage' }) q + m = number flights q + n := by
  have hset := number_set hf q stage'
  rwa [hstage, hm, hn] at hset

/-- A file that stays on its way. -/
theorem holding_same {flights : List (Flight ι)} {i : ℕ} {f : Flight ι} (hf : flights[i]? = some f) (p : ι → Bool)
    {stage : Stage} (h : stage.holds = f.stage.holds) :
    holding (flights.set i { f with stage := stage }) p = holding flights p := by
  have hset := holding_set hf p stage
  rw [h] at hset
  exact Nat.add_right_cancel hset

/-- A file that is no longer on its way. -/
theorem holding_left {flights : List (Flight ι)} {i : ℕ} {f : Flight ι} (hf : flights[i]? = some f) (p : ι → Bool)
    (stage : Stage) (hold : f.stage.holds = true) (hnew : stage.holds = false) :
    holding (flights.set i { f with stage := stage }) p + (p f.item).toNat = holding flights p := by
  have hset := holding_set hf p stage
  rwa [hold, hnew, Bool.true_and, Bool.false_and] at hset

theorem number_concat (flights : List (Flight ι)) (q : Stage → Bool) (item : ι) (stage : Stage) :
    number (flights ++ [⟨item, stage⟩]) q = number flights q + (q stage).toNat :=
  countP_concat _ _ _

theorem holding_concat (flights : List (Flight ι)) (p : ι → Bool) (item : ι) (stage : Stage) :
    holding (flights ++ [⟨item, stage⟩]) p = holding flights p + (stage.holds && p item).toNat :=
  countP_concat _ _ _

theorem le_number {flights : List (Flight ι)} {i : ℕ} {f : Flight ι} (hf : flights[i]? = some f) (q : Stage → Bool) :
    (q f.stage).toNat ≤ number flights q :=
  toNat_le_countP hf fun f => q f.stage

/-- What the counters say, cancelled or not. -/
structure Counters (carried : ℕ) (d : JobDispatcher ι) : Prop where
  /-- Every file was submitted, or counted in an earlier run. -/
  total : d.tracker.totalItems = d.items.length + carried
  /-- `active_checks` is the checking threads. -/
  checks : d.tracker.activeChecks = number d.flights Stage.onCheck
  /-- No file of a worker's is missing from `active_processing`. -/
  work : number d.flights Stage.onWork ≤ d.tracker.activeProcessing

theorem counters_start (items : List ι) (carried : Carried) :
    Counters (carried.successful + carried.failed) (JobDispatcher.start items carried) where
  total := Nat.add_assoc _ _ _
  checks := rfl
  work := Nat.zero_le _

namespace JobTracker

@[simp] theorem tally_totalItems (t : JobTracker ι) (item : ι) (success : Bool) :
    (t.tally path item success).totalItems = t.totalItems := by
  cases success <;> rfl

@[simp] theorem tally_checkQueue (t : JobTracker ι) (item : ι) (success : Bool) :
    (t.tally path item success).checkQueue = t.checkQueue := by
  cases success <;> rfl

@[simp] theorem tally_itemQueue (t : JobTracker ι) (item : ι) (success : Bool) :
    (t.tally path item success).itemQueue = t.itemQueue := by
  cases success <;> rfl

@[simp] theorem tally_activeChecks (t : JobTracker ι) (item : ι) (success : Bool) :
    (t.tally path item success).activeChecks = t.activeChecks := by
  cases success <;> rfl

@[simp] theorem tally_activeProcessing (t : JobTracker ι) (item : ι) (success : Bool) :
    (t.tally path item success).activeProcessing = t.activeProcessing := by
  cases success <;> rfl

@[simp] theorem tally_flags (t : JobTracker ι) (path : ι → String) (item : ι) (success : Bool) :
    (t.tally path item success).cancelled = t.cancelled ∧ (t.tally path item success).doneEvent = t.doneEvent ∧
      (t.tally path item success).detached = t.detached := by
  cases success <;> exact ⟨rfl, rfl, rfl⟩

/-- One more file is counted. -/
theorem tally_counts (t : JobTracker ι) (path : ι → String) (item : ι) (success : Bool) :
    (t.tally path item success).successful + (t.tally path item success).failed = t.successful + t.failed + 1 := by
  cases success with
  | true => exact Nat.add_right_comm _ _ _
  | false => exact (Nat.add_assoc _ _ _).symm

end JobTracker

theorem counters_move {carried : ℕ} {d d' : JobDispatcher ι} {event : Event} (hd : Counters carried d)
    (h : Move path d event d') : Counters carried d' := by
  obtain ⟨total, checks, work⟩ := hd
  cases h with
  | @pickPop item rest _ _ =>
    refine ⟨total, ?_, ?_⟩ <;> dsimp only <;> rw [number_concat]
    · exact congrArg (· + 1) checks
    · exact work
  | @take _ item _ _ =>
    refine ⟨total, ?_, ?_⟩ <;> dsimp only <;> rw [number_concat]
    · exact checks
    · exact work
  | @forward _ i f stage hf h =>
    have hcheck := number_same hf _ _ (Stage.onCheck_congr h.duty)
    have hwork := number_same hf _ _ (Stage.onWork_congr h.duty)
    exact ⟨total, checks.trans hcheck.symm, hwork ▸ work⟩
  | @drop _ i f stage hf h hover =>
    obtain hsame | ⟨hold, hnew⟩ := h.duty
    · have hcheck := number_same hf _ _ (Stage.onCheck_congr hsame)
      have hwork := number_same hf _ _ (Stage.onWork_congr hsame)
      exact ⟨total, checks.trans hcheck.symm, hwork ▸ work⟩
    · have hcheck := number_step hf rfl Stage.onCheck stage 0 0 (by simp [Stage.onCheck, hold])
        (by simp [Stage.onCheck, hnew])
      have hwork := number_step hf rfl Stage.onWork stage 1 0 (by simp [Stage.onWork, hold])
        (by simp [Stage.onWork, hnew])
      refine ⟨total, checks.trans hcheck.symm, ?_⟩
      dsimp only [JobDispatcher.moved]
      omega
  | @failStart _ i f late hf hstage =>
    have hcheck := number_step hf hstage Stage.onCheck .gone 1 0 rfl rfl
    have hwork := number_step hf hstage Stage.onWork .gone 0 0 rfl rfl
    refine ⟨total, ?_, ?_⟩ <;> dsimp only [JobDispatcher.moved] <;> omega
  | @append _ i f hf hstage =>
    have hcheck := number_step hf hstage Stage.onCheck (.ending .check) 1 1 rfl rfl
    have hwork := number_step hf hstage Stage.onWork (.ending .check) 0 0 rfl rfl
    refine ⟨total, ?_, ?_⟩ <;> dsimp only [JobDispatcher.moved] <;> omega
  | @requeue _ i f hf hstage =>
    have hcheck := number_step hf hstage Stage.onCheck .gone 0 0 rfl rfl
    have hwork := number_step hf hstage Stage.onWork .gone 1 0 rfl rfl
    refine ⟨total, ?_, ?_⟩ <;> dsimp only [JobDispatcher.moved] <;> omega
  | @count _ i f duty success hf hstage =>
    have hcheck := number_same hf Stage.onCheck (.counted duty (d.tracker.tally path f.item success).isDone) (hstage ▸ rfl)
    have hwork := number_same hf Stage.onWork (.counted duty (d.tracker.tally path f.item success).isDone) (hstage ▸ rfl)
    refine ⟨?_, ?_, ?_⟩ <;> dsimp only [JobDispatcher.moved]
    · rw [JobTracker.tally_totalItems, total]
    · rw [JobTracker.tally_activeChecks, hcheck, checks]
    · rw [JobTracker.tally_activeProcessing, hwork]
      exact work
  | @signal _ i f duty isDone hf hstage =>
    have hcheck := number_same hf Stage.onCheck (.ending duty) (hstage ▸ rfl)
    have hwork := number_same hf Stage.onWork (.ending duty) (hstage ▸ rfl)
    exact ⟨total, checks.trans hcheck.symm, hwork ▸ work⟩
  | @leave _ i f duty hf hstage =>
    have hcheck := number_step hf hstage Stage.onCheck .gone (Stage.ending duty).onCheck.toNat 0 rfl rfl
    have hwork := number_step hf hstage Stage.onWork .gone (Stage.ending duty).onWork.toNat 0 rfl rfl
    refine ⟨total, ?_, ?_⟩ <;> dsimp only [JobDispatcher.moved] <;> omega
  | @handed _ i f stage hf hstage hduty hholds hpicked hlate =>
    have hcheck := number_step hf hstage Stage.onCheck stage 0 0 rfl (by simp [Stage.onCheck, hduty])
    have hwork := number_step hf hstage Stage.onWork stage 0 1 rfl (by simp [Stage.onWork, hduty])
    refine ⟨total, ?_, ?_⟩ <;> dsimp only [JobDispatcher.moved] <;> omega
  | _ => exact ⟨total, checks, work⟩

end MediaPreview.Dispatch
