import MediaPreview.Jobs.Queue
import MediaPreview.Lib.Parties

/-!
# Callers at the gate

The gate with the threads that call it. Every block under the condition's lock is one
event, and between the blocks of a call anything else may happen: a thread that waits may be
cancelled at any check, a refresh merges what its policies answered into a table that has
moved on, and a job may finish while a thread still waits for it. A refresh is made by
whichever waiter comes first, one at a time; here it may start whenever none is under way.

In every run the slots in use are the callers that were admitted and have not released
theirs, never more than `STARTUP_SLOTS`; and each admission goes to the entry before every
other that could be admitted (`gate_keeps`). A finished request takes no slot any more, but one
its caller already holds stays taken until it is released (`finished_holds_slot`).
-/

namespace MediaPreview.Jobs

/-- How far a call of `acquire` got. -/
inductive Phase where
  /-- In the loop. -/
  | waiting
  /-- It took a slot, and its `finally` has still to run. -/
  | admitted
  /-- A check said it was cancelled or a callback raised, and its `finally` has still to run. -/
  | cancelled
  /-- It returned `True`, and the slot has not been released. -/
  | holding
  /-- It returned without a slot. -/
  | refused
  /-- Its slot was released. -/
  | released
  deriving DecidableEq

/-- A call of `acquire`. -/
structure Call where
  /-- `token`. -/
  token : Token
  /-- Whether it found a request. -/
  registered : Bool
  /-- `kind`. -/
  kind : Option String
  /-- How far it got. -/
  phase : Phase

/-- The caller was admitted and has not released. -/
def Call.holds (c : Call) : Bool := c.phase = .admitted ∨ c.phase = .holding

/-- The call has not returned. -/
def Call.running (c : Call) : Bool := c.phase = .waiting ∨ c.phase = .admitted ∨ c.phase = .cancelled

/-- The call ends without a slot. -/
def Call.gaveUp (c : Call) : Bool := c.phase = .cancelled ∨ c.phase = .refused

/-- The gate, the calls of `acquire` so far and the refresh under way. -/
structure System where
  /-- The gate. -/
  gate : Gate
  /-- Every call of `acquire`, in the order they began. -/
  calls : List Call
  /-- What the refresh under way copied. -/
  refreshing : Option Snapshot

/-- When a job was created: `Job` fills an empty `created_at`. -/
abbrev CreatedAt := { text : String // text ≠ "" }

/-- Something that happens at the gate. -/
inductive Event where
  /-- `register_request`. -/
  | register (jobId : String) (createdAt : CreatedAt) (priority : ℤ) (kind : String)
  /-- `claim_request`. -/
  | claim (jobId : String)
  /-- `finish_request`. -/
  | finish (jobId : String) (owner : Option Token)
  /-- `complete_preflight`. -/
  | completePreflight (jobId : String)
  /-- `defer_preflight`. -/
  | deferPreflight (jobId : String)
  /-- `reprioritize`. -/
  | reprioritize (jobId : String) (priority : ℤ)
  /-- A refresh begins. -/
  | refresh (early : Bool)
  /-- It ends, with the answers of the policies and the capacities. -/
  | merge (answers : Token → Answer) (limits : String → Option ℕ)
  /-- `acquire` is called. -/
  | enter (priority : ℤ) (kind requestId : Option String)
  /-- A call decides whether it is next; `limit` is the capacity it read. -/
  | decide (i : ℕ) (limit : Option ℕ)
  /-- A call's cancel check fires, or a callback of its raises. -/
  | cancel (i : ℕ)
  /-- A call's `finally`. -/
  | leave (i : ℕ)
  /-- `release`, by a caller that holds a slot. -/
  | release (i : ℕ)

namespace System

/-- The gate before its first caller. -/
def start : System := ⟨Gate.empty, [], none⟩

/-- A call moved on, and the gate with it. -/
def moved (s : System) (i : ℕ) (c : Call) (phase : Phase) (gate : Gate) : System :=
  { s with gate := gate, calls := s.calls.set i { c with phase := phase } }

/-- A call's block that decides: it takes a slot when its own entry is next. -/
def decided (s : System) (i : ℕ) (c : Call) (limit : Option ℕ) : System :=
  let view := s.gate.view c.kind c.registered limit
  if view.nextEligible = some c.token then s.moved i c .admitted (view.takeSlot c.token)
  else { s with gate := view }

/-- What an event does to a call that is at it. -/
def callStep (s : System) (i : ℕ) (c : Call) : Event → Option System
  | .decide _ limit => if c.phase = .waiting then some (s.decided i c limit) else none
  | .cancel _ => if c.phase = .waiting then some (s.moved i c .cancelled s.gate) else none
  | .leave _ =>
    if c.phase = .admitted then some (s.moved i c .holding (s.gate.leave c.token))
    else if c.phase = .cancelled then some (s.moved i c .refused (s.gate.leave c.token))
    else none
  | .release _ => if c.phase = .holding then some (s.moved i c .released s.gate.release) else none
  | _ => none

/-- One event; `none` where it cannot happen. -/
def step (s : System) : Event → Option System
  | .register jobId createdAt priority kind =>
    some { s with gate := s.gate.registerRequest jobId createdAt priority kind }
  | .claim jobId => some { s with gate := (s.gate.claimRequest jobId).1 }
  | .finish jobId owner => some { s with gate := s.gate.finishRequest jobId owner }
  | .completePreflight jobId => some { s with gate := s.gate.completePreflight jobId }
  | .deferPreflight jobId => some { s with gate := s.gate.deferPreflight jobId }
  | .reprioritize jobId priority => some { s with gate := s.gate.reprioritize jobId priority }
  | .refresh early =>
    match s.refreshing with
    | some _ => none
    | none => some { s with refreshing := s.gate.snapshot early }
  | .merge answers limits =>
    s.refreshing.map fun copied => { s with gate := s.gate.merge copied answers limits, refreshing := none }
  | .enter priority kind requestId =>
    let (gate, token, registered) := s.gate.enter priority kind requestId
    some { s with gate := gate, calls := s.calls ++ [⟨token, registered, kind, .waiting⟩] }
  | .decide i limit => s.calls[i]?.bind fun c => s.callStep i c (.decide i limit)
  | .cancel i => s.calls[i]?.bind fun c => s.callStep i c (.cancel i)
  | .leave i => s.calls[i]?.bind fun c => s.callStep i c (.leave i)
  | .release i => s.calls[i]?.bind fun c => s.callStep i c (.release i)

/-- Events one after another. -/
def run (s : System) : List Event → Option System
  | [] => some s
  | e :: es => (s.step e).bind fun s' => s'.run es

end System

/-! ### What an event does -/

namespace Gate

/-- What the requests' operations and the refreshes do to the queue: it stays sound, what is out of it stays out,
and an entry that was not there has a new token. -/
structure Later (g g' : Gate) : Prop where
  sound : g'.Sound
  dead : ∀ token, g.Dead token → g'.Dead token
  created : g.created ≤ g'.created
  entries : ∀ e ∈ g'.heap, (∃ e₀ ∈ g.heap, e₀.token = e.token ∧ e₀.order = e.order) ∨ g.created ≤ e.token

theorem Shrinks.later {g g' : Gate} (h : Shrinks g g') (hg : g.Sound) : Later g g' where
  sound := h.sound hg
  dead _ hd := h.dead hd
  created := h.created
  entries e he := by
    exact Or.inl (h.entry he)

theorem later_registerRequest {g : Gate} (hg : g.Sound) (jobId : String) (createdAt : CreatedAt) (priority : ℤ)
    (kind : String) : Later g (g.registerRequest jobId createdAt priority kind) where
  sound := sound_registerRequest hg jobId createdAt priority kind createdAt.2
  dead _ hd := dead_registerRequest hd jobId createdAt priority kind
  created := by
    unfold registerRequest
    split
    · exact le_rfl
    · exact Nat.le_succ _
  entries e he := by
    unfold registerRequest at he
    split at he
    · exact Or.inl ⟨e, he, rfl, rfl⟩
    · rw [List.mem_append, List.mem_singleton] at he
      obtain hold | rfl := he
      · exact Or.inl ⟨e, hold, rfl, rfl⟩
      · exact Or.inr le_rfl

end Gate

/-- What an event can do. -/
inductive Move (s : System) : Event → System → Prop where
  /-- No call moves, and no slot is taken or given back. -/
  | quiet {event : Event} {gate : Gate} {refreshing : Option Snapshot} (h : s.gate.Later gate)
      (ha : gate.active = s.gate.active) : Move s event ⟨gate, s.calls, refreshing⟩
  /-- A call begins. -/
  | enter {priority : ℤ} {kind requestId : Option String} {gate : Gate} {c : Call}
      (h : s.gate.Entered gate c.token) (hc : c.phase = .waiting) :
      Move s (.enter priority kind requestId) ⟨gate, s.calls ++ [c], s.refreshing⟩
  /-- A call takes a slot. -/
  | takeSlot {i : ℕ} {c : Call} {limit : Option ℕ} (hc : s.calls[i]? = some c) (hw : c.phase = .waiting)
      (h : (s.gate.view c.kind c.registered limit).nextEligible = some c.token) :
      Move s (.decide i limit)
        (s.moved i c .admitted ((s.gate.view c.kind c.registered limit).takeSlot c.token))
  /-- A call is given up. -/
  | cancel {i : ℕ} {c : Call} (hc : s.calls[i]? = some c) (hw : c.phase = .waiting) :
      Move s (.cancel i) (s.moved i c .cancelled s.gate)
  /-- A call returns. -/
  | leave {i : ℕ} {c : Call} {phase : Phase} (hc : s.calls[i]? = some c)
      (h : c.phase = .admitted ∧ phase = .holding ∨ c.phase = .cancelled ∧ phase = .refused) :
      Move s (.leave i) (s.moved i c phase (s.gate.leave c.token))
  /-- A slot is given back. -/
  | release {i : ℕ} {c : Call} (hc : s.calls[i]? = some c) (h : c.phase = .holding) :
      Move s (.release i) (s.moved i c .released s.gate.release)

namespace System

theorem request_active (g : Gate) (jobId createdAt kind : String) (owner : Option Token) (priority : ℤ) :
    (g.registerRequest jobId createdAt priority kind).active = g.active ∧
      (g.claimRequest jobId).1.active = g.active ∧ (g.finishRequest jobId owner).active = g.active ∧
      (g.completePreflight jobId).active = g.active ∧ (g.deferPreflight jobId).active = g.active ∧
      (g.reprioritize jobId priority).active = g.active := by
  unfold Gate.registerRequest Gate.claimRequest Gate.finishRequest Gate.completePreflight Gate.deferPreflight
    Gate.reprioritize
  refine ⟨?_, ?_, ?_, ?_, ?_, ?_⟩
  · split <;> rfl
  · split
    · split <;> rfl
    · rfl
  · split
    · split <;> rfl
    · rfl
  · split <;> rfl
  · split <;> rfl
  · split <;> rfl

/-- **Every event is one of the moves.** -/
theorem move_of_step {s s' : System} {event : Event} (hg : s.gate.Sound) (h : s.step event = some s') :
    Move s event s' := by
  have hactive := request_active s.gate
  cases event with
  | register jobId createdAt priority kind =>
    cases h
    exact .quiet (Gate.later_registerRequest hg jobId createdAt priority kind)
      (hactive jobId createdAt kind none priority).1
  | claim jobId =>
    cases h
    exact .quiet ((Gate.shrinks_claimRequest s.gate jobId).later hg) (hactive jobId "" "" none 0).2.1
  | finish jobId owner =>
    cases h
    exact .quiet ((Gate.shrinks_finishRequest hg jobId owner).later hg) (hactive jobId "" "" owner 0).2.2.1
  | completePreflight jobId =>
    cases h
    exact .quiet ((Gate.shrinks_completePreflight s.gate jobId).later hg) (hactive jobId "" "" none 0).2.2.2.1
  | deferPreflight jobId =>
    cases h
    exact .quiet ((Gate.shrinks_deferPreflight s.gate jobId).later hg) (hactive jobId "" "" none 0).2.2.2.2.1
  | reprioritize jobId priority =>
    cases h
    exact .quiet ((Gate.shrinks_reprioritize s.gate jobId priority).later hg)
      (hactive jobId "" "" none priority).2.2.2.2.2
  | refresh early =>
    unfold step at h
    dsimp only at h
    split at h
    · cases h
    · cases h
      exact .quiet ((Gate.shrinks_refl s.gate).later hg) rfl
  | merge answers limits =>
    obtain ⟨copied, -, rfl⟩ := Option.map_eq_some_iff.1 h
    exact .quiet ((Gate.shrinks_merge hg copied answers limits).later hg) rfl
  | enter priority kind requestId =>
    cases h
    exact .enter (c := ⟨_, _, kind, .waiting⟩) (Gate.entered_enter hg priority kind requestId) rfl
  | decide i limit =>
    obtain ⟨c, hc, hstep⟩ := Option.bind_eq_some_iff.1 h
    unfold callStep at hstep
    dsimp only at hstep
    split at hstep
    · rename_i hw
      cases hstep
      unfold decided
      dsimp only
      split
      · exact .takeSlot hc hw ‹_›
      · exact .quiet ((Gate.shrinks_view ..).later hg) (Gate.view_active ..)
    · cases hstep
  | cancel i =>
    obtain ⟨c, hc, hstep⟩ := Option.bind_eq_some_iff.1 h
    unfold callStep at hstep
    dsimp only at hstep
    split at hstep
    · cases hstep
      exact .cancel hc ‹_›
    · cases hstep
  | leave i =>
    obtain ⟨c, hc, hstep⟩ := Option.bind_eq_some_iff.1 h
    unfold callStep at hstep
    dsimp only at hstep
    split at hstep
    · cases hstep
      exact .leave hc (Or.inl ⟨‹_›, rfl⟩)
    · split at hstep
      · cases hstep
        exact .leave hc (Or.inr ⟨‹_›, rfl⟩)
      · cases hstep
  | release i =>
    obtain ⟨c, hc, hstep⟩ := Option.bind_eq_some_iff.1 h
    unfold callStep at hstep
    dsimp only at hstep
    split at hstep
    · cases hstep
      exact .release hc ‹_›
    · cases hstep

/-! ### Slots and entries -/

/-- What holds at the gate at any time. -/
structure Kept (s : System) : Prop where
  /-- The queue is sound. -/
  sound : s.gate.Sound
  /-- The slots in use are the callers that hold one. -/
  active : s.gate.active = s.calls.countP Call.holds
  /-- There are never too many. -/
  slots : s.gate.active ≤ STARTUP_SLOTS
  /-- The calls' tokens exist. -/
  tokens : ∀ c ∈ s.calls, c.token < s.gate.created
  /-- A token that a call has had is queued only while some call of it runs. -/
  queued : ∀ e ∈ s.gate.heap, ∀ c ∈ s.calls, c.token = e.token → ∃ c' ∈ s.calls, c'.token = e.token ∧ c'.running

theorem kept_start : start.Kept where
  sound := Gate.sound_empty
  active := rfl
  slots := Nat.zero_le _
  tokens := by simp [start]
  queued := by simp [start]

/-- Entries, calls' tokens and what is queued after a call moved: the queue only shrank, and an entry of the call's
own token is only left while the call runs. -/
theorem Kept.moved {s : System} (hs : s.Kept) {i : ℕ} {c : Call} {phase : Phase} {gate : Gate}
    (hc : s.calls[i]? = some c) (hgate : Gate.Shrinks s.gate gate)
    (hactive : gate.active + c.holds.toNat = s.gate.active + (Call.holds { c with phase := phase }).toNat)
    (hslots : gate.active ≤ STARTUP_SLOTS)
    (hqueued : Call.running { c with phase := phase } ∨ ¬ c.running ∨ ∀ e ∈ gate.heap, e.token ≠ c.token) :
    (s.moved i c phase gate).Kept where
  sound := hgate.sound hs.sound
  active := by
    have hcount := Parties.countP_set_move hc Call.holds { c with phase := phase }
    have hold := hs.active
    change gate.active = (s.calls.set i { c with phase := phase }).countP Call.holds
    omega
  slots := hslots
  tokens d hd := by
    obtain hold | rfl := List.mem_or_eq_of_mem_set hd
    · exact (hs.tokens d hold).trans_le hgate.created
    · exact (hs.tokens c (List.mem_of_getElem? hc)).trans_le hgate.created
  queued e he d hd hde := by
    obtain ⟨e₀, he₀, ht, -⟩ := hgate.entry he
    have hcmem := List.mem_of_getElem? hc
    have hown : ∃ d₀ ∈ s.calls, d₀.token = e.token := by
      obtain hold | rfl := List.mem_or_eq_of_mem_set hd
      · exact ⟨d, hold, hde⟩
      · exact ⟨c, hcmem, hde⟩
    obtain ⟨d₀, hd₀, hd₀t⟩ := hown
    obtain ⟨r, hr, hrt, hrun⟩ := hs.queued e₀ he₀ d₀ hd₀ (by rw [hd₀t, ht])
    by_cases hrc : r = c
    · obtain hrun' | hno | hgone := hqueued
      · refine ⟨{ c with phase := phase }, ?_, ?_, hrun'⟩
        · obtain ⟨hi, -⟩ := List.getElem?_eq_some_iff.1 hc
          exact List.mem_set hi _
        · rw [← ht, ← hrt, hrc]
      · exact absurd (hrc ▸ hrun) hno
      · exact absurd (by rw [← ht, ← hrt, hrc]) (hgone e he)
    · exact ⟨r, Parties.mem_set_of_ne hc hr hrc, by rw [hrt, ht], hrun⟩

theorem kept_move {s s' : System} {event : Event} (hs : s.Kept) (h : Move s event s') : s'.Kept := by
  cases h with
  | quiet h ha =>
    refine ⟨h.sound, ha.trans hs.active, ha ▸ hs.slots, fun c hc => (hs.tokens c hc).trans_le h.created, ?_⟩
    intro e he c hc htoken
    obtain ⟨e₀, he₀, ht, -⟩ | hnew := h.entries e he
    · obtain ⟨c', hc', ht', hrun⟩ := hs.queued e₀ he₀ c hc (htoken.trans ht.symm)
      exact ⟨c', hc', ht'.trans ht, hrun⟩
    · exact absurd (hs.tokens c hc) (htoken ▸ hnew).not_gt
  | @enter _ _ _ gate c h hw =>
    have hholds : c.holds = false := by simp [Call.holds, hw]
    refine ⟨h.sound, ?_, h.active ▸ hs.slots, ?_, ?_⟩
    · dsimp only
      rw [h.active, hs.active, List.countP_append, List.countP_singleton, hholds]
      rfl
    · intro d hd
      rw [List.mem_append, List.mem_singleton] at hd
      obtain hold | rfl := hd
      · exact (hs.tokens d hold).trans_le h.created
      · exact h.lt
    · intro e he d hd htoken
      by_cases hct : c.token = e.token
      · exact ⟨c, by simp, hct, by simp [Call.running, hw]⟩
      · rw [List.mem_append, List.mem_singleton] at hd
        have hold : d ∈ s.calls := hd.resolve_right fun hdc => hct (hdc ▸ htoken)
        have heold : e ∈ s.gate.heap := (h.heap e he).resolve_right fun hec => hct hec.symm
        obtain ⟨c', hc', ht', hrun⟩ := hs.queued e heold d hold htoken
        exact ⟨c', List.mem_append_left _ hc', ht', hrun⟩
  | @takeSlot i c limit hc hw h =>
    have hview := Gate.shrinks_view s.gate c.kind c.registered limit
    have hactive := Gate.view_active s.gate c.kind c.registered limit
    have hfree := (Gate.nextEligible_spec (hview.sound hs.sound) h).1
    refine hs.moved hc (hview.trans (Gate.shrinks_takeSlot _ _)) ?_ ?_ (Or.inl rfl)
    · simp [Call.holds, hw, Gate.takeSlot, hactive]
    · rw [hactive] at hfree
      change (s.gate.view c.kind c.registered limit).active + 1 ≤ STARTUP_SLOTS
      rwa [hactive]
  | @cancel i c hc hw =>
    refine hs.moved hc (Gate.shrinks_refl _) ?_ hs.slots (Or.inl rfl)
    simp [Call.holds, hw]
  | @leave i c phase hc h =>
    refine hs.moved hc (Gate.shrinks_leave _ _) ?_ hs.slots (Or.inr (Or.inr fun e he => Gate.notMem_dropEntry he))
    obtain ⟨hphase, rfl⟩ | ⟨hphase, rfl⟩ := h
    · simp [Call.holds, hphase, Gate.leave]
    · simp [Call.holds, hphase, Gate.leave]
  | @release i c hc h =>
    have hpos : 0 < s.gate.active := by
      rw [hs.active, List.countP_pos_iff]
      exact ⟨c, List.mem_of_getElem? hc, by simp [Call.holds, h]⟩
    refine hs.moved hc (Gate.shrinks_release _) ?_ ((Nat.sub_le _ _).trans hs.slots) ?_
    · simp only [Call.holds, h, Gate.release]
      simp
      omega
    · exact Or.inr (Or.inl (by simp [Call.running, h]))

theorem kept_run {s s' : System} {events : List Event} (hs : s.Kept) (h : s.run events = some s') : s'.Kept := by
  induction events generalizing s with
  | nil =>
    cases h
    exact hs
  | cons event events ih =>
    obtain ⟨s₁, hstep, hrun⟩ := Option.bind_eq_some_iff.1 h
    exact ih (kept_move hs (move_of_step hs.sound hstep)) hrun

/-! ### Calls over time -/

/-- What is carried from step to step is carried through a run. -/
theorem run_induct {P : System → Prop} (hP : ∀ s s' event, s.Kept → Move s event s' → P s → P s') {s s' : System}
    {events : List Event} (hs : s.Kept) (h : s.run events = some s') (h₀ : P s) : P s' := by
  induction events generalizing s with
  | nil =>
    cases h
    exact h₀
  | cons event events ih =>
    obtain ⟨s₁, hstep, hrun⟩ := Option.bind_eq_some_iff.1 h
    have hmove := move_of_step hs.sound hstep
    exact ih (kept_move hs hmove) hrun (hP s s₁ event hs hmove h₀)

/-- The call `i` holds a slot. -/
def Holds (s : System) (i : ℕ) : Prop := ∃ c, s.calls[i]? = some c ∧ c.holds

/-- A call's phase after a move, at any index. -/
theorem getElem?_moved {s : System} {i j : ℕ} {c d : Call} {phase : Phase} {gate : Gate} (hc : s.calls[i]? = some c)
    (hd : (s.moved i c phase gate).calls[j]? = some d) :
    j = i ∧ d = { c with phase := phase } ∨ j ≠ i ∧ s.calls[j]? = some d := by
  change (s.calls.set i _)[j]? = some d at hd
  by_cases hij : i = j
  · subst hij
    obtain ⟨hi, -⟩ := List.getElem?_eq_some_iff.1 hc
    rw [List.getElem?_set_self hi] at hd
    exact Or.inl ⟨rfl, (Option.some.inj hd).symm⟩
  · rw [List.getElem?_set_ne hij] at hd
    exact Or.inr ⟨Ne.symm hij, hd⟩

/-- **Only a call that decides comes to hold a slot**: the others that do held one before. -/
theorem holds_of_move {s s' : System} {event : Event} (h : Move s event s') {i : ℕ} (hi : s'.Holds i) :
    s.Holds i ∨ ∃ c limit, event = .decide i limit ∧ s.calls[i]? = some c ∧
      (s.gate.view c.kind c.registered limit).nextEligible = some c.token := by
  obtain ⟨d, hd, hholds⟩ := hi
  cases h with
  | quiet _ _ => exact Or.inl ⟨d, hd, hholds⟩
  | @enter _ _ _ gate c h hw =>
    rw [List.getElem?_append] at hd
    split at hd
    · exact Or.inl ⟨d, hd, hholds⟩
    · have hdc : d ∈ [c] := List.mem_of_getElem? hd
      rw [List.mem_singleton.1 hdc] at hholds
      simp [Call.holds, hw] at hholds
  | @takeSlot j c limit hc hw h =>
    obtain ⟨rfl, -⟩ | ⟨-, hold⟩ := getElem?_moved hc hd
    · exact Or.inr ⟨c, limit, rfl, hc, h⟩
    · exact Or.inl ⟨d, hold, hholds⟩
  | @cancel j c hc hw =>
    obtain ⟨rfl, rfl⟩ | ⟨-, hold⟩ := getElem?_moved hc hd
    · simp [Call.holds] at hholds
    · exact Or.inl ⟨d, hold, hholds⟩
  | @leave j c phase hc h =>
    obtain ⟨rfl, rfl⟩ | ⟨-, hold⟩ := getElem?_moved hc hd
    · obtain ⟨hphase, rfl⟩ | ⟨hphase, rfl⟩ := h
      · exact Or.inl ⟨c, hc, by simp [Call.holds, hphase]⟩
      · simp [Call.holds] at hholds
    · exact Or.inl ⟨d, hold, hholds⟩
  | @release j c hc h =>
    obtain ⟨rfl, rfl⟩ | ⟨-, hold⟩ := getElem?_moved hc hd
    · simp [Call.holds] at hholds
    · exact Or.inl ⟨d, hold, hholds⟩

/-- A call keeps its token. -/
theorem token_of_move {s s' : System} {event : Event} (h : Move s event s') {i : ℕ} {c : Call}
    (hc : s.calls[i]? = some c) : ∃ c', s'.calls[i]? = some c' ∧ c'.token = c.token ∧ (c.gaveUp → c'.gaveUp) := by
  have hset : ∀ {j : ℕ} {d : Call} {phase : Phase} {gate : Gate}, s.calls[j]? = some d →
      (d.gaveUp → Call.gaveUp { d with phase := phase }) →
      ∃ c', (s.moved j d phase gate).calls[i]? = some c' ∧ c'.token = c.token ∧ (c.gaveUp → c'.gaveUp) := by
    intro j d phase gate hd hgave
    by_cases hij : j = i
    · subst hij
      rw [hc] at hd
      cases hd
      obtain ⟨hi, -⟩ := List.getElem?_eq_some_iff.1 hc
      exact ⟨_, List.getElem?_set_self hi, rfl, hgave⟩
    · refine ⟨c, ?_, rfl, id⟩
      change (s.calls.set j _)[i]? = some c
      rw [List.getElem?_set_ne hij, hc]
  cases h with
  | quiet _ _ => exact ⟨c, hc, rfl, id⟩
  | enter _ _ =>
    obtain ⟨hi, -⟩ := List.getElem?_eq_some_iff.1 hc
    exact ⟨c, by rw [List.getElem?_append_left hi, hc], rfl, id⟩
  | takeSlot hd hw _ => exact hset hd (by simp [Call.gaveUp, hw])
  | cancel hd hw => exact hset hd (by simp [Call.gaveUp])
  | leave hd h =>
    obtain ⟨hphase, rfl⟩ | ⟨hphase, rfl⟩ := h
    · exact hset hd (by simp [Call.gaveUp, hphase])
    · exact hset hd (by simp [Call.gaveUp])
  | release hd h => exact hset hd (by simp [Call.gaveUp, h])

theorem dead_of_move {s s' : System} {event : Event} {token : Token} (h : Move s event s')
    (hd : s.gate.Dead token) : s'.gate.Dead token := by
  cases h with
  | quiet h _ => exact h.dead token hd
  | enter h _ => exact h.dead token hd
  | takeSlot _ _ _ => exact ((Gate.shrinks_view ..).trans (Gate.shrinks_takeSlot _ _)).dead hd
  | cancel _ _ => exact hd
  | leave _ _ => exact (Gate.shrinks_leave _ _).dead hd
  | release _ _ => exact (Gate.shrinks_release _).dead hd

/-- **A token out of the queue stays out, and no call of it takes a slot any more.** -/
theorem holds_of_dead {s s' : System} {events : List Event} {token : Token} (hs : s.Kept) (hd : s.gate.Dead token)
    (h : s.run events = some s') : s'.gate.Dead token ∧
      ∀ i c, s'.calls[i]? = some c → c.token = token → s'.Holds i → s.Holds i := by
  refine run_induct (P := fun t => t.gate.Dead token ∧
    ∀ i c, t.calls[i]? = some c → c.token = token → t.Holds i → s.Holds i) ?_ hs h ⟨hd, fun _ _ _ _ hh => hh⟩
  rintro t t' event ht hmove ⟨htd, hth⟩
  refine ⟨dead_of_move hmove htd, fun i c hc htoken hholds => ?_⟩
  have hsame : ∀ d, t.calls[i]? = some d → d.token = token := by
    intro d hd'
    obtain ⟨c', hc', htc, -⟩ := token_of_move hmove hd'
    rw [hc] at hc'
    rw [← htc, ← Option.some.inj hc', htoken]
  obtain hbefore | ⟨d, limit, -, hd', hnext⟩ := holds_of_move hmove hholds
  · obtain ⟨d, hd', hdh⟩ := hbefore
    exact hth i d hd' (hsame d hd') ⟨d, hd', hdh⟩
  · have hview := Gate.shrinks_view t.gate d.kind d.registered limit
    obtain ⟨-, e, he, het, -⟩ := Gate.nextEligible_spec (hview.sound ht.sound) hnext
    exact absurd (het.trans (hsame d hd')) ((hview.dead htd).entry e he)

/-- **A request that left the table is dead**: its entry went with it. -/
theorem dead_of_gone {s s' : System} {event : Event} (hs : s.Kept) (hmove : Move s event s') {r : Request}
    (hr : r ∈ s.gate.requests) (hgone : ∀ r' ∈ s'.gate.requests, r'.token ≠ r.token) : s'.gate.Dead r.token := by
  have hs' := (kept_move hs hmove).sound
  have hlt := hs.sound.request_lt r hr
  have hentry : ∀ e ∈ s'.gate.heap, e.token = r.token → (∃ e₀ ∈ s.gate.heap, e₀.token = e.token ∧
      e₀.order = e.order) → False := by
    rintro e he het ⟨e₀, he₀, ht₀, ho₀⟩
    have horder : e.order = r.order := by
      obtain ⟨r', hr', ht', ho'⟩ | ⟨hno, -⟩ := hs.sound.placed e₀ he₀
      · rw [← ho₀, ← ho', hs.sound.unique r' hr' r hr (by rw [ht', ht₀, het])]
      · exact absurd (by rw [ht₀, het]) (hno r hr)
    obtain ⟨r', hr', ht', -⟩ | ⟨-, n, -, ho⟩ := hs'.placed e he
    · exact hgone r' hr' (ht'.trans het)
    · rw [horder] at ho
      exact hs.sound.dated r hr (congrArg (fun o : Order => (ofLex o).1) ho)
  have hshrinks : Gate.Shrinks s.gate s'.gate → s'.gate.Dead r.token := by
    intro h
    exact ⟨hlt.trans_le h.created, hgone, fun e he het => hentry e he het (h.entry he)⟩
  cases hmove with
  | quiet h ha =>
    refine ⟨hlt.trans_le h.created, hgone, fun e he het => ?_⟩
    obtain hold | hnew := h.entries e he
    · exact hentry e he het hold
    · exact absurd (het ▸ hlt) hnew.not_gt
  | enter h _ => exact absurd rfl (hgone r (h.requests ▸ hr))
  | takeSlot _ _ _ => exact hshrinks ((Gate.shrinks_view ..).trans (Gate.shrinks_takeSlot _ _))
  | cancel _ _ => exact hshrinks (Gate.shrinks_refl _)
  | leave _ _ => exact hshrinks (Gate.shrinks_leave _ _)
  | release _ _ => exact hshrinks (Gate.shrinks_release _)

/-! ### Every run -/

/-- Every admission goes to the entry before every other that could be admitted, in the gate as the caller sees it. -/
def AdmitsFirst (s : System) : Prop :=
  ∀ event s' i, s.step event = some s' → s'.Holds i → ¬ s.Holds i →
    ∃ c limit, event = .decide i limit ∧ s.calls[i]? = some c ∧
      ∃ e ∈ (s.gate.view c.kind c.registered limit).heap, e.token = c.token ∧
        (s.gate.view c.kind c.registered limit).eligible e ∧
        ∀ e' ∈ (s.gate.view c.kind c.registered limit).heap,
          (s.gate.view c.kind c.registered limit).eligible e' → e' ≠ e → e.key < e'.key

/-- A call that was given up never comes to hold a slot, and once it returned no entry of its token is left but for
another call that is still running. -/
def GivenUpTakesNothing (s : System) : Prop :=
  ∀ i c, s.calls[i]? = some c → c.gaveUp →
    (∀ events s', s.run events = some s' → ¬ s'.Holds i) ∧
    ∀ e ∈ s.gate.heap, e.token = c.token → ∃ c' ∈ s.calls, c'.token = c.token ∧ c'.running

/-- A request that finishes, or that a refresh retires, leaves no entry, and no call of it comes to hold a slot. -/
def GoneTakesNothing (s : System) : Prop :=
  ∀ r ∈ s.gate.requests, ∀ event s₁, s.step event = some s₁ →
    (event = .finish r.jobId r.owner ∨ ∀ r' ∈ s₁.gate.requests, r'.token ≠ r.token) →
      ∀ events s', s₁.run events = some s' → (∀ e ∈ s'.gate.heap, e.token ≠ r.token) ∧
        ∀ i c, s'.calls[i]? = some c → c.token = r.token → s'.Holds i → s₁.Holds i

theorem Kept.admitsFirst {s : System} (hs : s.Kept) : s.AdmitsFirst := by
  intro event s' i hstep hholds hnot
  obtain hbefore | ⟨c, limit, hevent, hc, hnext⟩ := holds_of_move (move_of_step hs.sound hstep) hholds
  · exact absurd hbefore hnot
  · have hview := (Gate.shrinks_view s.gate c.kind c.registered limit).sound hs.sound
    exact ⟨c, limit, hevent, hc, (Gate.nextEligible_spec hview hnext).2⟩

theorem Kept.givenUpTakesNothing {s : System} (hs : s.Kept) : s.GivenUpTakesNothing := by
  intro i c hc hgave
  refine ⟨fun events s' hrun => ?_, fun e he ht => ?_⟩
  · have hstays : ∃ c', s'.calls[i]? = some c' ∧ c'.gaveUp := by
      refine run_induct (P := fun t => ∃ c', t.calls[i]? = some c' ∧ c'.gaveUp) ?_ hs hrun ⟨c, hc, hgave⟩
      rintro t t' event - hmove ⟨d, hd, hdg⟩
      obtain ⟨c', hc', -, hkeep⟩ := token_of_move hmove hd
      exact ⟨c', hc', hkeep hdg⟩
    obtain ⟨c', hc', hgave'⟩ := hstays
    rintro ⟨d, hd, hholds⟩
    rw [hc'] at hd
    cases hd
    simp only [Call.gaveUp, Call.holds, decide_eq_true_eq] at hgave' hholds
    rcases hgave' with h | h <;> simp [h] at hholds
  · obtain ⟨c', hc', ht', hrun⟩ := hs.queued e he c (List.mem_of_getElem? hc) ht.symm
    exact ⟨c', hc', ht'.trans ht, hrun⟩

theorem Kept.goneTakesNothing {s : System} (hs : s.Kept) : s.GoneTakesNothing := by
  intro r hr event s₁ hstep hgone events s' hrun
  have hmove := move_of_step hs.sound hstep
  have hdead : s₁.gate.Dead r.token := by
    obtain rfl | hgone := hgone
    · cases hstep
      exact (Gate.finishRequest_of_mem hs.sound hr).2
    · exact dead_of_gone hs hmove hr hgone
  obtain ⟨hd, hholds⟩ := holds_of_dead (kept_move hs hmove) hdead hrun
  exact ⟨hd.entry, hholds⟩

/-- **The gate keeps its slots and its order.** After any events the slots in use are the callers that were admitted
and have not released, at most `STARTUP_SLOTS`; every entry has its kind and no token is queued twice; every
admission goes to the entry before every other that could be admitted; a call that was given up takes no slot and
leaves no entry, and neither does a request that finished. -/
theorem gate_keeps (events : List Event) (s : System) (h : start.run events = some s) :
    (s.gate.active = s.calls.countP Call.holds ∧ s.gate.active ≤ STARTUP_SLOTS) ∧
    (∀ e ∈ s.gate.heap, (s.gate.waiterKinds e.token).isSome) ∧ (s.gate.heap.map Entry.token).Nodup ∧
    s.AdmitsFirst ∧ s.GivenUpTakesNothing ∧ s.GoneTakesNothing := by
  have hs := kept_run kept_start h
  exact ⟨⟨hs.active, hs.slots⟩, hs.sound.kinds, hs.sound.tokens, hs.admitsFirst, hs.givenUpTakesNothing,
    hs.goneTakesNothing⟩

/-- A job is registered and claimed, waits, is found ready by a refresh and takes a slot. -/
def oneAdmission : List Event :=
  [.register "a" ⟨"2026", by decide⟩ 2 "previews", .claim "a", .enter 2 (some "previews") (some "a"), .refresh false,
    .merge (fun _ => .policy 2 true) fun _ => some 1, .decide 0 none]

theorem gate_keeps_oneAdmission : ∃ s, start.run oneAdmission = some s ∧ s.Holds 0 ∧
    s.gate.active = s.calls.countP Call.holds ∧ s.gate.active ≤ STARTUP_SLOTS := by
  obtain ⟨s, hs, hholds⟩ : ∃ s, start.run oneAdmission = some s ∧ s.Holds 0 := ⟨_, rfl, _, rfl, rfl⟩
  exact ⟨s, hs, hholds, (gate_keeps oneAdmission s hs).1⟩

/-- **A slot outlives its request**: a job that finishes while its caller holds a slot keeps it taken, until the
caller releases it. -/
theorem finished_holds_slot : ∃ s, start.run (oneAdmission ++ [.leave 0, .finish "a" (some 1)]) = some s ∧
    s.gate.requests.rows = [] ∧ s.gate.active = 1 ∧ s.Holds 0 :=
  ⟨_, rfl, rfl, rfl, _, rfl, rfl⟩

end System

end MediaPreview.Jobs
