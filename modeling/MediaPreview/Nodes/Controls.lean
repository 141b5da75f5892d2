import MediaPreview.Lib.Runs

/-!
# A job's cancel and pause, forwarded to a node

`_TaskRun._forward_controls` of `nodes/executor.py` and the flags of `NodeTask` it sets. The app sends what changed since
it last heard from the node (`_paused_at`, `_cancel_delivered`), so what a step that heard back leaves on the node is
what the job wants (`forward_follows`), as long as no pause or resume was acted on without an answer. After one that
was, the app holds the node for what it was before: a job that takes its pause back meanwhile leaves the op paused, and
nothing the app sends later resumes it (`stuck_of_lost`).

The node cancels tasks too: all of them when it stops (`TaskTable.close`), and what it takes out of its table. A task it
stopped is still in the table, and pausing and resuming it is still answered, to no effect.
-/

namespace MediaPreview.Nodes

/-- What became of a request to the node. -/
inductive Sent where
  /-- The node acted on it and answered. -/
  | answered
  /-- It refused the key (`NodeAuthError`). -/
  | refused
  /-- It never reached the node. -/
  | unreached
  /-- The node acted on it, and its answer was lost. -/
  | lost
  deriving DecidableEq, Repr

/-- A job's controls, the app's run of its task and the task on the node. -/
structure Controls where
  /-- `cancel_check()` of the job. -/
  wantsCancel : Bool
  /-- `pause_check()` of the job; one without is never paused. -/
  wantsPause : Bool
  /-- `_cancel_seen_at` is set. -/
  cancelSeen : Bool
  /-- `_cancel_delivered`. -/
  cancelDelivered : Bool
  /-- `_paused_at` is set. -/
  paused : Bool
  /-- `_key_refused`. -/
  keyRefused : Bool
  /-- `_cancel` of the node's task. -/
  nodeCancelled : Bool
  /-- `_paused` of the node's task. -/
  nodePaused : Bool
  /-- `discarded` of the node's task: the node cancelled it itself. -/
  discarded : Bool
  /-- The node's table has the task. -/
  inTable : Bool
  deriving DecidableEq, Repr

/-- What can happen. -/
inductive ControlEvent where
  /-- The job's controls change. -/
  | job (wantsCancel wantsPause : Bool)
  /-- `_forward_controls`, and what became of the request it sends, if any. -/
  | forward (sent : Sent)
  /-- `TaskTable.close`: the node stops, and its tasks stay in the table. -/
  | close
  /-- `TaskTable.reap` or `delete`: the task goes. -/
  | remove
  deriving DecidableEq, Repr

namespace Controls

/-- A task that was just started. -/
def start (wantsCancel wantsPause : Bool) : Controls where
  wantsCancel := wantsCancel
  wantsPause := wantsPause
  cancelSeen := false
  cancelDelivered := false
  paused := false
  keyRefused := false
  nodeCancelled := false
  nodePaused := false
  discarded := false
  inTable := true

/-- `NodeTask.cancel_check`. -/
def cancelCheck (s : Controls) : Bool := s.nodeCancelled

/-- `NodeTask.pause_check`: a cancelled task never reads as paused. -/
def pauseCheck (s : Controls) : Bool := s.nodePaused && !s.nodeCancelled

/-- `_client.cancel_task`. -/
def sendCancel (s : Controls) : Sent → Controls
  | .answered => { s with nodeCancelled := true, cancelDelivered := true }
  | .refused => { s with keyRefused := true }
  | .unreached => s
  | .lost => { s with nodeCancelled := true }

/-- `_client.pause_task` or `resume_task`. -/
def sendPause (s : Controls) : Sent → Controls
  | .answered => { s with nodePaused := s.wantsPause, paused := s.wantsPause }
  | .refused => { s with keyRefused := true }
  | .unreached => s
  | .lost => { s with nodePaused := s.wantsPause }

/-- The job's cancel is taken note of. -/
def see (s : Controls) : Controls := { s with cancelSeen := s.cancelSeen || s.wantsCancel }

/-- What is to be sent is. -/
def send (s : Controls) (sent : Sent) : Controls :=
  if s.keyRefused then s
  else if s.cancelSeen then if s.cancelDelivered then s else s.sendCancel sent
  else if s.wantsPause = s.paused then s
  else s.sendPause sent

/-- `_forward_controls`. -/
def forwardControls (s : Controls) (sent : Sent) : Controls := s.see.send sent

/-- `TaskTable._discard`. -/
def discard (s : Controls) : Controls := { s with discarded := true, nodeCancelled := true }

/-- One event. A request about a task the table has not is answered as one that did not come through. -/
def step (s : Controls) : ControlEvent → Option Controls
  | .job wantsCancel wantsPause => some { s with wantsCancel := wantsCancel, wantsPause := wantsPause }
  | .forward sent =>
    if !s.inTable && (sent = .answered || sent = .lost) then none else some (s.forwardControls sent)
  | .close => if s.inTable then some s.discard else none
  | .remove => if s.inTable then some { s.discard with inTable := false } else none

end Controls

namespace Controls

variable {s s' : Controls} {e : ControlEvent} {es : List ControlEvent}

/-- A forward happens unless the node answers for a task it has not. -/
theorem step_forward_eq_some_iff {sent : Sent} : s.step (.forward sent) = some s' ↔
    ¬ (!s.inTable && (sent = .answered || sent = .lost)) = true ∧ s.forwardControls sent = s' := by
  rw [step, Option.ite_none_left_eq_some, Option.some.injEq]

/-- What the app holds the node for. -/
structure InStep (s : Controls) : Prop where
  /-- The node is paused when the app takes it to be. -/
  paused : s.nodePaused = s.paused
  /-- A cancel that was delivered is there. -/
  delivered : s.cancelDelivered = true → s.nodeCancelled = true
  /-- Its job cancelled a task, or the node itself. -/
  cancelled : s.nodeCancelled = true → s.cancelSeen = true ∨ s.discarded = true
  /-- What the node discarded it cancelled. -/
  discarded : s.discarded = true → s.nodeCancelled = true

theorem inStep_start (wantsCancel wantsPause : Bool) : (start wantsCancel wantsPause).InStep :=
  ⟨rfl, fun h => absurd h Bool.false_ne_true, fun h => absurd h Bool.false_ne_true, fun h => absurd h Bool.false_ne_true⟩

/-- No pause or resume is acted on without an answer. -/
def Heard (s : Controls) (e : ControlEvent) : Prop := e = .forward .lost → s.cancelSeen = true ∨ s.wantsCancel = true

/-- A request to cancel. -/
theorem InStep.sendCancel (h : s.InStep) (hseen : s.cancelSeen = true) (sent : Sent) : (s.sendCancel sent).InStep := by
  cases sent with
  | answered => exact ⟨h.paused, fun _ => rfl, fun _ => .inl hseen, fun _ => rfl⟩
  | refused => exact ⟨h.paused, h.delivered, h.cancelled, h.discarded⟩
  | unreached => exact h
  | lost => exact ⟨h.paused, fun _ => rfl, fun _ => .inl hseen, fun _ => rfl⟩

/-- A request to pause or to resume. -/
theorem InStep.sendPause (h : s.InStep) {sent : Sent} (hsent : sent ≠ .lost) : (s.sendPause sent).InStep := by
  cases sent with
  | answered => exact ⟨rfl, h.delivered, h.cancelled, h.discarded⟩
  | refused => exact ⟨h.paused, h.delivered, h.cancelled, h.discarded⟩
  | unreached => exact h
  | lost => exact absurd rfl hsent

theorem InStep.see (h : s.InStep) : s.see.InStep :=
  ⟨h.paused, h.delivered, fun hc => (h.cancelled hc).imp_left fun hs => by rw [Controls.see, hs, Bool.true_or], h.discarded⟩

theorem InStep.send (h : s.InStep) {sent : Sent} (hsent : sent = .lost → s.cancelSeen = true) :
    (s.send sent).InStep := by
  unfold Controls.send
  split_ifs with hrefused hseen hdelivered hwants
  · exact h
  · exact h
  · exact h.sendCancel hseen sent
  · exact h
  · exact h.sendPause fun hlost => hseen (hsent hlost)

theorem InStep.forwardControls (h : s.InStep) {sent : Sent} (hheard : Heard s (.forward sent)) :
    (s.forwardControls sent).InStep := by
  refine h.see.send fun hlost => ?_
  rw [Controls.see, Bool.or_eq_true]
  exact hheard (by rw [hlost])

/-- The node's own cancel. -/
theorem InStep.discard (h : s.InStep) : s.discard.InStep := ⟨h.paused, fun _ => rfl, fun _ => .inr rfl, fun _ => rfl⟩

theorem InStep.step (h : s.InStep) (hheard : Heard s e) (hstep : s.step e = some s') : s'.InStep := by
  cases e with
  | job wantsCancel wantsPause =>
    obtain rfl := Option.some.inj hstep
    exact ⟨h.paused, h.delivered, h.cancelled, h.discarded⟩
  | forward sent =>
    obtain ⟨-, rfl⟩ := step_forward_eq_some_iff.1 hstep
    exact h.forwardControls hheard
  | close =>
    obtain ⟨-, hstep⟩ := Option.ite_none_right_eq_some.1 hstep
    exact Option.some.inj hstep ▸ h.discard
  | remove =>
    obtain ⟨-, hstep⟩ := Option.ite_none_right_eq_some.1 hstep
    obtain rfl := Option.some.inj hstep
    exact ⟨h.discard.paused, h.discard.delivered, h.discard.cancelled, h.discard.discarded⟩

theorem inStep_of_runs {wantsCancel wantsPause : Bool} (h : Runs step Heard (start wantsCancel wantsPause) es s) :
    s.InStep :=
  h.keeps (inStep_start wantsCancel wantsPause) fun _ _ _ hheard hstep hin => hin.step hheard hstep

/-- **A forward the node answered leaves the op with what the job wants**: cancelled once its cancel was seen, or the node
discarded it, and paused as the job is until then, whatever was refused, not delivered or changed before. -/
theorem forward_follows {wantsCancel wantsPause : Bool} (h : Runs step Heard (start wantsCancel wantsPause) es s)
    (hkey : s.keyRefused = false) (hanswered : s.step (.forward .answered) = some s') :
    s'.cancelCheck = (s.cancelSeen || s.wantsCancel || s.discarded) ∧
      s'.pauseCheck = (s.wantsPause && !(s.cancelSeen || s.wantsCancel || s.discarded)) := by
  have hin := (inStep_of_runs h).see
  obtain ⟨-, rfl⟩ := step_forward_eq_some_iff.1 hanswered
  have hkey : ¬ s.see.keyRefused = true := by
    rw [Bool.not_eq_true]
    exact hkey
  change _ = (s.see.cancelSeen || s.see.discarded) ∧ _ = (s.see.wantsPause && !(s.see.cancelSeen || s.see.discarded))
  unfold Controls.forwardControls Controls.send cancelCheck pauseCheck
  rw [if_neg hkey]
  cases hseen : s.see.cancelSeen with
  | true =>
    rw [if_pos rfl, Bool.true_or, Bool.not_true, Bool.and_false]
    split_ifs with hdelivered
    · rw [hin.delivered hdelivered]
      exact ⟨rfl, Bool.and_false _⟩
    · exact ⟨rfl, Bool.and_false _⟩
  | false =>
    have hnode : s.see.nodeCancelled = s.see.discarded := by
      refine Bool.eq_iff_iff.mpr ⟨fun hc => (hin.cancelled hc).resolve_left ?_, hin.discarded⟩
      rw [hseen]
      exact Bool.false_ne_true
    rw [if_neg Bool.false_ne_true, Bool.false_or]
    split_ifs with hwants
    · rw [hnode, hin.paused, hwants]
      exact ⟨rfl, rfl⟩
    · refine ⟨hnode, ?_⟩
      change (s.see.wantsPause && !s.see.nodeCancelled) = _
      rw [hnode]

/-- A pause that reached the node after two that did not, and a cancel; and one that came after the node's stop. -/
theorem forward_follows_pause :
    (∃ s s', Runs step Heard (start false false)
      [.job false true, .forward .unreached, .forward .answered, .job true true] s ∧
        s.step (.forward .answered) = some s' ∧ s'.cancelCheck = true ∧ s'.pauseCheck = false) ∧
    ∃ s s', Runs step Heard (start false false) [.close, .job false true] s ∧
      s.step (.forward .answered) = some s' ∧ s'.cancelCheck = true ∧ s'.pauseCheck = false := by
  have hrun : Runs step Heard (start false false)
      [.job false true, .forward .unreached, .forward .answered, .job true true] _ :=
    Runs.of_exec (fun e he s hlost => absurd (hlost ▸ he) (by decide)) rfl
  have hclosed : Runs step Heard (start false false) [.close, .job false true] _ :=
    Runs.of_exec (fun e he s hlost => absurd (hlost ▸ he) (by decide)) rfl
  exact ⟨⟨_, _, hrun, rfl, forward_follows hrun rfl rfl⟩, _, _, hclosed, rfl, forward_follows hclosed rfl rfl⟩

/-- **An op left paused stays paused** while its job wants nothing of the node, whatever becomes of the app's steps. -/
theorem stuck (hpaused : s.paused = s.wantsPause) (hcancel : s.cancelSeen = false ∧ s.wantsCancel = false)
    (h : Runs step (fun _ e => ∃ sent, e = .forward sent) s es s') : s' = s := by
  have hseen : (s.cancelSeen || s.wantsCancel) = s.cancelSeen := by rw [hcancel.2, Bool.or_false]
  have hsee : s.see = s := congrArg (fun b => { s with cancelSeen := b }) hseen
  refine h.keeps (I := (· = s)) rfl fun s₁ e s₂ hevent hstep hs => ?_
  obtain ⟨sent, rfl⟩ := hevent
  obtain rfl := hs
  obtain ⟨-, rfl⟩ := step_forward_eq_some_iff.1 hstep
  rw [forwardControls, hsee, send, hcancel.1, if_neg Bool.false_ne_true, if_pos hpaused.symm, ite_self]

/-- Paused without an answer, then wanted no more: the node holds the op for good. -/
theorem stuck_of_lost : ∃ s,
    exec step (start false false) [.job false true, .forward .lost, .job false false] = some s ∧
    ∀ es s', Runs step (fun _ e => ∃ sent, e = .forward sent) s es s' →
      s'.pauseCheck = true ∧ s'.wantsPause = false := by
  refine ⟨_, rfl, fun es s' h => ?_⟩
  rw [stuck rfl ⟨rfl, rfl⟩ h]
  exact ⟨rfl, rfl⟩

end Controls

end MediaPreview.Nodes
