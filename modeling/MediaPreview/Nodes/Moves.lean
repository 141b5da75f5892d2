import MediaPreview.Nodes.Health

/-!
# What a step does to one node

Every step of the registry changes a node's live record in one of a few ways (`Move`), or makes a new one, and a request
in one of a few ways (`AskMove`); invariants of one node, or of one request, are shown of these (`moved_of_step`).
-/

namespace MediaPreview.Nodes

namespace Registry

/-- What a step makes of a node's live record, and whether its last report still waits for a check. -/
inductive Move (s : Registry) (id : String) (live : Live) : RegistryEvent → Live → Bool → Prop where
  /-- At most its check's time, or a flag, changes. -/
  | quiet (e : RegistryEvent) (next : ℚ) (checking problem : Bool) :
      Move s id live e { live with nextCheck := next, checking := checking, accessProblem := problem } (s.stale id)
  /-- The settings are read. -/
  | merge (records : List NodeRecord) (r : NodeRecord) (hr : records.find? (fun r => r.id = id) = some r) :
      Move s id live (.sync records) (live.merge s.syncs r) (s.stale id)
  /-- A check begins. -/
  | begin (c : ℕ) (call : Call) (hcall : s.calls c = some call) (hcheck : live.check = none) :
      Move s id live (.begin c) (live.begin call.record call.client) (s.stale id)
  /-- Its answer is applied. -/
  | answer (o : Outcome) (now : ℚ) (c : Check) (hcheck : live.check = some c) (hphase : c.phase = .probing)
      (hcurrent : live.current c = true) :
      Move s id live (.answer id o now) (live.answer c (s.twin id o.uid) o now) (!c.sinceReport && s.stale id)
  /-- Its answer is dropped. -/
  | drop (o : Outcome) (now : ℚ) (c : Check) (hcheck : live.check = some c) (hphase : c.phase = .probing) (next : ℚ) :
      Move s id live (.answer id o now) ({ live with nextCheck := next }.setPhase .done) (s.stale id)
  /-- The servers using it are read. -/
  | weigh (c : Check) (o : Outcome) (hcheck : live.check = some c) (hphase : c.phase = .answered o) :
      Move s id live (.weigh id)
        (live.setPhase (.weighed o (newUidConfirmed c.record (s.served id) o) ((s.served id).getD []))) (s.stale id)
  /-- A new id is settled. -/
  | settle (now : ℚ) (c : Check) (o : Outcome) (confirmed : Option Bool) (served : List String)
      (hcheck : live.check = some c) (hphase : c.phase = .weighed o confirmed served) :
      Move s id live (.settle id now) ((live.settle c o confirmed served now).setPhase .done) (s.stale id)
  /-- The check ends. -/
  | finish (c : Check) (hcheck : live.check = some c) (hphase : c.phase = .done) :
      Move s id live (.finish id) { live with check := none, checking := false } (s.stale id)
  /-- It is reported. -/
  | report (now : ℚ) : Move s id live (.report id now) (live.report now) true
  /-- A new id is tied. -/
  | tie (a : ℕ) (ask : Ask) (serial : ℕ) (read : TieRead) (hask : s.asks a = some ask)
      (hphase : ask.phase = .comparing serial read) (hnode : ask.node = id) (huid : live.untiedUid = read.uid)
      (hsaved : live.record.nodeUid = some read.uid) :
      Move s id live (.tie a) (live.tie (besideTheirPlex read.served read.machine)) (s.stale id)

theorem Move.same (s : Registry) (id : String) (live : Live) (e : RegistryEvent) : Move s id live e live (s.stale id) :=
  .quiet e live.nextCheck live.checking live.accessProblem

/-- Requests at a node that a step overtakes. -/
def overtakes (s : Registry) : RegistryEvent → String → Bool
  | .sync records, node => s.replaced records node
  | .settle id _, node => node = id
  | _, _ => false

/-- What a step makes of a request. -/
inductive AskMove (s : Registry) (e : RegistryEvent) (s' : Registry) (a : ℕ) : Ask → Prop where
  /-- It is where it was, and may be overtaken. -/
  | stays (ask ask' : Ask) (hask : s.asks a = some ask) (hnode : ask'.node = ask.node) (hphase : ask'.phase = ask.phase)
      (hover : ask'.overtaken = false → ask.overtaken = false ∧ s.overtakes e ask.node = false) : AskMove s e s' a ask'
  /-- It starts. -/
  | starts (id : String) (he : e = .ask a id) : AskMove s e s' a (s.newAsk id)
  /-- It reads the servers using the node. -/
  | reads (ask : Ask) (serial : ℕ) (uid machine : String) (hask : s.asks a = some ask)
      (hphase : ask.phase = .reading serial uid machine) (he : e = .readServed a) :
      AskMove s e s' a { ask with phase := .read (s.served ask.node) serial uid machine }
  /-- It ties the new id. -/
  | ties (ask : Ask) (serial : ℕ) (read : TieRead) (hask : s.asks a = some ask)
      (hphase : ask.phase = .comparing serial read) (he : e = .tie a)
      (hlives : s'.lives ask.node = (s.lives ask.node).map fun live => live.tieIf serial read) :
      AskMove s e s' a { ask with phase := .decided true (some read) }

/-- How often an event reads the nodes of the settings. -/
def syncsOf : RegistryEvent → ℕ
  | .sync _ => 1
  | _ => 0

/-- What a step does to what is not a node's: the settings' reads, the checks that wait and the requests. -/
structure Frame (s : Registry) (e : RegistryEvent) (s' : Registry) : Prop where
  /-- The reads. -/
  syncs : s'.syncs = s.syncs + syncsOf e
  /-- A check that waits is one that did, or starts at a node. -/
  calls : ∀ c call, s'.calls c = some call → s.calls c = some call ∨
    ∃ live, s.lives call.node = some live ∧ call.client = live.client
  /-- Each request. -/
  asks : ∀ a ask', s'.asks a = some ask' → AskMove s e s' a ask'

/-- What a step does: of each node, nothing was known or its live record moves. -/
structure Moved (s : Registry) (e : RegistryEvent) (s' : Registry) : Prop extends Frame s e s' where
  /-- Each node. -/
  lives : ∀ id live', s'.lives id = some live' →
    (s.lives id = none ∧ (∃ records r, e = .sync records ∧ live' = .new s.syncs r)) ∨
      ∃ live, s.lives id = some live ∧ Move s id live e live' (s'.stale id)

variable {s s' : Registry} {e : RegistryEvent} {id : String} {live live' : Live}

/-- Nothing but nodes changes. -/
theorem Frame.of_eq (he : syncsOf e = 0) (hover : ∀ node, s.overtakes e node = false) (hsyncs : s'.syncs = s.syncs)
    (hcalls : s'.calls = s.calls) (hasks : s'.asks = s.asks) : Frame s e s' where
  syncs := by rw [hsyncs, he, Nat.add_zero]
  calls c call h := .inl (hcalls ▸ h)
  asks a ask h := .stays ask ask (hasks ▸ h) rfl rfl fun ho => ⟨ho, hover _⟩

/-- A request changes. -/
theorem Frame.setAsk {ask' : Option Ask} {a : ℕ} (he : syncsOf e = 0) (hover : ∀ node, s.overtakes e node = false)
    (hsyncs : s'.syncs = s.syncs) (hcalls : s'.calls = s.calls) (hasks : s'.asks = Function.update s.asks a ask')
    (hask : ∀ ask, ask' = some ask → AskMove s e s' a ask) : Frame s e s' where
  syncs := by rw [hsyncs, he, Nat.add_zero]
  calls c call h := .inl (hcalls ▸ h)
  asks a' ask h := by
    rw [hasks] at h
    obtain rfl | hne := eq_or_ne a' a
    · rw [Function.update_self] at h
      exact hask ask h
    · rw [Function.update_of_ne hne] at h
      exact .stays ask ask h rfl rfl fun ho => ⟨ho, hover _⟩

/-- Requests are overtaken. -/
theorem Frame.overtake (hsyncs : s'.syncs = s.syncs + syncsOf e) (hcalls : s'.calls = s.calls)
    (hasks : s'.asks = s.overtake (s.overtakes e)) : Frame s e s' where
  syncs := hsyncs
  calls c call h := .inl (hcalls ▸ h)
  asks a ask' h := by
    rw [hasks] at h
    obtain ⟨ask, hask, rfl⟩ := Option.map_eq_some_iff.1 h
    exact .stays ask _ hask rfl rfl fun ho => Bool.or_eq_false_iff.1 ho

/-- The checks that wait change. -/
theorem Frame.setCall {call : Option Call} {c : ℕ} (he : syncsOf e = 0) (hover : ∀ node, s.overtakes e node = false)
    (hsyncs : s'.syncs = s.syncs) (hcalls : s'.calls = Function.update s.calls c call) (hasks : s'.asks = s.asks)
    (hcall : ∀ call', call = some call' → ∃ live, s.lives call'.node = some live ∧ call'.client = live.client) :
    Frame s e s' where
  syncs := by rw [hsyncs, he, Nat.add_zero]
  calls c' call' h := by
    rw [hcalls] at h
    obtain rfl | hne := eq_or_ne c' c
    · rw [Function.update_self] at h
      exact .inr (hcall call' h)
    · rw [Function.update_of_ne hne] at h
      exact .inl h
  asks a ask h := .stays ask ask (hasks ▸ h) rfl rfl fun ho => ⟨ho, hover _⟩

/-- No node changes. -/
theorem Moved.same (hf : Frame s e s') (hlives : s'.lives = s.lives) (hstale : s'.stale = s.stale) : Moved s e s' where
  toFrame := hf
  lives id live' hl := by
    rw [hlives] at hl
    exact .inr ⟨live', hl, hstale ▸ .same ..⟩

/-- One node changes. -/
theorem Moved.set (hf : Frame s e s') (hlive : s.lives id = some live)
    (hlives : s'.lives = Function.update s.lives id (some live'))
    (hstale : ∀ id', id' ≠ id → s'.stale id' = s.stale id') (hmove : Move s id live e live' (s'.stale id)) :
    Moved s e s' where
  toFrame := hf
  lives id' l hl := by
    rw [hlives] at hl
    obtain rfl | hne := eq_or_ne id' id
    · rw [Function.update_self] at hl
      obtain rfl := Option.some.inj hl
      exact .inr ⟨live, hlive, hmove⟩
    · rw [Function.update_of_ne hne] at hl
      exact .inr ⟨l, hl, hstale id' hne ▸ .same ..⟩

/-- One node changes, if it is there. -/
theorem Moved.map {f : Live → Live} (hf : Frame s e s') (hlives : s'.lives = Function.update s.lives id ((s.lives id).map f))
    (hstale : ∀ id', id' ≠ id → s'.stale id' = s.stale id') (hmove : ∀ live, Move s id live e (f live) (s'.stale id)) :
    Moved s e s' where
  toFrame := hf
  lives id' l hl := by
    rw [hlives] at hl
    obtain rfl | hne := eq_or_ne id' id
    · rw [Function.update_self] at hl
      obtain ⟨live, hlive, rfl⟩ := Option.map_eq_some_iff.1 hl
      exact .inr ⟨live, hlive, hmove live⟩
    · rw [Function.update_of_ne hne] at hl
      exact .inr ⟨l, hl, hstale id' hne ▸ .same ..⟩

/-- What was rechecked. -/
theorem recheck_quiet (live : Live) (waited : Bool) (now : ℚ) : ∃ next checking,
    (live.recheck waited now).1 = { live with nextCheck := next, checking := checking } := by
  unfold Live.recheck
  split_ifs
  · exact ⟨live.nextCheck, live.checking, rfl⟩
  · exact ⟨live.nextCheck, true, rfl⟩
  · exact ⟨_, live.checking, rfl⟩

theorem moved_sync (records : List NodeRecord) : Moved s (.sync records) (s.sync records) := by
  refine ⟨.overtake rfl rfl rfl, fun id live' hl => ?_⟩
  change (if id = "" then none else (records.find? fun r => r.id = id).map s.merged) = some live' at hl
  split_ifs at hl
  obtain ⟨r, hr, rfl⟩ := Option.map_eq_some_iff.1 hl
  have hid : r.id = id := of_decide_eq_true (List.find?_some hr :)
  unfold merged
  rw [hid]
  cases hlive : s.lives id with
  | none => exact .inl ⟨rfl, records, r, rfl, rfl⟩
  | some live => exact .inr ⟨live, rfl, .merge records r hr⟩

theorem moved_call {c : ℕ} (h : s.step (.call c id) = some s') : Moved s (.call c id) s' := by
  simp only [step] at h
  split at h
  · rename_i live hcall hlive
    obtain rfl := Option.some.inj h
    refine .set (.setCall rfl (fun _ => rfl) rfl rfl rfl ?_) hlive rfl (fun _ _ => rfl)
      (.quiet _ live.nextCheck true live.accessProblem)
    rintro _ ⟨⟩
    exact ⟨live, hlive, rfl⟩
  · cases h

theorem moved_begin {c : ℕ} (h : s.step (.begin c) = some s') : Moved s (.begin c) s' := by
  have hgone : Frame s (.begin c) { s with calls := Function.update s.calls c none } :=
    .setCall rfl (fun _ => rfl) rfl rfl rfl fun _ h => by cases h
  cases hcall : s.calls c with
  | none => simp [step, hcall] at h
  | some call =>
    cases hlive : s.lives call.node with
    | none =>
      simp only [step, hcall, hlive, Option.some.injEq] at h
      subst h
      exact .same hgone rfl rfl
    | some live =>
      simp only [step, hcall, hlive] at h
      split_ifs at h with hserial hcheck
      · obtain rfl := Option.some.inj h
        exact .same hgone rfl rfl
      · obtain rfl := Option.some.inj h
        exact .set (.setCall rfl (fun _ => rfl) rfl rfl rfl fun _ h => by cases h) hlive rfl (fun _ _ => rfl)
          (.begin c call hcall (by simpa using hcheck))

/-- An answer is applied, or dropped. -/
theorem moved_applied {o : Outcome} {now : ℚ} {c : Check} (hlive : s.lives id = some live)
    (hcheck : live.check = some c) (hphase : c.phase = .probing) :
    Moved s (.answer id o now) (s.answer id live c o now) := by
  unfold answer
  split_ifs with hcurrent hsince hclient
  · refine .set (.of_eq rfl (fun _ => rfl) rfl rfl rfl) hlive rfl (fun id' hne => Function.update_of_ne hne ..) ?_
    have hmove : Move s id live (.answer id o now) (live.answer c (s.twin id o.uid) o now) (!c.sinceReport && s.stale id) :=
      .answer o now c hcheck hphase hcurrent
    rw [hsince, Bool.not_true, Bool.false_and] at hmove
    show Move s id live _ _ (Function.update s.stale id false id)
    rwa [Function.update_self]
  · refine .set (.of_eq rfl (fun _ => rfl) rfl rfl rfl) hlive rfl (fun _ _ => rfl) ?_
    have hmove : Move s id live (.answer id o now) (live.answer c (s.twin id o.uid) o now) (!c.sinceReport && s.stale id) :=
      .answer o now c hcheck hphase hcurrent
    rwa [Bool.eq_false_iff.2 hsince, Bool.not_false, Bool.true_and] at hmove
  · exact .set (.of_eq rfl (fun _ => rfl) rfl rfl rfl) hlive rfl (fun _ _ => rfl) (.drop o now c hcheck hphase 0)
  · exact .set (.of_eq rfl (fun _ => rfl) rfl rfl rfl) hlive rfl (fun _ _ => rfl) (.drop o now c hcheck hphase live.nextCheck)

theorem moved_answer {o : Outcome} {now : ℚ} (h : s.step (.answer id o now) = some s') :
    Moved s (.answer id o now) s' := by
  cases hlive : s.lives id with
  | none => simp [step, hlive] at h
  | some live =>
    cases hcheck : live.check with
    | none => simp [step, hlive, hcheck] at h
    | some c =>
      simp only [step, hlive, hcheck, Option.ite_none_right_eq_some, Option.some.injEq] at h
      obtain ⟨hphase, rfl⟩ := h
      exact moved_applied hlive hcheck hphase

theorem moved_weigh (h : s.step (.weigh id) = some s') : Moved s (.weigh id) s' := by
  cases hlive : s.lives id with
  | none => simp [step, hlive] at h
  | some live =>
    cases hcheck : live.check with
    | none => simp [step, hlive, hcheck] at h
    | some c =>
      simp only [step, hlive, hcheck] at h
      split at h
      · rename_i o hphase
        obtain rfl := Option.some.inj h
        exact .set (.of_eq rfl (fun _ => rfl) rfl rfl rfl) hlive rfl (fun _ _ => rfl) (.weigh c o hcheck hphase)
      · cases h

theorem moved_settle {now : ℚ} (h : s.step (.settle id now) = some s') : Moved s (.settle id now) s' := by
  cases hlive : s.lives id with
  | none => simp [step, hlive] at h
  | some live =>
    cases hcheck : live.check with
    | none => simp [step, hlive, hcheck] at h
    | some c =>
      simp only [step, hlive, hcheck] at h
      split at h
      · rename_i o confirmed served hphase
        obtain rfl := Option.some.inj h
        exact .set (.overtake rfl rfl rfl) hlive rfl (fun _ _ => rfl) (.settle now c o confirmed served hcheck hphase)
      · cases h

theorem moved_finish (h : s.step (.finish id) = some s') : Moved s (.finish id) s' := by
  cases hlive : s.lives id with
  | none => simp [step, hlive] at h
  | some live =>
    cases hcheck : live.check with
    | none => simp [step, hlive, hcheck] at h
    | some c =>
      simp only [step, hlive, hcheck, Option.ite_none_right_eq_some, Option.some.injEq] at h
      obtain ⟨hphase, rfl⟩ := h
      exact .set (.of_eq rfl (fun _ => rfl) rfl rfl rfl) hlive rfl (fun _ _ => rfl) (.finish c hcheck hphase)

theorem moved_report {now : ℚ} (h : s.step (.report id now) = some s') : Moved s (.report id now) s' := by
  obtain rfl := Option.some.inj h
  refine .map (.of_eq rfl (fun _ => rfl) rfl rfl rfl) rfl (fun id' hne => Function.update_of_ne hne ..) fun live => ?_
  show Move s id live _ _ (Function.update s.stale id true id)
  rw [Function.update_self]
  exact .report now

theorem moved_workWaiting {now : ℚ} (h : s.step (.workWaiting id now) = some s') : Moved s (.workWaiting id now) s' := by
  obtain rfl := Option.some.inj h
  refine .map (.of_eq rfl (fun _ => rfl) rfl rfl rfl) rfl (fun _ _ => rfl) fun live => ?_
  split_ifs
  · exact .quiet _ (now + waitingRecheckS) live.checking live.accessProblem
  · exact .same ..

theorem moved_ask {a : ℕ} (h : s.step (.ask a id) = some s') : Moved s (.ask a id) s' := by
  cases hask : s.asks a with
  | some ask => simp [step, hask] at h
  | none =>
    simp only [step, hask, Option.some.injEq] at h
    subst h
    refine .same (.setAsk rfl (fun _ => rfl) rfl rfl rfl ?_) rfl rfl
    rintro _ ⟨⟩
    exact .starts id rfl

theorem moved_readServed {a : ℕ} (h : s.step (.readServed a) = some s') : Moved s (.readServed a) s' := by
  cases hask : s.asks a with
  | none => simp [step, hask] at h
  | some ask =>
    simp only [step, hask] at h
    split at h
    · rename_i serial uid machine hphase
      obtain rfl := Option.some.inj h
      refine .same (.setAsk rfl (fun _ => rfl) rfl rfl rfl ?_) rfl rfl
      rintro _ ⟨⟩
      exact .reads ask serial uid machine hask hphase rfl
    · cases h

theorem moved_tie {a : ℕ} (h : s.step (.tie a) = some s') : Moved s (.tie a) s' := by
  cases hask : s.asks a with
  | none => simp [step, hask] at h
  | some ask =>
    simp only [step, hask] at h
    split at h
    · rename_i serial read hphase
      obtain rfl := Option.some.inj h
      refine .map (.setAsk rfl (fun _ => rfl) rfl rfl rfl ?_) rfl (fun _ _ => rfl) fun live => ?_
      · rintro _ ⟨⟩
        exact .ties ask serial read hask hphase rfl (Function.update_self ..)
      · unfold Live.tieIf
        split_ifs with hif
        · exact .tie a ask serial read hask hphase rfl hif.2.1 hif.2.2
        · exact .same ..
    · cases h

/-- A request is answered, or waits for a check. -/
theorem moved_held {a : ℕ} {ask : Ask} (hask : s.asks a = some ask) {tieDecided left : Bool} {now : ℚ} :
    Moved s (.hold a now left) (s.hold a ask tieDecided now left) := by
  have hover : ∀ (s' : Registry) (ask' : Ask), none = some ask' → AskMove s (.hold a now left) s' a ask' :=
    fun _ _ h => by cases h
  unfold hold
  cases hlive : s.lives ask.node with
  | none => exact .same (.setAsk rfl (fun _ => rfl) rfl rfl rfl (hover _)) rfl rfl
  | some live =>
    cases hhold : live.plexDbHold tieDecided with
    | none =>
      simp only [hhold]
      exact .same (.setAsk rfl (fun _ => rfl) rfl rfl rfl (hover _)) rfl rfl
    | some hold =>
      simp only [hhold]
      split
      · exact .same (.setAsk rfl (fun _ => rfl) rfl rfl rfl (hover _)) rfl rfl
      · obtain ⟨next, checking, heq⟩ := recheck_quiet live ask.waited now
        refine .set (.setAsk rfl (fun _ => rfl) rfl rfl rfl fun ask' h => ?_) hlive rfl (fun _ _ => rfl)
          (heq ▸ .quiet _ next checking live.accessProblem)
        split_ifs at h
        obtain rfl := Option.some.inj h
        exact .stays ask _ hask rfl rfl fun ho => ⟨ho, rfl⟩

theorem moved_hold {a : ℕ} {now : ℚ} {left : Bool} (h : s.step (.hold a now left) = some s') :
    Moved s (.hold a now left) s' := by
  cases hask : s.asks a with
  | none => simp [step, hask] at h
  | some ask =>
    simp only [step, hask] at h
    split at h
    · obtain rfl := Option.some.inj h
      exact moved_held hask
    · cases h

/-- **What a step does.** -/
theorem moved_of_step (h : s.step e = some s') : Moved s e s' := by
  cases e with
  | edit settings =>
    obtain rfl := Option.some.inj h
    exact .same (.of_eq rfl (fun _ => rfl) rfl rfl rfl) rfl rfl
  | serve id served =>
    obtain rfl := Option.some.inj h
    exact .same (.of_eq rfl (fun _ => rfl) rfl rfl rfl) rfl rfl
  | sync records =>
    obtain rfl := Option.some.inj h
    exact moved_sync records
  | call c id => exact moved_call h
  | begin c => exact moved_begin h
  | answer id o now => exact moved_answer h
  | weigh id => exact moved_weigh h
  | settle id now => exact moved_settle h
  | finish id => exact moved_finish h
  | record id uid url ok =>
    simp only [step, Option.ite_none_right_eq_some, Option.some.injEq] at h
    obtain ⟨-, rfl⟩ := h
    exact .same (.of_eq rfl (fun _ => rfl) rfl rfl rfl) rfl rfl
  | report id now => exact moved_report h
  | workWaiting id now => exact moved_workWaiting h
  | access id problem =>
    obtain rfl := Option.some.inj h
    exact .map (.of_eq rfl (fun _ => rfl) rfl rfl rfl) rfl (fun _ _ => rfl) fun live => .quiet _ live.nextCheck live.checking problem
  | ask a id => exact moved_ask h
  | readServed a => exact moved_readServed h
  | tie a => exact moved_tie h
  | hold a now left => exact moved_hold h

end Registry

end MediaPreview.Nodes
