import MediaPreview.Nodes.Moves

/-!
# Work stops at a report

After a node is reported unavailable, and until a check begun since is applied, it does not read as checked ready, and
the answer of a check begun before leaves it due for another at once (`Reported`). Its Plex database work is held too,
unless a check begun before the report hears the saved id, or settles a new one, after it (`Fresh`): the id heard is the
one thing that is not compared with the check's number (`heard_after_report`).
-/

namespace MediaPreview.Nodes

namespace Live

variable {live : Live}

@[simp] theorem seenAs_uid (twin : Bool) (o : Outcome) : (seenAs twin o).uid = o.uid := by
  unfold seenAs
  split_ifs <;> rfl

theorem of_setPhase {p : CheckPhase} {c : Check} (h : (live.setPhase p).check = some c) :
    ∃ c₀, live.check = some c₀ ∧ c = { c₀ with phase := p } := by
  obtain ⟨c₀, hc₀, rfl⟩ := Option.map_eq_some_iff.1 h
  exact ⟨c₀, hc₀, rfl⟩

/-- The numbers of a node's checks: the one under way is the last, it began since the last report when its number is
higher than the report's, and while no such check was applied none came back ready, or is settling a new id. -/
structure Reported (live : Live) (stale : Bool) : Prop where
  /-- The check under way is the last. -/
  number : ∀ c, live.check = some c → c.number = live.checksBegun
  /-- When it began. -/
  since : ∀ c, live.check = some c → (c.sinceReport = true ↔ live.reportedAtCheck < c.number)
  /-- The report's number. -/
  reported_le : live.reportedAtCheck ≤ live.checksBegun
  /-- The number of the last ready one. -/
  ready_le : live.readyCheck ≤ live.checksBegun
  /-- It is from before the report. -/
  ready_le_reported : stale = true → live.readyCheck ≤ live.reportedAtCheck
  /-- A check begun since that settles a new id was applied. -/
  applied : ∀ c, live.check = some c → c.sinceReport = true → c.phase.settling = true → stale = false

theorem reported_new (k : ℕ) (r : NodeRecord) (stale : Bool) : (new k r).Reported stale where
  number c h := by cases h
  since c h := by cases h
  reported_le := le_rfl
  ready_le := le_rfl
  ready_le_reported _ := le_rfl
  applied c h := by cases h

variable {stale : Bool}

/-- The numbers stay, and at most the check's phase changes. -/
theorem Reported.frame {live' : Live} (h : live.Reported stale) (hbegun : live'.checksBegun = live.checksBegun)
    (hready : live'.readyCheck = live.readyCheck) (hreported : live'.reportedAtCheck = live.reportedAtCheck)
    (hcheck : ∀ c, live'.check = some c → ∃ c₀, live.check = some c₀ ∧ c.number = c₀.number ∧
      c.sinceReport = c₀.sinceReport ∧ (c.phase.settling = true → c₀.phase.settling = true)) :
    live'.Reported stale where
  number c hc := by
    obtain ⟨c₀, hc₀, hnumber, -⟩ := hcheck c hc
    rw [hnumber, hbegun]
    exact h.number c₀ hc₀
  since c hc := by
    obtain ⟨c₀, hc₀, hnumber, hsince, -⟩ := hcheck c hc
    rw [hnumber, hsince, hreported]
    exact h.since c₀ hc₀
  reported_le := by rw [hreported, hbegun]; exact h.reported_le
  ready_le := by rw [hready, hbegun]; exact h.ready_le
  ready_le_reported := by rw [hready, hreported]; exact h.ready_le_reported
  applied c hc hs hp := by
    obtain ⟨c₀, hc₀, -, hsince, hphase⟩ := hcheck c hc
    exact h.applied c₀ hc₀ (hsince ▸ hs) (hphase hp)

theorem Reported.setPhase (h : live.Reported stale) {p : CheckPhase}
    (hp : ∀ c, live.check = some c → p.settling = true → c.phase.settling = true) :
    (live.setPhase p).Reported stale := by
  refine h.frame rfl rfl rfl fun c hc => ?_
  obtain ⟨c₀, hc₀, rfl⟩ := of_setPhase hc
  exact ⟨c₀, hc₀, rfl, rfl, hp c₀ hc₀⟩

theorem Reported.begin (h : live.Reported stale) (r : NodeRecord) (client : ℕ) :
    (live.begin r client).Reported stale where
  number c hc := by
    obtain rfl := Option.some.inj hc
    rfl
  since c hc := by
    obtain rfl := Option.some.inj hc
    exact ⟨fun _ => Nat.lt_succ_of_le h.reported_le, fun _ => rfl⟩
  reported_le := h.reported_le.trans (Nat.le_succ _)
  ready_le := h.ready_le.trans (Nat.le_succ _)
  ready_le_reported := h.ready_le_reported
  applied c hc _ hp := by
    obtain rfl := Option.some.inj hc
    cases hp

theorem Reported.answer (h : live.Reported stale) {c : Check} (hc : live.check = some c) (twin : Bool) (o : Outcome)
    (now : ℚ) : (live.answer c twin o now).Reported (!c.sinceReport && stale) where
  number c' hc' := by
    obtain rfl := Option.some.inj hc'
    exact h.number c hc
  since c' hc' := by
    obtain rfl := Option.some.inj hc'
    exact h.since c hc
  reported_le := h.reported_le
  ready_le := by
    show (if (seenAs twin o).state = .ready then c.number else live.readyCheck) ≤ live.checksBegun
    split_ifs
    · exact (h.number c hc).le
    · exact h.ready_le
  ready_le_reported hs := by
    show (if (seenAs twin o).state = .ready then c.number else live.readyCheck) ≤ live.reportedAtCheck
    rw [Bool.and_eq_true, Bool.not_eq_true'] at hs
    split_ifs
    · refine not_lt.1 fun hlt => ?_
      rw [(h.since c hc).2 hlt] at hs
      cases hs.1
    · exact h.ready_le_reported hs.2
  applied c' hc' hs _ := by
    obtain rfl := Option.some.inj hc'
    exact (congrArg (fun b => !b && stale) hs).trans (Bool.false_and _)

theorem Reported.settle (h : live.Reported stale) (c : Check) (o : Outcome) (confirmed : Option Bool)
    (served : List String) (now : ℚ) : (live.settle c o confirmed served now).Reported stale := by
  unfold Live.settle
  by_cases hsame : live.record.nodeUid ≠ c.record.nodeUid
  · rw [if_pos hsame]
    exact h.frame rfl rfl rfl fun c hc => ⟨c, hc, rfl, rfl, fun hp => hp⟩
  · rw [if_neg hsame]
    split <;> exact h.frame rfl rfl rfl fun c hc => ⟨c, hc, rfl, rfl, fun hp => hp⟩

theorem Reported.report (h : live.Reported stale) (now : ℚ) : (live.report now).Reported true where
  number c hc := by
    obtain ⟨c₀, hc₀, rfl⟩ := Option.map_eq_some_iff.1 hc
    exact h.number c₀ hc₀
  since c hc := by
    obtain ⟨c₀, hc₀, rfl⟩ := Option.map_eq_some_iff.1 hc
    exact ⟨fun hs => (by cases hs), fun hlt => absurd (h.number c₀ hc₀) (Nat.ne_of_gt hlt)⟩
  reported_le := le_rfl
  ready_le := h.ready_le
  ready_le_reported _ := h.ready_le
  applied c hc hs _ := by
    obtain ⟨c₀, -, rfl⟩ := Option.map_eq_some_iff.1 hc
    cases hs

theorem Reported.tie (h : live.Reported stale) (tied : Bool) : (live.tie tied).Reported stale := by
  unfold Live.tie
  split_ifs <;> exact h.frame rfl rfl rfl fun c hc => ⟨c, hc, rfl, rfl, fun hp => hp⟩

end Live

namespace Registry

variable {s s' : Registry} {e : RegistryEvent} {id : String} {live live' : Live} {stale' : Bool}

/-- **One move keeps the numbers.** -/
theorem Move.reported (h : live.Reported (s.stale id)) (hm : Move s id live e live' stale') : live'.Reported stale' := by
  cases hm with
  | quiet e next checking problem => exact h.frame rfl rfl rfl fun c hc => ⟨c, hc, rfl, rfl, fun hp => hp⟩
  | merge records r hr => exact h.frame rfl rfl rfl fun c hc => ⟨c, hc, rfl, rfl, fun hp => hp⟩
  | begin c call hcall hcheck => exact h.begin call.record call.client
  | answer o now c hcheck hphase hcurrent => exact h.answer hcheck _ o now
  | drop o now c hcheck hphase next =>
    refine Live.Reported.setPhase ?_ fun _ _ hp => by cases hp
    exact h.frame rfl rfl rfl fun c hc => ⟨c, hc, rfl, rfl, fun hp => hp⟩
  | weigh c o hcheck hphase =>
    refine h.setPhase fun c' hc' _ => ?_
    obtain rfl := Option.some.inj (hcheck.symm.trans hc')
    rw [hphase]
    rfl
  | settle now c o confirmed served hcheck hphase =>
    exact (h.settle c o confirmed served now).setPhase fun _ _ hp => by cases hp
  | finish c hcheck hphase => exact h.frame rfl rfl rfl fun c hc => by cases hc
  | report now => exact h.report now
  | tie a ask serial read hask hphase hnode huid hsaved => exact h.tie _

/-- The numbers of every node. -/
def AllReported (s : Registry) : Prop := ∀ id live, s.lives id = some live → live.Reported (s.stale id)

theorem allReported_new (settings : List NodeRecord) (served : String → Option (List String)) :
    (new settings served).AllReported := fun id live h => by cases h

theorem AllReported.step (h : s.AllReported) (hs : s.step e = some s') : s'.AllReported := by
  intro id live' hl
  obtain ⟨-, _, r, -, rfl⟩ | ⟨live, hlive, hm⟩ := (moved_of_step hs).lives id live' hl
  · exact Live.reported_new s.syncs r _
  · exact hm.reported (h id live hlive)

/-! ### The id heard -/

/-- No check begun before the last report hears the saved id, or settles a new one, after it. -/
def Fresh (s : Registry) : RegistryEvent → Prop
  | .answer id o _ => ∀ live c, s.lives id = some live → live.check = some c → c.sinceReport = true ∨
      live.current c = false ∨ s.twin id o.uid = true ∨ o.uid = "" ∨ live.record.nodeUid ≠ some o.uid
  | .settle id _ => ∀ live c o confirmed served, s.lives id = some live → live.check = some c →
      c.phase = .weighed o confirmed served → c.sinceReport = true ∨ live.records c confirmed = false
  | _ => True

/-- No id is heard of a node reported. -/
def Unheard (s : Registry) : Prop :=
  ∀ id live, s.lives id = some live → s.stale id = true → live.heardUid.getD "" = ""

/-- A reported node's work is held. -/
theorem hold_of_unheard {tie : Bool} (h : live.heardUid.getD "" = "") (huid : live.record.uid ≠ "") :
    live.plexDbHold tie ≠ none := by
  unfold Live.plexDbHold
  split_ifs with h₁ h₂ h₃ h₄ h₅ h₆
  all_goals first | exact Option.some_ne_none _ | skip
  rw [Bool.or_eq_true, decide_eq_true_eq, decide_eq_true_eq] at h₄
  obtain h₄ | h₄ := h₄
  · exact absurd h₄ huid
  · exact absurd h h₄

/-- **One move hears nothing of a node reported**, if no check begun before does. -/
theorem Move.unheard (h : s.stale id = true → live.heardUid.getD "" = "") (hlive : s.lives id = some live)
    (hr : live.Reported (s.stale id)) (hf : s.Fresh e) (hm : Move s id live e live' stale') (hstale : stale' = true) : live'.heardUid.getD "" = "" := by
  cases hm with
  | quiet e next checking problem => exact h hstale
  | merge records r hr =>
    show (if _ then none else live.heardUid).getD "" = ""
    split_ifs
    · rfl
    · exact h hstale
  | begin c call hcall hcheck => exact h hstale
  | answer o now c hcheck hphase hcurrent =>
    rw [Bool.and_eq_true, Bool.not_eq_true'] at hstale
    obtain ⟨hsince, hstale⟩ := hstale
    have hkept : ((live.apply (Live.seenAs (s.twin id o.uid) o) c.number now).heardUid).getD "" = "" := by
      show (if _ then none else live.heardUid).getD "" = ""
      split_ifs
      · rfl
      · exact h hstale
    show (if (live.isNew (s.twin id o.uid) (Live.seenAs (s.twin id o.uid) o) || s.twin id o.uid) then none else _).getD "" = ""
    split_ifs with hnew hheard
    · rfl
    · show (Live.seenAs (s.twin id o.uid) o).uid = ""
      rw [Live.seenAs_uid]
      rw [Bool.or_eq_true, not_or] at hnew
      obtain ⟨hnew, htwin⟩ := hnew
      simp only [Live.isNew, Live.seenAs_uid, Bool.and_eq_true, decide_eq_true_eq, Bool.not_eq_true', not_and,
        not_not] at hnew
      by_contra huid
      have hsaved : live.record.nodeUid = some o.uid := hnew ⟨huid, Bool.eq_false_iff.2 htwin⟩
      obtain hs | hs | hs | hs | hs := hf live c hlive hcheck
      · rw [hsince] at hs
        cases hs
      · rw [hcurrent] at hs
        cases hs
      · exact htwin hs
      · exact huid hs
      · exact hs hsaved
    · exact hkept
  | drop o now c hcheck hphase next => exact h hstale
  | weigh c o hcheck hphase => exact h hstale
  | settle now c o confirmed served hcheck hphase =>
    show (live.settle c o confirmed served now).heardUid.getD "" = ""
    have hsince : c.sinceReport = false := by
      by_contra hs
      rw [hr.applied c hcheck (Bool.not_eq_false _ ▸ hs) (by rw [hphase]; rfl)] at hstale
      cases hstale
    have hnot : live.records c confirmed = false := by
      obtain hs | hs := hf live c o confirmed served hlive hcheck hphase
      · rw [hsince] at hs
        cases hs
      · exact hs
    unfold Live.settle
    by_cases hsame : live.record.nodeUid ≠ c.record.nodeUid
    · rw [if_pos hsame]
      exact h hstale
    · rw [if_neg hsame]
      split
      · exact h hstale
      · simp [Live.records, not_not.1 hsame] at hnot
      · exact h hstale
  | finish c hcheck hphase => exact h hstale
  | report now => rfl
  | tie a ask serial read hask hphase hnode huid hsaved =>
    show (live.tie _).heardUid.getD "" = ""
    unfold Live.tie
    split_ifs <;> exact h hstale

theorem Unheard.step (h : s.Unheard) (hr : s.AllReported) (hf : s.Fresh e) (hs : s.step e = some s') : s'.Unheard := by
  intro id live' hl hstale
  obtain ⟨-, _, r, -, rfl⟩ | ⟨live, hlive, hm⟩ := (moved_of_step hs).lives id live' hl
  · rfl
  · exact hm.unheard (h id live hlive) hlive (hr id live hlive) hf hstale

theorem unheard_new (settings : List NodeRecord) (served : String → Option (List String)) :
    (new settings served).Unheard := fun id live h => by cases h

/-- A check begun before the report leaves the node due for another at once. -/
theorem due_of_answer (h : live.Reported (s.stale id)) {c : Check} (hcheck : live.check = some c)
    (hsince : c.sinceReport = false) {twin : Bool} {o : Outcome} (ho : o.state ≠ .keyRefused) {now : ℚ} :
    (live.answer c twin o now).nextCheck = 0 := by
  have hnumber : c.number ≤ live.reportedAtCheck := by
    refine not_lt.1 fun hlt => ?_
    rw [(h.since c hcheck).2 hlt] at hsince
    cases hsince
  have hstate : (Live.seenAs twin o).state ≠ .keyRefused := by
    unfold Live.seenAs
    split_ifs
    · exact fun h => by cases h
    · exact ho
  exact if_pos ⟨hnumber, hstate⟩

/-- **Work stops until a fresh check after a report.** In every run, a node reported and not checked since does not read
as checked ready, and a check begun before the report leaves it due for another at once; and its Plex database work is
held, if no check begun before the report hears the saved id, or settles a new one, after it. -/
theorem stops_until_fresh_check (settings : List NodeRecord) (served : String → Option (List String))
    (es : List RegistryEvent) (s : Registry) (hrun : Runs step Any (new settings served) es s) (id : String) (live : Live)
    (hlive : s.lives id = some live) :
    (s.stale id = true → live.checkedReady = false) ∧
    (∀ c o now s' live', live.check = some c → c.sinceReport = false → live.current c = true →
      o.state ≠ .keyRefused → s.step (.answer id o now) = some s' → s'.lives id = some live' → live'.nextCheck = 0) ∧
    (Runs step Fresh (new settings served) es s → s.stale id = true → live.record.uid ≠ "" →
      ∀ tie, live.plexDbHold tie ≠ none) := by
  have hall : s.AllReported := hrun.keeps (allReported_new settings served) fun _ _ _ _ hs h => h.step hs
  have hr : live.Reported (s.stale id) := hall id live hlive
  refine ⟨fun hstale => ?_, fun c o now s' live' hcheck hsince hcurrent ho hs hl => ?_, fun hfresh hstale huid tie => ?_⟩
  · have hle := hr.ready_le_reported hstale
    simp only [Live.checkedReady, Bool.and_eq_false_iff, decide_eq_false_iff_not, not_lt]
    exact .inr hle
  · simp only [step, hlive, hcheck, Option.ite_none_right_eq_some, Option.some.injEq] at hs
    obtain ⟨-, rfl⟩ := hs
    unfold answer at hl
    rw [if_pos hcurrent] at hl
    change Function.update s.lives id _ id = some live' at hl
    rw [Function.update_self] at hl
    obtain rfl := Option.some.inj hl
    exact due_of_answer hr hcheck hsince ho
  · have hboth : s.AllReported ∧ s.Unheard :=
      hfresh.keeps (I := fun s => s.AllReported ∧ s.Unheard) ⟨allReported_new settings served, unheard_new settings served⟩
        fun _ _ _ hf hs h => ⟨h.1.step hs, h.2.step h.1 hf hs⟩
    exact hold_of_unheard (hboth.2 id live hlive hstale) huid

/-- A node whose id is saved. -/
def savedNode : NodeRecord := ⟨"n1", "http://10.0.0.5:8090", "key", some "uid-a", true, []⟩

/-- It answers, ready, with the saved id. -/
def savedAnswer : Outcome := ⟨.ready, "uid-a", some "plex-1", false, false⟩

/-- Nothing was read, and no server uses a node. -/
def savedStart : Registry := new [savedNode] fun _ => some []

/-- A check of it begins. -/
def checkBegins : List RegistryEvent := [.sync [savedNode], .call 0 "n1", .begin 0]

theorem checkBegins_isSome : (exec step savedStart checkBegins).isSome = true := by decide +kernel

/-- It asks the node. -/
def checkBegun : Registry := (exec step savedStart checkBegins).get checkBegins_isSome

theorem answer_isSome : (step checkBegun (.answer "n1" savedAnswer 5)).isSome = true := by decide +kernel

/-- The answer is there. -/
def checkAnswered : Registry := (step checkBegun (.answer "n1" savedAnswer 5)).get answer_isSome

theorem report_isSome : (exec step checkAnswered [.finish "n1", .report "n1" 9]).isSome = true := by decide +kernel

/-- The node is reported after it. -/
def reportedAfter : Registry := (exec step checkAnswered [.finish "n1", .report "n1" 9]).get report_isSome

theorem reportedAfter_lives_isSome : (reportedAfter.lives "n1").isSome = true := by decide +kernel

theorem runs_reportedAfter : Runs step Fresh savedStart
    (checkBegins ++ .answer "n1" savedAnswer 5 :: [.finish "n1", .report "n1" 9]) reportedAfter := by
  have hbegins : ∀ e ∈ checkBegins, ∀ s : Registry, s.Fresh e := by
    intro e he s
    simp only [checkBegins, List.mem_cons, List.not_mem_nil, or_false] at he
    obtain rfl | rfl | rfl := he <;> trivial
  have hreport : ∀ e ∈ [RegistryEvent.finish "n1", .report "n1" 9], ∀ s : Registry, s.Fresh e := by
    intro e he s
    simp only [List.mem_cons, List.not_mem_nil, or_false] at he
    obtain rfl | rfl := he <;> trivial
  have hsince : ((checkBegun.lives "n1").all fun live => live.check.all fun c => c.sinceReport) = true := by
    decide +kernel
  refine (Runs.of_exec hbegins (Option.some_get _).symm).append
    (.cons (fun live c hlive hcheck => .inl ?_) (Option.some_get _).symm (.of_exec hreport (Option.some_get _).symm))
  rw [show checkBegun.lives "n1" = some live from hlive, Option.all_some, hcheck, Option.all_some] at hsince
  exact hsince

/-- Reported after a check found it ready: it does not read as checked ready, and its work is held. -/
theorem stops_until_fresh_check_reportedAfter :
    ((reportedAfter.lives "n1").get reportedAfter_lives_isSome).checkedReady = false ∧
      ((reportedAfter.lives "n1").get reportedAfter_lives_isSome).plexDbHold true ≠ none := by
  have h := stops_until_fresh_check [savedNode] (fun _ => some []) _ reportedAfter
    (runs_reportedAfter.mono fun _ _ _ => trivial) "n1" _ (Option.some_get reportedAfter_lives_isSome).symm
  have hstale : reportedAfter.stale "n1" = true := by decide +kernel
  exact ⟨h.1 hstale, h.2.2 runs_reportedAfter hstale (by decide +kernel) true⟩

/-- A check under way when the node is reported hears the saved id after it. -/
def heardAfterReport : List RegistryEvent := checkBegins ++ [.report "n1" 4, .answer "n1" savedAnswer 5]

theorem heardAfterReport_isSome : (exec step savedStart heardAfterReport).isSome = true := by decide +kernel

/-- **Work goes to a node reported**, on the word of a check from before the report. -/
theorem heard_after_report : ∃ s, Runs step Any savedStart heardAfterReport s ∧ s.stale "n1" = true ∧
    (s.lives "n1").any (fun live => live.record.uid ≠ "" && live.plexDbHold true = none) = true :=
  ⟨(exec step savedStart heardAfterReport).get heardAfterReport_isSome,
    .of_exec (fun _ _ _ => trivial) (Option.some_get _).symm, by decide +kernel⟩

end Registry

end MediaPreview.Nodes
