import MediaPreview.Nodes.Reports

/-!
# Plex database work goes to the confirmed machine

A node's Plex database work is let through only while the id the last check heard is the saved one, or a new one
accepted in its place (`Known`), as long as the node's address and key stay while a new id is settled (`Addressed`). A
new id accepted in place of a saved one is compared with the Plex of the servers using the node, until a request finds
that the answer names it (`Knows`); what requests see, and what is compared, is noted of a run (`Notes`).
-/

namespace MediaPreview.Nodes

/-- The Plex an answer names is that of each of the servers. -/
def NamesEach (machine : String) (served : List String) : Prop := machine ≠ "" ∧ ∀ ours ∈ served, ours = machine

theorem besideTheirPlex_iff {served : List String} {machine : String} :
    besideTheirPlex served machine = true ↔ NamesEach machine served := by
  simp only [besideTheirPlex, NamesEach, Bool.and_eq_true, decide_eq_true_eq, List.all_eq_true]

/-- A new id is accepted where no server used the node, or its answer named the Plex of each. -/
def Acceptance.Sound (g : Acceptance) : Prop := g.served = [] ∨ NamesEach g.machine g.served

namespace Live

variable {live live' : Live} {n : ℕ}

/-- What is known of who answers at a node; `n` is past every client made. -/
structure Known (live : Live) (n : ℕ) : Prop where
  /-- The id heard is the last check's, and the saved one or one accepted in its place. -/
  heard : ∀ h, live.heardUid = some h → h ≠ "" → live.lastHeard = some h ∧
    (live.record.uid = "" ∨ live.record.uid = h ∨
      ∃ g, live.accepted = some g ∧ g.uid = h ∧ g.inPlaceOf = live.record.uid ∧ g.Sound)
  /-- The check that settles a new id heard it last, unless the address or key changed. -/
  settling : ∀ c, live.check = some c → c.client = live.client →
    (∀ o, c.phase = .answered o → live.lastHeard = some o.uid) ∧
      ∀ o confirmed served, c.phase = .weighed o confirmed served → live.lastHeard = some o.uid
  /-- It was weighed. -/
  weighed : ∀ c o served, live.check = some c → c.phase = .weighed o (some true) served →
    c.record.uid = "" ∨ served = [] ∨ NamesEach o.machine served
  /-- Its client was made. -/
  client_lt : live.client < n
  /-- So was its check's. -/
  check_lt : ∀ c, live.check = some c → c.client < n

theorem known_new (k : ℕ) (r : NodeRecord) : (new k r).Known (k + 1) where
  heard h hh := by cases hh
  settling c h := by cases h
  weighed c o served h := by cases h
  client_lt := Nat.lt_succ_self k
  check_lt c h := by cases h

/-- What is known stays, and the check is as far as before or done. -/
theorem Known.frame (h : live.Known n) (hrecord : live'.record = live.record) (hclient : live'.client = live.client)
    (hheard : live'.heardUid = live.heardUid) (hlast : live'.lastHeard = live.lastHeard)
    (haccepted : live'.accepted = live.accepted)
    (hcheck : ∀ c, live'.check = some c → ∃ c₀, live.check = some c₀ ∧ c.client = c₀.client ∧ c.record = c₀.record ∧
      (c.phase.settling = true → c.phase = c₀.phase)) : live'.Known n where
  heard := by rw [hheard, hlast, hrecord, haccepted]; exact h.heard
  settling c hc := by
    obtain ⟨c₀, hc₀, heq, -, hphase⟩ := hcheck c hc
    rw [hclient, heq, hlast]
    intro hsame
    refine ⟨fun o ho => (h.settling c₀ hc₀ hsame).1 o ?_, fun o b l ho => (h.settling c₀ hc₀ hsame).2 o b l ?_⟩
    · rw [← hphase (by rw [ho]; rfl), ho]
    · rw [← hphase (by rw [ho]; rfl), ho]
  weighed c o served hc ho := by
    obtain ⟨c₀, hc₀, -, hrecord, hphase⟩ := hcheck c hc
    rw [hrecord]
    exact h.weighed c₀ o served hc₀ (by rw [← hphase (by rw [ho]; rfl), ho])
  client_lt := hclient ▸ h.client_lt
  check_lt c hc := by
    obtain ⟨c₀, hc₀, heq, -⟩ := hcheck c hc
    exact heq ▸ h.check_lt c₀ hc₀

theorem Known.mono (h : live.Known n) {m : ℕ} (hm : n ≤ m) : live.Known m :=
  ⟨h.heard, h.settling, h.weighed, h.client_lt.trans_le hm, fun c hc => (h.check_lt c hc).trans_le hm⟩

theorem Known.done (h : live.Known n) : (live.setPhase .done).Known n :=
  h.frame rfl rfl rfl rfl rfl fun c hc => by
    obtain ⟨c₀, hc₀, rfl⟩ := of_setPhase hc
    exact ⟨c₀, hc₀, rfl, rfl, fun hp => by cases hp⟩

theorem Known.merge (h : live.Known n) (r : NodeRecord) : (live.merge n r).Known (n + 1) where
  heard u hu hne := by
    change (if _ then none else live.heardUid) = some u at hu
    split_ifs at hu with hif
    simp only [Bool.or_eq_true, Bool.and_eq_true, decide_eq_true_eq, not_or, not_and, not_not] at hif
    obtain ⟨⟨haddress, hrestored⟩, -⟩ := hif
    obtain ⟨hlast, hknown⟩ := h.heard u hu hne
    refine ⟨(if_neg haddress).trans hlast, ?_⟩
    show r.uid = "" ∨ r.uid = u ∨ _
    by_cases hchanged : live.uidChanged r = true
    -- another saved id: none, or the one heard
    · by_cases huid : r.uid = ""
      · exact .inl huid
      · have hheard : live.heardUid = some r.uid := hrestored ⟨hchanged, huid⟩
        exact .inr (.inl (Option.some.inj (hheard.symm.trans hu)))
    · have hsame : live.record.uid = r.uid := by
        simp only [uidChanged, decide_eq_true_eq, not_not] at hchanged
        rw [NodeRecord.uid, hchanged, NodeRecord.uid]
      rwa [hsame] at hknown
  settling c hc := by
    show c.client = (if live.addressChanged r then n else live.client) → _
    split_ifs with haddress
    · exact fun heq => absurd heq (h.check_lt c hc).ne
    · intro heq
      have hlast : (live.merge n r).lastHeard = live.lastHeard := if_neg haddress
      rw [hlast]
      exact h.settling c hc heq
  weighed := h.weighed
  client_lt := by
    show (if live.addressChanged r then n else live.client) < n + 1
    split_ifs
    · exact Nat.lt_succ_self n
    · exact Nat.lt_succ_of_lt h.client_lt
  check_lt c hc := Nat.lt_succ_of_lt (h.check_lt c hc)

theorem Known.begin (h : live.Known n) {r : NodeRecord} {client : ℕ} (hclient : client < n) :
    (live.begin r client).Known n where
  heard := h.heard
  settling c hc := by
    obtain rfl := Option.some.inj hc
    exact fun _ => ⟨fun o ho => (by cases ho), fun o b l ho => (by cases ho)⟩
  weighed c o served hc ho := by
    obtain rfl := Option.some.inj hc
    cases ho
  client_lt := h.client_lt
  check_lt c hc := by
    obtain rfl := Option.some.inj hc
    exact hclient

theorem Known.answer (h : live.Known n) {c : Check} (hc : live.check = some c) {twin : Bool} {o : Outcome} {now : ℚ} :
    (live.answer c twin o now).Known n where
  heard u hu hne := by
    change (if (live.isNew twin (seenAs twin o) || twin) then none
      else if ((seenAs twin o).uid ≠ "" || (seenAs twin o).state ≠ .offline) then some (seenAs twin o).uid
      else (live.apply (seenAs twin o) c.number now).heardUid) = some u at hu
    rw [seenAs_uid] at hu
    split_ifs at hu with hnew hheard
    · obtain rfl := Option.some.inj hu
      refine ⟨congrArg some (seenAs_uid twin o), .inr (.inl ?_)⟩
      rw [Bool.or_eq_true, not_or] at hnew
      simp only [isNew, seenAs_uid, Bool.and_eq_true, decide_eq_true_eq, Bool.not_eq_true', not_and, not_not] at hnew
      have hsaved : live.record.nodeUid = some o.uid := hnew.1 ⟨hne, Bool.eq_false_iff.2 hnew.2⟩
      show live.record.uid = o.uid
      rw [NodeRecord.uid, hsaved, Option.getD_some]
    -- the node was not reached, and nothing is heard
    · simp only [Bool.or_eq_true, decide_eq_true_eq, not_or, not_not] at hheard
      change (if (seenAs twin o).state = .offline ∧ (seenAs twin o).uid = "" then none else live.heardUid) = some u at hu
      rw [seenAs_uid, if_pos ⟨hheard.2, hheard.1⟩] at hu
      cases hu
  settling c' hc' := by
    obtain rfl := Option.some.inj hc'
    refine fun _ => ⟨fun o' ho' => ?_, fun o' b l ho' => ?_⟩
    · change (if live.isNew twin (seenAs twin o) then CheckPhase.answered (seenAs twin o) else .done) = .answered o' at ho'
      split_ifs at ho'
      obtain rfl := CheckPhase.answered.inj ho'
      rfl
    · change (if live.isNew twin (seenAs twin o) then CheckPhase.answered (seenAs twin o) else .done) = .weighed o' b l at ho'
      split_ifs at ho'
  weighed c' o' served hc' ho' := by
    obtain rfl := Option.some.inj hc'
    change (if live.isNew twin (seenAs twin o) then CheckPhase.answered (seenAs twin o) else .done) = _ at ho'
    split_ifs at ho'
  client_lt := h.client_lt
  check_lt c' hc' := by
    obtain rfl := Option.some.inj hc'
    exact h.check_lt c hc

theorem Known.weigh (h : live.Known n) {c : Check} (hc : live.check = some c) {o : Outcome} (ho : c.phase = .answered o)
    (served : Option (List String)) :
    (live.setPhase (.weighed o (newUidConfirmed c.record served o) (served.getD []))).Known n where
  heard := h.heard
  settling c' hc' hclient := by
    obtain ⟨c₀, hc₀, rfl⟩ := of_setPhase hc'
    obtain rfl := Option.some.inj (hc.symm.trans hc₀)
    refine ⟨fun o' ho' => (by cases ho'), fun o' b l ho' => ?_⟩
    obtain ⟨rfl, -, -⟩ := CheckPhase.weighed.inj ho'
    exact (h.settling c hc hclient).1 _ ho
  weighed c' o' l hc' ho' := by
    obtain ⟨c₀, hc₀, rfl⟩ := of_setPhase hc'
    obtain rfl := Option.some.inj (hc.symm.trans hc₀)
    obtain ⟨rfl, hconfirmed, rfl⟩ := CheckPhase.weighed.inj ho'
    show c.record.uid = "" ∨ _
    unfold newUidConfirmed at hconfirmed
    split_ifs at hconfirmed with huid
    · exact .inl huid
    · obtain ⟨l, rfl, hl⟩ := Option.map_eq_some_iff.1 hconfirmed
      rw [Bool.or_eq_true, decide_eq_true_eq, besideTheirPlex_iff] at hl
      exact .inr hl
  client_lt := h.client_lt
  check_lt c' hc' := by
    obtain ⟨c₀, hc₀, rfl⟩ := of_setPhase hc'
    exact h.check_lt c₀ hc₀

/-- **A new id is settled**: at the address it was heard at, it is one accepted in place of the saved one. -/
theorem Known.settle (h : live.Known n) {c : Check} (hc : live.check = some c) {o : Outcome} {confirmed : Option Bool}
    {served : List String} (hphase : c.phase = .weighed o confirmed served)
    (hclient : c.client = live.client ∨ live.records c confirmed = false) {now : ℚ} :
    ((live.settle c o confirmed served now).setPhase .done).Known n := by
  apply Known.done
  unfold Live.settle
  by_cases hsame : live.record.nodeUid ≠ c.record.nodeUid
  · rw [if_pos hsame]
    exact h.frame rfl rfl rfl rfl rfl fun c hc => ⟨c, hc, rfl, rfl, fun _ => rfl⟩
  · rw [if_neg hsame]
    rw [not_not] at hsame
    split
    · exact h.frame rfl rfl rfl rfl rfl fun c hc => ⟨c, hc, rfl, rfl, fun _ => rfl⟩
    · have hclient : c.client = live.client := by
        obtain hclient | hnot := hclient
        · exact hclient
        · simp [records, hsame] at hnot
      have huid : c.record.uid = live.record.uid := by rw [NodeRecord.uid, ← hsame, NodeRecord.uid]
      refine ⟨fun u hu hne => ?_, h.settling, h.weighed, h.client_lt, h.check_lt⟩
      obtain rfl := Option.some.inj hu
      refine ⟨(h.settling c hc hclient).2 o _ served hphase, ?_⟩
      obtain hnone | hsound := h.weighed c o served hc hphase
      · exact .inl (huid.symm.trans hnone)
      · exact .inr (.inr ⟨_, rfl, rfl, huid, hsound⟩)
    · exact h.frame rfl rfl rfl rfl rfl fun c hc => ⟨c, hc, rfl, rfl, fun _ => rfl⟩

theorem Known.tie (h : live.Known n) (tied : Bool) : (live.tie tied).Known n := by
  cases tied with
  | true => exact h.frame rfl rfl rfl rfl rfl fun c hc => ⟨c, hc, rfl, rfl, fun _ => rfl⟩
  | false => exact h.frame rfl rfl rfl rfl rfl fun c hc => ⟨c, hc, rfl, rfl, fun _ => rfl⟩

theorem Known.report (h : live.Known n) (now : ℚ) : (live.report now).Known n where
  heard u hu := by cases hu
  settling c hc := by
    obtain ⟨c₀, hc₀, rfl⟩ := Option.map_eq_some_iff.1 hc
    exact h.settling c₀ hc₀
  weighed c o served hc := by
    obtain ⟨c₀, hc₀, rfl⟩ := Option.map_eq_some_iff.1 hc
    exact h.weighed c₀ o served hc₀
  client_lt := h.client_lt
  check_lt c hc := by
    obtain ⟨c₀, hc₀, rfl⟩ := Option.map_eq_some_iff.1 hc
    exact h.check_lt c₀ hc₀

end Live

namespace Registry

variable {s s' : Registry} {e : RegistryEvent} {id : String} {live live' : Live} {stale' : Bool}

/-- A node's address and key stay while a new id of it is settled. -/
def Addressed (s : Registry) : RegistryEvent → Prop
  | .settle id _ => ∀ live c o confirmed served, s.lives id = some live → live.check = some c →
      c.phase = .weighed o confirmed served → c.client = live.client ∨ live.records c confirmed = false
  | _ => True

/-- What is known of every node. -/
structure AllKnown (s : Registry) : Prop where
  /-- Of each node. -/
  known : ∀ id live, s.lives id = some live → live.Known s.syncs
  /-- A check that waits asks a client that was made. -/
  calls : ∀ c call, s.calls c = some call → call.client < s.syncs

theorem allKnown_new (settings : List NodeRecord) (served : String → Option (List String)) :
    (new settings served).AllKnown where
  known id live h := by cases h
  calls c call h := by cases h

/-- **One move keeps what is known.** -/
theorem Move.known (h : s.AllKnown) (hlive : s.lives id = some live) (ha : s.Addressed e)
    (hm : Move s id live e live' stale') : live'.Known (s.syncs + syncsOf e) := by
  have hk := h.known id live hlive
  cases hm with
  | quiet e next checking problem =>
    apply Live.Known.mono _ (Nat.le_add_right _ _)
    exact hk.frame rfl rfl rfl rfl rfl fun c hc => ⟨c, hc, rfl, rfl, fun _ => rfl⟩
  | merge records r hr => exact hk.merge r
  | begin c call hcall hcheck => exact hk.begin (h.calls c call hcall)
  | answer o now c hcheck hphase hcurrent => exact hk.answer hcheck
  | drop o now c hcheck hphase next =>
    apply Live.Known.done
    exact hk.frame rfl rfl rfl rfl rfl fun c hc => ⟨c, hc, rfl, rfl, fun _ => rfl⟩
  | weigh c o hcheck hphase => exact hk.weigh hcheck hphase _
  | settle now c o confirmed served hcheck hphase =>
    exact hk.settle hcheck hphase (ha live c o confirmed served hlive hcheck hphase)
  | finish c hcheck hphase => exact hk.frame rfl rfl rfl rfl rfl fun c hc => by cases hc
  | report now => exact hk.report now
  | tie a ask serial read hask hphase hnode huid hsaved => exact hk.tie _

theorem AllKnown.step (h : s.AllKnown) (ha : s.Addressed e) (hs : s.step e = some s') : s'.AllKnown := by
  have hmoved := moved_of_step hs
  refine ⟨fun id live' hl => ?_, fun c call hcall => ?_⟩
  · rw [hmoved.syncs]
    obtain ⟨-, records, r, rfl, rfl⟩ | ⟨live, hlive, hm⟩ := hmoved.lives id live' hl
    · exact Live.known_new s.syncs r
    · exact hm.known h hlive ha
  · rw [hmoved.syncs]
    obtain hcall | ⟨live, hlive, heq⟩ := hmoved.calls c call hcall
    · exact (h.calls c call hcall).trans_le (Nat.le_add_right _ _)
    · exact heq ▸ (h.known call.node live hlive).client_lt.trans_le (Nat.le_add_right _ _)

/-- A saved id that is not empty. -/
theorem nodeUid_of_uid_ne (huid : live.record.uid ≠ "") : live.record.nodeUid = some live.record.uid := by
  unfold NodeRecord.uid at huid ⊢
  cases hu : live.record.nodeUid with
  | none => exact absurd (by rw [hu]; rfl) huid
  | some u => rfl

/-- Work let through to a node with a saved id. -/
theorem of_hold_eq_none {tie : Bool} (h : live.plexDbHold tie = none) (huid : live.record.uid ≠ "") :
    tie = true ∧ live.unconfirmedUid = "" ∧ ∃ u, live.heardUid = some u ∧ u ≠ "" := by
  unfold Live.plexDbHold at h
  split_ifs at h with h₁ h₂ h₃ h₄
  refine ⟨by simpa using h₃, not_not.1 h₂, ?_⟩
  rw [Bool.or_eq_true, decide_eq_true_eq, decide_eq_true_eq, or_iff_right huid] at h₄
  cases hheard : live.heardUid with
  | none => rw [hheard] at h₄; exact absurd rfl h₄
  | some u =>
    rw [hheard] at h₄
    exact ⟨u, rfl, h₄⟩

/-! ### Ties -/

/-- What one step of others leaves of a node's new id to tie. -/
structure Stays (live live' : Live) : Prop where
  /-- The record. -/
  serial : live'.serial = live.serial
  /-- The saved id. -/
  nodeUid : live'.record.nodeUid = live.record.nodeUid
  /-- The id to tie, or none. -/
  untied : live'.untiedUid = live.untiedUid ∨ live'.untiedUid = ""
  /-- It is held, if it was. -/
  held : live.untied = true → live.unconfirmedUid ≠ "" → live'.untiedUid = live.untiedUid → live'.unconfirmedUid ≠ ""

theorem Stays.of_eq (hserial : live'.serial = live.serial) (hnode : live'.record.nodeUid = live.record.nodeUid)
    (huntied : live'.untiedUid = live.untiedUid) (hheld : live'.unconfirmedUid = live.unconfirmedUid) :
    Stays live live' :=
  ⟨hserial, hnode, .inl huntied, fun _ h _ => hheld ▸ h⟩

theorem untied_iff : live.untied = true ↔ live.untiedUid ≠ "" ∧ live.record.nodeUid = some live.untiedUid := by
  simp only [Live.untied, Bool.and_eq_true, decide_eq_true_eq]

/-- A move that does not overtake a request leaves it what it ties. -/
theorem Move.stays (hlive : s.lives id = some live) (hover : s.overtakes e id = false)
    (hm : Move s id live e live' stale') : Stays live live' := by
  cases hm with
  | quiet e next checking problem => exact .of_eq rfl rfl rfl rfl
  | merge records r hr =>
    simp only [overtakes, replaced, hlive, hr, Bool.or_eq_false_iff] at hover
    have hsame : live.record.nodeUid = r.nodeUid := by simpa [Live.uidChanged] using hover.2
    refine .of_eq rfl hsame.symm rfl ?_
    show (if (live.addressChanged r || live.uidChanged r) then "" else live.unconfirmedUid) = _
    rw [hover.1, hover.2]
    rfl
  | begin c call hcall hcheck => exact .of_eq rfl rfl rfl rfl
  | answer o now c hcheck hphase hcurrent =>
    refine ⟨rfl, rfl, .inl rfl, fun huntied hheld _ => ?_⟩
    obtain ⟨hne, hsaved⟩ := untied_iff.1 huntied
    show (if _ then if live.record.nodeUid = some (Live.seenAs _ o).uid then "" else (Live.seenAs _ o).uid
      else live.unconfirmedUid) ≠ ""
    split_ifs with hif hsame
    -- the saved id is the one to tie, which leaves what is held
    · simp only [Bool.and_eq_true, decide_eq_true_eq] at hif
      exact absurd (Option.some.inj (hsame.symm.trans hsaved)) hif.2
    · simp only [Bool.and_eq_true, decide_eq_true_eq] at hif
      exact hif.1.1.2
    · exact hheld
  | drop o now c hcheck hphase next => exact .of_eq rfl rfl rfl rfl
  | weigh c o hcheck hphase => exact .of_eq rfl rfl rfl rfl
  | settle now c o confirmed served hcheck hphase => simp [overtakes] at hover
  | finish c hcheck hphase => exact .of_eq rfl rfl rfl rfl
  | report now => exact .of_eq rfl rfl rfl rfl
  | tie a ask serial read hask hphase hnode huid hsaved =>
    cases htied : besideTheirPlex read.served read.machine with
    | true => exact ⟨rfl, rfl, .inr rfl, fun huntied _ heq => absurd heq.symm (untied_iff.1 huntied).1⟩
    | false => exact ⟨rfl, rfl, .inl rfl, fun huntied _ _ => (untied_iff.1 huntied).1⟩

/-- What a request's tie compared: the id saved, which is not to tie any more, is that of the servers using the node, or
is held. -/
def Settled (live : Live) (read : TieRead) : Prop :=
  live.record.nodeUid = some read.uid ∧
    (live.untiedUid = read.uid → read.served = [] ∨ NamesEach read.machine read.served ∨ live.unconfirmedUid ≠ "")

/-- The id a request is to tie is saved, and still to be tied or no more. -/
def ToTie (live : Live) (serial : ℕ) (uid : String) : Prop :=
  live.serial = serial ∧ live.record.nodeUid = some uid ∧ (live.untiedUid = uid ∨ live.untiedUid = "")

/-- What a request that was not overtaken knows of its node. -/
def Knows (live : Live) : AskPhase → Prop
  | .reading serial uid _ => uid ≠ "" ∧ ToTie live serial uid
  | .comparing serial read => read.uid ≠ "" ∧ ToTie live serial read.uid
  | .decided false _ => True
  | .decided true none => live.untied = false
  | .decided true (some read) => read.uid ≠ "" ∧ Settled live read

theorem ToTie.stays {serial : ℕ} {uid : String} (h : ToTie live serial uid) (hs : Stays live live') :
    ToTie live' serial uid := by
  refine ⟨hs.serial.trans h.1, hs.nodeUid.trans h.2.1, ?_⟩
  obtain hu | hu := hs.untied
  · rw [hu]
    exact h.2.2
  · exact .inr hu

theorem Knows.stays {p : AskPhase} (h : Knows live p) (hs : Stays live live') : Knows live' p := by
  cases p with
  | reading serial uid machine => exact ⟨h.1, h.2.stays hs⟩
  | comparing serial read => exact ⟨h.1, h.2.stays hs⟩
  | decided tie read =>
    cases tie with
    | false => trivial
    | true =>
      cases read with
      | none =>
        refine Bool.eq_false_iff.2 fun hu => Bool.eq_false_iff.1 h ?_
        obtain ⟨hne, hsaved⟩ := untied_iff.1 hu
        obtain heq | heq := hs.untied
        · exact untied_iff.2 ⟨heq ▸ hne, by rw [← hs.nodeUid, ← heq, hsaved]⟩
        · exact absurd heq hne
      | some read =>
        obtain ⟨hne, hsaved, hsettled⟩ := h
        refine ⟨hne, hs.nodeUid.trans hsaved, fun hu => ?_⟩
        obtain heq | heq := hs.untied
        · have huid : live.untiedUid = read.uid := heq.symm.trans hu
          obtain hs' | hs' | hheld := hsettled huid
          · exact .inl hs'
          · exact .inr (.inl hs')
          · exact .inr (.inr (hs.held (untied_iff.2 ⟨huid ▸ hne, huid ▸ hsaved⟩) hheld heq))
        · exact absurd (heq.symm.trans hu).symm hne

/-- What every request knows. -/
def AllKnow (s : Registry) : Prop :=
  ∀ a ask, s.asks a = some ask → ask.overtaken = false → ∀ live, s.lives ask.node = some live → Knows live ask.phase

theorem allKnow_new (settings : List NodeRecord) (served : String → Option (List String)) :
    (new settings served).AllKnow := fun a ask h => by cases h

/-- A request that starts. -/
theorem knows_newAsk (hlive : s.lives id = some live) : Knows live (s.newAsk id).phase := by
  unfold newAsk
  dsimp only
  rw [hlive]
  dsimp only
  split_ifs with hu
  · obtain ⟨hne, hsaved⟩ := untied_iff.1 hu
    exact ⟨hne, rfl, hsaved, .inl rfl⟩
  · exact Bool.eq_false_iff.2 hu

/-- It reads the servers using the node. -/
theorem knows_read {serial : ℕ} {uid machine : String} (h : Knows live (.reading serial uid machine))
    (served : Option (List String)) : Knows live (.read served serial uid machine) := by
  unfold AskPhase.read
  split
  · trivial
  · exact ⟨h.1, h.2.2.1, fun _ => .inl rfl⟩
  · exact h

/-- It ties the new id. -/
theorem knows_tieIf {serial : ℕ} {read : TieRead} (h : Knows live (.comparing serial read)) :
    Knows (live.tieIf serial read) (.decided true (some read)) := by
  obtain ⟨hne, hserial, hsaved, huntied⟩ := h
  refine ⟨hne, ?_⟩
  unfold Live.tieIf
  by_cases hif : live.serial = serial ∧ live.untiedUid = read.uid ∧ live.record.nodeUid = some read.uid
  · rw [if_pos hif]
    cases htied : besideTheirPlex read.served read.machine with
    | true => exact ⟨hsaved, fun _ => .inr (.inl (besideTheirPlex_iff.1 htied))⟩
    | false =>
      refine ⟨hsaved, fun _ => .inr (.inr ?_)⟩
      show live.untiedUid ≠ ""
      rw [hif.2.1]
      exact hne
  -- the id is not to be tied any more
  · rw [if_neg hif]
    refine ⟨hsaved, fun hu => absurd ⟨hserial, hu, hsaved⟩ hif⟩

theorem AllKnow.step (h : s.AllKnow) (hs : s.step e = some s') : s'.AllKnow := by
  intro a ask' hask' hover live' hlive'
  have hmoved := moved_of_step hs
  have hstays : ∀ {node : String}, s'.lives node = some live' → s.overtakes e node = false →
      ∃ live, s.lives node = some live ∧ Stays live live' := by
    intro node hl hover
    obtain ⟨hnone, records, r, rfl, rfl⟩ | ⟨live, hlive, hm⟩ := hmoved.lives node live' hl
    · simp [overtakes, replaced, hnone] at hover
    · exact ⟨live, hlive, hm.stays hlive hover⟩
  cases hmoved.asks a ask' hask' with
  | stays ask ask' hask hnode hphase hkeeps =>
    obtain ⟨hover, hovertakes⟩ := hkeeps hover
    rw [hnode] at hlive'
    obtain ⟨live, hlive, hst⟩ := hstays hlive' hovertakes
    rw [hphase]
    exact (h a ask hask hover live hlive).stays hst
  | starts id he =>
    subst he
    obtain ⟨live, hlive, hst⟩ := hstays hlive' rfl
    exact (knows_newAsk hlive).stays hst
  | reads ask serial uid machine hask hphase he =>
    subst he
    obtain ⟨live, hlive, hst⟩ := hstays hlive' rfl
    have hk := h a ask hask hover live hlive
    rw [hphase] at hk
    exact (knows_read hk _).stays hst
  | ties ask serial read hask hphase he hlives =>
    rw [show s'.lives ask.node = some live' from hlive'] at hlives
    obtain ⟨live, hlive, rfl⟩ := Option.map_eq_some_iff.1 hlives.symm
    have hk := h a ask hask hover live hlive
    rw [hphase] at hk
    exact knows_tieIf hk

/-! ### What requests see -/

/-- What a request saw: the id to tie and the Plex the answer held named when it started, and the servers it read. -/
structure Sight where
  /-- The id. -/
  uid : String
  /-- The Plex the answer held named. -/
  machine : String
  /-- The Plex of each server that used the node; `none` before they were read, or where they could not be. -/
  served : Option (List String)

/-- It saw servers, and the answer named the Plex of each. -/
def Sight.Ties (sight : Sight) (uid : String) : Prop :=
  sight.uid = uid ∧ ∃ served, sight.served = some served ∧ served ≠ [] ∧ NamesEach sight.machine served

/-- It saw no server, or the answer named the Plex of each. -/
def Sight.Passes (sight : Sight) (uid : String) : Prop :=
  sight.uid = uid ∧ ∃ served, sight.served = some served ∧ (served = [] ∨ NamesEach sight.machine served)

/-- Notes of a run: what each request saw, and what was compared of the id each node accepted last. -/
structure Notes where
  /-- What each request saw. -/
  sights : ℕ → Option Sight
  /-- What was compared since the id was accepted. -/
  compared : String → List Sight

/-- Nothing is noted. -/
def Notes.none : Notes := ⟨fun _ => .none, fun _ => []⟩

/-- The check settles a new id now, and it is accepted. -/
def accepts (s : Registry) (id : String) : Bool :=
  (s.lives id).any fun live => live.check.any fun c =>
    match c.phase with
    | .weighed _ confirmed _ => live.records c confirmed
    | _ => false

/-- What requests have seen after a step. -/
def sightsOf (s : Registry) (sights : ℕ → Option Sight) : RegistryEvent → ℕ → Option Sight
  | .ask a id =>
    Function.update sights a ((s.lives id).map fun live => ⟨live.untiedUid, live.machine, .none⟩)
  | .readServed a =>
    Function.update sights a ((s.asks a).bind fun ask =>
      (sights a).map fun sight => { sight with served := s.served ask.node })
  | _ => sights

/-- What was compared after a step: what the request that ties saw, unless an id is accepted. -/
def comparedOf (s : Registry) (notes : Notes) : RegistryEvent → String → List Sight
  | .settle id _ => if s.accepts id then Function.update notes.compared id [] else notes.compared
  | .tie a =>
    match s.asks a, notes.sights a with
    | some ask, some sight => Function.update notes.compared ask.node (sight :: notes.compared ask.node)
    | _, _ => notes.compared
  | _ => notes.compared

/-- What is noted of a step. -/
def note (s : Registry) (notes : Notes) (e : RegistryEvent) : Notes :=
  ⟨s.sightsOf notes.sights e, s.comparedOf notes e⟩

/-- What a request works with is what it saw. -/
def Saw (sight : Option Sight) : AskPhase → Prop
  | .reading _ uid machine => sight = some ⟨uid, machine, none⟩
  | .comparing _ read => sight = some ⟨read.uid, read.machine, some read.served⟩ ∧ read.served ≠ []
  | .decided _ none => True
  | .decided _ (some read) => sight = some ⟨read.uid, read.machine, some read.served⟩

/-- The notes tell what requests saw, and the id a node accepted in place of a saved one is to be tied until a request
saw that it may be. -/
structure Noted (s : Registry) (notes : Notes) : Prop where
  /-- Of each request. -/
  saw : ∀ a ask, s.asks a = some ask → Saw (notes.sights a) ask.phase
  /-- Of each node. -/
  untied : ∀ id live g, s.lives id = some live → live.accepted = some g → g.inPlaceOf ≠ "" →
    live.untiedUid = g.uid ∨ ∃ sight ∈ notes.compared id, sight.Ties g.uid

theorem noted_new (settings : List NodeRecord) (served : String → Option (List String)) :
    (new settings served).Noted .none where
  saw a ask h := by cases h
  untied id live g h := by cases h

variable {notes : Notes}

/-- A request that started saw what it is to tie. -/
theorem saw_newAsk : Saw ((s.lives id).map fun live => ⟨live.untiedUid, live.machine, none⟩) (s.newAsk id).phase := by
  unfold newAsk
  dsimp only
  cases s.lives id with
  | none => trivial
  | some live =>
    dsimp only
    split_ifs
    · rfl
    · trivial

/-- It read the servers it saw. -/
theorem saw_read {sight : Option Sight} {serial : ℕ} {uid machine : String} (h : Saw sight (.reading serial uid machine))
    (served : Option (List String)) :
    Saw (sight.map fun sight => { sight with served := served }) (.read served serial uid machine) := by
  obtain rfl : sight = some ⟨uid, machine, none⟩ := h
  unfold AskPhase.read
  split
  · trivial
  · rfl
  · exact ⟨rfl, by assumption⟩

/-- A request that goes on where it was has seen nothing new. -/
theorem sightsOf_of_phase {sights : ℕ → Option Sight} (hs : s.step e = some s') {a : ℕ} {ask ask' : Ask}
    (hask : s.asks a = some ask) (hask' : s'.asks a = some ask') (hphase : ask'.phase = ask.phase) :
    s.sightsOf sights e a = sights a := by
  cases e with
  | ask a' id =>
    obtain rfl | hne := eq_or_ne a a'
    · simp [step, hask] at hs
    · exact Function.update_of_ne hne ..
  | readServed a' =>
    obtain rfl | hne := eq_or_ne a a'
    · simp only [step, hask] at hs
      split at hs
      · rename_i serial uid machine hreading
        obtain rfl := Option.some.inj hs
        change Function.update s.asks a _ a = some ask' at hask'
        rw [Function.update_self] at hask'
        obtain rfl := Option.some.inj hask'
        rw [hreading] at hphase
        change AskPhase.read _ serial uid machine = _ at hphase
        unfold AskPhase.read at hphase
        split at hphase <;> cases hphase
      · cases hs
    · exact Function.update_of_ne hne ..
  | _ => rfl

/-- **What requests work with stays what they saw.** -/
theorem saw_of_step (h : ∀ a ask, s.asks a = some ask → Saw (notes.sights a) ask.phase) (hs : s.step e = some s')
    {a : ℕ} {ask' : Ask} (hask' : s'.asks a = some ask') : Saw ((s.note notes e).sights a) ask'.phase := by
  show Saw (s.sightsOf notes.sights e a) _
  cases (moved_of_step hs).asks a ask' hask' with
  | stays ask ask' hask hnode hphase hover =>
    rw [sightsOf_of_phase hs hask hask' hphase, hphase]
    exact h a ask hask
  | starts id he =>
    subst he
    show Saw (Function.update notes.sights a _ a) _
    rw [Function.update_self]
    exact saw_newAsk
  | reads ask serial uid machine hask hphase he =>
    subst he
    show Saw (Function.update notes.sights a _ a) _
    have hsaw := h a ask hask
    rw [hphase] at hsaw
    rw [Function.update_self, hask, Option.bind_some]
    exact saw_read hsaw _
  | ties ask serial read hask hphase he hlives =>
    subst he
    have hsaw := h a ask hask
    rw [hphase] at hsaw
    exact hsaw.1

/-- What is compared is added to, unless an id is settled. -/
theorem compared_subset (he : ∀ now, e ≠ .settle id now) : notes.compared id ⊆ (s.note notes e).compared id := by
  show notes.compared id ⊆ s.comparedOf notes e id
  cases e with
  | settle id' now =>
    have hne : id ≠ id' := fun heq => he now (heq ▸ rfl)
    simp only [comparedOf]
    split_ifs
    · rw [Function.update_of_ne hne]
      exact List.Subset.refl _
    · exact List.Subset.refl _
  | tie a =>
    cases hask : s.asks a with
    | none =>
      simp only [comparedOf, hask]
      exact List.Subset.refl _
    | some ask =>
      cases hsight : notes.sights a with
      | none =>
        simp only [comparedOf, hask, hsight]
        exact List.Subset.refl _
      | some sight =>
        simp only [comparedOf, hask, hsight]
        obtain rfl | hne := eq_or_ne id ask.node
        · rw [Function.update_self]
          exact List.subset_cons_self _ _
        · rw [Function.update_of_ne hne]
          exact List.Subset.refl _
  | _ => exact List.Subset.refl _

/-- An id to be tied, or compared, still is when a new one is settled at the node. -/
theorem untied_settle {c : Check} {o : Outcome} {confirmed : Option Bool} {served : List String} {now : ℚ}
    (h : ∀ g, live.accepted = some g → g.inPlaceOf ≠ "" →
      live.untiedUid = g.uid ∨ ∃ sight ∈ notes.compared id, sight.Ties g.uid)
    (hlive : s.lives id = some live) (hcheck : live.check = some c) (hphase : c.phase = .weighed o confirmed served)
    {g : Acceptance} (hg : (live.settle c o confirmed served now).accepted = some g) (hplace : g.inPlaceOf ≠ "") :
    (live.settle c o confirmed served now).untiedUid = g.uid ∨
      ∃ sight ∈ s.comparedOf notes (.settle id now) id, sight.Ties g.uid := by
  have haccepts : s.accepts id = live.records c confirmed := by
    unfold accepts
    rw [hlive, Option.any_some, hcheck, Option.any_some, hphase]
  by_cases hrecords : live.records c confirmed = true
  · simp only [Live.records, Bool.and_eq_true, decide_eq_true_eq] at hrecords
    obtain ⟨hsame, rfl⟩ := hrecords
    unfold Live.settle at hg ⊢
    rw [if_neg (not_not.2 hsame)] at hg ⊢
    obtain rfl := Option.some.inj hg
    exact .inl (if_neg hplace)
  -- none is accepted: what was, and what was compared of it, stay
  · have hsame : (live.settle c o confirmed served now).accepted = live.accepted ∧
        (live.settle c o confirmed served now).untiedUid = live.untiedUid := by
      unfold Live.settle
      by_cases hne : live.record.nodeUid = c.record.nodeUid
      · rw [if_neg (not_not.2 hne)]
        cases confirmed with
        | none => exact ⟨rfl, rfl⟩
        | some taken =>
          cases taken with
          | true => exact absurd (by simp [Live.records, hne]) hrecords
          | false => exact ⟨rfl, rfl⟩
      · rw [if_pos hne]
        exact ⟨rfl, rfl⟩
    simp only [comparedOf]
    rw [haccepts, if_neg hrecords, hsame.2]
    exact h g (hsame.1 ▸ hg) hplace

/-- A move of a node that settles no id leaves an id to be tied, or compared. -/
theorem Move.untied (h : s.Noted notes) (hlive : s.lives id = some live) (he : ∀ now, e ≠ .settle id now)
    (hm : Move s id live e live' stale') {g : Acceptance} (hg : live'.accepted = some g) (hplace : g.inPlaceOf ≠ "") :
    live'.untiedUid = g.uid ∨ ∃ sight ∈ (s.note notes e).compared id, sight.Ties g.uid := by
  have hkept : live'.accepted = live.accepted → live'.untiedUid = live.untiedUid →
      live'.untiedUid = g.uid ∨ ∃ sight ∈ (s.note notes e).compared id, sight.Ties g.uid := by
    intro haccepted huntied
    rw [huntied]
    refine (h.untied id live g hlive (haccepted ▸ hg) hplace).imp_right fun ⟨sight, hsight, hties⟩ => ?_
    exact ⟨sight, compared_subset he hsight, hties⟩
  cases hm with
  | settle now c o confirmed served hcheck hphase => exact absurd rfl (he now)
  | tie a ask serial read hask hphase hnode huid hsaved =>
    subst hnode
    cases htied : besideTheirPlex read.served read.machine with
    | true =>
      rw [htied] at hg
      refine .inr ?_
      obtain heq | ⟨sight, hsight, hties⟩ := h.untied _ live g hlive hg hplace
      -- the id is tied now, and the request that ties it saw that it may be
      · have hsaw := h.saw a ask hask
        rw [hphase] at hsaw
        refine ⟨⟨read.uid, read.machine, some read.served⟩, ?_, huid.symm.trans heq, read.served, rfl, hsaw.2,
          besideTheirPlex_iff.1 htied⟩
        show _ ∈ s.comparedOf notes (.tie a) ask.node
        simp only [comparedOf, hask, hsaw.1, Function.update_self]
        exact .head _
      · exact ⟨sight, compared_subset he hsight, hties⟩
    | false =>
      rw [htied] at hkept
      exact hkept rfl rfl
  | quiet _ next checking problem => exact hkept rfl rfl
  | answer o now c hcheck hphase hcurrent => exact hkept rfl rfl
  | merge records r hr => exact hkept rfl rfl
  | begin c call hcall hcheck => exact hkept rfl rfl
  | drop o now c hcheck hphase next => exact hkept rfl rfl
  | weigh c o hcheck hphase => exact hkept rfl rfl
  | finish c hcheck hphase => exact hkept rfl rfl
  | report now => exact hkept rfl rfl

/-- The check that settles a new id. -/
theorem settle_of_step {now : ℚ} (hs : s.step (.settle id now) = some s') :
    ∃ live c o confirmed served, s.lives id = some live ∧ live.check = some c ∧ c.phase = .weighed o confirmed served ∧
      s'.lives = Function.update s.lives id (some ((live.settle c o confirmed served now).setPhase .done)) := by
  cases hlive : s.lives id with
  | none => simp [step, hlive] at hs
  | some live =>
    cases hcheck : live.check with
    | none => simp [step, hlive, hcheck] at hs
    | some c =>
      simp only [step, hlive, hcheck] at hs
      split at hs
      · rename_i o confirmed served hphase
        obtain rfl := Option.some.inj hs
        exact ⟨live, c, o, confirmed, served, rfl, hcheck, hphase, rfl⟩
      · cases hs

/-- **The notes of a step tell what is to be tied.** -/
theorem Noted.step (h : s.Noted notes) (hs : s.step e = some s') : s'.Noted (s.note notes e) := by
  refine ⟨fun a ask' hask' => saw_of_step h.saw hs hask', fun id live' g hlive' hg hplace => ?_⟩
  by_cases he : ∃ now, e = .settle id now
  · obtain ⟨now, rfl⟩ := he
    obtain ⟨live, c, o, confirmed, served, hlive, hcheck, hphase, hlives⟩ := settle_of_step hs
    rw [hlives, Function.update_self] at hlive'
    obtain rfl := Option.some.inj hlive'
    exact untied_settle (fun g => h.untied id live g hlive) hlive hcheck hphase hg hplace
  · obtain ⟨-, records, r, rfl, rfl⟩ | ⟨live, hlive, hm⟩ := (moved_of_step hs).lives id live' hlive'
    · cases hg
    · exact hm.untied h hlive (fun now heq => he ⟨now, heq⟩) hg hplace

/-! ### Ids recorded -/

/-- The first node with an id gets the uid, and no other changes. -/
theorem mem_setUid {uid : String} {r : NodeRecord} : ∀ {nodes : List NodeRecord}, r ∈ setUid id uid nodes →
    r ∈ nodes ∨ r.id = id ∧ r.nodeUid = some uid
  | n :: nodes, h => by
    unfold setUid at h
    split_ifs at h with hid
    · obtain rfl | hr := List.mem_cons.1 h
      · exact .inr ⟨hid, rfl⟩
      · exact .inl (.tail _ hr)
    · obtain rfl | hr := List.mem_cons.1 h
      · exact .inl (.head _)
      · exact (mem_setUid hr).imp_left (.tail _)

/-- **An id saved for another node is never recorded**: a record that changes is the node's. -/
theorem mem_recordUid {nodes : List NodeRecord} {uid url : String} {r : NodeRecord}
    (h : r ∈ recordUid nodes id uid url) (hnew : r ∉ nodes) :
    r.id = id ∧ r.nodeUid = some uid ∧ ∀ other ∈ nodes, other.id ≠ id → other.nodeUid ≠ some uid := by
  unfold recordUid at h
  split at h
  · exact absurd h hnew
  · split_ifs at h with hsame htwin
    · exact absurd h hnew
    · exact absurd h hnew
    · obtain hr | ⟨hid, huid⟩ := mem_setUid h
      · exact absurd hr hnew
      · refine ⟨hid, huid, fun other hother hne heq => htwin ?_⟩
        apply List.any_eq_true.2
        exact ⟨other, hother, by simp [heq, hne]⟩

/-- What is known of the registry and of its notes. -/
theorem known_of_run {settings : List NodeRecord} {served : String → Option (List String)} {es : List RegistryEvent}
    {w : Registry × Notes}
    (hrun : Runs (noting step note) (fun w e => w.1.Addressed e) (new settings served, .none) es w) :
    w.1.AllKnown ∧ w.1.AllKnow ∧ w.1.Noted w.2 := by
  refine hrun.keeps (I := fun w => w.1.AllKnown ∧ w.1.AllKnow ∧ w.1.Noted w.2)
    ⟨allKnown_new settings served, allKnow_new settings served, noted_new settings served⟩ ?_
  rintro w e w' ha hs ⟨hknown, hknow, hnoted⟩
  obtain ⟨hstep, hnotes⟩ := noting_eq_some_iff.1 hs
  exact ⟨hknown.step ha hstep, hknow.step hstep, hnotes ▸ hnoted.step hstep⟩

/-- **Plex database work goes to the confirmed machine.** In every run in which a node's address and key stay while a new
id of it is settled, work let through to a node with a saved id means the id heard last is the saved one, or one accepted
in its place when no server used the node or its answer named the Plex of each. An id accepted in place of a saved one,
and saved by now, is let through by a request that was not overtaken only if a request compared it, since it was accepted,
with servers of which the answer held named the Plex of each, or if this one saw no server, or such servers itself. And an
id another node is saved with is not recorded. -/
theorem goes_to_the_confirmed_machine (settings : List NodeRecord) (served : String → Option (List String))
    (es : List RegistryEvent) (s : Registry) (notes : Notes)
    (hrun : Runs (noting step note) (fun w e => w.1.Addressed e) (new settings served, .none) es (s, notes)) :
    (∀ id live tie, s.lives id = some live → live.record.uid ≠ "" → live.plexDbHold tie = none →
      ∃ h, live.lastHeard = some h ∧
        (h = live.record.uid ∨
          ∃ g, live.accepted = some g ∧ g.uid = h ∧ g.inPlaceOf = live.record.uid ∧ g.Sound)) ∧
    (∀ a ask tie read live g, s.asks a = some ask → ask.phase = .decided tie read → ask.overtaken = false →
      s.lives ask.node = some live → live.record.uid ≠ "" → live.plexDbHold tie = none → live.accepted = some g →
      g.inPlaceOf ≠ "" → g.uid = live.record.uid →
      (∃ sight ∈ notes.compared ask.node, sight.Ties g.uid) ∨ ∃ sight, notes.sights a = some sight ∧ sight.Passes g.uid) ∧
    (∀ id uid url ok s' r, s.step (.record id uid url ok) = some s' → r ∈ s'.settings → r ∉ s.settings →
      r.id = id ∧ r.nodeUid = some uid ∧ ∀ other ∈ s.settings, other.id ≠ id → other.nodeUid ≠ some uid) := by
  obtain ⟨hknown, hknow, hnoted⟩ := known_of_run hrun
  refine ⟨fun id live tie hlive huid hhold => ?_, fun a ask tie read live g hask hphase hover hlive huid hhold hg
    hplace hsaved => ?_, fun id uid url ok s' r hs hr hnew => ?_⟩
  · obtain ⟨-, -, u, hheard, hne⟩ := of_hold_eq_none hhold huid
    obtain ⟨hlast, hwho⟩ := (hknown.known id live hlive).heard u hheard hne
    obtain hnone | hsame | haccepted := hwho
    · exact absurd hnone huid
    · exact ⟨u, hlast, .inl hsame.symm⟩
    · exact ⟨u, hlast, .inr haccepted⟩
  · obtain ⟨rfl, hunconfirmed, -⟩ := of_hold_eq_none hhold huid
    refine (hnoted.untied ask.node live g hlive hg hplace).symm.imp_right fun huntied => ?_
    have hne : live.untiedUid ≠ "" := by
      rw [huntied, hsaved]
      exact huid
    have hk := hknow a ask hask hover live hlive
    have hsaw := hnoted.saw a ask hask
    rw [hphase] at hk hsaw
    cases read with
    -- nothing to tie was there, though there is
    | none =>
      refine absurd (untied_iff.2 ⟨hne, ?_⟩) (Bool.eq_false_iff.1 hk)
      rw [huntied, hsaved]
      exact nodeUid_of_uid_ne huid
    | some r =>
      obtain ⟨-, hsavedRead, hsettled⟩ := hk
      have hread : r.uid = g.uid := by
        have hboth : some live.record.uid = some r.uid := (nodeUid_of_uid_ne huid).symm.trans hsavedRead
        rw [hsaved, Option.some.inj hboth]
      refine ⟨_, hsaw, hread, r.served, rfl, ?_⟩
      obtain hnone | hnames | hheld := hsettled (huntied.trans hread.symm)
      · exact .inl hnone
      · exact .inr hnames
      · exact absurd hunconfirmed hheld
  · simp only [step, Option.ite_none_right_eq_some, Option.some.injEq] at hs
    obtain ⟨-, rfl⟩ := hs
    cases ok with
    | true => exact mem_recordUid hr hnew
    | false => exact absurd hr hnew

/-- It answers, ready, with a new id. -/
def newAnswer : Outcome := ⟨.ready, "uid-b", some "plex-1", false, false⟩

/-- The new id is saved. -/
def newNode : NodeRecord := ⟨"n1", "http://10.0.0.5:8090", "key", some "uid-b", true, []⟩

/-- A check hears a new id, and weighs it. -/
def newIdWeighs : List RegistryEvent := checkBegins ++ [.answer "n1" newAnswer 5, .weigh "n1"]

theorem newIdWeighs_isSome : (exec step savedStart newIdWeighs).isSome = true := by decide +kernel

/-- The new id is to be settled. -/
def newIdWeighed : Registry := (exec step savedStart newIdWeighs).get newIdWeighs_isSome

theorem newIdSettles_isSome : (step newIdWeighed (.settle "n1" 6)).isSome = true := by decide +kernel

/-- It is accepted: no server uses the node. -/
def newIdSettled : Registry := (step newIdWeighed (.settle "n1" 6)).get newIdSettles_isSome

/-- It is recorded, and a request finds no server using the node. -/
def newIdAsks : List RegistryEvent :=
  [.finish "n1", .record "n1" "uid-b" savedNode.url true, .sync [newNode], .ask 0 "n1", .readServed 0]

theorem newIdAsks_isSome : (exec step newIdSettled newIdAsks).isSome = true := by decide +kernel

/-- The request is to be let through. -/
def newIdAsked : Registry := (exec step newIdSettled newIdAsks).get newIdAsks_isSome

theorem newIdAsked_lives_isSome : (newIdAsked.lives "n1").isSome = true := by decide +kernel

theorem newIdAsked_asks_isSome : (newIdAsked.asks 0).isSome = true := by decide +kernel

theorem runs_newIdAsked :
    Runs step Addressed savedStart (newIdWeighs ++ .settle "n1" 6 :: newIdAsks) newIdAsked := by
  have hweighs : ∀ e ∈ newIdWeighs, ∀ s : Registry, s.Addressed e := by
    intro e he s
    simp only [newIdWeighs, checkBegins, List.cons_append, List.nil_append, List.mem_cons, List.not_mem_nil, or_false] at he
    obtain rfl | rfl | rfl | rfl | rfl := he <;> trivial
  have hasks : ∀ e ∈ newIdAsks, ∀ s : Registry, s.Addressed e := by
    intro e he s
    simp only [newIdAsks, List.mem_cons, List.not_mem_nil, or_false] at he
    obtain rfl | rfl | rfl | rfl | rfl := he <;> trivial
  have hclient : ((newIdWeighed.lives "n1").all fun live => live.check.all fun c => c.client = live.client) = true := by
    decide +kernel
  refine (Runs.of_exec hweighs (Option.some_get _).symm).append
    (.cons (fun live c o confirmed served hlive hcheck _ => .inl ?_) (Option.some_get _).symm
      (.of_exec hasks (Option.some_get _).symm))
  rw [show newIdWeighed.lives "n1" = some live from hlive, Option.all_some, hcheck, Option.all_some] at hclient
  exact of_decide_eq_true hclient

/-- A new id accepted while no server used the node is let through: the request saw that none uses it yet. -/
theorem goes_to_the_confirmed_machine_newIdAsked :
    ((newIdAsked.lives "n1").get newIdAsked_lives_isSome).plexDbHold true = none ∧
      ∃ notes : Notes, Runs (noting step note) (fun w e => w.1.Addressed e) (savedStart, .none)
        (newIdWeighs ++ .settle "n1" 6 :: newIdAsks) (newIdAsked, notes) ∧
      ((∃ sight ∈ notes.compared "n1", sight.Ties "uid-b") ∨
        ∃ sight, notes.sights 0 = some sight ∧ sight.Passes "uid-b") := by
  have hnoting : ∃ notes : Notes, Runs (noting step note) (fun w e => w.1.Addressed e) (savedStart, .none)
      (newIdWeighs ++ .settle "n1" 6 :: newIdAsks) (newIdAsked, notes) := runs_newIdAsked.exists_noting _
  obtain ⟨notes, hrun⟩ := hnoting
  have h := goes_to_the_confirmed_machine [savedNode] (fun _ => some []) _ newIdAsked notes hrun
  have hphase : ((newIdAsked.asks 0).get newIdAsked_asks_isSome).phase = .decided true (some ⟨"uid-b", "plex-1", []⟩) := by
    decide +kernel
  have haccepted : ((newIdAsked.lives "n1").get newIdAsked_lives_isSome).accepted =
      some ⟨"uid-b", "uid-a", [], "plex-1"⟩ := by decide +kernel
  have hnode : ((newIdAsked.asks 0).get newIdAsked_asks_isSome).node = "n1" := by decide +kernel
  have hlive : newIdAsked.lives ((newIdAsked.asks 0).get newIdAsked_asks_isSome).node =
      some ((newIdAsked.lives "n1").get newIdAsked_lives_isSome) := by
    rw [hnode, Option.some_get]
  have hhold : ((newIdAsked.lives "n1").get newIdAsked_lives_isSome).plexDbHold true = none := by decide +kernel
  have hcompared := h.2.1 0 _ true _ _ _ (Option.some_get newIdAsked_asks_isSome).symm hphase
    (by decide +kernel) hlive (by decide +kernel) hhold haccepted (by decide) (by decide +kernel)
  rw [hnode] at hcompared
  exact ⟨hhold, notes, hrun, hcompared⟩

/-- A server with the Plex it names starts using the node, a request ties the new id, and a server with another Plex
starts using it too. -/
def usedElsewhere : List RegistryEvent :=
  newIdWeighs ++ .settle "n1" 6 :: newIdAsks ++ [.hold 0 7 true, .serve "n1" (some ["plex-1"]), .ask 1 "n1", .readServed 1,
    .tie 1, .hold 1 8 true, .serve "n1" (some ["plex-1", "plex-2"]), .ask 2 "n1"]

theorem usedElsewhere_isSome : (exec step savedStart usedElsewhere).isSome = true := by decide +kernel

/-- **A new id is compared with the Plex of the servers using the node once**: it is let through, when one it is not
beside uses the node since. -/
theorem let_through_elsewhere : ∃ s, Runs step Any savedStart usedElsewhere s ∧
    ((s.asks 2).any fun ask => ask.node = "n1" && ask.phase = .decided true none) = true ∧
    ((s.lives "n1").any fun live => live.record.uid ≠ "" && live.plexDbHold true = none &&
      live.accepted = some ⟨live.record.uid, "uid-a", [], "plex-1"⟩ &&
      !besideTheirPlex ((s.served "n1").getD []) live.machine) = true :=
  ⟨(exec step savedStart usedElsewhere).get usedElsewhere_isSome,
    .of_exec (fun _ _ _ => trivial) (Option.some_get _).symm, by decide +kernel, by decide +kernel⟩

end Registry

end MediaPreview.Nodes
