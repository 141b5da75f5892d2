import MediaPreview.Previews.FrameCache

/-!
# Who may touch a slot

A dispatch holds its path's generation lock from `acquire` to `release`, and no other has it then (`Locked`, kept by
every step). While it holds it no step of another dispatch, of its path or of any other, and no sweep or trim that one
makes, changes the slot, the entry or the lock of its key (`Locked.leaves`), however many there are (`slot_kept`).
-/

namespace MediaPreview.Frames

variable {κ π σ : Type*}

/-- An event of other dispatches, or of none; a restart ends them all. -/
def CacheEvent.OfOthers (d : ℕ) (e : CacheEvent κ π σ) : Prop := e.dispatch ≠ some d ∧ ∀ disk, e ≠ .restart disk

namespace Phase

variable {p : Phase}

/-! What a phase lets happen says that the lock is no longer waited for. -/

theorem ne_waiting_of_mayTry {regenerate siblings reuse : Bool} (h : p.mayTry regenerate siblings reuse = true) :
    p ≠ .waiting := by
  rintro rfl
  cases h

theorem ne_waiting_of_tried {reuse : Bool} (h : p.tried = some reuse) : p ≠ .waiting := by
  rintro rfl
  cases h

theorem ne_waiting_of_made {count : ℕ} (h : p.made? = some count) : p ≠ .waiting := by
  rintro rfl
  cases h

/-- Only a dispatch that works runs. -/
theorem eq_of_run {run : ℕ × Bool} (h : p.run = some run) : p = .working run.1 run.2 := by
  cases p with
  | working run' reuse =>
    obtain rfl := Option.some.inj h
    rfl
  | waiting | locked | missed | trying _ | made _ _ _ | publishing _ | leaving => cases h

theorem eq_of_made {count : ℕ} (h : p.made? = some count) : ∃ run reuse, p = .made run reuse count := by
  cases p with
  | made run reuse count' =>
    obtain rfl := Option.some.inj h
    exact ⟨run, reuse, rfl⟩
  | waiting | locked | missed | trying _ | working _ _ | publishing _ | leaving => cases h

theorem eq_of_publishing (h : p.publishing? = true) : ∃ count, p = .publishing count := by
  cases p with
  | publishing count => exact ⟨count, rfl⟩
  | waiting | locked | missed | trying _ | working _ _ | made _ _ _ | leaving => cases h

theorem ne_waiting_of_slotEmptied (h : p.slotEmptied = true) : p ≠ .waiting := by
  rintro rfl
  cases h

theorem ne_waiting_of_run {run : ℕ × Bool} (h : p.run = some run) : p ≠ .waiting := by
  rintro rfl
  cases h

end Phase

namespace FrameCache

variable {key : π → κ} {source : ℕ → π → Option Previews.SourceFingerprint} {s s' s'' : FrameCache κ π σ} {d d' : ℕ}
  {D : Dispatch π σ} {k : κ}

/-- A lock is held by who no longer waits for it. -/
def Locked (key : π → κ) (s : FrameCache κ π σ) : Prop :=
  ∀ d k, s.locks k = some d ↔ ∃ D, s.dispatches d = some D ∧ D.phase ≠ .waiting ∧ key D.path = k

theorem locked_fresh (ttl maxEntries maxDiskBytes : ℕ) (slots : κ → Option (Slot σ)) :
    Locked key (fresh ttl maxEntries maxDiskBytes slots : FrameCache κ π σ) := fun _ _ =>
  ⟨fun h => (Option.some_ne_none _ h.symm).elim, fun ⟨_, h, _⟩ => (Option.some_ne_none _ h.symm).elim⟩

/-- Past waiting it has its lock. -/
theorem Locked.lock (h : Locked key s) (hd : s.dispatches d = some D) (hwaits : D.phase ≠ .waiting) :
    s.locks (key D.path) = some d := (h d _).mpr ⟨D, hd, hwaits, rfl⟩

/-- It has no other lock. -/
theorem Locked.held (h : Locked key s) (hk : s.locks k = some d) (hd : s.dispatches d = some D) :
    D.phase ≠ .waiting ∧ key D.path = k := by
  obtain ⟨D', hd', hheld⟩ := (h d k).mp hk
  obtain rfl := Option.some.inj (hd.symm.trans hd')
  exact hheld

theorem Locked.same (h : Locked key s) (hlocks : s'.locks = s.locks) (hdispatches : s'.dispatches = s.dispatches) :
    Locked key s' := fun d k => by
  rw [hlocks, hdispatches]
  exact h d k

/-- One dispatch changes, and holds what it held. -/
theorem Locked.withDispatch (h : Locked key s) (hlocks : s'.locks = s.locks)
    (hdispatches : s'.dispatches = s.dispatches) {o : Option (Dispatch π σ)}
    (ho : ∀ k, s.locks k = some d ↔ ∃ D, o = some D ∧ D.phase ≠ .waiting ∧ key D.path = k) :
    Locked key (s'.withDispatch d o) := by
  intro d' k
  change s'.locks k = some d' ↔ ∃ D, (if d' = d then o else s'.dispatches d') = some D ∧ _
  rw [hlocks, hdispatches]
  by_cases heq : d' = d
  · obtain rfl := heq
    rw [if_pos rfl]
    exact ho k
  · rw [if_neg heq]
    exact h d' k

/-- It goes on, once it has its lock. -/
theorem Locked.goOn (h : Locked key s) (hlocks : s'.locks = s.locks) (hdispatches : s'.dispatches = s.dispatches)
    (hd : s.dispatches d = some D) (hwaits : D.phase ≠ .waiting) {p : Phase} (hp : p ≠ .waiting) :
    Locked key (s'.goOn d D p) := by
  refine h.withDispatch hlocks hdispatches fun k => ⟨fun hk => ?_, ?_⟩
  · exact ⟨_, rfl, hp, (h.held hk hd).2⟩
  · rintro ⟨D', heq, -, rfl⟩
    obtain rfl := Option.some.inj heq
    exact h.lock (D := D) hd hwaits

/-- A dispatch that waits, or is none, has no lock. -/
theorem Locked.free (h : Locked key s) (hwaits : ∀ D, s.dispatches d = some D → D.phase = .waiting) :
    s.locks k ≠ some d := fun hk => by
  obtain ⟨D, hd, hnot, -⟩ := (h d k).mp hk
  exact hnot (hwaits D hd)

/-- It begins, or gives up. -/
theorem Locked.waits (h : Locked key s) (hwaits : ∀ D, s.dispatches d = some D → D.phase = .waiting)
    {o : Option (Dispatch π σ)} (ho : ∀ D, o = some D → D.phase = .waiting) : Locked key (s.withDispatch d o) := by
  refine h.withDispatch rfl rfl fun k => ⟨fun hk => (h.free hwaits hk).elim, ?_⟩
  rintro ⟨D, hD, hnot, -⟩
  exact (hnot (ho D hD)).elim

variable [DecidableEq κ] {disk : Disk κ σ}

theorem Locked.acquire (h : Locked key s) (hd : s.dispatches d = some D) (hstep : s.acquire key d D = some s') :
    Locked key s' := by
  unfold FrameCache.acquire at hstep
  split_ifs at hstep with hphase
  obtain ⟨hwaits, hfree⟩ := hphase
  obtain rfl := Option.some.inj hstep
  intro d' k
  change (if k = key D.path then some d else s.locks k) = some d' ↔
    ∃ D', (if d' = d then some { D with phase := .locked } else s.dispatches d') = some D' ∧ _
  by_cases heq : d' = d
  · obtain rfl := heq
    rw [if_pos rfl]
    constructor
    · intro hk
      by_cases hkey : k = key D.path
      · exact ⟨_, rfl, (fun hc => by cases hc), hkey.symm⟩
      · rw [if_neg hkey] at hk
        exact absurd hwaits (h.held hk hd).1
    · rintro ⟨D', hD', -, rfl⟩
      obtain rfl := Option.some.inj hD'
      exact if_pos rfl
  · rw [if_neg heq]
    by_cases hkey : k = key D.path
    · obtain rfl := hkey
      rw [if_pos rfl]
      constructor
      · intro hk
        exact absurd (Option.some.inj hk).symm heq
      · intro hheld
        have hk := (h d' (key D.path)).mpr hheld
        rw [hfree] at hk
        cases hk
    · rw [if_neg hkey]
      exact h d' k

theorem Locked.release (h : Locked key s) (hd : s.dispatches d = some D) (hstep : s.release key d D = some s') :
    Locked key s' := by
  unfold FrameCache.release at hstep
  split_ifs at hstep with hleaves
  obtain rfl := Option.some.inj hstep
  have hlock := h.lock hd fun hc => by
    rw [hleaves] at hc
    cases hc
  intro d' k
  change (if k = key D.path then none else s.locks k) = some d' ↔
    ∃ D', (if d' = d then none else s.dispatches d') = some D' ∧ _
  by_cases heq : d' = d
  · obtain rfl := heq
    rw [if_pos rfl]
    constructor
    · intro hk
      by_cases hkey : k = key D.path
      · rw [if_pos hkey] at hk
        cases hk
      · rw [if_neg hkey] at hk
        exact absurd (h.held hk hd).2.symm hkey
    · rintro ⟨D', hD', -⟩
      cases hD'
  · rw [if_neg heq]
    by_cases hkey : k = key D.path
    · obtain rfl := hkey
      rw [if_pos rfl]
      constructor
      · intro hk
        cases hk
      · intro hheld
        exact absurd (Option.some.inj (((h d' (key D.path)).mpr hheld).symm.trans hlock)) heq
    · rw [if_neg hkey]
      exact h d' k

theorem put_locks (s : FrameCache κ π σ) (k : κ) (entry : CacheEntry σ) (disk : Disk κ σ) :
    (s.put k entry disk).locks = s.locks ∧ (s.put k entry disk).dispatches = s.dispatches := by
  unfold put enforceCaps
  dsimp only
  split_ifs
  · exact ⟨rfl, rfl⟩
  · exact ⟨rfl, rfl⟩

omit [DecidableEq κ] in
theorem withDispatch_self (hd : s.dispatches d = some D) : s.withDispatch d (some { D with phase := D.phase }) = s := by
  have hsame : (fun d' => if d' = d then some D else s.dispatches d') = s.dispatches := by
    funext d'
    split_ifs with heq
    · rw [heq, hd]
    · rfl
  unfold FrameCache.withDispatch
  rw [hsame]

/-- A dispatch that has its lock goes on, with what it changes. -/
def GoesOn (key : π → κ) (s : FrameCache κ π σ) (d : ℕ) (D : Dispatch π σ) (s' : FrameCache κ π σ) : Prop :=
  D.phase ≠ .waiting ∧ ∃ t p, s' = t.goOn d D p ∧ p ≠ .waiting ∧ t.locks = s.locks ∧ t.dispatches = s.dispatches ∧
    (s.locks (key D.path) = some d → Touches (some d) s t)

theorem GoesOn.intro {p : Phase} (hwaits : D.phase ≠ .waiting) (hp : p ≠ .waiting) (hlocks : s'.locks = s.locks)
    (hdispatches : s'.dispatches = s.dispatches) (ht : s.locks (key D.path) = some d → Touches (some d) s s') :
    GoesOn key s d D (s'.goOn d D p) := ⟨hwaits, s', p, rfl, hp, hlocks, hdispatches, ht⟩

theorem goesOn_of_lookup [DecidableEq σ] (hstep : s.lookup key source d D disk = some s') : GoesOn key s d D s' := by
  unfold FrameCache.lookup at hstep
  split_ifs at hstep with hphase
  have hwaits : D.phase ≠ .waiting := by
    rw [hphase.1]
    exact fun hc => by cases hc
  obtain rfl := Option.some.inj hstep
  unfold FrameCache.get
  cases Dict.get? s.entries (key D.path) with
  | none => exact .intro hwaits (fun hc => by cases hc) rfl rfl fun _ => .refl s
  | some entry =>
    dsimp only
    split_ifs
    · exact .intro hwaits (fun hc => by cases hc) rfl rfl fun hk => touches_store hk entry
    · exact .intro hwaits (fun hc => by cases hc) rfl rfl fun hk => touches_evict hk disk

theorem goesOn_of_empty {left : List (Frame σ)} (hstep : s.empty key d D left = some s') : GoesOn key s d D s' := by
  obtain ⟨reuse, htried, rfl⟩ := Option.map_eq_some_iff.mp hstep
  exact .intro (Phase.ne_waiting_of_tried htried) (fun hc => by cases hc) rfl rfl fun hk =>
    (touches_withSlot hk left).trans (touches_nextRun _)

theorem goesOn_of_write (hd : s.dispatches d = some D) (hstep : s.write key source D = some s') :
    GoesOn key s d D s' := by
  obtain ⟨run, hrun, hstep⟩ := Option.bind_eq_some_iff.mp hstep
  obtain ⟨slot, -, rfl⟩ := Option.map_eq_some_iff.mp hstep
  have hwaits := Phase.ne_waiting_of_run hrun
  generalize slot.frames ++ [_] = frames
  have hsame : (s.withSlot (key D.path) frames).goOn d D D.phase = s.withSlot (key D.path) frames :=
    withDispatch_self hd
  rw [← hsame]
  exact .intro hwaits hwaits rfl rfl fun hk => touches_withSlot hk frames

theorem goesOn_of_finish (hstep : s.finish key d D = some s') : GoesOn key s d D s' := by
  obtain ⟨run, hrun, hstep⟩ := Option.bind_eq_some_iff.mp hstep
  obtain ⟨slot, -, hstep⟩ := Option.bind_eq_some_iff.mp hstep
  obtain ⟨-, hstep⟩ := Option.ite_none_left_eq_some.mp hstep
  obtain rfl := Option.some.inj hstep
  exact .intro (Phase.ne_waiting_of_run hrun) (fun hc => by cases hc) rfl rfl fun _ => touches_complete s _ _

theorem goesOn_of_storeFrames {sizeBytes : ℕ} (hstep : s.storeFrames key source d D sizeBytes disk = some s') :
    GoesOn key s d D s' := by
  obtain ⟨count, hmade, hstep⟩ := Option.bind_eq_some_iff.mp hstep
  obtain ⟨-, hstep⟩ := Option.ite_none_right_eq_some.mp hstep
  obtain rfl := Option.some.inj hstep
  obtain ⟨hlocks, hdispatches⟩ :=
    put_locks s (key D.path) ⟨count, s.now, D.extractionKey, D.fingerprint, sizeBytes⟩ disk
  exact .intro (Phase.ne_waiting_of_made hmade) (fun hc => by cases hc) hlocks hdispatches fun hk =>
    touches_put hk _ disk

theorem goesOn_of_stop (hstep : s.stop key d D disk = some s') : GoesOn key s d D s' := by
  unfold FrameCache.stop at hstep
  split_ifs at hstep with hphase hemptied
  · obtain rfl := Option.some.inj hstep
    exact .intro (not_or.mp hphase).1 (fun hc => by cases hc) rfl rfl fun hk => touches_evict hk disk
  · obtain rfl := Option.some.inj hstep
    exact .intro (not_or.mp hphase).1 (fun hc => by cases hc) rfl rfl fun _ => .refl s

variable [DecidableEq σ] {e : CacheEvent κ π σ}

/-- **What a step can do**: a dispatch begins, gives up, takes its lock or releases it, or it goes on; or the event is
of no dispatch. -/
theorem step_cases (hstep : s.step key source e = some s') :
    (∃ d D, e.dispatch = some d ∧ s.dispatches d = some D ∧
      (GoesOn key s d D s' ∨ s.acquire key d D = some s' ∨ s.release key d D = some s')) ∨
    (∃ d o, e.dispatch = some d ∧ (∀ D, s.dispatches d = some D → D.phase = .waiting) ∧
      (∀ D, o = some D → D.phase = .waiting) ∧ s' = s.withDispatch d o) ∨
    (Touches none s s' ∧ s'.dispatches = s.dispatches) ∨ ∃ disk, e = .restart disk ∧ s' = s.restart disk := by
  cases e with
  | tick =>
    obtain rfl := Option.some.inj hstep
    exact .inr (.inr (.inl ⟨touches_tick s, rfl⟩))
  | configure ttl maxDiskBytes =>
    obtain rfl := Option.some.inj hstep
    exact .inr (.inr (.inl ⟨touches_configure s ttl maxDiskBytes, rfl⟩))
  | start d path regenerate siblings extractionKey =>
    obtain ⟨hd, hstep⟩ := Option.ite_none_right_eq_some.mp hstep
    obtain ⟨fingerprint, -, rfl⟩ := Option.map_eq_some_iff.mp hstep
    refine .inr (.inl ⟨d, _, rfl, fun D hD => ?_, fun D hD => ?_, rfl⟩)
    · rw [hd] at hD
      cases hD
    · obtain rfl := Option.some.inj hD
      rfl
  | acquire d =>
    obtain ⟨D, hd, hstep⟩ := Option.bind_eq_some_iff.mp hstep
    exact .inl ⟨d, D, rfl, hd, .inr (.inl hstep)⟩
  | giveUp d =>
    obtain ⟨D, hd, hstep⟩ := Option.bind_eq_some_iff.mp hstep
    obtain ⟨hwaits, hstep⟩ := Option.ite_none_right_eq_some.mp hstep
    obtain rfl := Option.some.inj hstep
    refine .inr (.inl ⟨d, none, rfl, fun D' hD' => ?_, fun D' hD' => (by cases hD'), rfl⟩)
    rwa [← Option.some.inj (hd.symm.trans hD')]
  | lookup d disk =>
    obtain ⟨D, hd, hstep⟩ := Option.bind_eq_some_iff.mp hstep
    exact .inl ⟨d, D, rfl, hd, .inl (goesOn_of_lookup hstep)⟩
  | «try» d reuse =>
    obtain ⟨D, hd, hstep⟩ := Option.bind_eq_some_iff.mp hstep
    obtain ⟨hmay, hstep⟩ := Option.ite_none_right_eq_some.mp hstep
    obtain rfl := Option.some.inj hstep
    exact .inl ⟨d, D, rfl, hd, .inl (.intro (Phase.ne_waiting_of_mayTry hmay) (fun hc => by cases hc) rfl rfl
      fun _ => .refl s)⟩
  | empty d left =>
    obtain ⟨D, hd, hstep⟩ := Option.bind_eq_some_iff.mp hstep
    exact .inl ⟨d, D, rfl, hd, .inl (goesOn_of_empty hstep)⟩
  | write d =>
    obtain ⟨D, hd, hstep⟩ := Option.bind_eq_some_iff.mp hstep
    exact .inl ⟨d, D, rfl, hd, .inl (goesOn_of_write hd hstep)⟩
  | finish d =>
    obtain ⟨D, hd, hstep⟩ := Option.bind_eq_some_iff.mp hstep
    exact .inl ⟨d, D, rfl, hd, .inl (goesOn_of_finish hstep)⟩
  | put d sizeBytes disk =>
    obtain ⟨D, hd, hstep⟩ := Option.bind_eq_some_iff.mp hstep
    exact .inl ⟨d, D, rfl, hd, .inl (goesOn_of_storeFrames hstep)⟩
  | publish d =>
    obtain ⟨D, hd, hstep⟩ := Option.bind_eq_some_iff.mp hstep
    obtain ⟨-, hstep⟩ := Option.ite_none_right_eq_some.mp hstep
    obtain rfl := Option.some.inj hstep
    exact .inr (.inr (.inl ⟨.refl s, rfl⟩))
  | stop d disk =>
    obtain ⟨D, hd, hstep⟩ := Option.bind_eq_some_iff.mp hstep
    exact .inl ⟨d, D, rfl, hd, .inl (goesOn_of_stop hstep)⟩
  | release d =>
    obtain ⟨D, hd, hstep⟩ := Option.bind_eq_some_iff.mp hstep
    exact .inl ⟨d, D, rfl, hd, .inr (.inr hstep)⟩
  | restart disk =>
    obtain rfl := Option.some.inj hstep
    exact .inr (.inr (.inr ⟨disk, rfl, rfl⟩))

/-- **Every step keeps the locks in order.** -/
theorem Locked.step (h : Locked key s) (hstep : s.step key source e = some s') : Locked key s' := by
  rcases step_cases hstep with ⟨d, D, -, hd, hgoes | hacquire | hrelease⟩ | ⟨d, o, -, hwaits, ho, rfl⟩ |
    ⟨ht, hdispatches⟩ | ⟨disk, -, rfl⟩
  · obtain ⟨hwaits, t, p, rfl, hp, hlocks, hdispatches, -⟩ := hgoes
    exact h.goOn hlocks hdispatches hd hwaits hp
  · exact h.acquire hd hacquire
  · exact h.release hd hrelease
  · exact h.waits hwaits ho
  · exact h.same ht.locks hdispatches
  · exact fun _ _ => ⟨fun hk => (Option.some_ne_none _ hk.symm).elim, fun ⟨_, hd, _⟩ =>
      (Option.some_ne_none _ hd.symm).elim⟩

/-- What a dispatch finds as it left it. -/
structure Leaves (d : ℕ) (k : κ) (s s' : FrameCache κ π σ) : Prop where
  /-- How far it is. -/
  dispatch : s'.dispatches d = s.dispatches d
  /-- Its lock. -/
  lock : s'.locks k = s.locks k
  /-- Its slot. -/
  slot : s'.slots k = s.slots k
  /-- Its entry. -/
  found : Dict.get? s'.entries k = Dict.get? s.entries k

omit [DecidableEq σ] in
theorem Touches.leaves {o : Option ℕ} (h : Touches o s s') (hk : s.locks k = some d) (hne : some d ≠ o) :
    Leaves d k s s' := ⟨h.dispatches d hne, congrFun h.locks k, h.slots k d hk hne, h.found k d hk hne⟩

/-- **A step of others leaves alone** what a dispatch has the lock of. -/
theorem Locked.leaves (h : Locked key s) (hk : s.locks k = some d) (he : e.OfOthers d)
    (hstep : s.step key source e = some s') : Leaves d k s s' := by
  obtain ⟨hother, hrestart⟩ := he
  rcases step_cases hstep with ⟨d', D, heq, hd', hgoes | hacquire | hrelease⟩ | ⟨d', o, heq, hwaits, -, rfl⟩ |
    ⟨ht, -⟩ | ⟨disk, heq, -⟩
  · obtain ⟨hwaits, t, p, rfl, -, -, -, ht⟩ := hgoes
    exact ((ht (h.lock hd' hwaits)).trans (touches_withDispatch t d' _)).leaves hk (heq ▸ hother.symm)
  · have hne : d ≠ d' := fun hc => hother (hc ▸ heq)
    obtain ⟨⟨-, hfree⟩, hacquire⟩ := Option.ite_none_right_eq_some.mp hacquire
    obtain rfl := Option.some.inj hacquire
    have hkey : k ≠ key D.path := fun hc => by
      rw [← hc, hk] at hfree
      cases hfree
    exact ⟨if_neg hne, if_neg hkey, rfl, rfl⟩
  · have hne : d ≠ d' := fun hc => hother (hc ▸ heq)
    obtain ⟨hleaves, hrelease⟩ := Option.ite_none_right_eq_some.mp hrelease
    obtain rfl := Option.some.inj hrelease
    have hlock := h.lock hd' fun hc => by
      rw [hleaves] at hc
      cases hc
    have hkey : k ≠ key D.path := fun hc => hne (Option.some.inj (hk.symm.trans (hc ▸ hlock)))
    exact ⟨if_neg hne, if_neg hkey, rfl, rfl⟩
  · exact (touches_withDispatch s d' o).leaves hk (heq ▸ hother.symm)
  · exact ht.leaves hk (Option.some_ne_none d)
  · exact absurd heq (hrestart disk)

/-- **A slot is its holder's**: from any state a run leads to, however others go on, a dispatch finds its phase, its
lock, its slot and its entry as it left them. -/
theorem slot_kept {ttl maxEntries maxDiskBytes : ℕ} {slots : κ → Option (Slot σ)}
    {before others : List (CacheEvent κ π σ)}
    (hreached : Runs (step key source) Any (fresh ttl maxEntries maxDiskBytes slots) before s) (hk : s.locks k = some d)
    (hothers : Runs (step key source) (fun _ e => e.OfOthers d) s others s') : Leaves d k s s' := by
  have hlocked : Locked key s := hreached.keeps (locked_fresh _ _ _ _) fun _ _ _ _ hstep h => h.step hstep
  have hkept := hothers.keeps (I := fun t => Locked key t ∧ Leaves d k s t) ⟨hlocked, rfl, rfl, rfl, rfl⟩
    fun t e t' he hstep h => by
      have hleaves := h.1.leaves (h.2.lock.trans hk) he hstep
      exact ⟨h.1.step hstep, hleaves.dispatch.trans h.2.dispatch, hleaves.lock.trans h.2.lock,
        hleaves.slot.trans h.2.slot, hleaves.found.trans h.2.found⟩
  exact hkept.2

/-- Files that stay as they are. -/
def still (_ path : ℕ) : Option Previews.SourceFingerprint := some ⟨1, path, 100, 7, 7⟩

/-- Folders that are removed whole. -/
def wiped : Disk ℕ ℕ := ⟨fun _ => none, fun _ => true⟩

/-- A dispatch of two frames, until its run returns. -/
def extracts (d path : ℕ) : List (CacheEvent ℕ ℕ ℕ) :=
  [.start d path false false 7, .acquire d, .lookup d wiped, .try d false, .empty d [], .write d, .tick, .write d,
    .finish d]

/-- A cache of one entry. -/
def small : FrameCache ℕ ℕ ℕ := fresh 60 1 0 fun _ => none

/-- While one dispatch writes, another extracts and stores, and a third waits for the file the first one is at. -/
theorem slot_kept_put : ∃ s s', Runs (step id still) Any small ((extracts 0 4).take 6) s ∧
    Runs (step id still) (fun _ e => e.OfOthers 0) s (extracts 2 9 ++ [.put 2 10 wiped, .start 1 4 false false 7]) s' ∧
      Leaves 0 4 s s' := by
  have hruns : ((exec (step id still) small ((extracts 0 4).take 6)).any fun s => decide (s.locks 4 = some 0) &&
      (exec (step id still) s (extracts 2 9 ++ [.put 2 10 wiped, .start 1 4 false false 7])).isSome) = true := by
    decide +kernel
  obtain ⟨s, hs, hboth⟩ := (Option.any_eq_true _ _).mp hruns
  rw [Bool.and_eq_true, decide_eq_true_eq] at hboth
  obtain ⟨s', hs'⟩ := Option.isSome_iff_exists.mp hboth.2
  have hbefore := Runs.of_exec (C := Any) (fun _ _ _ => trivial) hs
  have hothers := Runs.of_exec (C := fun _ e => CacheEvent.OfOthers 0 e)
    (by simp [extracts, CacheEvent.OfOthers, CacheEvent.dispatch]) hs'
  exact ⟨s, s', hbefore, hothers, slot_kept hbefore hboth.1 hothers⟩

end FrameCache

end MediaPreview.Frames
