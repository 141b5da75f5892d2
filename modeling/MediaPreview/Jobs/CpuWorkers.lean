import Mathlib.Algebra.Order.Group.Nat
import Mathlib.Data.List.Nodup
import MediaPreview.Lib.Runs

/-!
# The CPU workers of a pool without groups

`WorkerPool` of `jobs/worker.py` grows and shrinks on request. Idle workers go at once; of busy ones only how many are to
go is counted (`_pending_removals`), and whichever worker is found idle next goes for one of them. The record (`Asked`)
keeps with the pool what was asked of it: the last size asked for, with what was added and what was reported removed or
scheduled since. Workers here are the CPU's; nothing flags one of them to go itself while there are no groups.
-/

namespace MediaPreview.Pool

/-! ### The pool -/

/-- A worker. -/
structure CpuWorker where
  /-- `worker_id`. -/
  id : ℕ
  /-- `is_busy`. -/
  isBusy : Bool
  deriving DecidableEq

/-- The pool. -/
structure WorkerPool where
  /-- `workers`. -/
  workers : List CpuWorker
  /-- `_pending_removals["CPU"]`. -/
  pending : ℕ
  /-- `_next_worker_id`. -/
  nextId : ℕ
  deriving DecidableEq

/-- The busy workers. -/
def WorkerPool.busy (p : WorkerPool) : ℕ := p.workers.countP CpuWorker.isBusy

/-- `add_workers`. -/
def WorkerPool.addWorkers (p : WorkerPool) (count : ℤ) : WorkerPool × ℕ :=
  ({ p with
      workers := p.workers ++ (List.range count.toNat).map fun k => ⟨p.nextId + k, false⟩
      nextId := p.nextId + count.toNat }, count.toNat)

/-- Idle workers go, so many at most; and how many went. -/
def dropIdle : ℕ → List CpuWorker → List CpuWorker × ℕ
  | 0, workers => (workers, 0)
  | _ + 1, [] => ([], 0)
  | k + 1, w :: workers =>
    if w.isBusy then (w :: (dropIdle (k + 1) workers).1, (dropIdle (k + 1) workers).2)
    else ((dropIdle k workers).1, (dropIdle k workers).2 + 1)

/-- What `remove_workers` reports. -/
structure Removal where
  /-- `removed`. -/
  removed : ℕ
  /-- `scheduled`. -/
  scheduled : ℕ
  /-- `unavailable`. -/
  unavailable : ℕ
  deriving DecidableEq

/-- `remove_workers`. -/
def WorkerPool.removeWorkers (p : WorkerPool) (count : ℤ) : WorkerPool × Removal :=
  if count ≤ 0 then (p, ⟨0, 0, 0⟩)
  else
    let kept := dropIdle count.toNat p.workers
    let scheduled := min (count.toNat - kept.2) p.busy
    ({ p with workers := kept.1, pending := p.pending + scheduled },
      ⟨kept.2, scheduled, count.toNat - p.workers.length⟩)

/-- `_retire_idle_worker_if_scheduled`. -/
def WorkerPool.retireIdleWorkerIfScheduled (p : WorkerPool) (id : ℕ) : WorkerPool × Bool :=
  match p.workers.find? fun w => w.id = id with
  | none => (p, false)
  | some w =>
    if w.isBusy || p.pending = 0 then (p, false)
    else ({ p with workers := p.workers.eraseP fun w => w.id = id, pending := p.pending - 1 }, true)

/-- `_apply_deferred_removals`, over a snapshot of the workers. -/
def WorkerPool.applyDeferredRemovals (p : WorkerPool) : WorkerPool :=
  p.workers.foldl (fun p w => (p.retireIdleWorkerIfScheduled w.id).1) p

/-- `reconcile_cpu_workers`. -/
def WorkerPool.reconcileCpuWorkers (p : WorkerPool) (desired : ℤ) : WorkerPool :=
  let desired := max 0 desired
  let effective : ℤ := p.workers.length - p.pending
  if effective < desired then
    let cancelled := min p.pending (desired - effective).toNat
    ({ p with pending := p.pending - cancelled }.addWorkers (desired - effective - cancelled)).1
  else if desired < effective then (p.removeWorkers (effective - desired)).1
  else p

/-- A worker starts or ends a task. -/
def WorkerPool.setBusy (p : WorkerPool) (id : ℕ) (isBusy : Bool) : WorkerPool :=
  { p with workers := p.workers.map fun w => if w.id = id then { w with isBusy := isBusy } else w }

/-! ### What is asked of it -/

/-- The pool with what was asked of it. -/
structure Asked where
  /-- The pool. -/
  pool : WorkerPool
  /-- What the last reconcile asked for, or the initial count, plus the workers added and minus those reported removed or
  scheduled since. -/
  asked : ℤ
  /-- How many workers the requests leave: as `asked`, but a request to remove more than are left is met when none is. -/
  wanted : ℕ

/-- The pool as it is made. -/
def Asked.initial (count : ℤ) : Asked where
  pool := (WorkerPool.addWorkers ⟨[], 0, 0⟩ count).1
  asked := count.toNat
  wanted := count.toNat

/-- What happens to the pool. -/
inductive PoolEvent where
  /-- `add_workers`. -/
  | add (count : ℤ)
  /-- `remove_workers`. -/
  | remove (count : ℤ)
  /-- `reconcile_cpu_workers`. -/
  | reconcile (desired : ℤ)
  /-- An idle worker is given a task. -/
  | assign (id : ℕ)
  /-- A worker's task is over. -/
  | complete (id : ℕ)
  /-- `_retire_idle_worker_if_scheduled`. -/
  | retire (id : ℕ)
  /-- `_apply_deferred_removals`. -/
  | applyDeferred

/-- What an event makes of the pool and the record. -/
def step (s : Asked) : PoolEvent → Option Asked
  | .add count =>
    let added := s.pool.addWorkers count
    some ⟨added.1, s.asked + added.2, s.wanted + added.2⟩
  | .remove count =>
    let removal := s.pool.removeWorkers count
    some ⟨removal.1, s.asked - (removal.2.removed + removal.2.scheduled : ℕ),
      s.wanted - (removal.2.removed + removal.2.scheduled)⟩
  | .reconcile desired => some ⟨s.pool.reconcileCpuWorkers desired, max 0 desired, desired.toNat⟩
  | .assign id =>
    if (⟨id, false⟩ : CpuWorker) ∈ s.pool.workers then some { s with pool := s.pool.setBusy id true } else none
  | .complete id =>
    if (⟨id, true⟩ : CpuWorker) ∈ s.pool.workers then some { s with pool := s.pool.setBusy id false } else none
  | .retire id => some { s with pool := (s.pool.retireIdleWorkerIfScheduled id).1 }
  | .applyDeferred => some { s with pool := s.pool.applyDeferredRemovals }

/-- No request is for more workers than are not yet due to go, unless none is. -/
def Within (s : Asked) : PoolEvent → Prop
  | .remove count => s.pool.pending = 0 ∨ count + s.pool.pending ≤ s.pool.workers.length
  | _ => True

/-! ### What each operation does -/

theorem dropIdle_spec (k : ℕ) (workers : List CpuWorker) :
    (dropIdle k workers).2 = min k (workers.countP fun w => !w.isBusy) ∧
      (dropIdle k workers).1.length + (dropIdle k workers).2 = workers.length ∧
      (dropIdle k workers).1.countP CpuWorker.isBusy = workers.countP CpuWorker.isBusy ∧
      (dropIdle k workers).1.Sublist workers := by
  induction workers generalizing k with
  | nil => cases k <;> simp [dropIdle]
  | cons w workers ih =>
    cases k with
    | zero => simp [dropIdle]
    | succ k =>
      cases hw : w.isBusy with
      | true =>
        obtain ⟨hremoved, hlength, hbusy, hsub⟩ := ih (k + 1)
        simp only [dropIdle, hw, if_true, List.length_cons, List.countP_cons, Bool.not_true]
        refine ⟨by simpa using hremoved, by omega, by omega, hsub.cons_cons w⟩
      | false =>
        obtain ⟨hremoved, hlength, hbusy, hsub⟩ := ih k
        simp only [dropIdle, hw, Bool.false_eq_true, if_false, List.length_cons, List.countP_cons, Bool.not_false]
        refine ⟨?_, by omega, by simpa using hbusy, hsub.cons w⟩
        rw [hremoved]
        simp only [if_true]
        omega

/-- Workers are busy or idle. -/
theorem busy_add_idle (p : WorkerPool) : p.busy + p.workers.countP (fun w => !w.isBusy) = p.workers.length := by
  rw [WorkerPool.busy, List.length_eq_countP_add_countP CpuWorker.isBusy]
  simp

/-- **What is removed and scheduled**: as many as asked for, if there are that many workers. -/
theorem removeWorkers_spec (p : WorkerPool) (count : ℤ) :
    (p.removeWorkers count).2.removed + (p.removeWorkers count).2.scheduled = min count.toNat p.workers.length ∧
      (p.removeWorkers count).1.workers.length + (p.removeWorkers count).2.removed = p.workers.length ∧
      (p.removeWorkers count).1.pending = p.pending + (p.removeWorkers count).2.scheduled ∧
      (p.removeWorkers count).1.workers.Sublist p.workers ∧ (p.removeWorkers count).1.nextId = p.nextId := by
  unfold WorkerPool.removeWorkers
  split_ifs with hcount
  · have hzero : count.toNat = 0 := Int.toNat_eq_zero.2 hcount
    simp [hzero]
  · obtain ⟨hremoved, hlength, -, hsub⟩ := dropIdle_spec count.toNat p.workers
    have hparts := busy_add_idle p
    refine ⟨?_, hlength, rfl, hsub, rfl⟩
    dsimp only
    omega

/-- **What a retirement check does**: nothing, as the worker is busy or gone or none is to go; or an idle worker goes for
one of those to go. -/
theorem retire_cases (p : WorkerPool) (hn : (p.workers.map CpuWorker.id).Nodup) (id : ℕ) :
    (p.retireIdleWorkerIfScheduled id = (p, false) ∧ (p.pending = 0 ∨ (⟨id, false⟩ : CpuWorker) ∉ p.workers)) ∨
      0 < p.pending ∧ ∃ left : List CpuWorker, left.Sublist p.workers ∧ left.length + 1 = p.workers.length ∧
        p.retireIdleWorkerIfScheduled id = ({ p with workers := left, pending := p.pending - 1 }, true) ∧
        ∀ w ∈ left, w.id ≠ id := by
  unfold WorkerPool.retireIdleWorkerIfScheduled
  cases hfind : p.workers.find? fun w => w.id = id with
  | none =>
    refine .inl ⟨rfl, .inr fun hmem => ?_⟩
    exact absurd rfl (of_decide_eq_false (Bool.eq_false_of_not_eq_true (List.find?_eq_none.1 hfind _ hmem)))
  | some w =>
    have hid : w.id = id := by simpa using List.find?_some hfind
    have hmem := List.mem_of_find?_eq_some hfind
    dsimp only
    cases hstay : w.isBusy || decide (p.pending = 0) with
    | true =>
      refine .inl ⟨rfl, ?_⟩
      obtain hbusy | hzero := (Bool.or_eq_true _ _).mp hstay
      · refine .inr fun hidle => ?_
        have heq := List.inj_on_of_nodup_map hn hmem hidle hid
        rw [heq] at hbusy
        cases hbusy
      · exact .inl (of_decide_eq_true hzero)
    | false =>
      obtain ⟨-, hpending⟩ := Bool.or_eq_false_iff.1 hstay
      refine .inr ⟨Nat.pos_of_ne_zero (of_decide_eq_false hpending), _, List.eraseP_sublist, ?_, rfl, ?_⟩
      · rw [List.length_eraseP_of_mem hmem (decide_eq_true hid)]
        have := List.length_pos_of_mem hmem
        omega
      · obtain ⟨v, before, after, hbefore, hv, hsplit, herase⟩ :=
          List.exists_of_eraseP (p := fun u : CpuWorker => decide (u.id = id)) hmem (decide_eq_true hid)
        rw [herase]
        rw [hsplit, List.map_append, List.map_cons, List.nodup_append, List.nodup_cons] at hn
        intro u hu huid
        obtain hu | hu := List.mem_append.1 hu
        · exact hbefore u hu (decide_eq_true huid)
        · refine hn.2.1.1 (List.mem_map.2 ⟨u, hu, ?_⟩)
          rw [huid, of_decide_eq_true hv]

/-- A pool whose workers are told apart by their ids. -/
def Distinct (p : WorkerPool) : Prop := (p.workers.map CpuWorker.id).Nodup ∧ ∀ w ∈ p.workers, w.id < p.nextId

theorem Distinct.sublist {p : WorkerPool} (h : Distinct p) {workers : List CpuWorker} (hsub : workers.Sublist p.workers)
    (pending : ℕ) : Distinct { p with workers := workers, pending := pending } :=
  ⟨h.1.sublist (hsub.map _), fun w hw => h.2 w (hsub.subset hw)⟩

theorem Distinct.addWorkers {p : WorkerPool} (h : Distinct p) (count : ℤ) : Distinct (p.addWorkers count).1 := by
  have hmap : ((List.range count.toNat).map fun k => (⟨p.nextId + k, false⟩ : CpuWorker)).map CpuWorker.id =
      (List.range count.toNat).map (p.nextId + ·) := by
    rw [List.map_map]
    rfl
  constructor
  · show ((p.workers ++ _).map CpuWorker.id).Nodup
    rw [List.map_append, hmap, List.nodup_append]
    refine ⟨h.1, List.nodup_range.map fun a b => Nat.add_left_cancel, fun a ha b hb => ?_⟩
    obtain ⟨w, hw, rfl⟩ := List.mem_map.1 ha
    obtain ⟨k, -, rfl⟩ := List.mem_map.1 hb
    have := h.2 w hw
    omega
  · intro w hw
    show w.id < p.nextId + count.toNat
    obtain hw | hw := List.mem_append.1 hw
    · have := h.2 w hw
      omega
    · obtain ⟨k, hk, rfl⟩ := List.mem_map.1 hw
      have := List.mem_range.1 hk
      show p.nextId + k < _
      omega

theorem Distinct.setBusy {p : WorkerPool} (h : Distinct p) (id : ℕ) (isBusy : Bool) : Distinct (p.setBusy id isBusy) := by
  have hid : ∀ w : CpuWorker, (if w.id = id then { w with isBusy := isBusy } else w).id = w.id := by
    intro w
    split_ifs <;> rfl
  constructor
  · have hmap : (p.setBusy id isBusy).workers.map CpuWorker.id = p.workers.map CpuWorker.id := by
      show (p.workers.map _).map _ = _
      rw [List.map_map]
      exact List.map_congr_left fun w _ => hid w
    rw [hmap]
    exact h.1
  · intro w hw
    obtain ⟨v, hv, rfl⟩ := List.mem_map.1 hw
    rw [hid v]
    exact h.2 v hv

/-- What retirement checks keep: of the workers and of those to go as many are left out, and no worker is new. -/
structure Fewer (p q : WorkerPool) : Prop where
  /-- Each that went was to go. -/
  settled : q.workers.length + p.pending = p.workers.length + q.pending
  pending_le : q.pending ≤ p.pending
  sublist : q.workers.Sublist p.workers
  nextId : q.nextId = p.nextId

theorem Fewer.refl (p : WorkerPool) : Fewer p p := ⟨rfl, le_rfl, List.Sublist.refl _, rfl⟩

theorem Fewer.trans {p q r : WorkerPool} (h : Fewer p q) (h' : Fewer q r) : Fewer p r :=
  ⟨by have := h.settled; have := h'.settled; omega, h'.pending_le.trans h.pending_le, h'.sublist.trans h.sublist,
    h'.nextId.trans h.nextId⟩

theorem Fewer.distinct {p q : WorkerPool} (h : Fewer p q) (hp : Distinct p) : Distinct q :=
  ⟨hp.1.sublist (h.sublist.map _), fun w hw => h.nextId ▸ hp.2 w (h.sublist.subset hw)⟩

/-- After a check no one is to go, or this worker is not idle. -/
theorem fewer_retire {p : WorkerPool} (hp : Distinct p) (id : ℕ) :
    Fewer p (p.retireIdleWorkerIfScheduled id).1 ∧
      ((p.retireIdleWorkerIfScheduled id).1.pending = 0 ∨
        (⟨id, false⟩ : CpuWorker) ∉ (p.retireIdleWorkerIfScheduled id).1.workers) := by
  obtain ⟨hstay, hnone⟩ | ⟨hpos, left, hsub, hlength, hgone, hleft⟩ := retire_cases p hp.1 id
  · rw [hstay]
    exact ⟨Fewer.refl p, hnone⟩
  · rw [hgone]
    refine ⟨⟨?_, Nat.sub_le _ _, hsub, rfl⟩, .inr fun hmem => hleft _ hmem rfl⟩
    show left.length + p.pending = p.workers.length + (p.pending - 1)
    omega

/-- **After all checks no one is to go, or no worker is idle.** -/
theorem fewer_applyDeferred {p : WorkerPool} (hp : Distinct p) :
    Fewer p p.applyDeferredRemovals ∧
      (p.applyDeferredRemovals.pending = 0 ∨ ∀ w ∈ p.applyDeferredRemovals.workers, w.isBusy = true) := by
  have hfold : ∀ (snapshot : List CpuWorker) (q : WorkerPool), Distinct q →
      Fewer q (snapshot.foldl (fun q w => (q.retireIdleWorkerIfScheduled w.id).1) q) ∧
        ((snapshot.foldl (fun q w => (q.retireIdleWorkerIfScheduled w.id).1) q).pending = 0 ∨
          ∀ w ∈ snapshot, (⟨w.id, false⟩ : CpuWorker) ∉
            (snapshot.foldl (fun q w => (q.retireIdleWorkerIfScheduled w.id).1) q).workers) := by
    intro snapshot
    induction snapshot with
    | nil => exact fun q _ => ⟨Fewer.refl q, .inr fun w hw => (by cases hw)⟩
    | cons w snapshot ih =>
      intro q hq
      obtain ⟨hfirst, hcheck⟩ := fewer_retire hq w.id
      obtain ⟨hrest, hchecks⟩ := ih _ (hfirst.distinct hq)
      rw [List.foldl_cons]
      refine ⟨hfirst.trans hrest, ?_⟩
      obtain hzero | hidle := hcheck
      · exact .inl (Nat.le_zero.1 (hzero ▸ hrest.pending_le))
      · refine hchecks.imp_right fun hall => ?_
        rintro v (_ | ⟨_, hv⟩)
        · exact fun hmem => hidle (hrest.sublist.subset hmem)
        · exact hall v hv
  obtain ⟨hfewer, hchecks⟩ := hfold p.workers p hp
  refine ⟨hfewer, hchecks.imp_right fun hall w hw => ?_⟩
  by_contra hidle
  have hw' : w = ⟨w.id, false⟩ := by
    cases w
    simpa using hidle
  exact hall w (hfewer.sublist.subset hw) (hw' ▸ hw)

/-- A reconcile settles at the size it asks for. -/
theorem reconcile_spec {p : WorkerPool} (hp : Distinct p) (desired : ℤ) :
    Distinct (p.reconcileCpuWorkers desired) ∧
      ((p.reconcileCpuWorkers desired).workers.length : ℤ) = max 0 desired + (p.reconcileCpuWorkers desired).pending := by
  unfold WorkerPool.reconcileCpuWorkers
  dsimp only
  split_ifs with hmore hless
  · refine ⟨(hp.sublist (List.Sublist.refl _) _).addWorkers _, ?_⟩
    show ((p.workers ++ _).length : ℤ) = _ + (p.pending - _ : ℕ)
    rw [List.length_append, List.length_map, List.length_range]
    omega
  · obtain ⟨hsum, hlength, hpending, hsub, hnext⟩ :=
      removeWorkers_spec p (p.workers.length - p.pending - max 0 desired)
    refine ⟨⟨hp.1.sublist (hsub.map _), fun w hw => hnext ▸ hp.2 w (hsub.subset hw)⟩, ?_⟩
    rw [hpending]
    omega
  · exact ⟨hp, by omega⟩

/-! ### Runs -/

/-- The pool has the workers asked for and those to go. -/
structure Inv (s : Asked) : Prop where
  distinct : Distinct s.pool
  /-- Those to go are there. -/
  pending_le : s.pool.pending ≤ s.pool.workers.length
  length_eq : (s.pool.workers.length : ℤ) = s.asked + s.pool.pending
  /-- No request was for more than there are. -/
  wanted_eq : (s.wanted : ℤ) = s.asked

theorem Inv.initial (count : ℤ) : Inv (Asked.initial count) := by
  have hnone : Distinct ⟨[], 0, 0⟩ := ⟨List.nodup_nil, fun w hw => (by cases hw)⟩
  refine ⟨hnone.addWorkers count, Nat.zero_le _, ?_, rfl⟩
  show (([] ++ _ : List CpuWorker).length : ℤ) = count.toNat + (0 : ℕ)
  rw [List.nil_append, List.length_map, List.length_range]
  omega

theorem Inv.fewer {s : Asked} (h : Inv s) {q : WorkerPool} (hq : Fewer s.pool q) : Inv { s with pool := q } := by
  have hsettled := hq.settled
  have hle := h.pending_le
  have hlength := h.length_eq
  have hpending := hq.pending_le
  exact ⟨hq.distinct h.distinct, by show q.pending ≤ q.workers.length; omega,
    by show (q.workers.length : ℤ) = s.asked + q.pending; omega, h.wanted_eq⟩

theorem Inv.setBusy {s : Asked} (h : Inv s) (id : ℕ) (isBusy : Bool) : Inv { s with pool := s.pool.setBusy id isBusy } := by
  have hlength : (s.pool.setBusy id isBusy).workers.length = s.pool.workers.length := List.length_map _
  exact ⟨h.distinct.setBusy id isBusy, hlength ▸ h.pending_le, hlength ▸ h.length_eq, h.wanted_eq⟩

/-- **Each step within bounds keeps it.** -/
theorem Inv.step {s s' : Asked} {e : PoolEvent} (hw : Within s e) (hs : step s e = some s') (h : Inv s) : Inv s' := by
  have hle := h.pending_le
  have hlength := h.length_eq
  have hwanted := h.wanted_eq
  cases e with
  | add count =>
    obtain rfl := Option.some.inj hs
    have hadd : (s.pool.addWorkers count).1.workers.length = s.pool.workers.length + count.toNat := by
      show (s.pool.workers ++ _).length = _
      rw [List.length_append, List.length_map, List.length_range]
    refine ⟨h.distinct.addWorkers count, ?_, ?_, ?_⟩
    · show s.pool.pending ≤ (s.pool.addWorkers count).1.workers.length
      omega
    · show ((s.pool.addWorkers count).1.workers.length : ℤ) = s.asked + count.toNat + s.pool.pending
      omega
    · show ((s.wanted + count.toNat : ℕ) : ℤ) = s.asked + count.toNat
      omega
  | remove count =>
    obtain rfl := Option.some.inj hs
    obtain ⟨hsum, hremoved, hpending, hsub, hnext⟩ := removeWorkers_spec s.pool count
    have hfits : min count.toNat s.pool.workers.length + s.pool.pending ≤ s.pool.workers.length := by
      obtain hzero | hwithin := hw <;> omega
    refine ⟨⟨h.distinct.1.sublist (hsub.map _), fun w hw => hnext ▸ h.distinct.2 w (hsub.subset hw)⟩, ?_, ?_, ?_⟩
    all_goals
      dsimp only
      omega
  | reconcile desired =>
    obtain rfl := Option.some.inj hs
    obtain ⟨hdistinct, hsize⟩ := reconcile_spec h.distinct desired
    refine ⟨hdistinct, ?_, hsize, ?_⟩
    all_goals
      dsimp only
      omega
  | assign id =>
    simp only [MediaPreview.Pool.step, Option.ite_none_right_eq_some] at hs
    obtain ⟨-, hs⟩ := hs
    exact Option.some.inj hs ▸ h.setBusy id true
  | complete id =>
    simp only [MediaPreview.Pool.step, Option.ite_none_right_eq_some] at hs
    obtain ⟨-, hs⟩ := hs
    exact Option.some.inj hs ▸ h.setBusy id false
  | retire id =>
    obtain rfl := Option.some.inj hs
    exact h.fewer (fewer_retire h.distinct id).1
  | applyDeferred =>
    obtain rfl := Option.some.inj hs
    exact h.fewer (fewer_applyDeferred h.distinct).1

/-- What is promised of a pool at any point. -/
structure Settles (s : Asked) : Prop where
  /-- Those to go are workers of the pool. -/
  pending_le : s.pool.pending ≤ s.pool.workers.length
  /-- After the retirement checks they are busy. -/
  busy : s.pool.applyDeferredRemovals.pending ≤ s.pool.applyDeferredRemovals.busy
  /-- Once no task runs, the checks leave as many workers as asked for. -/
  settles : (∀ w ∈ s.pool.workers, w.isBusy = false) → (s.pool.applyDeferredRemovals.workers.length : ℤ) = s.asked
  /-- No worker goes for a request that is met. -/
  unmet : ∀ id, (s.pool.retireIdleWorkerIfScheduled id).2 = true → s.wanted < s.pool.workers.length

theorem Inv.settles {s : Asked} (h : Inv s) : Settles s := by
  have hlength := h.length_eq
  have hwanted := h.wanted_eq
  obtain ⟨hfewer, hchecks⟩ := fewer_applyDeferred h.distinct
  have hsettled := hfewer.settled
  have hle := (h.fewer hfewer).pending_le
  refine ⟨h.pending_le, ?_, fun hidle => ?_, fun id hgone => ?_⟩
  · obtain hzero | hbusy := hchecks
    · omega
    · rwa [WorkerPool.busy, List.countP_eq_length.2 hbusy]
  · have hzero : s.pool.applyDeferredRemovals.pending = 0 := by
      refine hchecks.elim id fun hbusy => ?_
      have hnone : s.pool.applyDeferredRemovals.workers = [] := by
        rw [List.eq_nil_iff_forall_not_mem]
        intro w hw
        have hfalse := hidle w (hfewer.sublist.subset hw)
        rw [hbusy w hw] at hfalse
        cases hfalse
      dsimp only at hle
      rw [hnone] at hle
      exact Nat.le_zero.1 hle
    omega
  · obtain ⟨hstay, -⟩ | ⟨hpos, -⟩ := retire_cases s.pool h.distinct.1 id
    · rw [hstay] at hgone
      cases hgone
    · omega

/-- **A pool without groups settles at the size asked for**, as long as no request to remove workers is for more than are
not yet due to go. -/
theorem settles_of_run {count : ℤ} {es : List PoolEvent} {s : Asked} (h : Runs step Within (Asked.initial count) es s) :
    Settles s :=
  (h.keeps (Inv.initial count) fun _ _ _ hw hs hi => hi.step hw hs).settles

/-- A worker is given a task, asked to go and done. -/
def deferred : List PoolEvent := [.assign 0, .remove 1, .complete 0]

/-- A worker is asked to go twice, and another is added when it is gone. -/
def askedTwice : List PoolEvent := [.assign 0, .remove 1, .remove 1, .complete 0, .applyDeferred]

/-- A state some events lead to. -/
def after (count : ℤ) (es : List PoolEvent) : Asked := (exec step (Asked.initial count) es).getD (Asked.initial count)

theorem runs_deferred : Runs step Within (Asked.initial 1) deferred (after 1 deferred) :=
  .cons trivial rfl (.cons (.inl rfl) rfl (.cons trivial rfl (.nil _)))

theorem settles_deferred : Settles (after 1 deferred) := settles_of_run runs_deferred

/-- Between a task's end and the retirement check the count is over the busy workers, and a request for a worker that is
due to go leaves a count for which a later one goes. -/
theorem not_settles_askedTwice :
    (Runs step Within (Asked.initial 1) deferred (after 1 deferred) ∧
      (after 1 deferred).pool.busy < (after 1 deferred).pool.pending) ∧
    (Runs step Any (Asked.initial 1) askedTwice (after 1 askedTwice) ∧
      (∀ w ∈ (after 1 askedTwice).pool.workers, w.isBusy = false) ∧
      ((after 1 askedTwice).pool.applyDeferredRemovals.workers.length : ℤ) ≠ (after 1 askedTwice).asked) ∧
    Runs step Any (Asked.initial 1) (askedTwice ++ [.add 1]) (after 1 (askedTwice ++ [.add 1])) ∧
      ((after 1 (askedTwice ++ [.add 1])).pool.retireIdleWorkerIfScheduled 1).2 = true ∧
      ¬(after 1 (askedTwice ++ [.add 1])).wanted < (after 1 (askedTwice ++ [.add 1])).pool.workers.length :=
  ⟨⟨runs_deferred, by decide⟩,
    ⟨Runs.of_exec (fun _ _ _ => trivial) rfl, by decide, by decide⟩,
    Runs.of_exec (fun _ _ _ => trivial) rfl, by decide, by decide⟩

end MediaPreview.Pool
