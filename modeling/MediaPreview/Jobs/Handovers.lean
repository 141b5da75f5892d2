import Mathlib.Algebra.BigOperators.Group.List.Basic
import MediaPreview.Jobs.WorkerGroups
import MediaPreview.Lib.Runs

/-!
# Handovers between worker groups

A reconcile leaves each member as many workers that are not to go as its target, and every other worker busy and to go
(`settled_reconcile`); no busy one is removed. A worker is given a task only while its resource has fewer busy workers, of
whatever member, than the open targets on it come to. Both hold in every run of reconciles, assignments, completions and
retirements (`handovers_of_run`).
-/

namespace MediaPreview.Groups

/-! ### Runs of a pool -/

/-- The pool, the ids of all workers made and the last reconcile that was applied, with the GPUs it went by. -/
structure Handover where
  /-- The pool. -/
  pool : WorkerPool
  /-- The ids of the workers, as they were made. -/
  created : List ℕ
  /-- The last reconcile that was applied. -/
  last : Option (Reconcile × List String)

/-- The pool as it is made. -/
def Handover.initial (gpuWorkers cpuWorkers : ℕ) (selectedGpus : List String) : Handover :=
  ⟨.initial gpuWorkers cpuWorkers selectedGpus, List.range (gpuWorkers + cpuWorkers), none⟩

/-- What happens to the pool. -/
inductive HandoverEvent where
  /-- `reconcile_groups`. -/
  | reconcile (r : Reconcile)
  /-- A worker that is available and supports the kind is given a task, at a minute of the week. -/
  | assign (id : ℕ) (kind : JobKind) (now : ℕ)
  /-- A worker's task is over. -/
  | complete (id : ℕ)
  /-- `_retire_idle_worker_if_scheduled`. -/
  | retire (id : ℕ)
  /-- `_apply_deferred_removals`. -/
  | applyDeferred

/-- What an event makes of it. -/
def step (s : Handover) : HandoverEvent → Option Handover
  | .reconcile r =>
    let done := s.pool.reconcileGroups r
    some ⟨done.pool, s.created ++ done.created, if s.pool.isOlder r then s.last else some (r, s.pool.gpusFor r)⟩
  | .assign id kind now =>
    if s.pool.workers.any fun w => w.id = id && w.isAvailable && s.pool.workerSupportsKind w kind now true then
      some { s with pool := s.pool.setBusy id true }
    else none
  | .complete id => some { s with pool := s.pool.setBusy id false }
  | .retire id => some { s with pool := s.pool.retireIdleWorkerIfScheduled id }
  | .applyDeferred => some { s with pool := s.pool.applyDeferredRemovals }

/-- The open targets on a resource, of a reconcile that went by some GPUs. -/
def openTargets (last : Reconcile × List String) (resource : String) : ℕ :=
  (((policiesById last.1.groups).filter fun entry => entry.2.resourceKey = resource).map fun entry =>
    last.1.target last.2 entry.2).sum

/-- The workers of a member that are not to go. -/
def staying (entry : String × Policy) (workers : List Worker) : ℕ :=
  workers.countP fun w => OwnedBy entry w && !w.pendingRemoval

/-- Every busy worker is still there, and busy. -/
def Keeps (workers workers' : List Worker) : Prop :=
  ∀ w ∈ workers, w.isBusy → ∃ w' ∈ workers', w'.id = w.id ∧ w'.isBusy

/-- What a reconcile leaves: of each member as many workers as its target that are not to go, and else only busy ones that
are. -/
structure Settled (target : Policy → ℕ) (members : List (String × Policy)) (workers : List Worker) : Prop where
  staying_eq : ∀ entry ∈ members, staying entry workers = target entry.2
  others : ∀ w ∈ workers, (∃ entry ∈ members, OwnedBy entry w ∧ w.pendingRemoval = false) ∨
    (w.isBusy = true ∧ w.pendingRemoval = true)

/-! ### The budget of a resource -/

theorem get?_sumTargets (target : Policy → ℕ) (byId : List (String × Policy)) (resource : String) :
    (Dict.get? (sumTargets target byId) resource).getD 0 =
      ((byId.filter fun entry => entry.2.resourceKey = resource).map fun entry => target entry.2).sum := by
  have hfold : ∀ (byId : List (String × Policy)) (resources : List (String × ℕ)),
      (Dict.get? (byId.foldl (fun resources entry => Dict.set resources entry.2.resourceKey
          ((Dict.get? resources entry.2.resourceKey).getD 0 + target entry.2)) resources) resource).getD 0 =
        (Dict.get? resources resource).getD 0 +
          ((byId.filter fun entry => entry.2.resourceKey = resource).map fun entry => target entry.2).sum := by
    intro byId
    induction byId with
    | nil => exact fun _ => rfl
    | cons entry byId ih =>
      intro resources
      rw [List.foldl_cons, ih, Dict.get?_set]
      by_cases hkey : entry.2.resourceKey = resource
      · rw [if_pos hkey, List.filter_cons_of_pos (by simpa using hkey), List.map_cons, List.sum_cons, hkey]
        exact add_assoc _ _ _
      · rw [if_neg hkey, List.filter_cons_of_neg (by simpa using hkey)]
  exact (hfold byId []).trans (Nat.zero_add _)

/-! ### Lists -/

/-- Of elements told apart by `f`, the first so many in some order are so many. -/
theorem countP_take {α : Type*} {l sorted : List α} (hsorted : sorted.Perm l) (f : α → ℕ) (hn : (l.map f).Nodup) (n : ℕ) :
    l.countP (fun w => f w ∈ (sorted.take n).map f) = min n l.length := by
  rw [← hsorted.countP_eq, ← hsorted.length_eq, ← List.length_take]
  have hparts : (sorted.map f).Nodup := (hsorted.map f).nodup_iff.2 hn
  rw [← List.take_append_drop n sorted, List.map_append, List.nodup_append] at hparts
  conv_lhs => rw [← List.take_append_drop n sorted]
  rw [List.countP_append, List.take_append_drop]
  have hfirst : (sorted.take n).countP (fun w => f w ∈ (sorted.take n).map f) = (sorted.take n).length :=
    List.countP_eq_length.2 fun w hw => decide_eq_true (List.mem_map_of_mem hw)
  have hrest : (sorted.drop n).countP (fun w => f w ∈ (sorted.take n).map f) = 0 := by
    refine List.countP_eq_zero.2 fun w hw hmem => ?_
    exact hparts.2.2 _ (of_decide_eq_true hmem) _ (List.mem_map_of_mem hw) rfl
  omega

/-- What goes through a map that keeps the ids has them in the same order. -/
theorem sublist_filterMap {g : Worker → Option Worker} (hg : ∀ w w', g w = some w' → w'.id = w.id) (workers : List Worker) :
    ((workers.filterMap g).map Worker.id).Sublist (workers.map Worker.id) := by
  induction workers with
  | nil => exact List.Sublist.refl _
  | cons w workers ih =>
    cases hw : g w with
    | none =>
      rw [List.filterMap_cons_none hw, List.map_cons]
      exact ih.cons _
    | some w' =>
      rw [List.filterMap_cons_some hw, List.map_cons, List.map_cons, hg w w' hw]
      exact ih.cons_cons _

/-! ### The workers of one member -/

theorem retire_cases {w w' : Worker} (h : w.retire = some w') :
    w.isBusy = true ∧ w' = { w with pendingRemoval := true } := by
  unfold Worker.retire at h
  split_ifs at h with hbusy
  exact ⟨hbusy, (Option.some.inj h).symm⟩

/-- **What becomes of a worker**: another member's is left alone, of the member's own a kept one stays and a busy one is
to go. -/
theorem settleWorker_cases {entry : String × Policy} {kept : List ℕ} {w w' : Worker}
    (h : settleWorker entry kept w = some w') :
    (¬OwnedBy entry w ∧ w' = w) ∨
    (OwnedBy entry w ∧ OwnedBy entry w' ∧ w'.id = w.id ∧ w'.isBusy = w.isBusy ∧
      ((w.id ∈ kept ∧ w'.pendingRemoval = false) ∨
        (w.id ∉ kept ∧ w'.isBusy = true ∧ w'.pendingRemoval = true))) := by
  unfold settleWorker at h
  by_cases hown : OwnedBy entry w
  · rw [if_pos hown] at h
    dsimp only at h
    by_cases hkept : w.id ∈ kept
    · rw [if_pos hkept] at h
      obtain rfl := Option.some.inj h
      exact .inr ⟨hown, hown, rfl, rfl, .inl ⟨hkept, rfl⟩⟩
    · rw [if_neg hkept] at h
      obtain ⟨hbusy, rfl⟩ := retire_cases h
      exact .inr ⟨hown, hown, rfl, rfl, .inr ⟨hkept, hbusy, rfl⟩⟩
  · rw [if_neg hown] at h
    exact .inl ⟨hown, (Option.some.inj h).symm⟩

theorem settleWorker_id (entry : String × Policy) (kept : List ℕ) (w w' : Worker)
    (h : settleWorker entry kept w = some w') : w'.id = w.id := by
  obtain ⟨-, rfl⟩ | ⟨-, -, hid, -⟩ := settleWorker_cases h
  · rfl
  · exact hid

theorem settleWorker_busy {entry : String × Policy} {kept : List ℕ} {w : Worker} (h : w.isBusy = true) :
    ∃ w', settleWorker entry kept w = some w' ∧ w'.isBusy = true := by
  unfold settleWorker Worker.retire
  by_cases hown : OwnedBy entry w
  · rw [if_pos hown]
    dsimp only
    by_cases hkept : w.id ∈ kept
    · exact ⟨_, if_pos hkept, h⟩
    · exact ⟨_, (if_neg hkept).trans (if_pos h), h⟩
  · exact ⟨w, if_neg hown, h⟩

/-- A worker of the member stays not to go exactly if it is kept. -/
theorem settleWorker_staying {entry : String × Policy} {kept : List ℕ} (w : Worker) :
    ((settleWorker entry kept w).map fun w' => OwnedBy entry w' && !w'.pendingRemoval).getD false =
      (decide (OwnedBy entry w) && decide (w.id ∈ kept)) := by
  by_cases hown : OwnedBy entry w
  · cases hw : settleWorker entry kept w with
    | none =>
      have hkept : w.id ∉ kept := by
        intro hkept
        rw [settleWorker, if_pos hown] at hw
        exact absurd ((if_pos hkept).symm.trans hw) (by simp)
      simp [hkept]
    | some w' =>
      obtain ⟨hnot, -⟩ | ⟨-, hown', -, -, ⟨hkept, hstay⟩ | ⟨hkept, -, hgo⟩⟩ := settleWorker_cases hw
      · exact absurd hown hnot
      · simp [hown, hown', hkept, hstay]
      · simp [hkept, hgo]
  · rw [settleWorker, if_neg hown]
    simp [hown]

/-- What is another member's is not touched. -/
theorem settleWorker_other {entry other : String × Policy} (hne : entry.1 ≠ other.1) {kept : List ℕ} (w : Worker) :
    ((settleWorker entry kept w).map fun w' => OwnedBy other w' && !w'.pendingRemoval).getD false =
      (decide (OwnedBy other w) && !w.pendingRemoval) := by
  by_cases hown : OwnedBy entry w
  · have hother : ∀ v : Worker, OwnedBy entry v → ¬OwnedBy other v := fun v h h' =>
      hne (Option.some.inj (h.1.symm.trans h'.1))
    cases hw : settleWorker entry kept w with
    | none => simp [hother w hown]
    | some w' =>
      obtain ⟨hnot, -⟩ | ⟨-, hown', -⟩ := settleWorker_cases hw
      · exact absurd hown hnot
      · simp [hother w hown, hother w' hown']
  · rw [settleWorker, if_neg hown]
    rfl

/-- The workers of a pool are told apart by their ids. -/
def Distinct (p : WorkerPool) : Prop := (p.workers.map Worker.id).Nodup ∧ ∀ w ∈ p.workers, w.id < p.nextId

theorem ids_newWorkers (entry : String × Policy) (nextId count : ℕ) :
    (newWorkers entry nextId count).map Worker.id = (List.range count).map (nextId + ·) := by
  rw [newWorkers, List.map_map]
  rfl

theorem mem_newWorkers {entry : String × Policy} {nextId count : ℕ} {w : Worker} (h : w ∈ newWorkers entry nextId count) :
    OwnedBy entry w ∧ w.pendingRemoval = false := by
  obtain ⟨k, -, rfl⟩ := List.mem_map.1 h
  exact ⟨⟨rfl, rfl⟩, rfl⟩

variable {target : Policy → ℕ} {r : Reconciled} {entry : String × Policy}

/-- The workers of the pool, one kind after the other. -/
theorem workers_reconcileMember : (reconcileMember target r entry).pool.workers =
    r.pool.workers.filterMap (settleWorker entry
      (((ownedWorkers entry r.pool.workers).take (target entry.2)).map Worker.id)) ++
    newWorkers entry r.pool.nextId (target entry.2 - (ownedWorkers entry r.pool.workers).length) := rfl

/-- **The member has as many workers as its target that are not to go.** -/
theorem staying_reconcileMember (h : Distinct r.pool) :
    staying entry (reconcileMember target r entry).pool.workers = target entry.2 := by
  have hperm : (ownedWorkers entry r.pool.workers).Perm (r.pool.workers.filter (OwnedBy entry ·)) :=
    List.perm_insertionSort _ _
  have hlength := hperm.length_eq
  have hkept := countP_take hperm Worker.id (h.1.sublist (List.filter_sublist.map _)) (target entry.2)
  have hnew : (newWorkers entry r.pool.nextId (target entry.2 - (ownedWorkers entry r.pool.workers).length)).countP
      (fun w => OwnedBy entry w && !w.pendingRemoval) = target entry.2 - (ownedWorkers entry r.pool.workers).length := by
    refine (List.countP_eq_length.2 fun w hw => ?_).trans (by rw [newWorkers, List.length_map, List.length_range])
    obtain ⟨hown, hstay⟩ := mem_newWorkers hw
    simp [hown, hstay]
  rw [staying, workers_reconcileMember, List.countP_append, hnew, List.countP_filterMap]
  rw [List.countP_filter] at hkept
  have hold : r.pool.workers.countP (fun w => ((settleWorker entry
      (((ownedWorkers entry r.pool.workers).take (target entry.2)).map Worker.id) w).map
        fun w' => OwnedBy entry w' && !w'.pendingRemoval).getD false) = min (target entry.2) (ownedWorkers entry r.pool.workers).length := by
    rw [hlength, ← hkept]
    refine List.countP_congr fun w _ => ?_
    rw [settleWorker_staying, Bool.and_comm]
  rw [hold]
  omega

/-- The other members' workers stay as they were. -/
theorem staying_other {other : String × Policy} (hne : entry.1 ≠ other.1) :
    staying other (reconcileMember target r entry).pool.workers = staying other r.pool.workers := by
  have hnew : (newWorkers entry r.pool.nextId (target entry.2 - (ownedWorkers entry r.pool.workers).length)).countP
      (fun w => OwnedBy other w && !w.pendingRemoval) = 0 := by
    refine List.countP_eq_zero.2 fun w hw hown => ?_
    have hown' : OwnedBy other w := of_decide_eq_true (Bool.and_eq_true _ _ ▸ hown).1
    exact hne (Option.some.inj ((mem_newWorkers hw).1.1.symm.trans hown'.1))
  rw [staying, workers_reconcileMember, List.countP_append, hnew, List.countP_filterMap, Nat.add_zero]
  exact List.countP_congr fun w _ => by rw [settleWorker_other hne]

/-- A worker after it is another member's as before, or the member's and staying, or busy and to go. -/
theorem mem_reconcileMember {w : Worker} (h : w ∈ (reconcileMember target r entry).pool.workers) :
    (w ∈ r.pool.workers ∧ ¬OwnedBy entry w) ∨ (OwnedBy entry w ∧ w.pendingRemoval = false) ∨
      (w.isBusy = true ∧ w.pendingRemoval = true) := by
  rw [workers_reconcileMember] at h
  obtain h | h := List.mem_append.1 h
  · obtain ⟨v, hv, hsettle⟩ := List.mem_filterMap.1 h
    obtain ⟨hnot, rfl⟩ | ⟨-, hown, -, -, ⟨-, hstay⟩ | ⟨-, hbusy, hgo⟩⟩ := settleWorker_cases hsettle
    · exact .inl ⟨hv, hnot⟩
    · exact .inr (.inl ⟨hown, hstay⟩)
    · exact .inr (.inr ⟨hbusy, hgo⟩)
  · exact .inr (.inl (mem_newWorkers h))

theorem Keeps.trans {workers workers' workers'' : List Worker} (h : Keeps workers workers')
    (h' : Keeps workers' workers'') : Keeps workers workers'' := by
  intro w hw hbusy
  obtain ⟨w', hw', hid, hbusy'⟩ := h w hw hbusy
  obtain ⟨w'', hw'', hid', hbusy''⟩ := h' w' hw' hbusy'
  exact ⟨w'', hw'', hid'.trans hid, hbusy''⟩

theorem keeps_reconcileMember : Keeps r.pool.workers (reconcileMember target r entry).pool.workers := by
  intro w hw hbusy
  obtain ⟨w', hsettle, hbusy'⟩ : ∃ w',
      settleWorker entry (((ownedWorkers entry r.pool.workers).take (target entry.2)).map Worker.id) w = some w' ∧
        w'.isBusy = true := settleWorker_busy hbusy
  refine ⟨w', ?_, settleWorker_id _ _ _ _ hsettle, hbusy'⟩
  rw [workers_reconcileMember]
  exact List.mem_append_left _ (List.mem_filterMap.2 ⟨w, hw, hsettle⟩)

/-- A reconcile in which the ids are told apart, those of the pool and those of the workers it has made. -/
structure Numbered (start : ℕ) (r : Reconciled) : Prop where
  distinct : Distinct r.pool
  created_eq : r.created = (List.range (r.pool.nextId - start)).map (start + ·)
  start_le : start ≤ r.pool.nextId

/-- **Each member keeps the ids apart.** -/
theorem Numbered.member {start : ℕ} (h : Numbered start r) : Numbered start (reconcileMember target r entry) := by
  have hids := ids_newWorkers entry r.pool.nextId (target entry.2 - (ownedWorkers entry r.pool.workers).length)
  have hlength : (newWorkers entry r.pool.nextId (target entry.2 - (ownedWorkers entry r.pool.workers).length)).length =
      target entry.2 - (ownedWorkers entry r.pool.workers).length := by
    rw [newWorkers, List.length_map, List.length_range]
  have hsub := sublist_filterMap (settleWorker_id entry
    (((ownedWorkers entry r.pool.workers).take (target entry.2)).map Worker.id)) r.pool.workers
  have hold : ∀ i ∈ (r.pool.workers.filterMap (settleWorker entry
      (((ownedWorkers entry r.pool.workers).take (target entry.2)).map Worker.id))).map Worker.id, i < r.pool.nextId := by
    intro i hi
    obtain ⟨w, hw, rfl⟩ := List.mem_map.1 (hsub.subset hi)
    exact h.distinct.2 w hw
  have hstart := h.start_le
  refine ⟨⟨?_, fun w hw => ?_⟩, ?_, ?_⟩
  · rw [workers_reconcileMember, List.map_append, List.nodup_append]
    refine ⟨h.distinct.1.sublist hsub, hids ▸ List.nodup_range.map fun a b => Nat.add_left_cancel, ?_⟩
    intro i hi j hj
    have hlt := hold i hi
    rw [hids] at hj
    obtain ⟨k, -, rfl⟩ := List.mem_map.1 hj
    omega
  · show w.id < r.pool.nextId + (newWorkers _ _ _).length
    rw [workers_reconcileMember] at hw
    obtain hw | hw := List.mem_append.1 hw
    · have := hold w.id (List.mem_map_of_mem hw)
      omega
    · have hmem := List.mem_map_of_mem (f := Worker.id) hw
      rw [hids] at hmem
      obtain ⟨k, hk, heq⟩ := List.mem_map.1 hmem
      have := List.mem_range.1 hk
      omega
  · show r.created ++ (newWorkers _ _ _).map Worker.id = (List.range (r.pool.nextId + (newWorkers _ _ _).length - start)).map _
    rw [hids, hlength, h.created_eq, Nat.sub_add_comm hstart, List.range_add, List.map_append, List.map_map]
    congr 1
    refine List.map_congr_left fun k _ => ?_
    show r.pool.nextId + k = start + (r.pool.nextId - start + k)
    omega
  · exact hstart.trans (Nat.le_add_right _ _)

/-! ### All members -/

/-- Some members are settled, and what is left over is another's still to come. -/
structure Underway (target : Policy → ℕ) (done todo : List (String × Policy)) (workers : List Worker) : Prop where
  staying_eq : ∀ entry ∈ done, staying entry workers = target entry.2
  others : ∀ w ∈ workers, (∃ entry ∈ done, OwnedBy entry w ∧ w.pendingRemoval = false) ∨
    (w.isBusy = true ∧ w.pendingRemoval = true) ∨ ∃ entry ∈ todo, OwnedBy entry w

/-- Settling a member settles it, and leaves those before it. -/
theorem Underway.member {done todo : List (String × Policy)} (hn : ((done ++ entry :: todo).map Prod.fst).Nodup)
    (hr : Distinct r.pool) (h : Underway target done (entry :: todo) r.pool.workers) :
    Underway target (done ++ [entry]) todo (reconcileMember target r entry).pool.workers := by
  constructor
  · intro other hother
    obtain hother | hother := List.mem_append.1 hother
    · have hne : entry.1 ≠ other.1 := by
        rw [List.map_append, List.nodup_append] at hn
        exact fun heq => hn.2.2 _ (List.mem_map_of_mem hother) _ (List.mem_map_of_mem (.head _)) heq.symm
      rw [staying_other hne]
      exact h.staying_eq other hother
    · obtain rfl := List.mem_singleton.1 hother
      exact staying_reconcileMember hr
  · intro w hw
    obtain ⟨hold, hnot⟩ | ⟨hown, hstay⟩ | hgo := mem_reconcileMember hw
    · obtain ⟨other, hother, hstays⟩ | hgo | ⟨other, hother, hown⟩ := h.others w hold
      · exact .inl ⟨other, List.mem_append_left _ hother, hstays⟩
      · exact .inr (.inl hgo)
      · obtain rfl | hother := List.mem_cons.1 hother
        · exact absurd hown hnot
        · exact .inr (.inr ⟨other, hother, hown⟩)
    · exact .inl ⟨entry, List.mem_append_right _ (.head _), hown, hstay⟩
    · exact .inr (.inl hgo)

/-- **The loop over the members settles them all**, and keeps busy workers and ids. -/
theorem settled_foldl {start : ℕ} (todo : List (String × Policy)) {done : List (String × Policy)} {r : Reconciled}
    (hn : ((done ++ todo).map Prod.fst).Nodup) (hr : Numbered start r) (h : Underway target done todo r.pool.workers) :
    Settled target (done ++ todo) (todo.foldl (reconcileMember target) r).pool.workers ∧
      Numbered start (todo.foldl (reconcileMember target) r) ∧
      Keeps r.pool.workers (todo.foldl (reconcileMember target) r).pool.workers := by
  induction todo generalizing done r with
  | nil =>
    rw [List.append_nil]
    refine ⟨⟨h.staying_eq, fun w hw => ?_⟩, hr, fun w hw hbusy => ⟨w, hw, rfl, hbusy⟩⟩
    obtain hstay | hgo | ⟨entry, hentry, -⟩ := h.others w hw
    · exact .inl hstay
    · exact .inr hgo
    · cases hentry
  | cons entry todo ih =>
    rw [List.foldl_cons, List.append_cons]
    obtain ⟨hsettled, hnumbered, hkeeps⟩ :=
      ih (List.append_cons done entry todo ▸ hn) hr.member (h.member hn hr.distinct)
    exact ⟨hsettled, hnumbered, keeps_reconcileMember.trans hkeeps⟩

theorem nodup_policiesById (groups : List Group) : ((policiesById groups).map Prod.fst).Nodup :=
  Dict.nodup_update _ List.nodup_nil

theorem retireUnowned_spec {byId : List (String × Policy)} {workers : List Worker} :
    Underway target [] byId (retireUnowned byId workers) ∧ Keeps workers (retireUnowned byId workers) ∧
      ((retireUnowned byId workers).map Worker.id).Sublist (workers.map Worker.id) := by
  refine ⟨⟨fun entry hentry => (by cases hentry), fun w hw => ?_⟩, fun w hw hbusy => ?_, ?_⟩
  · obtain ⟨v, -, hsettle⟩ := List.mem_filterMap.1 hw
    split_ifs at hsettle with hown
    · obtain rfl := Option.some.inj hsettle
      obtain ⟨policy, hpolicy, hresource⟩ := (Option.any_eq_true _ _).1 hown
      obtain ⟨pid, hpid, hget⟩ := Option.bind_eq_some_iff.1 hpolicy
      exact .inr (.inr ⟨(pid, policy), Dict.mem_of_get? hget, hpid, of_decide_eq_true hresource⟩)
    · obtain ⟨hbusy, rfl⟩ := retire_cases hsettle
      exact .inr (.inl ⟨hbusy, rfl⟩)
  · have hretire : w.retire = some { w with pendingRemoval := true } := if_pos hbusy
    by_cases hown : (w.policyId.bind (Dict.get? byId)).any fun policy => w.groupResource = policy.resourceKey
    · exact ⟨w, List.mem_filterMap.2 ⟨w, hw, if_pos hown⟩, rfl, hbusy⟩
    · exact ⟨_, List.mem_filterMap.2 ⟨w, hw, (if_neg hown).trans hretire⟩, rfl, hbusy⟩
  · refine sublist_filterMap (fun w w' h => ?_) workers
    split_ifs at h
    · rw [Option.some.inj h]
    · rw [(retire_cases h).2]

/-- **What a reconcile that is applied leaves.** -/
theorem settled_reconcile {p : WorkerPool} {a : Reconcile} (hp : Distinct p) (h : p.isOlder a = false) :
    Settled (a.target (p.gpusFor a)) (policiesById a.groups) (p.reconcileGroups a).pool.workers ∧
      Numbered p.nextId (p.reconcileGroups a) ∧ Keeps p.workers (p.reconcileGroups a).pool.workers := by
  obtain ⟨hunder, hkeeps, hsub⟩ : Underway (a.target (p.gpusFor a)) [] (policiesById a.groups)
      (retireUnowned (policiesById a.groups) p.workers) ∧
      Keeps p.workers (retireUnowned (policiesById a.groups) p.workers) ∧
      ((retireUnowned (policiesById a.groups) p.workers).map Worker.id).Sublist (p.workers.map Worker.id) :=
    retireUnowned_spec
  have hdistinct : Distinct (p.withTargets a) := by
    refine ⟨hp.1.sublist hsub, fun w hw => ?_⟩
    obtain ⟨v, hv, hid⟩ := List.mem_map.1 (hsub.subset (List.mem_map_of_mem hw))
    exact hid ▸ hp.2 v hv
  have hnumbered : ∀ removed, Numbered p.nextId ⟨p.withTargets a, [], removed⟩ := by
    refine fun removed => ⟨hdistinct, ?_, le_rfl⟩
    show [] = (List.range (p.nextId - p.nextId)).map _
    rw [Nat.sub_self]
    rfl
  rw [WorkerPool.reconcileGroups, h, if_neg Bool.false_ne_true]
  obtain ⟨hsettled, hnumbered, hkeeps'⟩ := settled_foldl (policiesById a.groups) (nodup_policiesById a.groups)
    (hnumbered _) hunder
  exact ⟨hsettled, hnumbered, hkeeps.trans hkeeps'⟩

/-- A reconcile that is applied goes on with its own policies, targets and revision. -/
theorem frame_reconcile {p : WorkerPool} {a : Reconcile} (h : p.isOlder a = false) :
    (p.reconcileGroups a).pool.policies = some (policiesById a.groups) ∧
      (p.reconcileGroups a).pool.resourceTargets = sumTargets (a.target (p.gpusFor a)) (policiesById a.groups) ∧
      (p.reconcileGroups a).pool.groupRevision = (a.revision <|> p.groupRevision) := by
  have hfold : ∀ (todo : List (String × Policy)) (r : Reconciled) (target : Policy → ℕ),
      (todo.foldl (reconcileMember target) r).pool.policies = r.pool.policies ∧
        (todo.foldl (reconcileMember target) r).pool.resourceTargets = r.pool.resourceTargets ∧
        (todo.foldl (reconcileMember target) r).pool.groupRevision = r.pool.groupRevision := by
    intro todo
    induction todo with
    | nil => exact fun _ _ => ⟨rfl, rfl, rfl⟩
    | cons entry todo ih => exact fun r target => ih (reconcileMember target r entry) target
  rw [WorkerPool.reconcileGroups, h, if_neg Bool.false_ne_true]
  exact hfold _ _ _

/-! ### Assignments and retirements -/

/-- **A worker that supports a kind has budget left on its resource.** -/
theorem busyOn_of_supports {p : WorkerPool} {policies : List (String × Policy)} (hp : p.policies = some policies)
    {w : Worker} {kind : JobKind} {now : ℕ} (h : p.workerSupportsKind w kind now true = true) :
    p.busyOn w.groupResource < (Dict.get? p.resourceTargets w.groupResource).getD 0 := by
  unfold WorkerPool.workerSupportsKind at h
  rw [hp] at h
  dsimp only at h
  split_ifs at h
  simpa using h

theorem setBusy_worker_id (id : ℕ) (isBusy : Bool) (w : Worker) :
    (if w.id = id then { w with isBusy := isBusy } else w).id = w.id := by
  split_ifs <;> rfl

theorem Distinct.setBusy {p : WorkerPool} (h : Distinct p) (id : ℕ) (isBusy : Bool) : Distinct (p.setBusy id isBusy) := by
  have hmap : (p.setBusy id isBusy).workers.map Worker.id = p.workers.map Worker.id := by
    show (p.workers.map _).map _ = _
    rw [List.map_map]
    exact List.map_congr_left fun w _ => setBusy_worker_id id isBusy w
  refine ⟨hmap ▸ h.1, fun w hw => ?_⟩
  obtain ⟨v, hv, rfl⟩ := List.mem_map.1 hw
  rw [setBusy_worker_id]
  exact h.2 v hv

/-- A worker that starts a task is one more that is busy on its resource. -/
theorem busyOn_setBusy {p : WorkerPool} (h : Distinct p) {w : Worker} (hw : w ∈ p.workers) (hidle : w.isBusy = false) :
    (p.setBusy w.id true).busyOn w.groupResource = p.busyOn w.groupResource + 1 := by
  obtain ⟨before, after, hsplit⟩ := List.append_of_mem hw
  have hids := h.1
  rw [hsplit, List.map_append, List.map_cons, List.nodup_append, List.nodup_cons] at hids
  obtain ⟨-, ⟨hafter, -⟩, hbefore⟩ := hids
  have hsame : ∀ workers : List Worker, (∀ v ∈ workers, v.id ≠ w.id) →
      (workers.map fun v => if v.id = w.id then { v with isBusy := true } else v) = workers := by
    intro workers hne
    refine (List.map_congr_left fun v hv => if_neg (hne v hv)).trans (List.map_id _)
  have hb := hsame before fun v hv => hbefore _ (List.mem_map_of_mem hv) _ (.head _)
  have ha := hsame after fun v hv heq => hafter (heq ▸ List.mem_map_of_mem hv)
  unfold WorkerPool.busyOn WorkerPool.setBusy
  dsimp only
  rw [hsplit, List.map_append, List.map_cons, hb, ha, if_pos rfl, List.countP_append, List.countP_append,
    List.countP_cons_of_pos (by simp), List.countP_cons_of_neg (by simp [hidle])]
  omega

/-- What retirement checks leave alone. -/
structure Fewer (p q : WorkerPool) : Prop where
  sublist : q.workers.Sublist p.workers
  nextId : q.nextId = p.nextId
  policies : q.policies = p.policies
  resourceTargets : q.resourceTargets = p.resourceTargets
  groupRevision : q.groupRevision = p.groupRevision

theorem fewer_retire (p : WorkerPool) (id : ℕ) : Fewer p (p.retireIdleWorkerIfScheduled id) := by
  unfold WorkerPool.retireIdleWorkerIfScheduled
  split
  · exact ⟨List.Sublist.refl _, rfl, rfl, rfl, rfl⟩
  · split
    · exact ⟨List.Sublist.refl _, rfl, rfl, rfl, rfl⟩
    · split
      · exact ⟨List.eraseP_sublist, rfl, rfl, rfl, rfl⟩
      · split
        · exact ⟨List.Sublist.refl _, rfl, rfl, rfl, rfl⟩
        · exact ⟨List.eraseP_sublist, rfl, rfl, rfl, rfl⟩

theorem fewer_applyDeferred (p : WorkerPool) : Fewer p p.applyDeferredRemovals := by
  have hfold : ∀ (snapshot : List Worker) (q : WorkerPool),
      Fewer q (snapshot.foldl (fun q w => q.retireIdleWorkerIfScheduled w.id) q) := by
    intro snapshot
    induction snapshot with
    | nil => exact fun q => ⟨List.Sublist.refl _, rfl, rfl, rfl, rfl⟩
    | cons w snapshot ih =>
      intro q
      have hfirst := fewer_retire q w.id
      have hrest := ih (q.retireIdleWorkerIfScheduled w.id)
      exact ⟨hrest.sublist.trans hfirst.sublist, hrest.nextId.trans hfirst.nextId, hrest.policies.trans hfirst.policies,
        hrest.resourceTargets.trans hfirst.resourceTargets, hrest.groupRevision.trans hfirst.groupRevision⟩
  exact hfold p.workers p

/-! ### Every run -/

/-- What holds of the pool at any point: ids are handed out one after another, the budgets are those of the last reconcile
that was applied, and no revision was newer than the pool's. -/
structure Inv (es : List HandoverEvent) (s : Handover) : Prop where
  distinct : Distinct s.pool
  created_eq : s.created = List.range s.pool.nextId
  policies : ∀ last, s.last = some last → s.pool.policies = some (policiesById last.1.groups) ∧
    s.pool.resourceTargets = sumTargets (last.1.target last.2) (policiesById last.1.groups)
  revision : ∀ r n, .reconcile r ∈ es → r.revision = some n → ∃ last, s.pool.groupRevision = some last ∧ n ≤ last

theorem Inv.initial (gpuWorkers cpuWorkers : ℕ) (selectedGpus : List String) :
    Inv [] (Handover.initial gpuWorkers cpuWorkers selectedGpus) := by
  have hids : (WorkerPool.initial gpuWorkers cpuWorkers selectedGpus).workers.map Worker.id =
      List.range (gpuWorkers + cpuWorkers) := by
    simp only [WorkerPool.initial, List.map_append, List.map_map, List.range_add]
    congr 1
    exact List.map_id _
  refine ⟨⟨hids ▸ List.nodup_range, fun w hw => ?_⟩, rfl, fun last h => (by cases h), fun r n h => (by cases h)⟩
  exact List.mem_range.1 (hids ▸ List.mem_map_of_mem hw)

theorem Inv.fewer {es : List HandoverEvent} {s : Handover} (h : Inv es s) {q : WorkerPool} (hq : Fewer s.pool q) :
    Inv es { s with pool := q } where
  distinct := ⟨h.distinct.1.sublist (hq.sublist.map _), fun w hw => hq.nextId ▸ h.distinct.2 w (hq.sublist.subset hw)⟩
  created_eq := h.created_eq.trans (congrArg _ hq.nextId.symm)
  policies last hlast := by
    rw [show ({ s with pool := q } : Handover).pool = q from rfl, hq.policies, hq.resourceTargets]
    exact h.policies last hlast
  revision r n hr hn := by
    rw [show ({ s with pool := q } : Handover).pool = q from rfl, hq.groupRevision]
    exact h.revision r n hr hn

theorem Inv.setBusy {es : List HandoverEvent} {s : Handover} (h : Inv es s) (id : ℕ) (isBusy : Bool) :
    Inv es { s with pool := s.pool.setBusy id isBusy } :=
  ⟨h.distinct.setBusy id isBusy, h.created_eq, h.policies, h.revision⟩

theorem Inv.other {es : List HandoverEvent} {s : Handover} (h : Inv es s) {e : HandoverEvent}
    (he : ∀ r, e ≠ .reconcile r) : Inv (es ++ [e]) s := by
  refine ⟨h.distinct, h.created_eq, h.policies, fun r n hr hn => ?_⟩
  obtain hr | hr := List.mem_append.1 hr
  · exact h.revision r n hr hn
  · exact absurd (List.mem_singleton.1 hr).symm (he r)

theorem Inv.reconcile {es : List HandoverEvent} {s : Handover} (h : Inv es s) (a : Reconcile) :
    Inv (es ++ [.reconcile a]) ⟨(s.pool.reconcileGroups a).pool, s.created ++ (s.pool.reconcileGroups a).created,
      if s.pool.isOlder a then s.last else some (a, s.pool.gpusFor a)⟩ := by
  cases hold : s.pool.isOlder a with
  | true =>
    have hsame : s.pool.reconcileGroups a = ⟨s.pool, [], 0⟩ := if_pos hold
    rw [hsame, List.append_nil]
    refine ⟨h.distinct, h.created_eq, h.policies, fun r n hr hn => ?_⟩
    obtain hr | hr := List.mem_append.1 hr
    · exact h.revision r n hr hn
    · obtain rfl : r = a := HandoverEvent.reconcile.inj (List.mem_singleton.1 hr)
      rw [WorkerPool.isOlder, hn, Option.any_some] at hold
      obtain ⟨last, hlast, hlt⟩ := (Option.any_eq_true _ _).1 hold
      exact ⟨last, hlast, (of_decide_eq_true hlt).le⟩
  | false =>
    obtain ⟨-, hnumbered, -⟩ := settled_reconcile h.distinct hold
    obtain ⟨hpolicies, htargets, hrevision⟩ := frame_reconcile hold
    refine ⟨hnumbered.distinct, ?_, ?_, fun r n hr hn => ?_⟩
    · have hle := hnumbered.start_le
      rw [h.created_eq, hnumbered.created_eq]
      conv_rhs => rw [← Nat.add_sub_of_le hle, List.range_add]
    · rintro last hlast
      obtain rfl := Option.some.inj hlast
      exact ⟨hpolicies, htargets⟩
    · rw [hrevision]
      obtain hr | hr := List.mem_append.1 hr
      · obtain ⟨last, hlast, hle⟩ := h.revision r n hr hn
        cases hnew : a.revision with
        | none => exact ⟨last, hlast, hle⟩
        | some m =>
          refine ⟨m, rfl, hle.trans ?_⟩
          rw [WorkerPool.isOlder, hnew, hlast] at hold
          exact le_of_not_gt (of_decide_eq_false hold)
      · obtain rfl : r = a := HandoverEvent.reconcile.inj (List.mem_singleton.1 hr)
        rw [hn]
        exact ⟨n, rfl, le_rfl⟩

/-- **Each step keeps it.** -/
theorem Inv.step {es : List HandoverEvent} {s s' : Handover} {e : HandoverEvent} (h : Inv es s)
    (hs : step s e = some s') : Inv (es ++ [e]) s' := by
  cases e with
  | reconcile a => exact Option.some.inj hs ▸ h.reconcile a
  | assign id kind now =>
    simp only [MediaPreview.Groups.step, Option.ite_none_right_eq_some] at hs
    exact Option.some.inj hs.2 ▸ (h.setBusy id true).other fun r hr => (by cases hr)
  | complete id => exact Option.some.inj hs ▸ (h.setBusy id false).other fun r hr => (by cases hr)
  | retire id => exact Option.some.inj hs ▸ (h.fewer (fewer_retire _ id)).other fun r hr => (by cases hr)
  | applyDeferred => exact Option.some.inj hs ▸ (h.fewer (fewer_applyDeferred _)).other fun r hr => (by cases hr)

/-- Right after an assignment the busy workers on its resource are within the open targets on it. -/
theorem Inv.assign {es : List HandoverEvent} {s s' : Handover} (h : Inv es s) {id : ℕ} {kind : JobKind} {now : ℕ}
    (hs : MediaPreview.Groups.step s (.assign id kind now) = some s') {last : Reconcile × List String}
    (hlast : s.last = some last) {w : Worker} (hw : w ∈ s'.pool.workers) (hid : w.id = id) :
    s'.pool.busyOn w.groupResource ≤ openTargets last w.groupResource := by
  simp only [MediaPreview.Groups.step, Option.ite_none_right_eq_some] at hs
  obtain ⟨hcheck, hs⟩ := hs
  obtain rfl := Option.some.inj hs
  obtain ⟨u, hu, hok⟩ := List.any_eq_true.1 hcheck
  simp only [Bool.and_eq_true, decide_eq_true_eq] at hok
  obtain ⟨⟨hid', havailable⟩, hsupports⟩ := hok
  obtain ⟨v, hv, rfl⟩ := List.mem_map.1 hw
  rw [setBusy_worker_id] at hid
  obtain rfl := List.inj_on_of_nodup_map h.distinct.1 hv hu (hid.trans hid'.symm)
  subst hid
  obtain ⟨hpolicies, htargets⟩ := h.policies last hlast
  have hbudget := busyOn_of_supports hpolicies hsupports
  rw [htargets, get?_sumTargets] at hbudget
  have hidle : v.isBusy = false := by
    simp only [Worker.isAvailable, Bool.and_eq_true, Bool.not_eq_true'] at havailable
    exact havailable.1
  rw [if_pos rfl]
  show (s.pool.setBusy v.id true).busyOn v.groupResource ≤ _
  rw [busyOn_setBusy h.distinct hv hidle]
  exact hbudget

/-- **Handovers stay within budget and drop no task**, from the pool as it is made on: of an assignment, the budget of its
resource; of a reconcile that is applied, each member's workers, and no busy one removed; of an older one, nothing; and
no two workers ever made share an id. -/
theorem handovers_of_run {gpuWorkers cpuWorkers : ℕ} {selectedGpus : List String} {es : List HandoverEvent} {s : Handover}
    (h : Runs step Any (.initial gpuWorkers cpuWorkers selectedGpus) es s) :
    (∀ id kind now s' last, step s (.assign id kind now) = some s' → s.last = some last →
      ∀ w ∈ s'.pool.workers, w.id = id → s'.pool.busyOn w.groupResource ≤ openTargets last w.groupResource) ∧
    (∀ r s', step s (.reconcile r) = some s' → s.pool.isOlder r = false →
      Settled (r.target (s.pool.gpusFor r)) (policiesById r.groups) s'.pool.workers ∧
        Keeps s.pool.workers s'.pool.workers) ∧
    (∀ r r' n n', .reconcile r ∈ es → r.revision = some n → r'.revision = some n' → n' < n →
      step s (.reconcile r') = some s) ∧
    s.created.Nodup ∧ ∀ w ∈ s.pool.workers, w.id ∈ s.created := by
  have hinv : Inv ([] ++ es) s := h.keeps_from (.initial gpuWorkers cpuWorkers selectedGpus)
    fun _ _ _ _ _ hs hi => hi.step hs
  rw [List.nil_append] at hinv
  refine ⟨fun id kind now s' last hs hlast w hw hid => hinv.assign hs hlast hw hid, fun r s' hs hnew => ?_,
    fun r r' n n' hr hn hn' hlt => ?_, hinv.created_eq ▸ List.nodup_range, fun w hw => ?_⟩
  · obtain rfl := Option.some.inj hs
    obtain ⟨hsettled, -, hkeeps⟩ := settled_reconcile hinv.distinct hnew
    exact ⟨hsettled, hkeeps⟩
  · obtain ⟨last, hlast, hle⟩ := hinv.revision r n hr hn
    have hold : s.pool.isOlder r' = true := by
      rw [WorkerPool.isOlder, hn', hlast]
      exact decide_eq_true (hlt.trans_le hle)
    have hsame : s.pool.reconcileGroups r' = ⟨s.pool, [], 0⟩ := if_pos hold
    rw [step, hsame, hold, List.append_nil, if_pos rfl]
  · rw [hinv.created_eq]
    exact List.mem_range.2 (hinv.distinct.2 w hw)

/-- A group with CPU workers that previews may use. -/
def cpuGroup (count : ℕ) (revision : ℤ) : Reconcile where
  groups := [.members ⟨"g", none, none⟩ [⟨"m1", .cpu, none, count, [.previews], none⟩]]
  selectedGpus := none
  nodes := ⟨[], []⟩
  now _ := 0
  revision := some revision

/-- One worker is busy when the group shrinks to one, the other goes and the busy one stays; nothing more is given out. -/
theorem handovers_shrinking :
    let s := (exec step (.initial 0 0 []) [.reconcile (cpuGroup 2 1), .assign 0 .previews 0]).getD (.initial 0 0 [])
    s.pool.busyOn "cpu" = 1 ∧ ((s.pool.reconcileGroups (cpuGroup 1 2)).pool.workers.map Worker.id) = [0] ∧
      Settled ((cpuGroup 1 2).target []) (policiesById (cpuGroup 1 2).groups)
        (s.pool.reconcileGroups (cpuGroup 1 2)).pool.workers ∧
      step s (.reconcile (cpuGroup 2 0)) = some s := by
  intro s
  have hrun : Runs step Any (.initial 0 0 []) [.reconcile (cpuGroup 2 1), .assign 0 .previews 0] s :=
    Runs.of_exec (fun _ _ _ => trivial) rfl
  obtain ⟨-, hreconcile, holder, -⟩ := handovers_of_run hrun
  exact ⟨by decide, by decide, (hreconcile (cpuGroup 1 2) _ rfl (by decide)).1,
    holder (cpuGroup 2 1) (cpuGroup 2 0) 1 0 (.head _) rfl rfl (by decide)⟩

end MediaPreview.Groups
