import MediaPreview.Nodes.Tasks
import Mathlib.Data.List.Perm.Subperm

/-!
# Starts of deleted tasks

What a delete is worth to a start of the same id. A delete of an id the table does not know is remembered, for
`DELETED_ID_KEEP_S` and as long as fewer than `DELETED_IDS_MAX` other ids are deleted, and no start of the id begins
an op meanwhile (`Remembers.not_begins`). A delete that finds its task only drops it: the same start, delivered again,
then runs the file again, beside the first op if that has not returned (`deleted_runs_again`).

The first defect needs a start that comes again: where no start of an id comes to its second critical section within
`DELETED_ID_KEEP_S` of a delete that found its task, nor while an op of the id runs whose task was dropped (`NotAgain`),
no deleted id begins an op, and an op is alone with its id (`deleted_refused`).
-/

namespace MediaPreview.Nodes

namespace TaskTable

variable {κ : Type*} {cfg : TableConfig} {s s' : TaskTable κ} {e : TaskEvent κ} {es : List (TaskEvent κ)}

/-- The ids deleted in a run. -/
def deletedIds (es : List (TaskEvent κ)) : List κ :=
  es.filterMap fun
    | .delete id => some id
    | _ => none

/-- An id's delete is remembered from `t` or later, and only `others` were deleted after it. -/
def Remembers (id : κ) (t : ℕ) (others : List κ) (s : TaskTable κ) : Prop :=
  ∃ before t' after, s.deletedUnknown = before ++ (id, t') :: after ∧ t ≤ t' ∧ (after.map Prod.fst).Nodup ∧
    ∀ d ∈ after, d.1 ∈ others ∧ d.1 ≠ id

variable {id : κ} {t : ℕ} {others : List κ}

theorem Remembers.mem (h : Remembers id t others s) : id ∈ s.deletedUnknown.map Prod.fst := by
  obtain ⟨before, t', after, heq, -⟩ := h
  rw [heq]
  simp

theorem Remembers.of_eq (h : Remembers id t others s) (heq : s'.deletedUnknown = s.deletedUnknown) :
    Remembers id t others s' := by
  obtain ⟨before, t', after, hs, hrest⟩ := h
  exact ⟨before, t', after, heq.trans hs, hrest⟩

/-- What is not past its time outlives the purge. -/
theorem Remembers.purge (h : Remembers id t others s) (ht : s.clock < t + deletedIdKeep)
    (heq : s'.deletedUnknown = TaskTable.purge s.clock s.deletedUnknown) : Remembers id t others s' := by
  obtain ⟨before, t', after, hs, htt, hrest⟩ := h
  have hpos : 0 < deletedIdKeep := by decide
  have hkeep : decide (deletedIdKeep ≤ s.clock - t') = false := decide_eq_false (by omega)
  have hdrop : ((id, t') :: after).dropWhile (fun d => decide (deletedIdKeep ≤ s.clock - d.2)) = (id, t') :: after := by
    rw [List.dropWhile_cons]
    exact if_neg (by rw [hkeep]; exact Bool.false_ne_true)
  refine ⟨before.dropWhile fun d => decide (deletedIdKeep ≤ s.clock - d.2), t', after, ?_, htt, hrest⟩
  rw [heq, hs, TaskTable.purge, List.dropWhile_append, hdrop]
  split
  · next hnil => rw [List.isEmpty_iff.1 hnil, List.nil_append]
  · rfl

variable [DecidableEq κ]

/-- Another id's delete leaves it remembered while there is room. -/
theorem Remembers.remember {id' : κ} (s s' : TaskTable κ) (h : Remembers id t others s) (hne : id' ≠ id) (hmem : id' ∈ others)
    (hroom : others.dedup.length < deletedIdsMax)
    (heq : s'.deletedUnknown = TaskTable.remember s.clock id' s.deletedUnknown) : Remembers id t others s' := by
  obtain ⟨before, t', after, hs, htt, hnd, hafter⟩ := h
  set p : κ × ℕ → Bool := fun d => decide (d.1 ≠ id') with hp
  set after' := after.filter p ++ [(id', s.clock)] with hafter'
  have hfilter : s.deletedUnknown.filter p ++ [(id', s.clock)] = before.filter p ++ (id, t') :: after' := by
    have hkeep : p (id, t') = true := decide_eq_true (Ne.symm hne)
    rw [hs, List.filter_append, List.filter_cons, if_pos hkeep, List.append_assoc, List.cons_append, hafter']
  have hafter₂ : ∀ d ∈ after', d.1 ∈ others ∧ d.1 ≠ id := by
    intro d hd
    rcases List.mem_append.1 hd with hd | hd
    · exact hafter d (List.mem_of_mem_filter hd)
    · obtain rfl := List.mem_singleton.1 hd
      exact ⟨hmem, hne⟩
  have hnd' : (after'.map Prod.fst).Nodup := by
    rw [hafter', List.map_append, List.nodup_append]
    refine ⟨hnd.sublist (List.filter_sublist.map _), List.nodup_singleton _, ?_⟩
    intro a ha b hb
    obtain ⟨d, hd, rfl⟩ := List.mem_map.1 ha
    rw [List.map_singleton, List.mem_singleton] at hb
    rw [hb]
    exact of_decide_eq_true (List.mem_filter.1 hd).2
  have hlen : after'.length < deletedIdsMax := by
    have hsub : (after'.map Prod.fst).Subperm others.dedup := by
      refine hnd'.subperm fun a ha => ?_
      obtain ⟨d, hd, rfl⟩ := List.mem_map.1 ha
      exact List.mem_dedup.2 (hafter₂ d hd).1
    have hle := hsub.length_le
    rw [List.length_map] at hle
    omega
  refine ⟨(before.filter p).drop ((before.filter p ++ (id, t') :: after').length - deletedIdsMax), t', after', ?_, htt,
    hnd', hafter₂⟩
  rw [heq, TaskTable.remember, ← hp, hfilter, List.drop_append_of_le_length]
  rw [List.length_append, List.length_cons]
  omega

/-- A delete of the id itself is remembered anew. -/
theorem remembers_remember (s s' : TaskTable κ) (others : List κ) (ht : t ≤ s.clock)
    (heq : s'.deletedUnknown = TaskTable.remember s.clock id s.deletedUnknown) : Remembers id t others s' := by
  set l := s.deletedUnknown.filter fun d => decide (d.1 ≠ id) with hl
  have hlen : (l ++ [(id, s.clock)]).length - deletedIdsMax ≤ l.length := by
    rw [List.length_append, List.length_singleton, deletedIdsMax]
    omega
  refine ⟨l.drop ((l ++ [(id, s.clock)]).length - deletedIdsMax), s.clock, [], ?_, ht, List.nodup_nil,
    fun d hd => absurd hd List.not_mem_nil⟩
  rw [heq, TaskTable.remember, ← hl, List.drop_append_of_le_length hlen]

/-! ### Steps -/

theorem clock_le_of_step (h : step cfg s e = some s') : s.clock ≤ s'.clock := by
  cases moves_of_step h with
  | tick n => exact Nat.le_add_right _ _
  | _ => exact le_rfl

/-- **A step forgets no delete** before its time, while there is room. -/
theorem Remembers.step (h : Remembers id t others s) (hstep : step cfg s e = some s') (hroom : others.dedup.length < deletedIdsMax)
    (hother : ∀ id', e = .delete id' → id' ≠ id → id' ∈ others) (ht : t ≤ s.clock) (hin : s.clock < t + deletedIdKeep) :
    Remembers id t others s' := by
  cases moves_of_step hstep with
  | known id' hs => exact h.purge hin rfl
  | checked id' hs => exact h.purge hin rfl
  | abandoned id' tempDir ok hm hs => exact h.purge hin rfl
  | added id' tempDir ok hm hs hd htable => exact h.purge hin rfl
  | remembered id' htable =>
    by_cases hid : id' = id
    · subst hid
      refine remembers_remember s _ others ht ?_
      dsimp only
    · refine Remembers.remember s _ h hid (hother id' rfl hid) hroom ?_
      dsimp only
  | _ => exact h.of_eq rfl

/-- What begins an op is a start's second critical section, and its id is not remembered there. -/
theorem exists_register_of_begins (hstep : TaskTable.step cfg s e = some s') (hbegins : Begins s s' id) :
    (∃ d ok, e = .register id d ok) ∧ id ∉ (TaskTable.purge s.clock s.deletedUnknown).map Prod.fst := by
  obtain ⟨task, hnone, hsome, hid, -⟩ := hbegins
  have hsame : s'.tasks s.taskCount ≠ none := by
    rw [hsome]
    exact Option.some_ne_none task
  have hupdate : ∀ {k f}, (s.update k f).tasks s.taskCount = none := by
    intro k f
    by_cases hk : s.taskCount = k
    · rw [← hk, tasks_update_self, hnone, Option.map_none]
    · rw [tasks_update_of_ne s hk, hnone]
  cases moves_of_step hstep with
  | added id' tempDir ok hm hs hd htable =>
    simp only [add, Function.update_self, Option.some.injEq] at hsome
    obtain rfl : id' = id := by rw [← hid, ← hsome]
    exact ⟨⟨tempDir, ok, rfl⟩, hd⟩
  | opReturned k task' hk hr => exact absurd hupdate hsame
  | finished k task' hk hr => exact absurd hupdate hsame
  | looked k task' hk hr => exact absurd hupdate hsame
  | threadRemoved k task' hk hr => exact absurd hupdate hsame
  | touched id' k hk => exact absurd hupdate hsame
  | discarded k task' hk hp hf => exact absurd hupdate hsame
  | discardedFinished k task' hk hp hf => exact absurd hupdate hsame
  | _ => exact absurd hnone hsame

/-- **No start of a remembered id begins an op.** -/
theorem Remembers.not_begins (h : Remembers id t others s) (hstep : TaskTable.step cfg s e = some s')
    (hin : s.clock < t + deletedIdKeep) : ¬ Begins s s' id := by
  intro hbegins
  have hkept : Remembers id t others { s with deletedUnknown := TaskTable.purge s.clock s.deletedUnknown } := h.purge hin rfl
  exact (exists_register_of_begins hstep hbegins).2 hkept.mem

/-- What is remembered stays so in a run that is over in time and deletes few other ids. -/
theorem Remembers.run {C : TaskTable κ → TaskEvent κ → Prop} (h : Remembers id t others s) (hrun : Runs (TaskTable.step cfg) C s es s')
    (hroom : others.dedup.length < deletedIdsMax) (hother : ∀ id' ∈ deletedIds es, id' ≠ id → id' ∈ others)
    (ht : t ≤ s.clock) (hin : s'.clock < t + deletedIdKeep) : Remembers id t others s' ∧ s.clock ≤ s'.clock := by
  induction hrun with
  | nil s => exact ⟨h, le_rfl⟩
  | @cons s s₁ s' e es hc hstep hr ih =>
    have hle := clock_le_of_step hstep
    have hle' : s₁.clock ≤ s'.clock := by
      clear ih h hother ht hin hle hstep hc
      induction hr with
      | nil s => exact le_rfl
      | cons _ hstep _ ih => exact Nat.le_trans (clock_le_of_step hstep) ih
    have hdel : ∀ id', e = .delete id' → id' ∈ deletedIds (e :: es) := by
      rintro id' rfl
      exact .head _
    have hkept := h.step hstep hroom (fun id' he hne => hother id' (hdel id' he) hne) ht (by omega)
    have hrest : ∀ id' ∈ deletedIds es, id' ≠ id → id' ∈ others := by
      intro id' hid'
      refine hother id' ?_
      cases e with
      | delete id'' => exact .tail _ hid'
      | _ => exact hid'
    exact ⟨(ih hkept hrest (Nat.le_trans ht hle) hin).1, Nat.le_trans hle hle'⟩

/-! ### Starts that come again -/

/-- A table, and the ids whose delete found their task, and when. -/
abbrev Watched (κ : Type*) := TaskTable κ × List (κ × ℕ)

/-- The table. -/
abbrev Watched.table (w : Watched κ) : TaskTable κ := w.1

/-- The deletes that found their task. -/
abbrev Watched.found (w : Watched κ) : List (κ × ℕ) := w.2

/-- A delete that finds its task is noted. -/
def noteFound (s : TaskTable κ) (found : List (κ × ℕ)) : TaskEvent κ → List (κ × ℕ)
  | .delete id => if (s.table id).isSome then found ++ [(id, s.clock)] else found
  | _ => found

/-- A step of the table, watched. -/
def watch (cfg : TableConfig) : Watched κ → TaskEvent κ → Option (Watched κ) := noting (TaskTable.step cfg) noteFound

/-- No start of an id comes to its second critical section within `DELETED_ID_KEEP_S` of a delete that found its task, nor
while an op of the id runs whose task is out of the table. -/
def NotAgain (w : Watched κ) : TaskEvent κ → Prop
  | .register id _ _ =>
    (∀ d ∈ w.found, d.1 = id → d.2 + deletedIdKeep ≤ w.table.clock) ∧
      ∀ k, Running w.table k id → w.table.table id = some k
  | _ => True

variable {w w' : Watched κ}

theorem step_of_watch (h : watch cfg w e = some w') : TaskTable.step cfg w.table e = some w'.table :=
  (noting_eq_some_iff.1 h).1

/-- A delete that found its task is not forgotten. -/
theorem found_subset_of_watch (h : watch cfg w e = some w') : w.found ⊆ w'.found := by
  rw [Watched.found, Watched.found, (noting_eq_some_iff.1 h).2]
  cases e with
  | delete id =>
    dsimp only [noteFound]
    split_ifs
    · exact List.subset_append_left _ _
    · exact List.Subset.refl _
  | _ => exact List.Subset.refl _

theorem found_subset_of_run {C : Watched κ → TaskEvent κ → Prop} (h : Runs (watch cfg) C w es w') : w.found ⊆ w'.found :=
  h.keeps (I := fun w' => w.found ⊆ w'.found) (List.Subset.refl _) fun _ _ _ _ hstep hsub =>
    List.Subset.trans hsub (found_subset_of_watch hstep)

/-- A watched run is a run. -/
theorem run_of_watch {C : Watched κ → TaskEvent κ → Prop} (h : Runs (watch cfg) C w es w') :
    Runs (TaskTable.step cfg) Any w.table es w'.table := by
  have hany : Runs (noting (TaskTable.step cfg) noteFound) (fun w e => Any w.1 e) w es w' := h.mono fun _ _ _ => trivial
  exact hany.of_noting

/-! ### One op at a time -/

/-- No two ops run for one id. -/
def Single (s : TaskTable κ) : Prop := ∀ id k k', Running s k id → Running s k' id → k = k'

omit [DecidableEq κ] in
theorem running_update {k k' : ℕ} {f : Task κ → Task κ} (h : Running s' k id)
    (htasks : s'.tasks = (s.update k' f).tasks) (hid : ∀ t, (f t).id = t.id)
    (hthread : ∀ t, (f t).thread = .running → t.thread = .running) : Running s k id := by
  obtain ⟨task, hk, hid', hr⟩ := h
  rw [htasks] at hk
  by_cases hkk : k = k'
  · subst hkk
    rw [tasks_update_self, Option.map_eq_some_iff] at hk
    obtain ⟨t₀, ht₀, rfl⟩ := hk
    exact ⟨t₀, ht₀, (hid t₀).symm.trans hid', hthread t₀ hr⟩
  · rw [tasks_update_of_ne s hkk] at hk
    exact ⟨task, hk, hid', hr⟩

omit [DecidableEq κ] in
/-- No op runs that did not. -/
theorem Single.of_running (h : Single s) (hrunning : ∀ k id, Running s' k id → Running s k id) : Single s' :=
  fun id k k' hk hk' => h id k k' (hrunning k id hk) (hrunning k' id hk')

/-- **A start that comes only where no dropped op of its id runs makes no second one**: an op whose task is in the table
keeps a start from its own. -/
theorem Single.step (h : Single s) (hagain : ∀ id' d ok, e = .register id' d ok → ∀ k, Running s k id' → s.table id' = some k)
    (hstep : TaskTable.step cfg s e = some s') : Single s' := by
  cases moves_of_step hstep with
  | added id tempDir ok hm hs hd htable =>
    -- the id's table entry is free, so no op of the id runs
    have hnone : ∀ k, ¬ Running s k id := by
      intro k hk
      have hentry := hagain id tempDir ok rfl k hk
      have hfree : s.table id = none := htable
      rw [hfree] at hentry
      cases hentry
    have hcases : ∀ k id', Running (add { s with deletedUnknown := TaskTable.purge s.clock s.deletedUnknown } id tempDir ok) k id' →
        (k = s.taskCount ∧ id = id') ∨ Running s k id' := by
      rintro k id' ⟨task, hk, hid, hr⟩
      by_cases hnew : k = s.taskCount
      · subst hnew
        simp only [add, Function.update_self, Option.some.injEq] at hk
        exact .inl ⟨rfl, by rw [← hid, ← hk]⟩
      · simp only [add, Function.update_of_ne hnew] at hk
        exact .inr ⟨task, hk, hid, hr⟩
    intro id' k k' hk hk'
    obtain ⟨rfl, rfl⟩ | hk := hcases k id' hk
    · obtain ⟨rfl, -⟩ | hk' := hcases k' _ hk'
      · rfl
      · exact absurd hk' (hnone k')
    · obtain ⟨rfl, rfl⟩ | hk' := hcases k' id' hk'
      · exact absurd hk (hnone k)
      · exact h id' k k' hk hk'
  | opReturned k' t hk hr => exact h.of_running fun _ _ hrun => running_update hrun rfl (fun _ => rfl) (by simp)
  | finished k' t hk hr => exact h.of_running fun _ _ hrun => running_update hrun rfl (fun _ => rfl) (by simp)
  | looked k' t hk hr =>
    refine h.of_running fun _ _ hrun => running_update hrun rfl (fun _ => rfl) fun t ht => ?_
    dsimp only at ht
    split at ht <;> cases ht
  | threadRemoved k' t hk hr => exact h.of_running fun _ _ hrun => running_update hrun rfl (fun _ => rfl) (by simp)
  | touched id k' hk => exact h.of_running fun _ _ hrun => running_update hrun rfl (fun _ => rfl) fun _ ht => ht
  | discarded k' t hk hp hf => exact h.of_running fun _ _ hrun => running_update hrun rfl (fun _ => rfl) fun _ ht => ht
  | discardedFinished k' t hk hp hf =>
    exact h.of_running fun _ _ hrun => running_update hrun rfl (fun _ => rfl) fun _ ht => ht
  | _ => exact h.of_running fun _ _ ⟨t, ht, hrest⟩ => ⟨t, ht, hrest⟩

/-- No two ops run for one id, where no start comes again too soon. -/
theorem single_of_run (h : Runs (watch cfg) NotAgain ⟨empty, []⟩ es w) : Single w.table := by
  refine h.keeps (I := fun w => Single w.table) (fun id k k' hk _ => ?_) fun w e w' hc hstep hs => ?_
  · obtain ⟨t, ht, -⟩ := hk
    cases ht
  · refine hs.step (fun id d ok he => ?_) (step_of_watch hstep)
    subst he
    exact hc.2

/-! ### What a delete is worth -/

/-- **A delete that overtakes its start stops it.** Once an id the table does not know was deleted, no start of it
begins an op for `DELETED_ID_KEEP_S`, as long as fewer than `DELETED_IDS_MAX` other ids are deleted meanwhile. -/
theorem le_deletes_of_begins {s₀ s₁ s₂ s₃ : TaskTable κ} (htable : s₀.table id = none)
    (hdel : TaskTable.step cfg s₀ (.delete id) = some s₁) (hrun : Runs (TaskTable.step cfg) Any s₁ es s₂)
    (hstep : TaskTable.step cfg s₂ e = some s₃) (hbegins : Begins s₂ s₃ id) (hin : s₂.clock < s₀.clock + deletedIdKeep) :
    deletedIdsMax ≤ ((deletedIds es).filter fun id' => id' ≠ id).dedup.length := by
  by_contra hroom
  rw [not_le] at hroom
  have hs₁ : s₁ = { s₀ with deletedUnknown := TaskTable.remember s₀.clock id s₀.deletedUnknown } := by
    cases moves_of_step hdel with
    | deleted id k hk =>
      rw [htable] at hk
      cases hk
    | remembered id hk => rfl
  have hfirst : Remembers id s₀.clock ((deletedIds es).filter fun id' => id' ≠ id) s₁ := by
    refine remembers_remember s₀ s₁ _ le_rfl ?_
    rw [hs₁]
  have hclock : s₁.clock = s₀.clock := by rw [hs₁]
  have hlast := hfirst.run hrun hroom (fun id' hid' hne => List.mem_filter.2 ⟨hid', decide_eq_true hne⟩)
    (Nat.le_of_eq hclock.symm) hin
  exact hlast.1.not_begins hstep hin hbegins

/-- **A deleted task never runs** in a run in which no start of an id comes to its second critical section too soon after a
delete that found its task, or while a dropped op of it runs: once an id was deleted, whether or not the table knew it, no
start of it begins an op for `DELETED_ID_KEEP_S`, as long as fewer than `DELETED_IDS_MAX` other ids are deleted meanwhile;
and no two ops run for one id. -/
theorem deleted_refused (cfg : TableConfig) (es : List (TaskEvent κ)) (w₀ : Watched κ)
    (hrun₀ : Runs (watch cfg) NotAgain ⟨empty, []⟩ es w₀) :
    Single w₀.table ∧
    ∀ (id : κ) (w₁ w₂ w₃ : Watched κ) (es' : List (TaskEvent κ)) (e : TaskEvent κ), watch cfg w₀ (.delete id) = some w₁ →
      Runs (watch cfg) NotAgain w₁ es' w₂ → NotAgain w₂ e → watch cfg w₂ e = some w₃ →
      Begins w₂.table w₃.table id → w₂.table.clock < w₀.table.clock + deletedIdKeep →
      deletedIdsMax ≤ ((deletedIds es').filter fun id' => id' ≠ id).dedup.length := by
  refine ⟨single_of_run hrun₀, fun id w₁ w₂ w₃ es' e hdel hrun hagain hstep hbegins hin => ?_⟩
  cases htable : w₀.table.table id with
  | none =>
    exact le_deletes_of_begins htable (step_of_watch hdel) (run_of_watch hrun) (step_of_watch hstep) hbegins hin
  | some k =>
    -- the delete found its task, so the start that begins the op came too soon
    obtain ⟨⟨d, ok, rfl⟩, -⟩ := exists_register_of_begins (step_of_watch hstep) hbegins
    have hfound : (id, w₀.table.clock) ∈ w₁.found := by
      rw [Watched.found, (noting_eq_some_iff.1 hdel).2, noteFound, if_pos (Option.isSome_of_mem htable)]
      exact List.mem_append_right _ (List.mem_singleton_self _)
    have hlate := hagain.1 _ (found_subset_of_run hrun hfound) rfl
    exact absurd hlate (not_le.2 hin)

/-- A table with task `7` deleted while its op runs. -/
def droppedSeven : Watched ℕ :=
  ⟨{ empty with
      table := Function.update (Function.update (fun _ => none) 7 (some 0)) 7 none
      tasks := Function.update (fun _ => none) 0 (some ⟨7, none, 0, false, 0, .running⟩)
      taskCount := 1
      drops := [.pending 0]
      dirs := Function.update (fun _ => false) 0 true
      dirCount := 1 }, [(7, 0)]⟩

theorem run_droppedSeven : Runs (watch ⟨60, 600⟩) NotAgain ⟨empty, []⟩
    [.check 7, .makeDir 7 true, .register 7 0 true, .delete 7] droppedSeven := by
  have hagain : NotAgain (⟨{ (empty : TaskTable ℕ) with
      starts := [.made 7 0], dirs := Function.update (fun _ => false) 0 true, dirCount := 1 }, []⟩ : Watched ℕ)
      (.register 7 0 true) := by
    refine ⟨fun d hd => absurd hd List.not_mem_nil, fun k hk => ?_⟩
    obtain ⟨t, ht, -⟩ := hk
    cases ht
  exact .cons trivial rfl (.cons trivial rfl (.cons hagain rfl (.cons trivial rfl (.nil _))))

/-- The deleted task's op is the only one of its id, and a start that its delete overtook begins nothing. -/
theorem deleted_refused_droppedSeven : Running droppedSeven.table 0 7 ∧ (∀ k, Running droppedSeven.table k 7 → k = 0) ∧
    ∃ w₁ w₂ : Watched ℕ, watch ⟨60, 600⟩ droppedSeven (.delete 9) = some w₁ ∧
      watch ⟨60, 600⟩ w₁ (.check 9) = some w₂ ∧ ¬ Begins w₁.table w₂.table 9 := by
  obtain ⟨hsingle, hrefused⟩ := deleted_refused ⟨60, 600⟩ _ droppedSeven run_droppedSeven
  have hrunning : Running droppedSeven.table 0 7 := ⟨_, rfl, rfl, rfl⟩
  let w₁ : Watched ℕ := ⟨{ droppedSeven.table with deletedUnknown := [(9, 0)] }, [(7, 0)]⟩
  have hdelete : watch ⟨60, 600⟩ droppedSeven (.delete 9) = some w₁ := rfl
  have hcheck : watch ⟨60, 600⟩ w₁ (.check 9) = some w₁ := rfl
  refine ⟨hrunning, fun k hk => hsingle 7 k 0 hk hrunning, w₁, w₁, hdelete, hcheck, fun hbegins => ?_⟩
  have hroom := hrefused 9 w₁ w₁ w₁ [] (.check 9) hdelete (.nil w₁) trivial hcheck hbegins (by decide)
  exact absurd hroom (by decide)

/-- Deletes of ids the table does not know, one after another. -/
theorem exec_deletes (hs : ∀ id, s.table id = none) (ids : List κ) (hnd : (s.deletedUnknown.map Prod.fst ++ ids).Nodup)
    (hlen : s.deletedUnknown.length + ids.length ≤ deletedIdsMax) :
    exec (TaskTable.step cfg) s (ids.map .delete) =
      some { s with deletedUnknown := s.deletedUnknown ++ ids.map fun id => (id, s.clock) } := by
  induction ids generalizing s with
  | nil => rw [List.map_nil, List.map_nil, List.append_nil, exec]
  | cons id ids ih =>
    have hfilter : s.deletedUnknown.filter (fun d => d.1 ≠ id) = s.deletedUnknown := by
      refine List.filter_eq_self.2 fun d hd => decide_eq_true fun heq => ?_
      have hdisj := (List.nodup_append.1 hnd).2.2 d.1 (List.mem_map_of_mem hd) id (.head _)
      exact hdisj heq
    have hone : TaskTable.step cfg s (.delete id) =
        some { s with deletedUnknown := s.deletedUnknown ++ [(id, s.clock)] } := by
      rw [List.length_cons] at hlen
      have hfew : (s.deletedUnknown ++ [(id, s.clock)]).length - deletedIdsMax = 0 := by
        rw [List.length_append, List.length_singleton]
        omega
      simp only [TaskTable.step, hs, TaskTable.remember, hfilter, hfew, List.drop_zero]
    rw [List.map_cons, exec, hone, Option.bind_some,
      ih (s := { s with deletedUnknown := s.deletedUnknown ++ [(id, s.clock)] }) hs]
    · simp only [List.map_cons, List.append_assoc, List.singleton_append]
    · simpa only [List.map_append, List.map_cons, List.map_nil, List.append_assoc, List.singleton_append] using hnd
    · simp only [List.length_append, List.length_cons, List.length_nil] at hlen ⊢
      omega

/-- A table that was told to delete the ids from `n` on, `count` of them. -/
def crowded (n count : ℕ) : TaskTable ℕ := { empty with deletedUnknown := (List.range' n count).map fun id => (id, 0) }

/-- The first id deleted makes room for the last. -/
theorem step_delete_crowded : TaskTable.step ⟨60, 600⟩ (crowded 0 1024) (.delete 1024) = some (crowded 1 1024) := by
  have hfilter : (crowded 0 1024).deletedUnknown.filter (fun d => d.1 ≠ 1024) = (crowded 0 1024).deletedUnknown := by
    refine List.filter_eq_self.2 fun d hd => decide_eq_true fun heq => ?_
    obtain ⟨id, hid, rfl⟩ := List.mem_map.1 hd
    have hlt := (List.mem_range'_1.1 hid).2
    have heq : id = 1024 := heq
    omega
  have hlast : (crowded 0 1024).deletedUnknown ++ [(1024, 0)] = (0, 0) :: (crowded 1 1024).deletedUnknown := by
    have hrange : List.range' 0 1024 ++ [1024] = 0 :: List.range' 1 1024 :=
      List.range'_append_1 (s := 0) (m := 1024) (n := 1)
    have := congrArg (List.map fun id => (id, 0)) hrange
    rwa [List.map_append] at this
  have hlen : ((0, 0) :: (crowded 1 1024).deletedUnknown).length - deletedIdsMax = 1 := by
    simp [crowded, deletedIdsMax]
  show some { crowded 0 1024 with deletedUnknown := remember 0 1024 (crowded 0 1024).deletedUnknown } = _
  rw [remember, hfilter, hlast, hlen, List.drop_one, List.tail_cons]
  rfl

/-- A start of an id that is not remembered begins its op. -/
theorem start_begins {l : List (ℕ × ℕ)} (hpurge : purge 0 l = l) (hnot : 0 ∉ l.map Prod.fst) :
    ∃ s₂ s₃ : TaskTable ℕ, exec (TaskTable.step ⟨60, 600⟩) { empty with deletedUnknown := l } [.check 0, .makeDir 0 true] = some s₂ ∧
      TaskTable.step ⟨60, 600⟩ s₂ (.register 0 0 true) = some s₃ ∧ s₂.clock = 0 ∧ Begins s₂ s₃ 0 := by
  let s₂ : TaskTable ℕ :=
    { empty with deletedUnknown := l, starts := [.made 0 0], dirs := Function.update (fun _ => false) 0 true, dirCount := 1 }
  have hstart : exec (TaskTable.step ⟨60, 600⟩) { empty with deletedUnknown := l } [.check 0, .makeDir 0 true] = some s₂ := by
    simp [exec, TaskTable.step, empty, hpurge, hnot, s₂]
  have hregister : TaskTable.step ⟨60, 600⟩ s₂ (.register 0 0 true) = some (s₂.add 0 0 true) := by
    simp [TaskTable.step, empty, hpurge, hnot, s₂]
  exact ⟨s₂, s₂.add 0 0 true, hstart, hregister, rfl, ⟨0, none, 0, false, 0, .running⟩, rfl,
    rfl, rfl, rfl⟩

/-- **A delete that finds its task, or one of many, does not stop its start.** Task `7` is deleted while it runs, and its
start, delivered again at the same moment, runs it again beside the first. And an id deleted unknown is forgotten once
as many others as are kept were deleted after it. -/
theorem deleted_runs_again :
    (∃ s₀ s₁ s₂ s₃ : TaskTable ℕ, exec (TaskTable.step ⟨60, 600⟩) empty [.check 7, .makeDir 7 true, .register 7 0 true] = some s₀ ∧
      TaskTable.step ⟨60, 600⟩ s₀ (.delete 7) = some s₁ ∧
      exec (TaskTable.step ⟨60, 600⟩) s₁ [.check 7, .makeDir 7 true] = some s₂ ∧
      TaskTable.step ⟨60, 600⟩ s₂ (.register 7 1 true) = some s₃ ∧ s₂.clock = s₀.clock ∧ Begins s₂ s₃ 7 ∧
      Running s₃ 0 7 ∧ Running s₃ 1 7) ∧
    ∃ s₁ s₂ s₃ : TaskTable ℕ, ∃ es : List (TaskEvent ℕ), TaskTable.step ⟨60, 600⟩ empty (.delete 0) = some s₁ ∧
      exec (TaskTable.step ⟨60, 600⟩) s₁ es = some s₂ ∧
      TaskTable.step ⟨60, 600⟩ s₂ (.register 0 0 true) = some s₃ ∧ s₂.clock = 0 ∧ Begins s₂ s₃ 0 ∧
      ((deletedIds es).filter fun id => id ≠ 0).dedup.length = deletedIdsMax := by
  constructor
  · refine ⟨_, _, _, _, rfl, rfl, rfl, rfl, rfl, ⟨_, rfl, rfl, rfl, rfl⟩, ⟨_, rfl, rfl, rfl⟩, ⟨_, rfl, rfl, rfl⟩⟩
  · have hnd : ([0] ++ List.range' 1 1023).Nodup := List.nodup_range' (s := 0) (n := 1024) ..
    have hmany : exec (TaskTable.step ⟨60, 600⟩) (crowded 0 1) ((List.range' 1 1023).map .delete) = some (crowded 0 1024) :=
      exec_deletes (s := crowded 0 1) (fun _ => rfl) (List.range' 1 1023) hnd (by simp [crowded, deletedIdsMax])
    have hpurge : purge 0 (crowded 1 1024).deletedUnknown = (crowded 1 1024).deletedUnknown := rfl
    have hnot : 0 ∉ (crowded 1 1024).deletedUnknown.map Prod.fst := by
      intro h
      obtain ⟨d, hd, h0⟩ := List.mem_map.1 h
      obtain ⟨id, hid, rfl⟩ := List.mem_map.1 hd
      have hpos := (List.mem_range'_1.1 hid).1
      have h0 : id = 0 := h0
      omega
    obtain ⟨s₂, s₃, hstart, hregister, hclock, hbegins⟩ := start_begins hpurge hnot
    refine ⟨crowded 0 1, s₂, s₃, (List.range' 1 1023).map .delete ++ [.delete 1024, .check 0, .makeDir 0 true], rfl, ?_,
      hregister, hclock, hbegins, ?_⟩
    · rw [exec_append, hmany, Option.bind_some, exec, step_delete_crowded, Option.bind_some]
      exact hstart
    · have hids : deletedIds ((List.range' 1 1023).map .delete ++ [.delete 1024, .check 0, .makeDir 0 true]) =
          List.range' 1 1024 := by
        have hdel : ∀ ids : List ℕ, deletedIds (ids.map .delete) = ids := by
          intro ids
          rw [deletedIds, List.filterMap_map]
          exact List.filterMap_some
        rw [deletedIds, List.filterMap_append, ← deletedIds, hdel]
        exact List.range'_append_1 (s := 1) (m := 1023) (n := 1)
      have hpos : (List.range' 1 1024).filter (fun id => id ≠ 0) = List.range' 1 1024 := by
        refine List.filter_eq_self.2 fun id hid => decide_eq_true fun h0 => ?_
        have hle := (List.mem_range'_1.1 hid).1
        omega
      have hnodup : (List.range' 1 1024).Nodup := List.nodup_range' ..
      rw [hids, hpos, hnodup.dedup, List.length_range']
      rfl

end TaskTable

end MediaPreview.Nodes
