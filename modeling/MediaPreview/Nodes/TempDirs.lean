import MediaPreview.Nodes.Tasks

/-!
# What a task table leaves behind

Every temp dir is a start's that is under way, or a task's; and it is gone once its task was dropped and the task's
thread is at its end, in whichever order the two came (`Tidy.dir_owned`). Whoever comes second removes it: the drop
tells the task before it looks whether the task is finished, and the thread says so before it looks whether it was
told.

A task of the table is finished, or its thread will finish it, as long as every thread asked for can be made. One that
cannot be made leaves a task in the table that no thread will ever finish (`thread_not_made`).
-/

namespace MediaPreview.Nodes

/-- A task's thread has said the task is finished. -/
def Thread.pastFinish : Thread → Bool
  | .finishing | .removing | .over => true
  | _ => false

namespace TaskTable

variable {κ : Type*} [DecidableEq κ] {cfg : TableConfig} {s s' : TaskTable κ} {e : TaskEvent κ} {es : List (TaskEvent κ)}

/-- Every thread asked for can be made. -/
def ThreadsMade (_ : TaskTable κ) (e : TaskEvent κ) : Prop := ∀ id tempDir, e ≠ .register id tempDir false

/-- What every task's record, temp dir and drop keep to. -/
structure Tidy (s : TaskTable κ) : Prop where
  /-- `close` sets the stop flag before it collects. -/
  stop_of_collected : s.collected = true → s.stop = true
  /-- Tasks are numbered in the order they came. -/
  task_lt : ∀ k t, s.tasks k = some t → k < s.taskCount
  /-- The table's tasks are registered under their ids. -/
  table_task : ∀ id k, s.table id = some k → ∃ t, s.tasks k = some t ∧ t.id = id
  /-- A task's temp dir was made. -/
  dir_lt : ∀ k t, s.tasks k = some t → t.tempDir < s.dirCount
  /-- So was a start's. -/
  start_lt : ∀ id d, .made id d ∈ s.starts → d < s.dirCount
  /-- A temp dir is a start's or a task's. -/
  dir_owner : ∀ d, s.dirs d = true → (∃ id, .made id d ∈ s.starts) ∨ ∃ k t, s.tasks k = some t ∧ t.tempDir = d
  /-- A task is finished once its thread has said so. -/
  finished_iff : ∀ k t, s.tasks k = some t → t.finished.isSome = t.thread.pastFinish
  /-- Every task has a thread. -/
  thread_ne : ∀ k t, s.tasks k = some t → t.thread ≠ .none
  /-- A task that was dropped was told, or is to be. -/
  told : ∀ k t, s.tasks k = some t → s.table t.id ≠ some k → t.discarded = true ∨ .pending k ∈ s.drops
  /-- A task told when its thread was at its end is being removed by the drop. -/
  removed : ∀ k t, s.tasks k = some t → t.discarded = true → t.thread = .over → s.dirs t.tempDir = true →
    .removing k ∈ s.drops

omit [DecidableEq κ] in
theorem tidy_empty : Tidy (empty : TaskTable κ) where
  stop_of_collected h := h
  task_lt _ _ h := by cases h
  table_task _ _ h := by cases h
  dir_lt _ _ h := by cases h
  start_lt _ _ h := absurd h List.not_mem_nil
  dir_owner _ h := by cases h
  finished_iff _ _ h := by cases h
  thread_ne _ _ h := by cases h
  told _ _ h := by cases h
  removed _ _ h := by cases h

omit [DecidableEq κ] in
/-- A task's record after one task's changed. -/
theorem exists_of_update {k k' : ℕ} {f : Task κ → Task κ} {t : Task κ} (h : (s.update k' f).tasks k = some t) :
    ∃ t₀, s.tasks k = some t₀ ∧ (k ≠ k' ∧ t = t₀ ∨ k = k' ∧ t = f t₀) := by
  by_cases hk : k = k'
  · subst hk
    rw [tasks_update_self, Option.map_eq_some_iff] at h
    obtain ⟨t₀, ht₀, rfl⟩ := h
    exact ⟨t₀, ht₀, .inr ⟨rfl, rfl⟩⟩
  · rw [tasks_update_of_ne s hk] at h
    exact ⟨t, h, .inl ⟨hk, rfl⟩⟩

omit [DecidableEq κ] in
theorem update_exists {k : ℕ} {t : Task κ} (k' : ℕ) (f : Task κ → Task κ) (h : s.tasks k = some t) :
    ∃ t', (s.update k' f).tasks k = some t' ∧ (t' = t ∨ t' = f t) := by
  by_cases hk : k = k'
  · subst hk
    exact ⟨f t, by rw [tasks_update_self, h, Option.map_some], .inr rfl⟩
  · exact ⟨t, by rw [tasks_update_of_ne s hk, h], .inl rfl⟩

omit [DecidableEq κ] in
/-- One task's record changes, and the drops and temp dirs with it. -/
theorem Tidy.update (h : Tidy s) (k : ℕ) (f : Task κ → Task κ) (drops : List Drop) (dirs : ℕ → Bool)
    (hid : ∀ t, (f t).id = t.id) (hdir : ∀ t, (f t).tempDir = t.tempDir)
    (hfin : ∀ t, s.tasks k = some t → (f t).finished.isSome = (f t).thread.pastFinish)
    (hthread : ∀ t, s.tasks k = some t → (f t).thread ≠ .none)
    (hdirs : ∀ d, dirs d = true → s.dirs d = true)
    (htold : ∀ k' t, s.tasks k' = some t → k' ≠ k → .pending k' ∈ s.drops → .pending k' ∈ drops)
    (htold' : ∀ t, s.tasks k = some t → t.discarded = true ∨ .pending k ∈ s.drops →
      (f t).discarded = true ∨ .pending k ∈ drops)
    (hrem : ∀ k', k' ≠ k → .removing k' ∈ s.drops → .removing k' ∈ drops)
    (hrem' : ∀ t, s.tasks k = some t → (f t).discarded = true → (f t).thread = .over → dirs t.tempDir = true →
      .removing k ∈ drops) :
    Tidy { s.update k f with drops := drops, dirs := dirs } where
  stop_of_collected := h.stop_of_collected
  task_lt k' t ht := by
    obtain ⟨t₀, ht₀, -⟩ := exists_of_update ht
    exact h.task_lt k' t₀ ht₀
  table_task id k' hk' := by
    obtain ⟨t, ht, rfl⟩ := h.table_task id k' hk'
    obtain ⟨t', ht', rfl | rfl⟩ := update_exists k f ht
    · exact ⟨t', ht', rfl⟩
    · exact ⟨_, ht', hid t⟩
  dir_lt k' t ht := by
    obtain ⟨t₀, ht₀, ⟨-, rfl⟩ | ⟨-, rfl⟩⟩ := exists_of_update ht
    · exact h.dir_lt k' t ht₀
    · exact (hdir t₀).symm ▸ h.dir_lt k' t₀ ht₀
  start_lt := h.start_lt
  dir_owner d hd := by
    rcases h.dir_owner d (hdirs d hd) with hs | ⟨k', t, ht, rfl⟩
    · exact .inl hs
    · obtain ⟨t', ht', rfl | rfl⟩ := update_exists k f ht
      · exact .inr ⟨k', t', ht', rfl⟩
      · exact .inr ⟨k', _, ht', hdir t⟩
  finished_iff k' t ht := by
    obtain ⟨t₀, ht₀, ⟨-, rfl⟩ | ⟨rfl, rfl⟩⟩ := exists_of_update ht
    · exact h.finished_iff k' t ht₀
    · exact hfin t₀ ht₀
  thread_ne k' t ht := by
    obtain ⟨t₀, ht₀, ⟨-, rfl⟩ | ⟨rfl, rfl⟩⟩ := exists_of_update ht
    · exact h.thread_ne k' t ht₀
    · exact hthread t₀ ht₀
  told k' t ht htable := by
    obtain ⟨t₀, ht₀, ⟨hk, rfl⟩ | ⟨rfl, rfl⟩⟩ := exists_of_update ht
    · exact (h.told k' t ht₀ htable).imp_right (htold k' t ht₀ hk)
    · rw [hid] at htable
      exact htold' t₀ ht₀ (h.told k' t₀ ht₀ htable)
  removed k' t ht hdis hover hd := by
    obtain ⟨t₀, ht₀, ⟨hk, rfl⟩ | ⟨rfl, rfl⟩⟩ := exists_of_update ht
    · exact hrem k' hk (h.removed k' t ht₀ hdis hover (hdirs _ hd))
    · rw [hdir] at hd
      exact hrem' t₀ ht₀ hdis hover hd

omit [DecidableEq κ] in
theorem of_update_false {dirs : ℕ → Bool} {d d' : ℕ} (h : Function.update dirs d' false d = true) :
    d ≠ d' ∧ dirs d = true := by
  by_cases hd : d = d'
  · rw [hd, Function.update_self] at h
    exact absurd h Bool.false_ne_true
  · rw [Function.update_of_ne hd] at h
    exact ⟨hd, h⟩

/-- A start gives up: its temp dir goes. -/
theorem Tidy.abandon (h : Tidy s) (id : κ) (tempDir : ℕ) : Tidy (s.abandon id tempDir) where
  stop_of_collected := h.stop_of_collected
  task_lt := h.task_lt
  table_task := h.table_task
  dir_lt := h.dir_lt
  start_lt id' d hd := h.start_lt id' d (List.mem_of_mem_erase hd)
  dir_owner d hd := by
    obtain ⟨hne, hd⟩ := of_update_false hd
    rcases h.dir_owner d hd with ⟨id', hid'⟩ | hk
    · exact .inl ⟨id', (List.mem_erase_of_ne (by simp [hne])).2 hid'⟩
    · exact .inr hk
  finished_iff := h.finished_iff
  thread_ne := h.thread_ne
  told := h.told
  removed k t ht hdis hover hd := h.removed k t ht hdis hover (of_update_false hd).2

/-- A start registers its task. -/
theorem Tidy.add (h : Tidy s) (id : κ) {tempDir : ℕ} (hlt : tempDir < s.dirCount) (htable : s.table id = none) :
    Tidy (s.add id tempDir true) := by
  have hnew : (s.add id tempDir true).tasks s.taskCount = some ⟨id, none, s.clock, false, tempDir, .running⟩ :=
    Function.update_self ..
  have hold : ∀ k, k ≠ s.taskCount → (s.add id tempDir true).tasks k = s.tasks k := fun k hk => Function.update_of_ne hk ..
  have hcases : ∀ k t, (s.add id tempDir true).tasks k = some t →
      k = s.taskCount ∧ t = ⟨id, none, s.clock, false, tempDir, .running⟩ ∨ k ≠ s.taskCount ∧ s.tasks k = some t := by
    intro k t ht
    by_cases hk : k = s.taskCount
    · subst hk
      exact .inl ⟨rfl, (Option.some.inj (hnew.symm.trans ht)).symm⟩
    · exact .inr ⟨hk, (hold k hk).symm.trans ht⟩
  refine { stop_of_collected := h.stop_of_collected, task_lt := ?_, table_task := ?_, dir_lt := ?_, start_lt := ?_,
           dir_owner := ?_, finished_iff := ?_, thread_ne := ?_, told := ?_, removed := ?_ }
  · intro k t ht
    rcases hcases k t ht with ⟨rfl, -⟩ | ⟨-, ht⟩
    · exact Nat.lt_succ_self _
    · exact Nat.lt_succ_of_lt (h.task_lt k t ht)
  · intro id' k hk
    by_cases hid : id' = id
    · have hself : (s.add id tempDir true).table id = some s.taskCount := Function.update_self ..
      rw [hid, hself] at hk
      obtain rfl := Option.some.inj hk
      exact ⟨_, hnew, hid.symm⟩
    · have hsame : (s.add id tempDir true).table id' = s.table id' := Function.update_of_ne hid ..
      rw [hsame] at hk
      obtain ⟨t, ht, hid'⟩ := h.table_task id' k hk
      refine ⟨t, ?_, hid'⟩
      rw [hold k (Nat.ne_of_lt (h.task_lt k t ht)), ht]
  · intro k t ht
    rcases hcases k t ht with ⟨-, rfl⟩ | ⟨-, ht⟩
    · exact hlt
    · exact h.dir_lt k t ht
  · exact fun id' d hd => h.start_lt id' d (List.mem_of_mem_erase hd)
  · intro d hd
    rcases h.dir_owner d hd with ⟨id', hid'⟩ | ⟨k, t, ht, hdir⟩
    · by_cases heq : (Start.made id' d : Start κ) = .made id tempDir
      · obtain ⟨-, rfl⟩ := Start.made.inj heq
        exact .inr ⟨_, _, hnew, rfl⟩
      · exact .inl ⟨id', (List.mem_erase_of_ne heq).2 hid'⟩
    · exact .inr ⟨k, t, by rw [hold k (Nat.ne_of_lt (h.task_lt k t ht)), ht], hdir⟩
  · intro k t ht
    rcases hcases k t ht with ⟨-, rfl⟩ | ⟨-, ht⟩
    · rfl
    · exact h.finished_iff k t ht
  · intro k t ht
    rcases hcases k t ht with ⟨-, rfl⟩ | ⟨-, ht⟩
    · exact fun hn => by cases hn
    · exact h.thread_ne k t ht
  · intro k t ht hdrop
    rcases hcases k t ht with ⟨rfl, rfl⟩ | ⟨-, ht⟩
    · exact absurd (Function.update_self ..) hdrop
    · refine h.told k t ht fun hk => hdrop ?_
      have hne : t.id ≠ id := by
        intro hid
        rw [hid, htable] at hk
        cases hk
      exact (Function.update_of_ne hne ..).trans hk
  · intro k t ht hdis hover hd
    rcases hcases k t ht with ⟨-, rfl⟩ | ⟨-, ht⟩
    · cases hdis
    · exact h.removed k t ht hdis hover hd

omit [DecidableEq κ] in
/-- Tasks are dropped from the table, each with a discard to come. -/
theorem Tidy.drop (h : Tidy s) (table : κ → Option ℕ) (drops : List Drop)
    (htable : ∀ id k, table id = some k → s.table id = some k)
    (hdropped : ∀ k t, s.tasks k = some t → s.table t.id = some k → table t.id ≠ some k → .pending k ∈ drops)
    (hsub : s.drops ⊆ drops) : Tidy { s with table := table, drops := drops } where
  stop_of_collected := h.stop_of_collected
  task_lt := h.task_lt
  table_task id k hk := h.table_task id k (htable id k hk)
  dir_lt := h.dir_lt
  start_lt := h.start_lt
  dir_owner := h.dir_owner
  finished_iff := h.finished_iff
  thread_ne := h.thread_ne
  told k t ht hk := by
    by_cases hbefore : s.table t.id = some k
    · exact .inr (hdropped k t ht hbefore hk)
    · exact (h.told k t ht hbefore).imp_right fun hmem => hsub hmem
  removed k t ht hdis hover hd := hsub (h.removed k t ht hdis hover hd)

omit [DecidableEq κ] in
/-- What the deletes left is no matter. -/
theorem Tidy.forget (h : Tidy s) (deleted : List (κ × ℕ)) : Tidy { s with deletedUnknown := deleted } := { h with }

omit [DecidableEq κ] in
/-- A thread goes on, with nothing of its task's temp dir or drops changed. -/
theorem Tidy.advance (h : Tidy s) (k : ℕ) (f : Task κ → Task κ) (hid : ∀ t, (f t).id = t.id)
    (hdir : ∀ t, (f t).tempDir = t.tempDir) (hdis : ∀ t, (f t).discarded = t.discarded)
    (hfin : ∀ t, s.tasks k = some t → (f t).finished.isSome = (f t).thread.pastFinish)
    (hthread : ∀ t, s.tasks k = some t → (f t).thread ≠ .none)
    (hover : ∀ t, s.tasks k = some t → (f t).thread = .over → (f t).discarded = true → t.thread = .over) :
    Tidy (s.update k f) := by
  refine h.update k f s.drops s.dirs hid hdir hfin hthread (fun _ hd => hd) (fun _ _ _ _ hp => hp) (fun t ht hp => ?_)
    (fun _ _ hr => hr) fun t ht hd hov hdirs => ?_
  · rwa [hdis t]
  · have hd' : t.discarded = true := (hdis t).symm.trans hd
    exact h.removed k t ht hd' (hover t ht hov hd) hdirs

/-! ### One step -/

omit [DecidableEq κ] in
/-- A start is let through. -/
theorem Tidy.check (h : Tidy s) (id : κ) (deleted : List (κ × ℕ)) :
    Tidy { s with deletedUnknown := deleted, starts := s.starts ++ [.checked id] } := by
  have hmem : ∀ id' d, .made id' d ∈ s.starts ++ [.checked id] → .made id' d ∈ s.starts := by
    intro id' d hd
    exact (List.mem_append.1 hd).resolve_right fun h => by cases List.mem_singleton.1 h
  exact { h with
    start_lt := fun id' d hd => h.start_lt id' d (hmem id' d hd)
    dir_owner := fun d hd => (h.dir_owner d hd).imp_left fun ⟨id', hid'⟩ => ⟨id', List.mem_append_left _ hid'⟩ }

/-- A start makes its temp dir. -/
theorem Tidy.makeDir (h : Tidy s) (id : κ) :
    Tidy { s with
      starts := s.starts.erase (.checked id) ++ [.made id s.dirCount]
      dirs := Function.update s.dirs s.dirCount true
      dirCount := s.dirCount + 1 } := by
  have hold : ∀ d, d < s.dirCount → Function.update s.dirs s.dirCount true d = s.dirs d :=
    fun d hd => Function.update_of_ne (Nat.ne_of_lt hd) ..
  exact { h with
    dir_lt := fun k t ht => Nat.lt_succ_of_lt (h.dir_lt k t ht)
    start_lt := by
      intro id' d hd
      rcases List.mem_append.1 hd with hd | hd
      · exact Nat.lt_succ_of_lt (h.start_lt id' d (List.mem_of_mem_erase hd))
      · obtain ⟨-, rfl⟩ := Start.made.inj (List.mem_singleton.1 hd)
        exact Nat.lt_succ_self _
    dir_owner := by
      intro d hd
      by_cases hnew : d = s.dirCount
      · exact .inl ⟨id, List.mem_append_right _ (List.mem_singleton.2 (by rw [hnew]))⟩
      · have hd : s.dirs d = true := (Function.update_of_ne hnew ..).symm.trans hd
        refine (h.dir_owner d hd).imp_left fun ⟨id', hid'⟩ => ⟨id', List.mem_append_left _ ?_⟩
        exact (List.mem_erase_of_ne (by simp)).2 hid'
    removed := by
      intro k t ht hdis hover hd
      have hd : s.dirs t.tempDir = true := (hold t.tempDir (h.dir_lt k t ht)).symm.trans hd
      exact h.removed k t ht hdis hover hd }

/-- A start fails to make one. -/
theorem Tidy.noDir (h : Tidy s) (id : κ) : Tidy { s with starts := s.starts.erase (.checked id) } :=
  { h with
    start_lt := fun id' d hd => h.start_lt id' d (List.mem_of_mem_erase hd)
    dir_owner := fun d hd => (h.dir_owner d hd).imp_left fun ⟨id', hid'⟩ =>
      ⟨id', (List.mem_erase_of_ne (by simp)).2 hid'⟩ }

omit [DecidableEq κ] in
/-- An op is over. -/
theorem Tidy.opReturn (h : Tidy s) {k : ℕ} {t : Task κ} (ht : s.tasks k = some t) (hr : t.thread = .running) :
    Tidy (s.update k fun t => { t with thread := .returned }) := by
  refine h.advance k _ (fun _ => rfl) (fun _ => rfl) (fun _ => rfl) (fun t' ht' => ?_) (fun _ _ hn => by cases hn)
    fun _ _ hn => by cases hn
  obtain rfl := Option.some.inj (ht.symm.trans ht')
  have hfin := h.finished_iff k t ht
  rw [hr] at hfin
  exact hfin

omit [DecidableEq κ] in
/-- A task's thread looks whether the task was dropped. -/
theorem Tidy.look (h : Tidy s) {k : ℕ} {t : Task κ} (ht : s.tasks k = some t) (hr : t.thread = .finishing) :
    Tidy (s.update k fun t => { t with thread := if t.discarded then .removing else .over }) := by
  refine h.advance k _ (fun _ => rfl) (fun _ => rfl) (fun _ => rfl) (fun t' ht' => ?_) (fun t' ht' hn => ?_)
    fun t' ht' hov hdis => ?_
  · obtain rfl := Option.some.inj (ht.symm.trans ht')
    have hfin := h.finished_iff k t ht
    rw [hr] at hfin
    dsimp only
    split <;> exact hfin
  · dsimp only at hn
    split at hn <;> cases hn
  · dsimp only at hov hdis
    rw [if_pos hdis] at hov
    cases hov

omit [DecidableEq κ] in
/-- It removes the temp dir. -/
theorem Tidy.threadRemove (h : Tidy s) {k : ℕ} {t : Task κ} (ht : s.tasks k = some t) (hr : t.thread = .removing) :
    Tidy { s.update k fun t => { t with thread := .over } with dirs := Function.update s.dirs t.tempDir false } := by
  refine h.update k _ s.drops (Function.update s.dirs t.tempDir false) (fun _ => rfl) (fun _ => rfl) (fun t' ht' => ?_)
    (fun _ _ hn => by cases hn) (fun d hd => (of_update_false hd).2) (fun _ _ _ _ hp => hp) (fun _ _ hp => hp)
    (fun _ _ hrem => hrem) fun t' ht' _ _ hd => ?_
  · obtain rfl := Option.some.inj (ht.symm.trans ht')
    have hfin := h.finished_iff k t ht
    rw [hr] at hfin
    exact hfin
  · obtain rfl := Option.some.inj (ht.symm.trans ht')
    exact absurd rfl (of_update_false hd).1

/-- A delete takes a task off the table. -/
theorem Tidy.delete (h : Tidy s) {id : κ} {k : ℕ} (hk : s.table id = some k) :
    Tidy { s with table := Function.update s.table id none, drops := s.drops ++ [.pending k] } := by
  refine h.drop _ _ (fun id' k' hk' => ?_) (fun k' t ht hbefore hafter => ?_) (List.subset_append_left ..)
  · by_cases hid : id' = id
    · rw [hid, Function.update_self] at hk'
      cases hk'
    · rwa [Function.update_of_ne hid] at hk'
  · by_cases hid : t.id = id
    · rw [hid, hk] at hbefore
      obtain rfl := Option.some.inj hbefore
      exact List.mem_append_right _ (List.mem_singleton_self _)
    · rw [Function.update_of_ne hid] at hafter
      exact absurd hbefore hafter

omit [DecidableEq κ] in
/-- A task that was dropped is told, before it finished. -/
theorem Tidy.discard (h : Tidy s) {k : ℕ} {t : Task κ} (ht : s.tasks k = some t) (hf : t.finished = none) :
    Tidy { s.update k fun t => { t with discarded := true } with drops := s.drops.erase (.pending k) } := by
  refine h.update k _ _ s.dirs (fun _ => rfl) (fun _ => rfl) (fun t' ht' => h.finished_iff k t' ht')
    (fun t' ht' => h.thread_ne k t' ht') (fun _ hd => hd) (fun k' t' _ hne hpend => ?_) (fun _ _ _ => .inl rfl)
    (fun k' hne hrem => (List.mem_erase_of_ne (by simp)).2 hrem) fun t' ht' _ hov _ => ?_
  · exact (List.mem_erase_of_ne (by simp [hne])).2 hpend
  · obtain rfl := Option.some.inj (ht.symm.trans ht')
    have hov : t.thread = .over := hov
    have hfin := h.finished_iff k t ht
    rw [hf, hov] at hfin
    cases hfin

omit [DecidableEq κ] in
/-- It is told after: the drop removes its temp dir. -/
theorem Tidy.discardFinished (h : Tidy s) (k : ℕ) :
    Tidy { s.update k fun t => { t with discarded := true } with
      drops := s.drops.erase (.pending k) ++ [.removing k] } := by
  refine h.update k _ _ s.dirs (fun _ => rfl) (fun _ => rfl) (fun t' ht' => h.finished_iff k t' ht')
    (fun t' ht' => h.thread_ne k t' ht') (fun _ hd => hd) (fun k' t' _ hne hpend => ?_) (fun _ _ _ => .inl rfl)
    (fun k' hne hrem => List.mem_append_left _ ((List.mem_erase_of_ne (by simp)).2 hrem)) fun t' ht' _ hov _ => ?_
  · exact List.mem_append_left _ ((List.mem_erase_of_ne (by simp [hne])).2 hpend)
  · exact List.mem_append_right _ (List.mem_singleton_self _)

omit [DecidableEq κ] in
/-- The drop removes the temp dir. -/
theorem Tidy.dropRemove (h : Tidy s) {k : ℕ} {t : Task κ} (ht : s.tasks k = some t) :
    Tidy { s with drops := s.drops.erase (.removing k), dirs := Function.update s.dirs t.tempDir false } :=
  { h with
    dir_owner := fun d hd => h.dir_owner d (of_update_false hd).2
    told := fun k' t' ht' htable => (h.told k' t' ht' htable).imp_right fun hpend =>
      (List.mem_erase_of_ne (by simp)).2 hpend
    removed := by
      intro k' t' ht' hdis hover hd
      obtain ⟨hne, hd⟩ := of_update_false hd
      refine (List.mem_erase_of_ne ?_).2 (h.removed k' t' ht' hdis hover hd)
      intro heq
      obtain rfl := Drop.removing.inj heq
      exact hne (by rw [Option.some.inj (ht.symm.trans ht')]) }

omit [DecidableEq κ] in
/-- What nobody asks for any more is dropped. -/
theorem Tidy.reap (h : Tidy s) (now : ℕ) : Tidy (s.reap cfg now) := by
  refine h.drop _ _ (fun id k hk => ?_) (fun k t ht hbefore hafter => ?_) (List.subset_append_left ..)
  · exact (Option.filter_eq_some_iff.1 hk).1
  · refine List.mem_append_right _ (List.mem_map_of_mem ?_)
    by_contra hk
    exact hafter (Option.filter_eq_some_iff.2 ⟨hbefore, decide_eq_true hk⟩)

omit [DecidableEq κ] in
/-- `close` drops every task. -/
theorem Tidy.collect (h : Tidy s) (hs : s.stop = true) :
    Tidy { s with collected := true, drops := s.drops ++ (s.tasksOf fun _ => true).map .pending } := by
  have hdrop := h.drop s.table (s.drops ++ (s.tasksOf fun _ => true).map .pending) (fun _ _ hk => hk)
    (fun _ _ _ hbefore hafter => absurd hbefore hafter) (List.subset_append_left ..)
  exact { hdrop with stop_of_collected := fun _ => hs }

/-- **Each step keeps what the table leaves behind in order**, as long as threads can be made. -/
theorem Tidy.step (h : Tidy s) (hc : ThreadsMade s e) (hstep : TaskTable.step cfg s e = some s') : Tidy s' := by
  cases moves_of_step hstep with
  | tick n => exact { h with }
  | stopping id hs => exact h
  | known id hs => exact h.forget _
  | checked id hs => exact h.check id _
  | dirMade id hm => exact h.makeDir id
  | dirFailed id hm => exact h.noDir id
  | refused id tempDir ok hm hs => exact h.abandon id tempDir
  | abandoned id tempDir ok hm hs => exact (h.forget _).abandon id tempDir
  | added id tempDir ok hm hs hd htable =>
    cases ok with
    | false => exact absurd rfl (hc id tempDir)
    | true => exact (h.forget _).add id (h.start_lt id tempDir hm) htable
  | opReturned k t ht hr => exact h.opReturn ht hr
  | finished k t ht hr =>
    exact h.advance k _ (fun _ => rfl) (fun _ => rfl) (fun _ => rfl) (fun _ _ => rfl) (fun _ _ hn => by cases hn)
      fun _ _ hn => by cases hn
  | looked k t ht hr => exact h.look ht hr
  | threadRemoved k t ht hr => exact h.threadRemove ht hr
  | touched id k hk =>
    exact h.advance k _ (fun _ => rfl) (fun _ => rfl) (fun _ => rfl) (fun t ht => h.finished_iff k t ht)
      (fun t ht => h.thread_ne k t ht) fun _ _ hov _ => hov
  | untouched id hk => exact h
  | deleted id k hk => exact h.delete hk
  | remembered id hk => exact h.forget _
  | discarded k t ht hp hf => exact h.discard ht hf
  | discardedFinished k t ht hp hf => exact h.discardFinished k
  | dropRemoved k t ht hp => exact h.dropRemove ht
  | reaped now hn => exact h.reap now
  | stopped => exact { h with stop_of_collected := fun _ => rfl }
  | collected hs => exact h.collect hs

/-! ### Whole runs -/

/-- What a run leaves behind is in order. -/
theorem tidy_of_run (h : Runs (TaskTable.step cfg) ThreadsMade empty es s) : Tidy s :=
  h.keeps tidy_empty fun _ _ _ hc hstep hs => hs.step hc hstep

/-- A task is finished, or its own thread's next steps finish it. -/
def Finishes (cfg : TableConfig) (s : TaskTable κ) (k : ℕ) : Prop :=
  ∃ es ∈ [[], [.finish k], [.opReturns k, .finish k]], ∃ s' t, exec (TaskTable.step cfg) s es = some s' ∧ s'.tasks k = some t ∧
    t.finished.isSome = true

theorem finishes_of_returned (cfg : TableConfig) {k : ℕ} {t : Task κ} (ht : s.tasks k = some t) (hr : t.thread = .returned) :
    ∃ s' t', exec (TaskTable.step cfg) s [.finish k] = some s' ∧ s'.tasks k = some t' ∧ t'.finished.isSome = true := by
  have hthread : (s.tasks k).map Task.thread = some .returned := by rw [ht, Option.map_some, hr]
  refine ⟨s.update k fun t => { t with finished := some s.clock, thread := .finishing },
    { t with finished := some s.clock, thread := .finishing }, ?_, ?_, rfl⟩
  · simp only [exec, TaskTable.step, if_pos hthread, Option.bind_some]
  · rw [tasks_update_self, ht, Option.map_some]

/-- **A task with a thread is finished by it.** -/
theorem Tidy.finishes (h : Tidy s) {k : ℕ} {t : Task κ} (ht : s.tasks k = some t) : Finishes cfg s k := by
  have hfin := h.finished_iff k t ht
  cases hr : t.thread with
  | none => exact absurd hr (h.thread_ne k t ht)
  | running =>
    have hthread : (s.tasks k).map Task.thread = some .running := by rw [ht, Option.map_some, hr]
    have hback : (s.update k fun t => { t with thread := .returned }).tasks k = some { t with thread := .returned } := by
      rw [tasks_update_self, ht, Option.map_some]
    obtain ⟨s', t', hs', ht', hf⟩ := finishes_of_returned cfg hback rfl
    refine ⟨[.opReturns k, .finish k], by simp, s', t', ?_, ht', hf⟩
    rw [exec, TaskTable.step, if_pos hthread, Option.bind_some, hs']
  | returned =>
    obtain ⟨s', t', hs', ht', hf⟩ := finishes_of_returned cfg ht hr
    exact ⟨[.finish k], by simp, s', t', hs', ht', hf⟩
  | _ =>
    rw [hr] at hfin
    exact ⟨[], by simp, s, t, rfl, ht, hfin⟩

omit [DecidableEq κ] in
/-- **Every temp dir is somebody's to remove.** -/
theorem Tidy.dir_owned (h : Tidy s) {d : ℕ} (hd : s.dirs d = true) : (∃ id, .made id d ∈ s.starts) ∨
    ∃ k t, s.tasks k = some t ∧ t.tempDir = d ∧
      (s.table t.id = some k ∨ t.thread ≠ .over ∨ .pending k ∈ s.drops ∨ .removing k ∈ s.drops) := by
  rcases h.dir_owner d hd with hstart | ⟨k, t, ht, rfl⟩
  · exact .inl hstart
  · refine .inr ⟨k, t, ht, rfl, ?_⟩
    by_cases htable : s.table t.id = some k
    · exact .inl htable
    by_cases hover : t.thread = .over
    · rcases h.told k t ht htable with hdis | hpend
      · exact .inr (.inr (.inr (h.removed k t ht hdis hover hd)))
      · exact .inr (.inr (.inl hpend))
    · exact .inr (.inl hover)

/-- Once the table stops, no step begins an op. -/
theorem not_begins_of_stop (hs : s.stop = true) (hstep : TaskTable.step cfg s e = some s') (id : κ) :
    ¬ Begins s s' id := by
  rintro ⟨task, hnone, hsome, -, -⟩
  have hupdate : ∀ {k f}, (s.update k f).tasks s.taskCount ≠ some task := by
    intro k f hk
    obtain ⟨t₀, ht₀, -⟩ := exists_of_update hk
    rw [hnone] at ht₀
    cases ht₀
  have hsame : s.tasks s.taskCount ≠ some task := by
    rw [hnone]
    exact (Option.some_ne_none task).symm
  cases moves_of_step hstep with
  | added id' tempDir ok hm hrun hd htable =>
    rw [hs] at hrun
    cases hrun
  | opReturned k t ht hr => exact hupdate hsome
  | finished k t ht hr => exact hupdate hsome
  | looked k t ht hr => exact hupdate hsome
  | threadRemoved k t ht hr => exact hupdate hsome
  | touched id' k hk => exact hupdate hsome
  | discarded k t ht hp hf => exact hupdate hsome
  | discardedFinished k t ht hp hf => exact hupdate hsome
  | _ => exact hsame hsome

/-- A start under way begins its op, or leaves the tasks and the table as they were. -/
theorem Tidy.begins_or_leaves (h : Tidy s) (hstep : TaskTable.step cfg s e = some s') (hc : ThreadsMade s e) (id : κ)
    (he : e = .check id ∨ (∃ ok, e = .makeDir id ok) ∨ ∃ d ok, e = .register id d ok) :
    Begins s s' id ∨ s'.tasks = s.tasks ∧ s'.table = s.table := by
  cases moves_of_step hstep with
  | stopping id' hs => exact .inr ⟨rfl, rfl⟩
  | known id' hs => exact .inr ⟨rfl, rfl⟩
  | checked id' hs => exact .inr ⟨rfl, rfl⟩
  | dirMade id' hm => exact .inr ⟨rfl, rfl⟩
  | dirFailed id' hm => exact .inr ⟨rfl, rfl⟩
  | refused id' d ok hm hs => exact .inr ⟨rfl, rfl⟩
  | abandoned id' d ok hm hs => exact .inr ⟨rfl, rfl⟩
  | added id' d ok hm hs hd htable =>
    obtain rfl : id' = id := by
      rcases he with he | ⟨_, he⟩ | ⟨_, _, he⟩ <;> cases he
      rfl
    have hnone : s.tasks s.taskCount = none := by
      rw [Option.eq_none_iff_forall_ne_some]
      exact fun t ht => Nat.lt_irrefl _ (h.task_lt _ t ht)
    cases ok with
    | false => exact absurd rfl (hc id' d)
    | true => exact .inl ⟨_, hnone, Function.update_self .., rfl, rfl⟩
  | _ => rcases he with he | ⟨_, he⟩ | ⟨_, _, he⟩ <;> cases he

/-- **A table leaves nothing behind and stops**, as long as every thread asked for can be made. After `close` collected
the tasks no op begins. A temp dir is that of a start under way, of a task in the table, or of one whose thread or drop
is yet to remove it. A task of the table is finished, or its thread finishes it; and a start that begins no op leaves no
task. -/
theorem leaves_nothing (cfg : TableConfig) (es : List (TaskEvent κ)) (s : TaskTable κ)
    (hrun : Runs (TaskTable.step cfg) ThreadsMade empty es s) :
    (s.collected = true → ∀ e s' id, TaskTable.step cfg s e = some s' → ¬ Begins s s' id) ∧
    (∀ d, s.dirs d = true → (∃ id, .made id d ∈ s.starts) ∨
      ∃ k t, s.tasks k = some t ∧ t.tempDir = d ∧
        (s.table t.id = some k ∨ t.thread ≠ .over ∨ .pending k ∈ s.drops ∨ .removing k ∈ s.drops)) ∧
    (∀ id k, s.table id = some k → Finishes cfg s k) ∧
    ∀ e s' id, TaskTable.step cfg s e = some s' → ThreadsMade s e →
      (e = .check id ∨ (∃ ok, e = .makeDir id ok) ∨ ∃ d ok, e = .register id d ok) →
      Begins s s' id ∨ s'.tasks = s.tasks ∧ s'.table = s.table := by
  have h := tidy_of_run hrun
  refine ⟨fun hcol e s' id hstep => ?_, fun d hd => h.dir_owned hd, fun id k hk => ?_, fun e s' id hstep hc he => ?_⟩
  · exact not_begins_of_stop (h.stop_of_collected hcol) hstep id
  · obtain ⟨t, ht, -⟩ := h.table_task id k hk
    exact h.finishes ht
  · exact h.begins_or_leaves hstep hc id he

/-- Task `7` is started, runs, and is deleted while it does. -/
def droppedRunning : List (TaskEvent ℕ) :=
  [.check 7, .makeDir 7 true, .register 7 0 true, .delete 7, .discard 0]

/-- Its temp dir is left for its thread. -/
theorem leaves_nothing_droppedRunning : ∃ s : TaskTable ℕ, exec (TaskTable.step ⟨60, 600⟩) empty droppedRunning = some s ∧
    s.dirs 0 = true ∧ ∃ k t, s.tasks k = some t ∧ t.tempDir = 0 ∧
      (s.table t.id = some k ∨ t.thread ≠ .over ∨ .pending k ∈ s.drops ∨ .removing k ∈ s.drops) := by
  have hmade : ∀ e ∈ droppedRunning, ∀ s, ThreadsMade s e := by
    intro e he s id tempDir heq
    subst heq
    simp [droppedRunning] at he
  obtain ⟨s, hs⟩ : ∃ s, exec (TaskTable.step ⟨60, 600⟩) empty droppedRunning = some s := ⟨_, rfl⟩
  have hrun : Runs (TaskTable.step ⟨60, 600⟩) ThreadsMade empty droppedRunning s := Runs.of_exec hmade hs
  have hdirs : s.dirs 0 = true ∧ s.starts = [] := by
    obtain rfl := Option.some.inj hs
    exact ⟨rfl, rfl⟩
  refine ⟨s, hs, hdirs.1, ?_⟩
  rcases (leaves_nothing ⟨60, 600⟩ droppedRunning s hrun).2.1 0 hdirs.1 with ⟨id, hid⟩ | howned
  · rw [hdirs.2] at hid
    exact absurd hid List.not_mem_nil
  · exact howned

/-- **A thread that cannot be made leaves its task behind.** The task is in the table, unfinished, and nothing finishes
it; dropping it leaves its temp dir, with nobody to remove it. -/
theorem thread_not_made : ∃ s s' : TaskTable ℕ,
    exec (TaskTable.step ⟨60, 600⟩) empty [.check 7, .makeDir 7 true, .register 7 0 false] = some s ∧
    s.table 7 = some 0 ∧ ¬ Finishes ⟨60, 600⟩ s 0 ∧
    exec (TaskTable.step ⟨60, 600⟩) s [.delete 7, .discard 0] = some s' ∧
    s'.dirs 0 = true ∧ s'.table 7 = none ∧ s'.starts = [] ∧ s'.drops = [] ∧
    s'.tasks 0 = some ⟨7, none, 0, true, 0, .none⟩ := by
  refine ⟨_, _, rfl, rfl, ?_, rfl, rfl, rfl, rfl, rfl, rfl⟩
  rintro ⟨es, hes, s', t, hexec, ht, hf⟩
  simp only [List.mem_cons, List.not_mem_nil, or_false] at hes
  rcases hes with rfl | rfl | rfl
  · obtain rfl := Option.some.inj hexec
    obtain rfl := Option.some.inj ht
    cases hf
  · cases hexec
  · cases hexec

end TaskTable

end MediaPreview.Nodes
