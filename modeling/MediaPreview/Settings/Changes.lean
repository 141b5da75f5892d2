import MediaPreview.Lib.Runs
import MediaPreview.Settings.Manager

/-!
# Failed settings changes

Of the operations of the settings manager `update`, `apply_changes` and what goes through it put the settings back when the
save raises; `set`, `delete`, the GPU threads and the notifications do not, nor does `update` when the GPU threads are no
number. As long as the save raises in the first kind only (`Restores`, which is exact for each operation), what is in
memory is what was saved last; and of the saves of a list with a revision one succeeds exactly if there was no other
since its revision was loaded (`saves_of_runs`).
-/

namespace MediaPreview.Settings

open SettingsManager

/-- An operation. -/
inductive Operation where
  /-- `set`. -/
  | set (key : String) (value : Value)
  /-- `update`. -/
  | update (settings : Dictionary) (gpuThreads : Option (Option ℤ))
  /-- `delete`. -/
  | delete (key : String)
  /-- `apply_changes`. -/
  | applyChanges (updates : Dictionary) (deletes : List String)
  /-- `gpu_threads = value`. -/
  | setGpuThreads (value : Option ℤ)
  /-- `update_worker_groups`. -/
  | updateWorkerGroups (groups : Value) (expected : Option ℤ)
  /-- `update_nodes`. -/
  | updateNodes (nodes : Value) (expected : Option ℤ)
  /-- `set_processing_pause_reason`. -/
  | setProcessingPauseReason (reason : String) (active : Bool)
  /-- `dismiss_notification_permanent`. -/
  | dismiss (id : String)
  /-- `reset_dismissed_notifications`. -/
  | resetDismissed

variable (validateWorkerGroups : Value → Option Value → Option Value)
  (validateNodes : Value → List Dictionary → Option Value)

/-- The operation, with a save that raises or does not. -/
def perform (m : SettingsManager) (fails : Bool) : Operation → SettingsManager × Result
  | .set key value => m.set key value fails
  | .update settings gpuThreads => m.update settings gpuThreads fails
  | .delete key => m.delete key fails
  | .applyChanges updates deletes => m.applyChanges updates deletes fails
  | .setGpuThreads value => m.setGpuThreads value fails
  | .updateWorkerGroups groups expected => m.updateWorkerGroups validateWorkerGroups groups expected fails
  | .updateNodes nodes expected => m.updateNodes validateNodes nodes expected fails
  | .setProcessingPauseReason reason active => m.setProcessingPauseReason reason active fails
  | .dismiss id => m.dismissNotificationPermanent id fails
  | .resetDismissed => m.resetDismissedNotifications fails

/-- The save does not raise in an operation that would leave what it changed, and the GPU threads of an update are a
number, unless it changes nothing. -/
def Restores (m : SettingsManager) (fails : Bool) : Operation → Prop
  | .set key value => fails = false ∨ Dict.set m.settings key value = m.settings
  | .update settings gpuThreads => gpuThreads ≠ some none ∨
      Dict.update m.settings (settings.filter fun entry => entry.1 ≠ "gpu_threads") = m.settings
  | .delete key => fails = false ∨ Dict.get? m.settings key = none
  | .setGpuThreads value => fails = false ∨ ∀ n, value = some n → distributeGpuThreads n m.settings = m.settings
  | .dismiss id => fails = false ∨ id ∈ m.dismissedNotifications
  | .resetDismissed => fails = false ∨ m.isTrue "dismissed_notifications" = false
  | _ => True

/-! ### What raises leaves the settings -/

variable {m : SettingsManager} {fails : Bool}

theorem editOrRestore_raised {edit : Dictionary → Dictionary} (h : (m.editOrRestore edit fails).2 ≠ .returned) :
    (m.editOrRestore edit fails).1 = m := by
  cases fails with
  | true => rfl
  | false => exact absurd rfl h

theorem editOrRestore_saved {edit : Dictionary → Dictionary} (h : (m.editOrRestore edit fails).2 = .returned) :
    (m.editOrRestore edit fails).1 = ⟨edit m.settings, edit m.settings⟩ := by
  cases fails with
  | true => cases h
  | false => rfl

/-- A change in place that raises stays. -/
theorem editInPlace_iff {edit : Dictionary → Dictionary} :
    ((m.editInPlace edit fails).2 ≠ .returned → (m.editInPlace edit fails).1 = m) ↔
      fails = false ∨ edit m.settings = m.settings := by
  cases fails with
  | true =>
    refine ⟨fun h => .inr (congrArg settings (h fun hret => (by cases hret))), ?_⟩
    rintro (hfails | hedit) _
    · cases hfails
    · show { m with settings := edit m.settings } = m
      rw [hedit]
  | false => exact ⟨fun _ => .inl rfl, fun _ h => absurd rfl h⟩

theorem editInPlace_saved {edit : Dictionary → Dictionary} (h : (m.editInPlace edit fails).2 = .returned) :
    (m.editInPlace edit fails).1 = ⟨edit m.settings, edit m.settings⟩ := by
  cases fails with
  | true => cases h
  | false => rfl

/-- How an operation may end: it changes nothing, or saves what is in memory; and whether what it raises leaves the settings. -/
structure Ends (m : SettingsManager) (kept : Prop) (r : SettingsManager × Result) : Prop where
  /-- It returns with the settings saved, or as they were. -/
  returned : r.2 = .returned → r.1.settings = r.1.saved ∨ r.1 = m
  /-- It raises and leaves the settings, in this case. -/
  raised : (r.2 ≠ .returned → r.1 = m) ↔ kept

theorem Ends.same {kept : Prop} (h : kept) (result : Result) : Ends m kept (m, result) :=
  ⟨fun _ => .inr rfl, iff_of_true (fun _ => rfl) h⟩

theorem ends_editOrRestore (edit : Dictionary → Dictionary) {kept : Prop} (h : kept) :
    Ends m kept (m.editOrRestore edit fails) :=
  ⟨fun hret => .inl (by rw [editOrRestore_saved hret]), iff_of_true editOrRestore_raised h⟩

theorem ends_editInPlace (edit : Dictionary → Dictionary) {kept : Prop}
    (h : kept ↔ fails = false ∨ edit m.settings = m.settings) : Ends m kept (m.editInPlace edit fails) :=
  ⟨fun hret => .inl (by rw [editInPlace_saved hret]), editInPlace_iff.trans h.symm⟩

theorem ends_updateListed (key revisionKey : String) (clean : Option Value) (expected : Option ℤ) :
    Ends m True (m.updateListed key revisionKey clean expected fails) := by
  unfold SettingsManager.updateListed
  cases clean with
  | none => exact .same trivial _
  | some clean =>
    dsimp only
    split_ifs with hconflict
    · exact .same trivial _
    · exact ends_editOrRestore _ trivial

theorem ends_update (settings : Dictionary) (gpuThreads : Option (Option ℤ)) :
    Ends m (Restores m fails (.update settings gpuThreads)) (m.update settings gpuThreads fails) := by
  unfold SettingsManager.update
  match gpuThreads with
  | none => exact ends_editOrRestore _ (.inl fun h => (by cases h))
  | some none =>
    refine ⟨fun h => (by cases h), ⟨fun h => .inr (congrArg SettingsManager.settings (h fun hret => (by cases hret))), ?_⟩⟩
    rintro (hne | hsame) _
    · exact absurd rfl hne
    · show { m with settings := _ } = m
      rw [hsame]
  | some (some value) => exact ends_editOrRestore _ (.inl fun h => (by cases h))

theorem ends_delete (key : String) : Ends m (Restores m fails (.delete key)) (m.delete key fails) := by
  unfold SettingsManager.delete
  cases hkey : Dict.get? m.settings key with
  | none => exact .same (.inr hkey) _
  | some value =>
    refine ends_editInPlace _ (or_congr_right ?_)
    rw [hkey]
    refine iff_of_false (fun h => (by cases h)) fun herase => ?_
    have hgone : Dict.get? m.settings key = none := by
      conv_lhs => rw [← herase]
      exact Dict.get?_erase_self m.settings key
    rw [hkey] at hgone
    cases hgone

theorem ends_pause (reason : String) (active : Bool) : Ends m True (m.setProcessingPauseReason reason active fails) := by
  unfold SettingsManager.setProcessingPauseReason
  by_cases hreason : reason ∉ ["manual", "quiet_hours"]
  · rw [if_pos hreason]
    exact .same trivial _
  · rw [if_neg hreason]
    cases m.pauseReasons with
    | none => exact .same trivial _
    | some reasons =>
      dsimp only
      split_ifs with hsame
      · exact .same trivial _
      · exact ends_editOrRestore _ trivial

theorem ends_dismiss (id : String) :
    Ends m (Restores m fails (.dismiss id)) (m.dismissNotificationPermanent id fails) := by
  unfold SettingsManager.dismissNotificationPermanent
  dsimp only
  split_ifs with hmem
  · exact .same (.inr hmem) _
  · refine ends_editInPlace _ (or_congr_right (iff_of_false hmem fun hsame => hmem ?_))
    have hget : Dict.get? m.settings "dismissed_notifications" = some (.list ((m.dismissedNotifications.drop
        (m.dismissedNotifications.length - (maxDismissedNotifications - 1)) ++ [id]).map .str)) := by
      conv_lhs => rw [← hsame]
      rw [Dict.get?_set, if_pos rfl]
    rw [SettingsManager.dismissedNotifications, hget]
    show id ∈ List.filterMap Value.str? _
    rw [List.filterMap_map]
    refine List.mem_filterMap.2 ⟨id, ?_, rfl⟩
    exact List.mem_append_right _ (List.mem_singleton.2 rfl)

theorem ends_reset : Ends m (Restores m fails .resetDismissed) (m.resetDismissedNotifications fails) := by
  unfold SettingsManager.resetDismissedNotifications
  cases htrue : m.isTrue "dismissed_notifications" with
  | false => exact .same (.inr htrue) _
  | true =>
    rw [if_pos rfl]
    refine ends_editInPlace _ (or_congr_right ?_)
    rw [htrue]
    refine iff_of_false (fun h => (by cases h)) fun hsame => ?_
    have hget := Dict.get?_set m.settings "dismissed_notifications" (.list []) "dismissed_notifications"
    rw [if_pos rfl, hsame] at hget
    rw [SettingsManager.isTrue, hget] at htrue
    cases htrue

/-- **An operation that raises leaves the settings exactly if the save does not raise where it would not restore them.** -/
theorem ends_perform (op : Operation) :
    Ends m (Restores m fails op) (perform validateWorkerGroups validateNodes m fails op) := by
  cases op with
  | set key value =>
    show Ends m _ (m.editInPlace (Dict.set · key value) fails)
    apply ends_editInPlace
    exact Iff.rfl
  | update settings gpuThreads => exact ends_update settings gpuThreads
  | delete key => exact ends_delete key
  | applyChanges updates deletes =>
    show Ends m True (m.applyChanges updates deletes fails)
    exact ends_editOrRestore _ trivial
  | setGpuThreads value =>
    cases value with
    | none => exact .same (.inr fun n h => (by cases h)) _
    | some n =>
      refine ends_editInPlace _ (or_congr_right ⟨fun h => h n rfl, fun h n' hn => ?_⟩)
      obtain rfl := Option.some.inj hn
      exact h
  | updateWorkerGroups groups expected => exact ends_updateListed _ _ _ _
  | updateNodes nodes expected => exact ends_updateListed _ _ _ _
  | setProcessingPauseReason reason active => exact ends_pause reason active
  | dismiss id => exact ends_dismiss id
  | resetDismissed => exact ends_reset

/-! ### Revisions -/

/-- The keys an operation may write. -/
def written : Operation → List String
  | .set key _ => [key]
  | .update settings _ => "gpu_config" :: settings.map Prod.fst
  | .delete key => [key]
  | .applyChanges updates deletes => updates.map Prod.fst ++ deletes
  | .setGpuThreads _ => ["gpu_config"]
  | .updateWorkerGroups .. => ["worker_groups", "worker_groups_revision"]
  | .updateNodes .. => ["nodes", "nodes_revision"]
  | .setProcessingPauseReason .. => ["processing_pause_reasons", "processing_paused", "processing_auto_paused"]
  | .dismiss _ | .resetDismissed => ["dismissed_notifications"]

theorem get?_editInPlace {edit : Dictionary → Dictionary} {key : String}
    (h : Dict.get? (edit m.settings) key = Dict.get? m.settings key) :
    Dict.get? (m.editInPlace edit fails).1.settings key = Dict.get? m.settings key := by
  cases fails <;> exact h

theorem get?_editOrRestore {edit : Dictionary → Dictionary} {key : String}
    (h : Dict.get? (edit m.settings) key = Dict.get? m.settings key) :
    Dict.get? (m.editOrRestore edit fails).1.settings key = Dict.get? m.settings key := by
  cases fails with
  | true => rfl
  | false => exact h

theorem get?_applyChanges {updates : Dictionary} {deletes : List String} {key : String}
    (h : key ∉ updates.map Prod.fst ++ deletes) :
    Dict.get? (m.applyChanges updates deletes fails).1.settings key = Dict.get? m.settings key := by
  rw [List.mem_append, not_or] at h
  apply get?_editOrRestore
  have hfold : ∀ (deletes : List String) (d : Dictionary), key ∉ deletes →
      Dict.get? (deletes.foldl Dict.erase d) key = Dict.get? d key := by
    intro deletes
    induction deletes with
    | nil => exact fun _ _ => rfl
    | cons k deletes ih =>
      intro d hk
      rw [List.mem_cons, not_or] at hk
      rw [List.foldl_cons, ih _ hk.2, Dict.get?_erase d fun hne => hk.1 hne.symm]
  show Dict.get? (deletes.foldl Dict.erase (Dict.update m.settings updates)) key = _
  rw [hfold deletes _ h.2, Dict.get?_update updates m.settings h.1]

theorem get?_distributeGpuThreads (value : ℤ) (settings : Dictionary) {key : String} (h : key ≠ "gpu_config") :
    Dict.get? (distributeGpuThreads value settings) key = Dict.get? settings key := by
  unfold distributeGpuThreads
  split
  · dsimp only
    split_ifs
    · rfl
    · rw [Dict.get?_set, if_neg fun heq => h heq.symm]
  · rfl

theorem get?_updateListed {listKey revisionKey : String} {clean : Option Value} {expected : Option ℤ} {key : String}
    (h : key ∉ [listKey, revisionKey]) :
    Dict.get? (m.updateListed listKey revisionKey clean expected fails).1.settings key = Dict.get? m.settings key := by
  unfold SettingsManager.updateListed
  cases clean with
  | none => rfl
  | some clean =>
    dsimp only
    split_ifs
    · rfl
    · exact get?_applyChanges (by simpa using h)

theorem get?_update {settings : Dictionary} {gpuThreads : Option (Option ℤ)} {key : String}
    (h : key ∉ written (.update settings gpuThreads)) :
    Dict.get? (m.update settings gpuThreads fails).1.settings key = Dict.get? m.settings key := by
  have hparts : key ≠ "gpu_config" ∧ key ∉ settings.map Prod.fst := by
    simpa only [written, List.mem_cons, not_or] using h
  have hnot : key ∉ (settings.filter fun entry => entry.1 ≠ "gpu_threads").map Prod.fst := by
    intro hmem
    obtain ⟨entry, hentry, rfl⟩ := List.mem_map.1 hmem
    exact hparts.2 (List.mem_map.2 ⟨entry, List.mem_of_mem_filter hentry, rfl⟩)
  have happlied := Dict.get?_update _ m.settings hnot
  unfold SettingsManager.update
  obtain - | - | value := gpuThreads
  · exact get?_editOrRestore happlied
  · exact happlied
  · apply get?_editOrRestore
    rw [get?_distributeGpuThreads _ _ hparts.1]
    exact happlied

/-- **What an operation does not write stays.** -/
theorem get?_perform {op : Operation} {key : String} (h : key ∉ written op) :
    Dict.get? (perform validateWorkerGroups validateNodes m fails op).1.settings key = Dict.get? m.settings key := by
  cases op with
  | set k value =>
    refine get?_editInPlace ?_
    rw [Dict.get?_set, if_neg fun heq => h (List.mem_singleton.2 heq.symm)]
  | update settings gpuThreads => exact get?_update h
  | delete k =>
    show Dict.get? (m.delete k fails).1.settings key = _
    unfold SettingsManager.delete
    split_ifs
    · exact get?_editInPlace (Dict.get?_erase _ fun heq => h (List.mem_singleton.2 heq.symm))
    · rfl
  | applyChanges updates deletes => exact get?_applyChanges h
  | setGpuThreads value =>
    cases value with
    | none => rfl
    | some n => exact get?_editInPlace (get?_distributeGpuThreads n _ fun heq => h (List.mem_singleton.2 heq))
  | updateWorkerGroups groups expected => exact get?_updateListed h
  | updateNodes nodes expected => exact get?_updateListed h
  | setProcessingPauseReason reason active =>
    show Dict.get? (m.setProcessingPauseReason reason active fails).1.settings key = _
    unfold SettingsManager.setProcessingPauseReason
    split
    · rfl
    · cases m.pauseReasons with
      | none => rfl
      | some reasons =>
        dsimp only
        split
        · rfl
        · exact get?_applyChanges h
  | dismiss id =>
    show Dict.get? (m.dismissNotificationPermanent id fails).1.settings key = _
    unfold SettingsManager.dismissNotificationPermanent
    dsimp only
    split
    · rfl
    · refine get?_editInPlace ?_
      rw [Dict.get?_set, if_neg fun heq => h (List.mem_singleton.2 heq.symm)]
  | resetDismissed =>
    show Dict.get? (m.resetDismissedNotifications fails).1.settings key = _
    unfold SettingsManager.resetDismissedNotifications
    split
    · refine get?_editInPlace ?_
      rw [Dict.get?_set, if_neg fun heq => h (List.mem_singleton.2 heq.symm)]
    · rfl

/-- **A saved list has the next revision**, and one that is not saved the same. -/
theorem revision_updateListed {listKey revisionKey : String} (clean : Option Value) (expected : Option ℤ) :
    (m.updateListed listKey revisionKey clean expected fails).1.revision revisionKey = m.revision revisionKey +
      if (m.updateListed listKey revisionKey clean expected fails).2 = .returned then 1 else 0 := by
  unfold SettingsManager.updateListed
  cases clean with
  | none => exact (add_zero _).symm
  | some clean =>
    dsimp only
    split_ifs with hconflict hret hret
    · cases hret
    · exact (add_zero _).symm
    · have hsettings : (m.applyChanges [(listKey, clean), (revisionKey, .int (m.revision revisionKey + 1))] [] fails).1 =
          ⟨Dict.set (Dict.set m.settings listKey clean) revisionKey (.int (m.revision revisionKey + 1)),
            Dict.set (Dict.set m.settings listKey clean) revisionKey (.int (m.revision revisionKey + 1))⟩ :=
        editOrRestore_saved hret
      rw [hsettings]
      show SettingsManager.revision ⟨_, _⟩ revisionKey = _
      unfold SettingsManager.revision
      dsimp only
      rw [Dict.get?_set, if_pos rfl]
    · have hsame : (m.applyChanges [(listKey, clean), (revisionKey, .int (m.revision revisionKey + 1))] [] fails).1 = m :=
        editOrRestore_raised hret
      rw [hsame, add_zero]

/-! ### Runs -/

/-- The manager, with how often each list was saved. -/
structure Edited where
  /-- The manager. -/
  manager : SettingsManager
  /-- The saves of the worker groups. -/
  groupSaves : ℕ
  /-- The saves of the nodes. -/
  nodeSaves : ℕ

/-- The settings as they are read. -/
def Edited.load (settings : Dictionary) : Edited := ⟨.load settings, 0, 0⟩

/-- It saves the worker groups. -/
def savesGroups : Operation → Bool
  | .updateWorkerGroups .. => true
  | _ => false

/-- It saves the nodes. -/
def savesNodes : Operation → Bool
  | .updateNodes .. => true
  | _ => false

/-- An operation, and whether its save raises. -/
def step (s : Edited) (e : Operation × Bool) : Option Edited :=
  let r := perform validateWorkerGroups validateNodes s.manager e.2 e.1
  some ⟨r.1, s.groupSaves + if savesGroups e.1 ∧ r.2 = .returned then 1 else 0,
    s.nodeSaves + if savesNodes e.1 ∧ r.2 = .returned then 1 else 0⟩

/-- The save does not raise where the settings would not be restored, and a revision is written with its list only. -/
def Meets (s : Edited) (e : Operation × Bool) : Prop :=
  Restores s.manager e.2 e.1 ∧ (savesGroups e.1 = false → "worker_groups_revision" ∉ written e.1) ∧
    (savesNodes e.1 = false → "nodes_revision" ∉ written e.1)

variable {validateWorkerGroups : Value → Option Value → Option Value}
  {validateNodes : Value → List Dictionary → Option Value} {s s' : Edited} {e : Operation × Bool}

/-- Each step keeps what is saved. -/
theorem saved_of_step (hc : Meets s e) (h : step validateWorkerGroups validateNodes s e = some s')
    (hs : s.manager.settings = s.manager.saved) : s'.manager.settings = s'.manager.saved := by
  obtain rfl := Option.some.inj h
  have hends : Ends s.manager (Restores s.manager e.2 e.1) (perform validateWorkerGroups validateNodes s.manager e.2 e.1) :=
    ends_perform validateWorkerGroups validateNodes e.1
  by_cases hret : (perform validateWorkerGroups validateNodes s.manager e.2 e.1).2 = .returned
  · obtain hsaved | hsame := hends.returned hret
    · exact hsaved
    · dsimp only
      rw [hsame]
      exact hs
  · dsimp only
    rw [hends.raised.2 hc.1 hret]
    exact hs

/-- Each step adds to the revision of the worker groups whether it saved them. -/
theorem groupRevision_of_step (hc : Meets s e) (h : step validateWorkerGroups validateNodes s e = some s') :
    s'.manager.revision "worker_groups_revision" + s.groupSaves =
      s.manager.revision "worker_groups_revision" + s'.groupSaves := by
  obtain rfl := Option.some.inj h
  obtain ⟨op, fails⟩ := e
  dsimp only
  cases hop : savesGroups op with
  | false =>
    have hkept : Dict.get? (perform validateWorkerGroups validateNodes s.manager fails op).1.settings
        "worker_groups_revision" = Dict.get? s.manager.settings "worker_groups_revision" := get?_perform _ _ (hc.2.1 hop)
    unfold SettingsManager.revision
    rw [hkept]
    simp
  | true =>
    cases op with
    | updateWorkerGroups groups expected =>
      have hnext : (s.manager.updateWorkerGroups validateWorkerGroups groups expected fails).1.revision
          "worker_groups_revision" = s.manager.revision "worker_groups_revision" +
            if (s.manager.updateWorkerGroups validateWorkerGroups groups expected fails).2 = .returned then 1 else 0 :=
        revision_updateListed _ expected
      rw [perform, hnext]
      simp only [true_and]
      split_ifs <;> omega
    | _ => cases hop

/-- As does each step for the nodes. -/
theorem nodesRevision_of_step (hc : Meets s e) (h : step validateWorkerGroups validateNodes s e = some s') :
    s'.manager.revision "nodes_revision" + s.nodeSaves = s.manager.revision "nodes_revision" + s'.nodeSaves := by
  obtain rfl := Option.some.inj h
  obtain ⟨op, fails⟩ := e
  dsimp only
  cases hop : savesNodes op with
  | false =>
    have hkept : Dict.get? (perform validateWorkerGroups validateNodes s.manager fails op).1.settings
        "nodes_revision" = Dict.get? s.manager.settings "nodes_revision" := get?_perform _ _ (hc.2.2 hop)
    unfold SettingsManager.revision
    rw [hkept]
    simp
  | true =>
    cases op with
    | updateNodes nodes expected =>
      have hnext : (s.manager.updateNodes validateNodes nodes expected fails).1.revision "nodes_revision" =
          s.manager.revision "nodes_revision" +
            if (s.manager.updateNodes validateNodes nodes expected fails).2 = .returned then 1 else 0 :=
        revision_updateListed _ expected
      rw [perform, hnext]
      simp only [true_and]
      split_ifs <;> omega
    | _ => cases hop

/-- **A valid list whose save does not raise is saved exactly if its revision is the expected one.** -/
theorem returned_updateListed_iff {listKey revisionKey : String} (clean : Value) (expected : ℤ) :
    (m.updateListed listKey revisionKey (some clean) (some expected) false).2 = .returned ↔
      expected = m.revision revisionKey := by
  unfold SettingsManager.updateListed
  by_cases hsame : expected = m.revision revisionKey
  · simp [hsame, SettingsManager.applyChanges, SettingsManager.editOrRestore, SettingsManager.save]
  · simp [hsame]

/-- **Failed changes leave nothing behind, and editors do not overwrite each other**: after any run from the settings as
read, and any that goes on from it, in which every operation meets the condition. -/
theorem saves_of_runs {settings : Dictionary} {es es' : List (Operation × Bool)}
    (h : Runs (step validateWorkerGroups validateNodes) Meets (.load settings) es s)
    (h' : Runs (step validateWorkerGroups validateNodes) Meets s es' s') :
    s'.manager.settings = s'.manager.saved ∧
    (∀ (op : Operation) (fails : Bool), Restores s'.manager fails op →
      (perform validateWorkerGroups validateNodes s'.manager fails op).2 ≠ .returned →
        (perform validateWorkerGroups validateNodes s'.manager fails op).1 = s'.manager) ∧
    (s'.manager.revision "worker_groups_revision" + s.groupSaves =
      s.manager.revision "worker_groups_revision" + s'.groupSaves ∧
      ∀ groups clean, validateWorkerGroups groups (Dict.get? s'.manager.settings "nodes") = some clean →
        ((s'.manager.updateWorkerGroups validateWorkerGroups groups
          (some (s.manager.revision "worker_groups_revision")) false).2 = .returned ↔ s'.groupSaves = s.groupSaves)) ∧
    s'.manager.revision "nodes_revision" + s.nodeSaves = s.manager.revision "nodes_revision" + s'.nodeSaves ∧
      ∀ nodes clean, validateNodes nodes s'.manager.nodes = some clean →
        ((s'.manager.updateNodes validateNodes nodes (some (s.manager.revision "nodes_revision")) false).2 = .returned ↔
          s'.nodeSaves = s.nodeSaves) := by
  have hsaved : s'.manager.settings = s'.manager.saved :=
    (h.append h').keeps (I := fun t => t.manager.settings = t.manager.saved) rfl
      fun _ _ _ hc hs hi => saved_of_step hc hs hi
  have hgroups := h'.keeps rfl (I := fun t => t.manager.revision "worker_groups_revision" + s.groupSaves =
      s.manager.revision "worker_groups_revision" + t.groupSaves) fun t e t' hc hs hi => by
    have := groupRevision_of_step hc hs
    omega
  have hnodes := h'.keeps rfl (I := fun t => t.manager.revision "nodes_revision" + s.nodeSaves =
      s.manager.revision "nodes_revision" + t.nodeSaves) fun t e t' hc hs hi => by
    have := nodesRevision_of_step hc hs
    omega
  refine ⟨hsaved, fun op fails hop => (ends_perform _ _ op).raised.2 hop, ⟨hgroups, fun groups clean hclean => ?_⟩, hnodes,
    fun nodes clean hclean => ?_⟩
  · rw [SettingsManager.updateWorkerGroups, hclean, returned_updateListed_iff]
    omega
  · rw [SettingsManager.updateNodes, hclean, returned_updateListed_iff]
    omega

/-- `set`, and a save of the worker groups with the revision that was loaded. -/
theorem saves_of_runs_two :
    let first := (perform (fun groups _ => some groups) (fun nodes _ => some nodes) (.load []) false
      (.set "log_level" (.str "INFO"))).1
    let last := (perform (fun groups _ => some groups) (fun nodes _ => some nodes) first false
      (.updateWorkerGroups (.list []) (some 0))).1
    last.settings = last.saved ∧ last.revision "worker_groups_revision" = 1 :=
  have hfirst : Runs (step (fun groups _ => some groups) fun nodes _ => some nodes) Meets (.load [])
      [(.set "log_level" (.str "INFO"), false)] _ := .cons ⟨.inl rfl, by decide, by decide⟩ rfl (.nil _)
  have hlast : Runs (step (fun groups _ => some groups) fun nodes _ => some nodes) Meets _
      [(.updateWorkerGroups (.list []) (some 0), false)] _ := .cons ⟨trivial, by decide, by decide⟩ rfl (.nil _)
  ⟨(saves_of_runs hfirst hlast).1, rfl⟩

/-- `set` keeps what it could not save, and the next save of something else writes it; `update` keeps what it applied
before the GPU threads turn out to be no number. -/
theorem set_keeps_failed_change :
    (SettingsManager.load []).set "log_level" (.str "DEBUG") true =
        (⟨[("log_level", .str "DEBUG")], []⟩, .raised) ∧
      (((SettingsManager.load []).set "log_level" (.str "DEBUG") true).1.setProcessingPauseReason "manual" true false).1.saved
        = [("log_level", .str "DEBUG"), ("processing_pause_reasons", .list [.str "manual"]), ("processing_paused", .bool true)] ∧
      (SettingsManager.load []).update [("log_level", .str "DEBUG"), ("gpu_threads", .str "many")] (some none) false =
        (⟨[("log_level", .str "DEBUG")], []⟩, .raised) :=
  ⟨rfl, rfl, rfl⟩

end MediaPreview.Settings
