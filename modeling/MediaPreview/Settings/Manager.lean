import Mathlib.Algebra.Order.Ring.Int
import MediaPreview.Lib.Dict

/-!
# The settings manager

`SettingsManager` of `web/settings_manager.py`: a dictionary in memory, and in `settings.json` what was saved of it last.
Each operation changes the dictionary and saves it, and the save may raise; some put the dictionary back then, some do
not. `validate_worker_groups`, `validate_nodes` and `int` are given by what they make of a value, or that they raise.
-/

namespace MediaPreview.Settings

/-! ### Values -/

/-- A value of a setting. -/
inductive Value where
  /-- `None`. -/
  | none
  /-- A `bool`. -/
  | bool (b : Bool)
  /-- An `int`. -/
  | int (n : ℤ)
  /-- A `str`. -/
  | str (s : String)
  /-- A `list`. -/
  | list (items : List Value)
  /-- A `dict`. -/
  | dict (entries : List (String × Value))
  /-- Any other: whether it is true, and whether it can be in a set. -/
  | other (truthy hashable : Bool) (tag : ℕ)

namespace Value

/-- `bool(value)`. -/
def truthy : Value → Bool
  | none => false
  | bool b => b
  | int n => n ≠ 0
  | str s => s ≠ ""
  | list items => !items.isEmpty
  | dict entries => !entries.isEmpty
  | other b _ _ => b

/-- `hash(value)` does not raise. -/
def hashable : Value → Bool
  | list _ | dict _ => false
  | other _ b _ => b
  | _ => true

/-- The text, of a text. -/
def str? : Value → Option String
  | str s => some s
  | _ => Option.none

/-- `value == texts`. -/
def isTexts (value : Value) (texts : List String) : Bool :=
  match value with
  | list items => items.map str? = texts.map some
  | _ => false

/-- `value == b`. -/
def isBool (value : Value) (b : Bool) : Bool :=
  match value with
  | bool b' => b' = b
  | int n => n = b.toNat
  | _ => false

end Value

/-- `_settings`. -/
abbrev Dictionary := List (String × Value)

/-! ### The manager -/

/-- The manager: what is in memory, and what the last save that did not raise wrote. -/
structure SettingsManager where
  /-- `_settings`. -/
  settings : Dictionary
  /-- `settings.json`. -/
  saved : Dictionary

/-- The settings as they are read. -/
def SettingsManager.load (settings : Dictionary) : SettingsManager := ⟨settings, settings⟩

/-- How an operation ends. -/
inductive Result where
  /-- It returns. -/
  | returned
  /-- It raises `WorkerGroupsConflict` or `NodesConflict`. -/
  | conflict
  /-- It raises something else. -/
  | raised
  deriving DecidableEq

namespace SettingsManager

variable (m : SettingsManager)

/-- `_save`. -/
def save (fails : Bool) : SettingsManager × Result :=
  if fails then (m, .raised) else ({ m with saved := m.settings }, .returned)

/-- A change in place, and a save. -/
def editInPlace (edit : Dictionary → Dictionary) (fails : Bool) : SettingsManager × Result :=
  { m with settings := edit m.settings }.save fails

/-- A change, and a save; if it raises, what was before. -/
def editOrRestore (edit : Dictionary → Dictionary) (fails : Bool) : SettingsManager × Result :=
  if fails then (m, .raised) else { m with settings := edit m.settings }.save fails

/-- `set`. -/
def set (key : String) (value : Value) (fails : Bool) : SettingsManager × Result :=
  m.editInPlace (Dict.set · key value) fails

/-- `delete`. -/
def delete (key : String) (fails : Bool) : SettingsManager × Result :=
  if (Dict.get? m.settings key).isSome then m.editInPlace (Dict.erase · key) fails else (m, .returned)

/-- `apply_changes`. -/
def applyChanges (updates : Dictionary) (deletes : List String) (fails : Bool) : SettingsManager × Result :=
  m.editOrRestore (fun settings => deletes.foldl Dict.erase (Dict.update settings updates)) fails

/-! ### GPU threads -/

/-- `entry.get("enabled", True)`. -/
def enabled (entry : Dictionary) : Bool := ((Dict.get? entry "enabled").getD (.bool true)).truthy

/-- The workers of each enabled GPU: as many as the others, and one of those left over. -/
def distribute (perGpu : ℤ) : ℤ → List Dictionary → List Dictionary
  | _, [] => []
  | remainder, entry :: config =>
    if enabled entry then
      if 0 < remainder then Dict.set entry "workers" (.int (perGpu + 1)) :: distribute perGpu (remainder - 1) config
      else Dict.set entry "workers" (.int perGpu) :: distribute perGpu remainder config
    else entry :: distribute perGpu remainder config

/-- `_distribute_gpu_threads_into_dict`. -/
def distributeGpuThreads (value : ℤ) (settings : Dictionary) : Dictionary :=
  match Dict.get? settings "gpu_config" with
  | some (.list raw) =>
    let config := raw.filterMap fun
      | .dict entries => some entries
      | _ => none
    let count : ℤ := (config.filter enabled).length
    if count = 0 then settings
    else
      let perGpu := max 0 (value / count)
      let remainder := max 0 (value - perGpu * count)
      Dict.set settings "gpu_config" (.list ((distribute perGpu remainder config).map .dict))
  | _ => settings

/-- `gpu_threads = value`, with what `int(value)` is. -/
def setGpuThreads (value : Option ℤ) (fails : Bool) : SettingsManager × Result :=
  match value with
  | none => (m, .raised)
  | some value => m.editInPlace (distributeGpuThreads value) fails

/-- `update`, with what `int(settings["gpu_threads"])` is if it is there. -/
def update (settings : Dictionary) (gpuThreads : Option (Option ℤ)) (fails : Bool) : SettingsManager × Result :=
  let applied := Dict.update m.settings (settings.filter fun entry => entry.1 ≠ "gpu_threads")
  match gpuThreads with
  | none => m.editOrRestore (fun _ => applied) fails
  -- It is converted after the others are applied.
  | some none => ({ m with settings := applied }, .raised)
  | some (some value) => m.editOrRestore (fun _ => distributeGpuThreads value applied) fails

/-! ### Lists with a revision -/

/-- `worker_groups_revision`, `nodes_revision`: a value that is no `int` counts as 0. -/
def revision (key : String) : ℤ :=
  match Dict.get? m.settings key with
  | some (.int n) => n
  | _ => 0

/-- A list is saved with the next revision, if it is valid and the revision is the expected one. -/
def updateListed (key revisionKey : String) (clean : Option Value) (expected : Option ℤ) (fails : Bool) :
    SettingsManager × Result :=
  match clean with
  | none => (m, .raised)
  | some clean =>
    if expected.any (· ≠ m.revision revisionKey) then (m, .conflict)
    else m.applyChanges [(key, clean), (revisionKey, .int (m.revision revisionKey + 1))] [] fails

/-- `nodes`. -/
def nodes : List Dictionary :=
  match Dict.get? m.settings "nodes" with
  | some (.list raw) => raw.filterMap fun
    | .dict entries => some entries
    | _ => none
  | _ => []

/-- `update_worker_groups`, with `validate_worker_groups` as it is for the stored nodes. -/
def updateWorkerGroups (validateWorkerGroups : Value → Option Value → Option Value) (groups : Value)
    (expected : Option ℤ) (fails : Bool) : SettingsManager × Result :=
  m.updateListed "worker_groups" "worker_groups_revision"
    (validateWorkerGroups groups (Dict.get? m.settings "nodes")) expected fails

/-- `update_nodes`. -/
def updateNodes (validateNodes : Value → List Dictionary → Option Value) (nodes : Value) (expected : Option ℤ)
    (fails : Bool) : SettingsManager × Result :=
  m.updateListed "nodes" "nodes_revision" (validateNodes nodes m.nodes) expected fails

/-! ### Pauses and notifications -/

/-- The pause owners among the stored reasons, where they can be in a set. -/
def storedReasons (reasons : List Value) : Option (List String) :=
  if reasons.all Value.hashable then
    some (["manual", "quiet_hours"].filter fun reason => reasons.any fun value => value.str? = some reason)
  else none

/-- A setting that is true. -/
def isTrue (key : String) : Bool := ((Dict.get? m.settings key).getD (.bool false)).truthy

/-- `processing_pause_reasons`. -/
def pauseReasons : Option (List String) :=
  match Dict.get? m.settings "processing_pause_reasons" with
  | some (.list reasons) => storedReasons reasons
  | _ => some (if m.isTrue "processing_paused" && !m.isTrue "processing_auto_paused" then ["manual"] else [])

/-- `set_processing_pause_reason`. -/
def setProcessingPauseReason (reason : String) (active : Bool) (fails : Bool) : SettingsManager × Result :=
  if reason ∉ ["manual", "quiet_hours"] then (m, .raised)
  else
    match m.pauseReasons with
    | none => (m, .raised)
    | some reasons =>
      let newReasons := ["manual", "quiet_hours"].filter fun r => if r = reason then active else r ∈ reasons
      let held := !newReasons.isEmpty
      if ((Dict.get? m.settings "processing_pause_reasons").any fun value => value.isTexts newReasons) &&
          ((Dict.get? m.settings "processing_paused").any fun value => value.isBool held) &&
          (Dict.get? m.settings "processing_auto_paused").isNone then (m, .returned)
      else m.applyChanges [("processing_pause_reasons", .list (newReasons.map .str)), ("processing_paused", .bool held)]
        ["processing_auto_paused"] fails

/-- `dismissed_notifications`. -/
def dismissedNotifications : List String :=
  match Dict.get? m.settings "dismissed_notifications" with
  | some (.list items) => items.filterMap Value.str?
  | _ => []

/-- `MAX_DISMISSED_NOTIFICATIONS`. -/
def maxDismissedNotifications : ℕ := 200

/-- `dismiss_notification_permanent`. -/
def dismissNotificationPermanent (id : String) (fails : Bool) : SettingsManager × Result :=
  let current := m.dismissedNotifications
  if id ∈ current then (m, .returned)
  else
    let kept := current.drop (current.length - (maxDismissedNotifications - 1))
    m.editInPlace (Dict.set · "dismissed_notifications" (.list ((kept ++ [id]).map .str))) fails

/-- `reset_dismissed_notifications`. -/
def resetDismissedNotifications (fails : Bool) : SettingsManager × Result :=
  if m.isTrue "dismissed_notifications" then m.editInPlace (Dict.set · "dismissed_notifications" (.list [])) fails
  else (m, .returned)

end SettingsManager

end MediaPreview.Settings
