import MediaPreview.Jobs.Capacity
import MediaPreview.Lib.PyValue
import MediaPreview.Servers.Paths

/-!
# Worker groups that are accepted

`validate_worker_groups` of `worker_groups.py`: any value goes in, and out come groups whose fields are in order and whose
members, at no minute of the week, ask for more workers of one kind than this app or a node may have, or the text of a
`ValueError`. Windows of a group that is always open, which nothing reads, stay in its availability.
-/

namespace MediaPreview.Groups

open Ranking

/-! ### Texts -/

/-- `text.strip()`. -/
def strip (text : String) : String := String.ofList (Servers.strip text.toList)

/-- A letter or digit of ASCII. -/
def isIdChar (c : Char) : Bool := c.isAlphanum

/-- `_ID`. -/
def isId (text : String) : Bool :=
  match text.toList with
  | [] => false
  | c :: s => isIdChar c && s.length ≤ 79 && s.all fun c => isIdChar c || c = '_' || c = '-'

/-- The number of two digits. -/
def twoDigits (a b : Char) : ℕ := 10 * (a.toNat - 48) + (b.toNat - 48)

/-- `_TIME`, and the time. -/
def readTime (text : String) : Option TimeOfDay :=
  match text.toList with
  | [a, b, ':', c, d] =>
    if ((a = '0' ∨ a = '1') ∧ b.isDigit ∨ a = '2' ∧ '0' ≤ b ∧ b ≤ '3') ∧ ('0' ≤ c ∧ c ≤ '5') ∧ d.isDigit then
      some ⟨twoDigits a b, twoDigits c d⟩
    else none
  | _ => none

/-- The name of a kind, in `JOB_KINDS`. -/
def JobKind.name : JobKind → String
  | .previews => "previews"
  | .introCredits => "intro_credits"
  | .loudness => "loudness"

/-- `JOB_KINDS`. -/
def jobKinds : List JobKind := [.previews, .introCredits, .loudness]

/-- The kind a value names. -/
def JobKind.of (value : PyValue) : Option JobKind := jobKinds.find? fun kind => PyValue.eq value (.str kind.name)

/-- `member_resource_key`. -/
def memberResourceKey (resource : Resource) (device node : Option String) : String :=
  let here := match resource with
    | .cpu => "cpu"
    | .gpu => "gpu:" ++ device.getD "None"
  match node.filter (· ≠ "") with
  | some node => "node:" ++ node ++ ":" ++ here
  | none => here

/-! ### Members -/

/-- `MAX_CPU_WORKERS`. -/
def maxCpuWorkers : ℤ := 64

/-- `MAX_GPU_WORKERS`. -/
def maxGpuWorkers : ℤ := 64

/-- `MAX_GROUPS`. -/
def maxGroups : ℕ := 64

/-- `MAX_MEMBERS`. -/
def maxMembers : ℕ := 8

/-- `(nodes or {}).get(node) or node`. -/
def nodeLabel (nodes : Option (List (String × String))) (node : String) : String :=
  match (nodes.bind fun nodes => Dict.get? nodes node).filter (· ≠ "") with
  | some label => label
  | none => node

/-- `_clean_node`. -/
def cleanNode (raw : List (String × PyValue)) (name : String) (nodes : Option (List (String × String))) :
    Except String (Option String) :=
  match PyValue.get raw "node" with
  | .none => .ok none
  | .str node =>
    if node = "" then .ok none
    else if 128 < node.length ∨ node ≠ strip node then .error (name ++ ": choose a node from the device list")
    else if nodes.any fun nodes => (Dict.get? nodes node).isNone then
      .error (name ++ ": node " ++ node ++ " is not added. Add it under Nodes, or pick another device.")
    else .ok (some node)
  | _ => .error (name ++ ": choose a node from the device list")

/-- The ids and devices of the members before. -/
structure Seen where
  /-- `seen_ids`. -/
  ids : List String
  /-- `seen_devices`. -/
  devices : List String

/-- The `id` of a member. -/
def memberId (raw : List (String × PyValue)) (legacy : Bool) : Option String :=
  if legacy then some "m1"
  else match PyValue.get raw "id" with
    | .str id => some id
    | _ => none

/-- The `resource` of a member. -/
def resourceOf (raw : List (String × PyValue)) : Option Resource :=
  match PyValue.get raw "resource" with
  | .str text => if text = "cpu" then some .cpu else if text = "gpu" then some .gpu else none
  | _ => none

/-- The `device` of a member, checked for its resource. -/
def cleanDevice (raw : List (String × PyValue)) (name : String) : Resource → Except String (Option String)
  | .gpu =>
    match PyValue.get raw "device" with
    | .str device =>
      if strip device = "" ∨ 256 < device.length ∨ device ≠ strip device then .error (name ++ ": choose a GPU device")
      else .ok (some device)
    | _ => .error (name ++ ": choose a GPU device")
  | .cpu =>
    match PyValue.get raw "device" with
    | .none => .ok none
    | .str device => if device = "" then .ok none else .error (name ++ ": a CPU member cannot select a GPU device")
    | _ => .error (name ++ ": a CPU member cannot select a GPU device")

/-- The most workers of a resource. -/
def Resource.limit : Resource → ℤ
  | .cpu => maxCpuWorkers
  | .gpu => maxGpuWorkers

/-- The `count` of a member. -/
def countOf (raw : List (String × PyValue)) (resource : Resource) : Option ℕ :=
  match PyValue.get raw "count" with
  | .int n => if 1 ≤ n ∧ n ≤ resource.limit then some n.toNat else none
  | _ => none

/-- The `job_types` of a member, in the order of `JOB_KINDS`. -/
def jobTypesOf (raw : List (String × PyValue)) : Option (List JobKind) :=
  match PyValue.get raw "job_types" with
  | .list kinds =>
    if kinds = [] then none
    else (kinds.mapM JobKind.of).map fun kinds => jobKinds.filter fun kind => kind ∈ kinds
  | _ => none

/-- `_clean_member`, and what it adds to those seen. -/
def cleanMember (raw : PyValue) (name : String) (seen : Seen) (legacy : Bool)
    (nodes : Option (List (String × String))) : Except String (Member × Seen) :=
  match raw with
  | .dict raw =>
    match (memberId raw legacy).filter fun id => isId id && id ∉ seen.ids with
    | none => .error (name ++ ": each device needs a unique valid ID")
    | some id =>
      match resourceOf raw with
      | none => .error (name ++ ": choose CPU or GPU for each device")
      | some resource =>
        (cleanDevice raw name resource).bind fun device =>
          (cleanNode raw name nodes).bind fun node =>
            let here := device.getD "CPU"
            let label := match node with
              | some node => nodeLabel nodes node ++ " · " ++ here
              | none => here
            let key := memberResourceKey resource device node
            if key ∈ seen.devices then .error (name ++ ": " ++ label ++ " appears twice; use one row per device")
            else
              match countOf raw resource with
              | none => .error (name ++ " (" ++ label ++ "): worker count must be between 1 and " ++
                  toString resource.limit ++ "; remove the device to use zero")
              | some count =>
                match jobTypesOf raw with
                | none => .error (name ++ " (" ++ label ++ "): select at least one supported job type")
                | some jobTypes =>
                  if resource = .gpu ∧ .loudness ∈ jobTypes then
                    .error (name ++ " (" ++ label ++ "): Plex loudness requires CPU workers")
                  else .ok (⟨id, resource, device, count, jobTypes, node⟩, ⟨id :: seen.ids, key :: seen.devices⟩)
  | _ => .error (name ++ ": each device must be an object")

/-- The members in turn. -/
def cleanMemberList (name : String) (nodes : Option (List (String × String))) :
    List PyValue → Seen → Except String (List Member)
  | [], _ => .ok []
  | raw :: raws, seen =>
    (cleanMember raw name seen false nodes).bind fun result =>
      (cleanMemberList name nodes raws result.2).map fun members => result.1 :: members

/-- A flat field as it is compared: of `device` what is false is `None`. -/
def echoed (key : String) (value : PyValue) : PyValue := if key = "device" ∧ !value.truthy then .none else value

/-- `_reject_conflicting_flat_fields`. -/
def rejectConflictingFlatFields (raw : List (String × PyValue)) (members : List PyValue) (name : String) :
    Except String Unit :=
  match members with
  | [.dict member] =>
    let conflict := ["resource", "device", "count", "job_types"].find? fun key =>
      (Dict.get? raw key).any fun flat => !PyValue.eq (echoed key flat) (echoed key (PyValue.get member key))
    match conflict with
    | some key => .error (name ++ ": edit members[0] instead of the group's top-level " ++ key)
    | none => .ok ()
  | _ => .ok ()

/-- `_clean_members`. -/
def cleanMembers (raw : List (String × PyValue)) (name : String) (nodes : Option (List (String × String))) :
    Except String (List Member) :=
  match Dict.get? raw "members" with
  | none =>
    if (Dict.get? raw "resource").isNone then .error (name ++ ": add at least one device")
    else (cleanMember (.dict raw) name ⟨[], []⟩ true nodes).map fun result => [result.1]
  | some (.list []) => .error (name ++ ": add at least one device")
  | some (.list members) =>
    (rejectConflictingFlatFields raw members name).bind fun _ =>
      if maxMembers < members.length then .error (name ++ ": use at most " ++ toString maxMembers ++ " devices")
      else cleanMemberList name nodes members ⟨[], []⟩
  | some _ => .error (name ++ ": add at least one device")

/-! ### Hours -/

/-- An availability that was accepted. -/
structure CleanAvailability where
  /-- `mode` is `"scheduled"`. -/
  scheduled : Bool
  /-- `windows`. -/
  windows : List {w : Window // w.Valid}

/-- What is open when. -/
def CleanAvailability.availability (a : CleanAvailability) : Availability :=
  if a.scheduled then .scheduled (a.windows.map Subtype.val) else .always

/-- A day of the week, Monday being 0. -/
def dayOf : PyValue → Option {day : ℕ // day < 7}
  | .int n => if h : 0 ≤ n ∧ n ≤ 6 then some ⟨n.toNat, by omega⟩ else none
  | _ => none

/-- The `days` of a window. -/
def daysOf (window : List (String × PyValue)) : Option (List {day : ℕ // day < 7}) :=
  match PyValue.get window "days" with
  | .list days => if days = [] then none else days.mapM dayOf
  | _ => none

/-- A time of a window. -/
def timeOf (window : List (String × PyValue)) (key : String) : Option TimeOfDay :=
  match PyValue.get window key with
  | .str text => readTime text
  | _ => none

theorem digit_bounds {c : Char} (h : c.isDigit = true) : 48 ≤ c.toNat ∧ c.toNat ≤ 57 := by
  simp only [Char.isDigit, Bool.and_eq_true, decide_eq_true_eq] at h
  exact ⟨h.1, h.2⟩

/-- A time that was read is one of a day. -/
theorem valid_of_readTime {text : String} {t : TimeOfDay} (h : readTime text = some t) : t.Valid := by
  unfold readTime at h
  split at h
  · rename_i a b c d _
    split_ifs at h with hmatch
    obtain ⟨hhour, ⟨hlow, hhigh⟩, hd⟩ := hmatch
    have hc : 48 ≤ c.toNat ∧ c.toNat ≤ 53 := ⟨hlow, hhigh⟩
    have hd := digit_bounds hd
    obtain rfl := Option.some.inj h
    refine ⟨?_, show 10 * (c.toNat - 48) + (d.toNat - 48) < 60 by omega⟩
    show 10 * (a.toNat - 48) + (b.toNat - 48) < 24
    obtain ⟨rfl | rfl, hb⟩ | ⟨rfl, hlow, hhigh⟩ := hhour
    · have hb := digit_bounds hb
      have : '0'.toNat = 48 := rfl
      omega
    · have hb := digit_bounds hb
      have : '1'.toNat = 49 := rfl
      omega
    · have hb : 48 ≤ b.toNat ∧ b.toNat ≤ 51 := ⟨hlow, hhigh⟩
      have : '2'.toNat = 50 := rfl
      omega
  · cases h

theorem valid_of_timeOf {window : List (String × PyValue)} {key : String} {t : TimeOfDay} (h : timeOf window key = some t) :
    t.Valid := by
  unfold timeOf at h
  split at h
  · exact valid_of_readTime h
  · cases h

/-- A window. -/
def cleanWindow (name : String) : PyValue → Except String {w : Window // w.Valid}
  | .dict window =>
    match daysOf window with
    | none => .error (name ++ ": select valid start days for each window")
    | some days =>
      match hstart : timeOf window "start", hstop : timeOf window "end" with
      | some start, some stop =>
        if start.minutes = stop.minutes then .error (name ++ ": use different start and end times in HH:MM format")
        else .ok ⟨⟨(sortedSet Subtype.val days).map Subtype.val, start, stop⟩,
          fun day hday => by
            obtain ⟨d, -, rfl⟩ := List.mem_map.1 hday
            exact d.2, valid_of_timeOf hstart, valid_of_timeOf hstop⟩
      | _, _ => .error (name ++ ": use different start and end times in HH:MM format")
  | _ => .error (name ++ ": each window must be an object")

/-- `_clean_availability`. -/
def cleanAvailability (raw : List (String × PyValue)) (name : String) : Except String CleanAvailability :=
  match (Dict.get? raw "availability").getD (.dict [("mode", .str "always"), ("windows", .list [])]) with
  | .dict availability =>
    match PyValue.get availability "mode" with
    | .str mode =>
      if mode = "always" ∨ mode = "scheduled" then
        match (Dict.get? availability "windows").getD (.list []) with
        | .list windows =>
          if 32 < windows.length then .error (name ++ ": use at most 32 availability windows")
          else if mode = "scheduled" ∧ windows = [] then .error (name ++ ": add an availability window")
          else (windows.mapM (cleanWindow name)).map fun windows => ⟨mode = "scheduled", windows⟩
        | _ => .error (name ++ ": use at most 32 availability windows")
      else .error (name ++ ": availability must be always or scheduled")
    | _ => .error (name ++ ": availability must be always or scheduled")
  | _ => .error (name ++ ": availability must be always or scheduled")

/-! ### Groups -/

/-- A group that was accepted. -/
structure CleanGroup where
  /-- `id`. -/
  id : String
  /-- `name`. -/
  name : String
  /-- `enabled`. -/
  enabled : Bool
  /-- `availability`. -/
  availability : CleanAvailability
  /-- `members`. -/
  members : List Member

/-- The group, as its members' policies are made of it. -/
def CleanGroup.group (g : CleanGroup) : Group :=
  .members ⟨g.id, some g.enabled, some g.availability.availability⟩ g.members

/-- A group, given the ids of those before. -/
def cleanGroup (nodes : Option (List (String × String))) (ids : List String) : PyValue → Except String CleanGroup
  | .dict raw =>
    match PyValue.get raw "id" with
    | .str id =>
      if isId id && id ∉ ids then
        match PyValue.get raw "name" with
        | .str name =>
          if strip name = "" ∨ 80 < (strip name).length then
            .error "Group names must contain between 1 and 80 characters"
          else
            match (Dict.get? raw "enabled").getD (.bool true) with
            | .bool enabled =>
              (cleanMembers raw name nodes).bind fun members =>
                (cleanAvailability raw name).map fun availability => ⟨id, strip name, enabled, availability, members⟩
            | _ => .error (name ++ ": enabled must be true or false")
        | _ => .error "Group names must contain between 1 and 80 characters"
      else .error "Each worker group needs a unique valid ID"
    | _ => .error "Each worker group needs a unique valid ID"
  | _ => .error "Each worker group must be an object"

/-- The groups in turn. -/
def cleanGroups (nodes : Option (List (String × String))) : List PyValue → List String → Except String (List CleanGroup)
  | [], _ => .ok []
  | raw :: raws, ids =>
    (cleanGroup nodes ids raw).bind fun group =>
      (cleanGroups nodes raws (group.id :: ids)).map fun groups => group :: groups

/-- There are more workers than may be, of GPUs and CPUs. -/
def Exceeds (totals : ℤ × ℤ) : Prop := maxCpuWorkers < totals.2 ∨ maxGpuWorkers < totals.1

instance (totals : ℤ × ℤ) : Decidable (Exceeds totals) := inferInstanceAs (Decidable (_ ∨ _))

/-- The two peaks in words. -/
def peakText (totals : ℤ × ℤ) : String :=
  "peak CPU " ++ toString totals.2 ++ "/" ++ toString maxCpuWorkers ++ ", GPU " ++ toString totals.1 ++ "/" ++
    toString maxGpuWorkers ++ ". Reduce counts or use different hours."

/-- `validate_worker_groups`. -/
def validateWorkerGroups (value : PyValue) (nodes : Option (List (String × String))) : Except String (List CleanGroup) :=
  match value with
  | .list raws =>
    if maxGroups < raws.length then
      .error ("Worker groups must be a list of at most " ++ toString maxGroups ++ " groups")
    else
      (cleanGroups nodes raws []).bind fun groups =>
        let totals := configuredGroupTotals (groups.map CleanGroup.group)
        if Exceeds totals then .error ("Overlapping groups exceed capacity: " ++ peakText totals)
        else
          match (configuredNodeTotals (groups.map CleanGroup.group)).find? fun entry => Exceeds entry.2 with
          | some (node, totals) =>
            .error ("Overlapping groups exceed capacity on node " ++ nodeLabel nodes node ++ ": " ++ peakText totals)
          | none => .ok groups
  | _ => .error ("Worker groups must be a list of at most " ++ toString maxGroups ++ " groups")

/-! ### Accepted groups -/

theorem valid_of_mem_memberPolicies {groups : List CleanGroup} {p : Policy}
    (h : p ∈ memberPolicies (groups.map CleanGroup.group)) : p.Valid := by
  obtain ⟨group, hgroup, hp⟩ := List.mem_flatMap.1 h
  obtain ⟨g, -, rfl⟩ := List.mem_map.1 hgroup
  obtain ⟨member, -, rfl⟩ := List.mem_map.1 hp
  have hwindows : ∀ w ∈ g.availability.windows.map Subtype.val, w.Valid := by
    intro w hw
    obtain ⟨v, -, rfl⟩ := List.mem_map.1 hw
    exact v.2
  have havailable : ∀ p : Policy, p.availability = g.availability.availability → p.Valid := by
    intro p hp
    unfold Policy.Valid
    rw [hp, CleanAvailability.availability]
    cases g.availability.scheduled with
    | false => trivial
    | true => exact hwindows
  exact havailable _ rfl

/-- The policies of a node are found under it, in order. -/
theorem get?_policiesByNode (policies : List Policy) (node : String) :
    (Dict.get? (policiesByNode policies) node).getD [] = policies.filter (·.onNode = some node) := by
  have hfold : ∀ byNode : List (String × List Policy),
      (Dict.get? (policies.foldl (fun byNode p =>
        match p.onNode with
        | some node => Dict.set byNode node ((Dict.get? byNode node).getD [] ++ [p])
        | none => byNode) byNode) node).getD [] =
      (Dict.get? byNode node).getD [] ++ policies.filter (·.onNode = some node) := by
    induction policies with
    | nil => exact fun byNode => (List.append_nil _).symm
    | cons p policies ih =>
      intro byNode
      rw [List.foldl_cons, ih]
      cases hnode : p.onNode with
      | none => rw [List.filter_cons_of_neg (by simp [hnode])]
      | some other =>
        dsimp only
        rw [Dict.get?_set]
        by_cases heq : other = node
        · rw [if_pos heq, List.filter_cons_of_pos (by simp [hnode, heq]), heq]
          simp
        · rw [if_neg heq, List.filter_cons_of_neg (by simp [hnode, heq])]
  exact hfold []

/-- Totals that do not exceed bound the load of each resource. -/
theorem load_le_of_peaks {policies : List Policy} (h : ¬ Exceeds (peaks policies)) (resource : Resource) (minute : ℕ) :
    load (policies.filter (·.resource = resource)) minute ≤ 64 := by
  have hbound : peak (policies.filter (·.resource = resource)) ≤ 64 := by
    obtain ⟨hcpu, hgpu⟩ := not_or.1 h
    cases resource with
    | cpu => exact not_lt.1 hcpu
    | gpu => exact not_lt.1 hgpu
  have hload := (isGreatest_peak (policies.filter (·.resource = resource))).2 (Set.mem_insert_of_mem _ ⟨minute, rfl⟩)
  exact Int.ofNat_le.1 (hload.trans hbound)

/-- What was accepted exceeds neither here nor on a node. -/
theorem not_exceeds_of_validate {value : PyValue} {nodes : Option (List (String × String))} {groups : List CleanGroup}
    (h : validateWorkerGroups value nodes = .ok groups) (node : Option String) :
    ¬ Exceeds (peaks ((memberPolicies (groups.map CleanGroup.group)).filter (·.onNode = node))) := by
  unfold validateWorkerGroups at h
  split at h
  · split at h
    · cases h
    · rename_i raws _
      cases hclean : cleanGroups nodes raws [] with
      | error e =>
        rw [hclean] at h
        cases h
      | ok clean =>
        rw [hclean] at h
        dsimp only [Except.bind] at h
        split at h
        · cases h
        · rename_i hhere
          split at h
          · cases h
          · rename_i hnone
            cases h
            cases node with
            | none => exact hhere
            | some node =>
              intro hexceeds
              have hfound := get?_policiesByNode (memberPolicies (groups.map CleanGroup.group)) node
              cases hget : Dict.get? (policiesByNode (memberPolicies (groups.map CleanGroup.group))) node with
              | none =>
                rw [hget] at hfound
                rw [← hfound] at hexceeds
                exact absurd hexceeds (by decide)
              | some policies =>
                rw [hget] at hfound
                refine absurd (List.find?_eq_none.1 hnone (node, peaks policies) ?_) ?_
                · exact List.mem_map.2 ⟨(node, policies), Dict.mem_of_get? hget, rfl⟩
                · rw [not_not]
                  refine decide_eq_true ?_
                  show Exceeds (peaks policies)
                  rwa [show policies = _ from hfound]
  · cases h

/-- **Accepted groups never ask for too much**: at each minute of the week, the open members of one kind on this app, or on
one node, have at most 64 workers between them. What is compared with the limit is the maximum over the minutes of any
policies' workers, and the minutes of a mask are those the group is open at. -/
theorem within_capacity {value : PyValue} {nodes : Option (List (String × String))} {groups : List CleanGroup}
    (h : validateWorkerGroups value nodes = .ok groups) :
    (∀ minute < Policy.weekMinutes, ∀ (resource : Resource) (node : Option String),
      (((memberPolicies (groups.map CleanGroup.group)).filter fun p =>
        p.onNode = node ∧ p.resource = resource ∧ p.OpenAt minute).map Policy.count).sum ≤ 64) ∧
    (∀ policies : List Policy, (∀ p ∈ policies, p.Valid) →
      peak policies = ((Finset.range Policy.weekMinutes).sup (load policies) : ℕ)) ∧
    ∀ p : Policy, p.Valid → ∀ minute < Policy.weekMinutes, p.groupWeeklyMask.testBit minute = true ↔ p.OpenAt minute := by
  refine ⟨fun minute hminute resource node => ?_, fun policies => peak_eq, fun p hp minute hminute =>
    (Policy.testBit_groupWeeklyMask hp minute).trans (and_iff_right hminute)⟩
  refine le_trans (le_of_eq ?_) (load_le_of_peaks (not_exceeds_of_validate h node) resource minute)
  unfold load
  rw [List.filter_filter, List.filter_filter]
  refine congrArg (fun l => (List.map Policy.count l).sum) (List.filter_congr fun p hp => ?_)
  rw [Bool.eq_iff_iff, Bool.and_eq_true, Bool.and_eq_true,
    Policy.testBit_groupWeeklyMask (valid_of_mem_memberPolicies hp)]
  simp only [decide_eq_true_eq, hminute, true_and]
  tauto

/-- A group of 40 CPU workers. -/
def scheduledGroup (id start stop : String) (day : ℤ) : PyValue :=
  .dict [("id", .str id), ("name", .str id), ("availability", .dict [("mode", .str "scheduled"),
    ("windows", .list [.dict [("days", .list [.int day]), ("start", .str start), ("end", .str stop)]])]),
    ("members", .list [.dict [("id", .str "cpus"), ("resource", .str "cpu"), ("count", .int 40),
      ("job_types", .list [.str "previews"])]])]

/-- Sunday night runs into Monday morning, where another group takes over. -/
theorem night_then_day : ∃ groups : List CleanGroup,
    validateWorkerGroups (.list [scheduledGroup "night" "23:00" "07:00" 6, scheduledGroup "day" "07:00" "09:00" 0]) none =
      .ok groups ∧
    ∀ minute < Policy.weekMinutes, ∀ (resource : Resource) (node : Option String),
      (((memberPolicies (groups.map CleanGroup.group)).filter fun p =>
        p.onNode = node ∧ p.resource = resource ∧ p.OpenAt minute).map Policy.count).sum ≤ 64 := by
  have haccepted : (validateWorkerGroups
      (.list [scheduledGroup "night" "23:00" "07:00" 6, scheduledGroup "day" "07:00" "09:00" 0]) none).toOption.isSome =
        true := by decide +kernel
  cases hresult : validateWorkerGroups
      (.list [scheduledGroup "night" "23:00" "07:00" 6, scheduledGroup "day" "07:00" "09:00" 0]) none with
  | error e =>
    rw [hresult] at haccepted
    cases haccepted
  | ok groups => exact ⟨groups, rfl, (within_capacity hresult).1⟩

end MediaPreview.Groups
