import Mathlib.Data.Finset.Basic
import MediaPreview.Lib.PyValue
import MediaPreview.Lib.Tally

/-!
# The ledger of completed files

`CompletionLedger` of `loudness/resume.py`: the stored rows, what makes one a candidate for resuming (`savedCandidate`), the
loop that re-checks the candidates and credits those that hold (`restore`), and the results it lists (`currentResults`).

`json.loads` is a parameter: a text is read as a value, or raises a `ValueError`, or something else. The files on disk, the
checks and the cancel flag are an environment, asked at each of the loop's steps (`Env`). An operation that raises is `none`
or, where what it did before matters, `Except.error` with the state at that moment.
-/

namespace MediaPreview.Loudness

open Tally

/-- The entries of a `dict`. -/
abbrev Entries := List (String × PyValue)

/-- `ProcessableItem`. -/
structure Item where
  /-- `canonical_path`. -/
  canonicalPath : String
  /-- `server_id`. -/
  serverId : String
  /-- `item_id_by_server`. -/
  itemIdByServer : List (String × String)

/-- `SourceFingerprint`. -/
structure SourceFingerprint where
  /-- `path`. -/
  path : String
  /-- `device`. -/
  device : ℤ
  /-- `inode`. -/
  inode : ℤ
  /-- `size`. -/
  size : ℤ
  /-- `modified_ns`. -/
  modifiedNs : ℤ
  /-- `changed_ns`. -/
  changedNs : ℤ

/-- `ItemOutcome`. -/
structure ItemOutcome where
  /-- `outcome_key`. -/
  outcomeKey : String
  /-- `publisher_rows`. -/
  publisherRows : List Entries

/-- What comes of reading a text. -/
inductive Loaded where
  /-- Its value. -/
  | value (v : PyValue)
  /-- A `ValueError`. -/
  | malformed
  /-- Anything else it raises. -/
  | raises

/-- `_SUCCESS`. -/
def success : List String := ["loudness_written", "loudness_up_to_date"]

/-- `isinstance(value, str)`. -/
def isStr : PyValue → Bool
  | .str _ => true
  | _ => false

/-! ### Rows -/

/-- `SourceFingerprint.matches`, by `same_source`: the change time never counts. -/
def SourceFingerprint.matches (fingerprint : SourceFingerprint) : PyValue → Bool
  | .list (path :: source) =>
    path.eq (.str fingerprint.path) && decide (5 ≤ source.length) &&
      PyValue.eqItems [.int fingerprint.device, .int fingerprint.inode, .int fingerprint.size, .int fingerprint.modifiedNs]
        (source.take 4)
  | _ => false

/-- The server of a row `_valid_servers` lets through, after those in `ids`. -/
def validServer (ids : List String) (row : Entries) : Option String :=
  match PyValue.get row "server_id" with
  | .str id =>
    if id ≠ "" ∧ ((Dict.get? row "server_name").all isStr && (PyValue.get row "server_type").eq (.str "plex") &&
        success.any (fun status => (PyValue.get row "status").eq (.str status)) &&
        (Dict.get? row "message").all isStr) ∧ id ∉ ids then some id
    else none
  | _ => none

/-- The loop of `_valid_servers`. -/
def validServersFrom (ids : List String) : List PyValue → Bool
  | [] => true
  | .dict row :: rows =>
    match validServer ids row with
    | none => false
    | some id => validServersFrom (id :: ids) rows
  | _ :: _ => false

/-- `_valid_servers`. -/
def validServers : PyValue → Bool
  | .list rows => validServersFrom [] rows
  | _ => false

/-- What makes a stored row a candidate: a version 1 success for the same file, server and items, with valid servers. -/
def isCandidate (item : Item) (fingerprint : SourceFingerprint) (row : Entries) : Bool :=
  (PyValue.get row "version").eq (.int 1) &&
    success.any (fun outcome => (PyValue.get row "outcome").eq (.str outcome)) &&
    fingerprint.matches (PyValue.get row "source") &&
    (PyValue.get row "server_id").eq (.str item.serverId) &&
    (PyValue.get row "item_id_by_server").eq (.dict (item.itemIdByServer.map fun e => (e.1, .str e.2))) &&
    validServers (PyValue.get row "servers")

/-- `_saved_candidate`, with the file's fingerprint as it is read then; `none` where it raises. -/
def savedCandidate (loads : String → Loaded) (fingerprint : Option SourceFingerprint) (item : Item) :
    Option String → Option (Option Entries)
  | none => some none
  | some encoded =>
    if encoded = "" then some none
    else
      match loads encoded with
      | .raises => none
      | .malformed => some none
      | .value (.dict row) =>
        match fingerprint with
        | none => some none
        | some fingerprint => some (if isCandidate item fingerprint row then some row else none)
      | .value _ => some none

/-- A value a set may hold. -/
def hashable : PyValue → Bool
  | .list _ | .dict _ => false
  | _ => true

/-- Two sets of values are equal. -/
def sameSet (xs ys : List PyValue) : Bool := xs.all (fun x => ys.any x.eq) && ys.all fun y => xs.any y.eq

/-- The ids of the servers of a stored row. -/
def serverIds : PyValue → List PyValue
  | .list rows => rows.map fun
    | .dict row => PyValue.get row "server_id"
    | _ => .none
  | _ => []

/-- The check still holds: up to date for exactly the row's servers, and the file is the one stored; `none` where it
raises. -/
def stillHolds (current : Option ItemOutcome) (fingerprint : Option SourceFingerprint) (row : Entries) : Option Bool :=
  match current with
  | none => some false
  | some current =>
    if current.outcomeKey ≠ "loudness_up_to_date" then some false
    else
      let ids := current.publisherRows.map fun server => PyValue.get server "server_id"
      if !ids.all hashable then none
      else some (sameSet ids (serverIds (PyValue.get row "servers")) &&
        fingerprint.any fun fingerprint => fingerprint.matches (PyValue.get row "source"))

/-! ### Tallies -/

/-- A server's entry of the aggregate. -/
structure ServerEntry where
  /-- `server_name`. -/
  serverName : String
  /-- `server_type`. -/
  serverType : String
  /-- `counts`. -/
  counts : List (String × ℕ)
  /-- `chapter_counts`. -/
  chapterCounts : List (String × ℕ)

/-- `_chapter_result_bucket` of a row with one of the success statuses; `none` where it raises. -/
def chapterResultBucket (row : Entries) : Option (Option String) :=
  match PyValue.get row "artifacts" with
  | .dict artifacts =>
    match PyValue.get artifacts "chapters" with
    | .dict chapter =>
      match PyValue.get chapter "status" with
      | .str status =>
        if status = "ready" then
          match PyValue.get chapter "updated" with
          | .bool updated => some (some (if updated then "updated" else "already_existed"))
          | _ => some (some "ready")
        else if status ∈ ["none", "skipped", "waiting", "failed"] then some (some status)
        else if status = "pending" then some (some "incomplete")
        else some none
      | .list _ | .dict _ => none
      | _ => some none
    | _ => some none
  | _ => some none

/-- The text of a value, `""` where it has none. -/
def textOr (v : PyValue) : String :=
  match v with
  | .str s => s
  | _ => ""

/-- One row of `fold_publisher_rows_into_aggregate`, of those that `_valid_servers` lets through. -/
def foldRow (aggregate : List (String × ServerEntry)) (row : Entries) : Option (List (String × ServerEntry)) :=
  let serverId := textOr (PyValue.get row "server_id")
  let name := textOr (PyValue.get row "server_name")
  let entry : ServerEntry := match Dict.get? aggregate serverId with
    | none => ⟨name, "plex", [], []⟩
    | some entry => if entry.serverName = "" then { entry with serverName := name } else entry
  (chapterResultBucket row).map fun bucket =>
    Dict.set aggregate serverId
      { entry with
        counts := bump entry.counts (textOr (PyValue.get row "status"))
        chapterCounts := match bucket with
          | none => entry.chapterCounts
          | some bucket => bump entry.chapterCounts bucket }

/-- `fold_publisher_rows_into_aggregate`. -/
def foldRows (aggregate : List (String × ServerEntry)) : PyValue → Option (List (String × ServerEntry))
  | .list rows => rows.foldlM (fun aggregate row =>
      match row with
      | .dict row => foldRow aggregate row
      | _ => none) aggregate
  | _ => none

/-! ### Restoring -/

/-- What the loop asks, at each of its steps. -/
structure Env where
  /-- `source_fingerprint` when a file's stored row is looked at. -/
  before : Item → Option SourceFingerprint
  /-- The check of a file; `none` where it raises. -/
  check : Item → Option (Option ItemOutcome)
  /-- `source_fingerprint` after the check; `none` where it raises. -/
  after : Item → Option (Option SourceFingerprint)
  /-- What `cancel_check` says, the n-th time. -/
  cancelled : ℕ → Bool
  /-- Reporting the progress raises. -/
  progressRaises : Item → Bool

/-- The loop's variables. -/
structure Pass where
  /-- `remaining`. -/
  remaining : List Item
  /-- `_accepted`. -/
  accepted : Finset String
  /-- `successful`. -/
  successful : ℕ
  /-- `outcome_counts`. -/
  outcomeCounts : List (String × ℕ)
  /-- `publishers_aggregate`. -/
  publishersAggregate : List (String × ServerEntry)
  /-- How often `cancel_check` was asked. -/
  asked : ℕ

/-- Nothing judged. -/
def Pass.start : Pass := ⟨[], ∅, 0, [], [], 0⟩

/-- The cancel flag is asked. -/
def Pass.ask (p : Pass) : Pass := { p with asked := p.asked + 1 }

/-- The file still needs work. -/
def Pass.leave (p : Pass) (item : Item) : Pass := { p with remaining := p.remaining ++ [item] }

/-- The file is counted and accepted. -/
def Pass.count (p : Pass) (item : Item) (row : Entries) : Pass :=
  { p with
    successful := p.successful + 1
    accepted := insert item.canonicalPath p.accepted
    outcomeCounts := bump p.outcomeCounts (textOr (PyValue.get row "outcome")) }

/-- The file is credited. -/
def Pass.credit (p : Pass) (env : Env) (item : Item) (row : Entries) : Except Pass Pass :=
  match foldRows p.publishersAggregate (PyValue.get row "servers") with
  | none => .error (p.count item row)
  | some aggregate =>
    if env.progressRaises item then .error { p.count item row with publishersAggregate := aggregate }
    else .ok { p.count item row with publishersAggregate := aggregate }

/-- One file is judged, after its check. -/
def judge (env : Env) (p : Pass) (item : Item) (candidate : Option Entries) : Except Pass Pass :=
  if env.cancelled p.asked then .error p.ask
  else
    match candidate with
    | none => .ok (p.ask.leave item)
    | some row =>
      match env.check item with
      | none => .error p.ask
      | some current =>
        match env.after item with
        | none => .error p.ask
        | some fingerprint =>
          match stillHolds current fingerprint row with
          | none => .error p.ask
          | some false => .ok (p.ask.leave item)
          | some true => p.ask.credit env item row

/-- A chunk's files, judged in order. -/
def judgeAll (env : Env) : Pass → List (Item × Option Entries) → Except Pass Pass
  | p, [] => .ok p
  | p, (item, candidate) :: rest =>
    match judge env p item candidate with
    | .error p => .error p
    | .ok p => judgeAll env p rest

/-- A file with its candidate. -/
def withCandidate (loads : String → Loaded) (env : Env) (saved : List (String × String)) (item : Item) :
    Option (Item × Option Entries) :=
  (savedCandidate loads (env.before item) item (Dict.get? saved item.canonicalPath)).map fun candidate => (item, candidate)

/-- The chunks, one after another: first a chunk's candidates, then its checks. -/
def judgeChunks (loads : String → Loaded) (env : Env) (saved : List (String × String)) :
    Pass → List (List Item) → Except Pass Pass
  | p, [] => .ok p
  | p, chunk :: chunks =>
    if env.cancelled p.asked then .error p.ask
    else
      match chunk.mapM (withCandidate loads env saved) with
      | none => .error p.ask
      | some candidates =>
        match judgeAll env p.ask candidates with
        | .error p => .error p
        | .ok p => judgeChunks loads env saved p chunks

/-- `RESTORE_CHUNK`. -/
def restoreChunk : ℕ := 64

/-- `items[start : start + size]` for every `start`. -/
def chunksOf {α : Type} (size : ℕ) (items : List α) : List (List α) :=
  (List.range ((items.length + size - 1) / size)).map fun k => (items.drop (size * k)).take size

/-- The state `restore` returns. -/
structure CarriedState where
  /-- `successful`. -/
  successful : ℕ
  /-- `failed`. -/
  failed : ℕ := 0
  /-- `failed_paths`. -/
  failedPaths : List String := []
  /-- `outcome_counts`. -/
  outcomeCounts : List (String × ℕ)
  /-- `publishers_aggregate`. -/
  publishersAggregate : List (String × ServerEntry)
  /-- `cpu_fallback_files`. -/
  cpuFallbackFiles : ℕ := 0

/-- `CompletionLedger`: the rows stored, each path once, and the paths accepted. -/
structure CompletionLedger where
  /-- The table `completions`. -/
  completions : List (String × String)
  /-- `_accepted`. -/
  accepted : Finset String
  /-- The path is the table's key. -/
  nodup : (completions.map Prod.fst).Nodup

/-- `restore`: the ledger afterwards, and the files that remain with the state; `none` where it raises. -/
def CompletionLedger.restore (ledger : CompletionLedger) (loads : String → Loaded) (env : Env) (items : List Item) :
    CompletionLedger × Option (List Item × CarriedState) :=
  match judgeChunks loads env ledger.completions .start (chunksOf restoreChunk items) with
  | .error p => ({ ledger with accepted := p.accepted }, none)
  | .ok p => ({ ledger with accepted := p.accepted }, some (p.remaining,
      { successful := p.successful, outcomeCounts := p.outcomeCounts, publishersAggregate := p.publishersAggregate }))

/-! ### The results listed -/

/-- A server of `previous_result`. -/
structure PreviousServer where
  /-- `id`. -/
  id : PyValue
  /-- `name`. -/
  name : PyValue
  /-- `type`. -/
  type : PyValue
  /-- `status`. -/
  status : PyValue

/-- A result that is listed. -/
structure PreviousResult where
  /-- `file`. -/
  file : String
  /-- `outcome`. -/
  outcome : PyValue
  /-- `servers`. -/
  servers : List PreviousServer
  /-- `reason`. -/
  reason : PyValue

/-- `row.get(key, row.get(other, ""))`. -/
def getOr (row : Entries) (key other : String) : PyValue :=
  (Dict.get? row key).getD ((Dict.get? row other).getD (.str ""))

/-- A server as `previous_result` keeps it. -/
def previousServer (row : Entries) : PreviousServer where
  id := getOr row "server_id" "id"
  name := getOr row "server_name" "name"
  type := getOr row "server_type" "type"
  status := (Dict.get? row "status").getD (.str "")

/-- The servers of `previous_result`; `none` where it raises. -/
def previousServers (servers : PyValue) : Option (List PreviousServer) :=
  if !servers.truthy then some []
  else
    match servers with
    | .list rows => rows.mapM fun
      | .dict row => some (previousServer row)
      | _ => none
    | _ => none

/-- The result of a stored row; `none` where it raises. -/
def resultOf (loads : String → Loaded) (stored : String × String) : Option PreviousResult :=
  match loads stored.2 with
  | .value (.dict row) =>
    (Dict.get? row "outcome").bind fun outcome =>
      (Dict.get? row "servers").bind fun servers =>
        (previousServers servers).bind fun servers =>
          (Dict.get? row "message").map fun message => ⟨stored.1, outcome, servers, message⟩
  | _ => none

/-- `current_results`; `none` where it raises. -/
def CompletionLedger.currentResults (ledger : CompletionLedger) (loads : String → Loaded) : Option (List PreviousResult) :=
  (ledger.completions.filter fun stored => decide (stored.1 ∈ ledger.accepted)).mapM (resultOf loads)

end MediaPreview.Loudness
