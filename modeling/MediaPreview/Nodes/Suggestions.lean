import MediaPreview.Lib.Pieces
import MediaPreview.Servers.Paths

/-!
# The suggested mapping row

A node sees the media elsewhere than this application does: each row of its mapping pairs a folder here with one there, and
`map_app_path` of `nodes/protocol.py` puts a path where the longest row says (`mapAppPath`). When the node lacks a library,
`suggest_row` of `nodes/mappings.py` looks in the node's listings for a folder of the library's name, and moves the row so
that the library is there (`suggestRow`).

Unicode is a parameter (`CaseRules`).
-/

namespace MediaPreview.Nodes

open Separators Servers

/-- `PathMapping`. -/
structure PathMapping where
  /-- `app_prefix`. -/
  appPrefix : Path
  /-- `node_prefix`. -/
  nodePrefix : Path
  deriving DecidableEq

/-- `/` or `\`. -/
def isSlash (c : Char) : Bool := c = '/' || c = '\\'

/-- `path.rstrip("/\\") or path`. -/
def trimmed (path : Path) : Path := if path.rdropWhile isSlash = [] then path else path.rdropWhile isSlash

/-! ### The longest row -/

/-- The loop that keeps the best row so far, with its place: a row that covers, and is better than the one kept. -/
def bestRow (covers : PathMapping → Bool) (better : PathMapping → PathMapping → Bool) (mappings : List PathMapping) :
    Option (PathMapping × ℕ) :=
  mappings.zipIdx.foldl (fun best row => if covers row.1 && best.all fun b => better row.1 b.1 then some row else best) none

/-- `_prefix_matches`. -/
def prefixMatches (path pre : Path) (sep : Char) : Bool :=
  path = trimmed pre || (trimmed pre ++ [sep]).isPrefixOf path ||
    ((trimmed pre).getLast? = some sep && (trimmed pre).isPrefixOf path)

/-- The row `map_app_path` picks, with its place. -/
def pickedRow (path : Path) (mappings : List PathMapping) : Option (PathMapping × ℕ) :=
  bestRow (fun row => prefixMatches path row.appPrefix '/')
    (fun row best => row.appPrefix.length > best.appPrefix.length) mappings

/-- What is left of a path below a row's folder. -/
def restText (path : Path) (row : PathMapping) : Path :=
  (path.drop (rstrip '/' row.appPrefix).length).dropWhile (· = '/')

/-- A row's folder on the node, to put names behind. -/
def baseText (row : PathMapping) : Path :=
  if row.nodePrefix.length > 1 then row.nodePrefix.rdropWhile isSlash else row.nodePrefix

/-- Where a row puts a path. -/
def putOnNode (path : Path) (row : PathMapping) (nodeSep : Char) : Path :=
  if restText path row = [] then baseText row
  else
    (if (baseText row).getLast? = some nodeSep then baseText row else baseText row ++ [nodeSep]) ++
      (restText path row).map fun c => if c = '/' then nodeSep else c

/-- `map_app_path`. -/
def mapAppPath (path : Path) (mappings : List PathMapping) (nodeSep : Char) : Option Path :=
  (pickedRow path mappings).map fun best => putOnNode path best.1 nodeSep

/-- The folder of a row: `row.app_prefix.rstrip("/") or "/"`. -/
def folderOf (row : PathMapping) : Path := if rstrip '/' row.appPrefix = [] then ['/'] else rstrip '/' row.appPrefix

/-- `_covering_row`, with the row's place. -/
def coveringRow (appRoot : Path) (mappings : List PathMapping) : Option (PathMapping × ℕ) :=
  bestRow (fun row => appRoot = folderOf row || (rstrip '/' (folderOf row) ++ ['/']).isPrefixOf appRoot)
    (fun row best => (folderOf row).length > (rstrip '/' best.appPrefix).length) mappings

/-! ### Folders on the node -/

/-- `_node_sep`. -/
def nodeSep (path : Path) : Char := if '\\' ∈ path ∨ path[1]? = some ':' then '\\' else '/'

/-- `_join`. -/
def joinNode (folder name : Path) : Path :=
  (if name = [] ∨ folder.getLast? = some (nodeSep folder) then folder else folder ++ [nodeSep folder]) ++ name

/-- The loop of `_parent`, with the separator of the whole path. -/
def parentLoop (sep : Char) : ℕ → Path → Path
  | 0, path => path
  | levels + 1, path =>
    -- what is before the last separator, without any separators behind, and that separator with what follows it
    let cut := (rstrip sep path).rdropWhile (· ≠ sep)
    if cut.length ≤ 1 then (if cut = [] then rstrip sep path else cut)
    else
      let up := cut.dropLast
      parentLoop sep levels (if up.length = 2 ∧ up[1]? = some ':' then up ++ [sep] else up)

/-- `_parent`. -/
def parentNode (path : Path) (levels : ℕ) : Path := parentLoop (nodeSep path) levels path

/-- What Unicode says of letters. -/
structure CaseRules where
  /-- `casefold` of a character: it may be several. -/
  casefold : Char → List Char
  /-- `unicodedata.normalize("NFD", …)`. -/
  nfd : Path → Path
  /-- A slash has no case. -/
  casefold_slash : ∀ c, isSlash c = true → casefold c = [c]
  /-- Nothing else is folded to nothing, or to a slash. -/
  casefold_keeps : ∀ c, isSlash c = false → casefold c ≠ [] ∧ ∀ d ∈ casefold c, isSlash d = false
  /-- Slashes are not composed of anything, nor a part of anything. -/
  nfd_slashes : ∀ name, (nfd name).all isSlash = name.all isSlash

variable (R : CaseRules)

/-- `str.casefold`. -/
def CaseRules.fold (name : Path) : Path := name.flatMap R.casefold

/-- `_caseless`. -/
def CaseRules.caseless (name : Path) : Path := R.nfd (R.fold (R.nfd name))

/-- `_closest_name`, of the names that are texts. -/
def closestName (wanted : Path) (names : List (Option Path)) : Option Path :=
  let candidates := names.filterMap id
  [id, R.fold, R.caseless].findSome? fun key => candidates.find? fun name => key name = key wanted

/-- `_same_node_path`. -/
def sameNodePath (a b : Path) : Bool :=
  if nodeSep a = '\\' then R.fold (trimmed a) = R.fold (trimmed b) else trimmed a = trimmed b

/-! ### The suggestion -/

/-- The folders of a library's root below a row's folder. -/
def restOf (appRoot : Path) (row : PathMapping) : List Path :=
  ((appRoot.drop (folderOf row).length).splitOn '/').filter fun part => !part.isEmpty

/-- The last component of a library's root: of what is below the row's folder, or of all. -/
def lastOf (appRoot : Path) (row : PathMapping) : Path :=
  (restOf appRoot row).getLast?.getD ((rstrip '/' appRoot).rtakeWhile (· ≠ '/'))

/-- The `node_prefix` that one of the node's listings makes of a row, if any. -/
def suggestIn (appRoot : Path) (row : PathMapping) (taken : List Path) (nodeDir : Path) (names : List (Option Path)) :
    Option Path :=
  match closestName R (lastOf appRoot row) names with
  | none => none
  | some name =>
    let seenRoot := joinNode nodeDir name
    if taken.any fun other => sameNodePath R seenRoot other then none
    else
      let newPrefix := if restOf appRoot row = [] then seenRoot else parentNode seenRoot (restOf appRoot row).length
      let mapped := (restOf appRoot row).foldl joinNode newPrefix
      if !sameNodePath R mapped seenRoot then none
      else if newPrefix.rdropWhile isSlash ≠ row.nodePrefix.rdropWhile isSlash then some newPrefix
      else none

/-- What the node listed: `none` where it sent no `dict`; a folder that is no text, or names that are no list, are `none`. -/
abbrev Listings := Option (List (Option Path × Option (List (Option Path))))

/-- `suggest_row`, `from` and `to`. -/
def suggestRow (appRoot : Path) (mappings : List PathMapping) (nearby : Listings) (taken : List Path) :
    Option (Path × Path) :=
  match coveringRow appRoot mappings, nearby with
  | some (row, _), some nearby =>
    if lastOf appRoot row = [] then none
    else
      (nearby.findSome? fun entry =>
        match entry with
        | (some nodeDir, some names) => suggestIn R appRoot row taken nodeDir names
        | _ => none).map fun newPrefix => (row.nodePrefix, newPrefix)
  | _, _ => none

end MediaPreview.Nodes
