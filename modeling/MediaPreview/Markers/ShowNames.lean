import MediaPreview.Lib.Lines
import MediaPreview.Lib.Text

/-!
# Folders of one show

Two folders are the same show if their names have the same `show_key` (`markers/external_ids.py`): the first id of tvdb,
tmdb and imdb, else the name without id tags, case and spacing aside. `same_show_names` finds them in a listing with one
case-insensitive search for the id, or for the longest word of the name, and parses the hits only. What Python knows of
letters is a parameter here (`Characters`).
-/

namespace MediaPreview.Markers

open Lines Text

/-- A folder's name. -/
abbrev FolderName := List Char

/-- What Python knows of characters. -/
structure Characters where
  /-- `isalpha`. -/
  isAlpha : Char → Bool
  /-- `casefold` of one character: it may be several. -/
  casefold : Char → List Char
  /-- A literal character of a pattern matches this one under `re.IGNORECASE`. -/
  same : Char → Char → Bool
  /-- Each matches itself. -/
  same_self : ∀ c, same c c = true
  /-- A newline has no other case. -/
  same_newline : ∀ c, same c '\n' = true → c = '\n'
  /-- The letter of an imdb id. -/
  same_t : same 't' 'T' = true
  /-- Characters that are folded alike match. -/
  same_of_casefold : ∀ a b, casefold a = casefold b → same a b = true
  /-- A space is folded to itself. -/
  casefold_space : casefold ' ' = [' ']
  /-- Nothing else is folded to a space. -/
  space_of_casefold : ∀ c, ' ' ∈ casefold c → c = ' '

/-! ### Ids -/

/-- The characters a letter of `_ID_RE` matches. -/
def variants : Char → List Char
  | 't' => ['t', 'T']
  | 'm' => ['m', 'M']
  | 'd' => ['d', 'D']
  | 'b' => ['b', 'B']
  | 'v' => ['v', 'V']
  | 'i' => ['i', 'I', 'İ', 'ı']
  | c => [c]

/-- A word of `_ID_RE` is in front. -/
def wordAhead (word s : List Char) : Bool := startsWith (fun p c => c ∈ variants p) word s

/-- `\d`. -/
def isDigit (c : Char) : Bool := (digitValue c).isSome

/-- An id tag: the scheme as spelled, the value as spelled, and how long the tag is. -/
structure IdTag where
  /-- `(tmdb|tvdb|imdb)`. -/
  scheme : List Char
  /-- `((?:tt)?\d+)`. -/
  value : List Char
  /-- The whole match. -/
  length : ℕ

/-- `_ID_RE` at the front of a text. -/
def idTag : List Char → Option IdTag
  | [] => none
  | c :: s =>
    if (c = '{' ∨ c = '[') ∧ (wordAhead "tmdb".toList s || wordAhead "tvdb".toList s || wordAhead "imdb".toList s) then
      let word := if wordAhead "id".toList (s.drop 4) then 6 else 4
      match s.drop word with
      | [] => none
      | sep :: s' =>
        if sep = '-' ∨ sep = '=' then
          let prefixed := if wordAhead "tt".toList s' then 2 else 0
          let digits := (s'.drop prefixed).takeWhile isDigit
          match s'.drop (prefixed + digits.length) with
          | [] => none
          | close :: _ =>
            if digits ≠ [] ∧ (close = '}' ∨ close = ']') then
              some ⟨s.take 4, s'.take (prefixed + digits.length), word + prefixed + digits.length + 3⟩
            else none
        else none
    else none

/-- `_ID_RE.findall`. -/
def findTags : ℕ → List Char → List IdTag
  | _, [] => []
  | skip + 1, _ :: s => findTags skip s
  | 0, c :: s =>
    match idTag (c :: s) with
    | some tag => tag :: findTags (tag.length - 1) s
    | none => findTags 0 s

/-- `_ID_RE.sub(" ", …)`. -/
def withoutTags : ℕ → List Char → List Char
  | _, [] => []
  | skip + 1, _ :: s => withoutTags skip s
  | 0, c :: s =>
    match idTag (c :: s) with
    | some tag => ' ' :: withoutTags (tag.length - 1) s
    | none => c :: withoutTags 0 s

/-- `lower` of a character an id tag's scheme and value may hold. -/
def lowerChar : Char → List Char
  | 'T' => ['t']
  | 'M' => ['m']
  | 'D' => ['d']
  | 'B' => ['b']
  | 'V' => ['v']
  | 'I' => ['i']
  | 'İ' => ['i', Char.ofNat 0x307]
  | c => [c]

/-- `lower`. -/
def lower (s : List Char) : List Char := s.flatMap lowerChar

/-- The id of a tag, if it is one: `tt` is an imdb id's and no other's, and 0 is none. -/
def idOf (tag : IdTag) : Option (List Char × List Char) :=
  let scheme := lower tag.scheme
  let isTt := "tt".toList.isPrefixOf (lower tag.value)
  if decide (scheme = "imdb".toList) ≠ isTt then none
  else
    let digits := if isTt then tag.value.drop 2 else tag.value
    if digits.all fun c => digitValue c = some 0 then none
    else some (scheme, if scheme = "imdb".toList then lower tag.value else tag.value)

/-- `_ids_in`, in the order they are found: of each scheme the first counts. -/
def idsIn (name : FolderName) : List (List Char × List Char) := (findTags 0 name).filterMap idOf

/-! ### Keys -/

/-- `_SHOW_ID_ORDER`. -/
def showIdOrder : List (List Char) := ["tvdb".toList, "tmdb".toList, "imdb".toList]

/-- `isspace`. -/
def isSpace (c : Char) : Bool :=
  c.toNat ∈ [0x9, 0xA, 0xB, 0xC, 0xD, 0x1C, 0x1D, 0x1E, 0x1F, 0x20, 0x85, 0xA0, 0x1680, 0x2000, 0x2001, 0x2002, 0x2003,
    0x2004, 0x2005, 0x2006, 0x2007, 0x2008, 0x2009, 0x200A, 0x2028, 0x2029, 0x202F, 0x205F, 0x3000]

/-- `_ID_RE.sub(" ", name).split()`. -/
def words (name : FolderName) : List (List Char) := ((withoutTags 0 name).splitOnP isSpace).filter (· ≠ [])

variable (u : Characters)

/-- `_bare_name`. -/
def bareName (name : FolderName) : List Char := ([' '].intercalate (words name)).flatMap u.casefold

/-- `show_key`. -/
def showKey (name : FolderName) : List Char × List Char :=
  match showIdOrder.findSome? fun scheme => ((idsIn name).lookup scheme).map fun value => (scheme, value) with
  | some key => key
  | none => ("name".toList, bareName u name)

/-! ### The search -/

/-- `FolderNames`. -/
structure FolderNames where
  /-- `text`. -/
  text : List Char
  /-- `with_newline`. -/
  withNewline : List FolderName

/-- `FolderNames(entries)`. -/
def FolderNames.ofEntries (entries : List FolderName) : FolderNames where
  text := join '\n' (entries.filter fun entry => '\n' ∉ entry)
  withNewline := entries.filter fun entry => '\n' ∈ entry

/-- `names`. -/
def FolderNames.names (folder : FolderNames) : List FolderName :=
  (if folder.text = [] then [] else folder.text.splitOn '\n') ++ folder.withNewline

/-- `max(words, key=len)`, the first of the longest, and the empty word if there are none. -/
def longest : List (List Char) → List Char
  | [] => []
  | word :: words => words.foldl (fun best word => if best.length < word.length then word else best) word

/-- The longest word of a name, of those with a letter if there are any. -/
def hintWord (name : FolderName) : List Char :=
  let lettered := (words name).filter fun word => word.any u.isAlpha
  longest (if lettered = [] then words name else lettered)

/-- `same_show_names`, of a list of names or a `FolderNames`. -/
def sameShowNames (name : FolderName) (entries : List FolderName ⊕ FolderNames) : List FolderName :=
  let key := showKey u name
  let hint := if key.1 = "name".toList then hintWord u name else key.2
  let folder := entries.elim .ofEntries id
  if hint = [] then folder.names.filter fun entry => showKey u entry = key
  else (found '\n' u.same hint folder.text ++ folder.withNewline).filter fun entry => showKey u entry = key

end MediaPreview.Markers
