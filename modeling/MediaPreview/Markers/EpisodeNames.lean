import MediaPreview.Lib.Lines
import MediaPreview.Lib.Text
import MediaPreview.Servers.Paths

/-!
# The season and the episode of a name

`ids_from_path` of `markers/external_ids.py`, as far as it reads the season's and the episode's number: of a file that is no
extra, those of the first `_SXXEYY_RE` in its name. A dated episode and a film have neither.
-/

namespace MediaPreview.Markers

open Lines Servers Text

/-! ### Patterns -/

/-- The characters a lower-case letter of a pattern matches under `re.IGNORECASE`, any other only itself. -/
def sameLetter (p c : Char) : Bool :=
  c = p || c = p.toUpper || (p = 's' && c = 'ſ') || (p = 'i' && (c = 'İ' || c = 'ı')) || (p = 'k' && c = 'K')

/-- `[a-z0-9]` under `re.IGNORECASE`. -/
def isWordChar (c : Char) : Bool := c.isAlphanum || c = 'ſ' || c = 'İ' || c = 'ı' || c = 'K'

/-- `int` of digits. -/
def numberOf (s : List Char) : ℕ := (digits 0 s).1

/-- The longest of up to four digits in front that no digit of ASCII follows: `(\d{1,4})(?![0-9])`. -/
def episodeDigits (s : List Char) : Option (List Char) :=
  let run := s.takeWhile fun c => (digitValue c).isSome
  ([4, 3, 2, 1].find? fun k => k ≤ run.length && !(s.drop k).head?.any Char.isDigit).map s.take

/-- `_SXXEYY_RE` at the front of a text, what is before it aside: the season and the episode. -/
def sxxeyyAhead : List Char → Option (ℕ × ℕ)
  | [] => none
  | c :: s =>
    let season := s.takeWhile fun c => (digitValue c).isSome
    if sameLetter 's' c ∧ 1 ≤ season.length ∧ season.length ≤ 4 then
      match s.drop season.length with
      | [] => none
      | e :: s =>
        if sameLetter 'e' e then (episodeDigits s).map fun episode => (numberOf season, numberOf episode)
        else none
    else none

/-- `_SXXEYY_RE.search`, in what follows the character `before`. -/
def searchSxxeyy (before : Option Char) : List Char → Option (ℕ × ℕ)
  | [] => none
  | c :: s => (if before.any isWordChar then none else sxxeyyAhead (c :: s)) <|> searchSxxeyy (some c) s

/-! ### Names -/

/-- `_path_parts`. -/
def pathParts (canonicalPath : Path) : List Path := ((fwd canonicalPath).splitOn '/').filter (· ≠ [])

/-- `os.path.splitext(filename)[0]`: up to the last dot, if something but dots is before it. -/
def stemOf (filename : Path) : Path :=
  let ext := filename.reverse.takeWhile (· ≠ '.')
  let root := filename.reverse.drop (ext.length + 1)
  if root.any (· ≠ '.') then root.reverse else filename

/-- The words of `_EXTRA_SUFFIX_RE`. -/
def extraSuffixes : List String :=
  ["trailer", "featurette", "behindthescenes", "deleted", "interview", "scene", "short", "other", "sample"]

/-- `_EXTRAS_FOLDER_NAMES`. -/
def extrasFolderNames : List String :=
  ["trailers", "featurettes", "extras", "behind the scenes", "deleted scenes", "interviews", "scenes", "shorts", "other",
    "samples"]

/-- `_EXTRA_SUFFIX_RE.search`. -/
def hasExtraSuffix (stem : Path) : Bool :=
  stem.tails.any fun tail => extraSuffixes.any fun word =>
    startsWith sameLetter ('-' :: word.toList) tail && atEnd (tail.drop (word.length + 1))

/-- `_is_extra`. Of no letter of the names is another character than its capital lower-cased to it. -/
def isExtra (stem : Path) (folders : List Path) : Bool :=
  hasExtraSuffix stem || folders.getLast?.any fun folder =>
    (extrasFolderNames.map String.toList).contains ((strip folder).map Char.toLower)

/-- The season and the episode of `ids_from_path`. -/
def idsFromPath (canonicalPath : Path) : Option (ℕ × ℕ) :=
  match (pathParts canonicalPath).getLast? with
  | none => none
  | some filename =>
    if isExtra (stemOf filename) (pathParts canonicalPath).dropLast then none
    else searchSxxeyy none (stemOf filename)

end MediaPreview.Markers
