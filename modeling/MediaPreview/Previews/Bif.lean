import Mathlib.Data.List.Sort
import Mathlib.Data.Nat.Log
import MediaPreview.Lib.Binary64
import MediaPreview.Lib.Isoformat
import MediaPreview.Lib.LittleEndian

/-!
# BIF files

A BIF is a header, an index of the frames and the frames' JPEGs one after another. `generate_bif` of
`processing/generator.py` writes one from a folder of images, beside the target, and renames it over the target once it
is complete; `bif_reader.py` reads it. Each step of the writer that can raise may fail (`BifStep`); the readers are given
the file's bytes.
-/

namespace MediaPreview.Previews

open LittleEndian Binary64

/-- A file's bytes. -/
abbrev Bytes := List UInt8

/-! ### Names -/

/-- The extension `os.path.splitext` finds in a file's name: from its last dot on, if something but dots is before it. -/
def splitextExt (name : String) : List Char :=
  let ext := name.toList.reverse.takeWhile (· ≠ '.')
  let root := name.toList.reverse.drop (ext.length + 1)
  if root.any (· ≠ '.') then '.' :: ext.reverse else []

/-- It is one of the images. -/
def isImage (name : String) : Bool := splitextExt name = ['.', 'j', 'p', 'g']

/-- The images of a folder, as its names are listed, sorted. -/
def imageNames (folder : List (String × Bytes)) : List String :=
  ((folder.map Prod.fst).filter isImage).mergeSort fun a b => a ≤ b

/-- A file of the folder. -/
def content (folder : List (String × Bytes)) (name : String) : Bytes := (folder.lookup name).getD []

/-- The images, in order. -/
def images (folder : List (String × Bytes)) : List Bytes := (imageNames folder).map (content folder)

/-- The name of an unpacked frame: its number, in five digits at least. -/
def frameName (number : ℕ) : String :=
  String.ofList (Digits.pad (max 5 (Nat.log 10 number + 1)) number ++ ['.', 'j', 'p', 'g'])

/-! ### Writing -/

/-- `BIF_MAGIC`. -/
def bifMagic : Bytes := [0x89, 0x42, 0x49, 0x46, 0x0D, 0x0A, 0x1A, 0x0A]

/-- `_SENTINEL_TIMESTAMP`. -/
def sentinelTimestamp : ℕ := 0xFFFFFFFF

/-- `struct.pack("<I", n)`, which raises where it does not fit. -/
def packU32 (n : ℕ) : Option Bytes := if n < 4294967296 then some (u32 n) else none

/-- The index: of each frame its size is looked up, then its number and its offset are written. -/
def indexWrites : List ℕ → ℕ → ℕ → List (Option Bytes)
  | [], _, imageIndex => [packU32 sentinelTimestamp, packU32 imageIndex]
  | size :: sizes, timestamp, imageIndex =>
    some [] :: packU32 timestamp :: packU32 imageIndex :: indexWrites sizes (timestamp + 1) (imageIndex + size)

/-- What `generate_bif` writes, each write where it comes; a step that writes nothing writes no bytes, and `none`
raises. -/
def bifWrites (images : List Bytes) (interval : ℕ) : List (Option Bytes) :=
  [some bifMagic, packU32 0, packU32 images.length, packU32 (1000 * interval), some (List.replicate 44 0)] ++
    indexWrites (images.map List.length) 0 (64 + (8 + 8 * images.length)) ++
    (images.flatMap fun image => [some [], some image]) ++ [some []]

/-- What the writes leave, and whether all were made. -/
def writeAll (fails : ℕ → Bool) : ℕ → List (Option Bytes) → Bytes → Bytes × Bool
  | _, [], written => (written, true)
  | _, none :: _, written => (written, false)
  | k, some bytes :: writes, written => if fails k then (written, false) else writeAll fails (k + 1) writes (written ++ bytes)

/-- A step of `generate_bif` that may raise. -/
inductive BifStep where
  /-- The folder is listed. -/
  | list
  /-- The fixed name older releases staged at is removed, for a reason that is not suppressed. -/
  | dropLegacy
  /-- The staging file is made. -/
  | create
  /-- One of the writes, or looking up what to write. -/
  | write (k : ℕ)
  /-- `_keep_owner_and_mode`. -/
  | keepOwner
  /-- `before_publish`. -/
  | beforePublish
  /-- `os.replace`. -/
  | replace
  /-- The staging file is removed. -/
  | removeTemp

/-- The files `generate_bif` touches: the target, and beside it the two it stages at. -/
structure BifFiles where
  /-- `bif_filename`. -/
  target : Option Bytes
  /-- `legacy_tmp_filename`. -/
  legacy : Option Bytes
  /-- `tmp_filename`. -/
  temp : Option Bytes

/-- `generate_bif`, with the steps that raise and whether removing the legacy file was refused; and whether it returned. -/
def generateBif (fails : BifStep → Bool) (refused : Bool) (folder : List (String × Bytes)) (interval : ℕ)
    (files : BifFiles) : BifFiles × Bool :=
  if fails .list || images folder = [] || fails .dropLegacy then (files, false)
  else
    let files := if refused then files else { files with legacy := none }
    -- It is made exclusively.
    if fails .create || files.temp.isSome then (files, false)
    else
      let written := writeAll (fun k => fails (.write k)) 0 (bifWrites (images folder) interval) []
      if written.2 && !fails .keepOwner && !fails .beforePublish && !fails .replace then
        ({ files with target := some written.1, temp := none }, true)
      else ({ files with temp := if fails .removeTemp then some written.1 else none }, false)

/-! ### Reading -/

/-- Why a file is not a BIF. -/
inductive BifError where
  /-- `Not a valid BIF file (bad magic)`. -/
  | badMagic
  /-- `struct.error`: it ends too early. -/
  | short
  /-- `Missing sentinel in BIF index table`. -/
  | missingSentinel
  /-- `IndexError`. -/
  | outOfRange
  /-- `read length must be non-negative or -1`. -/
  | badLength
  deriving DecidableEq, Repr

/-- `BifMetadata`. -/
structure BifMetadata where
  /-- `version`. -/
  version : ℕ
  /-- `frame_count`. -/
  frameCount : ℕ
  /-- `frame_interval_ms`. -/
  frameIntervalMs : ℤ
  /-- `file_size`. -/
  fileSize : ℕ
  /-- `frame_offsets`. -/
  frameOffsets : List ℕ
  /-- `frame_sizes`. -/
  frameSizes : List ℤ
  /-- `header_interval_ms`. -/
  headerIntervalMs : ℕ
  deriving DecidableEq

/-- `int(round(statistics.median(steps) * unit))`: an odd number of steps has an integer in the middle, an even one the
mean of two as a float. -/
def medianTimes (steps : List ℕ) (unit : ℕ) : ℤ :=
  let sorted := steps.mergeSort fun a b => a ≤ b
  let half := steps.length / 2
  if steps.length % 2 = 1 then sorted.getD half 0 * unit
  else roundEven (fl (fl ((sorted.getD (half - 1) 0 + sorted.getD half 0 : ℕ) / 2) * unit))

/-- `interval_from_index`. -/
def intervalFromIndex (multiplierMs : ℕ) (timestamps : List ℕ) : ℤ :=
  let unit := if multiplierMs = 0 then 1000 else multiplierMs
  let steps := ((timestamps.zip timestamps.tail).filter fun step => step.1 < step.2).map fun step => step.2 - step.1
  if steps = [] then multiplierMs else medianTimes steps unit

/-- The index entries in front, each a timestamp and an offset, and the rest. -/
def readIndex : ℕ → Bytes → Option (List (ℕ × ℕ) × Bytes)
  | 0, bytes => some ([], bytes)
  | count + 1, bytes => do
    let (timestamp, bytes) ← readU32 bytes
    let (offset, bytes) ← readU32 bytes
    let (entries, bytes) ← readIndex count bytes
    return ((timestamp, offset) :: entries, bytes)

/-- What a step of reading finds, or the file is too short. -/
def orShort {α : Type} : Option α → Except BifError α
  | none => .error .short
  | some a => .ok a

/-- The metadata a header and its index hold. -/
def BifMetadata.ofIndex (fileSize version frameCount multiplierMs : ℕ) (entries : List (ℕ × ℕ)) (endOffset : ℕ) :
    BifMetadata :=
  let allOffsets := entries.map Prod.snd ++ [endOffset]
  { version := version
    frameCount := frameCount
    frameIntervalMs := intervalFromIndex multiplierMs (entries.map Prod.fst)
    fileSize := fileSize
    frameOffsets := entries.map Prod.snd
    frameSizes := (allOffsets.zip allOffsets.tail).map fun pair => (pair.2 : ℤ) - pair.1
    headerIntervalMs := multiplierMs }

/-- `read_bif_metadata`. -/
def readBifMetadata (file : Bytes) : Except BifError BifMetadata :=
  if file.take 8 ≠ bifMagic then .error .badMagic
  else do
    let (version, bytes) ← orShort (readU32 (file.drop 8))
    let (frameCount, bytes) ← orShort (readU32 bytes)
    let (multiplierMs, _) ← orShort (readU32 bytes)
    let (entries, bytes) ← orShort (readIndex frameCount (file.drop 64))
    let (sentinelTs, bytes) ← orShort (readU32 bytes)
    let (endOffset, _) ← orShort (readU32 bytes)
    if sentinelTs ≠ sentinelTimestamp then .error .missingSentinel
    else return .ofIndex file.length version frameCount multiplierMs entries endOffset

/-- `f.seek(offset)` and `f.read(size)`: of `-1` it reads all that is left, of any size below it raises. -/
def readAt (file : Bytes) (offset : ℕ) (size : ℤ) : Except BifError Bytes :=
  if size < -1 then .error .badLength
  else if size = -1 then .ok (file.drop offset)
  else .ok ((file.drop offset).take size.toNat)

/-- A frame by its number. -/
def BifMetadata.frame (m : BifMetadata) (file : Bytes) (index : ℕ) : Except BifError Bytes :=
  readAt file (m.frameOffsets.getD index 0) (m.frameSizes.getD index 0)

/-- `read_bif_frame`. -/
def readBifFrame (file : Bytes) (index : ℤ) : Except BifError Bytes := do
  let m ← readBifMetadata file
  if index < 0 ∨ m.frameCount ≤ index then .error .outOfRange else m.frame file index.toNat

/-- `unpack_bif_to_jpegs`: the files it has written when it returns. -/
def unpackBifToJpegs (file : Bytes) : Except BifError (List (String × Bytes)) := do
  let m ← readBifMetadata file
  (List.range m.frameCount).mapM fun index => return (frameName (index + 1), ← m.frame file index)

end MediaPreview.Previews
