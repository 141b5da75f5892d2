import MediaPreview.Lib.Stages

/-!
# Replacing trickplay sheets

`publish` of `JellyfinTrickplayAdapter` (`output/jellyfin_trickplay.py`): the frames are packed into a staging folder
beside the tile folder, the old sheet folder is renamed aside and the staged one into its place. Where a rename fails the
sheets are written in place. Each step may fail (`Faults`), and each is a point at which the process may be found dead.
`shutil.rmtree` here removes what it is given.
-/

namespace MediaPreview.Trickplay

open Stages

variable {φ τ : Type}

/-! ### Sheets -/

/-- A sheet folder: of each file `<k>.jpg` its number and the sheet. -/
abbrev Sheets (τ : Type) := List (ℕ × τ)

/-- A file is written. -/
def write (k : ℕ) (sheet : τ) (d : Sheets τ) : Sheets τ := (k, sheet) :: d.filter fun file => file.1 ≠ k

/-- A file is removed. -/
def unlink (k : ℕ) (d : Sheets τ) : Sheets τ := d.filter fun file => file.1 ≠ k

/-- `math.ceil(len(frames) / _TILES_PER_SHEET)`. -/
def sheetCount (frames : List φ) : ℕ := (frames.length + 99) / 100

/-- One sheet's picture: its frames, ten by ten. -/
def sheet (render : List φ → τ) (frames : List φ) (k : ℕ) : τ := render ((frames.drop (100 * k)).take 100)

/-- What the new set has under a number. -/
def newTile (render : List φ → τ) (frames : List φ) (k : ℕ) : Option τ :=
  if k < sheetCount frames then some (sheet render frames k) else none

/-- `_pack_sheets_into_dir`, from sheet `k` on: where a sheet fails, the file may be there in part. -/
def packSheets (fails : ℕ → Option (Option τ)) (tile : ℕ → τ) : ℕ → ℕ → Sheets τ → Stages (Sheets τ)
  | 0, _, d => .skip d
  | count + 1, k, d =>
    match fails k with
    | some none => .raise d
    | some (some broken) => ⟨[d], write k broken d, false⟩
    | none =>
      let rest := packSheets fails tile count (k + 1) (write k (tile k) d)
      ⟨d :: rest.passed, rest.last, rest.done⟩

/-- The stale files are removed; one that cannot be is left. -/
def unlinkStale (fails : ℕ → Bool) : List ℕ → Sheets τ → Stages (Sheets τ)
  | [], d => .skip d
  | k :: numbers, d =>
    if fails k then unlinkStale fails numbers d
    else
      let rest := unlinkStale fails numbers (unlink k d)
      ⟨d :: rest.passed, rest.last, rest.done⟩

/-! ### Publishing -/

/-- The folders beside a video. -/
structure Folders (τ : Type) where
  /-- `final_dir`, if there is one, and in it `sheets_dir`, if there is one. -/
  final : Option (Option (Sheets τ))
  /-- `old_dir`. -/
  old : Option (Sheets τ)
  /-- `staging_sheets_dir`. -/
  staging : Option (Sheets τ)
  deriving DecidableEq

/-- `sheets_dir`. -/
def Folders.sheets (f : Folders τ) : Option (Sheets τ) := f.final.join

/-- The steps that fail. -/
structure Faults (τ : Type) where
  /-- The staging folder is not made. -/
  mkdir : Bool
  /-- The first frame cannot be read. -/
  measure : Bool
  /-- Sheets that cannot be staged. -/
  pack : ℕ → Option (Option τ)
  /-- The old sheets are not renamed. -/
  rename : Bool
  /-- The staged ones are not. -/
  swap : Bool
  /-- The old ones are not renamed back. -/
  restore : Bool
  /-- The sheet folder is not made. -/
  mkdirInPlace : Bool
  /-- Stale sheets that cannot be removed. -/
  unlink : ℕ → Bool
  /-- Sheets that cannot be written in place. -/
  packInPlace : ℕ → Option (Option τ)

/-- `shutil.rmtree(staging_dir)`. -/
def dropStaging (f : Folders τ) : Folders τ := { f with staging := none }

/-- `shutil.rmtree(old_dir)`. -/
def dropOld (f : Folders τ) : Folders τ := { f with old := none }

/-- The sheets are packed into the staging folder. -/
def packStaging (render : List φ → τ) (faults : Faults τ) (frames : List φ) (f : Folders τ) : Stages (Folders τ) :=
  (act faults.measure id f).andThen fun f =>
    (packSheets faults.pack (sheet render frames) (sheetCount frames) 0 []).map fun d => { f with staging := some d }

/-- Staging: leftovers go, the staging folder is made and the sheets are packed into it, or it goes. -/
def stage (render : List φ → τ) (faults : Faults τ) (frames : List φ) (f : Folders τ) : Stages (Folders τ) :=
  (act false dropStaging f).andThen fun f => (act false dropOld f).andThen fun f =>
    (act faults.mkdir (fun f => { f with staging := some [] }) f).andThen fun f =>
      (packStaging render faults frames f).handle skip fun f => (act false dropStaging f).andThen raise

/-- The renames. -/
def swap (faults : Faults τ) (f : Folders τ) : Stages (Folders τ) :=
  let inPlace := act faults.swap fun f => { f with final := some f.staging, staging := none }
  match f.sheets with
  | some d => (act faults.rename (fun f => { f with final := some none, old := some d }) f).andThen inPlace
  | none => inPlace f

/-- `_inplace_fallback_write`. -/
def inplaceFallbackWrite (render : List φ → τ) (faults : Faults τ) (frames : List φ) (f : Folders τ) :
    Stages (Folders τ) :=
  (act faults.mkdirInPlace (fun f => { f with final := some (some (f.sheets.getD [])) }) f).andThen fun f =>
    let d := f.sheets.getD []
    ((unlinkStale faults.unlink (d.map Prod.fst) d).andThen
      (packSheets faults.packInPlace (sheet render frames) (sheetCount frames) 0)).map fun d =>
        { f with final := some (some d) }

/-- The old sheets are put back if they are aside. -/
def restoreOld (faults : Faults τ) (f : Folders τ) : Stages (Folders τ) :=
  if f.old.isSome && f.sheets.isNone then act faults.restore (fun f => { f with final := some f.old, old := none }) f
  else skip f

/-- What is done where a rename failed: the old sheets are put back, if that can be done, and the new ones written in
place. -/
def fallback (render : List φ → τ) (faults : Faults τ) (frames : List φ) (f : Folders τ) : Stages (Folders τ) :=
  (restoreOld faults f).handle (inplaceFallbackWrite render faults frames) (inplaceFallbackWrite render faults frames)
    |>.andThen fun f => (act false dropStaging f).andThen (act false dropOld)

/-- The staged sheets take the place of the old ones, which then go. -/
def replaceSheets (render : List φ → τ) (faults : Faults τ) (frames : List φ) (f : Folders τ) : Stages (Folders τ) :=
  (swap faults f).handle (fun f => (act false dropOld f).andThen (act false dropStaging)) (fallback render faults frames)

/-- `publish`. -/
def publish (render : List φ → τ) (faults : Faults τ) (frames : List φ) (f : Folders τ) : Stages (Folders τ) :=
  if frames = [] then raise f
  else (stage render faults frames f).andThen (replaceSheets render faults frames)

end MediaPreview.Trickplay
