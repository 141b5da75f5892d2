import Mathlib.Data.Int.Notation
import Mathlib.Data.List.Basic
import Mathlib.Data.Option.Basic

/-!
# Notes of the source an output was made from

The `.meta` journal of Emby's and Jellyfin's outputs (`output/journal.py`): what `write_meta` writes beside each output,
and how `outputs_fresh_for_source` reads it. Only a source's size and modification time are compared with a note
(`same_recorded_source`); within one run its device and inode are too (`same_source`). An output without a note counts
as fresh.
-/

namespace MediaPreview.Previews

/-- A source's size and modification time. -/
abbrev Stamp := ℤ × ℤ

/-- `get_source_fingerprint`'s result. -/
structure SourceFingerprint where
  /-- The device. -/
  device : ℤ
  /-- The inode. -/
  inode : ℤ
  /-- The size. -/
  size : ℤ
  /-- The modification time. -/
  mtimeNs : ℤ
  /-- The change time. -/
  ctimeNs : ℤ
  deriving DecidableEq, Repr

/-- What a note is compared by. -/
def SourceFingerprint.stamp (f : SourceFingerprint) : Stamp := (f.size, f.mtimeNs)

/-- `same_source`: the change time never counts. -/
def sameSource (a b : SourceFingerprint) : Bool :=
  a.device = b.device && a.inode = b.inode && a.size = b.size && a.mtimeNs = b.mtimeNs

/-- `same_recorded_source`. -/
def sameRecordedSource (recorded current : SourceFingerprint) : Bool := recorded.stamp = current.stamp

/-- A note `_read_meta` can read. -/
structure Meta where
  /-- `source_mtime`, in seconds. -/
  sourceMtime : ℤ
  /-- `source_size`. -/
  sourceSize : ℤ
  /-- `source_fingerprint`, which notes of older versions lack. -/
  sourceFingerprint : Option SourceFingerprint
  deriving DecidableEq

/-- `write_meta`'s payload. -/
def Meta.ofSource (f : SourceFingerprint) : Meta := ⟨f.mtimeNs / 1000000000, f.size, some f⟩

/-- An output on disk. -/
structure OutputFile where
  /-- It is there, with data in it. -/
  content : Bool
  /-- The note beside it. -/
  note : Option Meta

/-- `outputs_have_content`. -/
def outputsHaveContent (outputs : List OutputFile) : Bool := outputs ≠ [] && outputs.all OutputFile.content

/-- Whether a note is of the source as it is. -/
def Meta.records (data : Meta) (source : SourceFingerprint) (requireSourceFingerprint : Bool) : Bool :=
  match data.sourceFingerprint with
  | some recorded => sameRecordedSource recorded source
  | none => !requireSourceFingerprint && (data.sourceMtime, data.sourceSize) = (source.mtimeNs / 1000000000, source.size)

/-- `outputs_fresh_for_source`. -/
def outputsFreshForSource (outputs : List OutputFile) (source : Option SourceFingerprint)
    (requireSourceFingerprint : Bool) : Bool :=
  if !outputsHaveContent outputs then false
  else
    match source with
    | none => false
    | some source =>
      let notes := outputs.filterMap OutputFile.note
      if notes.any fun data => data.records source requireSourceFingerprint then true
      else if notes ≠ [] then false
      else !requireSourceFingerprint

theorem records_ofSource {f source : SourceFingerprint} {require : Bool} :
    (Meta.ofSource f).records source require = true ↔ f.stamp = source.stamp := by
  simp only [Meta.records, Meta.ofSource, sameRecordedSource, decide_eq_true_eq]

/-- **When one output is fresh**: it is there, the source can be read, and its note, where it has one, is of it. -/
theorem fresh_singleton_iff {output : OutputFile} {source : Option SourceFingerprint} :
    outputsFreshForSource [output] source false = true ↔ output.content = true ∧ ∃ f, source = some f ∧
      ∀ data, output.note = some data → data.records f false = true := by
  unfold outputsFreshForSource outputsHaveContent
  cases hc : output.content with
  | false => simp [hc]
  | true =>
    cases source with
    | none => simp [hc]
    | some f =>
      cases hn : output.note with
      | none => simp [hc, hn]
      | some data => simp [hc, hn]

end MediaPreview.Previews
