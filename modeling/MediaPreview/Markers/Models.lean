import MediaPreview.Lib.Binary64
import Mathlib.Data.Finset.Basic
import Mathlib.Data.Rat.Defs

/-!
# Markers and the answers they are decided from

The value types of Intro & Credits (`markers/models.py`). A `Candidate` is one
source's claim about a segment of a file, a `Marker` a decided segment. All times are
whole milliseconds.

A candidate is a Python object. The rules compare a few of them by identity (`is`,
`id`), so the model gives each the object it is, `obj`; every other comparison is by
field. A list of candidates holds references, and what one object is does not depend
on where in the list it stands: `Evidence` is such a list.
-/

namespace MediaPreview.Markers

open Binary64

/-- `MarkerType`: segment types that are decided and published. -/
inductive MarkerType where
  | intro
  | credits
  | recap
  | preview
  deriving DecidableEq, Repr, Inhabited

/-- A marker type's `value`. -/
def MarkerType.value : MarkerType → String
  | .intro => "intro"
  | .credits => "credits"
  | .recap => "recap"
  | .preview => "preview"

/-- `Source`: where a candidate came from, in declaration order. -/
inductive Source where
  | chapters
  | theintrodb
  | introdb
  | skipdb
  | seasonAudio
  | creditsText
  | serverMarkers
  | serverMarkersImported
  | user
  | seasonAudioPrevious
  deriving DecidableEq, Repr, Inhabited

namespace Source

/-- A source's `value`. -/
def value : Source → String
  | .chapters => "chapters"
  | .theintrodb => "theintrodb"
  | .introdb => "introdb"
  | .skipdb => "skipdb"
  | .seasonAudio => "season_audio"
  | .creditsText => "credits_text"
  | .serverMarkers => "server_markers"
  | .serverMarkersImported => "server_markers_imported"
  | .user => "user"
  | .seasonAudioPrevious => "season_audio_previous"

/-- `tuple(Source)`: every source, in declaration order. -/
def all : List Source :=
  [.chapters, .theintrodb, .introdb, .skipdb, .seasonAudio, .creditsText, .serverMarkers,
    .serverMarkersImported, .user, .seasonAudioPrevious]

theorem mem_all (s : Source) : s ∈ all := by cases s <;> decide

theorem value_injective : Function.Injective value := by
  intro a b h
  cases a <;> cases b <;> first | rfl | simp [value] at h

/-- `Source(value)`; `none` where it raises `ValueError`. -/
def ofValue (v : String) : Option Source := all.find? fun s => s.value = v

@[simp] theorem ofValue_value (s : Source) : ofValue s.value = some s := by
  have h : all.find? (fun t => decide (t.value = s.value)) = all.find? fun t => decide (t = s) := by
    congr 1
    funext t
    simp only [decide_eq_decide]
    exact value_injective.eq_iff
  rw [ofValue, h]
  cases s <;> rfl

/-- `_ENUM_ORDER`: a source's place in the declaration. -/
def enumOrder (s : Source) : ℕ := all.idxOf s

theorem enumOrder_injective : Function.Injective enumOrder := fun a b h => by
  have ha := List.getElem?_idxOf (mem_all a)
  have hb := List.getElem?_idxOf (mem_all b)
  rw [enumOrder, enumOrder] at h
  rw [h, hb] at ha
  exact (Option.some.inj ha).symm

/-- `SERVER_SOURCES`: markers already on a server, evidence that may shorten a skip and is
never a sole source. -/
def isServer : Source → Bool
  | .serverMarkers | .serverMarkersImported => true
  | _ => false

end Source

/-- `Candidate`: one source's claim about a segment. -/
structure Candidate where
  /-- Segment type. -/
  type : MarkerType
  /-- Start offset. -/
  startMs : ℤ
  /-- End offset, or `none` when the segment runs to the end of the file. -/
  endMs : Option ℤ
  /-- Evidence source. -/
  source : Source
  /-- Source-reported confidence. -/
  confidence : PyFloat := .finite 1
  /-- Free text: the server id for server markers, the chapter title for chapters. -/
  origin : String := ""
  /-- The crowd database an importer plugin's marker was copied from; `""` when unknown. -/
  copiedFrom : String := ""
  /-- A server's own marker made for an earlier file at this path. -/
  stale : Bool := false
  /-- The object this is. -/
  obj : ℕ := 0
  deriving DecidableEq, Inhabited

/-- `Marker`: a decided segment. -/
structure Marker where
  /-- Segment type. -/
  type : MarkerType
  /-- Start offset. -/
  startMs : ℤ
  /-- End offset. -/
  endMs : ℤ
  /-- The sources that decided it, by value. -/
  decidedBy : List String
  /-- The user locked it. -/
  locked : Bool := false
  deriving DecidableEq

/-- A list of candidates as Python holds one: an object that occurs more than once is the
same candidate each time. -/
structure Evidence where
  /-- The candidates, in the order they came. -/
  candidates : List Candidate
  /-- An object is one candidate. -/
  obj_inj : ∀ a ∈ candidates, ∀ b ∈ candidates, a.obj = b.obj → a = b

end MediaPreview.Markers
