import MediaPreview.Lib.Ranking
import MediaPreview.Markers.Sanity

/-!
# Independence, agreement and rank

Which candidates are independent of one another (`group`), when two agree (`agree`),
how candidates rank (`sortKey`), and the markers made of their edges
(`markers/decide.py`). Two candidates of one type that rank alike publish the same
marker (`Ties`), which is what lets the rules break ties by the order candidates
arrive in.
-/

namespace MediaPreview.Markers

open Binary64 Ranking

/-! ### Groups -/

/-- The group a candidate's answer counts for: a source's own value, or the one group
IntroDB and TheIntroDB are. -/
inductive Group where
  /-- `_INTRODB_GROUP`. -/
  | introdbTheintrodb
  /-- A source on its own. -/
  | of (s : Source)
  deriving DecidableEq

/-- A group's name, as `_group` returns it. -/
def Group.name : Group → String
  | .introdbTheintrodb => "introdb/theintrodb"
  | .of s => s.value

/-- `_INDEPENDENCE_GROUP.get(source, source.value)`. -/
def independenceGroup : Source → Group
  | .introdb | .theintrodb | .serverMarkersImported => .introdbTheintrodb
  | .seasonAudioPrevious => .of .seasonAudio
  | s => .of s

/-- `_IMPORTED_GROUP`: the group of what an importer plugin copied from a database. -/
def importedGroup : String → Option Group
  | "introdb" => some .introdbTheintrodb
  | "skipdb" => some (.of .skipdb)
  | "aniskip" => some .introdbTheintrodb
  | _ => none

/-- `_group`. -/
def group (c : Candidate) : Group :=
  match c.source with
  | .serverMarkersImported => (importedGroup c.copiedFrom).getD (independenceGroup c.source)
  | s => independenceGroup s

/-- Only an importer plugin's copy has a group its source does not tell. -/
theorem group_of_not_server {c : Candidate} (h : c.source.isServer = false) : group c = independenceGroup c.source := by
  unfold group
  split
  · simp_all [Source.isServer]
  · rfl

/-! ### Agreement -/

/-- `INTRO_END_TOLERANCE_MS`. -/
def introEndToleranceMs : ℤ := 5000

/-- `CREDITS_START_TOLERANCE_MS`. -/
def creditsStartToleranceMs : ℤ := 10000

/-- `_tolerance_ms`. -/
def toleranceMs (mtype : MarkerType) : ℤ :=
  if mtype.isStartSegment then introEndToleranceMs else creditsStartToleranceMs

theorem toleranceMs_pos (mtype : MarkerType) : 0 < toleranceMs mtype := by cases mtype <;> decide

/-- `_agree_value`: the number agreement is judged on. -/
def agreeValue (c : Candidate) (durationMs : ℤ) : ℤ :=
  if c.type.isStartSegment then resolveEndMs c durationMs else c.startMs

/-- `_agree`. -/
def agree (a b : Candidate) (durationMs : ℤ) : Bool :=
  |agreeValue a durationMs - agreeValue b durationMs| ≤ toleranceMs a.type

theorem agree_comm {a b : Candidate} (h : a.type = b.type) (d : ℤ) : agree a b d = agree b a d := by
  unfold agree
  rw [abs_sub_comm, h]

/-! ### Rank -/

/-- `_precedence`: a source's place in the user's order, after every listed one when it is not
in it. -/
def precedence (s : Source) (order : List String) : ℕ := order.idxOf s.value

/-- What candidates are ranked by, best first. -/
abbrev RankKey := ℕ ×ₗ ℕ ×ₗ ℚ ×ₗ ℤ ×ₗ ℤ ×ₗ ℤ

/-- The confidence a candidate ranks by: one that is not finite counts as `0.0`. -/
def rankedConfidence : PyFloat → ℚ
  | .finite q => q
  | _ => 0

/-- `_sort_key`: the user's source order, then declaration order, then higher confidence, then
the safer checked edge, then the safer other edge, then the raw end. -/
def sortKey (ctx : DecisionContext) (c : Candidate) : RankKey :=
  let stop := resolveEndMs c ctx.durationMs
  let shorterSkip := if c.type.isStartSegment then (stop, -c.startMs) else (-c.startMs, stop)
  toLex (precedence c.source ctx.sourceOrder, toLex (c.source.enumOrder, toLex (-rankedConfidence c.confidence,
    toLex (shorterSkip.1, toLex (shorterSkip.2, c.endMs.getD (-1))))))

/-- `_source_sort_key`. -/
def sourceSortKey (ctx : DecisionContext) (s : Source) : ℕ ×ₗ ℕ :=
  toLex (precedence s ctx.sourceOrder, s.enumOrder)

theorem sourceSortKey_injective (ctx : DecisionContext) : Function.Injective (sourceSortKey ctx) := by
  intro a b h
  have := toLex_inj.mp h
  exact Source.enumOrder_injective (Prod.ext_iff.mp this).2

/-- Two candidates that publish the same marker, credited to the same source. -/
structure Ties (ctx : DecisionContext) (a b : Candidate) : Prop where
  /-- Of one type. -/
  type_eq : a.type = b.type
  /-- From one source. -/
  source_eq : a.source = b.source
  /-- With one start. -/
  startMs_eq : a.startMs = b.startMs
  /-- With one end in the file. -/
  stop_eq : resolveEndMs a ctx.durationMs = resolveEndMs b ctx.durationMs

/-- **Rank tells candidates apart**: two of one type that rank alike publish the same marker. -/
theorem ties_of_sortKey_eq {ctx : DecisionContext} {a b : Candidate} (ht : a.type = b.type)
    (h : sortKey ctx a = sortKey ctx b) : Ties ctx a b := by
  simp only [sortKey, toLex_inj, Prod.mk.injEq, ht] at h
  obtain ⟨-, hs, -, h1, h2, -⟩ := h
  have hsource := Source.enumOrder_injective hs
  split_ifs at h1 h2
  · exact ⟨ht, hsource, by simpa using h2, h1⟩
  · exact ⟨ht, hsource, by simpa using h1, h2⟩

theorem Ties.agreeValue_eq {ctx : DecisionContext} {a b : Candidate} (h : Ties ctx a b) :
    agreeValue a ctx.durationMs = agreeValue b ctx.durationMs := by
  unfold agreeValue
  rw [h.type_eq, h.startMs_eq, h.stop_eq]

theorem Ties.group_eq {ctx : DecisionContext} {a b : Candidate} (h : Ties ctx a b)
    (hs : a.source.isServer = false) : group a = group b := by
  rw [group_of_not_server hs, group_of_not_server (h.source_eq ▸ hs), h.source_eq]

/-! ### Markers of their edges -/

/-- `_checked_value`: the edge agreement is judged on, of a marker. -/
def checkedValue (mtype : MarkerType) (m : Marker) : ℤ := if mtype.isStartSegment then m.endMs else m.startMs

/-- The unchecked edge of a marker. -/
def otherEdge (mtype : MarkerType) (m : Marker) : ℤ := if mtype.isStartSegment then m.startMs else m.endMs

/-- The number the safer unchecked edge is judged on, of a candidate. -/
def otherValue (mtype : MarkerType) (c : Candidate) (durationMs : ℤ) : ℤ :=
  if mtype.isStartSegment then c.startMs else resolveEndMs c durationMs

/-- `_own_marker`: a marker made of one candidate's own edges. -/
def ownMarker (c : Candidate) (ctx : DecisionContext) : Marker where
  type := c.type
  startMs := c.startMs
  endMs := resolveEndMs c ctx.durationMs
  decidedBy := [c.source.value]

theorem Ties.ownMarker_eq {ctx : DecisionContext} {a b : Candidate} (h : Ties ctx a b) :
    ownMarker a ctx = ownMarker b ctx := by
  simp only [ownMarker, h.type_eq, h.source_eq, h.startMs_eq, h.stop_eq]

/-- `_edges`: start and end from the checked edge and the unchecked one. -/
def edges (mtype : MarkerType) (checked other : ℤ) : ℤ × ℤ :=
  if mtype.isStartSegment then (other, checked) else (checked, other)

/-- `_composed_marker`: a marker from its two edges, credited to `sources` in source order. -/
def composedMarker (mtype : MarkerType) (checked other : ℤ) (sources : List Source) (ctx : DecisionContext) :
    Marker where
  type := mtype
  startMs := (edges mtype checked other).1
  endMs := (edges mtype checked other).2
  decidedBy := (sortedSet (sourceSortKey ctx) sources).map Source.value

@[simp] theorem checkedValue_composedMarker (mtype : MarkerType) (checked other : ℤ) (sources : List Source)
    (ctx : DecisionContext) : checkedValue mtype (composedMarker mtype checked other sources ctx) = checked := by
  cases mtype <;> rfl

@[simp] theorem otherEdge_composedMarker (mtype : MarkerType) (checked other : ℤ) (sources : List Source)
    (ctx : DecisionContext) : otherEdge mtype (composedMarker mtype checked other sources ctx) = other := by
  cases mtype <;> rfl

@[simp] theorem checkedValue_ownMarker (c : Candidate) (ctx : DecisionContext) :
    checkedValue c.type (ownMarker c ctx) = agreeValue c ctx.durationMs := rfl

@[simp] theorem otherEdge_ownMarker (c : Candidate) (ctx : DecisionContext) :
    otherEdge c.type (ownMarker c ctx) = otherValue c.type c ctx.durationMs := rfl

/-- A marker depends on the set of its sources only. -/
theorem composedMarker_congr {mtype : MarkerType} {checked other : ℤ} {s₁ s₂ : List Source} {ctx : DecisionContext}
    (h : SameElems s₁ s₂) : composedMarker mtype checked other s₁ ctx = composedMarker mtype checked other s₂ ctx := by
  unfold composedMarker
  rw [sortedSet_congr (sourceSortKey_injective ctx) h]

@[simp] theorem value_mem_composedMarker {mtype : MarkerType} {checked other : ℤ} {sources : List Source}
    {ctx : DecisionContext} {s : Source} :
    s.value ∈ (composedMarker mtype checked other sources ctx).decidedBy ↔ s ∈ sources := by
  simp [composedMarker, Source.value_injective.eq_iff]

@[simp] theorem value_mem_ownMarker {c : Candidate} {ctx : DecisionContext} {s : Source} :
    s.value ∈ (ownMarker c ctx).decidedBy ↔ s = c.source := by
  simp [ownMarker, Source.value_injective.eq_iff]

/-- `_marker_is_sane`: the marker's times pass the checks. The source it asks for is the first
one it is decided by; every marker the rules build names one. -/
def markerIsSane (m : Marker) (ctx : DecisionContext) : Bool :=
  let source := (m.decidedBy.head?.bind Source.ofValue).getD .chapters
  timesProblem { type := m.type, startMs := m.startMs, endMs := some m.endMs, source } ctx = none

/-- A marker that passes the checks and ends in the file is plausible. -/
theorem plausible_of_markerIsSane {m : Marker} {ctx : DecisionContext} (h : markerIsSane m ctx = true)
    (hle : m.endMs ≤ ctx.durationMs) : Plausible m.type m.startMs m.endMs ctx := by
  simp only [markerIsSane, decide_eq_true_eq, timesProblem_eq_none_iff] at h
  simpa [resolveEndMs, min_eq_left hle] using h.1

/-! ### Decisions -/

/-- `DecisionStatus`: outcome of deciding one marker type for one file. -/
inductive DecisionStatus where
  | decided
  | noEvidence
  | disabled
  deriving DecidableEq, Repr

/-- A status's `value`. -/
def DecisionStatus.value : DecisionStatus → String
  | .decided => "decided"
  | .noEvidence => "no_evidence"
  | .disabled => "disabled"

/-- `TypeDecision`: the decision for one marker type. -/
structure TypeDecision where
  /-- The type decided. -/
  type : MarkerType
  /-- The outcome. -/
  status : DecisionStatus
  /-- The marker published. -/
  marker : Option Marker
  /-- The closest answer there was, when nothing is published. -/
  proposed : Option Marker
  /-- Why. -/
  reason : String
  deriving DecidableEq

/-- `_no_evidence`: nothing is published for the type. -/
def noEvidence (mtype : MarkerType) (proposed : Option Marker) (reason : String) : TypeDecision :=
  ⟨mtype, .noEvidence, none, proposed, reason⟩

/-- A type decided by `m`. -/
def decided (mtype : MarkerType) (m : Marker) (reason : String) : TypeDecision :=
  ⟨mtype, .decided, some m, none, reason⟩

/-- A decision publishes the marker `m`. -/
def TypeDecision.Publishes (dec : TypeDecision) (m : Marker) : Prop := dec.status = .decided ∧ dec.marker = some m

instance (dec : TypeDecision) (m : Marker) : Decidable (dec.Publishes m) := by
  unfold TypeDecision.Publishes
  infer_instance

@[simp] theorem not_publishes_noEvidence {mtype : MarkerType} {p : Option Marker} {reason : String} {m : Marker} :
    ¬ (noEvidence mtype p reason).Publishes m := by simp [TypeDecision.Publishes, noEvidence]

@[simp] theorem publishes_decided {mtype : MarkerType} {m m' : Marker} {reason : String} :
    (decided mtype m reason).Publishes m' ↔ m = m' := by simp [TypeDecision.Publishes, decided]

end MediaPreview.Markers
