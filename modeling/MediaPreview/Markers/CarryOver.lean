import MediaPreview.Markers.Provenance
import Mathlib.Data.Finset.Dedup
import Mathlib.Logic.Function.Basic

/-!
# Carrying markers over from a replaced file

A file that replaces one of the same length keeps what had been decided for a type while nothing
answers for it (`markers/carry_over.py`). `carryOver` runs after `decide` and adds markers to its
answer, so the checks `decide` makes across types have to be made again: a carried marker is tested
against what the types hold at that moment, the ones carried before it included.

What both come to is a property of the final map (`skips_apart`). Of `decide`, the checks are made
before rule 7, which can only move a start later and so only shortens an overlap (`skipsApart_decide`).
Of the carry-over, one step adds no overlap that is too long, so every one there is lies between two
markers that were there before (`OverlapsFrom`).
-/

namespace MediaPreview.Markers

/-! ### What is carried -/

/-- `MAX_LENGTH_CHANGE_MS`. -/
def maxLengthChangeMs : ℤ := 1000

/-- `CARRIED_OVER`. -/
def carriedOver : String := "carried_over"

/-- `CARRIED_OVER_REASON`. -/
def carriedOverReason : String := "carried over from the file it replaced (same length)"

/-- `NO_EVIDENCE_REASON`. -/
def noEvidenceReason : String := "no evidence"

/-- `_PAIRED`: the type a type must not overlap once both are decided, with how far they may. -/
def MarkerType.paired : MarkerType → MarkerType × ℤ
  | .intro => (.recap, introRecapMaxOverlapMs)
  | .recap => (.intro, introRecapMaxOverlapMs)
  | .credits => (.preview, previewCreditsMaxOverlapMs)
  | .preview => (.credits, previewCreditsMaxOverlapMs)

/-- `_ALWAYS_ON`: entries of `decided_by` that are no source the user can turn off. -/
def alwaysOn : List String := [Source.user.value, carriedOver]

/-- `_CONFIRMING_ONLY`. -/
def confirmingOnly : List String := (Source.all.filter (·.isServer)).map (·.value)

/-- `PreviousDecision`: what was last decided for one type of a file since replaced. -/
structure PreviousDecision where
  /-- The times of its decided marker; `none` when it had none. -/
  marker : Option (ℤ × ℤ)
  /-- The replaced file's length. -/
  durationMs : ℤ
  /-- The sources that decided the marker. -/
  decidedBy : List String := []
  /-- The stored version of each deciding source's answer; `none` when none were kept. -/
  versions : Option (String → Option ℤ) := none

/-- `ReadNow`: a content detector's reading of the new file. -/
structure ReadNow where
  /-- The version it read the file at. -/
  version : ℤ
  /-- What part of a stored version is the detector's own; `0` compares it whole. -/
  step : ℤ := 0

/-- `ReadNow.newer_than`. -/
def ReadNow.newerThan (r : ReadNow) (stored : ℤ) : Bool :=
  if r.step ≠ 0 then stored.fmod r.step < r.version.fmod r.step else stored < r.version

/-- A file's stored markers, each under its own type. -/
structure StoredMarkers where
  /-- The marker of a type. -/
  marker : MarkerType → Option Marker
  /-- It is of the type. -/
  type_eq : ∀ t m, marker t = some m → m.type = t

/-- What `carry_over` is given beside the decisions. -/
structure CarryInputs where
  /-- `previous`: per type, the replaced file's decision; `some none` when it can't be told now. -/
  previous : Finset MarkerType → MarkerType → Option (Option PreviousDecision)
  /-- `kept`: the file's stored markers. -/
  kept : StoredMarkers
  /-- `enabled`: the sources turned on; `none` for every source. -/
  enabled : Option (List String)
  /-- `read_by`: a type's content detectors whose stored answer is today's verdict on the new file. -/
  readBy : Option (MarkerType → String → Option ReadNow)

/-- `is_carried_over`. -/
def isCarriedOver (m : Marker) : Bool := m.decidedBy.contains carriedOver

/-- The deciding sources, the servers' confirming markers aside. -/
def deciding (decidedBy : List String) : List String := decidedBy.filter fun s => !confirmingOnly.contains s

/-- `_sources_on`. -/
def sourcesOn (decidedBy : List String) (enabled : Option (List String)) : Bool :=
  match enabled with
  | none => true
  | some on => deciding decidedBy = [] || (deciding decidedBy).any alwaysOn.contains || (deciding decidedBy).any on.contains

/-- `_passed_over_by_a_newer_version`. -/
def passedOverByANewerVersion (held : PreviousDecision) (readBy : String → Option ReadNow) : Bool :=
  deciding held.decidedBy ≠ [] &&
    (deciding held.decidedBy).all fun s =>
      match readBy s, held.versions.bind fun v => v s with
      | some r, some stored => r.newerThan stored
      | _, _ => false

/-- `_fitted`: the marker on the new file, its end clamped to the file's. -/
def fitted (mtype : MarkerType) (times : ℤ × ℤ) (durationMs : ℤ) : Option Marker :=
  let stop := min times.2 durationMs
  if stop - times.1 < minSegmentMs then none
  else if mtype.isStartSegment ∧ durationMs - eofClampMs ≤ stop then none
  else some ⟨mtype, times.1, stop, [carriedOver], false⟩

/-- The marker to carry over for a type, of what the replaced file held. -/
def carriedMarker (i : CarryInputs) (durationMs : ℤ) (mtype : MarkerType) : Option PreviousDecision → Option Marker
  | none => (i.kept.marker mtype).filter fun m => isCarriedOver m && !m.locked
  | some held =>
    match held.marker with
    | none => none
    | some times =>
      if maxLengthChangeMs < |held.durationMs - durationMs| ∨ !sourcesOn held.decidedBy i.enabled ∨
          i.readBy.any fun r => passedOverByANewerVersion held (r mtype) then none
      else fitted mtype times durationMs

/-- `_overlaps`: a marker overlaps a decided one of the paired type by more than is allowed. -/
def overlaps (m : Marker) (decisions : MarkerType → TypeDecision) : Bool :=
  let other := decisions m.type.paired.1
  other.status = .decided ∧ ∃ o ∈ other.marker, m.type.paired.2 < min m.endMs o.endMs - max m.startMs o.startMs

/-- One pass of the loop of `carry_over`. -/
def carryType (i : CarryInputs) (durationMs : ℤ) (known : MarkerType → Option (Option PreviousDecision))
    (wanted : Finset MarkerType) (out : MarkerType → TypeDecision) (mtype : MarkerType) : MarkerType → TypeDecision :=
  if mtype ∈ wanted then
    match known mtype with
    | none => out
    | some held =>
      match carriedMarker i durationMs mtype held with
      | none => out
      | some m =>
        if overlaps m out then out else Function.update out mtype ⟨mtype, .decided, some m, none, carriedOverReason⟩
  else out

/-- `wanted`: the types without any evidence. -/
def wantedTypes (decisions : MarkerType → TypeDecision) : Finset MarkerType :=
  ([.intro, .credits, .recap, .preview].filter fun t =>
    (decisions t).status = .noEvidence ∧ (decisions t).reason = noEvidenceReason).toFinset

/-- `carry_over`: the decisions with the replaced file's markers kept for the types without evidence. -/
def carryOver (i : CarryInputs) (decisions : MarkerType → TypeDecision) (durationMs : ℤ) : MarkerType → TypeDecision :=
  let wanted := wantedTypes decisions
  if wanted = ∅ then decisions
  else [MarkerType.intro, .credits, .recap, .preview].foldl
    (carryType i durationMs (i.previous wanted) wanted) decisions

/-! ### Overlaps -/

theorem overlapMs_comm (a b : Marker) : overlapMs a b = overlapMs b a := by
  rw [overlapMs, overlapMs, min_comm, max_comm a.startMs]

/-- A start moved later shortens an overlap. -/
theorem overlapMs_le {a a' b b' : Marker} (ha : a.startMs ≤ a'.startMs) (hae : a'.endMs = a.endMs)
    (hb : b.startMs ≤ b'.startMs) (hbe : b'.endMs = b.endMs) : overlapMs a' b' ≤ overlapMs a b := by
  simp only [overlapMs, hae, hbe]
  omega

/-- Two decided skips of paired types overlap by more than is allowed only where a lock says so. -/
structure SkipsApart (out : MarkerType → TypeDecision) : Prop where
  /-- An intro and a recap only when both are locked. -/
  intro_recap : ∀ m m', (out .intro).Publishes m → (out .recap).Publishes m' →
    introRecapMaxOverlapMs < overlapMs m m' → m.locked = true ∧ m'.locked = true
  /-- A preview and credits only when the preview is locked. -/
  preview_credits : ∀ m m', (out .preview).Publishes m → (out .credits).Publishes m' →
    previewCreditsMaxOverlapMs < overlapMs m m' → m.locked = true

theorem overlapTooLong_iff {a b : TypeDecision} {m m' : Marker} {limit : ℤ} (ha : a.Publishes m) (hb : b.Publishes m') :
    overlapTooLong a b limit = true ↔ limit < overlapMs m m' := by
  simp [overlapTooLong, ha.1, ha.2, hb.1, hb.2]

theorem locked_of_demoteUnlocked {dec : TypeDecision} {m : Marker} {reason : String}
    (h : (demoteUnlocked dec reason).Publishes m) : m.locked = true := by
  rw [demoteUnlocked] at h
  split_ifs at h with hlocked
  · simpa [h.2] using hlocked
  · exact absurd h not_publishes_noEvidence

/-- The overlap checks leave skips apart. -/
theorem skipsApart_applyOverlapDemotions (out : MarkerType → TypeDecision) :
    SkipsApart (applyOverlapDemotions out) := by
  constructor
  · intro m m' hm hm' hlong
    have htest := (overlapTooLong_iff (publishes_applyOverlapDemotions hm) (publishes_applyOverlapDemotions hm')).mpr hlong
    simp only [applyOverlapDemotions, htest, if_true] at hm hm'
    exact ⟨locked_of_demoteUnlocked hm, locked_of_demoteUnlocked hm'⟩
  · intro m m' hm hm' hlong
    have htest := (overlapTooLong_iff (publishes_applyOverlapDemotions hm) (publishes_applyOverlapDemotions hm')).mpr hlong
    simp only [applyOverlapDemotions, htest, if_true] at hm
    exact locked_of_demoteUnlocked hm

variable {candidates : List Candidate} {ctx : DecisionContext} {locked : MarkerType → Option Marker}
  {mtype : MarkerType} {m : Marker}

/-- What rule 7 leaves of a marker the checks saw: its end, and a start no earlier. A locked one it
leaves alone. -/
theorem publishes_decide_shrunk (hp : (decide candidates ctx locked mtype).Publishes m) :
    ∃ m₀, (decideUnshortened candidates ctx locked mtype).Publishes m₀ ∧ m₀.startMs ≤ m.startMs ∧
      m.endMs = m₀.endMs ∧ (m₀.locked = true → m = m₀) := by
  rw [decide] at hp
  split_ifs at hp with hshorten
  · rcases publishes_shorten hp with h | ⟨m₀, hm₀, hfrom⟩
    · exact ⟨m, h, le_rfl, rfl, fun _ => rfl⟩
    · have hfree : m₀.locked = false := by simpa [hm₀.2] using hshorten.2
      have htol := toleranceMs_pos m₀.type
      have hlater := hfrom.start_gt
      exact ⟨m₀, hm₀, by omega, hfrom.endMs_eq, fun h => absurd h (by simp [hfree])⟩
  · exact ⟨m, hp, le_rfl, rfl, fun _ => rfl⟩

/-- **What `decide` publishes keeps skips apart**, also after rule 7. -/
theorem skipsApart_decide (candidates : List Candidate) (ctx : DecisionContext) (locked : MarkerType → Option Marker) :
    SkipsApart (decide candidates ctx locked) := by
  have hbase : SkipsApart (decideUnshortened candidates ctx locked) := skipsApart_applyOverlapDemotions _
  constructor
  · intro m m' hm hm' hlong
    obtain ⟨m₀, hm₀, hs, he, hlock⟩ := publishes_decide_shrunk hm
    obtain ⟨m₀', hm₀', hs', he', hlock'⟩ := publishes_decide_shrunk hm'
    have hle := overlapMs_le hs he hs' he'
    obtain ⟨h, h'⟩ := hbase.intro_recap m₀ m₀' hm₀ hm₀' (lt_of_lt_of_le hlong hle)
    rw [hlock h, hlock' h']
    exact ⟨h, h'⟩
  · intro m m' hm hm' hlong
    obtain ⟨m₀, hm₀, hs, he, hlock⟩ := publishes_decide_shrunk hm
    obtain ⟨m₀', hm₀', hs', he', -⟩ := publishes_decide_shrunk hm'
    have hle := overlapMs_le hs he hs' he'
    have h := hbase.preview_credits m₀ m₀' hm₀ hm₀' (lt_of_lt_of_le hlong hle)
    rw [hlock h]
    exact h

/-! ### The carry-over -/

@[simp] theorem paired_paired (t : MarkerType) : t.paired.1.paired.1 = t := by cases t <;> rfl

theorem paired_limit (t : MarkerType) : t.paired.1.paired.2 = t.paired.2 := by cases t <;> rfl

theorem paired_ne (t : MarkerType) : t.paired.1 ≠ t := by cases t <;> decide

theorem paired_limit_nonneg (t : MarkerType) : 0 ≤ t.paired.2 := by cases t <;> decide

theorem fitted_eq_some {times : ℤ × ℤ} {d : ℤ} (h : fitted mtype times d = some m) : m.type = mtype := by
  rw [fitted] at h
  split_ifs at h
  rw [← Option.some.inj h]

/-- A marker carried over for a type is of the type. -/
theorem carriedMarker_type {i : CarryInputs} {d : ℤ} {held : Option PreviousDecision}
    (h : carriedMarker i d mtype held = some m) : m.type = mtype := by
  cases held with
  | none =>
    rw [carriedMarker, Option.filter_eq_some_iff] at h
    exact i.kept.type_eq _ _ h.1
  | some held =>
    rw [carriedMarker] at h
    cases hm : held.marker with
    | none => simp [hm] at h
    | some times =>
      simp only [hm] at h
      split_ifs at h
      exact fitted_eq_some h

theorem not_overlaps {out : MarkerType → TypeDecision} (h : overlaps m out = false) {o : Marker}
    (ho : (out m.type.paired.1).Publishes o) : overlapMs m o ≤ m.type.paired.2 := by
  have hlimit := paired_limit_nonneg m.type
  have hle : min m.endMs o.endMs - max m.startMs o.startMs ≤ m.type.paired.2 := by
    simpa [overlaps, ho.1, ho.2] using h
  exact max_le hlimit hle

/-- Every overlap of paired types that is too long lies between two markers that `base` publishes. -/
def OverlapsFrom (base out : MarkerType → TypeDecision) : Prop :=
  ∀ t m m', (out t).Publishes m → (out t.paired.1).Publishes m' →
    overlapMs m m' ≤ t.paired.2 ∨ ((base t).Publishes m ∧ (base t.paired.1).Publishes m')

theorem OverlapsFrom.refl (base : MarkerType → TypeDecision) : OverlapsFrom base base :=
  fun _ _ _ hm hm' => .inr ⟨hm, hm'⟩

/-- Deciding a type by a marker that overlaps nothing adds no overlap. -/
theorem OverlapsFrom.update {base out : MarkerType → TypeDecision} (h : OverlapsFrom base out)
    (hfree : overlaps m out = false) (reason : String) :
    OverlapsFrom base (Function.update out m.type ⟨m.type, .decided, some m, none, reason⟩) := by
  have hnew : ∀ a, (Function.update out m.type ⟨m.type, .decided, some m, none, reason⟩ m.type).Publishes a → a = m := by
    intro a ha
    rw [Function.update_self] at ha
    exact (Option.some.inj ha.2).symm
  intro t a b ha hb
  by_cases ht : t = m.type
  · subst ht
    obtain rfl := hnew a ha
    rw [Function.update_of_ne (paired_ne _)] at hb
    exact .inl (not_overlaps hfree hb)
  · rw [Function.update_of_ne ht] at ha
    by_cases hpair : t.paired.1 = m.type
    · rw [hpair] at hb
      obtain rfl := hnew b hb
      have htype : b.type.paired.1 = t := by rw [← hpair, paired_paired]
      have hlimit : b.type.paired.2 = t.paired.2 := by rw [← hpair, paired_limit]
      rw [← htype] at ha
      rw [overlapMs_comm, ← hlimit]
      exact .inl (not_overlaps hfree ha)
    · rw [Function.update_of_ne hpair] at hb
      exact h t a b ha hb

/-- **One pass adds no overlap.** -/
theorem OverlapsFrom.carryType {base out : MarkerType → TypeDecision} (h : OverlapsFrom base out) (i : CarryInputs)
    (d : ℤ) (known : MarkerType → Option (Option PreviousDecision)) (wanted : Finset MarkerType) (t : MarkerType) :
    OverlapsFrom base (carryType i d known wanted out t) := by
  unfold Markers.carryType
  split_ifs
  · cases known t with
    | none => exact h
    | some held =>
      dsimp only
      cases hm : carriedMarker i d t held with
      | none => exact h
      | some m =>
        obtain rfl := carriedMarker_type hm
        dsimp only
        split_ifs with hover
        · exact h
        · exact h.update (Bool.not_eq_true _ ▸ hover) _
  · exact h

theorem OverlapsFrom.foldl {base out : MarkerType → TypeDecision} (h : OverlapsFrom base out) (i : CarryInputs)
    (d : ℤ) (known : MarkerType → Option (Option PreviousDecision)) (wanted : Finset MarkerType)
    (ts : List MarkerType) : OverlapsFrom base (ts.foldl (Markers.carryType i d known wanted) out) := by
  induction ts generalizing out with
  | nil => exact h
  | cons t ts ih => exact ih (h.carryType i d known wanted t)

/-- **The carry-over adds no overlap.** -/
theorem overlapsFrom_carryOver (i : CarryInputs) (decisions : MarkerType → TypeDecision) (d : ℤ) :
    OverlapsFrom decisions (carryOver i decisions d) := by
  rw [carryOver]
  split_ifs
  · exact .refl _
  · exact (OverlapsFrom.refl _).foldl i d _ _ _

theorem SkipsApart.of_overlapsFrom {base out : MarkerType → TypeDecision} (h : SkipsApart base)
    (hfrom : OverlapsFrom base out) : SkipsApart out := by
  constructor
  · intro m m' hm hm' hlong
    rcases hfrom .intro m m' hm hm' with hle | ⟨hb, hb'⟩
    · exact absurd hlong (not_lt.mpr hle)
    · exact h.intro_recap m m' hb hb' hlong
  · intro m m' hm hm' hlong
    rcases hfrom .preview m m' hm hm' with hle | ⟨hb, hb'⟩
    · exact absurd hlong (not_lt.mpr hle)
    · exact h.preview_credits m m' hb hb' hlong

/-- **Overlapping skips are never published together.** After `decide` and the carry-over an intro
and a recap overlap by more than 5 s only if both are locked, a preview and credits by more than 10 s
only if the preview is; and a marker of a type `decide` had not decided overlaps its paired type by no
more than that at all. -/
theorem skips_apart (candidates : List Candidate) (ctx : DecisionContext) (locked : MarkerType → Option Marker)
    (i : CarryInputs) :
    SkipsApart (carryOver i (decide candidates ctx locked) ctx.durationMs) ∧
      ∀ t m m', (decide candidates ctx locked t).status ≠ .decided →
        (carryOver i (decide candidates ctx locked) ctx.durationMs t).Publishes m →
        (carryOver i (decide candidates ctx locked) ctx.durationMs t.paired.1).Publishes m' →
        overlapMs m m' ≤ t.paired.2 := by
  have hfrom := overlapsFrom_carryOver i (decide candidates ctx locked) ctx.durationMs
  refine ⟨(skipsApart_decide candidates ctx locked).of_overlapsFrom hfrom, fun t m m' hopen hm hm' => ?_⟩
  rcases hfrom t m m' hm hm' with hle | ⟨hb, -⟩
  · exact hle
  · exact absurd hb.1 hopen

end MediaPreview.Markers
