import MediaPreview.Markers.Decide

/-!
# What a decision looks like

Whatever branch it comes from, a decision is of the type it is asked for and holds a marker
exactly where it is decided (`OutcomeOf`). The rules build one from `noEvidence` and `decided`; what
comes after them replaces it by another of the same kind (`outcomeOf_decide`).
-/

namespace MediaPreview.Markers

open Ranking

variable {mtype : MarkerType} {ctx : DecisionContext} {l : List Candidate}

/-- A decision of a type. -/
structure OutcomeOf (mtype : MarkerType) (dec : TypeDecision) : Prop where
  /-- It is of the type. -/
  type_eq : dec.type = mtype
  /-- It holds a marker where it is decided, and only there. -/
  marker_iff : dec.marker.isSome = true ↔ dec.status = .decided

theorem outcomeOf_noEvidence (proposed : Option Marker) (reason : String) :
    OutcomeOf mtype (noEvidence mtype proposed reason) := ⟨rfl, by simp [noEvidence]⟩

theorem outcomeOf_decided (m : Marker) (reason : String) : OutcomeOf mtype (decided mtype m reason) :=
  ⟨rfl, by simp [decided]⟩

theorem OutcomeOf.withReason {dec : TypeDecision} (h : OutcomeOf mtype dec) (reason : String) :
    OutcomeOf mtype { dec with reason := reason } := ⟨h.type_eq, h.marker_iff⟩

/-! ### Agreeing clusters -/

theorem outcomeOf_decideMerged (merged : List Candidate) (textStart : Bool) (outvoted : String) :
    OutcomeOf mtype (decideMerged mtype merged ctx textStart outvoted) := by
  simp only [decideMerged]
  split_ifs
  · exact outcomeOf_decided ..
  · exact outcomeOf_decided ..
  · cases creditTextWithOwnMarker merged ctx with
    | none => exact outcomeOf_noEvidence ..
    | some text => exact outcomeOf_decided ..

theorem outcomeOf_decideFromCliques (cliques : List (List Candidate)) (textStart : Bool) :
    OutcomeOf mtype (decideFromCliques mtype cliques ctx textStart) := by
  simp only [decideFromCliques]
  split_ifs
  · exact outcomeOf_noEvidence ..
  · exact outcomeOf_decideMerged ..
  · exact outcomeOf_decideMerged ..

/-! ### Chapters -/

theorem textOverChapter_eq_some {clusters : List (List Candidate)} {dec : TypeDecision}
    (h : textOverChapter clusters mtype ctx = some dec) :
    ∃ reason, dec = { decideFromCliques mtype clusters ctx true with reason := reason } := by
  unfold textOverChapter at h
  dsimp only at h
  split_ifs at h
  exact ⟨_, (Option.some.inj h).symm⟩

theorem audioOverChapter_eq_some {clusters : List (List Candidate)} {chapter : Marker} {dec : TypeDecision}
    (h : audioOverChapter clusters chapter ctx = some dec) :
    ∃ reason, dec = { decideFromCliques .intro clusters ctx false with reason := reason } := by
  unfold audioOverChapter at h
  dsimp only at h
  split_ifs at h
  exact ⟨_, (Option.some.inj h).symm⟩

/-- What overrules a chapter is the decision of the clusters that contradict it. -/
theorem overChapter_eq_some {clusters : List (List Candidate)} {chapter : Marker} {dec : TypeDecision}
    (h : overChapter mtype clusters chapter ctx = some dec) :
    ∃ textStart reason, dec = { decideFromCliques mtype clusters ctx textStart with reason := reason } := by
  cases mtype with
  | intro => exact ⟨false, audioOverChapter_eq_some h⟩
  | credits => exact ⟨true, textOverChapter_eq_some h⟩
  | recap => exact absurd h (by simp [overChapter])
  | preview => exact absurd h (by simp [overChapter])

theorem outcomeOf_textMovesChapter {chosen : Candidate} {chapter : Marker} {others : List Candidate}
    {dec : TypeDecision} (h : textMovesChapter chosen chapter others ctx = some dec) : OutcomeOf .credits dec := by
  unfold textMovesChapter at h
  dsimp only at h
  split at h
  · split_ifs at h
    obtain rfl := Option.some.inj h
    exact outcomeOf_decided ..
  · exact absurd h (by simp)

theorem outcomeOf_contradictedChapter (chapter : Marker) (names : List String) (others : List Candidate) :
    OutcomeOf mtype (contradictedChapter mtype chapter names others ctx) := by
  simp only [contradictedChapter]
  split_ifs
  · exact outcomeOf_noEvidence ..
  · exact outcomeOf_decided ..

theorem outcomeOf_chapterStands (chapter : Marker) (others : List Candidate) :
    OutcomeOf mtype (chapterStands mtype chapter others ctx) := by
  simp only [chapterStands]
  split_ifs
  · exact outcomeOf_noEvidence ..
  · exact outcomeOf_decided ..

theorem outcomeOf_uncontradictedChapter (chosen : Candidate) (others : List Candidate) :
    OutcomeOf mtype (uncontradictedChapter mtype chosen others ctx) := by
  simp only [uncontradictedChapter]
  split
  · exact outcomeOf_noEvidence ..
  · split
    · exact outcomeOf_noEvidence ..
    · by_cases hcredits : mtype = .credits
      · subst hcredits
        rw [if_pos rfl]
        cases hmoved : textMovesChapter chosen (ownMarker chosen ctx) others ctx with
        | none => exact outcomeOf_chapterStands ..
        | some dec => exact outcomeOf_textMovesChapter hmoved
      · rw [if_neg hcredits]
        exact outcomeOf_chapterStands ..

theorem outcomeOf_decideFromChapter (chosen : Candidate) (others : List Candidate) :
    OutcomeOf mtype (decideFromChapter mtype chosen others ctx) := by
  simp only [decideFromChapter]
  split
  · exact outcomeOf_uncontradictedChapter ..
  · cases hover : overChapter mtype _ (ownMarker chosen ctx) ctx with
    | none => exact outcomeOf_contradictedChapter ..
    | some dec =>
      obtain ⟨textStart, reason, rfl⟩ := overChapter_eq_some hover
      exact (outcomeOf_decideFromCliques ..).withReason reason

/-! ### A single source -/

theorem outcomeOf_decideOrPropose (proposal best : Option Candidate) (reason : String) :
    OutcomeOf mtype (decideOrPropose mtype proposal best reason ctx) := by
  cases proposal with
  | none => exact outcomeOf_noEvidence ..
  | some p =>
    simp only [decideOrPropose]
    split_ifs
    · exact outcomeOf_decided ..
    · exact outcomeOf_noEvidence ..

theorem outcomeOf_decideAlone (proposal : Candidate) (own : List Candidate) :
    OutcomeOf mtype (decideAlone mtype proposal own ctx) := by
  simp only [decideAlone]
  split_ifs
  · exact outcomeOf_noEvidence ..
  · exact outcomeOf_decided ..
  · exact outcomeOf_decided ..
  · exact outcomeOf_noEvidence ..

theorem outcomeOf_decideUnsettled (ranked : List Candidate) (proposal : Option Candidate) :
    OutcomeOf mtype (decideUnsettled mtype l ranked proposal ctx) := by
  simp only [decideUnsettled]
  split_ifs <;> exact outcomeOf_decideOrPropose ..

theorem outcomeOf_decideFromSingleSource : OutcomeOf mtype (decideFromSingleSource mtype l ctx) := by
  simp only [decideFromSingleSource]
  split
  · split_ifs
    · exact outcomeOf_decideAlone ..
    · exact outcomeOf_decideUnsettled ..
  · exact outcomeOf_decideUnsettled ..

/-! ### One type, and a file -/

theorem outcomeOf_decideByRules : OutcomeOf mtype (decideByRules mtype l ctx).1 := by
  simp only [decideByRules]
  split
  · exact outcomeOf_decideFromChapter ..
  · simp only
    split_ifs
    · exact outcomeOf_decideFromSingleSource
    · exact outcomeOf_decideFromCliques ..

/-- The guard leaves a decision or finds no evidence. -/
theorem OutcomeOf.guardContradicted {dec : TypeDecision} (h : OutcomeOf mtype dec) (pool : List Candidate) :
    OutcomeOf mtype (guardContradicted dec pool l ctx) := by
  unfold Markers.guardContradicted
  split
  · dsimp only
    split_ifs
    · exact h
    · exact h
    · rw [h.type_eq]
      exact outcomeOf_noEvidence ..
  · exact h

theorem outcomeOf_decideType (ofType : List Candidate) : OutcomeOf mtype (decideType mtype ofType l ctx) := by
  simp only [decideType]
  split_ifs
  · exact outcomeOf_noEvidence ..
  · exact outcomeOf_noEvidence ..
  · exact outcomeOf_decideByRules.guardContradicted _

theorem outcomeOf_decideOne (candidates : List Candidate) (locked : MarkerType → Option Marker) :
    OutcomeOf mtype (decideOne candidates ctx locked mtype) := by
  rw [decideOne]
  split
  · exact outcomeOf_decided ..
  · split_ifs
    · exact outcomeOf_decideType ..
    · exact ⟨rfl, by simp⟩

theorem OutcomeOf.demoteUnlocked {dec : TypeDecision} (h : OutcomeOf mtype dec) (reason : String) :
    OutcomeOf mtype (demoteUnlocked dec reason) := by
  rw [Markers.demoteUnlocked]
  split_ifs
  · exact h
  · rw [h.type_eq]
    exact outcomeOf_noEvidence ..

theorem outcomeOf_decideUnshortened (candidates : List Candidate) (locked : MarkerType → Option Marker) :
    OutcomeOf mtype (decideUnshortened candidates ctx locked mtype) := by
  have hone : OutcomeOf mtype (decideOne candidates ctx locked mtype) := outcomeOf_decideOne ..
  rw [decideUnshortened]
  cases mtype with
  | credits => exact hone
  | intro =>
    rw [applyOverlapDemotions]
    split_ifs
    · exact hone.demoteUnlocked _
    · exact hone
  | recap =>
    rw [applyOverlapDemotions]
    split_ifs
    · exact hone.demoteUnlocked _
    · exact hone
  | preview =>
    rw [applyOverlapDemotions]
    split_ifs
    · exact hone.demoteUnlocked _
    · exact hone

/-- Rule 7 moves a marker that is there. -/
theorem OutcomeOf.shortenToServerMarkers {dec : TypeDecision} (h : OutcomeOf mtype dec) :
    OutcomeOf mtype (shortenToServerMarkers dec l ctx) := by
  unfold Markers.shortenToServerMarkers
  split
  · exact h
  · next m hm =>
    have hdecided : dec.status = .decided := h.marker_iff.mp (by rw [hm]; rfl)
    dsimp only
    split_ifs
    · exact h
    · exact h
    · split
      · exact h
      · split_ifs
        · exact ⟨h.type_eq, by simp [hdecided]⟩
        · exact h

/-- **Every decision** is of its type, and holds a marker exactly where it is decided. -/
theorem outcomeOf_decide (candidates : List Candidate) (locked : MarkerType → Option Marker) :
    OutcomeOf mtype (decide candidates ctx locked mtype) := by
  have hdec : OutcomeOf mtype (decideUnshortened candidates ctx locked mtype) := outcomeOf_decideUnshortened ..
  simp only [decide]
  split_ifs
  · exact hdec.shortenToServerMarkers
  · exact hdec

end MediaPreview.Markers
