import MediaPreview.Markers.Rules

/-!
# Deciding a file

`decide`: every marker type of a file, from locks, the rules of each type
(`decideType`), the contradiction guard, the overlap checks between types
(`applyOverlapDemotions`), and rule 7, which moves a decided credits or preview start
later to a server's own marker (`shortenToServerMarkers`).
-/

namespace MediaPreview.Markers

open Ranking

/-- `INTRO_RECAP_MAX_OVERLAP_MS`. -/
def introRecapMaxOverlapMs : ℤ := 5000

/-- `PREVIEW_CREDITS_MAX_OVERLAP_MS`. -/
def previewCreditsMaxOverlapMs : ℤ := 10000

/-! ### One type -/

/-- The first half of `_decide_type`: what the rules decide, and the candidates the guard asks.
Only the chapter chosen is left out of those; another chapter may be half of a pair. -/
def decideByRules (mtype : MarkerType) (sane : List Candidate) (ctx : DecisionContext) :
    TypeDecision × List Candidate :=
  let others := sane.filter fun c => c.source ≠ .chapters
  match chosenChapter (sane.filter fun c => c.source = .chapters) ctx with
  | some chosen => (decideFromChapter mtype chosen others ctx, sane.filter fun c => c.obj ≠ chosen.obj)
  | none =>
    let cliques := agreeingCliques sane mtype ctx
    (if cliques = [] then decideFromSingleSource mtype sane ctx else decideFromCliques mtype cliques ctx false, others)

/-- The guard: an agreeing pair of `pool` that contradicts a decided marker undoes it, unless the
marker rests on credit text. -/
def guardContradicted (dec : TypeDecision) (pool sane : List Candidate) (ctx : DecisionContext) : TypeDecision :=
  match dec.status, dec.marker with
  | .decided, some m =>
    if restsOnCreditText m sane ctx then dec
    else
      let contradicting := contradictingGroups m pool ctx
      if contradicting = [] then dec
      else noEvidence dec.type dec.marker
        ("agreeing sources contradict the result: " ++ String.intercalate ", " contradicting)
  | _, _ => dec

/-- `_decide_type`: one type's decision from its candidates `ofType` and those of them read on the
file's clock, `sane`. -/
def decideType (mtype : MarkerType) (ofType sane : List Candidate) (ctx : DecisionContext) : TypeDecision :=
  if sane = [] then
    noEvidence mtype none
      (if ofType = [] then "no evidence" else toString ofType.length ++ " candidate(s) failed sanity checks")
  else
    let dp := decideByRules mtype sane ctx
    guardContradicted dp.1 dp.2 sane ctx

/-! ### Rule 7 -/

/-- A server's own marker says the credits already run where they are decided to start. -/
def runsAtStart (m : Marker) (durationMs : ℤ) (c : Candidate) : Bool :=
  (c.startMs ≤ m.startMs ∧ m.startMs ≤ resolveEndMs c durationMs) ∨ |c.startMs - m.startMs| ≤ toleranceMs m.type

/-- The servers' own markers that start well inside a decided marker. -/
def startsInside (m : Marker) (own : List Candidate) : List Candidate :=
  own.filter fun c => m.startMs + toleranceMs m.type < c.startMs ∧ c.startMs < m.endMs - toleranceMs m.type

/-- `first_start[origin]`: a server's first start inside. -/
def firstStart (inside : List Candidate) (origin : String) : ℤ :=
  (((inside.filter fun c => c.origin = origin).map (·.startMs)).min?).getD 0

/-- `max(first_start.values())`, when there are any. -/
def latestOffer (inside : List Candidate) : Option ℤ := (inside.map fun c => firstStart inside c.origin).max?

/-- The named servers whose offer is taken. -/
def shorteningServers (inside : List Candidate) (start : ℤ) : List String :=
  sortedSet id ((inside.map (·.origin)).filter fun o => firstStart inside o = start ∧ o ≠ "")

/-- The reason a shortened decision carries. -/
def shortenedReason (reason : String) (servers : List String) : String :=
  reason ++ "; start shortened to the server's own marker" ++
    (if servers = [] then "" else " (" ++ String.intercalate ", " servers ++ ")")

/-- `_shorten_to_server_markers` of a decided, unlocked marker. -/
def shortenToServerMarkers (dec : TypeDecision) (sane : List Candidate) (ctx : DecisionContext) : TypeDecision :=
  match dec.marker with
  | none => dec
  | some m =>
    if dec.type.isStartSegment then dec
    else
      let own := sane.filter fun c => c.source = .serverMarkers
      if own.any (runsAtStart m ctx.durationMs) then dec
      else
        let inside := startsInside m own
        match latestOffer inside with
        | none => dec
        | some start =>
          let sources := .serverMarkers :: m.decidedBy.filterMap Source.ofValue
          let shortened := composedMarker dec.type start m.endMs sources ctx
          if markerIsSane shortened ctx then
            { dec with marker := some shortened
                       reason := shortenedReason dec.reason (shorteningServers inside start) }
          else dec

/-! ### Overlaps between types -/

/-- `_overlap_ms`. -/
def overlapMs (a b : Marker) : ℤ := max 0 (min a.endMs b.endMs - max a.startMs b.startMs)

/-- Both types are decided, with markers that overlap by more than `limit`. -/
def overlapTooLong (a b : TypeDecision) (limit : ℤ) : Bool :=
  a.status = .decided ∧ b.status = .decided ∧ ∃ m ∈ a.marker, ∃ m' ∈ b.marker, limit < overlapMs m m'

/-- `_demote`, of an unlocked marker. -/
def demoteUnlocked (dec : TypeDecision) (reason : String) : TypeDecision :=
  if dec.marker.any (·.locked) then dec else noEvidence dec.type dec.marker reason

/-- `_apply_overlap_demotions`: the checks across types, each judged on the types' own decisions. -/
def applyOverlapDemotions (out : MarkerType → TypeDecision) : MarkerType → TypeDecision
  | .intro =>
    if overlapTooLong (out .intro) (out .recap) introRecapMaxOverlapMs then
      demoteUnlocked (out .intro) "intro and recap overlap" else out .intro
  | .recap =>
    if overlapTooLong (out .intro) (out .recap) introRecapMaxOverlapMs then
      demoteUnlocked (out .recap) "intro and recap overlap" else out .recap
  | .preview =>
    if overlapTooLong (out .preview) (out .credits) previewCreditsMaxOverlapMs then
      demoteUnlocked (out .preview) "preview overlaps credits" else out .preview
  | .credits => out .credits

/-! ### A file -/

/-- The candidates of one type that count: a stale server answer counts for nothing. -/
def ofType (candidates : List Candidate) (mtype : MarkerType) : List Candidate :=
  (candidates.filter fun c => !c.stale).filter fun c => c.type = mtype

/-- `on_clock[mtype]`: the type's candidates as the rules read them. -/
def onClock (candidates : List Candidate) (ctx : DecisionContext) (mtype : MarkerType) : List Candidate :=
  withoutAnotherReleasesIntro (onFileClock (ofType candidates mtype) ctx) ctx

/-- `out[mtype]` before the overlap checks. A lock wins over everything, a disabled type too; one
of another type than its key is ignored. -/
def decideOne (candidates : List Candidate) (ctx : DecisionContext) (locked : MarkerType → Option Marker)
    (mtype : MarkerType) : TypeDecision :=
  match (locked mtype).filter fun m => m.type = mtype with
  | some lock => decided mtype { lock with locked := true } "locked by user"
  | none =>
    if mtype ∈ ctx.enabledTypes then
      decideType mtype (ofType candidates mtype) (onClock candidates ctx mtype) ctx
    else ⟨mtype, .disabled, none, none, "detection off"⟩

/-- `out` before rule 7. -/
def decideUnshortened (candidates : List Candidate) (ctx : DecisionContext) (locked : MarkerType → Option Marker) :
    MarkerType → TypeDecision := applyOverlapDemotions (decideOne candidates ctx locked)

/-- `decide`: every marker type of one file. -/
def decide (candidates : List Candidate) (ctx : DecisionContext) (locked : MarkerType → Option Marker)
    (mtype : MarkerType) : TypeDecision :=
  let dec := decideUnshortened candidates ctx locked mtype
  if dec.status = .decided ∧ dec.marker.all (!·.locked) then
    shortenToServerMarkers dec (onClock candidates ctx mtype) ctx
  else dec

/-! ### One episode -/

/-- A 22 minute episode, deciding at "medium". -/
def episodeCtx : DecisionContext where
  durationMs := 1320000
  isMovie := false
  publishWhen := "medium"
  enabledTypes := {.intro, .credits}
  sourceOrder := ["introdb", "season_audio", "credits_text"]

/-- IntroDB's answer of `opening`. -/
def openingIntrodb : Candidate := ⟨.intro, 30000, some 90000, .introdb, .finite 1, "", "", false, 0⟩

/-- Season audio's answer of `opening`. -/
def openingAudio : Candidate := ⟨.intro, 31000, some 92000, .seasonAudio, .finite 1, "3/5", "", false, 1⟩

/-- An opening IntroDB and season audio agree on. -/
def opening : Evidence where
  candidates := [openingIntrodb, openingAudio]
  obj_inj := by decide

/-- The opening's intro: season audio's, which reads the file. -/
def openingIntro : Marker := ⟨.intro, 31000, 92000, ["introdb", "season_audio"], false⟩

example : (decide opening.candidates episodeCtx (fun _ => none) .intro).Publishes openingIntro := by decide

end MediaPreview.Markers
