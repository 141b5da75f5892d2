import MediaPreview.Lib.Text
import MediaPreview.Markers.Cluster

/-!
# Deciding one type

How the rules of `markers/decide.py` decide one marker type from its sane candidates:
from agreeing clusters (`decideFromCliques`), from a chapter (`decideFromChapters`) or
from a lone source (`decideFromSingleSource`). The reason texts are the source's.
-/

namespace MediaPreview.Markers

open Ranking

/-! ### Credit text -/

/-- `_rests_on_credit_text`: the marker's checked edge is one credit text gave. -/
def restsOnCreditText (m : Marker) (candidates : List Candidate) (ctx : DecisionContext) : Bool :=
  let checked := checkedValue m.type m
  candidates.any fun c =>
    c.source.winsADisagreement && m.decidedBy.contains c.source.value &&
      |agreeValue c ctx.durationMs - checked| ≤ toleranceMs m.type

/-- `_credit_text_with_own_marker`: the best-ranked credit text answer whose own edges are sane,
at "medium". -/
def creditTextWithOwnMarker (candidates : List Candidate) (ctx : DecisionContext) : Option Candidate :=
  if ctx.publishWhen ≠ "medium" then none
  else (candidates.filter fun c => c.source.winsADisagreement && markerIsSane (ownMarker c ctx) ctx).argmin (sortKey ctx)

/-! ### Agreeing clusters -/

/-- `{id(c): c for c in l}.values()`: each object once, where it first occurs. -/
def distinctObjects : List Candidate → List Candidate
  | [] => []
  | c :: l => c :: (distinctObjects l).filter (·.obj ≠ c.obj)

/-- `TEXT_START_NOTE`. -/
def textStartNote : String := "start from credit text"

/-- The end of `_decide_from_cliques`: the decision of one merged cluster. -/
def decideMerged (mtype : MarkerType) (merged : List Candidate) (ctx : DecisionContext) (textStart : Bool)
    (outvoted : String) : TypeDecision :=
  let mw := composeCluster merged mtype ctx textStart
  if markerIsSane mw.1 ctx then
    let others := (merged.map (·.source)).filter fun s =>
      mw.1.decidedBy.contains s.value && !s.isServer && s ≠ mw.2.source
    let note := if mtype = .credits ∧ textStart = false ∧ mw.2.source = .creditsText ∧ others ≠ [] then
      "; " ++ textStartNote else ""
    decided mtype mw.1 ("sources agree: " ++ String.intercalate ", " mw.1.decidedBy ++ outvoted ++ note)
  else
    match creditTextWithOwnMarker merged ctx with
    | none => noEvidence mtype (some (ownMarker mw.2 ctx)) "agreeing sources disagree on the other edge"
    | some text =>
      decided mtype (ownMarker text ctx)
        ("single source (" ++ text.source.value ++ "); agreeing sources disagree on the other edge")

/-- `_decide_from_cliques`: the decision of agreeing clusters. Clusters that conflict leave the
type undecided, unless exactly one holds credit text: that cluster decides. -/
def decideFromCliques (mtype : MarkerType) (cliques : List (List Candidate)) (ctx : DecisionContext)
    (textStart : Bool) : TypeDecision :=
  let composed := cliques.map fun cl => composeCluster cl mtype ctx textStart
  let values := composed.map fun mw => checkedValue mtype mw.1
  if toleranceMs mtype < values.max?.getD 0 - values.min?.getD 0 then
    -- clusters sharing a winner keep ascending compared-value order: the sort is stable
    let ranked := sortBy (fun mw => sortKey ctx mw.2) composed
    let names := String.intercalate " vs " (ranked.map fun mw => (group mw.2).name).eraseDups
    let read := cliques.filter fun cl => cl.any fun c => c.source.winsADisagreement
    if read.length ≠ 1 then
      noEvidence mtype (ranked.head?.map Prod.fst) ("agreeing sources conflict: " ++ names)
    else
      decideMerged mtype (distinctObjects read.flatten) ctx textStart
        ("; agreeing sources conflict (" ++ names ++ "), credit text's cluster decides")
  else decideMerged mtype (distinctObjects cliques.flatten) ctx textStart ""

/-- `_agreed`: decided from the agreement itself, not from one file read's own edges. -/
def agreed (dec : TypeDecision) : Bool :=
  dec.status = .decided ∧ dec.marker.any fun m => 1 < m.decidedBy.length

/-! ### Chapters -/

/-- `_chapter_choice_key`: the first intro or recap chapter or the last credits or preview one;
on a start tie the earlier end. -/
def chapterChoiceKey (durationMs : ℤ) (c : Candidate) : ℤ ×ₗ ℤ :=
  toLex (if c.type.isStartSegment then c.startMs else -c.startMs, resolveEndMs c durationMs)

/-- `_SOURCE_LABELS`: how a reason names a source. -/
def sourceLabel : Source → String
  | .chapters => "chapters"
  | .theintrodb => "TheIntroDB"
  | .introdb => "IntroDB"
  | .skipdb => "SkipDB"
  | .seasonAudio => "season audio"
  | .seasonAudioPrevious => "the previous season's audio"
  | .creditsText => "on-screen text"
  | .serverMarkers => "a server's own marker"
  | .serverMarkersImported => "a server's imported marker"
  | .user => Source.user.value

/-- `read_chapter_hint`: the label of a credit text answer read against a credits chapter, as
`^the frames (move|keep) the credits chapter at (\d+) ms(?: to (\d+) ms)?$` matches it: the
chapter's start, whether the frames move it, and where to. -/
def readChapterHint (label : String) : Option (ℤ × Bool × Option ℤ) := do
  let s ← Text.skip "the frames " label.toList
  let verdict := if (Text.skip "move" s).isSome then "move" else "keep"
  let s ← Text.skip verdict s
  let s ← Text.skip " the credits chapter at " s
  let (start, s) ← Text.number s
  let s ← Text.skip " ms" s
  let target : Option ℤ := do
    let s ← Text.skip " to " s
    let (target, s) ← Text.number s
    let s ← Text.skip " ms" s
    if Text.atEnd s then some (target : ℤ) else none
  if target.isSome || Text.atEnd s then some (start, verdict = "move", target) else none

/-- `_text_over_chapter`: credits decided by the clusters that contradict a credits chapter, when
each holds credit text and a source of another group that is not a server's marker. -/
def textOverChapter (clusters : List (List Candidate)) (mtype : MarkerType) (ctx : DecisionContext) :
    Option TypeDecision :=
  if clusters.all fun cl =>
      cl.any (fun c => c.source = .creditsText) &&
        cl.any fun c => !c.source.isServer && group c ≠ .of .creditsText then
    let dec := decideFromCliques mtype clusters ctx true
    if agreed dec then
      some { dec with reason := "credit text and agreeing sources contradict the chapters: " ++
        String.intercalate ", " ((dec.marker.map (·.decidedBy)).getD []) }
    else none
  else none

/-- `_audio_over_chapter`: an intro decided by the clusters that contradict an intro chapter, when
each holds season audio and a source of another group that is not a server's marker, and they
end the intro inside the chapter. -/
def audioOverChapter (clusters : List (List Candidate)) (chapter : Marker) (ctx : DecisionContext) :
    Option TypeDecision :=
  if clusters.all fun cl =>
      cl.any (fun c => c.source = .seasonAudio) &&
        cl.any fun c => !c.source.isServer && group c ≠ .of .seasonAudio then
    let dec := decideFromCliques .intro clusters ctx false
    if agreed dec ∧ dec.marker.any (fun m => chapter.startMs < m.endMs ∧ m.endMs < chapter.endMs) then
      some { dec with reason := "season audio and agreeing sources contradict the chapters: " ++
        String.intercalate ", " ((dec.marker.map (·.decidedBy)).getD []) }
    else none
  else none

/-- `_is_online`: an answer of IntroDB, TheIntroDB or SkipDB, or an importer plugin's copy of one. -/
def isOnline (c : Candidate) : Bool :=
  c.source = .introdb || c.source = .theintrodb || c.source = .skipdb || c.source = .serverMarkersImported

/-- `_audio_should_check_chapter`: an intro chapter waits for season audio. -/
def audioShouldCheckChapter (chapter : Marker) (others : List Candidate) (ctx : DecisionContext) : Bool :=
  let tol := toleranceMs .intro
  if !ctx.sourceOrder.contains Source.seasonAudio.value then false
  else if others.any fun c => c.source = .seasonAudio || c.source = .seasonAudioPrevious then false
  else if others.any fun c => |resolveEndMs c ctx.durationMs - chapter.endMs| ≤ tol then false
  else others.any fun c =>
    isOnline c && chapter.startMs < resolveEndMs c ctx.durationMs &&
      resolveEndMs c ctx.durationMs < chapter.endMs - tol

/-- `_text_should_check_chapter`: a credits chapter waits for credit text. -/
def textShouldCheckChapter (chapterValue : ℤ) (others : List Candidate) (ctx : DecisionContext) : Bool :=
  let tol := toleranceMs .credits
  if !ctx.sourceOrder.contains Source.creditsText.value || others.any fun c => c.source = .creditsText then false
  else if others.any fun c => |c.startMs - chapterValue| ≤ tol then false
  else others.any fun c => group c = .of .skipdb

/-- The credit text answers read against the chosen chapter that move it, each with where to. -/
def movingAnswers (chosen : Candidate) (others : List Candidate) : List (Candidate × Option ℤ) :=
  others.filterMap fun c =>
    if c.source = .creditsText then
      match readChapterHint c.origin with
      | some (start, moves, toMs) => if start = chosen.startMs ∧ moves then some (c, toMs) else none
      | none => none
    else none

/-- `_text_moves_chapter`: credits whose start credit text moved off the chapter. -/
def textMovesChapter (chosen : Candidate) (chapter : Marker) (others : List Candidate) (ctx : DecisionContext) :
    Option TypeDecision :=
  let tol := toleranceMs .credits
  match movingAnswers chosen others with
  | [(answer, toMs)] =>
    let startMs := toMs.getD answer.startMs
    if |startMs - chapter.startMs| ≤ tol then none
    else if others.any fun c => c.source ≠ .creditsText && |c.startMs - chapter.startMs| ≤ tol then none
    else
      let stop := min chapter.endMs (resolveEndMs answer ctx.durationMs)
      let marker := composedMarker .credits startMs stop [.chapters, .creditsText] ctx
      if markerIsSane marker ctx then
        some (decided .credits marker "chapters, the start moved to the credit roll the frames show")
      else none
  | _ => none

/-- The branch of `_decide_from_chapters` for agreeing clusters that contradict the chapter, when
nothing overrules it: credit text that agrees with the chapter lets it stand. -/
def contradictedChapter (mtype : MarkerType) (chapter : Marker) (names : List String) (others : List Candidate)
    (ctx : DecisionContext) : TypeDecision :=
  let chapterValue := checkedValue mtype chapter
  let reason := "chapters contradicted by agreeing sources: " ++ String.intercalate ", " names
  let reads := others.filter fun c =>
    c.source.winsADisagreement && |agreeValue c ctx.durationMs - chapterValue| ≤ toleranceMs mtype
  if reads = [] then noEvidence mtype (some chapter) reason
  else
    let sources := Source.chapters :: reads.map (·.source)
    let labels := String.intercalate " and " (reads.map fun c => sourceLabel c.source).eraseDups
    decided mtype (composedMarker mtype chapterValue (otherEdge mtype chapter) sources ctx)
      ("chapters, " ++ labels ++ " agrees; " ++ reason)

/-- The candidates that agree with a chapter's checked edge. -/
def agreeingWith (mtype : MarkerType) (chapter : Marker) (others : List Candidate) (ctx : DecisionContext) :
    List Candidate :=
  others.filter fun c => |agreeValue c ctx.durationMs - checkedValue mtype chapter| ≤ toleranceMs mtype

/-- `suspect`: an intro chapter longer than the season's limit. -/
def isSuspect (mtype : MarkerType) (chapter : Marker) (ctx : DecisionContext) : Bool :=
  mtype = .intro ∧ ctx.introChapterLimitMs.any fun limit => limit < chapter.endMs - chapter.startMs

/-- How many agreeing groups may shorten a chapter. -/
def groupsNeeded (suspect : Bool) : ℕ := if suspect then 1 else 2

/-- An unchecked edge that makes the chapter's skip shorter. -/
def isSafer (mtype : MarkerType) (edge : ℤ) (chapter : Marker) : Bool :=
  if mtype.isStartSegment then chapter.startMs < edge else edge < chapter.endMs

/-- The marker of a chapter that decides: its other edge replaced by a safer one that agreeing
groups give. -/
def chapterMarker (mtype : MarkerType) (chapter : Marker) (agreeing : List Candidate) (suspect : Bool)
    (ctx : DecisionContext) : Marker :=
  if groupsNeeded suspect ≤ (agreeing.map group).dedup.length then
    let edge := (saferOtherEdge mtype agreeing ctx).1
    let sources := Source.chapters :: agreeing.map (·.source)
    if isSafer mtype edge chapter then
      let marker := composedMarker mtype (checkedValue mtype chapter) edge sources ctx
      -- insane: the chapter stands as it is, the agreeing sources' edge is not taken
      if markerIsSane marker ctx then marker else chapter
    else if suspect then composedMarker mtype (checkedValue mtype chapter) chapter.startMs sources ctx
    else chapter
  else chapter

/-- The end of `_decide_from_chapters`: the chapter decides, unless it is suspect and nothing but
servers agrees with it. -/
def chapterStands (mtype : MarkerType) (chapter : Marker) (others : List Candidate) (ctx : DecisionContext) :
    TypeDecision :=
  let agreeing := agreeingWith mtype chapter others ctx
  let suspect := isSuspect mtype chapter ctx
  if suspect && agreeing.all fun c => c.source.isServer then
    noEvidence mtype (some chapter) "Intro chapter is much longer than the rest of the season's"
  else decided mtype (chapterMarker mtype chapter agreeing suspect ctx) "chapters"

/-- `contradicting`: the agreeing clusters whose marker contradicts the chapter, each with it. -/
def contradictingClusters (mtype : MarkerType) (chapter : Marker) (others : List Candidate) (ctx : DecisionContext) :
    List (List Candidate × Marker) :=
  ((agreeingCliques others mtype ctx).map fun cl => (cl, (composeCluster cl mtype ctx (mtype = .credits)).1)).filter
    fun cm => toleranceMs mtype < |checkedValue mtype cm.2 - checkedValue mtype chapter|

/-- `overruled`: the decision of the contradicting clusters, when they outvote the chapter. -/
def overChapter (mtype : MarkerType) (clusters : List (List Candidate)) (chapter : Marker) (ctx : DecisionContext) :
    Option TypeDecision :=
  match mtype with
  | .credits => textOverChapter clusters mtype ctx
  | .intro => audioOverChapter clusters chapter ctx
  | _ => none

/-- `_decide_from_chapters` where no agreeing cluster contradicts the chapter. -/
def uncontradictedChapter (mtype : MarkerType) (chosen : Candidate) (others : List Candidate)
    (ctx : DecisionContext) : TypeDecision :=
  let chapter := ownMarker chosen ctx
  if mtype = .credits ∧ textShouldCheckChapter (checkedValue mtype chapter) others ctx then
    noEvidence mtype (some chapter) "chapters contradicted by skipdb; waiting for credit text to check them"
  else if mtype = .intro ∧ audioShouldCheckChapter chapter others ctx then
    noEvidence mtype (some chapter) "chapters contradicted by an online answer; waiting for season audio to check them"
  else
    let moved := if mtype = .credits then textMovesChapter chosen chapter others ctx else none
    moved.getD (chapterStands mtype chapter others ctx)

/-- `_decide_from_chapters` of the chapter chosen. -/
def decideFromChapter (mtype : MarkerType) (chosen : Candidate) (others : List Candidate) (ctx : DecisionContext) :
    TypeDecision :=
  let chapter := ownMarker chosen ctx
  match contradictingClusters mtype chapter others ctx with
  | [] => uncontradictedChapter mtype chosen others ctx
  | first :: rest =>
    (overChapter mtype ((first :: rest).map Prod.fst) chapter ctx).getD
      (contradictedChapter mtype chapter first.2.decidedBy others ctx)

/-- `min(chapters, key=_chapter_choice_key)`. -/
def chosenChapter (chapters : List Candidate) (ctx : DecisionContext) : Option Candidate :=
  chapters.argmin (chapterChoiceKey ctx.durationMs)

/-! ### A single source -/

/-- `_AGREEMENT_ONLY`: the sources that never decide alone. -/
def Source.agreementOnly (s : Source) : Bool :=
  s.isServer || s = .introdb || s = .theintrodb || s = .skipdb || s = .seasonAudioPrevious

/-- `_may_decide_alone`. -/
def mayDecideAlone (c : Candidate) : Bool :=
  if c.source.agreementOnly then false
  else if c.source = .seasonAudio then c.type = .intro
  else true

/-- `_WHY_NOT_ALONE`, or `_NEEDS_ANOTHER_SOURCE`. -/
def whyNotAlone : Source → String
  | .introdb | .theintrodb | .skipdb => "an online answer needs a check against the file"
  | .seasonAudio | .seasonAudioPrevious => "matching audio needs another source to agree"
  | .serverMarkers | .serverMarkersImported => "a server's marker needs another source to agree"
  | _ => "it needs another source to agree"

/-- `_lone_answer_reason`: why a type nothing disagrees about is still undecided. -/
def loneAnswerReason (mtype : MarkerType) (sane : List Candidate) (best : Candidate) (aloneAllowed : Bool) :
    String :=
  let sources := sortedSet Source.enumOrder (sane.map (·.source))
  let names := String.intercalate " and " (sources.map sourceLabel).eraseDups
  if aloneAllowed then
    "only " ++ names ++ " found the " ++ mtype.value ++ "; at \"high\" a second source must agree"
  else
    let found := if sources.all Source.readsTheFile then "found" else if sources.length = 1 then "has" else "have"
    "only " ++ names ++ " " ++ found ++ " the " ++ mtype.value ++ "; " ++ whyNotAlone best.source

/-- `_only_audio_and_server_markers`. -/
def onlyAudioAndServerMarkers (sources : List Source) : Bool :=
  sources.all Source.isAudioOrServer && sources.any Source.isServer && sources.any fun s => !s.isServer

/-- The branch of `_decide_from_single_source` where only the proposal's group speaks. -/
def decideAlone (mtype : MarkerType) (proposal : Candidate) (own : List Candidate) (ctx : DecisionContext) :
    TypeDecision :=
  if !(pairs own).all fun p => agree p.1 p.2 ctx.durationMs then
    noEvidence mtype (some (ownMarker proposal ctx)) "source disagrees with itself"
  else
    let other := saferOtherEdge mtype own ctx
    let sources := proposal.source :: other.2.map (·.source)
    let marker := composedMarker mtype (agreeValue proposal ctx.durationMs) other.1 sources ctx
    let reason := "single source (" ++ proposal.source.value ++ ")"
    if markerIsSane marker ctx then decided mtype marker reason
    else if proposal.source.winsADisagreement then
      decided mtype (ownMarker proposal ctx) (reason ++ "; sources disagree on the other edge")
    else noEvidence mtype (some (ownMarker proposal ctx)) "sources disagree on the other edge"

/-- The end of `_decide_from_single_source`: `proposal` decides with its own edges at "medium". -/
def decideOrPropose (mtype : MarkerType) (proposal best : Option Candidate) (reason : String)
    (ctx : DecisionContext) : TypeDecision :=
  match proposal with
  | some p =>
    if ctx.publishWhen = "medium" then
      decided mtype (ownMarker p ctx) ("single source (" ++ p.source.value ++ "); " ++ reason)
    else noEvidence mtype (best.map (ownMarker · ctx)) reason
  | none => noEvidence mtype (best.map (ownMarker · ctx)) reason

/-- The end of `_decide_from_single_source`, where no lone group that checks the file may decide. -/
def decideUnsettled (mtype : MarkerType) (sane ranked : List Candidate) (proposal : Option Candidate)
    (ctx : DecisionContext) : TypeDecision :=
  if (pairs sane).any fun p => group p.1 ≠ group p.2 && !agree p.1 p.2 ctx.durationMs then
    let groups := sortedSet id (sane.map fun c => (group c).name)
    decideOrPropose mtype (ranked.find? fun c => c.source.winsADisagreement) ranked.head?
      ("sources disagree: " ++ String.intercalate ", " groups) ctx
  else if onlyAudioAndServerMarkers (sane.map (·.source)) then
    decideOrPropose mtype proposal ranked.head?
      "Season audio and a server's own marker agree, but both come from matching audio; needs another source" ctx
  else
    let aloneAllowed := proposal.isSome && ctx.publishWhen ≠ "medium"
    decideOrPropose mtype proposal ranked.head?
      (loneAnswerReason mtype sane (ranked.head?.getD default) aloneAllowed) ctx

/-- `servers_only_agree`: nothing but servers that agree stands beside the proposal's group. -/
def serversOnlyAgree (sane : List Candidate) (proposal : Candidate) (ctx : DecisionContext) : Bool :=
  let own := sane.filter fun c => group c = group proposal
  let others := sane.filter fun c => group c ≠ group proposal
  others.all (fun c => c.source.isServer) && others.all fun o => own.all fun c => agree o c ctx.durationMs

/-- `_decide_from_single_source`: no two independent sources agree. -/
def decideFromSingleSource (mtype : MarkerType) (sane : List Candidate) (ctx : DecisionContext) : TypeDecision :=
  let ranked := sortBy (sortKey ctx) sane
  match ranked.find? mayDecideAlone with
  | some proposal =>
    if ctx.publishWhen = "medium" ∧ serversOnlyAgree sane proposal ctx then
      decideAlone mtype proposal (sane.filter fun c => group c = group proposal) ctx
    else decideUnsettled mtype sane ranked (some proposal) ctx
  | none => decideUnsettled mtype sane ranked none ctx

end MediaPreview.Markers
