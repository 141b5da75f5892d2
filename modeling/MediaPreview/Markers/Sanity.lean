import MediaPreview.Markers.Models
import Mathlib.Tactic.SplitIfs

/-!
# Plausible segments

The bounds of `markers/decide.py` a candidate must keep to count at all
(`sanityProblem`), and the context they are read in. `timesProblem_eq_none_iff` says
what the checks of the times come to, so that nothing below unfolds them.
-/

namespace MediaPreview.Markers

open Binary64

/-- `EOF_CLAMP_MS`. -/
def eofClampMs : ℤ := 2000

/-- `MIN_SEGMENT_MS`. -/
def minSegmentMs : ℤ := 3000

/-- `MAX_INTRO_MS`. -/
def maxIntroMs : ℤ := 300000

/-- `MOVIE_CREDITS_MAX_FROM_END_MS`. -/
def movieCreditsMaxFromEndMsDefault : ℤ := 900000

/-- `ONLINE_LOGO_BEFORE_MS`. -/
def onlineLogoBeforeMs : ℤ := 2000

/-- `MIN_ONLINE_INTRO_AT_START_MS`. -/
def minOnlineIntroAtStartMs : ℤ := 10000

/-- `ONLINE_END_PAST_FILE_MS`. -/
def onlineEndPastFileMs : ℤ := 5000

/-- `DecisionContext`: per-file inputs to the rules. -/
structure DecisionContext where
  /-- The file's duration. -/
  durationMs : ℤ
  /-- The file is a movie. -/
  isMovie : Bool
  /-- The publish setting: `"medium"` lets one source that checks the file decide. -/
  publishWhen : String
  /-- The marker types detection is on for. -/
  enabledTypes : Finset MarkerType
  /-- The user's source order, by value. -/
  sourceOrder : List String
  /-- The season's limit on an intro chapter deciding alone. -/
  introChapterLimitMs : Option ℤ := none
  /-- How far before the end a movie's credits may start. -/
  movieCreditsMaxFromEndMs : ℤ := movieCreditsMaxFromEndMsDefault
  /-- The credits window the user chose, `0` for Automatic. -/
  creditsWindowMs : ℤ := 0
  /-- The file's video frame rate. -/
  frameRate : Option PyFloat := none

/-- `_START_SEGMENTS`: intros and recaps, whose checked edge is the end. -/
def MarkerType.isStartSegment : MarkerType → Bool
  | .intro | .recap => true
  | .credits | .preview => false

/-- `resolve_end_ms`: a candidate's end, the file's where it has none or overshoots. -/
def resolveEndMs (c : Candidate) (durationMs : ℤ) : ℤ :=
  match c.endMs with
  | none => durationMs
  | some e => min e durationMs

theorem resolveEndMs_le (c : Candidate) (d : ℤ) : resolveEndMs c d ≤ d := by
  unfold resolveEndMs
  split
  · exact le_rfl
  · exact min_le_right _ _

/-- `timed_on_any_release`: the times may come from another release than this file. -/
def timedOnAnyRelease (c : Candidate) : Bool :=
  match c.source with
  | .serverMarkersImported => c.copiedFrom = "introdb"
  | .introdb | .theintrodb => true
  | _ => false

/-- `_end_allowance_ms`: how far past the file's end a candidate may end and still be
clamped to it. -/
def endAllowanceMs (c : Candidate) : ℤ :=
  if !c.type.isStartSegment && timedOnAnyRelease c then onlineEndPastFileMs else eofClampMs

/-- `_earliest_placed_ms`: the last 25 % of the file, or anywhere inside a window the user
chose that does not reach before the middle of the file. -/
def earliestPlacedMs (durationMs windowMs : ℤ) : ℤ :=
  let lastQuarter := -(-75 * durationMs / 100)
  let insideWindow := max (durationMs - windowMs) (-(-durationMs / 2))
  min lastQuarter insideWindow

/-- `earliest_credits_start_ms`: the earliest credits start kept for a file. -/
def earliestCreditsStartMs (durationMs : ℤ) (isMovie : Bool) (creditsWindowMs movieCreditsMaxFromEndMs : ℤ) : ℤ :=
  let earliest := earliestPlacedMs durationMs creditsWindowMs
  if isMovie then max earliest (durationMs - movieCreditsMaxFromEndMs) else earliest

/-- The last checks of `_times_problem`: where a segment of each type may sit. -/
def placementProblem (type : MarkerType) (start stop : ℤ) (ctx : DecisionContext) : Option String :=
  let d := ctx.durationMs
  if type.isStartSegment then
    if d - eofClampMs ≤ stop then some (type.value ++ " runs to end of file")
    else if 35 * d < start * 100 then some (type.value ++ " starts after 35% of the file")
    else if maxIntroMs < stop - start then some (type.value ++ " too long")
    else none
  else
    let windowMs := if type = .credits then ctx.creditsWindowMs else 0
    if start < earliestPlacedMs d windowMs then some (type.value ++ " starts before the last 25% of the file")
    else if type = .credits ∧
        start < earliestCreditsStartMs d ctx.isMovie ctx.creditsWindowMs ctx.movieCreditsMaxFromEndMs then
      some ("movie credits start more than " ++ toString (ctx.movieCreditsMaxFromEndMs / 1000) ++ " s before the end")
    else none

/-- `_times_problem`: the checks of the times alone, whichever source gave them. -/
def timesProblem (c : Candidate) (ctx : DecisionContext) : Option String :=
  let d := ctx.durationMs
  let start := c.startMs
  if d ≤ 0 then some "duration unknown"
  else if start < 0 then some "negative start"
  else if d ≤ start then some "starts past the end of the file"
  else if ∃ e ∈ c.endMs, e < start then some "ends before it starts"
  else if ∃ e ∈ c.endMs, d + endAllowanceMs c < e then some "ends past the end of the file"
  else if resolveEndMs c d - start < minSegmentMs then some "segment too short"
  else placementProblem c.type start (resolveEndMs c d) ctx

/-- `_is_online_logo`: an online intro that is a logo at the start of the file. -/
def isOnlineLogo (c : Candidate) (durationMs : ℤ) : Bool :=
  if c.type ≠ .intro ∨ !timedOnAnyRelease c then false
  else
    let length := resolveEndMs c durationMs - c.startMs
    c.startMs < onlineLogoBeforeMs ∧ length < minOnlineIntroAtStartMs

/-- `sanity_problem`: why a candidate is implausible for this file, or `none`. -/
def sanityProblem (c : Candidate) (ctx : DecisionContext) : Option String :=
  let problem := timesProblem c ctx
  if problem = none ∧ isOnlineLogo c ctx.durationMs then
    some "online intro shorter than 10 s from the file's first 2 s: a logo at the start of the file"
  else problem

/-- A candidate that passes `sanity_problem`. -/
def Sane (c : Candidate) (ctx : DecisionContext) : Prop := sanityProblem c ctx = none

instance (c : Candidate) (ctx : DecisionContext) : Decidable (Sane c ctx) := by
  unfold Sane
  infer_instance

/-- `FileLimits`: the facts about one file a server's own marker is checked against. -/
structure FileLimits where
  /-- The file's duration; 0 or less when unknown. -/
  durationMs : ℤ
  deriving DecidableEq

/-- `unusable_server_marker`: why a server's own marker cannot be right for this file at all, or `none`. -/
def unusableServerMarker (c : Candidate) (limits : FileLimits) : Option String :=
  let d := limits.durationMs
  let start := c.startMs
  if d ≤ 0 then none
  else if start < 0 then some "negative start"
  else if d ≤ start then some "starts past the end of the file"
  else if ∃ e ∈ c.endMs, e < start then some "ends before it starts"
  else if ∃ e ∈ c.endMs, d + eofClampMs < e then some "ends past the end of the file"
  else if resolveEndMs c d - start < minSegmentMs then some "segment too short"
  else none

/-! ### What the checks come to -/

/-- The bounds on a segment's placement that depend on its type. -/
def Placed (type : MarkerType) (start stop : ℤ) (ctx : DecisionContext) : Prop :=
  match type with
  | .intro | .recap =>
    stop < ctx.durationMs - eofClampMs ∧ start * 100 ≤ 35 * ctx.durationMs ∧ stop - start ≤ maxIntroMs
  | .credits =>
    earliestPlacedMs ctx.durationMs ctx.creditsWindowMs ≤ start ∧
      earliestCreditsStartMs ctx.durationMs ctx.isMovie ctx.creditsWindowMs ctx.movieCreditsMaxFromEndMs ≤ start
  | .preview => earliestPlacedMs ctx.durationMs 0 ≤ start

/-- Rule 2's bounds on a segment of the file: inside it, not too short, and placed where
its type may sit. -/
structure Plausible (type : MarkerType) (start stop : ℤ) (ctx : DecisionContext) : Prop where
  /-- The file's duration is known. -/
  duration_pos : 0 < ctx.durationMs
  /-- The segment starts in the file. -/
  start_nonneg : 0 ≤ start
  /-- The segment ends in the file. -/
  stop_le : stop ≤ ctx.durationMs
  /-- The segment is long enough. -/
  length_ge : minSegmentMs ≤ stop - start
  /-- The segment sits where its type may. -/
  placed : Placed type start stop ctx

theorem ite_some_eq_none {p : Prop} [Decidable p] {a : String} {o : Option String} :
    (if p then some a else o) = none ↔ ¬ p ∧ o = none := by
  split_ifs with h <;> simp [h]

theorem placementProblem_eq_none_iff (type : MarkerType) (start stop : ℤ) (ctx : DecisionContext) :
    placementProblem type start stop ctx = none ↔ Placed type start stop ctx := by
  unfold placementProblem
  cases type <;> simp [MarkerType.isStartSegment, ite_some_eq_none, Placed, lt_sub_iff_add_lt]

/-- **The checks of the times**: the segment, clamped to the file, is plausible, and the
candidate's own end is not too far past the file's. -/
theorem timesProblem_eq_none_iff (c : Candidate) (ctx : DecisionContext) :
    timesProblem c ctx = none ↔
      Plausible c.type c.startMs (resolveEndMs c ctx.durationMs) ctx ∧
        ∀ e ∈ c.endMs, e ≤ ctx.durationMs + endAllowanceMs c := by
  have hstop := resolveEndMs_le c ctx.durationMs
  have hend : ∀ e ∈ c.endMs, resolveEndMs c ctx.durationMs ≤ e := by
    intro e he
    rw [Option.mem_def] at he
    simp [resolveEndMs, he]
  have hmin : (0 : ℤ) < minSegmentMs := by decide
  simp only [timesProblem, ite_some_eq_none, placementProblem_eq_none_iff, not_exists, not_and, not_lt, not_le]
  constructor
  · rintro ⟨h1, h2, -, -, h5, h6, h7⟩
    exact ⟨⟨h1, h2, hstop, h6, h7⟩, h5⟩
  · rintro ⟨⟨h1, h2, h3, h4, h5⟩, h6⟩
    refine ⟨h1, h2, by omega, fun e he => ?_, h6, h4, h5⟩
    have := hend e he
    omega

theorem Sane.times {c : Candidate} {ctx : DecisionContext} (h : Sane c ctx) : timesProblem c ctx = none := by
  unfold Sane sanityProblem at h
  dsimp only at h
  split_ifs at h
  exact h

/-- A sane candidate is a plausible segment of the file. -/
theorem Sane.withinBounds {c : Candidate} {ctx : DecisionContext} (h : Sane c ctx) :
    Plausible c.type c.startMs (resolveEndMs c ctx.durationMs) ctx :=
  ((timesProblem_eq_none_iff c ctx).mp h.times).1

end MediaPreview.Markers
