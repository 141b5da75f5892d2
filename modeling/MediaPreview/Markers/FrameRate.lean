import MediaPreview.Markers.Guard

/-!
# Whether the frame rate can matter

The rules read a file's frame rate in `onFileClock` only, so where no answer is read
scaled at either speed every frame rate gives the decisions of none
(`decide_atRate_of_noneRescaled`). The pipeline's cheap test, `fileClockMayMatter`, is
not as careful: it judges agreement against every candidate of another group, where
`onFileClock` judges it against the sane ones only, and it takes an answer inside the
file for one that is read as it is, where `onFileClock` reads any that fails the checks
scaled. `missed` is a file it skips whose intro the frame rate decides.
-/

namespace MediaPreview.Markers

open Binary64 Ranking

/-- The context with another frame rate. -/
def DecisionContext.atRate (ctx : DecisionContext) (rate : Option PyFloat) : DecisionContext :=
  { ctx with frameRate := rate }

variable {ctx : DecisionContext} {candidates : List Candidate} {locked : MarkerType → Option Marker}

/-! ### Only the readings depend on the frame rate -/

theorem decideFromCliques_atRate (rate : Option PyFloat) (mtype : MarkerType) (cliques : List (List Candidate))
    (textStart : Bool) :
    decideFromCliques mtype cliques (ctx.atRate rate) textStart = decideFromCliques mtype cliques ctx textStart := rfl

theorem overChapter_atRate (rate : Option PyFloat) (mtype : MarkerType) (clusters : List (List Candidate))
    (chapter : Marker) :
    overChapter mtype clusters chapter (ctx.atRate rate) = overChapter mtype clusters chapter ctx := by
  cases mtype with
  | intro =>
    simp only [overChapter, audioOverChapter, decideFromCliques_atRate]
    rfl
  | credits =>
    simp only [overChapter, textOverChapter, decideFromCliques_atRate]
    rfl
  | recap => rfl
  | preview => rfl

theorem uncontradictedChapter_atRate (rate : Option PyFloat) (mtype : MarkerType) (chosen : Candidate)
    (others : List Candidate) :
    uncontradictedChapter mtype chosen others (ctx.atRate rate) = uncontradictedChapter mtype chosen others ctx := rfl

theorem decideFromChapter_atRate (rate : Option PyFloat) (mtype : MarkerType) (chosen : Candidate)
    (others : List Candidate) :
    decideFromChapter mtype chosen others (ctx.atRate rate) = decideFromChapter mtype chosen others ctx := by
  have hown : ownMarker chosen (ctx.atRate rate) = ownMarker chosen ctx := rfl
  have hclusters : contradictingClusters mtype (ownMarker chosen ctx) others (ctx.atRate rate) =
      contradictingClusters mtype (ownMarker chosen ctx) others ctx := rfl
  have hcontra : ∀ names, contradictedChapter mtype (ownMarker chosen ctx) names others (ctx.atRate rate) =
      contradictedChapter mtype (ownMarker chosen ctx) names others ctx := fun _ => rfl
  unfold decideFromChapter
  simp only [hown, hclusters, hcontra, overChapter_atRate, uncontradictedChapter_atRate]

theorem decideByRules_atRate (rate : Option PyFloat) (mtype : MarkerType) (sane : List Candidate) :
    decideByRules mtype sane (ctx.atRate rate) = decideByRules mtype sane ctx := by
  have hcliques : agreeingCliques sane mtype (ctx.atRate rate) = agreeingCliques sane mtype ctx := rfl
  have hchosen : ∀ chapters, chosenChapter chapters (ctx.atRate rate) = chosenChapter chapters ctx := fun _ => rfl
  have hsingle : decideFromSingleSource mtype sane (ctx.atRate rate) = decideFromSingleSource mtype sane ctx := rfl
  unfold decideByRules
  simp only [hcliques, hchosen, hsingle, decideFromChapter_atRate, decideFromCliques_atRate]

/-- A type's rules read the frame rate nowhere. -/
theorem decideType_atRate (rate : Option PyFloat) (mtype : MarkerType) (of sane : List Candidate) :
    decideType mtype of sane (ctx.atRate rate) = decideType mtype of sane ctx := by
  have hguard : ∀ dp : TypeDecision × List Candidate,
      guardContradicted dp.1 dp.2 sane (ctx.atRate rate) = guardContradicted dp.1 dp.2 sane ctx := fun _ => rfl
  unfold decideType
  simp only [decideByRules_atRate, hguard]

theorem shortenToServerMarkers_atRate (rate : Option PyFloat) (dec : TypeDecision) (sane : List Candidate) :
    shortenToServerMarkers dec sane (ctx.atRate rate) = shortenToServerMarkers dec sane ctx := rfl

theorem onClock_atRate (rate : Option PyFloat) (mtype : MarkerType) :
    onClock candidates (ctx.atRate rate) mtype =
      withoutAnotherReleasesIntro (onFileClock (ofType candidates mtype) (ctx.atRate rate)) ctx := rfl

/-- The rules judge the type: it is on, and no lock of the user's decides it. -/
def Judged (ctx : DecisionContext) (locked : MarkerType → Option Marker) (mtype : MarkerType) : Prop :=
  mtype ∈ ctx.enabledTypes ∧ (locked mtype).filter (fun m => m.type = mtype) = none

theorem decideOne_atRate_congr {rate rate' : Option PyFloat} {mtype : MarkerType}
    (h : Judged ctx locked mtype → onClock candidates (ctx.atRate rate) mtype = onClock candidates (ctx.atRate rate') mtype) :
    decideOne candidates (ctx.atRate rate) locked mtype = decideOne candidates (ctx.atRate rate') locked mtype := by
  unfold decideOne
  split
  · rfl
  · rename_i hlock
    have henabled : ∀ r, mtype ∈ (ctx.atRate r).enabledTypes ↔ mtype ∈ ctx.enabledTypes := fun _ => Iff.rfl
    simp only [henabled, decideType_atRate]
    split
    · rename_i hen
      rw [h ⟨hen, hlock⟩]
    · rfl

/-- Only a type judged has a decision that may be shortened. -/
theorem judged_of_publishes {mtype : MarkerType} {m : Marker}
    (hp : (decideUnshortened candidates ctx locked mtype).Publishes m) (hu : m.locked = false) :
    Judged ctx locked mtype := by
  have hone := publishes_applyOverlapDemotions hp
  unfold decideOne at hone
  split at hone
  · rw [publishes_decided] at hone
    exact absurd hu (by simp [← hone])
  · rename_i hlock
    split at hone
    · rename_i hen
      exact ⟨hen, hlock⟩
    · exact absurd hone.1 (by simp)

/-- **A decision depends on the frame rate through the readings of the types judged only.** -/
theorem decide_atRate_congr {rate rate' : Option PyFloat}
    (h : ∀ mtype, Judged ctx locked mtype →
      onClock candidates (ctx.atRate rate) mtype = onClock candidates (ctx.atRate rate') mtype) (mtype : MarkerType) :
    decide candidates (ctx.atRate rate) locked mtype = decide candidates (ctx.atRate rate') locked mtype := by
  have hone : decideOne candidates (ctx.atRate rate) locked = decideOne candidates (ctx.atRate rate') locked :=
    funext fun t => decideOne_atRate_congr (h t)
  have hun : decideUnshortened candidates (ctx.atRate rate) locked =
      decideUnshortened candidates (ctx.atRate rate') locked := by
    unfold decideUnshortened
    rw [hone]
  unfold decide
  simp only [hun, shortenToServerMarkers_atRate]
  by_cases hj : Judged ctx locked mtype
  · rw [h mtype hj]
  · -- a type not judged is locked, off or undecided: rule 7 leaves it alone
    split
    · rename_i hcond
      cases hm : (decideUnshortened candidates (ctx.atRate rate') locked mtype).marker with
      | none => simp only [shortenToServerMarkers, hm]
      | some m => exact absurd (judged_of_publishes ⟨hcond.1, hm⟩ (by simpa [hm] using hcond.2)) hj
    · rfl

/-! ### Which readings do -/

/-- No answer of a type judged is read scaled, at either speed. -/
def NoneRescaled (candidates : List Candidate) (ctx : DecisionContext) (locked : MarkerType → Option Marker) : Prop :=
  ∀ mtype, Judged ctx locked mtype → ∀ rate scale, onlineTimeScale rate = some scale →
    ∀ c ∈ ofType candidates mtype, ¬ Rescaled (saneOf (ofType candidates mtype) ctx) scale ctx c

/-- Two ways to read the elements of a list, the first reading at least those the second does,
give one result only if they agree on every element. -/
theorem eq_of_filterMap_eq {α β : Type*} {f g : α → Option β} (h : ∀ a, (g a).isSome → (f a).isSome) :
    ∀ {l : List α}, l.filterMap f = l.filterMap g → ∀ a ∈ l, f a = g a
  | [], _ => by simp
  | a :: l, heq => by
    have hlen : (l.filterMap g).length ≤ (l.filterMap f).length := by
      simp only [List.length_filterMap_eq_countP]
      exact List.countP_mono_left fun b _ => h b
    have hboth : f a = g a ∧ l.filterMap f = l.filterMap g := by
      rw [List.filterMap_cons, List.filterMap_cons] at heq
      cases hf : f a with
      | none =>
        cases hg : g a with
        | none => exact ⟨rfl, by simpa [hf, hg] using heq⟩
        | some b => simpa [hf, hg] using h a (by simp [hg])
      | some b =>
        cases hg : g a with
        | none =>
          simp only [hf, hg] at heq
          have := congrArg List.length heq
          simp only [List.length_cons] at this
          omega
        | some b' =>
          simp only [hf, hg, List.cons.injEq] at heq
          exact ⟨congrArg some heq.1, heq.2⟩
    intro b hb
    rcases List.mem_cons.mp hb with rfl | hb
    · exact hboth.1
    · exact eq_of_filterMap_eq h hboth.2 b hb

/-- `saneOf` as a reading of each candidate. -/
theorem saneOf_eq_filterMap (l : List Candidate) (ctx : DecisionContext) :
    saneOf l ctx = l.filterMap fun c => if Sane c ctx then some c else none := by
  rw [saneOf, ← List.filterMap_eq_filter]
  congr 1
  funext c
  by_cases h : Sane c ctx <;> simp [h, Option.guard]

/-- **The readings are the sane candidates exactly when none is read scaled.** -/
theorem filterMap_fileReading_eq_iff {l : List Candidate} {scale : ℚ} :
    l.filterMap (fileReading (saneOf l ctx) scale ctx) = saneOf l ctx ↔
      ∀ c ∈ l, ¬ Rescaled (saneOf l ctx) scale ctx c := by
  constructor
  · intro h c hc hr
    have hsome : ∀ a, (if Sane a ctx then some a else none).isSome →
        (fileReading (saneOf l ctx) scale ctx a).isSome := by
      intro a ha
      have hsane : Sane a ctx := by
        by_contra hns
        simp [hns] at ha
      unfold fileReading
      split_ifs <;> rfl
    have heq := eq_of_filterMap_eq hsome (h.trans (saneOf_eq_filterMap l ctx)) c hc
    rw [fileReading, if_pos hr] at heq
    split_ifs at heq with hsane
    -- scaled and as it is are one reading, which agrees and does not
    have hsame : scaledAnswer c scale = c := Option.some.inj heq
    obtain ⟨-, hraw, -, hscaled⟩ := hr
    rw [hsame] at hscaled
    exact hraw ⟨hsane, hscaled⟩
  · intro h
    conv_rhs => rw [saneOf_eq_filterMap]
    exact List.filterMap_congr fun c hc => by rw [fileReading, if_neg (h c hc)]

theorem onFileClock_atRate (rate : Option PyFloat) (l : List Candidate) :
    onFileClock l (ctx.atRate rate) =
      match onlineTimeScale rate with
      | none => saneOf l ctx
      | some scale => l.filterMap (fileReading (saneOf l ctx) scale ctx) := rfl

/-- **The readings never depend on the frame rate exactly when none is scaled.** -/
theorem onFileClock_atRate_iff :
    (∀ mtype, Judged ctx locked mtype → ∀ rate, onFileClock (ofType candidates mtype) (ctx.atRate rate) =
      onFileClock (ofType candidates mtype) (ctx.atRate none)) ↔ NoneRescaled candidates ctx locked := by
  simp only [onFileClock_atRate, onlineTimeScale_none]
  constructor
  · intro h mtype hj rate scale hscale
    have := h mtype hj rate
    rw [hscale] at this
    exact filterMap_fileReading_eq_iff.mp this
  · intro h mtype hj rate
    cases hscale : onlineTimeScale rate with
    | none => rfl
    | some scale => exact filterMap_fileReading_eq_iff.mpr (h mtype hj rate scale hscale)

/-- **What the cheap test misses**: where it says the frame rate cannot matter, an answer is read
scaled only if it is inside the file and agrees with a candidate of another group, but one of
the two does not pass the checks, or the other is a stale server answer. -/
theorem missed_of_rescaled {mtype : MarkerType} {scale : ℚ} {c : Candidate}
    (hskip : fileClockMayMatter candidates ctx.durationMs = false) (hc : c ∈ ofType candidates mtype)
    (hr : Rescaled (saneOf (ofType candidates mtype) ctx) scale ctx c) :
    outsideFile c ctx.durationMs = false ∧ ∃ o ∈ candidates, o.type = c.type ∧ group o ≠ group c ∧
      agree c o ctx.durationMs = true ∧ (o.stale = true ∨ ¬ Sane o ctx ∨ ¬ Sane c ctx) := by
  obtain ⟨honline, hraw, -, hscaled⟩ := hr
  obtain ⟨hcl, htype⟩ := mem_ofType hc
  -- what it agrees with scaled is another group's candidate, which the test looks at too
  have hother : (candidates.filter fun o => o.type = c.type && group o ≠ group c) ≠ [] := by
    simp only [confirmedBy, List.any_eq_true, Bool.and_eq_true, decide_eq_true_eq] at hscaled
    obtain ⟨o, ho, hgroup, -⟩ := hscaled
    have ho' := mem_ofType (mem_saneOf.mp ho).1
    refine List.ne_nil_of_mem (a := o) (List.mem_filter.mpr ⟨ho'.1, ?_⟩)
    simpa [ho'.2, htype] using hgroup
  have htest := List.any_eq_false.mp hskip c hcl
  simp only [honline, Bool.true_and, Bool.and_eq_true, decide_eq_true_eq, Bool.or_eq_true, not_and, not_or,
    Bool.not_eq_true, Bool.not_eq_false'] at htest
  obtain ⟨hin, hagree⟩ := htest hother
  refine ⟨hin, ?_⟩
  obtain ⟨o, ho, hco⟩ := List.any_eq_true.mp hagree
  simp only [List.mem_filter, Bool.and_eq_true, decide_eq_true_eq] at ho
  refine ⟨o, ho.1, ho.2.1, ho.2.2, hco, ?_⟩
  by_contra hall
  push Not at hall
  refine hraw ⟨hall.2.2, List.any_eq_true.mpr ⟨o, mem_saneOf.mpr ⟨?_, hall.2.1⟩, ?_⟩⟩
  · simp only [ofType, List.mem_filter, decide_eq_true_eq]
    exact ⟨⟨ho.1, by simpa using hall.1⟩, ho.2.1.trans htype⟩
  · simpa [ho.2.2] using hco

/-! ### A file the test skips -/

/-- A 50 minute episode whose IntroDB intro, timed on a film-rate release, ends with a SkipDB answer
too long to count; season audio has the intro 13 s earlier. -/
def missed : Evidence where
  candidates := [⟨.intro, 300000, some 330500, .introdb, .finite 1, "", "", false, 0⟩,
    ⟨.intro, 0, some 331000, .skipdb, .finite 1, "", "", false, 1⟩,
    ⟨.intro, 288000, some 317000, .seasonAudio, .finite 1, "3/5", "", false, 2⟩]
  obj_inj := by decide

/-- The episode's context, its frame rate not read. -/
def missedCtx : DecisionContext := { episodeCtx with durationMs := 3000000 }

/-- The intro of a 25 fps file: IntroDB's read on its clock agrees with season audio. -/
def missedIntro : Marker := ⟨.intro, 288000, 317000, ["introdb", "season_audio"], false⟩

/-- The readings of `missed` at 25 fps: IntroDB's answer scaled, season audio's, SkipDB's dropped. -/
def missedReadings : List Candidate :=
  [⟨.intro, 287712, some 316963, .introdb, .finite 1, "", "", false, 0⟩,
    ⟨.intro, 288000, some 317000, .seasonAudio, .finite 1, "3/5", "", false, 2⟩]

theorem onClock_missed :
    onClock missed.candidates (missedCtx.atRate (some (.finite 25))) .intro = missedReadings := by
  obtain ⟨k, hk, hlo, hhi⟩ := onlineTimeScale_pal
  have hstart : scaledMs 300000 k = 287712 :=
    scaledMs_eq (by norm_num) (by norm_num) hlo hhi (by norm_num) (by norm_num) (by norm_num) (by norm_num)
  have hstop : scaledMs 330500 k = 316963 :=
    scaledMs_eq (by norm_num) (by norm_num) hlo hhi (by norm_num) (by norm_num) (by norm_num) (by norm_num)
  set sane := saneOf missed.candidates missedCtx with hsane
  have hintrodb : fileReading sane k missedCtx ⟨.intro, 300000, some 330500, .introdb, .finite 1, "", "", false, 0⟩ =
      some ⟨.intro, 287712, some 316963, .introdb, .finite 1, "", "", false, 0⟩ := by
    simp only [fileReading, Rescaled, scaledAnswer, hstart, hstop, Option.map_some, hsane]
    decide
  have hskipdb : fileReading sane k missedCtx ⟨.intro, 0, some 331000, .skipdb, .finite 1, "", "", false, 1⟩ = none := by
    rw [fileReading, if_neg fun h => absurd h.1 (by decide), if_neg (by decide)]
  have haudio : fileReading sane k missedCtx ⟨.intro, 288000, some 317000, .seasonAudio, .finite 1, "3/5", "", false, 2⟩ =
      some ⟨.intro, 288000, some 317000, .seasonAudio, .finite 1, "3/5", "", false, 2⟩ := by
    rw [fileReading, if_neg fun h => absurd h.1 (by decide), if_pos (by decide)]
  have hof : ofType missed.candidates .intro = missed.candidates := by decide
  have hfile : missed.candidates.filterMap (fileReading sane k missedCtx) = missedReadings := by
    simp only [missed, List.filterMap_cons, hintrodb, hskipdb, haudio, List.filterMap_nil, missedReadings]
  rw [onClock_atRate, onFileClock_atRate, hk]
  simp only [hof, ← hsane, hfile]
  decide

/-- **The skip is not sound**: the test says the frame rate of `missed` cannot matter, but the intro
is undecided without one and decided at 25 fps. -/
theorem missed_fileClockMayMatter : fileClockMayMatter missed.candidates missedCtx.durationMs = false ∧
    (decide missed.candidates (missedCtx.atRate none) (fun _ => none) .intro).status = .noEvidence ∧
    (decide missed.candidates (missedCtx.atRate (some (.finite 25))) (fun _ => none) .intro).Publishes missedIntro := by
  refine ⟨by decide, by decide, ?_⟩
  have hintro : decideOne missed.candidates (missedCtx.atRate (some (.finite 25))) (fun _ => none) .intro =
      decideType .intro missed.candidates missedReadings missedCtx := by
    have hof : ofType missed.candidates .intro = missed.candidates := by decide
    rw [← decideType_atRate (some (.finite 25)), ← onClock_missed]
    conv_rhs => rw [← hof]
    rfl
  have hrecap : decideOne missed.candidates (missedCtx.atRate (some (.finite 25))) (fun _ => none) .recap =
      ⟨.recap, .disabled, none, none, "detection off"⟩ := rfl
  rw [decide_of_isStartSegment rfl, decideUnshortened, applyOverlapDemotions, hintro, hrecap]
  decide

/-- **When the frame rate changes nothing**: where no answer is read scaled, and only there, the
rules read the same of every type they judge at any frame rate, and so they decide the same. -/
theorem decide_atRate_of_noneRescaled (candidates : List Candidate) (ctx : DecisionContext)
    (locked : MarkerType → Option Marker) :
    ((∀ mtype, Judged ctx locked mtype → ∀ rate, onFileClock (ofType candidates mtype) (ctx.atRate rate) =
        onFileClock (ofType candidates mtype) (ctx.atRate none)) ↔ NoneRescaled candidates ctx locked) ∧
      (fileClockMayMatter candidates ctx.durationMs = true ∨ NoneRescaled candidates ctx locked →
        fileClockMayMatter candidates ctx.durationMs = false → ∀ rate mtype,
          decide candidates (ctx.atRate rate) locked mtype = decide candidates (ctx.atRate none) locked mtype) := by
  refine ⟨onFileClock_atRate_iff, fun h hskip rate mtype => ?_⟩
  have hnone := h.resolve_left (by simp [hskip])
  refine decide_atRate_congr (fun t hj => ?_) mtype
  rw [onClock_atRate, onClock_atRate, onFileClock_atRate_iff.mpr hnone t hj rate]

/-- IntroDB's answer of `opening` agrees as it is. -/
theorem noneRescaled_opening : NoneRescaled opening.candidates episodeCtx fun _ => none := by
  have hraw : ∀ mtype, ∀ c ∈ ofType opening.candidates mtype, timedOnAnyRelease c = true →
      Sane c episodeCtx ∧ confirmedBy c (saneOf (ofType opening.candidates mtype) episodeCtx) episodeCtx.durationMs = true := by
    intro mtype
    cases mtype <;> decide
  exact fun mtype _ _ _ _ c hc hr => hr.2.1 (hraw mtype c hc hr.1)

theorem decide_atRate_opening :
    decide opening.candidates (episodeCtx.atRate (some (.finite 25))) (fun _ => none) .intro =
      decide opening.candidates (episodeCtx.atRate none) (fun _ => none) .intro :=
  (decide_atRate_of_noneRescaled opening.candidates episodeCtx fun _ => none).2 (.inr noneRescaled_opening) (by decide)
    (some (.finite 25)) .intro

end MediaPreview.Markers
