import MediaPreview.Markers.Agreement
import MediaPreview.Markers.Speed

/-!
# Online times on the file's clock

IntroDB and TheIntroDB times come from whichever release their users timed. On a file at
the other speed of a PAL speed-up `onFileClock` reads them scaled, and rule 14
(`withoutAnotherReleasesIntro`) leaves out an intro that is season audio's on another
release. `fileClockMayMatter` is the cheap test the pipeline makes before it probes the
file's frame rate.
-/

namespace MediaPreview.Markers

/-- `OTHER_RELEASE_MIN_SHIFT_MS`. -/
def otherReleaseMinShiftMs : ℤ := 15000

/-- `OTHER_RELEASE_MIN_LENGTH_MS`. -/
def otherReleaseMinLengthMs : ℤ := 30000

/-- A candidate agrees with one of another independent group. -/
def confirmedBy (c : Candidate) (others : List Candidate) (durationMs : ℤ) : Bool :=
  others.any fun o => group o ≠ group c && agree c o durationMs

/-- The candidates that pass `sanity_problem`. -/
def saneOf (ofType : List Candidate) (ctx : DecisionContext) : List Candidate := ofType.filter fun c => Sane c ctx

/-- `replace(c, start_ms=round(c.start_ms * scale), …)`. Python makes a new object here; the rules
tell only chapters and members of a merged cluster apart by identity, and a chapter is not
scaled, so the copy may keep the object it is read from. -/
def scaledAnswer (c : Candidate) (scale : ℚ) : Candidate :=
  { c with startMs := scaledMs c.startMs scale, endMs := c.endMs.map fun e => scaledMs e scale }

@[simp] theorem scaledAnswer_type (c : Candidate) (k : ℚ) : (scaledAnswer c k).type = c.type := rfl
@[simp] theorem scaledAnswer_source (c : Candidate) (k : ℚ) : (scaledAnswer c k).source = c.source := rfl
@[simp] theorem scaledAnswer_origin (c : Candidate) (k : ℚ) : (scaledAnswer c k).origin = c.origin := rfl
@[simp] theorem scaledAnswer_obj (c : Candidate) (k : ℚ) : (scaledAnswer c k).obj = c.obj := rfl

@[simp] theorem group_scaledAnswer (c : Candidate) (k : ℚ) : group (scaledAnswer c k) = group c := rfl

/-- An answer is read scaled: as it is, it agrees with no sane candidate of another group, and
scaled it is sane and agrees with one. -/
def Rescaled (sane : List Candidate) (scale : ℚ) (ctx : DecisionContext) (c : Candidate) : Prop :=
  timedOnAnyRelease c = true ∧ ¬ (Sane c ctx ∧ confirmedBy c sane ctx.durationMs = true) ∧
    Sane (scaledAnswer c scale) ctx ∧ confirmedBy (scaledAnswer c scale) sane ctx.durationMs = true

instance (sane : List Candidate) (scale : ℚ) (ctx : DecisionContext) (c : Candidate) :
    Decidable (Rescaled sane scale ctx c) := by
  unfold Rescaled
  infer_instance

/-- One pass of the loop of `_on_file_clock`. The candidate is in `sane` exactly when it is sane. -/
def fileReading (sane : List Candidate) (scale : ℚ) (ctx : DecisionContext) (c : Candidate) : Option Candidate :=
  if Rescaled sane scale ctx c then some (scaledAnswer c scale) else if Sane c ctx then some c else none

/-- `_on_file_clock`: one type's sane candidates, online times read on the file's own clock. -/
def onFileClock (ofType : List Candidate) (ctx : DecisionContext) : List Candidate :=
  let sane := saneOf ofType ctx
  match onlineTimeScale ctx.frameRate with
  | none => sane
  | some scale => ofType.filterMap (fileReading sane scale ctx)

/-- A candidate's length in the file. -/
def lengthMs (c : Candidate) (durationMs : ℤ) : ℤ := resolveEndMs c durationMs - c.startMs

/-- `on_another_clock`: an intro or recap that is season audio's on another release's clock. -/
def onAnotherClock (sane audio : List Candidate) (durationMs : ℤ) (c : Candidate) : Bool :=
  if !c.type.isStartSegment || !timedOnAnyRelease c then false
  else if confirmedBy c sane durationMs then false
  else audio.any fun a =>
    otherReleaseMinLengthMs ≤ min (lengthMs c durationMs) (lengthMs a durationMs) &&
      |lengthMs c durationMs - lengthMs a durationMs| ≤ introEndToleranceMs &&
      otherReleaseMinShiftMs < |c.startMs - a.startMs|

/-- `_without_another_releases_intro` (rule 14). -/
def withoutAnotherReleasesIntro (sane : List Candidate) (ctx : DecisionContext) : List Candidate :=
  let audio := sane.filter fun c => c.source = .seasonAudio
  if audio = [] then sane else sane.filter fun c => !onAnotherClock sane audio ctx.durationMs c

/-- A candidate's times fall outside the file. -/
def outsideFile (c : Candidate) (durationMs : ℤ) : Bool :=
  0 < durationMs ∧ (durationMs ≤ c.startMs ∨ ∃ e ∈ c.endMs, durationMs + endAllowanceMs c < e)

/-- `file_clock_may_matter`: whether the file's frame rate is worth reading for its decision. -/
def fileClockMayMatter (candidates : List Candidate) (durationMs : ℤ) : Bool :=
  candidates.any fun c =>
    timedOnAnyRelease c &&
      let others := candidates.filter fun o => o.type = c.type && group o ≠ group c
      others ≠ [] && (outsideFile c durationMs || !others.any fun o => agree c o durationMs)

/-! ### What is read -/

theorem mem_saneOf {ofType : List Candidate} {ctx : DecisionContext} {c : Candidate} :
    c ∈ saneOf ofType ctx ↔ c ∈ ofType ∧ Sane c ctx := by simp [saneOf]

/-- What a candidate may be read as: itself, or itself scaled. -/
theorem fileReading_eq_some {sane : List Candidate} {scale : ℚ} {ctx : DecisionContext} {c r : Candidate}
    (h : fileReading sane scale ctx c = some r) : Sane r ctx ∧ (r = c ∨ r = scaledAnswer c scale) := by
  unfold fileReading at h
  split_ifs at h with hscaled hraw
  · obtain rfl := Option.some.inj h
    exact ⟨hscaled.2.2.1, .inr rfl⟩
  · obtain rfl := Option.some.inj h
    exact ⟨hraw, .inl rfl⟩

/-- A reading of a candidate on the file's clock: only its times differ. -/
structure Reading (c r : Candidate) : Prop where
  /-- Of one type. -/
  type_eq : r.type = c.type
  /-- From one source. -/
  source_eq : r.source = c.source
  /-- With one label. -/
  origin_eq : r.origin = c.origin
  /-- Of one object. -/
  obj_eq : r.obj = c.obj

/-- **What is read on the file's clock is sane**, and is a reading of one of the candidates. -/
theorem mem_onFileClock {ofType : List Candidate} {ctx : DecisionContext} {r : Candidate}
    (h : r ∈ onFileClock ofType ctx) : Sane r ctx ∧ ∃ c ∈ ofType, Reading c r := by
  unfold onFileClock at h
  dsimp only at h
  split at h
  · rw [mem_saneOf] at h
    exact ⟨h.2, r, h.1, rfl, rfl, rfl, rfl⟩
  · obtain ⟨c, hc, hr⟩ := List.mem_filterMap.mp h
    obtain ⟨hs, rfl | rfl⟩ := fileReading_eq_some hr
    · exact ⟨hs, r, hc, rfl, rfl, rfl, rfl⟩
    · exact ⟨hs, c, hc, rfl, rfl, rfl, rfl⟩

/-- Readings tell objects apart as the candidates do. -/
theorem obj_inj_onFileClock {ofType : List Candidate} {ctx : DecisionContext}
    (h : ∀ a ∈ ofType, ∀ b ∈ ofType, a.obj = b.obj → a = b) :
    ∀ a ∈ onFileClock ofType ctx, ∀ b ∈ onFileClock ofType ctx, a.obj = b.obj → a = b := by
  unfold onFileClock
  dsimp only
  split
  · exact fun a ha b hb => h a (mem_saneOf.mp ha).1 b (mem_saneOf.mp hb).1
  · intro a ha b hb hobj
    obtain ⟨c, hc, hca⟩ := List.mem_filterMap.mp ha
    obtain ⟨c', hc', hcb⟩ := List.mem_filterMap.mp hb
    have hcobj : a.obj = c.obj := by rcases (fileReading_eq_some hca).2 with rfl | rfl <;> rfl
    have hcobj' : b.obj = c'.obj := by rcases (fileReading_eq_some hcb).2 with rfl | rfl <;> rfl
    obtain rfl := h c hc c' hc' (hcobj ▸ hcobj' ▸ hobj)
    rw [hca] at hcb
    exact Option.some.inj hcb

theorem mem_of_mem_withoutAnotherReleasesIntro {sane : List Candidate} {ctx : DecisionContext} {c : Candidate}
    (h : c ∈ withoutAnotherReleasesIntro sane ctx) : c ∈ sane := by
  unfold withoutAnotherReleasesIntro at h
  dsimp only at h
  split_ifs at h
  · exact h
  · exact (List.mem_filter.mp h).1

end MediaPreview.Markers
