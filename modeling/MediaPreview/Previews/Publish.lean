import MediaPreview.Lib.Runs
import MediaPreview.Previews.Journal

/-!
# Publishing previews

One video's output of one Emby or Jellyfin server: the publish, the source check after it and the note
(`_publish_one` of `processing/multi_server.py`, `publish` of `output/emby_sidecar.py` and
`output/jellyfin_trickplay.py`), each a step of its own. A dispatch that holds the file's generation lock comes with the
fingerprint it took of the source and with frames made from a source; another may drop the note before it waits for
the lock (a regenerate), and the source may be replaced between any two steps.

Every preview judged fresh is of the source as it is (`fresh_current`) in a run in which the source stays while the
output has no note of its own source (`Steady`). It need not be in others: a Jellyfin publish whose source is replaced
before its note is written leaves an output without one, which counts as fresh for whatever the source is now
(`replaced_before_note`).
-/

namespace MediaPreview.Previews

/-- The adapters whose outputs carry a note. -/
inductive Adapter where
  /-- `EmbyBifAdapter`: one file, renamed over the old one. -/
  | embyBif
  /-- `JellyfinTrickplayAdapter`: a folder of sheets, swapped as a whole. -/
  | jellyfinTrickplay
  deriving DecidableEq, Repr

/-- An output: what source each of its files is made from, and the note beside the first. -/
structure Output where
  /-- The files. -/
  sheets : ℕ → Option Stamp
  /-- The note. -/
  note : Option Meta

namespace Output

/-- Nothing was written. -/
def empty : Output := ⟨fun _ => none, none⟩

/-- The file freshness is judged by. -/
def files (o : Output) : List OutputFile := [⟨(o.sheets 0).isSome, o.note⟩]

/-- The note records the source of every file. -/
def Recorded (o : Output) : Prop :=
  ∀ i stamp, o.sheets i = some stamp → ∃ f, o.note = some (Meta.ofSource f) ∧ f.stamp = stamp

/-- The note is of another source than this. -/
def NotedElse (o : Output) (stamp : Stamp) : Prop := ∃ f, o.note = some (Meta.ofSource f) ∧ f.stamp ≠ stamp

/-- Every file is made from a source of one stamp. -/
def AllOf (o : Output) (stamp : Stamp) : Prop := ∀ i st, o.sheets i = some st → st = stamp

end Output

/-- How a publish went. -/
inductive Outcome where
  /-- It failed before the output changed. -/
  | failed
  /-- The output was replaced, by so many files. -/
  | swapped (count : ℕ)
  /-- Jellyfin's sheets were written in place: whether the old ones were lost before, which of them could not be
  removed, and how many of the new ones were written. -/
  | inPlace (lost : Bool) (kept : ℕ → Bool) (written count : ℕ)

/-- The new files. -/
def newSheets (frames : Stamp) (count : ℕ) (i : ℕ) : Option Stamp := if i < count then some frames else none

/-- `publish`, and whether it returned. -/
def publish (adapter : Adapter) (frames : Stamp) (o : Output) : Outcome → Option (Output × Bool)
  | .failed => some (o, false)
  | .swapped count =>
    match adapter with
    | .embyBif => some (⟨newSheets frames 1, o.note⟩, true)
    | .jellyfinTrickplay => some (⟨newSheets frames count, none⟩, true)
  | .inPlace lost kept written count =>
    match adapter with
    | .embyBif => none
    | .jellyfinTrickplay =>
      let old := if lost then Output.empty else o
      some (⟨fun i => if i < written then some frames else if kept i then old.sheets i else none, old.note⟩,
        count ≤ written)

/-- The publish leaves the note it finds. -/
def keepsNote (adapter : Adapter) : Outcome → Bool
  | .failed => true
  | .swapped _ => adapter = .embyBif
  | .inPlace lost _ _ _ => !lost

/-- The publish returns, and a file it could not remove is left among its own. -/
def leaves (o : Output) : Outcome → ℕ → Option Stamp
  | .inPlace false kept written count, i =>
    if count ≤ written && written ≤ i && kept i then o.sheets i else none
  | _, _ => none

/-- How far a dispatch is. -/
inductive Phase where
  /-- It has its frames. -/
  | entered
  /-- Its source was the one it knows; the publish is next. -/
  | ready
  /-- The publish returned. -/
  | published
  /-- Its source still was the one it knows; the note is next. -/
  | checked
  deriving DecidableEq, Repr

/-- The dispatch that holds the lock. -/
structure Dispatch where
  /-- `source_fingerprint`. -/
  fingerprint : SourceFingerprint
  /-- The source its frames were made from. -/
  frames : Stamp
  /-- `regenerate`. -/
  regenerate : Bool
  /-- How far it is. -/
  phase : Phase

/-- A video, its output and the dispatch at work on it. -/
structure PreviewState where
  /-- The video. -/
  source : SourceFingerprint
  /-- The video can be read. -/
  readable : Bool
  /-- Its output. -/
  output : Output
  /-- The dispatch. -/
  current : Option Dispatch

/-- What happens. -/
inductive PreviewEvent where
  /-- The source is replaced. -/
  | replace (source : SourceFingerprint)
  /-- The source can be read again, or no more. -/
  | read (readable : Bool)
  /-- A regenerate drops the note. -/
  | clearMeta
  /-- A dispatch gets the lock and its frames. -/
  | enter (fingerprint : SourceFingerprint) (frames : Stamp) (regenerate : Bool)
  /-- The checks before the publish. -/
  | ready
  /-- The publish. -/
  | publish (outcome : Outcome)
  /-- The check after it. -/
  | check
  /-- `write_meta`, or its failure. -/
  | journal (ok : Bool)
  /-- The dispatch stops. -/
  | stop

namespace PreviewState

/-- A video nothing was published for. -/
def new (source : SourceFingerprint) : PreviewState := ⟨source, true, Output.empty, none⟩

/-- `get_source_fingerprint`; `none` where it raises. -/
def seen (s : PreviewState) : Option SourceFingerprint := if s.readable then some s.source else none

/-- `outputs_fresh_for_source`. -/
def fresh (s : PreviewState) : Bool := outputsFreshForSource s.output.files s.seen false

/-- The source is the one the dispatch knows. -/
def unchanged (s : PreviewState) (d : Dispatch) : Bool := s.seen.any fun f => sameSource f d.fingerprint

/-- The dispatch goes on, or ends. -/
def goOn (s : PreviewState) (d : Dispatch) (phase : Phase) (on : Bool) : PreviewState :=
  { s with current := if on then some { d with phase := phase } else none }

/-- One step. -/
def step (adapter : Adapter) (s : PreviewState) : PreviewEvent → Option PreviewState
  | .replace source => some { s with source := source }
  | .read readable => some { s with readable := readable }
  | .clearMeta => some { s with output := { s.output with note := none } }
  | .enter fingerprint frames regenerate =>
    match s.current with
    | none => some { s with current := some ⟨fingerprint, frames, regenerate, .entered⟩ }
    | some _ => none
  | .ready =>
    match s.current with
    | some d =>
      if d.phase = .entered then some (s.goOn d .ready (s.unchanged d && (d.regenerate || !s.fresh))) else none
    | none => none
  | .publish outcome =>
    match s.current with
    | some d =>
      if d.phase = .ready then
        (publish adapter d.frames s.output outcome).map fun r => { s with output := r.1 }.goOn d .published r.2
      else none
    | none => none
  | .check =>
    match s.current with
    | some d => if d.phase = .published then some (s.goOn d .checked (s.unchanged d)) else none
    | none => none
  | .journal ok =>
    match s.current with
    | some d =>
      if d.phase = .checked then
        some { s with
          output := if ok then { s.output with note := some (Meta.ofSource d.fingerprint) } else s.output
          current := none }
      else none
    | none => none
  | .stop => some { s with current := none }

/-- The source stays while it must. It is replaced only while the output has a note of its own source, or one of another
than the new; a regenerate drops a note only while the output is of the source as it is; a publish that writes has
frames of the source its dispatch took the fingerprint of; and it happens while the source is still that one, or leaves
a note of another, and leaves no file of another source behind. -/
def Steady (adapter : Adapter) (s : PreviewState) : PreviewEvent → Prop
  | .replace source => s.output.Recorded ∨ source.stamp = s.source.stamp ∨ s.output.NotedElse source.stamp
  | .clearMeta => s.output.AllOf s.source.stamp
  | .publish outcome => ∀ d, s.current = some d →
      (outcome = .failed ∨ d.frames = d.fingerprint.stamp) ∧
      (outcome = .failed ∨ s.source.stamp = d.frames ∨
        keepsNote adapter outcome = true ∧ s.output.NotedElse s.source.stamp) ∧
      ∀ i stamp, leaves s.output outcome i = some stamp → stamp = d.frames
  | _ => True

/-- What a steady run keeps. -/
structure Kept (s : PreviewState) : Prop where
  /-- The output has a note of its own source, or one of another than the source as it is, or is of the source. -/
  current : s.output.Recorded ∨ s.output.NotedElse s.source.stamp ∨ s.output.AllOf s.source.stamp
  /-- Every note was written by `write_meta`. -/
  written : ∀ data, s.output.note = some data → ∃ f, data = Meta.ofSource f
  /-- Once the dispatch published, the output is of the source it knows. -/
  published : ∀ d, s.current = some d → d.phase = .published ∨ d.phase = .checked → s.output.AllOf d.fingerprint.stamp

theorem kept_new (source : SourceFingerprint) : Kept (new source) where
  current := .inl fun i stamp h => by cases h
  written data h := by cases h
  published d h := by cases h

variable {adapter : Adapter} {s s' : PreviewState} {e : PreviewEvent} {d d' : Dispatch}

theorem of_goOn {phase : Phase} {on : Bool} (h : (s.goOn d phase on).current = some d') :
    on = true ∧ d' = { d with phase := phase } := by
  unfold goOn at h
  dsimp only at h
  split_ifs at h with hon
  exact ⟨hon, (Option.some.inj h).symm⟩

theorem newSheets_eq {frames st : Stamp} {count i : ℕ} (h : newSheets frames count i = some st) : st = frames := by
  unfold newSheets at h
  split_ifs at h
  exact (Option.some.inj h).symm

/-- **What a publish leaves**: its note is gone or, where it is kept, the one before; and each file is of its frames, or
one from before, which only a publish that fails or keeps the note leaves. -/
theorem publish_leaves {frames : Stamp} {o o' : Output} {outcome : Outcome} {ok : Bool}
    (h : publish adapter frames o outcome = some (o', ok)) :
    o'.note = (if keepsNote adapter outcome then o.note else none) ∧
      ∀ i st, o'.sheets i = some st → st = frames ∨
        o.sheets i = some st ∧ keepsNote adapter outcome = true ∧ (ok = true → leaves o outcome i = some st) := by
  cases outcome with
  | failed =>
    obtain ⟨rfl, rfl⟩ := Prod.mk.inj (Option.some.inj h)
    exact ⟨rfl, fun i st hst => .inr ⟨hst, rfl, nofun⟩⟩
  | swapped count =>
    cases adapter with
    | embyBif =>
      obtain ⟨rfl, -⟩ := Prod.mk.inj (Option.some.inj h)
      exact ⟨rfl, fun i st hst => .inl (newSheets_eq hst)⟩
    | jellyfinTrickplay =>
      obtain ⟨rfl, -⟩ := Prod.mk.inj (Option.some.inj h)
      exact ⟨rfl, fun i st hst => .inl (newSheets_eq hst)⟩
  | inPlace lost kept written count =>
    cases adapter with
    | embyBif => cases h
    | jellyfinTrickplay =>
      obtain ⟨rfl, rfl⟩ := Prod.mk.inj (Option.some.inj h)
      cases lost with
      | true =>
        refine ⟨rfl, fun i st hst => .inl ?_⟩
        change (if i < written then some frames else if kept i then none else none) = some st at hst
        split_ifs at hst
        exact (Option.some.inj hst).symm
      | false =>
        refine ⟨rfl, fun i st hst => ?_⟩
        change (if i < written then some frames else if kept i then o.sheets i else none) = some st at hst
        split_ifs at hst with hi hk
        · exact .inl (Option.some.inj hst).symm
        · refine .inr ⟨hst, rfl, fun hok => ?_⟩
          have hle : count ≤ written := of_decide_eq_true hok
          show (if _ then _ else _) = _
          rw [if_pos (by simp [hle, hk, Nat.not_lt.1 hi]), hst]

/-- A publish keeps the output noted or of the source. -/
theorem Kept.publish_current {o' : Output} {outcome : Outcome} {ok : Bool} (h : s.Kept) (hd : s.current = some d)
    (hc : s.Steady adapter (.publish outcome)) (hp : publish adapter d.frames s.output outcome = some (o', ok)) :
    o'.Recorded ∨ o'.NotedElse s.source.stamp ∨ o'.AllOf s.source.stamp := by
  obtain ⟨hnote, hsheets⟩ := publish_leaves hp
  obtain rfl | heq | ⟨hkeep, f, hf, hne⟩ := (hc d hd).2.1
  · obtain ⟨rfl, -⟩ := Prod.mk.inj (Option.some.inj hp)
    exact h.current
  · by_cases hall : o'.AllOf s.source.stamp
    · exact .inr (.inr hall)
    -- a file of another source is an old one, and the note that records its source, or another's, was kept
    · obtain ⟨i, st, hst, hne⟩ : ∃ i st, o'.sheets i = some st ∧ st ≠ s.source.stamp := by
        simpa only [Output.AllOf, not_forall, exists_prop] using hall
      obtain rfl | ⟨hold, hkeep, -⟩ := hsheets i st hst
      · exact absurd heq.symm hne
      rw [hkeep, if_pos rfl] at hnote
      obtain hr | ⟨f, hf, hfne⟩ | hall := h.current
      · obtain ⟨f, hf, rfl⟩ := hr i st hold
        exact .inr (.inl ⟨f, hnote.trans hf, hne⟩)
      · exact .inr (.inl ⟨f, hnote.trans hf, hfne⟩)
      · exact absurd (hall i st hold) hne
  · rw [hkeep, if_pos rfl] at hnote
    exact .inr (.inl ⟨f, hnote.trans hf, hne⟩)

/-- A dispatch that goes on without publishing. -/
theorem Kept.goOn (h : s.Kept) (hd : s.current = some d) {phase : Phase} {on : Bool}
    (hphase : phase = .published ∨ phase = .checked → d.phase = .published ∨ d.phase = .checked) :
    (s.goOn d phase on).Kept where
  current := h.current
  written := h.written
  published d' hd' hp := by
    obtain ⟨-, rfl⟩ := of_goOn hd'
    exact h.published d hd (hphase hp)

/-- **One step keeps it**, with the source steady. -/
theorem Kept.step (h : s.Kept) (hc : s.Steady adapter e) (hs : s.step adapter e = some s') : s'.Kept := by
  cases e with
  | replace source =>
    obtain rfl := Option.some.inj hs
    refine ⟨?_, h.written, h.published⟩
    obtain hr | heq | hne := hc
    · exact .inl hr
    · have := h.current
      rwa [← heq] at this
    · exact .inr (.inl hne)
  | read readable =>
    obtain rfl := Option.some.inj hs
    exact ⟨h.current, h.written, h.published⟩
  | clearMeta =>
    obtain rfl := Option.some.inj hs
    exact ⟨.inr (.inr hc), nofun, h.published⟩
  | enter fingerprint frames regenerate =>
    cases hcur : s.current with
    | some d => simp [PreviewState.step, hcur] at hs
    | none =>
      simp only [PreviewState.step, hcur, Option.some.injEq] at hs
      subst hs
      refine ⟨h.current, h.written, fun d hd hp => ?_⟩
      obtain rfl := Option.some.inj hd
      obtain hp | hp := hp <;> cases hp
  | ready =>
    cases hcur : s.current with
    | none => simp [PreviewState.step, hcur] at hs
    | some d =>
      simp only [PreviewState.step, hcur, Option.ite_none_right_eq_some, Option.some.injEq] at hs
      obtain ⟨-, rfl⟩ := hs
      exact h.goOn hcur (by rintro (hp | hp) <;> cases hp)
  | publish outcome =>
    cases hcur : s.current with
    | none => simp [PreviewState.step, hcur] at hs
    | some d =>
      simp only [PreviewState.step, hcur, Option.ite_none_right_eq_some, Option.map_eq_some_iff] at hs
      obtain ⟨-, ⟨o', ok⟩, hp, rfl⟩ := hs
      obtain ⟨hnote, hsheets⟩ := publish_leaves hp
      refine ⟨h.publish_current hcur hc hp, fun data hdata => ?_, fun d' hd' _ => ?_⟩
      · refine h.written data ?_
        replace hdata : o'.note = some data := hdata
        rw [hnote] at hdata
        split_ifs at hdata
        exact hdata
      · obtain ⟨rfl, rfl⟩ := of_goOn hd'
        obtain ⟨hfailed | hframes, -, hleaves⟩ := hc d hcur
        · -- a publish that failed does not go on
          rw [hfailed] at hp
          cases hp
        · intro i st hst
          show st = d.fingerprint.stamp
          rw [← hframes]
          obtain rfl | ⟨-, -, hleft⟩ := hsheets i st hst
          · rfl
          · exact hleaves i st (hleft rfl)
  | check =>
    cases hcur : s.current with
    | none => simp [PreviewState.step, hcur] at hs
    | some d =>
      simp only [PreviewState.step, hcur, Option.ite_none_right_eq_some, Option.some.injEq] at hs
      obtain ⟨hp, rfl⟩ := hs
      exact h.goOn hcur fun _ => .inl hp
  | journal ok =>
    cases hcur : s.current with
    | none => simp [PreviewState.step, hcur] at hs
    | some d =>
      simp only [PreviewState.step, hcur, Option.ite_none_right_eq_some, Option.some.injEq] at hs
      obtain ⟨hp, rfl⟩ := hs
      cases ok with
      | false => exact ⟨h.current, h.written, fun _ hd => (by cases hd)⟩
      | true =>
        refine ⟨.inl fun i st hst => ⟨d.fingerprint, rfl, ?_⟩, fun data hdata => ?_,
          fun _ hd => (by cases hd)⟩
        · exact (h.published d hcur (.inr hp) i st hst).symm
        · exact ⟨d.fingerprint, (Option.some.inj hdata).symm⟩
  | stop =>
    obtain rfl := Option.some.inj hs
    exact ⟨h.current, h.written, fun _ hd => (by cases hd)⟩

/-- What is kept makes a fresh output one of the source as it is. -/
theorem Kept.of_fresh (h : s.Kept) (hfresh : s.fresh = true) : s.output.AllOf s.source.stamp := by
  obtain ⟨-, f, hf, hnotes⟩ := fresh_singleton_iff.1 hfresh
  have hsource : f = s.source := by
    unfold seen at hf
    split_ifs at hf
    exact (Option.some.inj hf).symm
  subst hsource
  have hrec : ∀ {g}, s.output.note = some (Meta.ofSource g) → g.stamp = s.source.stamp := fun hg =>
    records_ofSource.1 (hnotes _ hg)
  obtain hr | ⟨g, hg, hne⟩ | hall := h.current
  · intro i st hst
    obtain ⟨g, hg, rfl⟩ := hr i st hst
    exact hrec hg
  · exact absurd (hrec hg) hne
  · exact hall

/-- **A preview judged fresh was made from the file as it is**, in every run in which the source stays while the output
has no note of its own source. -/
theorem fresh_current (adapter : Adapter) (source : SourceFingerprint) (es : List PreviewEvent) (s : PreviewState)
    (hrun : Runs (step adapter) (Steady adapter) (new source) es s) (hfresh : s.fresh = true) (i : ℕ) (stamp : Stamp)
    (hi : s.output.sheets i = some stamp) : stamp = s.source.stamp :=
  (hrun.keeps (kept_new source) fun _ _ _ hc hs hk => hk.step hc hs).of_fresh hfresh i stamp hi

/-- A video, and the one that replaces it. -/
def firstSource : SourceFingerprint := ⟨1, 10, 4000, 1700000000000000000, 1700000000000000000⟩

@[inherit_doc firstSource]
def betterSource : SourceFingerprint := ⟨1, 11, 9000, 1700000900000000000, 1700000900000000000⟩

/-- A first publish, up to it. -/
def upToPublish : List PreviewEvent := [.enter firstSource firstSource.stamp false, .ready]

/-- After it, with the source as it was. -/
def afterPublish : List PreviewEvent := [.check, .journal true]

theorem upToPublish_isSome : (exec (step .jellyfinTrickplay) (new firstSource) upToPublish).isSome = true := by
  decide +kernel

/-- The publish is next. -/
def aboutToPublish : PreviewState :=
  (exec (step .jellyfinTrickplay) (new firstSource) upToPublish).get upToPublish_isSome

theorem publish_isSome : (step .jellyfinTrickplay aboutToPublish (.publish (.swapped 1))).isSome = true := by
  decide +kernel

/-- The sheets are there. -/
def sheetsPublished : PreviewState :=
  (step .jellyfinTrickplay aboutToPublish (.publish (.swapped 1))).get publish_isSome

theorem afterPublish_isSome : (exec (step .jellyfinTrickplay) sheetsPublished afterPublish).isSome = true := by
  decide +kernel

/-- And their note. -/
def noteWritten : PreviewState := (exec (step .jellyfinTrickplay) sheetsPublished afterPublish).get afterPublish_isSome

theorem runs_noteWritten : Runs (step .jellyfinTrickplay) (Steady .jellyfinTrickplay) (new firstSource)
    (upToPublish ++ .publish (.swapped 1) :: afterPublish) noteWritten := by
  have hup : ∀ e ∈ upToPublish, ∀ s : PreviewState, s.Steady .jellyfinTrickplay e := by
    intro e he s
    simp only [upToPublish, List.mem_cons, List.not_mem_nil, or_false] at he
    obtain rfl | rfl := he <;> trivial
  have hafter : ∀ e ∈ afterPublish, ∀ s : PreviewState, s.Steady .jellyfinTrickplay e := by
    intro e he s
    simp only [afterPublish, List.mem_cons, List.not_mem_nil, or_false] at he
    obtain rfl | rfl := he <;> trivial
  have hframes : ∀ d, aboutToPublish.current = some d →
      d.frames = d.fingerprint.stamp ∧ aboutToPublish.source.stamp = d.frames := by
    have h : aboutToPublish.current.all
        (fun d => d.frames = d.fingerprint.stamp ∧ aboutToPublish.source.stamp = d.frames) = true := by decide +kernel
    intro d hd
    rw [hd] at h
    exact of_decide_eq_true h
  refine (Runs.of_exec hup (Option.some_get _).symm).append
    (.cons (fun d hd => ⟨.inr (hframes d hd).1, .inr (.inl (hframes d hd).2), ?_⟩) (Option.some_get _).symm
      (.of_exec hafter (Option.some_get _).symm))
  exact fun i stamp h => nomatch h

/-- The first publish, judged fresh. -/
theorem fresh_current_noteWritten : noteWritten.fresh = true ∧ firstSource.stamp = noteWritten.source.stamp := by
  have hfresh : noteWritten.fresh = true := by decide +kernel
  have h0 : noteWritten.output.sheets 0 = some firstSource.stamp := by decide +kernel
  exact ⟨hfresh, fresh_current .jellyfinTrickplay firstSource _ noteWritten runs_noteWritten hfresh 0 _ h0⟩

/-- The first publish of a video that is replaced before the check after it: the check fails and writes no note. -/
def replacedPublish : List PreviewEvent := upToPublish ++ [.publish (.swapped 1), .replace betterSource, .check]

theorem replacedPublish_isSome : (exec (step .jellyfinTrickplay) (new firstSource) replacedPublish).isSome = true := by
  decide +kernel

/-- **A stale preview judged fresh**: it has no note, and its frames are of the video that was replaced. -/
theorem replaced_before_note : ∃ s, Runs (step .jellyfinTrickplay) Any (new firstSource) replacedPublish s ∧
    s.current.isNone = true ∧ s.fresh = true ∧ s.output.sheets 0 = some firstSource.stamp ∧
      firstSource.stamp ≠ s.source.stamp :=
  ⟨(exec (step .jellyfinTrickplay) (new firstSource) replacedPublish).get replacedPublish_isSome,
    .of_exec (fun _ _ _ => trivial) (Option.some_get _).symm, by decide +kernel⟩

end PreviewState

end MediaPreview.Previews
