import MediaPreview.Previews.SlotLocks
import Mathlib.Data.List.Range

/-!
# What a dispatch publishes from the frame cache

A dispatch that finds the source unchanged and publishes from its slot reads the frames of one run that returned, all of
them: of an extraction from the source it took its fingerprint of, with its own settings, or of one BIF of another
publisher (`publishes_one_run`), whatever other dispatches, of its path or of another with the same key, do meanwhile,
wherever they stop and whatever is swept or trimmed. A path's source is to change for good: a file that was replaced does not come back (`Settles`). Until the
dispatch releases its lock nothing but its own steps changes its slot (`slot_kept`).

The invariant (`Sound`, beside `Locked`) ties together what a run in a slot has written and what an entry says of its
slot when no dispatch is at work in it.
-/

namespace MediaPreview.Frames

open Previews (SourceFingerprint sameSource)

variable {κ π σ : Type*}

/-- A file that was replaced does not come back. -/
def Settles (source : ℕ → π → Option SourceFingerprint) : Prop :=
  ∀ path fingerprint t₁ t₂ t₃, t₁ ≤ t₂ → t₂ ≤ t₃ → source t₁ path = some fingerprint →
    unchanged (source t₃ path) fingerprint = true → unchanged (source t₂ path) fingerprint = true

/-- Frames `0, 1, …` of one run. -/
def OfRun (run : ℕ) (frames : List (Frame σ)) : Prop :=
  frames.map (fun f => (f.run, f.index)) = (List.range frames.length).map (run, ·)

/-- What a run has written: of an extraction, each frame with the dispatch's settings of the source at some time since
the dispatch began. -/
structure Written (source : ℕ → π → Option SourceFingerprint) (now began : ℕ) (path : π) (extractionKey : σ) (run : ℕ)
    (reuse : Bool) (frames : List (Frame σ)) : Prop where
  /-- They are of the run. -/
  ofRun : OfRun run frames
  /-- An extraction's. -/
  extracted : reuse = false → ∀ f ∈ frames,
    ∃ t, began ≤ t ∧ t ≤ now ∧ f.origin = .extracted (source t path) extractionKey
  /-- A BIF's. -/
  unpacked : reuse = true → ∀ f ∈ frames, f.origin = .unpacked

/-- All frames of a run that returned: extracted from one source with the same settings, or unpacked from one BIF. -/
structure Whole (completed : List (ℕ × ℕ)) (frames : List (Frame σ)) (fingerprint : SourceFingerprint)
    (extractionKey : σ) : Prop where
  /-- They are those of a run that returned. -/
  ofRun : ∃ run, (run, frames.length) ∈ completed ∧ OfRun run frames
  /-- They are made of the source with the settings, or come from the BIF. -/
  made : (∀ f ∈ frames, ∃ source, f.origin = .extracted source extractionKey ∧ unchanged source fingerprint = true) ∨
    ∀ f ∈ frames, f.origin = .unpacked

theorem Whole.mono {completed completed' : List (ℕ × ℕ)} {frames : List (Frame σ)} {fingerprint : SourceFingerprint}
    {extractionKey : σ} (h : Whole completed frames fingerprint extractionKey) (hsub : completed ⊆ completed') :
    Whole completed' frames fingerprint extractionKey := by
  obtain ⟨run, hrun, hof⟩ := h.ofRun
  exact ⟨⟨run, hsub hrun, hof⟩, h.made⟩

section Written

variable {source : ℕ → π → Option SourceFingerprint} {now now' began run : ℕ} {path : π} {extractionKey : σ}
  {reuse : Bool} {frames : List (Frame σ)}

theorem Written.mono (h : Written source now began path extractionKey run reuse frames) (hnow : now ≤ now') :
    Written source now' began path extractionKey run reuse frames := by
  refine ⟨h.ofRun, fun hreuse f hf => ?_, h.unpacked⟩
  obtain ⟨t, hbegan, ht, hmade⟩ := h.extracted hreuse f hf
  exact ⟨t, hbegan, Nat.le_trans ht hnow, hmade⟩

theorem written_nil : Written source now began path extractionKey run reuse [] :=
  ⟨rfl, fun _ _ hf => absurd hf List.not_mem_nil, fun _ _ hf => absurd hf List.not_mem_nil⟩

/-- One frame more. -/
theorem Written.write (h : Written source now began path extractionKey run reuse frames) (hbegan : began ≤ now) :
    Written source now began path extractionKey run reuse (frames ++
      [⟨run, frames.length, if reuse then .unpacked else .extracted (source now path) extractionKey⟩]) := by
  refine ⟨?_, fun hreuse f hf => ?_, fun hreuse f hf => ?_⟩
  · rw [OfRun, List.map_append, h.ofRun, List.length_append, List.length_singleton, List.range_succ, List.map_append]
    rfl
  · rcases List.mem_append.mp hf with hf | hf
    · exact h.extracted hreuse f hf
    · obtain rfl := List.mem_singleton.mp hf
      exact ⟨now, hbegan, Nat.le_refl _, if_neg (hreuse ▸ Bool.false_ne_true)⟩
  · rcases List.mem_append.mp hf with hf | hf
    · exact h.unpacked hreuse f hf
    · obtain rfl := List.mem_singleton.mp hf
      exact if_pos hreuse

/-- A run that returned before the source was found unchanged. -/
theorem Written.whole {fingerprint : SourceFingerprint} {completed : List (ℕ × ℕ)}
    (h : Written source now began path extractionKey run reuse frames) (hsettles : Settles source)
    (hbegan : source began path = some fingerprint) (hnow : unchanged (source now path) fingerprint = true)
    (hrun : (run, frames.length) ∈ completed) : Whole completed frames fingerprint extractionKey := by
  refine ⟨⟨run, hrun, h.ofRun⟩, ?_⟩
  cases hreuse : reuse with
  | true => exact .inr (h.unpacked hreuse)
  | false =>
    refine .inl fun f hf => ?_
    obtain ⟨t, hle, hle', hmade⟩ := h.extracted hreuse f hf
    exact ⟨_, hmade, hsettles _ _ _ _ _ hle hle' hbegan hnow⟩

end Written

namespace FrameCache

variable (key : π → κ) (source : ℕ → π → Option SourceFingerprint)

/-- What an entry says of its slot. -/
def Describes (s : FrameCache κ π σ) (k : κ) (entry : CacheEntry σ) : Prop :=
  ∃ slot, s.slots k = some slot ∧ slot.frames.length = entry.frameCount ∧
    Whole s.completed slot.frames entry.sourceFingerprint entry.extractionKey

/-- What a dispatch has in its slot. -/
def PhaseSound (s : FrameCache κ π σ) (D : Dispatch π σ) : Phase → Prop
  | .working run reuse => ∃ slot, s.slots (key D.path) = some slot ∧
      Written source s.now D.began D.path D.extractionKey run reuse slot.frames
  | .made run reuse count => ∃ slot, s.slots (key D.path) = some slot ∧
      Written source s.now D.began D.path D.extractionKey run reuse slot.frames ∧ slot.frames.length = count ∧
      (run, count) ∈ s.completed
  | .publishing count => ∃ slot, s.slots (key D.path) = some slot ∧ slot.frames.length = count ∧
      ∃ t fingerprint, D.began ≤ t ∧ t ≤ s.now ∧ unchanged (source t D.path) fingerprint = true ∧
        Whole s.completed slot.frames fingerprint D.extractionKey
  | .waiting | .locked | .missed | .trying _ | .leaving => True

/-- A dispatch under way. -/
structure DispatchSound (s : FrameCache κ π σ) (D : Dispatch π σ) : Prop where
  /-- It began. -/
  began : D.began ≤ s.now
  /-- Its fingerprint is of the source it began with. -/
  fingerprint : source D.began D.path = some D.fingerprint
  /-- Its slot is as far as it is. -/
  phase : PhaseSound key source s D D.phase

/-- A dispatch is at work in the slot of a key. -/
def AtWork (s : FrameCache κ π σ) (k : κ) : Prop :=
  ∃ d D, s.dispatches d = some D ∧ key D.path = k ∧ D.phase.slotEmptied = true

/-- **The cache, its slots and its locks fit together.** -/
structure Sound (s : FrameCache κ π σ) : Prop where
  /-- The dispatches are as far as their slots are. -/
  dispatches : ∀ d D, s.dispatches d = some D → DispatchSound key source s D
  /-- An entry describes its slot, unless a dispatch is at work in it. -/
  entries : ∀ k entry, (k, entry) ∈ s.entries → AtWork key s k ∨ Describes s k entry

variable {key source} {s s' : FrameCache κ π σ} {d : ℕ} {D D' : Dispatch π σ}

theorem sound_fresh (ttl maxEntries maxDiskBytes : ℕ) (slots : κ → Option (Slot σ)) :
    Sound key source (fresh ttl maxEntries maxDiskBytes slots : FrameCache κ π σ) :=
  ⟨fun _ _ h => absurd h (Option.some_ne_none _).symm, fun _ _ h => absurd h List.not_mem_nil⟩

/-- An entry stays true of a slot that stays. -/
theorem Describes.mono {k : κ} {entry : CacheEntry σ} (h : Describes s k entry) (hslot : s'.slots k = s.slots k)
    (hcompleted : s.completed ⊆ s'.completed) : Describes s' k entry := by
  obtain ⟨slot, hs, hcount, hwhole⟩ := h
  exact ⟨slot, hslot.trans hs, hcount, hwhole.mono hcompleted⟩

/-- A dispatch that did nothing is as far as it was, if its slot stayed. -/
theorem PhaseSound.mono (h : PhaseSound key source s D D.phase) (hnow : s.now ≤ s'.now)
    (hslot : s'.slots (key D.path) = s.slots (key D.path)) (hcompleted : s.completed ⊆ s'.completed) :
    PhaseSound key source s' D D.phase := by
  revert h
  cases D.phase with
  | waiting | locked | missed | trying _ | leaving => exact fun _ => trivial
  | working run reuse =>
    rintro ⟨slot, hs, hwritten⟩
    exact ⟨slot, hslot.trans hs, hwritten.mono hnow⟩
  | made run reuse count =>
    rintro ⟨slot, hs, hwritten, hcount, hrun⟩
    exact ⟨slot, hslot.trans hs, hwritten.mono hnow, hcount, hcompleted hrun⟩
  | publishing count =>
    rintro ⟨slot, hs, hcount, t, fingerprint, hbegan, ht, hsource, hwhole⟩
    exact ⟨slot, hslot.trans hs, hcount, t, fingerprint, hbegan, Nat.le_trans ht hnow, hsource, hwhole.mono hcompleted⟩

/-- Who is at work in a slot holds its lock. -/
theorem Locked.atWork_iff (h : Locked key s) {k : κ} (hk : s.locks k = some d) (hd : s.dispatches d = some D) :
    AtWork key s k ↔ D.phase.slotEmptied = true := by
  constructor
  · rintro ⟨d', D', hd', rfl, hwork⟩
    obtain rfl := Option.some.inj ((h.lock hd' (Phase.ne_waiting_of_slotEmptied hwork)).symm.trans hk)
    obtain rfl := Option.some.inj (hd'.symm.trans hd)
    exact hwork
  · exact fun hwork => ⟨d, D, hd, (h.held hk hd).2, hwork⟩

/-- What the entries of a dispatch's key say while it is not at work. -/
theorem Sound.describes (h : Sound key source s) (hl : Locked key s) (hd : s.dispatches d = some D)
    (hwaits : D.phase ≠ .waiting) (hwork : D.phase.slotEmptied = false) {entry : CacheEntry σ}
    (hentry : (key D.path, entry) ∈ s.entries) : Describes s (key D.path) entry := by
  refine (h.entries _ entry hentry).resolve_left fun hat => ?_
  rw [hl.atWork_iff (hl.lock hd hwaits) hd, hwork] at hat
  cases hat

variable [DecidableEq κ]

/-- **A step of one dispatch**, or of none: what is left to show is how far the dispatch is itself, and what the entries
of its own key say. -/
theorem Sound.of_touches (h : Sound key source s) (hl : Locked key s) {d : Option ℕ} (ht : Touches d s s')
    (hown : ∀ d', d = some d' → ∀ D', s'.dispatches d' = some D' → DispatchSound key source s' D')
    (hentries : ∀ d', d = some d' → ∀ k, s.locks k = some d' → ∀ entry, (k, entry) ∈ s'.entries →
      AtWork key s' k ∨ Describes s' k entry) : Sound key source s' := by
  constructor
  · intro d' D' hd'
    by_cases heq : d = some d'
    · exact hown d' heq D' hd'
    · rw [ht.dispatches d' (Ne.symm heq)] at hd'
      have hs := h.dispatches d' D' hd'
      refine ⟨Nat.le_trans hs.began ht.now, hs.fingerprint, ?_⟩
      by_cases hwaits : D'.phase = .waiting
      · rw [hwaits]
        trivial
      · exact hs.phase.mono ht.now (ht.slots _ d' (hl.lock hd' hwaits) (Ne.symm heq)) ht.completed
  · intro k entry hentry
    by_cases hmine : ∃ d', d = some d' ∧ s.locks k = some d'
    · obtain ⟨d', heq, hk⟩ := hmine
      exact hentries d' heq k hk entry hentry
    · obtain ⟨hthere, hslot⟩ := (ht.entries k entry hentry).resolve_right hmine
      rcases h.entries k entry hthere with ⟨d', D', hd', rfl, hwork⟩ | hdescribes
      · refine .inl ⟨d', D', ?_, rfl, hwork⟩
        have hk := hl.lock hd' (Phase.ne_waiting_of_slotEmptied hwork)
        rw [ht.dispatches d' fun heq => hmine ⟨d', heq.symm, hk⟩]
        exact hd'
      · exact .inr (hdescribes.mono hslot ht.completed)

/-- A dispatch that has its lock goes on. -/
theorem Sound.goesOn (h : Sound key source s) (hl : Locked key s) (hd : s.dispatches d = some D) {p : Phase}
    (ht : Touches (some d) s s') (hphase : PhaseSound key source s' D p)
    (hentries : p.slotEmptied = true ∨
      ∀ entry, (key D.path, entry) ∈ s'.entries → Describes s' (key D.path) entry) :
    Sound key source (s'.goOn d D p) := by
  have hs := h.dispatches d D hd
  have hself : (s'.goOn d D p).dispatches d = some { D with phase := p } := if_pos rfl
  refine h.of_touches hl (ht.trans (touches_withDispatch s' d _)) ?_ ?_
  · rintro d' heq D' hd'
    obtain rfl := Option.some.inj heq
    obtain rfl := Option.some.inj (hself.symm.trans hd')
    refine ⟨Nat.le_trans hs.began ht.now, hs.fingerprint, ?_⟩
    cases p <;> exact hphase
  · rintro d' heq k hk entry hentry
    obtain rfl := Option.some.inj heq
    obtain ⟨-, rfl⟩ := hl.held hk hd
    rcases hentries with hwork | hdescribes
    · exact .inl ⟨d, _, hself, rfl, hwork⟩
    · exact .inr (hdescribes entry hentry)

/-- No entry of a key that was evicted is left. -/
theorem not_mem_evict (s : FrameCache κ π σ) (k : κ) (disk : Disk κ σ) (entry : CacheEntry σ) :
    (k, entry) ∉ (s.evict k disk).entries := fun hmem => by
  have hkept : (!decide (k = k)) = true := (List.mem_filter.mp hmem).2
  rw [decide_eq_true rfl] at hkept
  cases hkept

/-! ### The steps of a dispatch -/

variable {disk : Disk κ σ}

theorem Sound.lookup [DecidableEq σ] (h : Sound key source s) (hl : Locked key s) (hd : s.dispatches d = some D)
    (hstep : s.lookup key source d D disk = some s') : Sound key source s' := by
  obtain ⟨⟨hphase, -⟩, hstep⟩ := Option.ite_none_right_eq_some.mp hstep
  obtain rfl := Option.some.inj hstep
  have hwaits : D.phase ≠ .waiting := by
    rw [hphase]
    exact fun hc => by cases hc
  have hidle : D.phase.slotEmptied = false := by
    rw [hphase]
    rfl
  have hk := hl.lock hd hwaits
  unfold FrameCache.get
  cases hget : Dict.get? s.entries (key D.path) with
  | none => exact h.goesOn hl hd (.refl s) trivial (.inr fun entry => h.describes hl hd hwaits hidle)
  | some entry =>
    dsimp only
    split_ifs with hvalid
    · obtain ⟨slot, hslot, hcount, hwhole⟩ := h.describes hl hd hwaits hidle (Dict.mem_of_get? hget)
      simp only [valid, Bool.and_eq_true, decide_eq_true_eq] at hvalid
      obtain ⟨⟨⟨hkey, -⟩, -⟩, hsource⟩ := hvalid
      refine h.goesOn hl hd (touches_store hk entry) ?_ (.inr fun entry' hentry' => ?_)
      · exact ⟨slot, hslot, hcount, s.now, _, (h.dispatches d D hd).began, Nat.le_refl _, hsource, hkey ▸ hwhole⟩
      · obtain rfl := (mem_store s (key D.path) entry entry').mp hentry'
        exact ⟨slot, hslot, hcount, hwhole⟩
    · exact h.goesOn hl hd (touches_evict hk disk) trivial
        (.inr fun entry' hentry' => absurd hentry' (not_mem_evict s _ disk entry'))

theorem Sound.tryRun (h : Sound key source s) (hl : Locked key s) (hd : s.dispatches d = some D) {reuse : Bool}
    (hstep : s.tryRun d D reuse = some s') : Sound key source s' := by
  obtain ⟨-, hstep⟩ := Option.ite_none_right_eq_some.mp hstep
  obtain rfl := Option.some.inj hstep
  exact h.goesOn hl hd (.refl s) trivial (.inl rfl)

/-- A run begins in an empty slot. -/
theorem Sound.empty (h : Sound key source s) (hl : Locked key s) (hd : s.dispatches d = some D)
    (hstep : s.empty key d D [] = some s') : Sound key source s' := by
  obtain ⟨reuse, htried, rfl⟩ := Option.map_eq_some_iff.mp hstep
  have hwaits := Phase.ne_waiting_of_tried htried
  refine h.goesOn hl hd ((touches_withSlot (hl.lock hd hwaits) []).trans (touches_nextRun _)) ?_ (.inl rfl)
  exact ⟨⟨[], s.now⟩, if_pos rfl, written_nil⟩

theorem Sound.write (h : Sound key source s) (hl : Locked key s) (hd : s.dispatches d = some D)
    (hstep : s.write key source D = some s') : Sound key source s' := by
  obtain ⟨run, hrun, hstep⟩ := Option.bind_eq_some_iff.mp hstep
  obtain ⟨slot, hslot, rfl⟩ := Option.map_eq_some_iff.mp hstep
  have hp := Phase.eq_of_run hrun
  have hwaits := Phase.ne_waiting_of_run hrun
  have hs := h.dispatches d D hd
  have hphase := hs.phase
  rw [hp] at hphase
  obtain ⟨slot', hslot', hwritten⟩ := hphase
  obtain rfl := Option.some.inj (hslot.symm.trans hslot')
  generalize hframes : slot.frames ++ [_] = frames
  have hsound : Sound key source ((s.withSlot (key D.path) frames).goOn d D D.phase) := by
    refine h.goesOn hl hd (touches_withSlot (hl.lock hd hwaits) frames) ?_ (.inl ?_)
    · rw [hp, ← hframes]
      exact ⟨_, if_pos rfl, hwritten.write hs.began⟩
    · rw [hp]
      rfl
  have hsame : (s.withSlot (key D.path) frames).goOn d D D.phase = s.withSlot (key D.path) frames :=
    withDispatch_self hd
  rwa [hsame] at hsound

theorem Sound.finish (h : Sound key source s) (hl : Locked key s) (hd : s.dispatches d = some D)
    (hstep : s.finish key d D = some s') : Sound key source s' := by
  obtain ⟨run, hrun, hstep⟩ := Option.bind_eq_some_iff.mp hstep
  obtain ⟨slot, hslot, hstep⟩ := Option.bind_eq_some_iff.mp hstep
  obtain ⟨-, hstep⟩ := Option.ite_none_left_eq_some.mp hstep
  obtain rfl := Option.some.inj hstep
  have hphase := (h.dispatches d D hd).phase
  rw [Phase.eq_of_run hrun] at hphase
  obtain ⟨slot', hslot', hwritten⟩ := hphase
  obtain rfl := Option.some.inj (hslot.symm.trans hslot')
  refine h.goesOn hl hd (touches_complete s run.1 slot.frames.length) ?_ (.inl rfl)
  exact ⟨slot, hslot, hwritten, rfl, .head _⟩

theorem Sound.storeFrames (h : Sound key source s) (hl : Locked key s) (hsettles : Settles source)
    (hd : s.dispatches d = some D) {sizeBytes : ℕ} (hstep : s.storeFrames key source d D sizeBytes disk = some s') :
    Sound key source s' := by
  have hs := h.dispatches d D hd
  have hphase := hs.phase
  obtain ⟨count, hmade, hstep⟩ := Option.bind_eq_some_iff.mp hstep
  obtain ⟨hsource, hstep⟩ := Option.ite_none_right_eq_some.mp hstep
  obtain rfl := Option.some.inj hstep
  obtain ⟨run, reuse, hp⟩ := Phase.eq_of_made hmade
  rw [hp] at hphase
  obtain ⟨slot, hslot, hwritten, rfl, hrun⟩ := hphase
  have hwaits := Phase.ne_waiting_of_made hmade
  have hk := hl.lock hd hwaits
  have hwhole := hwritten.whole hsettles hs.fingerprint hsource hrun
  obtain ⟨hkept, hentry⟩ := put_self hk ⟨slot.frames.length, s.now, D.extractionKey, D.fingerprint, sizeBytes⟩ disk
  have ht := touches_put hk ⟨slot.frames.length, s.now, D.extractionKey, D.fingerprint, sizeBytes⟩ disk
  refine h.goesOn hl hd ht ?_ (.inr fun entry' hentry' => ?_)
  · exact ⟨slot, hkept.trans hslot, rfl, s.now, D.fingerprint, hs.began, ht.now, hsource, hwhole.mono ht.completed⟩
  · obtain rfl := (hentry entry').mp hentry'
    exact ⟨slot, hkept.trans hslot, rfl, hwhole.mono ht.completed⟩

theorem Sound.stop (h : Sound key source s) (hl : Locked key s) (hd : s.dispatches d = some D)
    (hstep : s.stop key d D disk = some s') : Sound key source s' := by
  obtain ⟨hphase, hstep⟩ := Option.ite_none_left_eq_some.mp hstep
  have hwaits := (not_or.mp hphase).1
  obtain rfl := Option.some.inj hstep
  split_ifs with hemptied
  · exact h.goesOn hl hd (touches_evict (hl.lock hd hwaits) disk) trivial
      (.inr fun entry' hentry' => absurd hentry' (not_mem_evict s _ disk entry'))
  · exact h.goesOn hl hd (.refl s) trivial
      (.inr fun entry => h.describes hl hd hwaits (Bool.eq_false_iff.mpr hemptied))

/-! ### The steps that begin and end one -/

omit [DecidableEq κ] in
/-- A dispatch that is not at work changes only itself. -/
theorem Sound.withDispatch (h : Sound key source s) (hslots : s'.slots = s.slots) (hentries : s'.entries = s.entries)
    (hnow : s'.now = s.now) (hcompleted : s'.completed = s.completed)
    (hwork : ∀ D, s.dispatches d = some D → D.phase.slotEmptied = false) {o : Option (Dispatch π σ)}
    (hdispatches : s'.dispatches = (s.withDispatch d o).dispatches)
    (ho : ∀ D, o = some D → DispatchSound key source s D) : Sound key source s' := by
  have hmono : ∀ {D}, DispatchSound key source s D → DispatchSound key source s' D := fun hs =>
    ⟨hnow ▸ hs.began, hs.fingerprint, hs.phase.mono (Nat.le_of_eq hnow.symm) (by rw [hslots])
      (by rw [hcompleted]; exact List.Subset.refl _)⟩
  constructor
  · intro d' D' hd'
    rw [hdispatches] at hd'
    by_cases heq : d' = d
    · exact hmono (ho D' ((if_pos heq).symm.trans hd'))
    · exact hmono (h.dispatches d' D' ((if_neg heq).symm.trans hd'))
  · intro k entry hentry
    rw [hentries] at hentry
    refine (h.entries k entry hentry).imp ?_ fun hdescribes =>
      hdescribes.mono (by rw [hslots]) (by rw [hcompleted]; exact List.Subset.refl _)
    rintro ⟨d', D', hd', hpath, hat⟩
    have hne : d' ≠ d := fun heq => by
      rw [hwork D' (heq ▸ hd')] at hat
      cases hat
    exact ⟨d', D', by rw [hdispatches]; exact (if_neg hne).trans hd', hpath, hat⟩

theorem sound_restart (s : FrameCache κ π σ) (disk : Disk κ σ) : Sound key source (s.restart disk) :=
  ⟨fun _ _ h => absurd h (Option.some_ne_none _).symm, fun _ _ h => absurd h List.not_mem_nil⟩

/-- A step of no dispatch. -/
theorem Sound.idles (h : Sound key source s) (hl : Locked key s) (ht : Touches none s s') : Sound key source s' :=
  h.of_touches hl ht (fun _ heq => by cases heq) (fun _ heq => by cases heq)

end FrameCache

/-- A slot that is emptied is empty. -/
def CacheEvent.Empties : CacheEvent κ π σ → Prop
  | .empty _ left => left = []
  | .tick | .configure _ _ | .start _ _ _ _ _ | .acquire _ | .giveUp _ | .lookup _ _ | .try _ _ | .write _
  | .finish _ | .put _ _ _ | .publish _ | .stop _ _ | .release _ | .restart _ => True

namespace FrameCache

variable [DecidableEq κ] [DecidableEq σ] {key : π → κ} {source : ℕ → π → Option SourceFingerprint}
  {s₀ s s' : FrameCache κ π σ} {e : CacheEvent κ π σ} {events : List (CacheEvent κ π σ)}

/-- **Every step keeps the cache sound.** -/
theorem Sound.step (h : Sound key source s) (hl : Locked key s) (hsettles : Settles source) (he : e.Empties)
    (hstep : s.step key source e = some s') : Sound key source s' := by
  cases e with
  | tick =>
    obtain rfl := Option.some.inj hstep
    exact h.idles hl (touches_tick s)
  | configure ttl maxDiskBytes =>
    obtain rfl := Option.some.inj hstep
    exact h.idles hl (touches_configure s ttl maxDiskBytes)
  | start d path regenerate siblings extractionKey =>
    obtain ⟨hd, hstep⟩ := Option.ite_none_right_eq_some.mp hstep
    obtain ⟨fingerprint, hsource, rfl⟩ := Option.map_eq_some_iff.mp hstep
    refine h.withDispatch rfl rfl rfl rfl (fun D hD => ?_) rfl fun D hD => ?_
    · rw [hd] at hD
      cases hD
    · obtain rfl := Option.some.inj hD
      exact ⟨Nat.le_refl _, hsource, trivial⟩
  | acquire d =>
    obtain ⟨D, hd, hstep⟩ := Option.bind_eq_some_iff.mp hstep
    obtain ⟨⟨hwaits, -⟩, hstep⟩ := Option.ite_none_right_eq_some.mp hstep
    obtain rfl := Option.some.inj hstep
    have hs := h.dispatches d D hd
    refine h.withDispatch rfl rfl rfl rfl (fun D' hD' => ?_) rfl fun D' hD' => ?_
    · rw [← Option.some.inj (hd.symm.trans hD'), hwaits]
      rfl
    · obtain rfl := Option.some.inj hD'
      exact ⟨hs.began, hs.fingerprint, trivial⟩
  | giveUp d =>
    obtain ⟨D, hd, hstep⟩ := Option.bind_eq_some_iff.mp hstep
    obtain ⟨hwaits, hstep⟩ := Option.ite_none_right_eq_some.mp hstep
    obtain rfl := Option.some.inj hstep
    refine h.withDispatch rfl rfl rfl rfl (fun D' hD' => ?_) rfl fun D' hD' => by cases hD'
    rw [← Option.some.inj (hd.symm.trans hD'), hwaits]
    rfl
  | lookup d disk =>
    obtain ⟨D, hd, hstep⟩ := Option.bind_eq_some_iff.mp hstep
    exact h.lookup hl hd hstep
  | «try» d reuse =>
    obtain ⟨D, hd, hstep⟩ := Option.bind_eq_some_iff.mp hstep
    exact h.tryRun hl hd hstep
  | empty d left =>
    obtain ⟨D, hd, hstep⟩ := Option.bind_eq_some_iff.mp hstep
    obtain rfl : left = [] := he
    exact h.empty hl hd hstep
  | write d =>
    obtain ⟨D, hd, hstep⟩ := Option.bind_eq_some_iff.mp hstep
    exact h.write hl hd hstep
  | finish d =>
    obtain ⟨D, hd, hstep⟩ := Option.bind_eq_some_iff.mp hstep
    exact h.finish hl hd hstep
  | put d sizeBytes disk =>
    obtain ⟨D, hd, hstep⟩ := Option.bind_eq_some_iff.mp hstep
    exact h.storeFrames hl hsettles hd hstep
  | publish d =>
    obtain ⟨D, hd, hstep⟩ := Option.bind_eq_some_iff.mp hstep
    obtain ⟨-, hstep⟩ := Option.ite_none_right_eq_some.mp hstep
    exact Option.some.inj hstep ▸ h
  | stop d disk =>
    obtain ⟨D, hd, hstep⟩ := Option.bind_eq_some_iff.mp hstep
    exact h.stop hl hd hstep
  | release d =>
    obtain ⟨D, hd, hstep⟩ := Option.bind_eq_some_iff.mp hstep
    obtain ⟨hleaves, hstep⟩ := Option.ite_none_right_eq_some.mp hstep
    obtain rfl := Option.some.inj hstep
    refine h.withDispatch rfl rfl rfl rfl (fun D' hD' => ?_) rfl fun D' hD' => by cases hD'
    rw [← Option.some.inj (hd.symm.trans hD'), hleaves]
    rfl
  | restart disk =>
    obtain rfl := Option.some.inj hstep
    exact sound_restart s disk

/-- Every run keeps it sound. -/
theorem sound_of_runs {ttl maxEntries maxDiskBytes : ℕ} {slots : κ → Option (Slot σ)} (hsettles : Settles source)
    (hrun : Runs (step key source) (fun _ e => e.Empties) (fresh ttl maxEntries maxDiskBytes slots) events s) :
    Locked key s ∧ Sound key source s :=
  hrun.keeps (I := fun t => Locked key t ∧ Sound key source t) ⟨locked_fresh _ _ _ _, sound_fresh _ _ _ _⟩
    fun _ _ _ he hstep h => ⟨h.1.step hstep, h.2.step h.1 hsettles he hstep⟩

/-- `same_source` of one file is of one file. -/
theorem unchanged_trans {current : Option SourceFingerprint} {made found : SourceFingerprint}
    (hmade : unchanged current made = true) (hfound : unchanged current found = true)
    {source : Option SourceFingerprint} (h : unchanged source found = true) : unchanged source made = true := by
  simp only [unchanged, Option.any_eq_true, sameSource, Bool.and_eq_true, decide_eq_true_eq] at hmade hfound h ⊢
  obtain ⟨c, hc, hmade⟩ := hmade
  obtain ⟨c', hc', hfound⟩ := hfound
  obtain ⟨f, hf, h⟩ := h
  obtain rfl := Option.some.inj (hc.symm.trans hc')
  exact ⟨f, hf, by omega⟩

/-- **A publisher reads the frames of one run**: when a dispatch publishes, its slot has all the frames of a run that
returned and no others, made with its settings of the file it began with, or unpacked from one BIF. -/
theorem publishes_one_run {ttl maxEntries maxDiskBytes : ℕ} {slots : κ → Option (Slot σ)} {d : ℕ}
    (hsettles : Settles source)
    (hrun : Runs (step key source) (fun _ e => e.Empties) (fresh ttl maxEntries maxDiskBytes slots) events s)
    (hstep : s.step key source (.publish d) = some s') :
    ∃ D slot, s.dispatches d = some D ∧ D.phase = .publishing slot.frames.length ∧
      s.slots (key D.path) = some slot ∧ Whole s.completed slot.frames D.fingerprint D.extractionKey := by
  obtain ⟨D, hd, hstep⟩ := Option.bind_eq_some_iff.mp hstep
  obtain ⟨hpublishes, -⟩ := Option.ite_none_right_eq_some.mp hstep
  rw [Bool.and_eq_true] at hpublishes
  have hs := (sound_of_runs hsettles hrun).2.dispatches d D hd
  obtain ⟨count, hp⟩ := Phase.eq_of_publishing hpublishes.1
  have hphase := hs.phase
  rw [hp] at hphase
  obtain ⟨slot, hslot, rfl, t, found, hle, hle', hfound, hwhole⟩ := hphase
  have hmade := hsettles _ _ _ _ _ hle hle' hs.fingerprint hpublishes.2
  refine ⟨D, slot, hd, hp, hslot, hwhole.ofRun, hwhole.made.imp_left fun h f hf => ?_⟩
  obtain ⟨source, horigin, hsource⟩ := h f hf
  exact ⟨source, horigin, unchanged_trans hmade hfound hsource⟩

/-- A dispatch extracts and stores, and one that waited for it finds the frames. -/
def shared : List (CacheEvent ℕ ℕ ℕ) :=
  extracts 0 4 ++ [.put 0 10 wiped, .start 1 4 false false 7, .publish 0, .stop 0 wiped, .release 0, .acquire 1,
    .lookup 1 wiped]

theorem settles_still : Settles still := fun _ _ _ _ _ _ _ _ h => h

theorem publishes_one_run_shared : ∃ s s', Runs (step id still) (fun _ e => e.Empties) small shared s ∧
    s.step id still (.publish 1) = some s' ∧ ∃ D slot, s.dispatches 1 = some D ∧
      D.phase = .publishing slot.frames.length ∧ s.slots (id D.path) = some slot ∧
      Whole s.completed slot.frames D.fingerprint D.extractionKey := by
  have hruns : ((exec (step id still) small shared).any fun s => (s.step id still (.publish 1)).isSome) = true := by
    decide +kernel
  obtain ⟨s, hs, hpublishes⟩ := (Option.any_eq_true _ _).mp hruns
  obtain ⟨s', hs'⟩ := Option.isSome_iff_exists.mp hpublishes
  have hrun := Runs.of_exec (C := fun _ e => CacheEvent.Empties e) (by simp [shared, extracts, CacheEvent.Empties]) hs
  exact ⟨s, s', hrun, hs', publishes_one_run settles_still hrun hs'⟩

end FrameCache

end MediaPreview.Frames
