import MediaPreview.Markers.Provenance

/-!
# The contradiction guard

Agreement is not transitive, so a bridge candidate can merge everything into one cluster
whose winner disagrees with two sources that agree with each other. The guard at the end
of `decideType` asks every pair. Credit text overrules it; it gives no intros, so for an
intro or recap nothing published is contradicted (`decide_uncontradicted`).
-/

namespace MediaPreview.Markers

open Ranking

variable {mtype : MarkerType} {ctx : DecisionContext} {l : List Candidate} {m : Marker}

/-- Two independent answers that agree with each other and not with `m`. -/
structure Contradicts (ctx : DecisionContext) (m : Marker) (a b : Candidate) : Prop where
  /-- The answers are independent. -/
  group_ne : group a ≠ group b
  /-- They agree with each other. -/
  agree : |agreeValue a ctx.durationMs - agreeValue b ctx.durationMs| ≤ toleranceMs m.type
  /-- The first is far from the marker. -/
  far_left : toleranceMs m.type < |agreeValue a ctx.durationMs - checkedValue m.type m|
  /-- So is the second. -/
  far_right : toleranceMs m.type < |agreeValue b ctx.durationMs - checkedValue m.type m|

theorem Contradicts.symm {a b : Candidate} (h : Contradicts ctx m a b) : Contradicts ctx m b a :=
  ⟨h.group_ne.symm, abs_sub_comm (agreeValue a ctx.durationMs) _ ▸ h.agree, h.far_right, h.far_left⟩

/-- **The guard asks every pair**: the groups it names are those of the pairs that contradict. -/
theorem mem_contradictingGroups {pool : List Candidate} (htype : ∀ c ∈ pool, c.type = m.type) {g : String} :
    g ∈ contradictingGroups m pool ctx ↔ ∃ a ∈ pool, ∃ b ∈ pool, Contradicts ctx m a b ∧ (group a).name = g := by
  set far := pool.filter fun c => toleranceMs m.type < |agreeValue c ctx.durationMs - checkedValue m.type m| with hfar
  have hmem : ∀ c, c ∈ far ↔ c ∈ pool ∧ toleranceMs m.type < |agreeValue c ctx.durationMs - checkedValue m.type m| := by
    intro c
    rw [hfar, List.mem_filter, decide_eq_true_eq]
  have hpair : ∀ a ∈ far, ∀ b ∈ far, independentPair ctx a b = true ↔ Contradicts ctx m a b := by
    intro a ha b hb
    have hta := htype a ((hmem a).mp ha).1
    simp only [independentPair, Bool.and_eq_true, decide_eq_true_eq, Markers.agree, hta]
    exact ⟨fun h => ⟨h.1, h.2, ((hmem a).mp ha).2, ((hmem b).mp hb).2⟩, fun h => ⟨h.group_ne, h.agree⟩⟩
  unfold contradictingGroups
  simp only [mem_sortedSet, List.mem_map, List.mem_flatMap, List.mem_filter, ← hfar]
  constructor
  · rintro ⟨c, ⟨p, ⟨hp, hind⟩, hc⟩, rfl⟩
    obtain ⟨h1, h2⟩ := mem_of_mem_pairs hp
    have hcon := (hpair p.1 h1 p.2 h2).mp hind
    have hp1 := ((hmem p.1).mp h1).1
    have hp2 := ((hmem p.2).mp h2).1
    simp only [List.mem_cons, List.not_mem_nil, or_false] at hc
    rcases hc with rfl | rfl
    · exact ⟨p.1, hp1, p.2, hp2, hcon, rfl⟩
    · exact ⟨p.2, hp2, p.1, hp1, hcon.symm, rfl⟩
  · rintro ⟨a, ha, b, hb, hcon, rfl⟩
    have haf := (hmem a).mpr ⟨ha, hcon.far_left⟩
    have hbf := (hmem b).mpr ⟨hb, hcon.far_right⟩
    have hne : a ≠ b := fun h => hcon.group_ne (h ▸ rfl)
    rcases mem_pairs_of_ne haf hbf hne with hp | hp
    · exact ⟨a, ⟨(a, b), ⟨hp, (hpair a haf b hbf).mpr hcon⟩, by simp⟩, rfl⟩
    · exact ⟨a, ⟨(b, a), ⟨hp, (hpair b hbf a haf).mpr hcon.symm⟩, by simp⟩, rfl⟩

/-- It names no groups exactly when nothing in the pool contradicts the marker. -/
theorem contradictingGroups_eq_nil_iff {pool : List Candidate} (htype : ∀ c ∈ pool, c.type = m.type) :
    contradictingGroups m pool ctx = [] ↔ ∀ a ∈ pool, ∀ b ∈ pool, ¬ Contradicts ctx m a b := by
  simp only [List.eq_nil_iff_forall_not_mem, mem_contradictingGroups htype]
  exact ⟨fun h a ha b hb hc => h _ ⟨a, ha, b, hb, hc, rfl⟩, fun h g ⟨a, ha, b, hb, hc, _⟩ => h a ha b hb hc⟩

/-- What the guard asks of a candidate. -/
def guardKey (ctx : DecisionContext) (c : Candidate) : Group × ℤ := (group c, agreeValue c ctx.durationMs)

theorem Contradicts.congr {a b a' b' : Candidate} (h : Contradicts ctx m a b) (ha : guardKey ctx a = guardKey ctx a')
    (hb : guardKey ctx b = guardKey ctx b') : Contradicts ctx m a' b' := by
  obtain ⟨hga, hva⟩ := Prod.mk.inj ha
  obtain ⟨hgb, hvb⟩ := Prod.mk.inj hb
  exact ⟨hga ▸ hgb ▸ h.group_ne, hva ▸ hvb ▸ h.agree, hva ▸ h.far_left, hvb ▸ h.far_right⟩

/-- The guard's answer is determined by what it asks. -/
theorem contradictingGroups_congr {p₁ p₂ : List Candidate} (h : SameElems (p₁.map (guardKey ctx)) (p₂.map (guardKey ctx)))
    (h₁ : ∀ c ∈ p₁, c.type = m.type) (h₂ : ∀ c ∈ p₂, c.type = m.type) :
    contradictingGroups m p₁ ctx = contradictingGroups m p₂ ctx := by
  have hsub : ∀ {q₁ q₂ : List Candidate}, SameElems (q₁.map (guardKey ctx)) (q₂.map (guardKey ctx)) → ∀ g,
      (∃ a ∈ q₁, ∃ b ∈ q₁, Contradicts ctx m a b ∧ (group a).name = g) →
        ∃ a ∈ q₂, ∃ b ∈ q₂, Contradicts ctx m a b ∧ (group a).name = g := by
    rintro q₁ q₂ hq g ⟨a, ha, b, hb, hcon, rfl⟩
    obtain ⟨a', ha', hka⟩ := List.mem_map.mp ((hq _).mp (List.mem_map_of_mem ha))
    obtain ⟨b', hb', hkb⟩ := List.mem_map.mp ((hq _).mp (List.mem_map_of_mem hb))
    exact ⟨a', ha', b', hb', hcon.congr hka.symm hkb.symm, congrArg Group.name (Prod.mk.inj hka).1⟩
  have hsame : SameElems (contradictingGroups m p₁ ctx) (contradictingGroups m p₂ ctx) := by
    intro g
    rw [mem_contradictingGroups h₁, mem_contradictingGroups h₂]
    exact ⟨hsub h g, hsub h.symm g⟩
  unfold contradictingGroups at hsame ⊢
  exact sortedSet_congr Function.injective_id fun g => by simpa only [mem_sortedSet] using hsame g

/-- A marker rests on credit text only where there is credit text. -/
theorem restsOnCreditText_eq_false (h : ∀ c ∈ l, c.source ≠ .creditsText) : restsOnCreditText m l ctx = false := by
  simp only [restsOnCreditText, List.any_eq_false, Source.winsADisagreement]
  intro c hc
  simp [h c hc]

/-- The candidates the guard asks: all but the chapter chosen. -/
theorem mem_guardPool (hl : Readings mtype ctx l) {c : Candidate} :
    c ∈ (decideByRules mtype l ctx).2 ↔
      c ∈ l ∧ ∀ chosen, chosenChapter (l.filter fun c => c.source = .chapters) ctx = some chosen → c ≠ chosen := by
  unfold decideByRules
  dsimp only
  split
  · rename_i chosen hchosen
    have hchl := (chosenChapter_eq_some hchosen).1
    rw [List.mem_filter, decide_eq_true_eq]
    refine and_congr_right fun hc => ⟨fun hobj ch hch => ?_, fun hne hobj => ?_⟩
    · obtain rfl := Option.some.inj (hchosen.symm.trans hch)
      exact fun heq => hobj (heq ▸ rfl)
    · exact hne chosen hchosen (hl.obj_inj c hc chosen hchl hobj)
  · rename_i hnone
    have hnil := List.argmin_eq_none.mp hnone
    rw [List.mem_filter, hnone]
    refine and_congr_right fun hc => ⟨fun _ _ h => absurd h (by simp), fun _ => ?_⟩
    rw [decide_eq_true_eq]
    intro hch
    have : c ∈ l.filter fun c => c.source = .chapters := List.mem_filter.mpr ⟨hc, decide_eq_true hch⟩
    rw [hnil] at this
    exact absurd this List.not_mem_nil

/-- Without credit text the rules publish nothing a pair they ask contradicts. -/
theorem uncontradicted_decideType (hl : Readings mtype ctx l) (htext : ∀ c ∈ l, c.source ≠ .creditsText)
    {ofType : List Candidate} (hp : (decideType mtype ofType l ctx).Publishes m) :
    ∀ a ∈ (decideByRules mtype l ctx).2, ∀ b ∈ (decideByRules mtype l ctx).2, ¬ Contradicts ctx m a b := by
  have hm : m.type = mtype := (backed_decideType hl hp).type_eq
  unfold decideType at hp
  split at hp
  · exact absurd hp not_publishes_noEvidence
  · have hguard := (publishes_guardContradicted hp).2
    rw [restsOnCreditText_eq_false htext] at hguard
    refine (contradictingGroups_eq_nil_iff fun c hc => ?_).mp (hguard.resolve_left (by simp))
    exact (hl.type_eq c ((mem_guardPool hl).mp hc).1).trans hm.symm

/-- Rule 7 moves no intro and no recap. -/
theorem decide_of_isStartSegment {candidates : List Candidate} {locked : MarkerType → Option Marker}
    (h : mtype.isStartSegment = true) :
    decide candidates ctx locked mtype = decideUnshortened candidates ctx locked mtype := by
  unfold decide
  dsimp only
  split
  · unfold shortenToServerMarkers
    split
    · rfl
    · rw [(outcomeOf_decideUnshortened ..).type_eq, if_pos h]
  · rfl

/-- The chapter `_decide_type` chooses among the type's sane chapters. -/
def chapterChosen (e : Evidence) (ctx : DecisionContext) (mtype : MarkerType) : Option Candidate :=
  chosenChapter ((onClock e.candidates ctx mtype).filter fun c => c.source = .chapters) ctx

/-- **No intro or recap is published against two independent sources that agree**: among the type's
sane candidates as read on the file's clock, the chapter the rules chose and what rule 14 drops
left out, no two of different groups end within 5 s of each other and both more than 5 s away. -/
theorem decide_uncontradicted (e : Evidence) (ctx : DecisionContext) (locked : MarkerType → Option Marker)
    (mtype : MarkerType) (m : Marker) (hseg : mtype = .intro ∨ mtype = .recap)
    (htext : ∀ c ∈ e.candidates, c.type = mtype → c.source ≠ .creditsText)
    (hp : (decide e.candidates ctx locked mtype).Publishes m) (hu : m.locked = false)
    (a b : Candidate) (ha : a ∈ onClock e.candidates ctx mtype) (hb : b ∈ onClock e.candidates ctx mtype)
    (hca : ∀ chapter, chapterChosen e ctx mtype = some chapter → a ≠ chapter)
    (hcb : ∀ chapter, chapterChosen e ctx mtype = some chapter → b ≠ chapter) (hgroup : group a ≠ group b)
    (hagree : |resolveEndMs a ctx.durationMs - resolveEndMs b ctx.durationMs| ≤ 5000) :
    ¬ (5000 < |resolveEndMs a ctx.durationMs - m.endMs| ∧ 5000 < |resolveEndMs b ctx.durationMs - m.endMs|) := by
  have hstart : mtype.isStartSegment = true := by rcases hseg with rfl | rfl <;> rfl
  have hread := readings_onClock e ctx mtype
  rw [decide_of_isStartSegment hstart] at hp
  have hpt := publishes_decideOne (publishes_applyOverlapDemotions hp) hu
  have hm : m.type = mtype := (backed_decideType hread hpt).type_eq
  have htext' : ∀ c ∈ onClock e.candidates ctx mtype, c.source ≠ .creditsText := by
    intro c hc
    obtain ⟨-, raw, hraw, hr⟩ := mem_onFileClock (mem_of_mem_withoutAnotherReleasesIntro hc)
    rw [hr.source_eq]
    exact htext raw (mem_ofType hraw).1 (mem_ofType hraw).2
  have hvalue : ∀ c ∈ onClock e.candidates ctx mtype, agreeValue c ctx.durationMs = resolveEndMs c ctx.durationMs := by
    intro c hc
    rw [agreeValue, hread.type_eq c hc, if_pos hstart]
  have hchecked : checkedValue m.type m = m.endMs := by rw [checkedValue, hm, if_pos hstart]
  have htol : toleranceMs m.type = 5000 := by rw [toleranceMs, hm, if_pos hstart]; rfl
  rintro ⟨hfa, hfb⟩
  refine uncontradicted_decideType hread htext' hpt a ((mem_guardPool hread).mpr ⟨ha, hca⟩) b
    ((mem_guardPool hread).mpr ⟨hb, hcb⟩) ⟨hgroup, ?_, ?_, ?_⟩
  · rwa [hvalue a ha, hvalue b hb, htol]
  · rwa [hvalue a ha, hchecked, htol]
  · rwa [hvalue b hb, hchecked, htol]

theorem decide_uncontradicted_opening :
    ¬ (5000 < |resolveEndMs openingIntrodb episodeCtx.durationMs - openingIntro.endMs| ∧
      5000 < |resolveEndMs openingAudio episodeCtx.durationMs - openingIntro.endMs|) :=
  decide_uncontradicted opening episodeCtx (fun _ => none) .intro openingIntro (.inl rfl) (by decide) (by decide) rfl
    openingIntrodb openingAudio (by decide) (by decide) (by decide) (by decide) (by decide) (by decide)

end MediaPreview.Markers
