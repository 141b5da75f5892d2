import MediaPreview.Markers.Outcome

/-!
# Where a decided marker's edges come from

`Backed` is the invariant every rule that publishes keeps: the marker is plausible, and
each of its edges is one a credited candidate gave, the checked edge one outside the
servers, or the target of a credit text answer's chapter hint. It is carried through
composing (`backed_composeCluster`), the clusters, the chapters and a single source to
`decideType`, and past rule 7 to `decide`.
-/

namespace MediaPreview.Markers

open Ranking

/-- One type's candidates as the rules take them. -/
structure Readings (mtype : MarkerType) (ctx : DecisionContext) (l : List Candidate) : Prop where
  /-- They are plausible. -/
  sane : ∀ c ∈ l, Sane c ctx
  /-- They are of the type. -/
  type_eq : ∀ c ∈ l, c.type = mtype
  /-- An object is one candidate. -/
  obj_inj : ∀ a ∈ l, ∀ b ∈ l, a.obj = b.obj → a = b

theorem Readings.subset {mtype : MarkerType} {ctx : DecisionContext} {l l' : List Candidate}
    (h : Readings mtype ctx l) (hsub : ∀ c ∈ l', c ∈ l) : Readings mtype ctx l' where
  sane c hc := h.sane c (hsub c hc)
  type_eq c hc := h.type_eq c (hsub c hc)
  obj_inj a ha b hb := h.obj_inj a (hsub a ha) b (hsub b hb)

/-- The checked edge of a marker is one a credited candidate outside the servers gave, or the
target a credit text answer's chapter hint names. -/
def CheckedFrom (mtype : MarkerType) (l : List Candidate) (ctx : DecisionContext) (m : Marker) : Prop :=
  (∃ c ∈ l, c.source.isServer = false ∧ c.source.value ∈ m.decidedBy ∧
      checkedValue mtype m = agreeValue c ctx.durationMs) ∨
    (mtype = .credits ∧ Source.creditsText.value ∈ m.decidedBy ∧ ∃ c ∈ l, c.source = .creditsText ∧
      ∃ chapterStart, readChapterHint c.origin = some (chapterStart, true, some m.startMs))

/-- **The rules' invariant** of a marker they publish for `mtype` from the candidates `l`. -/
structure Backed (mtype : MarkerType) (l : List Candidate) (ctx : DecisionContext) (m : Marker) : Prop where
  /-- The marker is of the type. -/
  type_eq : m.type = mtype
  /-- No rule locks a marker. -/
  unlocked : m.locked = false
  /-- The checked edge was given. -/
  checked : CheckedFrom mtype l ctx m
  /-- The other edge was given. -/
  other : ∃ c ∈ l, c.source.value ∈ m.decidedBy ∧ otherEdge mtype m = otherValue mtype c ctx.durationMs
  /-- The marker keeps rule 2's bounds. -/
  bounds : Plausible mtype m.startMs m.endMs ctx

variable {mtype : MarkerType} {ctx : DecisionContext} {l : List Candidate} {m : Marker}

theorem Backed.subset {l' : List Candidate} (h : Backed mtype l' ctx m) (hsub : ∀ c ∈ l', c ∈ l) :
    Backed mtype l ctx m where
  type_eq := h.type_eq
  unlocked := h.unlocked
  checked := by
    rcases h.checked with ⟨c, hc, hrest⟩ | ⟨ht, hcred, c, hc, hrest⟩
    · exact .inl ⟨c, hsub c hc, hrest⟩
    · exact .inr ⟨ht, hcred, c, hsub c hc, hrest⟩
  other := by
    obtain ⟨c, hc, hrest⟩ := h.other
    exact ⟨c, hsub c hc, hrest⟩
  bounds := h.bounds

/-- Some source outside the servers is credited. -/
theorem CheckedFrom.exists_source (h : CheckedFrom mtype l ctx m) :
    ∃ s : Source, s.isServer = false ∧ s.value ∈ m.decidedBy := by
  rcases h with ⟨c, -, hs, hm, -⟩ | ⟨-, hm, -⟩
  · exact ⟨c.source, hs, hm⟩
  · exact ⟨.creditsText, rfl, hm⟩

/-! ### Markers of candidates' edges -/

/-- The checked and the other edge of one candidate are its own edges. -/
theorem edges_values (c : Candidate) (d : ℤ) :
    edges c.type (agreeValue c d) (otherValue c.type c d) = (c.startMs, resolveEndMs c d) := by
  unfold edges agreeValue otherValue
  split_ifs <;> rfl

theorem backed_ownMarker (hl : Readings mtype ctx l) {c : Candidate} (hc : c ∈ l)
    (hs : c.source.isServer = false) : Backed mtype l ctx (ownMarker c ctx) := by
  obtain rfl := hl.type_eq c hc
  exact {
    type_eq := rfl
    unlocked := rfl
    checked := .inl ⟨c, hc, hs, by simp, checkedValue_ownMarker c ctx⟩
    other := ⟨c, hc, by simp, otherEdge_ownMarker c ctx⟩
    bounds := (hl.sane c hc).withinBounds }

/-- A composed marker of credited candidates' edges ends in the file. -/
theorem endMs_composedMarker_le {c o : Candidate} {d : ℤ} (hc : c.type = mtype) (sources : List Source) :
    (composedMarker mtype (agreeValue c d) (otherValue mtype o d) sources ctx).endMs ≤ d := by
  obtain rfl := hc
  unfold composedMarker edges agreeValue otherValue
  dsimp only
  split_ifs
  · exact resolveEndMs_le c d
  · exact resolveEndMs_le o d

/-- **A sane composed marker** of credited candidates' edges, the checked one outside the servers,
keeps the invariant. -/
theorem backed_composedMarker (hl : Readings mtype ctx l) {c o : Candidate} {sources : List Source} (hc : c ∈ l)
    (hs : c.source.isServer = false) (hcs : c.source ∈ sources) (ho : o ∈ l) (hos : o.source ∈ sources)
    (hsane : markerIsSane (composedMarker mtype (agreeValue c ctx.durationMs) (otherValue mtype o ctx.durationMs)
      sources ctx) ctx = true) :
    Backed mtype l ctx
      (composedMarker mtype (agreeValue c ctx.durationMs) (otherValue mtype o ctx.durationMs) sources ctx) where
  type_eq := rfl
  unlocked := rfl
  checked := .inl ⟨c, hc, hs, value_mem_composedMarker.mpr hcs, checkedValue_composedMarker ..⟩
  other := ⟨o, ho, value_mem_composedMarker.mpr hos, otherEdge_composedMarker ..⟩
  bounds := plausible_of_markerIsSane hsane (endMs_composedMarker_le (hl.type_eq c hc) sources)

/-- Crediting more sources with a candidate's own edges keeps the invariant. -/
theorem backed_creditMore (hl : Readings mtype ctx l) {c : Candidate} {sources : List Source} (hc : c ∈ l)
    (hs : c.source.isServer = false) (hcs : c.source ∈ sources) :
    Backed mtype l ctx
      (composedMarker mtype (agreeValue c ctx.durationMs) (otherValue mtype c ctx.durationMs) sources ctx) where
  type_eq := rfl
  unlocked := rfl
  checked := .inl ⟨c, hc, hs, value_mem_composedMarker.mpr hcs, checkedValue_composedMarker ..⟩
  other := ⟨c, hc, value_mem_composedMarker.mpr hcs, otherEdge_composedMarker ..⟩
  bounds := by
    obtain rfl := hl.type_eq c hc
    simpa only [composedMarker, edges_values] using (hl.sane c hc).withinBounds

/-! ### Clusters -/

/-- What `composeCluster` composes, when it is sane. -/
theorem backed_composeCluster (hl : Readings mtype ctx l) {cluster : List Candidate} {textStart : Bool}
    (h : Composable l ctx cluster) (hsane : markerIsSane (composeCluster cluster mtype ctx textStart).1 ctx = true) :
    Backed mtype l ctx (composeCluster cluster mtype ctx textStart).1 := by
  have hw := mem_confirmedNonServer.mp (h.winner_mem mtype textStart)
  have hwl := h.subset _ (mem_confirmedOf.mp hw.1).1
  obtain ⟨o, ho, hosup, hval⟩ := saferOtherEdge_mem mtype ctx (h.edgePool_ne_nil mtype)
  have hol := h.subset o (mem_confirmedOf.mp (mem_edgePool ho)).1
  simp only [composeCluster, hval] at hsane ⊢
  refine backed_composedMarker hl hwl hw.2 (by simp) hol ?_ hsane
  simp only [List.map_cons, List.map_append, List.mem_cons, List.mem_append, List.mem_map]
  exact .inr (.inl ⟨o, hosup, rfl⟩)

theorem creditTextWithOwnMarker_eq_some {cands : List Candidate} {text : Candidate}
    (h : creditTextWithOwnMarker cands ctx = some text) : text ∈ cands ∧ text.source = .creditsText := by
  unfold creditTextWithOwnMarker at h
  split_ifs at h
  have := List.mem_filter.mp (argmin_mem h)
  simp only [Source.winsADisagreement, Bool.and_eq_true, decide_eq_true_eq] at this
  exact ⟨this.1, this.2.1⟩

theorem backed_decideMerged (hl : Readings mtype ctx l) {merged : List Candidate} {textStart : Bool}
    {outvoted : String} (h : Composable l ctx merged)
    (hp : (decideMerged mtype merged ctx textStart outvoted).Publishes m) : Backed mtype l ctx m := by
  unfold decideMerged at hp
  dsimp only at hp
  by_cases hsane : markerIsSane (composeCluster merged mtype ctx textStart).1 ctx = true
  · rw [if_pos hsane, publishes_decided] at hp
    exact hp ▸ backed_composeCluster hl h hsane
  · rw [if_neg hsane] at hp
    split at hp
    · exact absurd hp not_publishes_noEvidence
    · rename_i text htext
      obtain ⟨hmem, hsource⟩ := creditTextWithOwnMarker_eq_some htext
      rw [publishes_decided] at hp
      exact hp ▸ backed_ownMarker hl (h.subset text hmem) (hsource ▸ rfl)

/-- `distinctObjects` keeps the elements, where an object is one candidate. -/
theorem sameElems_distinctObjects {l : List Candidate} (h : ∀ a ∈ l, ∀ b ∈ l, a.obj = b.obj → a = b) :
    SameElems (distinctObjects l) l := by
  induction l with
  | nil => exact .refl _
  | cons a l ih =>
    intro x
    have hx := ih (fun b hb c hc => h b (.tail a hb) c (.tail a hc)) x
    simp only [distinctObjects, List.mem_cons, List.mem_filter, hx, decide_eq_true_eq]
    constructor
    · rintro (rfl | ⟨hxl, -⟩)
      · exact .inl rfl
      · exact .inr hxl
    · rintro (rfl | hxl)
      · exact .inl rfl
      · by_cases hobj : x.obj = a.obj
        · exact .inl (h x (.tail a hxl) a (.head l) hobj)
        · exact .inr ⟨hxl, hobj⟩

/-- Composable clusters merge into one. -/
theorem composable_merged (hl : Readings mtype ctx l) {cliques : List (List Candidate)} (hne : cliques ≠ [])
    (h : ∀ cl ∈ cliques, Composable l ctx cl) : Composable l ctx (distinctObjects cliques.flatten) := by
  obtain ⟨cl, hcl⟩ := List.exists_mem_of_ne_nil cliques hne
  have hsub : ∀ c ∈ cliques.flatten, c ∈ l := by
    intro c hc
    obtain ⟨cl', hcl', hc⟩ := List.mem_flatten.mp hc
    exact (h cl' hcl').subset c hc
  have hsame := sameElems_distinctObjects (hl.subset hsub).obj_inj
  refine (h cl hcl).mono (fun c hc => ?_) (fun c hc => hsub c ((hsame c).mp hc))
  exact (hsame c).mpr (List.mem_flatten.mpr ⟨cl, hcl, hc⟩)

theorem backed_decideFromCliques (hl : Readings mtype ctx l) {cliques : List (List Candidate)} {textStart : Bool}
    (hne : cliques ≠ []) (h : ∀ cl ∈ cliques, Composable l ctx cl)
    (hp : (decideFromCliques mtype cliques ctx textStart).Publishes m) : Backed mtype l ctx m := by
  unfold decideFromCliques at hp
  dsimp only at hp
  split at hp
  · split at hp
    · exact absurd hp not_publishes_noEvidence
    · rename_i hread
      rw [not_not] at hread
      refine backed_decideMerged hl (composable_merged hl (List.ne_nil_of_length_pos (by omega)) ?_) hp
      exact fun cl hcl => h cl (List.mem_filter.mp hcl).1
  · exact backed_decideMerged hl (composable_merged hl hne h) hp

/-! ### Chapters -/

@[simp] theorem publishes_reason {dec : TypeDecision} {reason : String} :
    TypeDecision.Publishes { dec with reason := reason } m ↔ dec.Publishes m := Iff.rfl

theorem backed_contradictedChapter (hl : Readings mtype ctx l) {chosen : Candidate} (hc : chosen ∈ l)
    (hch : chosen.source = .chapters) {names : List String} {others : List Candidate}
    (hp : (contradictedChapter mtype (ownMarker chosen ctx) names others ctx).Publishes m) :
    Backed mtype l ctx m := by
  obtain rfl := hl.type_eq chosen hc
  unfold contradictedChapter at hp
  dsimp only at hp
  split at hp
  · exact absurd hp not_publishes_noEvidence
  · rw [publishes_decided, checkedValue_ownMarker, otherEdge_ownMarker] at hp
    exact hp ▸ backed_creditMore hl hc (hch ▸ rfl) (by simp [hch])

theorem mem_movingAnswers {chosen answer : Candidate} {toMs : Option ℤ} {others : List Candidate}
    (h : (answer, toMs) ∈ movingAnswers chosen others) :
    answer ∈ others ∧ answer.source = .creditsText ∧ readChapterHint answer.origin = some (chosen.startMs, true, toMs) := by
  obtain ⟨c, hc, hv⟩ := List.mem_filterMap.mp h
  split_ifs at hv with hs
  split at hv
  · rename_i start moves toMs' hhint
    split_ifs at hv with hmatch
    obtain ⟨rfl, rfl⟩ := Prod.mk.inj (Option.some.inj hv)
    obtain ⟨rfl, rfl⟩ := hmatch
    exact ⟨hc, hs, hhint⟩
  · exact absurd hv (by simp)

/-- **A moved chapter** keeps the invariant: its start is the answer's own or the hint's target. -/
theorem backed_textMovesChapter (hl : Readings .credits ctx l) {chosen : Candidate} (hc : chosen ∈ l)
    (hch : chosen.source = .chapters) {others : List Candidate} (hsub : ∀ c ∈ others, c ∈ l) {dec : TypeDecision}
    (h : textMovesChapter chosen (ownMarker chosen ctx) others ctx = some dec) (hp : dec.Publishes m) :
    Backed .credits l ctx m := by
  unfold textMovesChapter at h
  dsimp only at h
  split at h
  · rename_i answer toMs hmoving
    have hans := mem_movingAnswers (hmoving ▸ List.mem_singleton_self (answer, toMs))
    split_ifs at h with h1 h2 hsane
    obtain rfl := Option.some.inj h
    rw [publishes_decided] at hp
    subst hp
    have hother : ∃ c ∈ l, c.source ∈ [Source.chapters, Source.creditsText] ∧
        min (ownMarker chosen ctx).endMs (resolveEndMs answer ctx.durationMs) = resolveEndMs c ctx.durationMs := by
      rcases min_choice (ownMarker chosen ctx).endMs (resolveEndMs answer ctx.durationMs) with h | h
      · exact ⟨chosen, hc, by simp [hch], h⟩
      · exact ⟨answer, hsub answer hans.1, by simp [hans.2.1], h⟩
    obtain ⟨o, ho, hos, hval⟩ := hother
    refine ⟨rfl, rfl, ?_, ⟨o, ho, value_mem_composedMarker.mpr hos, hval⟩, ?_⟩
    · cases toMs with
      | none => exact .inl ⟨answer, hsub answer hans.1, hans.2.1 ▸ rfl,
          value_mem_composedMarker.mpr (by simp [hans.2.1]), by
            simp [agreeValue, hl.type_eq answer (hsub answer hans.1), MarkerType.isStartSegment]⟩
      | some target => exact .inr ⟨rfl, value_mem_composedMarker.mpr (by simp), answer, hsub answer hans.1, hans.2.1,
          chosen.startMs, hans.2.2⟩
    · refine plausible_of_markerIsSane hsane ?_
      rw [composedMarker, edges]
      exact hval.trans_le (resolveEndMs_le o _)
  · exact absurd h (by simp)

theorem backed_chapterMarker (hl : Readings mtype ctx l) {chosen : Candidate} (hc : chosen ∈ l)
    (hch : chosen.source = .chapters) {agreeing : List Candidate} (hsub : ∀ c ∈ agreeing, c ∈ l) :
    Backed mtype l ctx
      (chapterMarker mtype (ownMarker chosen ctx) agreeing (isSuspect mtype (ownMarker chosen ctx) ctx) ctx) := by
  obtain rfl := hl.type_eq chosen hc
  have hserver : chosen.source.isServer = false := hch ▸ rfl
  have hown := backed_ownMarker hl hc hserver
  generalize hsus : isSuspect chosen.type (ownMarker chosen ctx) ctx = suspect
  unfold chapterMarker
  dsimp only
  by_cases hgroups : groupsNeeded suspect ≤ (agreeing.map group).dedup.length
  · rw [if_pos hgroups]
    have hne : agreeing ≠ [] := by
      rintro rfl
      cases suspect <;> simp [groupsNeeded] at hgroups
    obtain ⟨o, ho, -, hval⟩ := saferOtherEdge_mem chosen.type ctx hne
    have hos : o.source ∈ Source.chapters :: agreeing.map (·.source) := List.mem_cons_of_mem _ (List.mem_map_of_mem ho)
    split_ifs with hsafer hsane hsuspect
    · rw [hval, checkedValue_ownMarker] at hsane ⊢
      exact backed_composedMarker hl hc hserver (by simp [hch]) (hsub o ho) hos hsane
    · exact hown
    · have hintro : chosen.type = .intro := by
        rw [hsuspect, isSuspect, decide_eq_true_eq] at hsus
        exact hsus.1
      have hstart : (ownMarker chosen ctx).startMs = otherValue chosen.type chosen ctx.durationMs := by
        simp [otherValue, ownMarker, hintro, MarkerType.isStartSegment]
      rw [hstart, checkedValue_ownMarker]
      exact backed_creditMore hl hc hserver (by simp [hch])
    · exact hown
  · rw [if_neg hgroups]
    exact hown

theorem backed_chapterStands (hl : Readings mtype ctx l) {chosen : Candidate} (hc : chosen ∈ l)
    (hch : chosen.source = .chapters) {others : List Candidate} (hsub : ∀ c ∈ others, c ∈ l)
    (hp : (chapterStands mtype (ownMarker chosen ctx) others ctx).Publishes m) : Backed mtype l ctx m := by
  unfold chapterStands at hp
  dsimp only at hp
  split at hp
  · exact absurd hp not_publishes_noEvidence
  · rw [publishes_decided] at hp
    exact hp ▸ backed_chapterMarker hl hc hch fun c hc => hsub c (List.mem_filter.mp hc).1

theorem mem_contradictingClusters {chapter : Marker} {others : List Candidate} {cm : List Candidate × Marker}
    (h : cm ∈ contradictingClusters mtype chapter others ctx) : cm.1 ∈ agreeingCliques others mtype ctx := by
  obtain ⟨cl, hcl, rfl⟩ := List.mem_map.mp (List.mem_filter.mp h).1
  exact hcl

theorem backed_uncontradictedChapter (hl : Readings mtype ctx l) {chosen : Candidate} (hc : chosen ∈ l)
    (hch : chosen.source = .chapters) {others : List Candidate} (hsub : ∀ c ∈ others, c ∈ l)
    (hp : (uncontradictedChapter mtype chosen others ctx).Publishes m) : Backed mtype l ctx m := by
  unfold uncontradictedChapter at hp
  dsimp only at hp
  split at hp
  · exact absurd hp not_publishes_noEvidence
  · split at hp
    · exact absurd hp not_publishes_noEvidence
    · generalize hmoved : (if mtype = .credits then textMovesChapter chosen _ others ctx else none) = moved at hp
      cases moved with
      | none => exact backed_chapterStands hl hc hch hsub hp
      | some dec =>
        split_ifs at hmoved with htext
        subst htext
        exact backed_textMovesChapter hl hc hch hsub hmoved hp

theorem backed_decideFromChapter (hl : Readings mtype ctx l) {chosen : Candidate} (hc : chosen ∈ l)
    (hch : chosen.source = .chapters) {others : List Candidate} (hsub : ∀ c ∈ others, c ∈ l)
    (hp : (decideFromChapter mtype chosen others ctx).Publishes m) : Backed mtype l ctx m := by
  unfold decideFromChapter at hp
  dsimp only at hp
  split at hp
  · exact backed_uncontradictedChapter hl hc hch hsub hp
  · rename_i first rest hcontra
    have hmem : ∀ cl ∈ (first :: rest).map Prod.fst, Composable l ctx cl := by
      intro cl hcl
      obtain ⟨cm, hcm, rfl⟩ := List.mem_map.mp hcl
      have hcomp := composable_of_mem_agreeingCliques (hl.subset hsub).type_eq
        (mem_contradictingClusters (hcontra ▸ hcm))
      exact hcomp.mono (fun _ h => h) fun c hc => hsub c (hcomp.subset c hc)
    cases hover : overChapter mtype ((first :: rest).map Prod.fst) (ownMarker chosen ctx) ctx with
    | none =>
      rw [hover, Option.getD_none] at hp
      exact backed_contradictedChapter hl hc hch hp
    | some dec =>
      rw [hover, Option.getD_some] at hp
      obtain ⟨textStart, reason, rfl⟩ := overChapter_eq_some hover
      exact backed_decideFromCliques hl (by simp) hmem (publishes_reason.mp hp)

/-! ### A single source -/

/-- A source that decides alone is not a server's. -/
theorem isServer_of_mayDecideAlone {c : Candidate} (h : mayDecideAlone c = true) : c.source.isServer = false := by
  unfold mayDecideAlone Source.agreementOnly at h
  cases hs : c.source <;> simp_all [Source.isServer]

theorem backed_decideAlone (hl : Readings mtype ctx l) {proposal : Candidate} {own : List Candidate}
    (hpl : proposal ∈ l) (hserver : proposal.source.isServer = false) (hown : proposal ∈ own)
    (hsub : ∀ c ∈ own, c ∈ l) (hp : (decideAlone mtype proposal own ctx).Publishes m) : Backed mtype l ctx m := by
  obtain ⟨o, ho, hosup, hval⟩ := saferOtherEdge_mem mtype ctx (List.ne_nil_of_mem hown)
  unfold decideAlone at hp
  dsimp only at hp
  split at hp
  · exact absurd hp not_publishes_noEvidence
  · split at hp
    · rename_i hsane
      rw [publishes_decided] at hp
      rw [hval] at hsane hp
      refine hp ▸ backed_composedMarker hl hpl hserver (List.mem_cons_self ..) (hsub o ho) ?_ hsane
      exact List.mem_cons_of_mem _ (List.mem_map_of_mem hosup)
    · split at hp
      · rw [publishes_decided] at hp
        exact hp ▸ backed_ownMarker hl hpl hserver
      · exact absurd hp not_publishes_noEvidence

theorem backed_decideOrPropose (hl : Readings mtype ctx l) {proposal best : Option Candidate} {reason : String}
    (h : ∀ p ∈ proposal, p ∈ l ∧ p.source.isServer = false)
    (hp : (decideOrPropose mtype proposal best reason ctx).Publishes m) : Backed mtype l ctx m := by
  unfold decideOrPropose at hp
  split at hp
  · rename_i p
    obtain ⟨hpl, hserver⟩ := h p rfl
    split at hp
    · rw [publishes_decided] at hp
      exact hp ▸ backed_ownMarker hl hpl hserver
    · exact absurd hp not_publishes_noEvidence
  · exact absurd hp not_publishes_noEvidence

theorem backed_decideUnsettled (hl : Readings mtype ctx l) {proposal : Option Candidate}
    (h : ∀ p ∈ proposal, p ∈ l ∧ p.source.isServer = false)
    (hp : (decideUnsettled mtype l (sortBy (sortKey ctx) l) proposal ctx).Publishes m) : Backed mtype l ctx m := by
  unfold decideUnsettled at hp
  split at hp
  · refine backed_decideOrPropose hl (fun p hfind => ⟨mem_sortBy.mp (List.mem_of_find?_eq_some hfind), ?_⟩) hp
    have htext := List.find?_some hfind
    simp only [Source.winsADisagreement, decide_eq_true_eq] at htext
    exact htext ▸ rfl
  · split at hp <;> exact backed_decideOrPropose hl h hp

theorem backed_decideFromSingleSource (hl : Readings mtype ctx l)
    (hp : (decideFromSingleSource mtype l ctx).Publishes m) : Backed mtype l ctx m := by
  unfold decideFromSingleSource at hp
  dsimp only at hp
  split at hp
  · rename_i p hfind
    have hpl : p ∈ l := mem_sortBy.mp (List.mem_of_find?_eq_some hfind)
    have hserver := isServer_of_mayDecideAlone (List.find?_some hfind)
    split at hp
    · exact backed_decideAlone hl hpl hserver (List.mem_filter.mpr ⟨hpl, decide_eq_true rfl⟩)
        (fun c hc => (List.mem_filter.mp hc).1) hp
    · exact backed_decideUnsettled hl (fun q hq => Option.some.inj hq ▸ ⟨hpl, hserver⟩) hp
  · exact backed_decideUnsettled hl (by simp) hp

/-! ### A file -/

theorem chosenChapter_eq_some {chosen : Candidate}
    (h : chosenChapter (l.filter fun c => c.source = .chapters) ctx = some chosen) :
    chosen ∈ l ∧ chosen.source = .chapters := by
  simpa using List.mem_filter.mp (argmin_mem h)

theorem backed_decideByRules (hl : Readings mtype ctx l) (hp : (decideByRules mtype l ctx).1.Publishes m) :
    Backed mtype l ctx m := by
  unfold decideByRules at hp
  dsimp only at hp
  split at hp
  · rename_i chosen hchosen
    obtain ⟨hc, hch⟩ := chosenChapter_eq_some hchosen
    exact backed_decideFromChapter hl hc hch (fun c hc => (List.mem_filter.mp hc).1) hp
  · dsimp only at hp
    split at hp
    · exact backed_decideFromSingleSource hl hp
    · rename_i hne
      exact backed_decideFromCliques hl hne (fun cl hcl => composable_of_mem_agreeingCliques hl.type_eq hcl) hp

/-- The guard publishes only what it is given, and only what no agreeing pair contradicts. -/
theorem publishes_guardContradicted {dec : TypeDecision} {pool : List Candidate}
    (h : (guardContradicted dec pool l ctx).Publishes m) :
    dec.Publishes m ∧ (restsOnCreditText m l ctx = true ∨ contradictingGroups m pool ctx = []) := by
  unfold guardContradicted at h
  split at h
  · rename_i m' hstatus hmarker
    have hpub : dec.Publishes m' := ⟨hstatus, hmarker⟩
    dsimp only at h
    split at h
    · rename_i hrests
      obtain rfl := Option.some.inj (hmarker.symm.trans h.2)
      exact ⟨h, .inl hrests⟩
    · split at h
      · rename_i hcontra
        obtain rfl := Option.some.inj (hmarker.symm.trans h.2)
        exact ⟨h, .inr hcontra⟩
      · exact absurd h not_publishes_noEvidence
  · rename_i hnot
    exact absurd h.2 (hnot m h.1)

theorem backed_decideType (hl : Readings mtype ctx l) {ofType : List Candidate}
    (hp : (decideType mtype ofType l ctx).Publishes m) : Backed mtype l ctx m := by
  unfold decideType at hp
  split at hp
  · exact absurd hp not_publishes_noEvidence
  · exact backed_decideByRules hl (publishes_guardContradicted hp).1

variable {e : Evidence} {locked : MarkerType → Option Marker}

theorem mem_ofType {candidates : List Candidate} {c : Candidate} (h : c ∈ ofType candidates mtype) :
    c ∈ candidates ∧ c.type = mtype := by
  simp only [ofType, List.mem_filter, decide_eq_true_eq] at h
  exact ⟨h.1.1, h.2⟩

/-- What the rules read of evidence. -/
theorem readings_onClock (e : Evidence) (ctx : DecisionContext) (mtype : MarkerType) :
    Readings mtype ctx (onClock e.candidates ctx mtype) := by
  have hfile : Readings mtype ctx (onFileClock (ofType e.candidates mtype) ctx) := by
    refine ⟨fun c hc => (mem_onFileClock hc).1, fun c hc => ?_, obj_inj_onFileClock fun a ha b hb => ?_⟩
    · obtain ⟨-, raw, hraw, hread⟩ := mem_onFileClock hc
      exact hread.type_eq.trans (mem_ofType hraw).2
    · exact e.obj_inj a (mem_ofType ha).1 b (mem_ofType hb).1
  exact hfile.subset fun c => mem_of_mem_withoutAnotherReleasesIntro

/-- Without a lock a type is decided by its rules. -/
theorem publishes_decideOne (hp : (decideOne e.candidates ctx locked mtype).Publishes m) (hu : m.locked = false) :
    (decideType mtype (ofType e.candidates mtype) (onClock e.candidates ctx mtype) ctx).Publishes m := by
  unfold decideOne at hp
  split at hp
  · rw [publishes_decided] at hp
    exact absurd hu (by simp [← hp])
  · split at hp
    · exact hp
    · exact absurd hp.1 (by simp)

theorem publishes_demoteUnlocked {dec : TypeDecision} {reason : String} (h : (demoteUnlocked dec reason).Publishes m) :
    dec.Publishes m := by
  unfold demoteUnlocked at h
  split at h
  · exact h
  · exact absurd h not_publishes_noEvidence

/-- The overlap checks publish nothing new. -/
theorem publishes_applyOverlapDemotions {out : MarkerType → TypeDecision}
    (h : (applyOverlapDemotions out mtype).Publishes m) : (out mtype).Publishes m := by
  cases mtype <;> simp only [applyOverlapDemotions] at h <;> first | exact h | skip
  all_goals
    split at h
    · exact publishes_demoteUnlocked h
    · exact h

theorem backed_decideUnshortened (hp : (decideUnshortened e.candidates ctx locked mtype).Publishes m)
    (hu : m.locked = false) : Backed mtype (onClock e.candidates ctx mtype) ctx m :=
  backed_decideType (readings_onClock e ctx mtype) (publishes_decideOne (publishes_applyOverlapDemotions hp) hu)

/-! ### Rule 7 -/

/-- What rule 7 makes of a decided marker `m`: a later start, from a server's own marker well
inside it. -/
structure ShortenedFrom (mtype : MarkerType) (l : List Candidate) (ctx : DecisionContext) (m m' : Marker) : Prop where
  /-- Only credits and previews are shortened. -/
  end_segment : mtype.isStartSegment = false
  /-- The start is a server's own. -/
  start : ∃ c ∈ l, c.source = .serverMarkers ∧ m'.startMs = c.startMs
  /-- It is well after the start decided. -/
  start_gt : m.startMs + toleranceMs m.type < m'.startMs
  /-- It is well before the end. -/
  start_lt : m'.startMs < m'.endMs - toleranceMs m.type
  /-- The rest is composed as it was. -/
  eq : m' = composedMarker mtype m'.startMs m.endMs (.serverMarkers :: m.decidedBy.filterMap Source.ofValue) ctx
  /-- The marker is sane. -/
  sane : markerIsSane m' ctx = true

/-- The latest offer is a start of one of the markers inside. -/
theorem latestOffer_eq_some {inside : List Candidate} {start : ℤ} (h : latestOffer inside = some start) :
    ∃ c ∈ inside, c.startMs = start := by
  obtain ⟨c, hc, rfl⟩ := List.mem_map.mp (List.max?_mem h)
  unfold firstStart
  cases hmin : ((inside.filter fun d => d.origin = c.origin).map (·.startMs)).min? with
  | none =>
    rw [List.min?_eq_none_iff, List.map_eq_nil_iff, List.filter_eq_nil_iff] at hmin
    exact absurd (by simp) (hmin c hc)
  | some v =>
    obtain ⟨o, ho, hov⟩ := List.mem_map.mp (List.min?_mem hmin)
    exact ⟨o, (List.mem_filter.mp ho).1, hov⟩

theorem publishes_shorten {dec : TypeDecision} {m' : Marker}
    (h : (shortenToServerMarkers dec l ctx).Publishes m') :
    dec.Publishes m' ∨ ∃ m, dec.Publishes m ∧ ShortenedFrom dec.type l ctx m m' := by
  unfold shortenToServerMarkers at h
  split at h
  · exact .inl h
  · rename_i m hm
    split at h
    · exact .inl h
    · rename_i hseg
      dsimp only at h
      split at h
      · exact .inl h
      · split at h
        · exact .inl h
        · rename_i start hoffer
          split at h
          · rename_i hsane
            obtain ⟨hstatus, hm'⟩ := h
            obtain rfl := Option.some.inj hm'
            have hedges : ∀ srcs, (composedMarker dec.type start m.endMs srcs ctx).startMs = start ∧
                (composedMarker dec.type start m.endMs srcs ctx).endMs = m.endMs := by
              simp [composedMarker, edges, hseg]
            obtain ⟨c, hc, rfl⟩ := latestOffer_eq_some hoffer
            simp only [startsInside, List.mem_filter, decide_eq_true_eq] at hc
            refine .inr ⟨m, ⟨hstatus, hm⟩, ⟨by simpa using hseg, ⟨c, hc.1.1, hc.1.2, (hedges _).1⟩, ?_, ?_, ?_, hsane⟩⟩
            · rw [(hedges _).1]; exact hc.2.1
            · rw [(hedges _).1, (hedges _).2]; exact hc.2.2
            · rw [(hedges _).1]
          · exact .inl h

/-- **Every marker decided**: backed as the rules left it, or shortened from one that is. -/
theorem publishes_decide (hp : (decide e.candidates ctx locked mtype).Publishes m) (hu : m.locked = false) :
    Backed mtype (onClock e.candidates ctx mtype) ctx m ∨
      ∃ m₀, (decideUnshortened e.candidates ctx locked mtype).Publishes m₀ ∧
        Backed mtype (onClock e.candidates ctx mtype) ctx m₀ ∧
        ShortenedFrom mtype (onClock e.candidates ctx mtype) ctx m₀ m := by
  unfold decide at hp
  dsimp only at hp
  split at hp
  · rename_i hunlocked
    rcases publishes_shorten hp with h | ⟨m₀, hm₀, hshort⟩
    · exact .inl (backed_decideUnshortened h hu)
    · rw [(outcomeOf_decideUnshortened ..).type_eq] at hshort
      have hu₀ : m₀.locked = false := by simpa [hm₀.2] using hunlocked.2
      exact .inr ⟨m₀, hm₀, backed_decideUnshortened hm₀ hu₀, hshort⟩
  · exact .inl (backed_decideUnshortened hp hu)

/-! ### What is published -/

theorem ShortenedFrom.type_eq {m' : Marker} (h : ShortenedFrom mtype l ctx m m') : m'.type = mtype := by
  rw [h.eq]
  rfl

theorem ShortenedFrom.endMs_eq {m' : Marker} (h : ShortenedFrom mtype l ctx m m') : m'.endMs = m.endMs := by
  rw [h.eq]
  simp [composedMarker, edges, h.end_segment]

/-- A shortened marker credits the servers, and every source it was decided by. -/
theorem ShortenedFrom.credits {m' : Marker} (h : ShortenedFrom mtype l ctx m m') {s : Source}
    (hs : s = .serverMarkers ∨ s.value ∈ m.decidedBy) : s.value ∈ m'.decidedBy := by
  rw [h.eq, value_mem_composedMarker, List.mem_cons, List.mem_filterMap]
  exact hs.imp_right fun hm => ⟨s.value, hm, Source.ofValue_value s⟩

/-- **Every marker the rules decide is plausible**, however its edges were put together: composed
from two candidates', moved by a chapter hint, read on the file's clock or shortened. -/
theorem decide_withinBounds (e : Evidence) (ctx : DecisionContext) (locked : MarkerType → Option Marker)
    (mtype : MarkerType) (m : Marker) (hp : (decide e.candidates ctx locked mtype).Publishes m)
    (hu : m.locked = false) : m.type = mtype ∧ Plausible mtype m.startMs m.endMs ctx := by
  rcases publishes_decide hp hu with h | ⟨m₀, -, h₀, hshort⟩
  · exact ⟨h.type_eq, h.bounds⟩
  · refine ⟨hshort.type_eq, ?_⟩
    have hplaus := plausible_of_markerIsSane hshort.sane (hshort.endMs_eq ▸ h₀.bounds.stop_le)
    rwa [hshort.type_eq] at hplaus

theorem decide_withinBounds_opening : openingIntro.type = .intro ∧
    Plausible .intro openingIntro.startMs openingIntro.endMs episodeCtx :=
  decide_withinBounds opening episodeCtx (fun _ => none) .intro openingIntro (by decide) rfl

/-- `c` is one of the type's sane candidates as read on the file's clock, and the marker is
credited to its source. -/
structure Credited (e : Evidence) (ctx : DecisionContext) (m : Marker) (c : Candidate) : Prop where
  /-- The rules read it. -/
  read : c ∈ onClock e.candidates ctx m.type
  /-- It is sane. -/
  sane : Sane c ctx
  /-- Its source is named. -/
  named : c.source.value ∈ m.decidedBy

/-- The start of credits or a preview is one a credited candidate outside the servers gave, the
target of a credit text answer's chapter hint, or (rule 7) a server's own, well inside what
was decided without it. -/
def StartGiven (e : Evidence) (ctx : DecisionContext) (locked : MarkerType → Option Marker) (m : Marker) : Prop :=
  (∃ c, Credited e ctx m c ∧ c.source.isServer = false ∧ m.startMs = c.startMs) ∨
    (∃ c, Credited e ctx m c ∧ c.source = .creditsText ∧
      ∃ chapterStart, readChapterHint c.origin = some (chapterStart, true, some m.startMs)) ∨
    ∃ m₀ c, (decideUnshortened e.candidates ctx locked m.type).Publishes m₀ ∧ Credited e ctx m c ∧
      c.source = .serverMarkers ∧ m.startMs = c.startMs ∧ m₀.startMs + 10000 < m.startMs ∧
      m.startMs < m.endMs - 10000

/-- Every edge of a marker comes from evidence it is credited to. -/
def EdgesGiven (e : Evidence) (ctx : DecisionContext) (locked : MarkerType → Option Marker) (m : Marker) : Prop :=
  match m.type with
  | .intro | .recap =>
    (∃ c, Credited e ctx m c ∧ c.source.isServer = false ∧ m.endMs = resolveEndMs c ctx.durationMs) ∧
      ∃ c, Credited e ctx m c ∧ m.startMs = c.startMs
  | .credits | .preview =>
    (∃ c, Credited e ctx m c ∧ m.endMs = resolveEndMs c ctx.durationMs) ∧ StartGiven e ctx locked m

/-- The rules' invariant gives every edge. -/
theorem Backed.edgesGiven (h : Backed mtype (onClock e.candidates ctx mtype) ctx m) : EdgesGiven e ctx locked m := by
  obtain rfl := h.type_eq
  have hread := readings_onClock e ctx m.type
  have hcred : ∀ c ∈ onClock e.candidates ctx m.type, c.source.value ∈ m.decidedBy → Credited e ctx m c :=
    fun c hc hm => ⟨hc, hread.sane c hc, hm⟩
  obtain ⟨o, ho, hom, hoval⟩ := h.other
  unfold EdgesGiven
  by_cases hseg : m.type.isStartSegment = true
  · have hgoal : (∃ c, Credited e ctx m c ∧ c.source.isServer = false ∧ m.endMs = resolveEndMs c ctx.durationMs) ∧
        ∃ c, Credited e ctx m c ∧ m.startMs = c.startMs := by
      refine ⟨?_, o, hcred o ho hom, by simpa [otherEdge, otherValue, hseg] using hoval⟩
      rcases h.checked with ⟨c, hc, hs, hm, hval⟩ | ⟨ht, -⟩
      · exact ⟨c, hcred c hc hm, hs, by simpa [checkedValue, agreeValue, hread.type_eq c hc, hseg] using hval⟩
      · rw [ht] at hseg
        exact absurd hseg (by decide)
    split <;> simp_all [MarkerType.isStartSegment]
  · have hgoal : (∃ c, Credited e ctx m c ∧ m.endMs = resolveEndMs c ctx.durationMs) ∧ StartGiven e ctx locked m := by
      refine ⟨⟨o, hcred o ho hom, by simpa [otherEdge, otherValue, hseg] using hoval⟩, ?_⟩
      rcases h.checked with ⟨c, hc, hs, hm, hval⟩ | ⟨-, hm, c, hc, hs, hhint⟩
      · exact .inl ⟨c, hcred c hc hm, hs, by simpa [checkedValue, agreeValue, hread.type_eq c hc, hseg] using hval⟩
      · exact .inr (.inl ⟨c, hcred c hc (hs ▸ hm), hs, hhint⟩)
    split <;> simp_all [MarkerType.isStartSegment]

/-- A shortened marker's edges are given: the end it had, the server's start. -/
theorem ShortenedFrom.edgesGiven {m' : Marker} (h : ShortenedFrom mtype (onClock e.candidates ctx mtype) ctx m m')
    (hb : Backed mtype (onClock e.candidates ctx mtype) ctx m)
    (hp : (decideUnshortened e.candidates ctx locked mtype).Publishes m) : EdgesGiven e ctx locked m' := by
  obtain rfl := h.type_eq
  have hread := readings_onClock e ctx m'.type
  have htol : toleranceMs m.type = 10000 := by
    rw [hb.type_eq, toleranceMs, h.end_segment]
    rfl
  obtain ⟨c, hc, hs, hstart⟩ := h.start
  obtain ⟨o, ho, hom, hoval⟩ := hb.other
  have hstop : m'.endMs = resolveEndMs o ctx.durationMs := by
    rw [h.endMs_eq]
    simpa [otherEdge, otherValue, h.end_segment] using hoval
  have hgoal : (∃ c, Credited e ctx m' c ∧ m'.endMs = resolveEndMs c ctx.durationMs) ∧ StartGiven e ctx locked m' :=
    ⟨⟨o, ⟨ho, hread.sane o ho, h.credits (.inr hom)⟩, hstop⟩,
      .inr (.inr ⟨m, c, hp, ⟨hc, hread.sane c hc, h.credits (.inl hs)⟩, hs, hstart,
        htol ▸ h.start_gt, htol ▸ h.start_lt⟩)⟩
  have hseg := h.end_segment
  unfold EdgesGiven
  split <;> simp_all [MarkerType.isStartSegment]

/-- **No edge is invented, and servers never decide alone**: an unlocked marker names a source that
is not a server's, and its edges come from the evidence it names. -/
theorem decide_edgesGiven (e : Evidence) (ctx : DecisionContext) (locked : MarkerType → Option Marker)
    (mtype : MarkerType) (m : Marker) (hp : (decide e.candidates ctx locked mtype).Publishes m)
    (hu : m.locked = false) :
    m.type = mtype ∧ (∃ s : Source, s.isServer = false ∧ s.value ∈ m.decidedBy) ∧ EdgesGiven e ctx locked m := by
  rcases publishes_decide hp hu with h | ⟨m₀, hp₀, h₀, hshort⟩
  · exact ⟨h.type_eq, h.checked.exists_source, h.edgesGiven⟩
  · obtain ⟨s, hs, hm⟩ := h₀.checked.exists_source
    exact ⟨hshort.type_eq, ⟨s, hs, hshort.credits (.inr hm)⟩, hshort.edgesGiven h₀ hp₀⟩

theorem decide_edgesGiven_opening : openingIntro.type = .intro ∧
    (∃ s : Source, s.isServer = false ∧ s.value ∈ openingIntro.decidedBy) ∧
    EdgesGiven opening episodeCtx (fun _ => none) openingIntro :=
  decide_edgesGiven opening episodeCtx (fun _ => none) .intro openingIntro (by decide) rfl

end MediaPreview.Markers
