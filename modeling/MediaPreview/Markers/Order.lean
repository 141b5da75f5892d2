import MediaPreview.Markers.Guard

/-!
# The order candidates arrive in

`decide` gives the same decisions for every order of the evidence (`decide_perm`). Ties
are the whole difficulty: a stable sort or a `min` keeps whichever of two equally ranked
candidates came first. Candidates the rules choose by rank are `Alike`: they publish the
same marker and stand for the same group. So each rule's decision is determined by the
elements of what it is given, and its clusters by their elements in turn
(`composeCluster_congr`, `decideFromCliques_congr`).
-/

namespace MediaPreview.Markers

open Ranking Window

variable {mtype : MarkerType} {ctx : DecisionContext}

/-- Two candidates the rules cannot tell apart, whichever they choose. -/
structure Alike (ctx : DecisionContext) (a b : Candidate) : Prop extends Ties ctx a b where
  /-- They rank alike. -/
  key_eq : sortKey ctx a = sortKey ctx b
  /-- They stand for one group. -/
  group_eq : group a = group b

theorem Alike.refl (ctx : DecisionContext) (a : Candidate) : Alike ctx a a := ⟨⟨rfl, rfl, rfl, rfl⟩, rfl, rfl⟩

theorem Alike.agree_eq {a b : Candidate} (h : Alike ctx a b) (c : Candidate) :
    agree a c ctx.durationMs = agree b c ctx.durationMs := by
  unfold agree
  rw [h.agreeValue_eq, h.type_eq]

/-- Candidates of one type that rank alike are alike, if they are not a server's. -/
theorem alike_of_sortKey_eq {a b : Candidate} (ht : a.type = b.type) (hs : a.source.isServer = false)
    (h : sortKey ctx a = sortKey ctx b) : Alike ctx a b :=
  have hties := ties_of_sortKey_eq ht h
  ⟨hties, h, hties.group_eq hs⟩

/-! ### Composing a cluster -/

section Cluster

variable (mtype : MarkerType) (ctx : DecisionContext) {c₁ c₂ : List Candidate} (h : SameElems c₁ c₂)

include h

theorem confirmedOf_congr : SameElems (confirmedOf c₁ ctx) (confirmedOf c₂ ctx) := by
  intro c
  simp only [mem_confirmedOf, h _]

theorem confirmedNonServer_congr : SameElems (confirmedNonServer c₁ ctx) (confirmedNonServer c₂ ctx) :=
  (confirmedOf_congr ctx h).filter _

theorem edgePool_congr : SameElems (edgePool c₁ mtype ctx) (edgePool c₂ mtype ctx) := by
  have hconf := confirmedOf_congr ctx h
  have hmatch : ∀ c, partialSeasonMatch c (confirmedOf c₁ ctx) = partialSeasonMatch c (confirmedOf c₂ ctx) := by
    intro c
    unfold partialSeasonMatch
    rw [hconf.any_eq]
  have hpool : SameElems
      (if mtype.isStartSegment then (confirmedOf c₁ ctx).filter fun c => !partialSeasonMatch c (confirmedOf c₁ ctx) else [])
      (if mtype.isStartSegment then (confirmedOf c₂ ctx).filter fun c => !partialSeasonMatch c (confirmedOf c₂ ctx) else []) := by
    simp only [hmatch]
    split
    · exact hconf.filter _
    · exact .refl _
  have hfallback : ∀ p₁ p₂ : List Candidate, SameElems p₁ p₂ →
      SameElems (if p₁ = [] then confirmedOf c₁ ctx else p₁) (if p₂ = [] then confirmedOf c₂ ctx else p₂) := by
    intro p₁ p₂ hp
    by_cases hnil : p₁ = []
    · rw [if_pos hnil, if_pos (hp.eq_nil_iff.mp hnil)]
      exact hconf
    · rw [if_neg hnil, if_neg (hp.eq_nil_iff.not.mp hnil)]
      exact hp
  exact hfallback _ _ hpool

theorem saferOtherEdge_congr : (saferOtherEdge mtype c₁ ctx).1 = (saferOtherEdge mtype c₂ ctx).1 ∧
    SameElems (saferOtherEdge mtype c₁ ctx).2 (saferOtherEdge mtype c₂ ctx).2 := by
  unfold saferOtherEdge
  split
  · have hmax := (h.map (·.startMs)).max?_eq
    dsimp only
    rw [hmax]
    exact ⟨rfl, h.filter _⟩
  · have hmin := (h.map (resolveEndMs · ctx.durationMs)).min?_eq
    dsimp only
    rw [hmin]
    exact ⟨rfl, h.filter _⟩

/-- A cluster's winner is determined up to what it publishes. -/
theorem clusterWinner_congr (ht : ∀ c ∈ c₁, c.type = mtype) (textStart : Bool) :
    Alike ctx (clusterWinner c₁ mtype ctx textStart) (clusterWinner c₂ mtype ctx textStart) := by
  have hconf := confirmedNonServer_congr ctx h
  have hmem : ∀ c, c ∈ confirmedNonServer c₁ ctx → c.type = mtype ∧ c.source.isServer = false := by
    intro c hc
    obtain ⟨hc, hs⟩ := mem_confirmedNonServer.mp hc
    exact ⟨ht c (mem_confirmedOf.mp hc).1, hs⟩
  have halike : ∀ a b, sortKey ctx a = sortKey ctx b → a ∈ confirmedNonServer c₁ ctx →
      b ∈ confirmedNonServer c₂ ctx → Alike ctx a b := by
    intro a b hkey ha hb
    have hb := hmem b ((hconf b).mpr hb)
    exact alike_of_sortKey_eq ((hmem a ha).1.trans hb.1.symm) (hmem a ha).2 hkey
  have hwinner : ∀ fileEdge, Alike ctx
      (((confirmedNonServer c₁ ctx).argmin (winnerKey fileEdge textStart ctx)).getD default)
      (((confirmedNonServer c₂ ctx).argmin (winnerKey fileEdge textStart ctx)).getD default) := by
    intro fileEdge
    have hrel := argmin_rel (winnerKey fileEdge textStart ctx) hconf
    generalize (confirmedNonServer c₁ ctx).argmin (winnerKey fileEdge textStart ctx) = o₁,
      (confirmedNonServer c₂ ctx).argmin (winnerKey fileEdge textStart ctx) = o₂ at hrel ⊢
    cases hrel with
    | none => exact .refl ctx default
    | some hab =>
      obtain ⟨hkey, ha, hb⟩ := hab
      simp only [winnerKey, toLex_inj, Prod.mk.injEq] at hkey
      exact halike _ _ hkey.2.2 ha hb
  unfold clusterWinner
  dsimp only
  rw [hconf.any_eq]
  split
  · have hrel := argmin_rel (sortKey ctx) (hconf.filter fun c => Decidable.decide (c.source = .creditsText))
    generalize ((confirmedNonServer c₁ ctx).filter fun c => Decidable.decide (c.source = .creditsText)).argmin
        (sortKey ctx) = o₁,
      ((confirmedNonServer c₂ ctx).filter fun c => Decidable.decide (c.source = .creditsText)).argmin
        (sortKey ctx) = o₂ at hrel ⊢
    cases hrel with
    | none => exact hwinner _
    | some hab =>
      have htext := halike _ _ hab.1 (List.mem_filter.mp hab.2.1).1 (List.mem_filter.mp hab.2.2).1
      dsimp only
      rw [htext.startMs_eq, (hwinner _).startMs_eq]
      split
      · exact htext
      · exact hwinner _
  · exact hwinner _

/-- **What a cluster publishes is determined by its members.** -/
theorem composeCluster_congr (ht : ∀ c ∈ c₁, c.type = mtype) (textStart : Bool) :
    (composeCluster c₁ mtype ctx textStart).1 = (composeCluster c₂ mtype ctx textStart).1 ∧
      Alike ctx (composeCluster c₁ mtype ctx textStart).2 (composeCluster c₂ mtype ctx textStart).2 := by
  have hw := clusterWinner_congr mtype ctx h ht textStart
  refine ⟨?_, hw⟩
  have hedge := saferOtherEdge_congr mtype ctx (edgePool_congr mtype ctx h)
  have hagree : SameElems ((confirmedOf c₁ ctx).filter fun c => agree (clusterWinner c₁ mtype ctx textStart) c ctx.durationMs)
      ((confirmedOf c₂ ctx).filter fun c => agree (clusterWinner c₂ mtype ctx textStart) c ctx.durationMs) := by
    simp only [hw.agree_eq]
    exact (confirmedOf_congr ctx h).filter _
  simp only [composeCluster, hw.agreeValue_eq, hedge.1]
  refine composedMarker_congr ?_
  simp only [List.map_cons, hw.source_eq]
  exact ((hedge.2.append hagree).map _).cons _

end Cluster

/-! ### The clusters -/

/-- The windows of `agreeingCliques` hold the same candidates, whatever their order. -/
theorem agreeingCliques_perm (mtype : MarkerType) (ctx : DecisionContext) {l₁ l₂ : List Candidate} (h : l₁.Perm l₂) :
    List.Forall₂ List.Perm (agreeingCliques l₁ mtype ctx) (agreeingCliques l₂ mtype ctx) := by
  have hperm : (byValue l₁ ctx).Perm (byValue l₂ ctx) :=
    ((sortBy_perm _ l₁).trans h).trans (sortBy_perm _ l₂).symm
  have hkeys := map_sortBy_congr (fun c => toLex (agreeValue c ctx.durationMs, sortKey ctx c)) h
  have hvalues : (byValue l₁ ctx).map (fun c => agreeValue c ctx.durationMs) =
      (byValue l₂ ctx).map fun c => agreeValue c ctx.durationMs := by
    simpa only [byValue, List.map_map, Function.comp_def, ofLex_toLex] using congrArg (List.map fun k => (ofLex k).1) hkeys
  unfold agreeingCliques
  dsimp only
  rw [valueAt_congr hvalues, hperm.length_eq]
  refine forall₂_filterMap fun w hw => ?_
  rw [mem_slidingWindows (valueAt_mono (pairwise_byValue l₂ ctx)) (toleranceMs_pos mtype).le] at hw
  have hw₁ := hw
  rw [← valueAt_congr hvalues, ← hperm.length_eq] at hw₁
  have hslice : (slice (byValue l₁ ctx) w).Perm (slice (byValue l₂ ctx) w) := by
    rw [slice_eq_filter (pairwise_byValue l₁ ctx) hw₁, slice_eq_filter (pairwise_byValue l₂ ctx) hw,
      valueAt_congr hvalues]
    exact hperm.filter _
  have hclique : isClique (slice (byValue l₁ ctx) w) = isClique (slice (byValue l₂ ctx) w) := by
    have hsame := SameElems.of_perm hslice
    unfold isClique
    rw [(hsame.map group).length_dedup_eq, hsame.any_eq]
  rw [hclique]
  split
  · exact .some (((sortBy_perm _ _).trans hslice).trans (sortBy_perm _ _).symm)
  · exact .none

theorem creditTextWithOwnMarker_rel (ctx : DecisionContext) {c₁ c₂ : List Candidate} (h : SameElems c₁ c₂) (ht : ∀ c ∈ c₁, c.type = mtype) :
    Option.Rel (Ties ctx) (creditTextWithOwnMarker c₁ ctx) (creditTextWithOwnMarker c₂ ctx) := by
  unfold creditTextWithOwnMarker
  split
  · exact .none
  · refine rel_imp (argmin_rel _ (h.filter _)) fun a b hab => ?_
    have ha := ht a (List.mem_filter.mp hab.2.1).1
    have hb := ht b ((h b).mpr (List.mem_filter.mp hab.2.2).1)
    exact ties_of_sortKey_eq (ha.trans hb.symm) hab.1

theorem decideMerged_congr {c₁ c₂ : List Candidate} (h : SameElems c₁ c₂) (ht : ∀ c ∈ c₁, c.type = mtype)
    (textStart : Bool) (outvoted : String) :
    decideMerged mtype c₁ ctx textStart outvoted = decideMerged mtype c₂ ctx textStart outvoted := by
  obtain ⟨hmarker, hwinner⟩ := composeCluster_congr mtype ctx h ht textStart
  have htext := creditTextWithOwnMarker_rel ctx h ht
  have hothers : ∀ p : Source → Bool, (c₁.map (·.source)).filter p ≠ [] ↔ (c₂.map (·.source)).filter p ≠ [] :=
    fun p => ((h.map (·.source)).filter p).eq_nil_iff.not
  unfold decideMerged
  simp only [hmarker, hwinner.source_eq, hothers, hwinner.ownMarker_eq]
  split
  · rfl
  · generalize creditTextWithOwnMarker c₁ ctx = o₁, creditTextWithOwnMarker c₂ ctx = o₂ at htext
    cases htext with
    | none => rfl
    | some hab => simp only [hab.ownMarker_eq, hab.source_eq]

/-- Clusters merged have the same members, each once. -/
theorem decideMerged_flatten_congr {l : List Candidate} (hl : Readings mtype ctx l) {cl₁ cl₂ : List (List Candidate)}
    (hsub : ∀ cl ∈ cl₁, ∀ c ∈ cl, c ∈ l) (h : List.Forall₂ SameElems cl₁ cl₂) (textStart : Bool) (outvoted : String) :
    decideMerged mtype (distinctObjects cl₁.flatten) ctx textStart outvoted =
      decideMerged mtype (distinctObjects cl₂.flatten) ctx textStart outvoted := by
  have hflat := SameElems.flatten h
  have hsub₁ : ∀ c ∈ cl₁.flatten, c ∈ l := by
    intro c hc
    obtain ⟨cl, hcl, hc⟩ := List.mem_flatten.mp hc
    exact hsub cl hcl c hc
  have hd₁ := sameElems_distinctObjects (hl.subset hsub₁).obj_inj
  have hd₂ := sameElems_distinctObjects (hl.subset fun c hc => hsub₁ c ((hflat c).mpr hc)).obj_inj
  refine decideMerged_congr ((hd₁.trans hflat).trans hd₂.symm) (fun c hc => ?_) textStart outvoted
  exact hl.type_eq c (hsub₁ c ((hd₁ c).mp hc))

/-- **What clusters decide is determined by their members.** -/
theorem decideFromCliques_congr {l : List Candidate} (hl : Readings mtype ctx l) {cl₁ cl₂ : List (List Candidate)}
    (h : List.Forall₂ SameElems cl₁ cl₂) (hsub : ∀ cl ∈ cl₁, ∀ c ∈ cl, c ∈ l) (textStart : Bool) :
    decideFromCliques mtype cl₁ ctx textStart = decideFromCliques mtype cl₂ ctx textStart := by
  have hcomposed : List.Forall₂ (fun a b : Marker × Candidate => a.1 = b.1 ∧ Alike ctx a.2 b.2)
      (cl₁.map fun cl => composeCluster cl mtype ctx textStart)
      (cl₂.map fun cl => composeCluster cl mtype ctx textStart) := by
    rw [List.forall₂_map_left_iff, List.forall₂_map_right_iff]
    refine ((List.forall₂_and_left (p := fun cl => cl ∈ cl₁) cl₁ cl₂).mpr ⟨fun _ h => h, h⟩).imp fun a b hab => ?_
    exact composeCluster_congr mtype ctx hab.2 (fun c hc => hl.type_eq c (hsub a hab.1 c hc)) textStart
  have hvalues : (cl₁.map fun cl => composeCluster cl mtype ctx textStart).map (fun mw => checkedValue mtype mw.1) =
      (cl₂.map fun cl => composeCluster cl mtype ctx textStart).map fun mw => checkedValue mtype mw.1 :=
    map_eq_of_forall₂ hcomposed fun a b hab => by rw [hab.1]
  have hranked := forall₂_sortBy (f := fun mw => sortKey ctx mw.2) (g := fun mw => sortKey ctx mw.2)
    (fun a b hab => hab.2.key_eq) hcomposed
  have hnames := map_eq_of_forall₂ (f := fun mw : Marker × Candidate => (group mw.2).name)
    (g := fun mw => (group mw.2).name) hranked fun a b hab => by rw [hab.2.group_eq]
  have hbest := map_eq_of_rel (f := Prod.fst) (g := Prod.fst) (head?_rel hranked) fun a b hab => hab.1
  have hread : List.Forall₂ SameElems (cl₁.filter fun cl => cl.any fun c => c.source.winsADisagreement)
      (cl₂.filter fun cl => cl.any fun c => c.source.winsADisagreement) :=
    List.rel_filter (fun a b hab => by simp only [hab.any_eq]) h
  unfold decideFromCliques
  dsimp only
  rw [hvalues, hnames, hbest, hread.length_eq]
  split
  · split
    · rfl
    · exact decideMerged_flatten_congr hl (fun cl hcl => hsub cl (List.mem_filter.mp hcl).1) hread textStart _
  · exact decideMerged_flatten_congr hl hsub h textStart _

/-! ### Chapters -/

section Chapters

variable {l : List Candidate} (hl : Readings mtype ctx l)

theorem audioShouldCheckChapter_congr {o₁ o₂ : List Candidate} (h : SameElems o₁ o₂) (chapter : Marker) :
    audioShouldCheckChapter chapter o₁ ctx = audioShouldCheckChapter chapter o₂ ctx := by
  unfold audioShouldCheckChapter
  simp only [h.any_eq]

theorem textShouldCheckChapter_congr {o₁ o₂ : List Candidate} (h : SameElems o₁ o₂) (value : ℤ) :
    textShouldCheckChapter value o₁ ctx = textShouldCheckChapter value o₂ ctx := by
  unfold textShouldCheckChapter
  simp only [h.any_eq]

/-- Only a lone answer moves a chapter, so no order of several is asked. -/
theorem textMovesChapter_congr {o₁ o₂ : List Candidate} (h : o₁.Perm o₂) {a b : Candidate} (hab : Ties ctx a b)
    (chapter : Marker) : textMovesChapter a chapter o₁ ctx = textMovesChapter b chapter o₂ ctx := by
  have hmoving : (movingAnswers a o₁).Perm (movingAnswers b o₂) := by
    unfold movingAnswers
    rw [hab.startMs_eq]
    exact h.filterMap _
  have hany := (SameElems.of_perm h).any_eq
  unfold textMovesChapter
  dsimp only
  generalize movingAnswers a o₁ = m₁, movingAnswers b o₂ = m₂ at hmoving
  match m₁, m₂, hmoving with
  | [], m₂, hp => rw [← hp.nil_eq]
  | [x], m₂, hp => rw [List.singleton_perm.mp hp]; simp only [hany]
  | x :: y :: m₁, m₂, hp =>
    match m₂, hp.length_eq with
    | x' :: y' :: m₂, _ => rfl

theorem contradictedChapter_congr {o₁ o₂ : List Candidate} (h : o₁.Perm o₂) (chapter : Marker) (names : List String) :
    contradictedChapter mtype chapter names o₁ ctx = contradictedChapter mtype chapter names o₂ ctx := by
  have hreads := h.filter fun c => c.source.winsADisagreement &&
    Decidable.decide (|agreeValue c ctx.durationMs - checkedValue mtype chapter| ≤ toleranceMs mtype)
  -- they are all credit text: one label, however many times
  have hlabel : ∀ o : List Candidate, ∀ s ∈ (o.filter fun c => c.source.winsADisagreement &&
      Decidable.decide (|agreeValue c ctx.durationMs - checkedValue mtype chapter| ≤ toleranceMs mtype)).map
        (fun c => sourceLabel c.source), s = sourceLabel .creditsText := by
    intro o s hs
    obtain ⟨c, hc, rfl⟩ := List.mem_map.mp hs
    have hc := (List.mem_filter.mp hc).2
    simp only [Source.winsADisagreement, Bool.and_eq_true, decide_eq_true_eq] at hc
    rw [hc.1]
  have hlabels := (List.eq_replicate_of_mem (hlabel o₁)).trans
    ((congrArg (List.replicate · _) (hreads.map _).length_eq).trans (List.eq_replicate_of_mem (hlabel o₂)).symm)
  unfold contradictedChapter
  dsimp only
  rw [if_congr (SameElems.of_perm hreads).eq_nil_iff rfl rfl, hlabels,
    composedMarker_congr (((SameElems.of_perm hreads).map (·.source)).cons .chapters)]

theorem chapterMarker_congr {a₁ a₂ : List Candidate} (h : SameElems a₁ a₂) (chapter : Marker) (suspect : Bool) :
    chapterMarker mtype chapter a₁ suspect ctx = chapterMarker mtype chapter a₂ suspect ctx := by
  unfold chapterMarker
  dsimp only
  rw [(h.map group).length_dedup_eq, (saferOtherEdge_congr mtype ctx h).1,
    composedMarker_congr ((h.map (·.source)).cons .chapters), composedMarker_congr ((h.map (·.source)).cons .chapters)]

theorem chapterStands_congr {o₁ o₂ : List Candidate} (h : SameElems o₁ o₂) (chapter : Marker) :
    chapterStands mtype chapter o₁ ctx = chapterStands mtype chapter o₂ ctx := by
  have hagreeing : SameElems (agreeingWith mtype chapter o₁ ctx) (agreeingWith mtype chapter o₂ ctx) := h.filter _
  unfold chapterStands
  simp only [hagreeing.all_eq, chapterMarker_congr hagreeing]

theorem uncontradictedChapter_congr {o₁ o₂ : List Candidate} (h : o₁.Perm o₂) {a b : Candidate}
    (hab : Ties ctx a b) : uncontradictedChapter mtype a o₁ ctx = uncontradictedChapter mtype b o₂ ctx := by
  have hsame := SameElems.of_perm h
  unfold uncontradictedChapter
  simp only [hab.ownMarker_eq, textShouldCheckChapter_congr hsame, audioShouldCheckChapter_congr hsame,
    textMovesChapter_congr h hab, chapterStands_congr hsame]

include hl

theorem contradictingClusters_congr {o₁ o₂ : List Candidate} (h : o₁.Perm o₂) (hsub : ∀ c ∈ o₁, c ∈ l)
    (chapter : Marker) : List.Forall₂ (fun a b => SameElems a.1 b.1 ∧ a.2 = b.2)
      (contradictingClusters mtype chapter o₁ ctx) (contradictingClusters mtype chapter o₂ ctx) := by
  have hcliques := agreeingCliques_perm mtype ctx h
  have htype := (hl.subset hsub).type_eq
  unfold contradictingClusters
  refine List.rel_filter (fun a b hab => by simp only [hab.2]) ?_
  rw [List.forall₂_map_left_iff, List.forall₂_map_right_iff]
  refine ((List.forall₂_and_left (p := fun cl => cl ∈ agreeingCliques o₁ mtype ctx) _ _).mpr
    ⟨fun _ h => h, hcliques⟩).imp fun a b hab => ⟨SameElems.of_perm hab.2, ?_⟩
  refine (composeCluster_congr mtype ctx (SameElems.of_perm hab.2) (fun c hc => ?_) _).1
  exact htype c ((composable_of_mem_agreeingCliques htype hab.1).subset c hc)

theorem overChapter_congr {cl₁ cl₂ : List (List Candidate)} (h : List.Forall₂ SameElems cl₁ cl₂)
    (hsub : ∀ cl ∈ cl₁, ∀ c ∈ cl, c ∈ l) (chapter : Marker) :
    overChapter mtype cl₁ chapter ctx = overChapter mtype cl₂ chapter ctx := by
  have hall : ∀ p q : Candidate → Bool, (cl₁.all fun cl => cl.any p && cl.any q) = cl₂.all fun cl => cl.any p && cl.any q :=
    fun p q => all_eq_of_forall₂ h fun a b hab => by rw [hab.any_eq, hab.any_eq]
  cases mtype with
  | intro => simp only [overChapter, audioOverChapter, hall, decideFromCliques_congr hl h hsub]
  | credits => simp only [overChapter, textOverChapter, hall, decideFromCliques_congr hl h hsub]
  | recap => rfl
  | preview => rfl

/-- **What a chapter decides is determined by its edges and the other candidates.** -/
theorem decideFromChapter_congr {o₁ o₂ : List Candidate} (h : o₁.Perm o₂) (hsub : ∀ c ∈ o₁, c ∈ l)
    {a b : Candidate} (hab : Ties ctx a b) :
    decideFromChapter mtype a o₁ ctx = decideFromChapter mtype b o₂ ctx := by
  have hcontra := contradictingClusters_congr hl h hsub (ownMarker b ctx)
  have hmem : ∀ cm ∈ contradictingClusters mtype (ownMarker b ctx) o₁ ctx, ∀ c ∈ cm.1, c ∈ l := fun cm hcm c hc =>
    hsub c ((composable_of_mem_agreeingCliques (hl.subset hsub).type_eq (mem_contradictingClusters hcm)).subset c hc)
  unfold decideFromChapter
  dsimp only
  rw [hab.ownMarker_eq, uncontradictedChapter_congr h hab]
  generalize contradictingClusters mtype (ownMarker b ctx) o₁ ctx = k₁,
    contradictingClusters mtype (ownMarker b ctx) o₂ ctx = k₂ at hcontra hmem
  cases hcontra with
  | nil => rfl
  | @cons x y xs ys hxy hrest =>
    have hclusters : List.Forall₂ SameElems ((x :: xs).map Prod.fst) ((y :: ys).map Prod.fst) := by
      have hall : List.Forall₂ (fun a b : List Candidate × Marker => SameElems a.1 b.1 ∧ a.2 = b.2) (x :: xs) (y :: ys) :=
        .cons hxy hrest
      rw [List.forall₂_map_left_iff, List.forall₂_map_right_iff]
      exact hall.imp fun _ _ h => h.1
    have hsub' : ∀ cl ∈ (x :: xs).map Prod.fst, ∀ c ∈ cl, c ∈ l := by
      intro cl hcl
      obtain ⟨cm, hcm, rfl⟩ := List.mem_map.mp hcl
      exact hmem cm hcm
    dsimp only
    rw [overChapter_congr hl hclusters hsub', hxy.2, contradictedChapter_congr h]

end Chapters

/-! ### A single source -/

/-- Whether all pairs agree does not depend on which come first. -/
theorem allAgree_congr {c₁ c₂ : List Candidate} (h : SameElems c₁ c₂) (ht : ∀ c ∈ c₁, c.type = mtype) :
    ((pairs c₁).all fun p => agree p.1 p.2 ctx.durationMs) = (pairs c₂).all fun p => agree p.1 p.2 ctx.durationMs := by
  have hiff : ∀ {c : List Candidate}, (∀ a ∈ c, a.type = mtype) →
      (((pairs c).all fun p => agree p.1 p.2 ctx.durationMs) = true ↔
        ∀ a ∈ c, ∀ b ∈ c, agree a b ctx.durationMs = true) := by
    intro c hc
    have hself : ∀ a, agree a a ctx.durationMs = true := by
      intro a
      simpa [agree] using (toleranceMs_pos a.type).le
    have hex := exists_mem_pairs_iff (l := c) (R := fun a b => ¬ agree a b ctx.durationMs = true)
      (fun a ha b hb hab => by rwa [agree_comm ((hc b hb).trans (hc a ha).symm)]) (fun a _ => not_not.mpr (hself a))
    rw [List.all_eq_true, ← not_iff_not]
    push Not
    exact hex
  rw [Bool.eq_iff_iff, hiff ht, hiff fun a ha => ht a ((h a).mpr ha)]
  simp only [h _]

/-- Nor does whether some pair of different groups disagrees. -/
theorem anyDisagree_congr {c₁ c₂ : List Candidate} (h : SameElems c₁ c₂) (ht : ∀ c ∈ c₁, c.type = mtype) :
    ((pairs c₁).any fun p => group p.1 ≠ group p.2 && !agree p.1 p.2 ctx.durationMs) =
      (pairs c₂).any fun p => group p.1 ≠ group p.2 && !agree p.1 p.2 ctx.durationMs := by
  have hiff : ∀ {c : List Candidate}, (∀ a ∈ c, a.type = mtype) →
      (((pairs c).any fun p => group p.1 ≠ group p.2 && !agree p.1 p.2 ctx.durationMs) = true ↔
        ∃ a ∈ c, ∃ b ∈ c, group a ≠ group b ∧ ¬ agree a b ctx.durationMs = true) := by
    intro c hc
    have hex := exists_mem_pairs_iff (l := c) (R := fun a b => group a ≠ group b ∧ ¬ agree a b ctx.durationMs = true)
      (fun a ha b hb hab => ⟨hab.1.symm, by rw [agree_comm ((hc b hb).trans (hc a ha).symm)]; exact hab.2⟩)
      (fun a _ hab => hab.1 rfl)
    rw [List.any_eq_true, ← hex]
    simp only [Bool.and_eq_true, decide_eq_true_eq, Bool.not_eq_true', Bool.not_eq_true]
  rw [Bool.eq_iff_iff, hiff ht, hiff fun a ha => ht a ((h a).mpr ha)]
  simp only [h _]

theorem decideAlone_congr {c₁ c₂ : List Candidate} (h : SameElems c₁ c₂) (ht : ∀ c ∈ c₁, c.type = mtype)
    {a b : Candidate} (hab : Ties ctx a b) : decideAlone mtype a c₁ ctx = decideAlone mtype b c₂ ctx := by
  have hother := saferOtherEdge_congr mtype ctx h
  unfold decideAlone
  simp only [allAgree_congr h ht, hab.ownMarker_eq, hab.source_eq, hab.agreeValue_eq, hother.1,
    composedMarker_congr ((hother.2.map (·.source)).cons b.source)]

theorem decideOrPropose_congr {p₁ p₂ b₁ b₂ : Option Candidate} (hp : Option.Rel (Ties ctx) p₁ p₂)
    (hb : Option.Rel (Ties ctx) b₁ b₂) (reason : String) :
    decideOrPropose mtype p₁ b₁ reason ctx = decideOrPropose mtype p₂ b₂ reason ctx := by
  have hbest := map_eq_of_rel (f := (ownMarker · ctx)) (g := (ownMarker · ctx)) hb fun _ _ h => h.ownMarker_eq
  unfold decideOrPropose
  cases hp with
  | none => simp only [hbest]
  | some hab => simp only [hbest, hab.ownMarker_eq, hab.source_eq]

/-- Ranked candidates are tied with those of any other order, place by place. -/
theorem ranked_congr {l₁ l₂ : List Candidate} (hl : Readings mtype ctx l₁) (h : l₁.Perm l₂) :
    List.Forall₂ (Ties ctx) (sortBy (sortKey ctx) l₁) (sortBy (sortKey ctx) l₂) := by
  refine (forall₂_of_map_eq (map_sortBy_congr (sortKey ctx) h)).imp fun a b hab => ?_
  have ha := hl.type_eq a (mem_sortBy.mp hab.1.2)
  have hb := hl.type_eq b (h.mem_iff.mpr (mem_sortBy.mp hab.2))
  exact ties_of_sortKey_eq (ha.trans hb.symm) hab.1.1

theorem loneAnswerReason_congr {l₁ l₂ : List Candidate} (h : SameElems l₁ l₂) {b₁ b₂ : Option Candidate}
    (hb : Option.Rel (Ties ctx) b₁ b₂) (alone : Bool) :
    loneAnswerReason mtype l₁ (b₁.getD default) alone = loneAnswerReason mtype l₂ (b₂.getD default) alone := by
  have hsource : (b₁.getD default).source = (b₂.getD default).source := by
    cases hb with
    | none => rfl
    | some hab => exact hab.source_eq
  simp only [loneAnswerReason, sortedSet_congr Source.enumOrder_injective (h.map (·.source)), hsource]

theorem decideUnsettled_congr {l₁ l₂ : List Candidate} (hl : Readings mtype ctx l₁) (h : l₁.Perm l₂)
    {p₁ p₂ : Option Candidate} (hp : Option.Rel (Ties ctx) p₁ p₂) :
    decideUnsettled mtype l₁ (sortBy (sortKey ctx) l₁) p₁ ctx = decideUnsettled mtype l₂ (sortBy (sortKey ctx) l₂) p₂ ctx := by
  have hsame := SameElems.of_perm h
  have hranked := ranked_congr hl h
  have hbest := head?_rel hranked
  have htext := find?_rel (p := fun c => c.source.winsADisagreement) (q := fun c => c.source.winsADisagreement)
    hranked fun a b hab => by simp only [hab.source_eq]
  have hsome : p₁.isSome = p₂.isSome := by cases hp <;> rfl
  have hsources := hsame.map (·.source)
  unfold decideUnsettled
  dsimp only
  rw [anyDisagree_congr hsame hl.type_eq, sortedSet_congr Function.injective_id (hsame.map fun c => (group c).name),
    hsome, loneAnswerReason_congr hsame hbest,
    show onlyAudioAndServerMarkers (l₁.map (·.source)) = onlyAudioAndServerMarkers (l₂.map (·.source)) by
      simp only [onlyAudioAndServerMarkers, hsources.all_eq, hsources.any_eq]]
  split
  · exact decideOrPropose_congr htext hbest _
  · split <;> exact decideOrPropose_congr hp hbest _

/-- **What a lone source decides is determined by the candidates.** -/
theorem decideFromSingleSource_congr {l₁ l₂ : List Candidate} (hl : Readings mtype ctx l₁) (h : l₁.Perm l₂) :
    decideFromSingleSource mtype l₁ ctx = decideFromSingleSource mtype l₂ ctx := by
  have hsame := SameElems.of_perm h
  have hproposal := find?_rel (p := mayDecideAlone) (q := mayDecideAlone) (ranked_congr hl h) fun a b hab => by
    simp only [mayDecideAlone, hab.source_eq, hab.type_eq]
  unfold decideFromSingleSource
  dsimp only
  cases h₁ : (sortBy (sortKey ctx) l₁).find? mayDecideAlone with
  | none =>
    rw [h₁] at hproposal
    generalize (sortBy (sortKey ctx) l₂).find? mayDecideAlone = o₂ at hproposal
    cases hproposal
    exact decideUnsettled_congr hl h .none
  | some a =>
    rw [h₁] at hproposal
    generalize (sortBy (sortKey ctx) l₂).find? mayDecideAlone = o₂ at hproposal
    cases hproposal with
    | @some _ b hab =>
      -- the lone group is that of the proposal, which is not a server's
      have hgroup : group a = group b := hab.group_eq (isServer_of_mayDecideAlone (List.find?_some h₁))
      have hown := hsame.filter fun c => group c = group b
      have hothers := hsame.filter fun c => group c ≠ group b
      have hservers : serversOnlyAgree l₁ a ctx = serversOnlyAgree l₂ b ctx := by
        simp only [serversOnlyAgree, hgroup, hothers.all_eq, hown.all_eq]
      dsimp only
      rw [hservers, hgroup]
      split
      · exact decideAlone_congr hown (fun c hc => hl.type_eq c (List.mem_filter.mp hc).1) hab
      · exact decideUnsettled_congr hl h (.some hab)

/-! ### A type -/

/-- Two chapters the choice cannot tell apart are tied. -/
theorem ties_of_chapterChoiceKey_eq {a b : Candidate} (ht : a.type = b.type) (hs : a.source = b.source)
    (h : chapterChoiceKey ctx.durationMs a = chapterChoiceKey ctx.durationMs b) : Ties ctx a b := by
  simp only [chapterChoiceKey, ht, toLex_inj, Prod.mk.injEq] at h
  refine ⟨ht, hs, ?_, h.2⟩
  have hstart := h.1
  split_ifs at hstart <;> omega

theorem chosenChapter_rel {l₁ l₂ : List Candidate} (hl : Readings mtype ctx l₁) (h : l₁.Perm l₂) :
    Option.Rel (fun a b => Ties ctx a b ∧ a ∈ l₁ ∧ b ∈ l₁ ∧ a.source = .chapters)
      (chosenChapter (l₁.filter fun c => c.source = .chapters) ctx)
      (chosenChapter (l₂.filter fun c => c.source = .chapters) ctx) := by
  refine rel_imp (argmin_rel _ ((SameElems.of_perm h).filter _)) fun a b hab => ?_
  obtain ⟨hkey, ha, hb⟩ := hab
  simp only [List.mem_filter, decide_eq_true_eq] at ha hb
  have hb₁ := h.mem_iff.mpr hb.1
  exact ⟨ties_of_chapterChoiceKey_eq ((hl.type_eq a ha.1).trans (hl.type_eq b hb₁).symm) (ha.2.trans hb.2.symm) hkey,
    ha.1, hb₁, ha.2⟩

/-- Leaving out either of two tied chapters leaves the guard the same pairs to ask about. -/
theorem guardPool_subset {l₁ l₂ : List Candidate} (hl : Readings mtype ctx l₁) (h : l₁.Perm l₂) {a b : Candidate}
    (hab : Ties ctx a b) (ha : a ∈ l₁) (hb : b ∈ l₁) (hs : a.source.isServer = false) (k : Group × ℤ)
    (hk : k ∈ (l₁.filter fun c => c.obj ≠ a.obj).map (guardKey ctx)) :
    k ∈ (l₂.filter fun c => c.obj ≠ b.obj).map (guardKey ctx) := by
  have hkey : guardKey ctx a = guardKey ctx b := by rw [guardKey, guardKey, hab.group_eq hs, hab.agreeValue_eq]
  simp only [List.mem_map, List.mem_filter, decide_eq_true_eq] at hk ⊢
  obtain ⟨c, ⟨hc, hobj⟩, rfl⟩ := hk
  by_cases hcb : c.obj = b.obj
  · -- the one left out there stands here as the other
    obtain rfl := hl.obj_inj c hc b hb hcb
    exact ⟨a, ⟨h.mem_iff.mp ha, fun heq => hobj heq.symm⟩, hkey⟩
  · exact ⟨c, ⟨h.mem_iff.mp hc, hcb⟩, rfl⟩

theorem decideByRules_congr {l₁ l₂ : List Candidate} (hl : Readings mtype ctx l₁) (h : l₁.Perm l₂) :
    (decideByRules mtype l₁ ctx).1 = (decideByRules mtype l₂ ctx).1 ∧
      SameElems ((decideByRules mtype l₁ ctx).2.map (guardKey ctx)) ((decideByRules mtype l₂ ctx).2.map (guardKey ctx)) := by
  have hchosen := chosenChapter_rel hl h
  have hothers := h.filter fun c => c.source ≠ .chapters
  have hl₂ : Readings mtype ctx l₂ := hl.subset fun c => h.mem_iff.mpr
  unfold decideByRules
  dsimp only
  generalize chosenChapter (l₁.filter fun c => c.source = .chapters) ctx = o₁,
    chosenChapter (l₂.filter fun c => c.source = .chapters) ctx = o₂ at hchosen
  cases hchosen with
  | none =>
    have hcliques := agreeingCliques_perm mtype ctx h
    have hnil : agreeingCliques l₁ mtype ctx = [] ↔ agreeingCliques l₂ mtype ctx = [] := by
      rw [← List.length_eq_zero_iff, ← List.length_eq_zero_iff, hcliques.length_eq]
    refine ⟨?_, (SameElems.of_perm hothers).map _⟩
    dsimp only
    rw [if_congr hnil (decideFromSingleSource_congr hl h) (decideFromCliques_congr hl (hcliques.imp fun _ _ h => .of_perm h)
      (fun cl hcl c hc => (composable_of_mem_agreeingCliques hl.type_eq hcl).subset c hc) false)]
  | @some a b hab =>
    obtain ⟨hties, ha, hb, hch⟩ := hab
    have hserver : a.source.isServer = false := hch ▸ rfl
    have hties' : Ties ctx b a := ⟨hties.type_eq.symm, hties.source_eq.symm, hties.startMs_eq.symm, hties.stop_eq.symm⟩
    refine ⟨decideFromChapter_congr hl hothers (fun c hc => (List.mem_filter.mp hc).1) hties, fun k => ⟨?_, ?_⟩⟩
    · exact guardPool_subset hl h hties ha hb hserver k
    · exact guardPool_subset hl₂ h.symm hties' (h.mem_iff.mp hb) (h.mem_iff.mp ha) (hties.source_eq ▸ hserver) k

theorem guardContradicted_congr {l₁ l₂ p₁ p₂ : List Candidate} (h : SameElems l₁ l₂) {dec : TypeDecision}
    (hpool : SameElems (p₁.map (guardKey ctx)) (p₂.map (guardKey ctx))) (hdec : ∀ m, dec.Publishes m → m.type = mtype)
    (h₁ : ∀ c ∈ p₁, c.type = mtype) (h₂ : ∀ c ∈ p₂, c.type = mtype) :
    guardContradicted dec p₁ l₁ ctx = guardContradicted dec p₂ l₂ ctx := by
  unfold guardContradicted
  split
  · rename_i m hstatus hmarker
    have hm := hdec m ⟨hstatus, hmarker⟩
    have hrests : restsOnCreditText m l₁ ctx = restsOnCreditText m l₂ ctx := h.any_eq _
    dsimp only
    rw [hrests, contradictingGroups_congr hpool (fun c hc => (h₁ c hc).trans hm.symm) fun c hc => (h₂ c hc).trans hm.symm]
  · rfl

theorem decideType_congr {l₁ l₂ of₁ of₂ : List Candidate} (hl : Readings mtype ctx l₁) (h : l₁.Perm l₂)
    (hof : of₁.Perm of₂) : decideType mtype of₁ l₁ ctx = decideType mtype of₂ l₂ ctx := by
  have hl₂ : Readings mtype ctx l₂ := hl.subset fun c => h.mem_iff.mpr
  obtain ⟨hdec, hpool⟩ := decideByRules_congr hl h
  have hguard : guardContradicted (decideByRules mtype l₁ ctx).1 (decideByRules mtype l₁ ctx).2 l₁ ctx =
      guardContradicted (decideByRules mtype l₂ ctx).1 (decideByRules mtype l₂ ctx).2 l₂ ctx := by
    rw [hdec]
    refine guardContradicted_congr (.of_perm h) hpool (fun m hm => (backed_decideByRules hl₂ hm).type_eq) ?_ ?_
    · exact fun c hc => hl.type_eq c ((mem_guardPool hl).mp hc).1
    · exact fun c hc => hl₂.type_eq c ((mem_guardPool hl₂).mp hc).1
  unfold decideType
  rw [if_congr (SameElems.of_perm h).eq_nil_iff rfl rfl, if_congr (SameElems.of_perm hof).eq_nil_iff rfl rfl,
    hof.length_eq]
  split
  · rfl
  · exact hguard

/-! ### The readings -/

theorem confirmedBy_congr {l₁ l₂ : List Candidate} (h : SameElems l₁ l₂) (c : Candidate) (d : ℤ) :
    confirmedBy c l₁ d = confirmedBy c l₂ d := h.any_eq _

theorem onFileClock_perm {l₁ l₂ : List Candidate} (h : l₁.Perm l₂) : (onFileClock l₁ ctx).Perm (onFileClock l₂ ctx) := by
  have hsane : (saneOf l₁ ctx).Perm (saneOf l₂ ctx) := h.filter _
  have hread : ∀ scale, fileReading (saneOf l₁ ctx) scale ctx = fileReading (saneOf l₂ ctx) scale ctx := by
    intro scale
    funext c
    have hr : Rescaled (saneOf l₁ ctx) scale ctx c ↔ Rescaled (saneOf l₂ ctx) scale ctx c := by
      simp only [Rescaled, confirmedBy_congr (SameElems.of_perm hsane)]
    unfold fileReading
    rw [if_congr hr rfl rfl]
  unfold onFileClock
  dsimp only
  split
  · exact hsane
  · rw [hread]
    exact h.filterMap _

theorem withoutAnotherReleasesIntro_perm {l₁ l₂ : List Candidate} (h : l₁.Perm l₂) :
    (withoutAnotherReleasesIntro l₁ ctx).Perm (withoutAnotherReleasesIntro l₂ ctx) := by
  have haudio := SameElems.of_perm (h.filter fun c => c.source = .seasonAudio)
  have hclock : ∀ c, onAnotherClock l₁ (l₁.filter fun c => c.source = .seasonAudio) ctx.durationMs c =
      onAnotherClock l₂ (l₂.filter fun c => c.source = .seasonAudio) ctx.durationMs c := by
    intro c
    unfold onAnotherClock
    rw [confirmedBy_congr (SameElems.of_perm h), haudio.any_eq]
  unfold withoutAnotherReleasesIntro
  dsimp only
  simp only [hclock, haudio.eq_nil_iff]
  split
  · exact h
  · exact h.filter _

theorem ofType_perm {l₁ l₂ : List Candidate} (h : l₁.Perm l₂) (mtype : MarkerType) :
    (ofType l₁ mtype).Perm (ofType l₂ mtype) := (h.filter _).filter _

theorem onClock_perm {l₁ l₂ : List Candidate} (h : l₁.Perm l₂) (mtype : MarkerType) :
    (onClock l₁ ctx mtype).Perm (onClock l₂ ctx mtype) :=
  withoutAnotherReleasesIntro_perm (onFileClock_perm (ofType_perm h mtype))

/-! ### A file -/

/-- Rule 7 takes each server's first start and the latest of those, whatever their order. -/
theorem shortenToServerMarkers_congr {l₁ l₂ : List Candidate} (h : SameElems l₁ l₂) (dec : TypeDecision) :
    shortenToServerMarkers dec l₁ ctx = shortenToServerMarkers dec l₂ ctx := by
  have hown := h.filter fun c => c.source = .serverMarkers
  have hinside : ∀ m, SameElems (startsInside m (l₁.filter fun c => c.source = .serverMarkers))
      (startsInside m (l₂.filter fun c => c.source = .serverMarkers)) := fun m => hown.filter _
  have hfirst : ∀ m, firstStart (startsInside m (l₁.filter fun c => c.source = .serverMarkers)) =
      firstStart (startsInside m (l₂.filter fun c => c.source = .serverMarkers)) := by
    intro m
    funext origin
    rw [firstStart, (((hinside m).filter _).map (·.startMs)).min?_eq, firstStart]
  have hoffer : ∀ m, latestOffer (startsInside m (l₁.filter fun c => c.source = .serverMarkers)) =
      latestOffer (startsInside m (l₂.filter fun c => c.source = .serverMarkers)) := by
    intro m
    simp only [latestOffer, hfirst, ((hinside m).map _).max?_eq]
  have hservers : ∀ m start, shorteningServers (startsInside m (l₁.filter fun c => c.source = .serverMarkers)) start =
      shorteningServers (startsInside m (l₂.filter fun c => c.source = .serverMarkers)) start := by
    intro m start
    simp only [shorteningServers, hfirst]
    exact sortedSet_congr Function.injective_id (((hinside m).map _).filter _)
  unfold shortenToServerMarkers
  simp only [hown.any_eq, hoffer, hservers]

theorem decideOne_perm (e e' : Evidence) (h : e.candidates.Perm e'.candidates) (locked : MarkerType → Option Marker) :
    decideOne e.candidates ctx locked = decideOne e'.candidates ctx locked := by
  funext mtype
  unfold decideOne
  rw [decideType_congr (readings_onClock e ctx mtype) (onClock_perm h mtype) (ofType_perm h mtype)]

/-- **Every decision depends on the set of candidates only**: whatever order the evidence arrives in,
each type gets the same status, marker, proposal and reason. -/
theorem decide_perm (e e' : Evidence) (h : e.candidates.Perm e'.candidates) (ctx : DecisionContext)
    (locked : MarkerType → Option Marker) (mtype : MarkerType) :
    decide e.candidates ctx locked mtype = decide e'.candidates ctx locked mtype := by
  unfold decide decideUnshortened
  rw [decideOne_perm e e' h]
  simp only [shortenToServerMarkers_congr (SameElems.of_perm (onClock_perm h mtype))]

/-- `opening`, with season audio's answer first. -/
def openingReversed : Evidence where
  candidates := opening.candidates.reverse
  obj_inj := by decide

theorem decide_perm_opening : decide opening.candidates episodeCtx (fun _ => none) .intro =
    decide openingReversed.candidates episodeCtx (fun _ => none) .intro :=
  decide_perm opening openingReversed (List.reverse_perm _).symm episodeCtx (fun _ => none) .intro

end MediaPreview.Markers
