import MediaPreview.Plex.Serves

/-!
# A write settles

An item is published over and over: each time with what the last write reported as ours and as kept
(`Published.publish`). One write is enough (`publish_settles`): planning again finds nothing to write, and the same
markers are ours and the same types kept.

This holds while what was kept stays kept (`Item.StaysKept`): a kept type's rows must still be able to be right once
nothing of the type counts as published by this app, and no part may lose the value of a kept type to what the calling
file left on its former item.
-/

namespace MediaPreview.Plex

open Ranking Markers

/-- An item with what is remembered of its last write. -/
structure Published where
  /-- The item in Plex's database. -/
  item : Item
  /-- The markers the last write reported as ours. -/
  prior : List PlexMarker
  /-- The types it reported as kept. -/
  keptBefore : Finset PlexType

/-- What is asked of an item published before. -/
def Request.after (q : Request) (s : Published) : Request := { q with prior := s.prior, keptBefore := s.keptBefore }

/-- One publishing of an item: planned, written and remembered; `none` where planning raises. -/
def Published.publish (q : Request) (s : Published) (createdAt : ℤ) : Option Published :=
  (s.item.plan (q.after s)).map fun plan => ⟨s.item.write plan createdAt, plan.ours, plan.keptTypes⟩

/-- What is asked the next time, when nothing else has changed. -/
def Request.again (q : Request) (plan : Plan) : Request := { q with prior := plan.ours, keptBefore := plan.keptTypes }

namespace Item

/-- What is kept stays kept the next time. -/
structure StaysKept (item : Item) (q : Request) : Prop where
  /-- Some row of the type can be right for the file, our wanted and the calling file's former ones aside. -/
  right : ∀ t ∈ item.kept q, ∀ l ∈ q.limits, plexRowsCantBeRight t (rowsServed item.itemRows t)
    [servedOf q.wanted t, [], servedOf q.ownPrior t] l = false
  /-- No part has what the calling file left of the type on its former item. -/
  notOwn : ∀ t ∈ item.kept q, ∀ p ∈ item.parts, ¬ LeftByOwn q t p

variable {item : Item} {q q' : Request} {plan : Plan} {createdAt : ℤ} {t : PlexType} {p : Part} {e : Extra}

/-! ### What is kept -/

/-- The parts of the item after the write, by their files, versions and times. -/
theorem map_parts_write {β : Type*} (f : Part → β) (hf : ∀ p d, f { p with extraData := d } = f p) :
    (item.write plan createdAt).parts.map f = item.parts.map f := by
  rw [parts_write, List.map_map]
  refine List.map_congr_left fun p _ => ?_
  obtain ⟨d, hd⟩ := foldl_update_eq plan.partUpdates p
  rw [Function.comp_apply, hd, hf]

/-- A kept type is stale after the write as it was before. -/
theorem mem_stale_write (hplan : item.plan q = some plan) (ht : t ∈ item.kept q)
    (hown : ∀ p ∈ item.parts, ¬ LeftByOwn q t p) : t ∈ (item.write plan createdAt).stale ↔ t ∈ item.stale := by
  have hunchanged := (unchanged_write_iff hplan ht createdAt).mpr hown
  have hpv := congrArg (List.map Prod.snd) hunchanged.parts
  rw [List.map_map, List.map_map] at hpv
  exact typesNotMadeForFile_congr (sameRows_write hplan (not_mem_replaced_of_kept ht))
    (map_parts_write _ fun _ _ => rfl) hpv

/-- What the rows of a kept type serve stays. -/
theorem rowsServed_write_of_kept (hplan : item.plan q = some plan) (ht : t ∈ item.kept q) :
    rowsServed (item.write plan createdAt).itemRows t = rowsServed item.itemRows t :=
  rowsServed_congr (sameRows_write hplan (not_mem_replaced_of_kept ht))

/-- **The same types are kept after the write.** -/
theorem kept_again (hplan : item.plan q = some plan) (hshift : q.Shiftable) (hstays : item.StaysKept q) :
    (item.write plan createdAt).kept (q.again plan) = item.kept q := by
  have hp := (plan_eq_some_iff.mp hplan).2
  have hours : plan.ours = item.wantedLeft q := by rw [hp]
  have hkeptTypes : plan.keptTypes = item.kept q := by rw [hp]
  ext t
  by_cases hkeep : q.keepPlex = true
  · have hlocked : t ∈ locked (q.again plan) ↔ t ∈ locked q := Iff.rfl
    rw [kept, Finset.mem_sdiff, hlocked, mem_wouldKeep (q := q.again plan) hkeep]
    change (_ ∧ (∀ l ∈ q.limits, plexRowsCantBeRight t _ [servedOf q.wanted t, servedOf plan.ours t,
      servedOf q.ownPrior t] l = false) ∧ ¬ (_ ∧ t ∈ typesOf q.wanted) ∧ (t ∈ plan.keptTypes ∨ t ∈ typesOf q.wanted ∧
      _ ∉ [servedOf q.wanted t, servedOf plan.ours t, servedOf q.ownPrior t])) ∧ _ ↔ _
    rw [hkeptTypes]
    constructor
    · rintro ⟨⟨-, -, -, hwhy⟩, hnot⟩
      by_contra ht
      -- not kept before, so wanted: after the write the rows serve what is wanted
      obtain ⟨hwanted, hother⟩ := hwhy.resolve_left ht
      have hleft : t ∈ typesOf (item.wantedLeft q) := mem_typesOf_wantedLeft.mpr ⟨hwanted, ht⟩
      have hserved : (rowsServedWithFinal (item.write plan createdAt).itemRows t).map timesOf = _ :=
        (fit_write hplan hshift hleft).1
      rw [map_timesOf_rowsServedWithFinal, servedOf_congr (ofType_wantedLeft ht)] at hserved
      rw [hserved] at hother
      exact hother List.mem_cons_self
    · intro ht
      obtain ⟨hwould, hnot⟩ := Finset.mem_sdiff.mp ht
      obtain ⟨hsome, -, hstale, -⟩ := (mem_wouldKeep hkeep).mp hwould
      have hnone : servedOf plan.ours t = [] := by
        rw [hours, servedOf_eq_nil_iff]
        exact fun hc => (mem_typesOf_wantedLeft.mp hc).2 ht
      rw [rowsServed_write_of_kept hplan ht, mem_stale_write hplan ht (hstays.notOwn t ht), hnone]
      exact ⟨⟨hsome, hstays.right t ht, hstale, .inl ht⟩, hnot⟩
  · have hnone : ∀ {item : Item} {q : Request}, q.keepPlex ≠ true → t ∉ item.kept q := by
      intro item q hoff ht
      exact hoff (keepPlex_of_mem_keptTypes (Finset.mem_sdiff.mp ht).1)
    exact iff_of_false (hnone (q := q.again plan) hkeep) (hnone hkeep)

/-! ### What is wanted -/

section Again

variable (hplan : item.plan q = some plan) (hshift : q.Shiftable) (hstays : item.StaysKept q)

include hplan hshift hstays

theorem wantedLeft_again : (item.write plan createdAt).wantedLeft (q.again plan) = item.wantedLeft q := by
  rw [wantedLeft, kept_again hplan hshift hstays]
  rfl

/-- What is ours is not kept. -/
theorem priorLeft_again : (item.write plan createdAt).priorLeft (q.again plan) = item.wantedLeft q := by
  have hp := (plan_eq_some_iff.mp hplan).2
  rw [priorLeft, kept_again hplan hshift hstays]
  change plan.ours.filter (fun m => m.type ∉ item.kept q) = item.wantedLeft q
  have hours : plan.ours = item.wantedLeft q := by rw [hp]
  rw [hours]
  exact List.filter_eq_self.mpr fun m hm => decide_eq_true (mem_wantedLeft.mp hm).2

theorem refreshFinal_again : (item.write plan createdAt).refreshFinal (q.again plan) = item.refreshFinal q := by
  have hfiles : versionFiles (item.write plan createdAt).parts = versionFiles item.parts := by
    have hparts : (item.write plan createdAt).parts.map _ = item.parts.map _ :=
      map_parts_write (fun p => (isOptimizedCopy p, p.file)) fun _ _ => rfl
    have hversions := congrArg (fun l => (l.filter fun x : Bool × String => !x.1).map Prod.snd) hparts
    simp only [List.filter_map, List.map_map] at hversions
    exact congrArg (sortBy fun f => f) hversions
  unfold refreshFinal refreshFinalTypes
  rw [hfiles, wantedLeft_again hplan hshift hstays]
  rfl

/-- **Nothing is replaced again.** -/
theorem replaced_again : (item.write plan createdAt).replaced (q.again plan) = ∅ := by
  rw [Finset.eq_empty_iff_forall_notMem]
  intro t ht
  rw [mem_replaced, wantedLeft_again hplan hshift hstays, priorLeft_again hplan hshift hstays] at ht
  obtain ⟨hwanted, hunfit⟩ := ht.resolve_right fun h => h.1.2 h.1.1
  obtain ⟨htimes, hfinal⟩ : (rowsServedWithFinal (item.write plan createdAt).itemRows t).map timesOf = _ ∧ _ :=
    fit_write hplan hshift hwanted
  rw [Unfit, wantedLeft_again hplan hshift hstays, refreshFinal_again hplan hshift hstays] at hunfit
  exact hunfit.elim (fun h => h htimes) fun h => h.2 (hfinal h.1)

/-! ### What the parts hold -/

/-- A value that serves what is wanted is merged as it is, and so is a value that is not managed. -/
theorem mergeValue_again {d : Extra} (he : item.mergedExtra q p = some e) (hpv : ∀ t, e.pv t = d.pv t) (t : PlexType) :
    mergeValue t (d.pv t) (item.wantedLeft q) ((item.write plan createdAt).managed (q.again plan)) q.durationMs
      (item.wantedLeft q) (item.refreshFinal q) = some (d.pv t) := by
  have hmanaged : (item.write plan createdAt).managed (q.again plan) = typesOf (item.wantedLeft q) := by
    rw [managed, wantedLeft_again hplan hshift hstays, priorLeft_again hplan hshift hstays, Finset.union_self]
  rw [hmanaged]
  by_cases ht : t ∈ typesOf (item.wantedLeft q)
  · have hfresh := fresh_mergedExtra hshift ht he
    rw [hpv t] at hfresh
    by_cases hfinal : t ∈ item.refreshFinal q
    · -- only with a duration is a flag put right
      have hdur : ∃ d, q.durationMs = some d ∧ 0 < d := by
        unfold refreshFinal refreshFinalTypes at hfinal
        split_ifs at hfinal with hnone
        · exact absurd hfinal (Finset.notMem_empty t)
        · simp only [not_or, not_forall, not_le] at hnone
          obtain ⟨⟨d, hd, hpos⟩, -⟩ := hnone
          exact ⟨d, hd, hpos⟩
      obtain ⟨d, hd, hpos⟩ := hdur
      exact hfresh.mergeValue_eq (hd ▸ .of_pos hpos _) ht
    · unfold mergeValue
      have hne : ofType (item.wantedLeft q) t ≠ [] := fun hnil => ofType_eq_nil_iff.mp hnil ht
      rw [if_neg (not_not.mpr ht), if_pos hne, if_neg fun h => hfinal h.1, if_neg]
      rw [servedOf_ofType, not_or, not_not]
      exact ⟨hfresh.served, fun h => hfinal h.1⟩
  · exact mergeValue_of_not_mem ht

/-- **No part is written again.** -/
theorem mergedExtra_again (hp : p ∈ item.parts) (he : item.mergedExtra q p = some e) :
    ∃ e', (item.write plan createdAt).mergedExtra (q.again plan) ((item.partUpdates q).foldl Part.update p) = some e' ∧
      sameExtraData e' ((item.partUpdates q).foldl Part.update p).extraData = true := by
  obtain ⟨d, hd, hsame⟩ := extraData_foldl_partUpdates hp he
  obtain ⟨_, -, hchecked, -, hown⟩ := mergedExtra_spec he
  obtain ⟨hpv, hothers⟩ := sameExtraData_iff.mp hsame
  have hd' : d.Checked := fun t v hv => hchecked t v (hpv t ▸ hv)
  have hmerge : ∀ t, mergeValue t (d.pv t) (item.wantedLeft q) ((item.write plan createdAt).managed (q.again plan))
      q.durationMs (item.wantedLeft q) (item.refreshFinal q) = some (d.pv t) :=
    mergeValue_again hplan hshift hstays he hpv
  obtain ⟨e₁, he₁⟩ := Option.isSome_iff_exists.mp (mergePartExtraData_isSome hd' fun t =>
    Option.isSome_of_eq_some (hmerge t))
  obtain ⟨-, hothers₁, hpv₁⟩ := mergePartExtraData_spec he₁
  have hsame₁ : ∀ t, e₁.pv t = d.pv t := fun t => Option.some.inj ((hpv₁ t).symm.trans (hmerge t))
  have hfirst : mergePartExtraData ((item.partUpdates q).foldl Part.update p).extraData
      ((item.write plan createdAt).wantedLeft (q.again plan)) ((item.write plan createdAt).managed (q.again plan))
      (q.again plan).durationMs ((item.write plan createdAt).priorLeft (q.again plan))
      ((item.write plan createdAt).refreshFinal (q.again plan)) = some e₁ := by
    rw [hd, wantedLeft_again hplan hshift hstays, priorLeft_again hplan hshift hstays,
      refreshFinal_again hplan hshift hstays]
    exact he₁
  have hownTypes : (item.write plan createdAt).ownTypes (q.again plan) = item.ownTypes q := by
    rw [ownTypes, wantedLeft_again hplan hshift hstays]
    rfl
  have hid : ((item.partUpdates q).foldl Part.update p).id = p.id := foldl_update_id _ p
  rw [mergedExtra, hfirst, hownTypes, hid, hd]
  split_ifs with hcalling
  · have hchecked₁ : e₁.Checked := checked_of_mergePartExtraData he₁
    have hsecond : ∀ t, mergeValue t (e₁.pv t) [] (item.ownTypes q) q.durationMs q.ownPrior ∅ = some (d.pv t) := by
      intro t
      rw [mergeValue_of_not_wanted (by simp), hsame₁ t, if_neg]
      rintro ⟨ht, -, hserved⟩
      -- what the calling file left elsewhere has gone already
      obtain ⟨v, -, hev⟩ := hown t
      rw [← hpv t, hev] at hserved
      split_ifs at hserved with hgone
      · exact Option.some_ne_none _ hserved.symm
      · exact hgone ⟨hcalling.2, ht, hserved⟩
    obtain ⟨e₂, he₂⟩ := Option.isSome_iff_exists.mp (mergePartExtraData_isSome hchecked₁ fun t =>
      Option.isSome_of_eq_some (hsecond t))
    obtain ⟨-, hothers₂, hpv₂⟩ := mergePartExtraData_spec he₂
    refine ⟨e₂, he₂, sameExtraData_iff.mpr ⟨fun t => ?_, hothers₂.trans hothers₁⟩⟩
    exact Option.some.inj ((hpv₂ t).symm.trans (hsecond t))
  · exact ⟨e₁, rfl, sameExtraData_iff.mpr ⟨hsame₁, hothers₁⟩⟩

/-! ### Planning again -/

/-- **Planning again finds nothing to write**, and the same is ours and kept. -/
theorem plan_again : ∃ plan', (item.write plan createdAt).plan (q.again plan) = some plan' ∧
    nothingToWrite plan' = true ∧ plan'.ours = plan.ours ∧ plan'.keptTypes = plan.keptTypes := by
  obtain ⟨hplannable, hp⟩ := plan_eq_some_iff.mp hplan
  have hupdates : plan.partUpdates = item.partUpdates q := by rw [hp]
  have hreplaced : (item.write plan createdAt).replaced (q.again plan) = ∅ := replaced_again hplan hshift hstays
  have hmerged : ∀ p' ∈ (item.write plan createdAt).parts,
      ∃ e', (item.write plan createdAt).mergedExtra (q.again plan) p' = some e' ∧
        sameExtraData e' p'.extraData = true := by
    intro p' hp'
    rw [parts_write, hupdates] at hp'
    obtain ⟨p, hpart, rfl⟩ := List.mem_map.mp hp'
    obtain ⟨e, he⟩ := Option.isSome_iff_exists.mp (hplannable.2 p hpart)
    exact mergedExtra_again hplan hshift hstays hpart he
  have hplannable' : (item.write plan createdAt).Plannable (q.again plan) := by
    refine ⟨fun m hm => ?_, fun p' hp' => ?_⟩
    · rw [rewritten, hreplaced] at hm
      exact absurd (of_decide_eq_true (List.mem_filter.mp hm).2) (Finset.notMem_empty m.type)
    · obtain ⟨e', he', -⟩ := hmerged p' hp'
      exact he' ▸ rfl
  have hparts : (item.write plan createdAt).partUpdates (q.again plan) = [] := by
    rw [partUpdates, List.filterMap_eq_nil_iff]
    intro p' hp'
    obtain ⟨e', he', hsame⟩ := hmerged p' hp'
    rw [he', Option.bind_some, if_pos hsame]
  have htexts : (item.write plan createdAt).replacedTexts (q.again plan) = [] := replacedTexts_eq_nil_iff.mpr hreplaced
  have hours : (item.write plan createdAt).wantedLeft (q.again plan) = plan.ours := by
    rw [wantedLeft_again hplan hshift hstays, hp]
  refine ⟨_, plan_eq_some_iff.mpr ⟨hplannable', rfl⟩, ?_, hours, ?_⟩
  · simp only [nothingToWrite, Plan.isNoop, htexts, hparts, hours, decide_true, Bool.and_true, Bool.true_and,
      Bool.or_eq_true, decide_eq_true_eq]
    by_cases hnothing : nothingToWrite plan = true
    · -- nothing was written: the numbers are as they were
      have hsame : item.write plan createdAt = item := if_pos hnothing
      simp only [nothingToWrite, Plan.isNoop, Bool.or_eq_true, Bool.and_eq_true, decide_eq_true_eq] at hnothing
      refine hnothing.imp (fun h => ?_) fun h => h.1.1
      have hnone : item.replaced q = ∅ := replacedTexts_eq_nil_iff.mp (by rw [← h.1.1, hp])
      rw [hsame] at hreplaced ⊢
      have hreindex : item.reindex q = [] := by rw [← h.1.2, hp]
      rw [reindex, entries_of_replaced_eq_empty hnone] at hreindex
      rw [reindex, entries_of_replaced_eq_empty hreplaced]
      exact hreindex
    · have hwrite : item.write plan createdAt = item.applyPlan plan createdAt := if_neg hnothing
      have hnumbered : (item.write plan createdAt).Numbered := hwrite ▸ numbered_applyPlan hplan
      exact .inl (reindex_of_numbered hnumbered hreplaced)
  · change (item.write plan createdAt).kept (q.again plan) = plan.keptTypes
    rw [kept_again hplan hshift hstays, hp]

end Again

end Item

/-- **One write is enough**: an item just published has nothing to write, and however often it is published again, with
the same markers wanted, it stays as it is. -/
theorem publish_settles {q : Request} {s s' : Published} {createdAt : ℤ} (h : s.publish q createdAt = some s')
    (hshift : q.Shiftable) (hstays : s.item.StaysKept (q.after s)) :
    (∃ plan, s'.item.plan (q.after s') = some plan ∧ nothingToWrite plan = true) ∧
      ∀ later : List ℤ, later.foldlM (Published.publish q) s' = some s' := by
  obtain ⟨plan, hplan, rfl⟩ := Option.map_eq_some_iff.mp h
  obtain ⟨plan', hplan', hnothing, hours, hkept⟩ :
      ∃ plan', (s.item.write plan createdAt).plan ((q.after s).again plan) = some plan' ∧ _ :=
    Item.plan_again hplan hshift hstays
  refine ⟨⟨plan', hplan', hnothing⟩, fun later => ?_⟩
  induction later with
  | nil => rfl
  | cons c later ih =>
    have hsame : (⟨s.item.write plan createdAt, plan.ours, plan.keptTypes⟩ : Published).publish q c =
        some ⟨s.item.write plan createdAt, plan.ours, plan.keptTypes⟩ := by
      refine Option.map_eq_some_iff.mpr ⟨plan', hplan', ?_⟩
      rw [hours, hkept, Item.write, if_pos hnothing]
    rw [List.foldlM_cons, hsame]
    exact ih

/-- The episode with Plex's own intro, not published yet. -/
def ownIntroEpisode : Published := ⟨mergedEpisode.toItem, [], ∅⟩

/-- Its intro stays kept, as no file of its left anything elsewhere. -/
theorem ownIntroEpisode_settles : ∃ s', ownIntroEpisode.publish ownIntroRequest 1700000100 = some s' ∧
    (∃ plan, s'.item.plan (ownIntroRequest.after s') = some plan ∧ nothingToWrite plan = true) ∧
      ∀ later : List ℤ, later.foldlM (Published.publish ownIntroRequest) s' = some s' := by
  obtain ⟨s', hs'⟩ := Option.isSome_iff_exists.mp
    (show (ownIntroEpisode.publish ownIntroRequest 1700000100).isSome = true by decide +kernel)
  refine ⟨s', hs', publish_settles hs' shiftable_ownIntroRequest ⟨fun t _ l hl => ?_, fun t _ p _ hleft => ?_⟩⟩
  · cases hl
  · obtain ⟨m, hm, -⟩ := mem_typesOf.mp hleft.1
    cases hm

end MediaPreview.Plex
