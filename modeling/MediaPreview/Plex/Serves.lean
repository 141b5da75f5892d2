import MediaPreview.Plex.Numbering
import MediaPreview.Plex.KeepPlex

/-!
# What an item serves after a write

Every type a plan calls ours is served at the wanted times by the rows and by every part (`serves_write`): a type whose
rows are replaced has the rows written for it (`rowsServedWithFinal_write_of_replaced`), one whose rows stay was fit as
it was (`fit_write`), and each part's value was merged (`fresh_mergedExtra`).
-/

namespace MediaPreview.Plex

open Ranking Markers

/-! ### What a row written serves -/

/-- A row's `final` flag is the one it was written with. -/
theorem rowIsFinal_taggingExtra {m : PlexMarker} {durationMs : Option ℤ} {s : ℤ × ℤ × Bool}
    (h : storedTimes m durationMs = some s) : rowIsFinal (some (taggingExtra m.type s.2.2)) = s.2.2 := by
  obtain ⟨start, stop, final⟩ := s
  cases htype : m.type with
  | intro =>
    have hfinal : false = final := by
      simp only [storedTimes, htype, Option.some.injEq, Prod.mk.injEq] at h
      exact h.2.2
    subst hfinal
    change rowIsFinal (some (taggingExtra .intro false)) = false
    decide
  | credits =>
    change rowIsFinal (some (taggingExtra .credits final)) = final
    cases final <;> decide

/-- A marker as it is served once stored, with the flag this duration gives. -/
def servedStored (m : PlexMarker) (durationMs : Option ℤ) : Option (ℤ × ℤ × Bool) :=
  (storedTimes m durationMs).map fun s => (m.startMs, m.endMs, s.2.2)

/-- **A row written for a marker** serves the marker's times, with its flag. -/
theorem map_served_storedRow {m : PlexMarker} {durationMs : Option ℤ}
    (hshift : m.type = .credits → creditsServeShiftMs ≤ m.startMs) :
    (storedRow m durationMs).map (fun r => r.served m.type) = servedStored m durationMs := by
  cases hs : storedTimes m durationMs with
  | none => simp only [storedRow, servedStored, hs, Option.map_none]
  | some s =>
    have hserved : servedTimes m.type s.1 s.2.1 s.2.2 = (m.startMs, m.endMs) := servedTimes_storedTimes hs hshift
    simp only [storedRow, servedStored, hs, Option.map_some, MarkerTag.served, rowIsFinal_taggingExtra hs, hserved]

/-- Every wanted credits marker starts late enough to be stored shifted. -/
def Request.Shiftable (q : Request) : Prop :=
  ∀ m ∈ q.wanted, m.type = .credits → creditsServeShiftMs ≤ m.startMs

theorem foldl_update_eq (us : List (Extra × ℕ)) (p : Part) :
    ∃ d, us.foldl Part.update p = { p with extraData := d } := by
  induction us generalizing p with
  | nil => exact ⟨p.extraData, rfl⟩
  | cons u us ih =>
    obtain ⟨d, hd⟩ := ih (p.update u)
    refine ⟨d, ?_⟩
    rw [List.foldl_cons, hd]
    unfold Part.update
    split_ifs <;> rfl

namespace Item

variable {item : Item} {q : Request} {plan : Plan} {createdAt : ℤ} {t : PlexType} {p : Part} {e : Extra}

/-! ### The rows after the write -/

theorem sameRows_itemRows (item : Item) (t : PlexType) : SameRows item.itemRows item.rows t :=
  (item.itemRows_perm.filter _).map _

/-- A type that is not replaced: its rows say what they said. -/
theorem sameRows_write (hplan : item.plan q = some plan) (ht : t ∉ item.replaced q) :
    SameRows (item.write plan createdAt).itemRows item.itemRows t := by
  have hp := (plan_eq_some_iff.mp hplan).2
  have htexts : plan.replacedTexts = item.replacedTexts q := by rw [hp]
  have hinserts : plan.inserts = item.inserts q := by rw [hp]
  have hrows : (rowsOf (item.write plan createdAt).rows t).map TaggingRow.content =
      (rowsOf item.rows t).map TaggingRow.content := content_rowsOf_write
    (fun hc => ht (text_mem_replacedTexts.mp (htexts ▸ hc))) fun x hx heq => by
      rw [hinserts] at hx
      obtain ⟨s, hs, htext⟩ := exists_of_mem_inserts hx
      exact ht (PlexType.text_injective (htext.symm.trans heq) ▸ hs)
  exact (sameRows_itemRows _ t).trans ((List.Perm.of_eq hrows).trans (sameRows_itemRows item t).symm)

/-- What the rows added for a replaced type serve. -/
theorem map_served_ours (hshift : q.Shiftable) (ht : t ∈ item.replaced q) :
    ((item.ours q).filter fun r => r.text = t.text).map (fun r => r.served t) =
      (ofType (item.wantedLeft q) t).filterMap fun m => servedStored m q.durationMs := by
  have hone : ∀ m ∈ item.wantedLeft q,
      ((if m.type ∈ item.replaced q then storedRow m q.durationMs else none).filter fun r => r.text = t.text).map
        (fun r => r.served t) = if m.type = t then servedStored m q.durationMs else none := by
    intro m hm
    have htext : ∀ r ∈ storedRow m q.durationMs, r.text = m.type.text := by
      intro r hr
      obtain ⟨s, -, rfl⟩ := Option.map_eq_some_iff.mp hr
      rfl
    by_cases htype : m.type = t
    · subst htype
      rw [if_pos ht, if_pos rfl, ← map_served_storedRow fun hc => hshift m (mem_wantedLeft.mp hm).1 hc]
      cases hr : storedRow m q.durationMs with
      | none => rfl
      | some r => rw [Option.filter_some, if_pos (decide_eq_true (htext r hr))]
    · rw [if_neg htype]
      split_ifs
      · cases hr : storedRow m q.durationMs with
        | none => rfl
        | some r =>
          have hne : ¬ r.text = t.text := fun h => htype (PlexType.text_injective ((htext r hr).symm.trans h))
          rw [Option.filter_some, if_neg (by simpa using hne)]
          rfl
      · rfl
  rw [ours, rewritten, ofType, List.filterMap_filter, List.filter_filterMap, List.map_filterMap, List.filterMap_filter]
  refine List.filterMap_congr fun m hm => ?_
  simpa only [decide_eq_true_eq] using hone m hm

/-- A type that is replaced: its rows are the ones added. -/
theorem sameRows_write_of_replaced (hplan : item.plan q = some plan) (ht : t ∈ item.replaced q) :
    SameRows (item.write plan createdAt).itemRows (insertedRows plan.inserts item.nextId createdAt) t := by
  have hp := (plan_eq_some_iff.mp hplan).2
  have htexts : plan.replacedTexts = item.replacedTexts q := by rw [hp]
  have hwrite : item.write plan createdAt = item.applyPlan plan createdAt := by
    refine if_neg fun hnothing => ?_
    have hnil : plan.replacedTexts = [] := by
      simp only [nothingToWrite, Plan.isNoop, Bool.or_eq_true, Bool.and_eq_true, decide_eq_true_eq] at hnothing
      exact hnothing.elim (fun h => h.1.1) fun h => h.1.2
    rw [htexts, replacedTexts_eq_nil_iff] at hnil
    exact Finset.notMem_empty t (hnil ▸ ht)
  have hgone : rowsOf (item.rows.filter fun r => r.text ∉ plan.replacedTexts) t = [] := by
    rw [rowsOf, List.filter_eq_nil_iff]
    intro r hr heq
    have hkeeps := (List.mem_filter.mp hr).2
    rw [decide_eq_true_eq, of_decide_eq_true heq, htexts] at hkeeps
    exact hkeeps (text_mem_replacedTexts.mpr ht)
  refine (sameRows_itemRows _ t).trans ?_
  rw [hwrite]
  change SameRows (item.writtenRows plan createdAt) _ t
  rw [SameRows, writtenRows, content_rowsOf_foldl_setIndex, rowsOf, List.filter_append]
  change ((rowsOf _ t ++ rowsOf _ t).map _).Perm _
  rw [hgone, List.nil_append]

/-- **The rows of a replaced type serve what is wanted of it**, with their own flags. -/
theorem rowsServedWithFinal_write_of_replaced (hplan : item.plan q = some plan) (hshift : q.Shiftable)
    (ht : t ∈ item.replaced q) :
    servedWithFinal (item.wantedLeft q) t q.durationMs =
      some (rowsServedWithFinal (item.write plan createdAt).itemRows t) := by
  obtain ⟨hplannable, hp⟩ := plan_eq_some_iff.mp hplan
  have hinserts : plan.inserts = item.inserts q := by rw [hp]
  have hstorable : Storable (ofType (item.wantedLeft q) t) q.durationMs := by
    refine hplannable.1.subset fun m hm => ?_
    obtain ⟨hwanted, htype⟩ := mem_ofType.mp hm
    exact List.mem_filter.mpr ⟨hwanted, decide_eq_true (htype ▸ ht)⟩
  have htags : (rowsOf (insertedRows plan.inserts item.nextId createdAt) t).map TaggingRow.toMarkerTag =
      ((item.inserts q).map Prod.snd).filter fun r => r.text = t.text := by
    have hall : (insertedRows plan.inserts item.nextId createdAt).map TaggingRow.toMarkerTag =
        (item.inserts q).map Prod.snd := by
      rw [insertedRows, List.map_map, hinserts]
      conv_rhs => rw [← List.zipIdx_map_fst 0 (item.inserts q), List.map_map]
      rfl
    rw [← hall, rowsOf, List.filter_map]
    rfl
  have hserved : ((rowsOf (insertedRows plan.inserts item.nextId createdAt) t).map fun r => r.served t).Perm
      ((ofType (item.wantedLeft q) t).filterMap fun m => servedStored m q.durationMs) := by
    rw [← map_served_ours hshift ht]
    have hmap : ((rowsOf (insertedRows plan.inserts item.nextId createdAt) t).map fun r => r.served t) =
        ((rowsOf (insertedRows plan.inserts item.nextId createdAt) t).map TaggingRow.toMarkerTag).map
          fun r => r.served t := by
      rw [List.map_map]
      rfl
    rw [hmap, htags]
    exact (map_snd_inserts.filter _).map _
  rw [rowsServedWithFinal_congr (sameRows_write_of_replaced hplan ht), rowsServedWithFinal, servedWithFinal,
    if_pos hstorable]
  exact congrArg some (sortServed_eq_iff.mpr hserved.symm)

/-- **After the write the rows of a wanted type are fit.** -/
theorem fit_write (hplan : item.plan q = some plan) (hshift : q.Shiftable)
    (ht : t ∈ typesOf (item.wantedLeft q)) :
    (rowsServedWithFinal (item.write plan createdAt).itemRows t).map timesOf = servedOf (item.wantedLeft q) t ∧
      (t ∈ item.refreshFinal q → some (rowsServedWithFinal (item.write plan createdAt).itemRows t) =
        servedWithFinal (item.wantedLeft q) t q.durationMs) := by
  by_cases hreplaced : t ∈ item.replaced q
  · have hrows : _ = some (rowsServedWithFinal (item.write plan createdAt).itemRows t) :=
      rowsServedWithFinal_write_of_replaced hplan hshift hreplaced
    refine ⟨?_, fun _ => hrows.symm⟩
    have hstorable : Storable (ofType (item.wantedLeft q) t) q.durationMs := by
      by_contra hnot
      rw [servedWithFinal, if_neg hnot] at hrows
      exact Option.some_ne_none _ hrows.symm
    obtain ⟨served, hserved, htimes⟩ := servedWithFinal_spec hstorable
    obtain rfl := Option.some.inj (hserved.symm.trans hrows)
    exact htimes
  · rw [rowsServedWithFinal_congr (sameRows_write hplan hreplaced)]
    have hfit : ¬ item.Unfit q t := fun h => hreplaced (mem_replaced.mpr (.inl ⟨ht, h⟩))
    simp only [Unfit, not_or, not_and, not_not, ne_eq] at hfit
    exact hfit

/-! ### The parts after the write -/

/-- What a part comes out with: each value merged by itself, then the value of a type the calling file left elsewhere
taken away while it still serves that. -/
theorem mergedExtra_spec (he : item.mergedExtra q p = some e) :
    ∃ d, p.extraData = some d ∧ e.Checked ∧ e.others = d.others ∧
      ∀ t, ∃ v, mergeValue t (d.pv t) (item.wantedLeft q) (item.managed q) q.durationMs (item.priorLeft q)
          (item.refreshFinal q) = some v ∧
        e.pv t = if p.id ∈ q.callingPartIds ∧ t ∈ item.ownTypes q ∧ partServed t v = some (servedOf q.ownPrior t) then
          none else v := by
  cases hd : p.extraData with
  | none =>
    simp only [mergedExtra, hd, mergePartExtraData, Option.bind_eq_bind, Option.bind_none, ite_self] at he
    exact absurd he (Option.some_ne_none e).symm
  | some d =>
    refine ⟨d, rfl, ?_⟩
    unfold mergedExtra at he
    rw [hd] at he
    split_ifs at he with hcalling
    · obtain ⟨e', he', he⟩ := Option.bind_eq_some_iff.mp he
      obtain ⟨-, hothers', hpv'⟩ := mergePartExtraData_spec he'
      obtain ⟨-, hothers, hpv⟩ := mergePartExtraData_spec he
      refine ⟨checked_of_mergePartExtraData he, hothers.trans hothers', fun t => ⟨e'.pv t, hpv' t, ?_⟩⟩
      have ht := hpv t
      rw [mergeValue_of_not_wanted (by simp)] at ht
      have hown : t ∈ item.ownTypes q → t ∈ typesOf q.ownPrior := fun h => (Finset.mem_sdiff.mp h).1
      rw [← Option.some.inj ht]
      refine if_congr ⟨fun h => ⟨hcalling.2, h.1, h.2.2⟩, fun h => ⟨h.2.1, hown h.2.1, h.2.2⟩⟩ rfl rfl
    · obtain ⟨-, hothers, hpv⟩ := mergePartExtraData_spec he
      refine ⟨checked_of_mergePartExtraData he, hothers, fun t => ⟨e.pv t, hpv t, ?_⟩⟩
      rw [if_neg fun h => hcalling ⟨Finset.ne_empty_of_mem h.2.1, h.1⟩]

/-- **After the write every part serves what is wanted of a type.** -/
theorem fresh_mergedExtra (hshift : q.Shiftable) (ht : t ∈ typesOf (item.wantedLeft q))
    (he : item.mergedExtra q p = some e) :
    Fresh t (e.pv t) (item.wantedLeft q) q.durationMs (item.refreshFinal q) := by
  obtain ⟨d, -, -, -, hpv⟩ := mergedExtra_spec he
  obtain ⟨v, hv, hev⟩ := hpv t
  have hown : t ∉ item.ownTypes q := fun h => (Finset.mem_sdiff.mp h).2 ht
  rw [if_neg fun h => hown h.2.1] at hev
  rw [hev]
  refine .of_mergeValue (Finset.mem_union_left _ ht) ht (fun m hm hc => ?_) hv
  obtain ⟨hm, htype⟩ := mem_ofType.mp hm
  exact hshift m (mem_wantedLeft.mp hm).1 (htype.trans hc)

/-- The item serves the wanted times of a type: in its rows and in every part. -/
structure Serves (item : Item) (t : PlexType) (times : List (ℤ × ℤ)) : Prop where
  /-- The rows. -/
  rows : rowsServed item.itemRows t = times
  /-- The parts. -/
  parts : ∀ p ∈ item.parts, (p.pv t).bind (partServed t) = some times

/-- **After a write the item serves what was wanted of every type that is ours**, and its rows are numbered. -/
theorem serves_write (hplan : item.plan q = some plan) (hshift : q.Shiftable) (createdAt : ℤ) :
    (∀ t ∈ typesOf plan.ours, Serves (item.write plan createdAt) t (servedOf q.wanted t)) ∧
      (nothingToWrite plan = false → Numbered (item.write plan createdAt)) := by
  obtain ⟨hplannable, hp⟩ := plan_eq_some_iff.mp hplan
  have hours : plan.ours = item.wantedLeft q := by rw [hp]
  have hupdates : plan.partUpdates = item.partUpdates q := by rw [hp]
  constructor
  · intro t ht
    rw [hours] at ht
    have hwanted : servedOf q.wanted t = servedOf (item.wantedLeft q) t :=
      (servedOf_congr (ofType_wantedLeft (mem_typesOf_wantedLeft.mp ht).2)).symm
    constructor
    · rw [← map_timesOf_rowsServedWithFinal, hwanted]
      exact (fit_write hplan hshift ht).1
    · intro p' hp'
      rw [parts_write, hupdates] at hp'
      obtain ⟨p, hpart, rfl⟩ := List.mem_map.mp hp'
      obtain ⟨e, he⟩ := Option.isSome_iff_exists.mp (hplannable.2 p hpart)
      rw [pv_foldl_partUpdates hpart he, hwanted]
      exact (fresh_mergedExtra hshift ht he).served
  · intro hsome
    have hwrite : item.write plan createdAt = item.applyPlan plan createdAt := if_neg (by simp [hsome])
    rw [hwrite]
    exact numbered_applyPlan hplan

end Item

/-! ### An episode with Plex's own intro -/

/-- An intro and credits, under "Keep Plex's". -/
def ownIntroRequest : Request where
  wanted := [⟨.intro, 12000, 42000, ["chapters"], false⟩, ⟨.credits, 1200000, 1319000, ["chapters"], false⟩]
  prior := []
  durationMs := some 1320000
  ownPrior := []
  callingPartIds := [1]
  keptBefore := ∅
  keepPlex := true
  limits := none

theorem shiftable_ownIntroRequest : ownIntroRequest.Shiftable := by
  unfold Request.Shiftable
  decide

/-- Its intro is kept, its credits are written. -/
theorem serves_write_ownIntro : ∃ plan, mergedEpisode.toItem.plan ownIntroRequest = some plan ∧
    (∀ t ∈ typesOf plan.ours, Item.Serves (mergedEpisode.toItem.write plan 1700000100) t
      (servedOf ownIntroRequest.wanted t)) ∧
      (nothingToWrite plan = false → (mergedEpisode.toItem.write plan 1700000100).Numbered) := by
  obtain ⟨plan, hplan⟩ := Option.isSome_iff_exists.mp
    (show (mergedEpisode.toItem.plan ownIntroRequest).isSome = true by decide +kernel)
  exact ⟨plan, hplan, Item.serves_write hplan shiftable_ownIntroRequest 1700000100⟩

end MediaPreview.Plex
