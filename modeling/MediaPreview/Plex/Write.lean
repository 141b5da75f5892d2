import MediaPreview.Plex.Plan

/-!
# Writing one item's plan

`LocalPlexDb._apply_plan`: the rows of the replaced texts are deleted, the new rows added, the rows that stay
renumbered and the parts given their new `extra_data` (`Item.applyPlan`). An item with nothing to write is left alone
(`Item.write`, the loop of `_write_item`).

A row keeps what it says (`sameRows_write`), and a part comes out with what was merged into it (`parts_applyPlan`,
`Item.written_extraData`).
-/

namespace MediaPreview.Plex

open Ranking Markers

/-! ### Updates by id -/

/-- `UPDATE taggings SET [index]=? WHERE id=?`. -/
def setIndex (rows : List TaggingRow) (update : ℤ × ℕ) : List TaggingRow :=
  rows.map fun r => if r.id = update.2 then { r with index := update.1 } else r

/-- `UPDATE media_parts SET extra_data=? WHERE id=?`, on one part. -/
def Part.update (p : Part) (update : Extra × ℕ) : Part :=
  if p.id = update.2 then { p with extraData := some update.1 } else p

/-- `UPDATE media_parts SET extra_data=? WHERE id=?`. -/
def setExtraData (parts : List Part) (update : Extra × ℕ) : List Part := parts.map fun p => p.update update

/-- The rows `INSERT INTO taggings` adds. -/
def insertedRows (inserts : List (ℤ × MarkerTag)) (nextId : ℕ) (createdAt : ℤ) : List TaggingRow :=
  inserts.zipIdx.map fun x => ⟨x.1.2, nextId + x.2, x.1.1, some createdAt⟩

variable {rows : List TaggingRow} {parts : List Part} {t : PlexType} {p : Part}

theorem map_id_setIndex (rows : List TaggingRow) (u : ℤ × ℕ) :
    (setIndex rows u).map TaggingRow.id = rows.map TaggingRow.id := by
  rw [setIndex, List.map_map]
  refine List.map_congr_left fun r _ => ?_
  simp only [Function.comp_apply]
  split_ifs <;> rfl

/-- A row renumbered says what it said. -/
theorem content_rowsOf_setIndex (rows : List TaggingRow) (u : ℤ × ℕ) (t : PlexType) :
    (rowsOf (setIndex rows u) t).map TaggingRow.content = (rowsOf rows t).map TaggingRow.content := by
  induction rows with
  | nil => rfl
  | cons r rows ih =>
    have hr : (if r.id = u.2 then { r with index := u.1 } else r).text = r.text := by split_ifs <;> rfl
    have hc : (if r.id = u.2 then { r with index := u.1 } else r).content = r.content := by split_ifs <;> rfl
    simp only [setIndex, rowsOf, List.map_cons, List.filter_cons, hr] at ih ⊢
    by_cases ht : r.text = t.text
    · simp only [ht, decide_true, if_true, List.map_cons, hc, ih]
    · simp only [ht, decide_false, Bool.false_eq_true, if_false, ih]

theorem map_id_foldl_setIndex (us : List (ℤ × ℕ)) (rows : List TaggingRow) :
    (us.foldl setIndex rows).map TaggingRow.id = rows.map TaggingRow.id := by
  induction us generalizing rows with
  | nil => rfl
  | cons u us ih => rw [List.foldl_cons, ih, map_id_setIndex]

theorem content_rowsOf_foldl_setIndex (us : List (ℤ × ℕ)) (rows : List TaggingRow) (t : PlexType) :
    (rowsOf (us.foldl setIndex rows) t).map TaggingRow.content = (rowsOf rows t).map TaggingRow.content := by
  induction us generalizing rows with
  | nil => rfl
  | cons u us ih => rw [List.foldl_cons, ih, content_rowsOf_setIndex]

@[simp] theorem Part.update_id (p : Part) (u : Extra × ℕ) : (p.update u).id = p.id := by
  unfold Part.update
  split_ifs <;> rfl

theorem foldl_setExtraData (us : List (Extra × ℕ)) (parts : List Part) :
    us.foldl setExtraData parts = parts.map fun p => us.foldl Part.update p := by
  induction us generalizing parts with
  | nil => exact (List.map_id parts).symm
  | cons u us ih =>
    rw [List.foldl_cons, ih, setExtraData, List.map_map]
    rfl

@[simp] theorem foldl_update_id (us : List (Extra × ℕ)) (p : Part) : (us.foldl Part.update p).id = p.id := by
  induction us generalizing p with
  | nil => rfl
  | cons u us ih => rw [List.foldl_cons, ih, Part.update_id]

/-- A part no update names stays. -/
theorem foldl_update_of_forall_ne {us : List (Extra × ℕ)} (h : ∀ u ∈ us, u.2 ≠ p.id) : us.foldl Part.update p = p := by
  induction us with
  | nil => rfl
  | cons u us ih =>
    have hu : p.update u = p := if_neg (h u List.mem_cons_self).symm
    rw [List.foldl_cons, hu]
    exact ih fun v hv => h v (List.mem_cons_of_mem u hv)

/-- A part that every update of its id gives the same `extra_data` has it in the end. -/
theorem foldl_update_of_forall {us : List (Extra × ℕ)} {e : Extra} (h : ∀ u ∈ us, u.2 = p.id → u.1 = e)
    (hex : ∃ u ∈ us, u.2 = p.id) : us.foldl Part.update p = { p with extraData := some e } := by
  induction us generalizing p with
  | nil => simp at hex
  | cons u us ih =>
    have htail : ∀ v ∈ us, v.2 = p.id → v.1 = e := fun v hv => h v (List.mem_cons_of_mem u hv)
    rw [List.foldl_cons]
    by_cases hu : u.2 = p.id
    · have hupdate : p.update u = { p with extraData := some e } := by
        rw [Part.update, if_pos hu.symm, h u List.mem_cons_self hu]
      rw [hupdate]
      by_cases hlater : ∃ v ∈ us, v.2 = p.id
      · exact ih (p := { p with extraData := some e }) htail hlater
      · exact foldl_update_of_forall_ne fun v hv heq => hlater ⟨v, hv, heq⟩
    · have hupdate : p.update u = p := if_neg (Ne.symm hu)
      rw [hupdate]
      refine ih htail ?_
      obtain ⟨v, hv, heq⟩ := hex
      exact ⟨v, (List.mem_cons.mp hv).resolve_left fun h => hu (h ▸ heq), heq⟩

/-! ### The write -/

namespace Item

variable (item : Item) (plan : Plan) (createdAt : ℤ)

/-- The rows after `_apply_plan`. -/
def writtenRows : List TaggingRow :=
  plan.reindex.foldl setIndex
    ((item.rows.filter fun r => r.text ∉ plan.replacedTexts) ++ insertedRows plan.inserts item.nextId createdAt)

theorem map_id_insertedRows (inserts : List (ℤ × MarkerTag)) (nextId : ℕ) (createdAt : ℤ) :
    (insertedRows inserts nextId createdAt).map TaggingRow.id = List.range' nextId inserts.length := by
  rw [insertedRows, List.map_map, List.range'_eq_map_range, List.range_eq_range', ← List.zipIdx_map_snd 0 inserts,
    List.map_map]
  rfl

theorem ids_writtenRows : (item.writtenRows plan createdAt).map TaggingRow.id =
    (item.rows.filter fun r => r.text ∉ plan.replacedTexts).map TaggingRow.id ++
      List.range' item.nextId plan.inserts.length := by
  rw [writtenRows, map_id_foldl_setIndex, List.map_append, map_id_insertedRows]

/-- `_apply_plan`. -/
def applyPlan : Item where
  rows := item.writtenRows plan createdAt
  parts := plan.partUpdates.foldl setExtraData item.parts
  nextId := item.nextId + plan.inserts.length
  ids_nodup := by
    rw [ids_writtenRows, List.nodup_append]
    refine ⟨item.ids_nodup.sublist (List.filter_sublist.map _), List.nodup_range', fun a ha b hb => ?_⟩
    obtain ⟨r, hr, rfl⟩ := List.mem_map.mp ha
    have hlt := item.ids_lt r (List.mem_of_mem_filter hr)
    have hle := (List.mem_range'_1.mp hb).1
    omega
  ids_lt := by
    intro r hr
    have hid := List.mem_map_of_mem (f := TaggingRow.id) hr
    rw [ids_writtenRows, List.mem_append] at hid
    rcases hid with hid | hid
    · obtain ⟨r', hr', heq⟩ := List.mem_map.mp hid
      have hlt := item.ids_lt r' (List.mem_of_mem_filter hr')
      omega
    · exact (List.mem_range'_1.mp hid).2
  partIds_nodup := by
    have hids : (plan.partUpdates.foldl setExtraData item.parts).map Part.id = item.parts.map Part.id := by
      rw [foldl_setExtraData, List.map_map]
      exact List.map_congr_left fun p _ => foldl_update_id plan.partUpdates p
    rw [hids]
    exact item.partIds_nodup

/-- The item after the write: as it was when there is nothing to write. -/
def write : Item := if nothingToWrite plan then item else item.applyPlan plan createdAt

variable {item plan createdAt}

/-- With nothing to write there is no part to write either. -/
theorem parts_write :
    (item.write plan createdAt).parts = item.parts.map fun p => plan.partUpdates.foldl Part.update p := by
  unfold write
  split_ifs with h
  · have hnil : plan.partUpdates = [] := by
      simp only [nothingToWrite, Plan.isNoop, Bool.or_eq_true, Bool.and_eq_true, decide_eq_true_eq] at h
      exact h.elim And.right And.right
    rw [hnil]
    exact (List.map_id item.parts).symm
  · exact foldl_setExtraData plan.partUpdates item.parts

/-- **The rows of a text that is not replaced say what they said.** -/
theorem content_rowsOf_write (ht : t.text ∉ plan.replacedTexts) (hins : ∀ x ∈ plan.inserts, x.2.text ≠ t.text) :
    (rowsOf (item.write plan createdAt).rows t).map TaggingRow.content =
      (rowsOf item.rows t).map TaggingRow.content := by
  unfold write
  split_ifs
  · rfl
  have hkept : rowsOf (item.rows.filter fun r => r.text ∉ plan.replacedTexts) t = rowsOf item.rows t := by
    simp only [rowsOf, List.filter_filter]
    refine List.filter_congr fun r _ => ?_
    by_cases hr : r.text = t.text
    · simp [hr, ht]
    · simp [hr]
  have hnew : rowsOf (insertedRows plan.inserts item.nextId createdAt) t = [] := by
    rw [rowsOf, List.filter_eq_nil_iff]
    intro r hr
    obtain ⟨x, hx, rfl⟩ := List.mem_map.mp hr
    simpa using hins x.1 (List.fst_mem_of_mem_zipIdx hx)
  have happend : rowsOf ((item.rows.filter fun r => r.text ∉ plan.replacedTexts) ++
      insertedRows plan.inserts item.nextId createdAt) t = rowsOf item.rows t := by
    rw [rowsOf, List.filter_append]
    change rowsOf _ t ++ rowsOf _ t = _
    rw [hkept, hnew, List.append_nil]
  change (rowsOf (item.writtenRows plan createdAt) t).map TaggingRow.content = _
  rw [writtenRows, content_rowsOf_foldl_setIndex, happend]

/-! ### What a plan leaves -/

variable {q : Request} {e : Extra}

/-- The rows added are of the types replaced. -/
theorem exists_of_mem_inserts {x : ℤ × MarkerTag} (h : x ∈ item.inserts q) :
    ∃ t ∈ item.replaced q, x.2.text = t.text := by
  simp only [inserts, List.mem_filterMap] at h
  obtain ⟨⟨entry, n⟩, hmem, hx⟩ := h
  have hentry : entry ∈ item.entries q := List.fst_mem_of_mem_zipIdx hmem
  cases entry with
  | inl r => simp at hx
  | inr r =>
    obtain rfl : ((n : ℤ), r) = x := by simpa using hx
    simp only [entries, mem_sortBy, List.mem_append, List.mem_map, reduceCtorEq, and_false, exists_false, false_or,
      Sum.inr.injEq, exists_eq_right] at hentry
    simp only [ours, rewritten, List.mem_filterMap, List.mem_filter, decide_eq_true_eq] at hentry
    obtain ⟨m, ⟨-, hm⟩, hrow⟩ := hentry
    refine ⟨m.type, hm, ?_⟩
    obtain ⟨s, -, rfl⟩ := Option.map_eq_some_iff.mp hrow
    rfl

/-- **A part comes out with what was merged into it.** -/
theorem extraData_foldl_partUpdates (hp : p ∈ item.parts) (he : item.mergedExtra q p = some e) :
    ∃ d, ((item.partUpdates q).foldl Part.update p).extraData = some d ∧ sameExtraData e (some d) = true := by
  have hmem : ∀ u ∈ item.partUpdates q, u.2 = p.id → u.1 = e ∧ sameExtraData e p.extraData = false := by
    intro u hu hid
    simp only [partUpdates, List.mem_filterMap, Option.bind_eq_some_iff] at hu
    obtain ⟨p', hp', e', he', hu⟩ := hu
    split_ifs at hu with hsame
    obtain rfl := Option.some.inj hu
    obtain rfl : p' = p := List.inj_on_of_nodup_map item.partIds_nodup hp' hp hid
    obtain rfl := Option.some.inj (he'.symm.trans he)
    exact ⟨rfl, Bool.not_eq_true _ ▸ hsame⟩
  by_cases hsame : sameExtraData e p.extraData = true
  · have hnone : ∀ u ∈ item.partUpdates q, u.2 ≠ p.id := by
      intro u hu hid
      rw [(hmem u hu hid).2] at hsame
      exact Bool.false_ne_true hsame
    rw [foldl_update_of_forall_ne hnone]
    cases hd : p.extraData with
    | none =>
      rw [hd] at hsame
      exact absurd hsame Bool.false_ne_true
    | some d =>
      rw [hd] at hsame
      exact ⟨d, rfl, hsame⟩
  · have hu : (e, p.id) ∈ item.partUpdates q := by
      simp only [partUpdates, List.mem_filterMap, Option.bind_eq_some_iff]
      exact ⟨p, hp, e, he, if_neg hsame⟩
    rw [foldl_update_of_forall (fun u hu hid => (hmem u hu hid).1) ⟨_, hu, rfl⟩]
    exact ⟨e, rfl, sameExtraData_iff.mpr ⟨fun _ => rfl, rfl⟩⟩

/-- Each of its values is the merged one. -/
theorem pv_foldl_partUpdates (hp : p ∈ item.parts) (he : item.mergedExtra q p = some e) (t : PlexType) :
    ((item.partUpdates q).foldl Part.update p).pv t = some (e.pv t) := by
  obtain ⟨d, hd, hsame⟩ := extraData_foldl_partUpdates hp he
  rw [Part.pv, hd, Option.map_some, pv_eq_of_sameExtraData hsame]

/-- What the calling file left of a type on the item it belonged to is on the part. -/
def LeftByOwn (q : Request) (t : PlexType) (p : Part) : Prop :=
  t ∈ typesOf q.ownPrior ∧ p.id ∈ q.callingPartIds ∧
    ∃ d ∈ p.extraData, partServed t (d.pv t) = some (servedOf q.ownPrior t)

/-- **The value of a kept type is merged as it is**, unless it is what the calling file left there: then it goes. -/
theorem pv_mergedExtra_of_kept (hk : t ∈ item.kept q) (he : item.mergedExtra q p = some e) :
    ∃ d, p.extraData = some d ∧
      (LeftByOwn q t p → e.pv t = none) ∧ (¬ LeftByOwn q t p → e.pv t = d.pv t) := by
  have hwanted : t ∉ typesOf (item.wantedLeft q) := fun h => (mem_typesOf_wantedLeft.mp h).2 hk
  have hprior : t ∉ typesOf (item.priorLeft q) := fun h => (mem_typesOf_priorLeft.mp h).2 hk
  have hmanaged : t ∉ item.managed q := by
    rw [managed, Finset.mem_union]
    exact not_or.mpr ⟨hwanted, hprior⟩
  cases hd : p.extraData with
  | none =>
    simp only [mergedExtra, hd, mergePartExtraData, Option.bind_eq_bind, Option.bind_none, ite_self] at he
    exact absurd he (Option.some_ne_none e).symm
  | some d =>
    refine ⟨d, rfl, ?_⟩
    have hleft : LeftByOwn q t p ↔ t ∈ typesOf q.ownPrior ∧ p.id ∈ q.callingPartIds ∧
        partServed t (d.pv t) = some (servedOf q.ownPrior t) := by simp [LeftByOwn, hd]
    have hown : t ∈ item.ownTypes q ↔ t ∈ typesOf q.ownPrior := by
      rw [ownTypes, Finset.mem_sdiff, and_iff_left hwanted]
    unfold mergedExtra at he
    rw [hd] at he
    split_ifs at he with hcalling
    · obtain ⟨e', he', he⟩ := Option.bind_eq_some_iff.mp he
      have hfirst := (mergePartExtraData_spec he').2.2 t
      have hsecond := (mergePartExtraData_spec he).2.2 t
      rw [mergeValue_of_not_mem hmanaged] at hfirst
      rw [mergeValue_of_not_wanted (by simp), ← Option.some.inj hfirst] at hsecond
      have hsecond := Option.some.inj hsecond
      constructor
      · intro h
        rw [← hsecond, if_pos ⟨hown.mpr (hleft.mp h).1, (hleft.mp h).1, (hleft.mp h).2.2⟩]
      · intro h
        rw [← hsecond, if_neg fun hc => h (hleft.mpr ⟨hc.2.1, hcalling.2, hc.2.2⟩)]
    · have hfirst := (mergePartExtraData_spec he).2.2 t
      rw [mergeValue_of_not_mem hmanaged] at hfirst
      refine ⟨fun h => absurd ?_ hcalling, fun _ => (Option.some.inj hfirst).symm⟩
      exact ⟨Finset.ne_empty_of_mem (hown.mpr (hleft.mp h).1), (hleft.mp h).2.1⟩

end Item

end MediaPreview.Plex
