import MediaPreview.Plex.Write

/-!
# How an item's rows are numbered

Plex numbers the marker rows of an item `0`, `1`, … by text, then start, then end. `_plan` looks for rows that have
another number (`Item.reindex`), and numbers the rows it adds (`Item.inserts`).

After a write the rows of the item are what the plan put in order, each under its place (`map_itemRows_applyPlan`), so
numbering them once more changes nothing (`reindex_of_numbered`).
-/

namespace MediaPreview.Plex

open Ranking

/-! ### A list in two parts -/

/-- Elements taken out in two goes, each in one of them. -/
theorem filterMap_append_filterMap_perm {α β : Type*} {f g : α → Option β} {h : α → β} {l : List α}
    (hone : ∀ a ∈ l, (f a = some (h a) ∧ g a = none) ∨ (f a = none ∧ g a = some (h a))) :
    (l.filterMap f ++ l.filterMap g).Perm (l.map h) := by
  induction l with
  | nil => exact List.Perm.refl _
  | cons a l ih =>
    have ih := ih fun b hb => hone b (List.mem_cons_of_mem a hb)
    rcases hone a List.mem_cons_self with ⟨hf, hg⟩ | ⟨hf, hg⟩
    · rw [List.filterMap_cons_some hf, List.filterMap_cons_none hg, List.map_cons, List.cons_append]
      exact ih.cons (h a)
    · rw [List.filterMap_cons_none hf, List.filterMap_cons_some hg, List.map_cons]
      exact List.perm_middle.trans (ih.cons (h a))

/-! ### New numbers by id -/

/-- One update of a row's number, on one row. -/
def TaggingRow.renumber (r : TaggingRow) (update : ℤ × ℕ) : TaggingRow :=
  if r.id = update.2 then { r with index := update.1 } else r

theorem foldl_setIndex (us : List (ℤ × ℕ)) (rows : List TaggingRow) :
    us.foldl setIndex rows = rows.map fun r => us.foldl TaggingRow.renumber r := by
  induction us generalizing rows with
  | nil => exact (List.map_id rows).symm
  | cons u us ih =>
    rw [List.foldl_cons, ih, setIndex, List.map_map]
    rfl

/-- A row that every update of its id gives one number has it in the end, when it has it already or an update names
the row. -/
theorem foldl_renumber {us : List (ℤ × ℕ)} {r : TaggingRow} {n : ℤ} (h : ∀ u ∈ us, u.2 = r.id → u.1 = n)
    (hex : r.index = n ∨ ∃ u ∈ us, u.2 = r.id) : us.foldl TaggingRow.renumber r = { r with index := n } := by
  induction us generalizing r with
  | nil =>
    obtain rfl : r.index = n := hex.resolve_right (by simp)
    rfl
  | cons u us ih =>
    have htail : ∀ v ∈ us, v.2 = r.id → v.1 = n := fun v hv => h v (List.mem_cons_of_mem u hv)
    rw [List.foldl_cons]
    by_cases hu : u.2 = r.id
    · have hrenumber : r.renumber u = { r with index := n } := by
        rw [TaggingRow.renumber, if_pos hu.symm, h u List.mem_cons_self hu]
      rw [hrenumber]
      exact ih (r := { r with index := n }) htail (.inl rfl)
    · have hrenumber : r.renumber u = r := if_neg (Ne.symm hu)
      rw [hrenumber]
      refine ih htail (hex.imp_right fun ⟨v, hv, heq⟩ => ⟨v, ?_, heq⟩)
      exact (List.mem_cons.mp hv).resolve_left fun hc => hu (hc ▸ heq)

namespace Item

variable {item : Item} {q : Request} {plan : Plan} {createdAt : ℤ}

/-- A row's number with what the row says. -/
def numberAndTag (r : TaggingRow) : ℤ × MarkerTag := (r.index, r.toMarkerTag)

/-- The rows of an item carry the numbers `0`, `1`, … in the order of text, start and end. -/
structure Numbered (item : Item) : Prop where
  /-- The numbers, in the order the rows are read. -/
  numbers : item.itemRows.map TaggingRow.index = (List.range item.rows.length).map Int.ofNat
  /-- The order. -/
  order : item.itemRows.Pairwise fun r s => numberingKey r.toMarkerTag ≤ numberingKey s.toMarkerTag

/-- The rows that stay, each with the number it gets. -/
def numberedKept (item : Item) (q : Request) : List (TaggingRow × ℕ) :=
  (item.entries q).zipIdx.filterMap fun
    | (.inl r, index) => some (r, index)
    | (.inr _, _) => none

theorem reindex_eq : item.reindex q =
    (item.numberedKept q).filterMap fun x => if x.1.index ≠ x.2 then some ((x.2 : ℤ), x.1.id) else none := by
  rw [reindex, numberedKept, List.filterMap_filterMap]
  refine List.filterMap_congr fun x _ => ?_
  obtain ⟨r | r, n⟩ := x <;> rfl

theorem map_fst_numberedKept : ((item.numberedKept q).map Prod.fst).Perm (item.keptRows q) := by
  have hfst : (item.numberedKept q).map Prod.fst = (item.entries q).filterMap Sum.getLeft? := by
    conv_rhs => rw [← List.zipIdx_map_fst 0 (item.entries q)]
    rw [numberedKept, List.map_filterMap, List.filterMap_map]
    refine List.filterMap_congr fun x _ => ?_
    obtain ⟨r | r, n⟩ := x <;> rfl
  have hleft : ((item.keptRows q).map Sum.inl ++ (item.ours q).map Sum.inr).filterMap
      (Sum.getLeft? (α := TaggingRow) (β := MarkerTag)) = item.keptRows q := by
    rw [List.filterMap_append, List.filterMap_map, List.filterMap_map]
    have hr : (item.ours q).filterMap (Sum.getLeft? (α := TaggingRow) ∘ Sum.inr) = [] :=
      List.filterMap_eq_nil_iff.mpr fun _ _ => rfl
    have hl : (item.keptRows q).filterMap (Sum.getLeft? (β := MarkerTag) ∘ Sum.inl) = item.keptRows q :=
      List.filterMap_some
    rw [hl, hr, List.append_nil]
  rw [hfst]
  refine ((sortBy_perm _ _).filterMap Sum.getLeft?).trans ?_
  rw [hleft]

/-- The rows added are the markers' rows, in another order. -/
theorem map_snd_inserts : ((item.inserts q).map Prod.snd).Perm (item.ours q) := by
  have hsnd : (item.inserts q).map Prod.snd = (item.entries q).filterMap Sum.getRight? := by
    conv_rhs => rw [← List.zipIdx_map_fst 0 (item.entries q)]
    rw [inserts, List.map_filterMap, List.filterMap_map]
    refine List.filterMap_congr fun x _ => ?_
    obtain ⟨r | r, n⟩ := x <;> rfl
  have hright : ((item.keptRows q).map Sum.inl ++ (item.ours q).map Sum.inr).filterMap
      (Sum.getRight? (α := TaggingRow) (β := MarkerTag)) = item.ours q := by
    rw [List.filterMap_append, List.filterMap_map, List.filterMap_map]
    have hl : (item.keptRows q).filterMap (Sum.getRight? (β := MarkerTag) ∘ Sum.inl) = [] :=
      List.filterMap_eq_nil_iff.mpr fun _ _ => rfl
    have hr : (item.ours q).filterMap (Sum.getRight? (α := TaggingRow) ∘ Sum.inr) = item.ours q :=
      List.filterMap_some
    rw [hl, hr, List.nil_append]
  rw [hsnd]
  refine ((sortBy_perm _ _).filterMap Sum.getRight?).trans ?_
  rw [hright]

theorem keptRows_perm : (item.keptRows q).Perm (item.rows.filter fun r => r.text ∉ item.replacedTexts q) :=
  (sortBy_perm _ item.rows).filter _

/-- A row that stays is given one number. -/
theorem numberedKept_inj {x y : TaggingRow × ℕ} (hx : x ∈ item.numberedKept q) (hy : y ∈ item.numberedKept q)
    (h : x.1.id = y.1.id) : x = y := by
  have hnodup : ((item.numberedKept q).map fun x => x.1.id).Nodup := by
    have hids : (item.numberedKept q).map (fun x => x.1.id) =
        ((item.numberedKept q).map Prod.fst).map TaggingRow.id := by rw [List.map_map]; rfl
    rw [hids, ((map_fst_numberedKept.trans keptRows_perm).map TaggingRow.id).nodup_iff]
    exact item.ids_nodup.sublist (List.filter_sublist.map _)
  exact List.inj_on_of_nodup_map hnodup hx hy h

/-- **A row that stays has its place for a number.** -/
theorem renumber_of_mem_numberedKept {x : TaggingRow × ℕ} (hx : x ∈ item.numberedKept q) :
    (item.reindex q).foldl TaggingRow.renumber x.1 = { x.1 with index := (x.2 : ℤ) } := by
  have hmem : ∀ u, u ∈ item.reindex q ↔ ∃ y ∈ item.numberedKept q, y.1.index ≠ y.2 ∧ ((y.2 : ℤ), y.1.id) = u := by
    intro u
    rw [reindex_eq, List.mem_filterMap]
    refine exists_congr fun y => and_congr_right fun _ => ?_
    split_ifs with hne
    · simp only [Option.some.injEq, ne_eq, hne, not_false_eq_true, true_and]
    · simp only [hne, false_and]
  refine foldl_renumber (fun u hu hid => ?_) ?_
  · obtain ⟨y, hy, -, rfl⟩ := (hmem u).mp hu
    rw [numberedKept_inj hy hx hid]
  · by_cases hindex : x.1.index = x.2
    · exact .inl hindex
    · exact .inr ⟨_, (hmem _).mpr ⟨x, hx, hindex, rfl⟩, rfl⟩

/-- A row added keeps its number: no update has its id. -/
theorem renumber_insertedRows {r : TaggingRow} (hr : r ∈ insertedRows (item.inserts q) item.nextId createdAt) :
    (item.reindex q).foldl TaggingRow.renumber r = r := by
  refine foldl_renumber (fun u hu hid => ?_) (.inl rfl)
  have hle : item.nextId ≤ r.id := by
    have hid := List.mem_map_of_mem (f := TaggingRow.id) hr
    rw [map_id_insertedRows] at hid
    exact (List.mem_range'_1.mp hid).1
  rw [reindex_eq, List.mem_filterMap] at hu
  obtain ⟨y, hy, hu⟩ := hu
  split_ifs at hu
  obtain rfl := Option.some.inj hu
  have hrow : y.1 ∈ item.rows :=
    List.mem_of_mem_filter ((map_fst_numberedKept.trans keptRows_perm).mem_iff.mp (List.mem_map_of_mem hy))
  have hlt := item.ids_lt y.1 hrow
  change y.1.id = r.id at hid
  omega

/-- **The rows after the write**, each with its number, are the entries of the plan under their places. -/
theorem map_writtenRows_perm (htexts : plan.replacedTexts = item.replacedTexts q)
    (hinserts : plan.inserts = item.inserts q) (hreindex : plan.reindex = item.reindex q) :
    ((item.writtenRows plan createdAt).map numberAndTag).Perm
      ((item.entries q).zipIdx.map fun x => ((x.2 : ℤ), tagOf x.1)) := by
  rw [writtenRows, htexts, hinserts, hreindex, foldl_setIndex, List.map_map, List.map_append]
  have hkept : ((item.rows.filter fun r => r.text ∉ item.replacedTexts q).map
      (numberAndTag ∘ fun r => (item.reindex q).foldl TaggingRow.renumber r)).Perm
      ((item.entries q).zipIdx.filterMap fun
        | (.inl r, n) => some ((n : ℤ), r.toMarkerTag)
        | (.inr _, _) => none) := by
    refine ((map_fst_numberedKept.trans keptRows_perm).symm.map _).trans (List.Perm.of_eq ?_)
    rw [List.map_map]
    have hall : (item.numberedKept q).map ((numberAndTag ∘ fun r => (item.reindex q).foldl TaggingRow.renumber r) ∘
        Prod.fst) = (item.numberedKept q).map fun x => ((x.2 : ℤ), x.1.toMarkerTag) := by
      refine List.map_congr_left fun x hx => ?_
      simp only [Function.comp_apply, renumber_of_mem_numberedKept hx]
      rfl
    rw [hall, numberedKept, List.map_filterMap]
    refine List.filterMap_congr fun x _ => ?_
    obtain ⟨r | r, n⟩ := x <;> rfl
  have hnew : (insertedRows (item.inserts q) item.nextId createdAt).map
      (numberAndTag ∘ fun r => (item.reindex q).foldl TaggingRow.renumber r) = item.inserts q := by
    have hall : (insertedRows (item.inserts q) item.nextId createdAt).map
        (numberAndTag ∘ fun r => (item.reindex q).foldl TaggingRow.renumber r) =
        (insertedRows (item.inserts q) item.nextId createdAt).map numberAndTag := by
      refine List.map_congr_left fun r hr => ?_
      simp only [Function.comp_apply, renumber_insertedRows hr]
    rw [hall, insertedRows, List.map_map]
    exact List.zipIdx_map_fst 0 (item.inserts q)
  rw [hnew]
  refine (hkept.append_right _).trans ?_
  refine filterMap_append_filterMap_perm fun x _ => ?_
  obtain ⟨r | r, n⟩ := x
  · exact .inl ⟨rfl, rfl⟩
  · exact .inr ⟨rfl, rfl⟩

/-- The rows in the order of their numbers are the entries of the plan. -/
theorem map_itemRows_applyPlan (hplan : item.plan q = some plan) :
    (item.applyPlan plan createdAt).itemRows.map numberAndTag =
      (item.entries q).zipIdx.map fun x => ((x.2 : ℤ), tagOf x.1) := by
  have hp := (plan_eq_some_iff.mp hplan).2
  have hperm : ((item.applyPlan plan createdAt).itemRows.map numberAndTag).Perm
      ((item.entries q).zipIdx.map fun x => ((x.2 : ℤ), tagOf x.1)) :=
    ((sortBy_perm _ _).map numberAndTag).trans
      (map_writtenRows_perm (by rw [hp]) (by rw [hp]) (by rw [hp]))
  have hplaces : ((item.entries q).zipIdx.map fun x => ((x.2 : ℤ), tagOf x.1)).Pairwise fun a b => a.1 < b.1 := by
    rw [List.pairwise_map]
    have hidx : ((item.entries q).zipIdx.map Prod.snd).Pairwise (· < ·) := by
      rw [List.zipIdx_map_snd]
      exact List.pairwise_lt_range'
    exact (List.pairwise_map.mp hidx).imp fun h => Int.ofNat_lt.mpr h
  have hsorted : ((item.applyPlan plan createdAt).itemRows.map numberAndTag).Pairwise fun a b => a.1 < b.1 := by
    have hne : ((item.applyPlan plan createdAt).itemRows.map numberAndTag).Pairwise fun a b => a.1 ≠ b.1 :=
      (hperm.pairwise_iff Ne.symm).mpr (hplaces.imp ne_of_lt)
    have hle : ((item.applyPlan plan createdAt).itemRows.map numberAndTag).Pairwise fun a b => a.1 ≤ b.1 := by
      rw [List.pairwise_map]
      refine (pairwise_sortBy _ _).imp fun {r s} h => ?_
      exact (Prod.Lex.toLex_le_toLex.mp h).elim le_of_lt fun h => h.1.le
    exact (hle.and hne).imp fun h => lt_of_le_of_ne h.1 h.2
  exact eq_of_pairwise_lt (R := fun a b : ℤ × MarkerTag => a.1 < b.1) (fun a => lt_irrefl a.1)
    (fun _ _ _ => lt_trans) hsorted hplaces (.of_perm hperm)

/-- **A write leaves the rows numbered.** -/
theorem numbered_applyPlan (hplan : item.plan q = some plan) : Numbered (item.applyPlan plan createdAt) := by
  have hrows : (item.applyPlan plan createdAt).itemRows.map numberAndTag = _ := map_itemRows_applyPlan hplan
  constructor
  · have hlength : (item.applyPlan plan createdAt).rows.length = (item.entries q).length := by
      have hperm : (item.applyPlan plan createdAt).itemRows.Perm (item.applyPlan plan createdAt).rows := sortBy_perm _ _
      have hcount := congrArg List.length hrows
      rwa [List.length_map, List.length_map, List.length_zipIdx, hperm.length_eq] at hcount
    have hnumbers := congrArg (List.map Prod.fst) hrows
    rw [List.map_map, List.map_map] at hnumbers
    rw [hlength, List.range_eq_range', ← List.zipIdx_map_snd 0 (item.entries q), List.map_map]
    exact hnumbers
  · have htags := congrArg (List.map Prod.snd) hrows
    rw [List.map_map, List.map_map] at htags
    have hentries : (item.entries q).zipIdx.map (Prod.snd ∘ fun x => ((x.2 : ℤ), tagOf x.1)) =
        (item.entries q).map tagOf := by
      conv_rhs => rw [← List.zipIdx_map_fst 0 (item.entries q), List.map_map]
      rfl
    have hsorted : ((item.entries q).map tagOf).Pairwise fun r s => numberingKey r ≤ numberingKey s := by
      rw [List.pairwise_map]
      exact pairwise_sortBy _ _
    rw [← hentries, ← htags, List.pairwise_map] at hsorted
    exact hsorted

/-- With nothing replaced the rows there are, in their order, are all there is to number. -/
theorem entries_of_replaced_eq_empty (hnone : item.replaced q = ∅) :
    item.entries q = sortBy (fun e => numberingKey (tagOf e)) (item.itemRows.map Sum.inl) := by
  have htexts : item.replacedTexts q = [] := replacedTexts_eq_nil_iff.mpr hnone
  have hours : item.ours q = [] := by
    have hrewritten : item.rewritten q = [] := by
      rw [rewritten, hnone]
      exact List.filter_eq_nil_iff.mpr fun m _ => by simp
    rw [ours, hrewritten]
    rfl
  have hkept : item.keptRows q = item.itemRows := by
    rw [keptRows, htexts]
    exact List.filter_eq_self.mpr fun r _ => by simp
  rw [entries, hkept, hours, List.map_nil, List.append_nil]

/-- **What is numbered already is not renumbered** when nothing is replaced. -/
theorem reindex_of_numbered (h : item.Numbered) (hnone : item.replaced q = ∅) : item.reindex q = [] := by
  have hentries : item.entries q = item.itemRows.map Sum.inl := by
    rw [entries_of_replaced_eq_empty hnone]
    refine sortBy_eq_self ?_
    rw [List.pairwise_map]
    exact h.order
  rw [reindex, hentries, List.filterMap_eq_nil_iff]
  intro x hx
  rw [List.zipIdx_map] at hx
  obtain ⟨⟨r, n⟩, hrn, rfl⟩ := List.mem_map.mp hx
  have hn : r.index = n := by
    have hget := List.mem_zipIdx_iff_getElem?.mp hrn
    have hnumbers := congrArg (fun l : List ℤ => l[n]?) h.numbers
    simp only [List.getElem?_map, hget, Option.map_some] at hnumbers
    obtain ⟨m, hm, hr⟩ := Option.map_eq_some_iff.mp hnumbers.symm
    rw [List.getElem?_eq_some_iff] at hm
    obtain ⟨hlt, hm⟩ := hm
    rw [List.getElem_range] at hm
    rw [← hr, ← hm]
    rfl
  change (if r.index ≠ n then some ((n : ℤ), r.id) else none) = none
  rw [if_neg (not_not.mpr hn)]

end Item

end MediaPreview.Plex
