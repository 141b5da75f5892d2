import MediaPreview.Plex.Kept
import MediaPreview.Plex.Merge

/-!
# Planning one item's write

`LocalPlexDb._plan`: what one write changes of an item (`Item.plan`), from the item's rows and parts and what is asked
(`Request`). Each of the function's local names is a definition here.

A type's rows are replaced as a whole or left as they are (`Item.replaced`); the rows there are then, kept and new,
are numbered by text, then start, then end (`Item.entries`).
-/

namespace MediaPreview.Plex

open Ranking Markers

/-- An item of Plex's database: its marker rows and its live parts. -/
structure Item where
  /-- The marker rows. -/
  rows : List TaggingRow
  /-- The live parts. -/
  parts : List Part
  /-- The id the next row gets. -/
  nextId : ℕ
  /-- A row's id is its own. -/
  ids_nodup : (rows.map TaggingRow.id).Nodup
  /-- The next row's id is unused. -/
  ids_lt : ∀ r ∈ rows, r.id < nextId
  /-- A part's id is its own. -/
  partIds_nodup : (parts.map Part.id).Nodup

/-- What `_plan` is asked, besides the item. -/
structure Request where
  /-- The markers the item should show. -/
  wanted : List PlexMarker
  /-- What this app last left on the item. -/
  prior : List PlexMarker
  /-- The file's duration, where known. -/
  durationMs : Option ℤ
  /-- What the calling file left on the item it belonged to before a merge or split. -/
  ownPrior : List PlexMarker
  /-- The parts that are the calling file. -/
  callingPartIds : List ℕ
  /-- The types the last write kept as Plex's own. -/
  keptBefore : Finset PlexType
  /-- "Keep Plex's" is on for this server. -/
  keepPlex : Bool
  /-- The file's limits a kept Plex marker must fit, unless not checked. -/
  limits : Option FileLimits

/-- `_Plan`: what one write changes; empty lists mean nothing to do. -/
structure Plan where
  /-- The texts whose rows are deleted. -/
  replacedTexts : List String
  /-- The rows added, with their numbers. -/
  inserts : List (ℤ × MarkerTag)
  /-- The new numbers of rows that stay, by id. -/
  reindex : List (ℤ × ℕ)
  /-- The new `extra_data` of parts, by id. -/
  partUpdates : List (Extra × ℕ)
  /-- The wanted markers the item shows as ours after the write. -/
  ours : List PlexMarker
  /-- The types whose rows are Plex's own and stay. -/
  keptTypes : Finset PlexType
  /-- The locked types whose Plex rows this write replaces under "Keep Plex's". -/
  replacedOwn : Finset PlexType
  /-- The types "Keep Plex's" would have kept had their rows been made for this file. -/
  replacedStale : Finset PlexType

/-- `_Plan.is_noop`. -/
def Plan.isNoop (p : Plan) : Bool := p.replacedTexts = [] && p.reindex = [] && p.partUpdates = []

/-- `_nothing_to_write`: other rows are only renumbered around rows this write removes. -/
def nothingToWrite (p : Plan) : Bool :=
  p.isNoop || (p.ours = [] && p.replacedTexts = [] && p.partUpdates = [])

/-- `_tagging_extra`, as fields in the order they are written. -/
def taggingExtra (t : PlexType) (final : Bool) : List (String × String) :=
  match t with
  | .intro => [("pv:version", toString introJsonVersion)]
  | .credits => (if final then [("pv:final", "1")] else []) ++ [("pv:version", toString creditsJsonVersion)]

/-- `_stored_row`, with the type's text. -/
def storedRow (m : PlexMarker) (durationMs : Option ℤ) : Option MarkerTag :=
  (storedTimes m durationMs).map fun s => ⟨m.type.text, s.1, s.2.1, some (taggingExtra m.type s.2.2)⟩

/-- The order Plex numbers rows in: by text, then start, then end. -/
def numberingKey (r : MarkerTag) : String ×ₗ ℤ ×ₗ ℤ := toLex (r.text, toLex (r.timeOffset, r.endTimeOffset))

/-- What a row says, whether it is there or added. -/
def tagOf : TaggingRow ⊕ MarkerTag → MarkerTag
  | .inl r => r.toMarkerTag
  | .inr r => r

namespace Item

variable (item : Item) (q : Request)

/-- `_item_rows`: the marker rows in the order of their numbers. -/
def itemRows : List TaggingRow := sortBy (fun r => toLex (r.index, r.id)) item.rows

/-- `locked`: the types a wanted marker is locked for. -/
def locked : Finset PlexType := typesOf (q.wanted.filter PlexMarker.locked)

/-- `stale`. -/
def stale : Finset PlexType := typesNotMadeForFile item.itemRows item.parts

/-- `would_keep`: what the setting would keep. -/
def wouldKeep : Finset PlexType :=
  keptTypes item.itemRows q.wanted q.prior q.ownPrior q.keptBefore q.keepPlex q.limits item.stale

/-- `kept_types`: what stays, locked types aside. -/
def kept : Finset PlexType := item.wouldKeep q \ locked q

/-- `wanted`, kept types left out. -/
def wantedLeft : List PlexMarker := q.wanted.filter fun m => m.type ∉ item.kept q

/-- `prior`, kept types left out. -/
def priorLeft : List PlexMarker := q.prior.filter fun m => m.type ∉ item.kept q

/-- `refresh_final`. -/
def refreshFinal : Finset PlexType := refreshFinalTypes item.parts (item.wantedLeft q) q.durationMs q.keepPlex

/-- A wanted type's rows serve other times than the wanted ones, or only their `final` flag is stale. -/
def Unfit (t : PlexType) : Prop :=
  (rowsServedWithFinal item.itemRows t).map timesOf ≠ servedOf (item.wantedLeft q) t ∨
    t ∈ item.refreshFinal q ∧
      some (rowsServedWithFinal item.itemRows t) ≠ servedWithFinal (item.wantedLeft q) t q.durationMs

/-- A type no longer wanted whose rows serve exactly what was published. -/
def LeftOver (t : PlexType) : Prop := rowsServed item.itemRows t = servedOf (item.priorLeft q) t

instance (t : PlexType) : Decidable (item.Unfit q t) := by
  unfold Unfit
  infer_instance

instance (t : PlexType) : Decidable (item.LeftOver q t) := by
  unfold LeftOver
  infer_instance

/-- `replaced`, by type. -/
def replaced : Finset PlexType :=
  (typesOf (item.wantedLeft q)).filter (item.Unfit q) ∪
    (typesOf (item.priorLeft q) \ typesOf (item.wantedLeft q)).filter (item.LeftOver q)

/-- The texts of the types replaced, in order. -/
def replacedTexts : List String := ([PlexType.credits, .intro].filter fun t => t ∈ item.replaced q).map PlexType.text

/-- The wanted markers of the types replaced. -/
def rewritten : List PlexMarker := (item.wantedLeft q).filter fun m => m.type ∈ item.replaced q

/-- `ours`: the rows added. -/
def ours : List MarkerTag := (item.rewritten q).filterMap fun m => storedRow m q.durationMs

/-- `kept`: the rows that stay. -/
def keptRows : List TaggingRow := item.itemRows.filter fun r => r.text ∉ item.replacedTexts q

/-- `entries`: the rows there are then, in the order they are numbered. -/
def entries : List (TaggingRow ⊕ MarkerTag) :=
  sortBy (fun e => numberingKey (tagOf e)) ((item.keptRows q).map .inl ++ (item.ours q).map .inr)

/-- `inserts`. -/
def inserts : List (ℤ × MarkerTag) :=
  (item.entries q).zipIdx.filterMap fun
    | (.inl _, _) => none
    | (.inr r, index) => some ((index : ℤ), r)

/-- `reindex`. -/
def reindex : List (ℤ × ℕ) :=
  (item.entries q).zipIdx.filterMap fun
    | (.inl r, index) => if r.index ≠ index then some ((index : ℤ), r.id) else none
    | (.inr _, _) => none

/-- `managed`. -/
def managed : Finset PlexType := typesOf (item.wantedLeft q) ∪ typesOf (item.priorLeft q)

/-- `own_types`: types the calling file published before a merge or split, not wanted here. -/
def ownTypes : Finset PlexType := typesOf q.ownPrior \ typesOf (item.wantedLeft q)

/-- The `extra_data` a part should have; `none` where merging raises. -/
def mergedExtra (p : Part) : Option Extra :=
  let extra := mergePartExtraData p.extraData (item.wantedLeft q) (item.managed q) q.durationMs (item.priorLeft q)
    (item.refreshFinal q)
  if item.ownTypes q ≠ ∅ ∧ p.id ∈ q.callingPartIds then
    extra.bind fun e => mergePartExtraData (some e) [] (item.ownTypes q) q.durationMs q.ownPrior ∅
  else extra

/-- `part_updates`. -/
def partUpdates : List (Extra × ℕ) :=
  item.parts.filterMap fun p =>
    (item.mergedExtra q p).bind fun e => if sameExtraData e p.extraData then none else some (e, p.id)

/-- `replaced_stale`, before the rows rewritten are looked at. -/
def keptButStale : Finset PlexType :=
  if item.stale = ∅ then ∅
  else (keptTypes item.itemRows q.wanted q.prior q.ownPrior q.keptBefore q.keepPlex q.limits ∅ \ item.wouldKeep q) \
    locked q

/-- Nothing that is to be written raises: the rows added and the parts can be written. -/
def Plannable : Prop := Storable (item.rewritten q) q.durationMs ∧ ∀ p ∈ item.parts, (item.mergedExtra q p).isSome

instance : Decidable (item.Plannable q) := by
  unfold Plannable
  infer_instance

/-- `_plan`; `none` where it raises. -/
def plan : Option Plan :=
  if item.Plannable q then
    some {
      replacedTexts := item.replacedTexts q
      inserts := item.inserts q
      reindex := item.reindex q
      partUpdates := item.partUpdates q
      ours := item.wantedLeft q
      keptTypes := item.kept q
      replacedOwn := (item.wouldKeep q ∩ locked q).filter fun t => t ∈ item.replaced q
      replacedStale := (item.keptButStale q).filter fun t => t ∈ item.replaced q }
  else none

/-! ### What a plan says -/

variable {item q} {t : PlexType} {p : Plan}

theorem mem_replaced : t ∈ item.replaced q ↔
    t ∈ typesOf (item.wantedLeft q) ∧ item.Unfit q t ∨
      (t ∈ typesOf (item.priorLeft q) ∧ t ∉ typesOf (item.wantedLeft q)) ∧ item.LeftOver q t := by
  rw [replaced, Finset.mem_union, Finset.mem_filter, Finset.mem_filter, Finset.mem_sdiff]

theorem mem_replacedTexts {text : String} : text ∈ item.replacedTexts q ↔ ∃ t ∈ item.replaced q, t.text = text := by
  simp only [replacedTexts, List.mem_map, List.mem_filter, decide_eq_true_eq]
  refine exists_congr fun t => and_congr_left fun _ => and_iff_right ?_
  cases t <;> decide

theorem text_mem_replacedTexts : t.text ∈ item.replacedTexts q ↔ t ∈ item.replaced q := by
  rw [mem_replacedTexts]
  constructor
  · rintro ⟨s, hs, heq⟩
    exact PlexType.text_injective heq ▸ hs
  · intro h
    exact ⟨t, h, rfl⟩

theorem replacedTexts_eq_nil_iff : item.replacedTexts q = [] ↔ item.replaced q = ∅ := by
  rw [List.eq_nil_iff_forall_not_mem, Finset.eq_empty_iff_forall_notMem]
  constructor
  · intro h t ht
    exact h t.text (text_mem_replacedTexts.mpr ht)
  · intro h text ht
    obtain ⟨t, ht, -⟩ := mem_replacedTexts.mp ht
    exact h t ht

theorem mem_wantedLeft {m : PlexMarker} : m ∈ item.wantedLeft q ↔ m ∈ q.wanted ∧ m.type ∉ item.kept q := by
  rw [wantedLeft, List.mem_filter, decide_eq_true_eq]

theorem mem_typesOf_wantedLeft : t ∈ typesOf (item.wantedLeft q) ↔ t ∈ typesOf q.wanted ∧ t ∉ item.kept q := by
  simp only [mem_typesOf, mem_wantedLeft]
  constructor
  · rintro ⟨m, ⟨hm, hk⟩, rfl⟩
    exact ⟨⟨m, hm, rfl⟩, hk⟩
  · rintro ⟨⟨m, hm, rfl⟩, hk⟩
    exact ⟨m, ⟨hm, hk⟩, rfl⟩

theorem mem_typesOf_priorLeft : t ∈ typesOf (item.priorLeft q) ↔ t ∈ typesOf q.prior ∧ t ∉ item.kept q := by
  simp only [priorLeft, mem_typesOf, List.mem_filter, decide_eq_true_eq]
  constructor
  · rintro ⟨m, ⟨hm, hk⟩, rfl⟩
    exact ⟨⟨m, hm, rfl⟩, hk⟩
  · rintro ⟨⟨m, hm, rfl⟩, hk⟩
    exact ⟨m, ⟨hm, hk⟩, rfl⟩

/-- A type that is not kept keeps its markers. -/
theorem ofType_filter_not_mem (markers : List PlexMarker) {K : Finset PlexType} (h : t ∉ K) :
    ofType (markers.filter fun m => m.type ∉ K) t = ofType markers t := by
  simp only [ofType, List.filter_filter]
  refine List.filter_congr fun m _ => ?_
  by_cases hm : m.type = t
  · simp [hm, h]
  · simp [hm]

theorem ofType_wantedLeft (h : t ∉ item.kept q) : ofType (item.wantedLeft q) t = ofType q.wanted t :=
  ofType_filter_not_mem q.wanted h

/-- A kept type's rows are not replaced. -/
theorem not_mem_replaced_of_kept (h : t ∈ item.kept q) : t ∉ item.replaced q := by
  rw [mem_replaced, mem_typesOf_wantedLeft, mem_typesOf_priorLeft]
  rintro (⟨⟨-, hk⟩, -⟩ | ⟨⟨⟨-, hk⟩, -⟩, -⟩) <;> exact hk h

/-- What a plan says, and that all of it could be worked out. -/
theorem plan_eq_some_iff : item.plan q = some p ↔ item.Plannable q ∧ p = {
      replacedTexts := item.replacedTexts q
      inserts := item.inserts q
      reindex := item.reindex q
      partUpdates := item.partUpdates q
      ours := item.wantedLeft q
      keptTypes := item.kept q
      replacedOwn := (item.wouldKeep q ∩ locked q).filter fun t => t ∈ item.replaced q
      replacedStale := (item.keptButStale q).filter fun t => t ∈ item.replaced q } := by
  unfold plan
  split_ifs with h
  · rw [Option.some.injEq, eq_comm, and_iff_right h]
  · simp only [h, false_and]

end Item

end MediaPreview.Plex
