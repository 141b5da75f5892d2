import MediaPreview.Lib.Stages
import MediaPreview.Plex.Write

/-!
# Planning the items of one file

Plex gives each episode of a multi-episode file its own item with its own copy of the parts, so a write plans the
item and every other item holding exactly its version files: `LocalPlexDb._plans` (`planGroup`), over
`_sibling_items` (`Library.siblingItems`).

Each is planned from its own rows and record (`members`). Plex's own rows of a type there is no answer for are shown
on the items that have none of it: they are lent by the first item that has them (`plexMarkersKept`), and an item that
borrows some (`borrowedMarkers`) is planned again with them among its wanted markers.

Lending takes nothing away: an item keeps the same types whether or not it borrows (`Member.kept_borrowing`).
-/

namespace MediaPreview.Plex

open Ranking Markers

/-! ### The items of a library -/

/-- An item with what `_sibling_items` asks of it. -/
structure LibraryItem extends Item where
  /-- `metadata_items.id`, the rating key. -/
  key : ℕ
  /-- `library_section_id`. -/
  sectionId : Option ℤ
  /-- `metadata_type`. -/
  metadataType : Option ℤ
  /-- `deleted_at` is set. -/
  deleted : Bool

/-- The items of a database. -/
structure Library where
  /-- The items. -/
  items : List LibraryItem
  /-- A rating key is one item's. -/
  keys_nodup : (items.map LibraryItem.key).Nodup

/-- `_sibling_items`: the other items in this item's library that hold exactly its version files. -/
def Library.siblingItems (library : Library) (own : LibraryItem) : List LibraryItem :=
  let files := versionFiles own.parts
  if files = [] then []
  else (sortBy LibraryItem.key (library.items.filter fun d =>
    (∃ p ∈ d.parts, p.file ∈ files) ∧ d.sectionId = own.sectionId ∧ d.metadataType = own.metadataType ∧
      d.deleted = false ∧ d.key ≠ own.key)).filter fun d => versionFiles d.parts = files

/-! ### The items of a write -/

/-- `SiblingState`: what this app last left on an item sharing the written item's files. -/
structure SiblingState where
  /-- The item's rating key. -/
  ratingKey : ℕ
  /-- What this app left on it. -/
  prior : List PlexMarker
  /-- The types it kept there. -/
  keptTypes : Finset PlexType

/-- What `_plans` is asked: `_plan`'s request for the written item, and the records of its siblings. -/
structure GroupRequest extends Request where
  /-- `sibling_states`. -/
  siblingStates : List SiblingState

/-- The same asked with other markers wanted. -/
def Request.asking (q : Request) (wanted : List PlexMarker) : Request := { q with wanted }

@[simp] theorem Request.asking_wanted (q : Request) : q.asking q.wanted = q := rfl

/-- One of `items`: an item holding the file, and what it is planned from. -/
structure Member where
  /-- The item. -/
  item : LibraryItem
  /-- What `_plan` is asked of it. -/
  request : Request

namespace GroupRequest

variable (q : GroupRequest)

/-- `states.get`: of two records of one item the last. -/
def stateOf (key : ℕ) : Option SiblingState := q.siblingStates.reverse.find? fun s => s.ratingKey = key

/-- A sibling is planned from its own record; without one, from what this app left on the written item. -/
def siblingMember (own sibling : LibraryItem) : Member where
  item := sibling
  request := { q.toRequest with
    prior := match q.stateOf sibling.key with
      | some s => s.prior
      | none => q.prior
    keptBefore := match q.stateOf sibling.key with
      | some s => s.keptTypes
      | none => ∅
    callingPartIds :=
      let callingFiles := (own.parts.filter fun p => p.id ∈ q.callingPartIds).map Part.file
      (sibling.parts.filter fun p => p.file ∈ callingFiles).map Part.id }

/-- `items`: the items holding the file, the written one first. -/
def members (library : Library) (own : LibraryItem) : List Member :=
  ⟨own, q.toRequest⟩ :: (library.siblingItems own).map (q.siblingMember own)

end GroupRequest

/-- What every item of a write is asked alike. -/
theorem request_of_mem_members {q : GroupRequest} {library : Library} {own : LibraryItem} {m : Member}
    (h : m ∈ q.members library own) : m.request.wanted = q.wanted ∧ m.request.ownPrior = q.ownPrior ∧
      m.request.keepPlex = q.keepPlex ∧ m.request.limits = q.limits ∧ m.request.durationMs = q.durationMs := by
  rcases List.mem_cons.mp h with rfl | h
  · exact ⟨rfl, rfl, rfl, rfl, rfl⟩
  · obtain ⟨d, -, rfl⟩ := List.mem_map.mp h
    exact ⟨rfl, rfl, rfl, rfl, rfl⟩

/-! ### Lending -/

namespace Member

variable (m : Member)

/-- `_plan` of an item. -/
def plan (wanted : List PlexMarker) : Option Plan := m.item.plan (m.request.asking wanted)

/-- The types an item can lend: those it keeps, and those with rows this app left no marker of there. -/
def lends (p : Plan) : Finset PlexType :=
  p.keptTypes ∪ (Finset.univ.filter fun t => rowsOf m.item.itemRows t ≠ []) \ typesOf m.request.prior

end Member

/-- The order types are gone through in. -/
def plexTypes : List PlexType := [.intro, .credits]

/-- `_plex_markers_kept`: Plex's own markers of the types not wanted, each type's from the first item that has it. -/
def plexMarkersKept (members : List (Member × Plan)) (wanted : List PlexMarker) : List PlexMarker :=
  plexTypes.flatMap fun t =>
    match members.find? fun m => t ∈ m.1.lends m.2 \ typesOf wanted with
    | none => []
    | some m => (rowsServedWithFinal m.1.item.itemRows t).map fun s => ⟨t, s.1, s.2.1, ["plex"], false⟩

/-- `_borrowed_markers`: the Plex markers an item should show. -/
def borrowedMarkers (plexMarkers : List PlexMarker) (rows : List TaggingRow) (prior : List PlexMarker)
    (kept : Finset PlexType) : List PlexMarker :=
  plexTypes.flatMap fun t =>
    let current := (rowsServedWithFinal rows t).map timesOf
    if t ∈ typesOf plexMarkers \ kept ∧ (current = [] ∨ current = servedOf prior t) then ofType plexMarkers t else []

/-- An item's part in a write: what it borrows and its plan. -/
structure MemberPlan where
  /-- The item. -/
  member : Member
  /-- The markers it borrows. -/
  borrowed : List PlexMarker
  /-- What the write changes of it. -/
  plan : Plan

/-- The plan of an item, made again with what it borrows if it borrows anything. -/
def Member.planBorrowing (m : Member) (first : Plan) (wanted plexMarkers : List PlexMarker) : Option MemberPlan :=
  let borrowed := borrowedMarkers plexMarkers m.item.itemRows m.request.prior first.keptTypes
  if borrowed = [] then some ⟨m, [], first⟩
  else (m.plan (wanted ++ borrowed)).map fun p => ⟨m, borrowed, p⟩

/-- `_plans`, item by item; `none` where it raises. -/
def planGroup (library : Library) (own : LibraryItem) (q : GroupRequest) : Option (List MemberPlan) := do
  let first ← (q.members library own).mapM fun m => (m.plan q.wanted).map fun p => (m, p)
  let plexMarkers := plexMarkersKept first q.wanted
  first.mapM fun m => m.1.planBorrowing m.2 q.wanted plexMarkers

/-! ### What is lent -/

variable {library : Library} {own : LibraryItem} {q : GroupRequest} {group : List MemberPlan} {g : MemberPlan}
  {m : Member}

/-- What is lent is of a type that is not wanted, and not locked. -/
theorem of_mem_plexMarkersKept {first : List (Member × Plan)} {wanted : List PlexMarker} {b : PlexMarker}
    (h : b ∈ plexMarkersKept first wanted) : b.locked = false ∧ b.type ∉ typesOf wanted := by
  obtain ⟨t, -, h⟩ := List.mem_flatMap.mp h
  cases hfind : first.find? fun m => t ∈ m.1.lends m.2 \ typesOf wanted with
  | none =>
    rw [hfind] at h
    exact absurd h List.not_mem_nil
  | some m =>
    rw [hfind] at h
    obtain ⟨s, -, rfl⟩ := List.mem_map.mp h
    have hm := List.find?_some hfind
    exact ⟨rfl, (Finset.mem_sdiff.mp (of_decide_eq_true hm)).2⟩

/-- What is borrowed is of a type the item does not keep, and has no rows of or only what was left there. -/
theorem of_mem_borrowedMarkers {plexMarkers prior : List PlexMarker} {rows : List TaggingRow}
    {kept : Finset PlexType} {b : PlexMarker} (h : b ∈ borrowedMarkers plexMarkers rows prior kept) :
    b ∈ plexMarkers ∧ b.type ∉ kept ∧ (rowsServed rows b.type = [] ∨ rowsServed rows b.type = servedOf prior b.type) := by
  obtain ⟨t, -, h⟩ := List.mem_flatMap.mp h
  simp only [map_timesOf_rowsServedWithFinal, Finset.mem_sdiff] at h
  split_ifs at h with hc
  · obtain ⟨hb, rfl⟩ := mem_ofType.mp h
    exact ⟨hb, hc.1.2, hc.2⟩
  · exact absurd h List.not_mem_nil

/-- A list of markers an item may be planned again with. -/
def Item.Borrows (item : Item) (q : Request) (borrowed : List PlexMarker) : Prop :=
  ∀ b ∈ borrowed, b.locked = false ∧ b.type ∉ typesOf q.wanted ∧ b.type ∉ item.kept q ∧
    (rowsServed item.itemRows b.type = [] ∨ rowsServed item.itemRows b.type = servedOf q.prior b.type)

/-- What the setting keeps, when it is on. -/
theorem Item.mem_wouldKeep {item : Item} {q : Request} {t : PlexType} (hkeep : q.keepPlex = true) :
    t ∈ item.wouldKeep q ↔ rowsServed item.itemRows t ≠ [] ∧
      (∀ l ∈ q.limits, plexRowsCantBeRight t (rowsServed item.itemRows t)
        [servedOf q.wanted t, servedOf q.prior t, servedOf q.ownPrior t] l = false) ∧
      ¬ (t ∈ item.stale ∧ t ∈ typesOf q.wanted) ∧
      (t ∈ q.keptBefore ∨ t ∈ typesOf q.wanted ∧
        rowsServed item.itemRows t ∉ [servedOf q.wanted t, servedOf q.prior t, servedOf q.ownPrior t]) := by
  rw [wouldKeep, hkeep]
  exact mem_keptTypes

/-- A type no marker of which is wanted is not locked. -/
theorem not_mem_locked {q : Request} {t : PlexType} (h : t ∉ typesOf q.wanted) : t ∉ Item.locked q := by
  intro hl
  obtain ⟨m, hm, htype⟩ := mem_typesOf.mp hl
  exact h (mem_typesOf.mpr ⟨m, List.mem_of_mem_filter hm, htype⟩)

/-- Rows of which all are ours are not all wrong besides ours. -/
theorem not_plexRowsCantBeRight {t : PlexType} {current : List (ℤ × ℤ)} {ours : List (List (ℤ × ℤ))}
    (h : ∀ times ∈ current, times ∈ ours.flatten) (limits : FileLimits) :
    plexRowsCantBeRight t current ours limits = false := by
  have hnone : current.filter (fun times => times ∉ ours.flatten) = [] := by
    rw [List.filter_eq_nil_iff]
    intro times htimes
    simpa using h times htimes
  simp only [plexRowsCantBeRight, hnone, ne_eq, not_true_eq_false, decide_false, Bool.false_and]

namespace Item.Borrows

variable {item : Item} {q : Request} {borrowed : List PlexMarker} {t : PlexType}

theorem locked_eq (h : item.Borrows q borrowed) : locked (q.asking (q.wanted ++ borrowed)) = locked q := by
  have hnil : borrowed.filter PlexMarker.locked = [] := by
    rw [List.filter_eq_nil_iff]
    exact fun b hb => (h b hb).1 ▸ Bool.false_ne_true
  change typesOf ((q.wanted ++ borrowed).filter PlexMarker.locked) = _
  rw [List.filter_append, hnil, List.append_nil]
  rfl

/-- A type that is borrowed is not kept, whether or not it is. -/
theorem not_mem_wouldKeep (h : item.Borrows q borrowed) (hkeep : q.keepPlex = true) (ht : t ∈ typesOf borrowed) :
    t ∉ item.wouldKeep q ∧ t ∉ item.wouldKeep (q.asking (q.wanted ++ borrowed)) := by
  obtain ⟨b, hb, rfl⟩ := mem_typesOf.mp ht
  obtain ⟨-, hwanted, hkept, hrows⟩ := h b hb
  have hnot : b.type ∉ item.wouldKeep q := fun hw =>
    hkept (Finset.mem_sdiff.mpr ⟨hw, not_mem_locked hwanted⟩)
  refine ⟨hnot, fun hw => ?_⟩
  -- the rows are there, so they are what was left, and only a type kept before keeps those
  obtain ⟨hne, -, -, hwhy⟩ := (mem_wouldKeep (q := q.asking (q.wanted ++ borrowed)) hkeep).mp hw
  have hleft := hrows.resolve_left hne
  have hbefore : b.type ∈ q.keptBefore := by
    refine hwhy.resolve_right fun hc => hc.2 ?_
    rw [hleft]
    exact List.mem_cons_of_mem _ List.mem_cons_self
  refine hnot ((mem_wouldKeep hkeep).mpr ⟨hne, fun l _ => ?_, fun hc => hwanted hc.2, .inl hbefore⟩)
  refine not_plexRowsCantBeRight (fun times htimes => ?_) l
  rw [hleft] at htimes
  simp [htimes]

/-- **An item keeps the same types** whether or not it borrows. -/
theorem kept_eq (h : item.Borrows q borrowed) : item.kept (q.asking (q.wanted ++ borrowed)) = item.kept q := by
  ext t
  rw [kept, kept, h.locked_eq, Finset.mem_sdiff, Finset.mem_sdiff]
  refine and_congr_left fun _ => ?_
  by_cases hkeep : q.keepPlex = true
  · by_cases ht : t ∈ typesOf borrowed
    · obtain ⟨hnot, hnot'⟩ := h.not_mem_wouldKeep hkeep ht
      exact iff_of_false hnot' hnot
    · have hof : ofType (q.wanted ++ borrowed) t = ofType q.wanted t := by
        rw [ofType_append, ofType_eq_nil_iff.mpr ht, List.append_nil]
      have htypes : t ∈ typesOf (q.wanted ++ borrowed) ↔ t ∈ typesOf q.wanted := by
        rw [← not_iff_not, ← ofType_eq_nil_iff, ← ofType_eq_nil_iff, hof]
      have hserved : servedOf (q.asking (q.wanted ++ borrowed)).wanted t = servedOf q.wanted t := servedOf_congr hof
      rw [mem_wouldKeep (q := q) hkeep, mem_wouldKeep (q := q.asking (q.wanted ++ borrowed)) hkeep, hserved]
      change _ ∧ _ ∧ ¬ (_ ∧ t ∈ typesOf (q.wanted ++ borrowed)) ∧ (_ ∨ t ∈ typesOf (q.wanted ++ borrowed) ∧ _) ↔ _
      rw [htypes]
      rfl
  · exact iff_of_false (fun hc => hkeep (keepPlex_of_mem_keptTypes hc)) fun hc => hkeep (keepPlex_of_mem_keptTypes hc)

end Item.Borrows

/-! ### The plans of a group -/

/-- **An item's plan** is made with what it borrows. -/
theorem planBorrowing_spec {first : Plan} {wanted plexMarkers : List PlexMarker} (hfirst : m.plan wanted = some first)
    (h : m.planBorrowing first wanted plexMarkers = some g) :
    g.member = m ∧ g.borrowed = borrowedMarkers plexMarkers m.item.itemRows m.request.prior first.keptTypes ∧
      m.plan (wanted ++ g.borrowed) = some g.plan := by
  unfold Member.planBorrowing at h
  dsimp only at h
  split_ifs at h with hnil
  · obtain rfl := Option.some.inj h
    exact ⟨rfl, hnil.symm, by rw [List.append_nil]; exact hfirst⟩
  · obtain ⟨p, hp, rfl⟩ := Option.map_eq_some_iff.mp h
    exact ⟨rfl, rfl, hp⟩

/-- **The plans of a group** are those of its items, each made with what it borrows. -/
theorem planGroup_spec (h : planGroup library own q = some group) :
    List.Forall₂ (fun m g => g.member = m ∧ m.plan (q.wanted ++ g.borrowed) = some g.plan ∧
      m.item.Borrows (m.request.asking q.wanted) g.borrowed) (q.members library own) group := by
  obtain ⟨first, hfirst, hgroup⟩ := Option.bind_eq_some_iff.mp h
  dsimp only at hgroup
  rw [mapM_eq_some_iff] at hfirst hgroup
  have hlent : ∀ b ∈ plexMarkersKept first q.wanted, b.locked = false ∧ b.type ∉ typesOf q.wanted :=
    fun b => of_mem_plexMarkersKept
  generalize plexMarkersKept first q.wanted = plexMarkers at hgroup hlent
  generalize q.members library own = members at hfirst ⊢
  clear h
  induction hfirst generalizing group with
  | nil =>
    cases hgroup
    exact .nil
  | cons hm _ ih =>
    cases hgroup with
    | cons hg hgroup =>
      refine .cons ?_ (ih hgroup)
      obtain ⟨p, hp, rfl⟩ := Option.map_eq_some_iff.mp hm
      obtain ⟨hmember, hborrowed, hplan⟩ := planBorrowing_spec hp hg
      refine ⟨hmember, hplan, fun b hb => ?_⟩
      rw [hborrowed] at hb
      obtain ⟨hb, hkept, hrows⟩ := of_mem_borrowedMarkers hb
      obtain ⟨hlocked, hwanted⟩ := hlent b hb
      obtain rfl := (Item.plan_eq_some_iff.mp hp).2
      exact ⟨hlocked, hwanted, hkept, hrows⟩

end MediaPreview.Plex
