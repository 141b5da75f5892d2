import MediaPreview.Plex.Group

/-!
# "Keep Plex's" deletes no marker Plex can be right about

With "Keep Plex's" on and no locked marker wanted, a row a write deletes is one this app knows, one that cannot be
right for the file, or one made for an earlier file that ours replaces (`mayGo_of_replaced`).

The types reported as kept keep their rows. Their values on the parts are kept but for one thing: the calling file's
own part loses a value it left on its former item (`own_prior`), whether or not the type is kept. So a kept type stays
as it was exactly when no such value is there (`keepPlex_spec`).
-/

namespace MediaPreview.Plex

open Ranking Markers

/-! ### What may go and what must stay -/

/-- A row's times cannot be right for the file. -/
def CannotBeRight (t : PlexType) (times : ℤ × ℤ) (limits : FileLimits) : Prop :=
  (unusableServerMarker { type := t.markerType, startMs := times.1, endMs := some times.2, source := .serverMarkers }
    limits).isSome

namespace MemberPlan

variable (g : MemberPlan)

/-- The markers this app knows of an item: wanted, borrowed, left on it, and left by the calling file elsewhere. -/
def known : List PlexMarker :=
  g.member.request.wanted ++ g.borrowed ++ g.member.request.prior ++ g.member.request.ownPrior

/-- A row that may be deleted. -/
def MayGo (r : TaggingRow) : Prop :=
  ∃ t : PlexType, r.text = t.text ∧
    ((∃ m ∈ g.known, m.type = t ∧ (m.startMs, m.endMs) = timesOf (r.served t)) ∨
      (∃ l ∈ g.member.request.limits, CannotBeRight t (timesOf (r.served t)) l) ∨
      (t ∈ typesNotMadeForFile g.member.item.itemRows g.member.item.parts ∧ t ∈ typesOf g.plan.ours))

end MemberPlan

/-- A type's rows say the same and were tagged when they were, and every part's value of it is the same. -/
structure Unchanged (before after : Item) (t : PlexType) : Prop where
  /-- The rows. -/
  rows : (rowsOf after.rows t).map TaggingRow.content = (rowsOf before.rows t).map TaggingRow.content
  /-- The parts. -/
  parts : (after.parts.map fun p => (p.id, p.pv t)) = before.parts.map fun p => (p.id, p.pv t)

/-- What "Keep Plex's" promises of one item of a write. -/
structure MemberPlan.KeepsPlex (g : MemberPlan) (createdAt : ℤ) : Prop where
  /-- A row that is deleted may go. -/
  mayGo : ∀ r ∈ g.member.item.rows, r.text ∈ g.plan.replacedTexts → g.MayGo r
  /-- A kept type stays as it is. -/
  unchanged : ∀ t ∈ g.plan.keptTypes, Unchanged g.member.item.toItem (g.member.item.write g.plan createdAt) t

instance (q : Request) (t : PlexType) (p : Part) : Decidable (Item.LeftByOwn q t p) := by
  unfold Item.LeftByOwn
  infer_instance

/-- What "Keep Plex's" keeps of one item of a write, whatever the calling file left on its former item. -/
structure MemberPlan.KeepsOthers (g : MemberPlan) (createdAt : ℤ) : Prop where
  /-- A row that is deleted may go. -/
  mayGo : ∀ r ∈ g.member.item.rows, r.text ∈ g.plan.replacedTexts → g.MayGo r
  /-- A kept type's rows stay. -/
  rows : ∀ t ∈ g.plan.keptTypes, (rowsOf (g.member.item.write g.plan createdAt).rows t).map TaggingRow.content =
    (rowsOf g.member.item.rows t).map TaggingRow.content
  /-- Its value stays on every part, but for what the calling file left elsewhere: that is taken off. -/
  parts : ∀ t ∈ g.plan.keptTypes, ((g.member.item.write g.plan createdAt).parts.map fun p => (p.id, p.pv t)) =
    g.member.item.parts.map fun p => (p.id, if Item.LeftByOwn g.member.request t p then some none else p.pv t)

/-- Nothing the calling file left on its former item is there for a type an item keeps. -/
def GroupRequest.NothingLeftOnKept (q : GroupRequest) (library : Library) (own : LibraryItem) : Prop :=
  ∀ m ∈ q.members library own,
    ∀ t ∈ keptTypes m.item.itemRows m.request.wanted m.request.prior m.request.ownPrior m.request.keptBefore
        m.request.keepPlex m.request.limits (typesNotMadeForFile m.item.itemRows m.item.parts),
      ∀ p ∈ m.item.parts, ¬ Item.LeftByOwn m.request t p

instance (q : GroupRequest) (library : Library) (own : LibraryItem) : Decidable (q.NothingLeftOnKept library own) := by
  unfold GroupRequest.NothingLeftOnKept
  infer_instance

/-! ### One item -/

namespace Item

variable {item : Item} {q : Request} {plan : Plan} {t : PlexType}

theorem itemRows_perm (item : Item) : item.itemRows.Perm item.rows := sortBy_perm _ item.rows

theorem mem_rowsServed_itemRows {r : TaggingRow} (hr : r ∈ item.rows) (ht : r.text = t.text) :
    timesOf (r.served t) ∈ rowsServed item.itemRows t :=
  mem_rowsServed.mpr ⟨r, mem_rowsOf.mpr ⟨item.itemRows_perm.mem_iff.mpr hr, ht⟩, rfl⟩

theorem locked_eq_empty (hlocked : ∀ m ∈ q.wanted, m.locked = false) : locked q = ∅ := by
  rw [Finset.eq_empty_iff_forall_notMem]
  intro t ht
  obtain ⟨m, hm, -⟩ := mem_typesOf.mp ht
  have hm := List.mem_filter.mp hm
  rw [hlocked m hm.1] at hm
  exact Bool.false_ne_true hm.2

/-- **A row that is deleted** serves a marker this app knows, cannot be right, or was made for an earlier file and makes
room for ours. -/
theorem mayGo_of_replaced (hkeep : q.keepPlex = true) (hlocked : ∀ m ∈ q.wanted, m.locked = false)
    (ht : t ∈ item.replaced q) {times : ℤ × ℤ} (htimes : times ∈ rowsServed item.itemRows t) :
    (∃ m ∈ q.wanted ++ q.prior ++ q.ownPrior, m.type = t ∧ (m.startMs, m.endMs) = times) ∨
      (∃ l ∈ q.limits, CannotBeRight t times l) ∨ (t ∈ item.stale ∧ t ∈ typesOf (item.wantedLeft q)) := by
  have hknown : ∀ markers : List PlexMarker, times ∈ servedOf markers t → markers ⊆ q.wanted ++ q.prior ++ q.ownPrior →
      ∃ m ∈ q.wanted ++ q.prior ++ q.ownPrior, m.type = t ∧ (m.startMs, m.endMs) = times := by
    intro markers hserved hsub
    obtain ⟨m, hm, htype, heq⟩ := mem_servedOf.mp hserved
    exact ⟨m, hsub hm, htype, heq⟩
  have hours : ∀ {served : List (ℤ × ℤ)}, served ∈ [servedOf q.wanted t, servedOf q.prior t, servedOf q.ownPrior t] →
      times ∈ served → ∃ m ∈ q.wanted ++ q.prior ++ q.ownPrior, m.type = t ∧ (m.startMs, m.endMs) = times := by
    intro served hmem hserved
    simp only [List.mem_cons, List.not_mem_nil, or_false] at hmem
    rcases hmem with rfl | rfl | rfl
    · exact hknown _ hserved fun m hm => by simp [hm]
    · exact hknown _ hserved fun m hm => by simp [hm]
    · exact hknown _ hserved fun m hm => by simp [hm]
  have hkept : t ∉ item.kept q := fun hk => not_mem_replaced_of_kept hk ht
  rcases mem_replaced.mp ht with ⟨hwanted, hunfit⟩ | ⟨-, hleft⟩
  · have hshown := (mem_typesOf_wantedLeft.mp hwanted).1
    have hnot : t ∉ item.wouldKeep q := by
      rwa [kept, locked_eq_empty hlocked, Finset.sdiff_empty] at hkept
    rw [mem_wouldKeep hkeep] at hnot
    by_contra hno
    rw [not_or, not_or] at hno
    obtain ⟨hno, hright, hstale⟩ := hno
    refine hnot ⟨List.ne_nil_of_mem htimes, fun l hl => ?_, fun hc => hstale ⟨hc.1, hwanted⟩,
      .inr ⟨hshown, fun hmem => hno (hours hmem htimes)⟩⟩
    -- the row is not ours and can be right, so not every row besides ours cannot
    rw [Bool.eq_false_iff]
    intro hcant
    rw [plexRowsCantBeRight, Bool.and_eq_true, List.all_eq_true] at hcant
    refine hright ⟨l, hl, hcant.2 times (List.mem_filter.mpr ⟨htimes, ?_⟩)⟩
    rw [decide_eq_true_eq, List.mem_flatten]
    rintro ⟨served, hmem, hserved⟩
    exact hno (hours hmem hserved)
  · refine .inl (hknown (item.priorLeft q) (hleft ▸ htimes) fun m hm => ?_)
    simp [List.mem_of_mem_filter hm]

/-- A part's value of a kept type comes out as it was, unless it is what the calling file left elsewhere: then it goes. -/
theorem pv_foldl_partUpdates_of_kept {p : Part} (hplannable : item.Plannable q) (hk : t ∈ item.kept q)
    (hp : p ∈ item.parts) :
    ((item.partUpdates q).foldl Part.update p).pv t = if LeftByOwn q t p then some none else p.pv t := by
  obtain ⟨e, he⟩ := Option.isSome_iff_exists.mp (hplannable.2 p hp)
  obtain ⟨d, hd, hgone, hstays⟩ := pv_mergedExtra_of_kept hk he
  rw [pv_foldl_partUpdates hp he]
  split_ifs with hleft
  · rw [hgone hleft]
  · rw [hstays hleft, Part.pv, hd, Option.map_some]

/-- What the calling file left elsewhere is a value. -/
theorem LeftByOwn.pv_ne {p : Part} (h : LeftByOwn q t p) : p.pv t ≠ some none := by
  obtain ⟨-, -, d, hd, hserved⟩ := h
  intro hnone
  rw [Part.pv, Option.mem_def.mp hd, Option.map_some, Option.some.injEq] at hnone
  rw [hnone, partServed_none] at hserved
  exact Option.some_ne_none _ hserved.symm

/-- **A kept type keeps its rows.** -/
theorem content_rowsOf_write_of_kept (hplan : item.plan q = some plan) (hk : t ∈ item.kept q) (createdAt : ℤ) :
    (rowsOf (item.write plan createdAt).rows t).map TaggingRow.content =
      (rowsOf item.rows t).map TaggingRow.content := by
  obtain ⟨-, hplan⟩ := plan_eq_some_iff.mp hplan
  have htexts : plan.replacedTexts = item.replacedTexts q := by rw [hplan]
  have hinserts : plan.inserts = item.inserts q := by rw [hplan]
  have hreplaced : t ∉ item.replaced q := not_mem_replaced_of_kept hk
  refine content_rowsOf_write (fun hc => ?_) fun x hx heq => ?_
  · rw [htexts] at hc
    exact hreplaced (text_mem_replacedTexts.mp hc)
  · rw [hinserts] at hx
    obtain ⟨s, hs, htext⟩ := exists_of_mem_inserts hx
    exact hreplaced (PlexType.text_injective (htext.symm.trans heq) ▸ hs)

/-- **A kept type keeps its values on the parts**, but for what the calling file left elsewhere. -/
theorem pv_write_of_kept (hplan : item.plan q = some plan) (hk : t ∈ item.kept q) (createdAt : ℤ) :
    ((item.write plan createdAt).parts.map fun p => (p.id, p.pv t)) =
      item.parts.map fun p => (p.id, if LeftByOwn q t p then some none else p.pv t) := by
  obtain ⟨hplannable, hplan⟩ := plan_eq_some_iff.mp hplan
  have hupdates : plan.partUpdates = item.partUpdates q := by rw [hplan]
  rw [parts_write, hupdates, List.map_map, List.map_inj_left]
  intro p hp
  simp only [Function.comp_apply, foldl_update_id, pv_foldl_partUpdates_of_kept hplannable hk hp]

/-- **A kept type stays as it is** exactly when nothing the calling file left elsewhere is on a part. -/
theorem unchanged_write_iff (hplan : item.plan q = some plan) (hk : t ∈ item.kept q) (createdAt : ℤ) :
    Unchanged item (item.write plan createdAt) t ↔ ∀ p ∈ item.parts, ¬ LeftByOwn q t p := by
  have hparts : ((item.write plan createdAt).parts.map fun p => (p.id, p.pv t)) =
      (item.parts.map fun p => (p.id, p.pv t)) ↔ ∀ p ∈ item.parts, ¬ LeftByOwn q t p := by
    rw [pv_write_of_kept hplan hk, List.map_inj_left]
    refine forall₂_congr fun p _ => ?_
    rw [Prod.mk.injEq]
    refine ⟨fun heq hleft => hleft.pv_ne ?_, fun hstays => ⟨rfl, if_neg hstays⟩⟩
    rw [← heq.2, if_pos hleft]
  exact ⟨fun h => hparts.mp h.parts, fun h => ⟨content_rowsOf_write_of_kept hplan hk createdAt, hparts.mpr h⟩⟩

end Item

/-! ### A group of items -/

/-- An item keeps what "Keep Plex's" promises, and all of it exactly when nothing the calling file left elsewhere is there
for a type it keeps. -/
theorem keepsOthers_and_iff {m : Member} {borrowed : List PlexMarker} {plan : Plan} (hkeep : m.request.keepPlex = true)
    (hlocked : ∀ w ∈ m.request.wanted, w.locked = false)
    (hplan : m.item.plan (m.request.asking (m.request.wanted ++ borrowed)) = some plan)
    (hborrows : m.item.Borrows m.request borrowed) (createdAt : ℤ) :
    MemberPlan.KeepsOthers ⟨m, borrowed, plan⟩ createdAt ∧
      (MemberPlan.KeepsPlex ⟨m, borrowed, plan⟩ createdAt ↔
        ∀ t ∈ m.item.wouldKeep m.request, ∀ p ∈ m.item.parts, ¬ Item.LeftByOwn m.request t p) := by
  have hwould : m.item.kept m.request = m.item.wouldKeep m.request := by
    rw [Item.kept, Item.locked_eq_empty hlocked, Finset.sdiff_empty]
  have hkept : m.item.kept (m.request.asking (m.request.wanted ++ borrowed)) = m.item.wouldKeep m.request :=
    hborrows.kept_eq.trans hwould
  have hall : ∀ w ∈ (m.request.asking (m.request.wanted ++ borrowed)).wanted, w.locked = false := by
    intro w hw
    exact (List.mem_append.mp hw).elim (hlocked w) fun hb => (hborrows w hb).1
  have hkeep' : (m.request.asking (m.request.wanted ++ borrowed)).keepPlex = true := hkeep
  have hleft : ∀ t p, Item.LeftByOwn (m.request.asking (m.request.wanted ++ borrowed)) t p ↔
      Item.LeftByOwn m.request t p := fun _ _ => Iff.rfl
  have hknown : (m.request.asking (m.request.wanted ++ borrowed)).wanted ++ m.request.prior ++ m.request.ownPrior =
      MemberPlan.known ⟨m, borrowed, plan⟩ := rfl
  have hprior : (m.request.asking (m.request.wanted ++ borrowed)).prior = m.request.prior := rfl
  have hown : (m.request.asking (m.request.wanted ++ borrowed)).ownPrior = m.request.ownPrior := rfl
  have hlimits : (m.request.asking (m.request.wanted ++ borrowed)).limits = m.request.limits := rfl
  generalize m.request.asking (m.request.wanted ++ borrowed) = q at *
  have hp := (Item.plan_eq_some_iff.mp hplan).2
  have htexts : plan.replacedTexts = m.item.replacedTexts q := by rw [hp]
  have hours : plan.ours = m.item.wantedLeft q := by rw [hp]
  have htypes : plan.keptTypes = m.item.kept q := by rw [hp]
  have hmayGo : ∀ r ∈ m.item.rows, r.text ∈ plan.replacedTexts → MemberPlan.MayGo ⟨m, borrowed, plan⟩ r := by
    intro r hr htext
    rw [htexts] at htext
    obtain ⟨t, ht, heq⟩ := Item.mem_replacedTexts.mp htext
    have hgo := Item.mayGo_of_replaced hkeep' hall ht (Item.mem_rowsServed_itemRows hr heq.symm)
    rw [hprior, hown, hknown, hlimits, ← hours] at hgo
    exact ⟨t, heq.symm, hgo⟩
  refine ⟨⟨hmayGo, fun t ht => ?_, fun t ht => ?_⟩, ?_⟩
  · exact Item.content_rowsOf_write_of_kept hplan (htypes ▸ ht) createdAt
  · have hparts := Item.pv_write_of_kept hplan (htypes ▸ ht) createdAt
    simp only [hleft] at hparts
    exact hparts
  constructor
  · intro h t ht p hp
    rw [← hleft]
    have hunchanged : Unchanged m.item.toItem (m.item.write plan createdAt) t := by
      refine h.unchanged t ?_
      rw [htypes, hkept]
      exact ht
    exact (Item.unchanged_write_iff hplan (hkept ▸ ht) createdAt).mp hunchanged p hp
  · intro h
    refine ⟨hmayGo, fun t ht => ?_⟩
    change t ∈ plan.keptTypes at ht
    rw [htypes] at ht
    refine (Item.unchanged_write_iff hplan ht createdAt).mpr fun p hp => ?_
    rw [hleft]
    exact h t (hkept ▸ ht) p hp

variable {library : Library} {own : LibraryItem} {q : GroupRequest} {group : List MemberPlan}

/-- **"Keep Plex's" deletes no marker Plex can be right about**, and leaves the kept types as they are but for the values
the calling file left on its former item: these go from its own parts. So all stays as it is exactly when there are none. -/
theorem keepPlex_spec (hkeep : q.keepPlex = true) (hlocked : ∀ m ∈ q.wanted, m.locked = false)
    (h : planGroup library own q = some group) (createdAt : ℤ) :
    (∀ g ∈ group, g.KeepsOthers createdAt) ∧
      ((∀ g ∈ group, g.KeepsPlex createdAt) ↔ q.NothingLeftOnKept library own) := by
  have hgroup := planGroup_spec h
  have hmember : ∀ {m : Member} {g : MemberPlan}, m ∈ q.members library own →
      (g.member = m ∧ m.plan (q.wanted ++ g.borrowed) = some g.plan ∧
        m.item.Borrows (m.request.asking q.wanted) g.borrowed) →
      g.KeepsOthers createdAt ∧ (g.KeepsPlex createdAt ↔
        ∀ t ∈ m.item.wouldKeep m.request, ∀ p ∈ m.item.parts, ¬ Item.LeftByOwn m.request t p) := by
    rintro m g hm ⟨rfl, hplan, hborrows⟩
    obtain ⟨hwanted, -, hkeepPlex, -⟩ := request_of_mem_members hm
    rw [← hwanted] at hplan hborrows hlocked
    exact keepsOthers_and_iff (hkeepPlex.trans hkeep) hlocked hplan hborrows createdAt
  refine ⟨fun g hg => ?_, fun hkeeps m hm => ?_, fun hnothing g hg => ?_⟩
  · obtain ⟨m, hm, hR⟩ := forall₂_mem_right hgroup hg
    exact (hmember hm hR).1
  · obtain ⟨g, hg, hR⟩ := forall₂_mem_left hgroup hm
    exact (hmember hm hR).2.mp (hkeeps g hg)
  · obtain ⟨m, hm, hR⟩ := forall₂_mem_right hgroup hg
    exact (hmember hm hR).2.mpr (hnothing m hm)

/-! ### Two versions merged into one item -/

/-- The value this app writes for one intro. -/
def introValue (start stop : ℤ) : PvText :=
  .json (printArray "intros" introJsonVersion [⟨start, stop, false⟩])
    (some ⟨some "intros", some introJsonVersion, some [⟨start, stop, false⟩]⟩)

/-- An episode with Plex's own intro. Its second version came from another item, with the intro this app left there. -/
def mergedEpisode : LibraryItem where
  rows := [⟨⟨"intro", 15000, 45000, some [("pv:version", "5")]⟩, 1, 0, some 1700000000⟩]
  parts := [⟨1, 1, "/tv/E 1080p.mkv", some ⟨none, none, [], false⟩, none, some 1690000000⟩,
    ⟨2, 2, "/tv/E 2160p.mkv", some ⟨some (introValue 10000 40000), none, [], false⟩, none, some 1690000000⟩]
  nextId := 2
  ids_nodup := by decide
  ids_lt := by decide
  partIds_nodup := by decide
  key := 7
  sectionId := some 1
  metadataType := some 4
  deleted := false

/-- The library with that episode. -/
def mergedLibrary : Library := ⟨[mergedEpisode], by decide⟩

/-- A write of one intro under "Keep Plex's", called for the second version. -/
def mergedRequest (ownPrior : List PlexMarker) : GroupRequest where
  wanted := [⟨.intro, 12000, 42000, ["chapters"], false⟩]
  prior := []
  durationMs := some 1320000
  ownPrior := ownPrior
  callingPartIds := [2]
  keptBefore := ∅
  keepPlex := true
  limits := none
  siblingStates := []

/-- What the second version's file left elsewhere is not what its part has: the intro is kept as it is. -/
theorem keepsPlex_of_other_times : ∃ group,
    planGroup mergedLibrary mergedEpisode (mergedRequest [⟨.intro, 11000, 41000, ["chapters"], false⟩]) = some group ∧
      ∀ g ∈ group, g.KeepsPlex 1700000100 := by
  obtain ⟨group, hgroup⟩ := Option.isSome_iff_exists.mp (show (planGroup mergedLibrary mergedEpisode
    (mergedRequest [⟨.intro, 11000, 41000, ["chapters"], false⟩])).isSome = true by decide +kernel)
  exact ⟨group, hgroup, (keepPlex_spec rfl (by decide) hgroup 1700000100).2.mpr (by decide +kernel)⟩

/-- **The value of a kept type can go**: the part still has what the file left on its former item. -/
theorem not_keepsPlex_of_merged : ¬ ∀ (library : Library) (own : LibraryItem) (q : GroupRequest)
    (group : List MemberPlan) (createdAt : ℤ), q.keepPlex = true → (∀ m ∈ q.wanted, m.locked = false) →
      planGroup library own q = some group → ∀ g ∈ group, g.KeepsPlex createdAt := by
  intro h
  have hgone : (planGroup mergedLibrary mergedEpisode (mergedRequest [⟨.intro, 10000, 40000, ["chapters"], false⟩])).any
      (fun group => group.any fun g => PlexType.intro ∈ g.plan.keptTypes ∧
        ((g.member.item.write g.plan 0).parts.map fun p => (p.id, p.pv .intro)) ≠
          g.member.item.parts.map fun p => (p.id, p.pv .intro)) = true := by decide +kernel
  obtain ⟨group, hgroup, hgone⟩ := (Option.any_eq_true ..).mp hgone
  obtain ⟨g, hg, hgone⟩ := List.any_eq_true.mp hgone
  obtain ⟨hkept, hne⟩ := of_decide_eq_true hgone
  exact hne ((h _ _ _ group 0 rfl (by decide) hgroup g hg).unchanged _ hkept).parts

end MediaPreview.Plex
