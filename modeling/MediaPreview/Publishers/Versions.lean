import MediaPreview.Lib.Ranking
import MediaPreview.Markers.Models
import Mathlib.Data.Bool.Basic

/-!
# The versions of one item

A Plex item shows one marker set for all its versions, and each version's run publishes it. What
is shown of a type is decided by `agreedAcrossVersions` (`markers/publishers/base.py`): the times of
the first version holding it, a locked one before the others, unless what the item shows already is
close enough.

A publish is a function of what the item showed before, so the publishes of an item are an iteration.
One call keeps the markers of a type or replaces them by the winner's (`keptOrChosen`), and which it is
depends on times alone (`keptOrChosen_congr`). The winner is the same whoever calls (`ranked_eq`), and
what is shown after a call is kept by the next (`keptOrChosen_idem`): the item is settled by the first
publish, and what follows changes no time on it (`versions_settle`).
-/

namespace MediaPreview.Publishers

open Markers Ranking

/-- `VERSION_AGREEMENT_MS`. -/
def versionAgreementMs : ℤ := 2000

/-- A marker's times. -/
def times (m : Marker) : ℤ × ℤ := (m.startMs, m.endMs)

/-! ### Comparing the markers of a type -/

section Pairwise

variable {κ : Type*} [LinearOrder κ]

/-- Two marker lists of one length match pairwise, in the order of `key`. -/
def matchPairwise (key : ℤ × ℤ → κ) (near : ℤ × ℤ → ℤ × ℤ → Bool) (mine theirs : List Marker) : Bool :=
  mine.length = theirs.length ∧
    ((sortBy (fun m => key (times m)) mine).zip (sortBy (fun m => key (times m)) theirs)).all
      fun p => near (times p.1) (times p.2)

theorem matchPairwise_congr {key : ℤ × ℤ → κ} {near : ℤ × ℤ → ℤ × ℤ → Bool} {mine mine' theirs : List Marker}
    (h : mine.map times = mine'.map times) : matchPairwise key near mine theirs = matchPairwise key near mine' theirs := by
  have hlen : mine.length = mine'.length := by simpa only [List.length_map] using congrArg List.length h
  have hall : ∀ l : List Marker,
      ((sortBy (fun m => key (times m)) l).zip (sortBy (fun m => key (times m)) theirs)).all
        (fun p => near (times p.1) (times p.2)) =
      ((sortBy key (l.map times)).zip ((sortBy (fun m => key (times m)) theirs).map times)).all
        fun p => near p.1 p.2 := by
    intro l
    rw [sortBy_map, List.zip_map, List.all_map]
    rfl
  rw [matchPairwise, matchPairwise, hall mine, hall mine', h, hlen]

/-- A list that matches one marker is one marker. -/
theorem of_matchPairwise_singleton {key : ℤ × ℤ → κ} {near : ℤ × ℤ → ℤ × ℤ → Bool} {mine : List Marker} {m : Marker}
    (h : matchPairwise key near mine [m] = true) : ∃ m', mine = [m'] ∧ near (times m') (times m) = true := by
  rw [matchPairwise, decide_eq_true_eq] at h
  obtain ⟨hlen, hall⟩ := h
  obtain ⟨m', rfl⟩ := List.length_eq_one_iff.mp hlen
  exact ⟨m', rfl, by simpa [sortBy] using hall⟩

end Pairwise

/-- `versions_agree`. -/
def versionsAgree (mine theirs : List Marker) : Bool :=
  matchPairwise Prod.fst
    (fun a b => |a.1 - b.1| ≤ versionAgreementMs ∧ |a.2 - b.2| ≤ versionAgreementMs) mine theirs

/-- `same_times`. -/
def sameTimes (mine theirs : List Marker) : Bool :=
  matchPairwise (fun t => toLex t) (fun a b => a.1 = b.1 ∧ a.2 = b.2) mine theirs

/-! ### One call -/

/-- `VersionKey`: Plex's order for the versions of one item. -/
abbrev VersionKey := ℤ ×ₗ ℤ

/-- The markers of one type. -/
def ofOneType (markers : List Marker) (mtype : MarkerType) : List Marker := markers.filter fun m => m.type = mtype

/-- The versions that have a decided marker of the type, with those. -/
def holders (decided : List (VersionKey × List Marker)) (mtype : MarkerType) : List (VersionKey × List Marker) :=
  (decided.map fun h => (h.1, ofOneType h.2 mtype)).filter fun h => h.2 ≠ []

/-- A holder's place: one the user locked comes first. -/
def holderKey (h : VersionKey × List Marker) : Bool ×ₗ VersionKey := toLex (!h.2.any (·.locked), h.1)

/-- The holders in their order. -/
def ranked (decided : List (VersionKey × List Marker)) (mtype : MarkerType) : List (VersionKey × List Marker) :=
  sortBy holderKey (holders decided mtype)

/-- `settled`: what the item shows of a type agrees with the first holder's; of a locked holder it has
to be the user's own times. -/
def settled (kept chosen : List Marker) : Bool :=
  if chosen.any (·.locked) then sameTimes kept chosen else versionsAgree kept chosen

/-- What the item already shows of a type stays when it is settled and another version holds the type
too. -/
def keptOrChosen (kept : List Marker) : List (VersionKey × List Marker) → List Marker
  | [] => []
  | h :: rest => if rest ≠ [] ∧ kept ≠ [] ∧ settled kept h.2 then kept else h.2

/-- What is shown of one type, with the calling file's lock. -/
def shownOfType (markers : List Marker) (decided : List (VersionKey × List Marker)) (prior : List Marker)
    (mtype : MarkerType) : List Marker :=
  (keptOrChosen (ofOneType prior mtype) (ranked decided mtype)).map
    fun m => { m with locked := (ofOneType markers mtype).any (·.locked) }

/-- `agreed_across_versions`. -/
def agreedAcrossVersions (markers : List Marker) (key : VersionKey) (others : List (VersionKey × Option (List Marker)))
    (prior : List Marker) (types : List MarkerType) : List Marker :=
  let decided := (key, markers) :: others.filterMap fun o => o.2.map fun d => (o.1, d)
  types.flatMap (shownOfType markers decided prior)

/-! ### The versions of an item -/

/-- A version's decided markers, at most one a type. -/
structure Decided where
  /-- The markers. -/
  markers : List Marker
  /-- No type has two. -/
  nodup : (markers.map (·.type)).Nodup

/-- A version of an item. -/
structure Version where
  /-- Its place in Plex's order. -/
  key : VersionKey
  /-- What it decided; `none` for a version never decided. -/
  decided : Option Decided

/-- The markers a version has. -/
def Version.markers (v : Version) : List Marker := (v.decided.map (·.markers)).getD []

/-- The versions of one item. -/
structure VersionSet where
  /-- The versions. -/
  versions : List Version
  /-- No two have one key. -/
  nodup : (versions.map (·.key)).Nodup

/-- The types a server shows, each once. -/
structure ShownTypes where
  /-- The types, in the order they are gone through. -/
  types : List MarkerType
  /-- None is listed twice. -/
  nodup : types.Nodup

/-- What a version's run passes for another one. -/
def Version.asOther (v : Version) : VersionKey × Option (List Marker) := (v.key, v.decided.map (·.markers))

/-- A publish by one of an item's versions, the others given in any order. -/
structure VersionRun (s : VersionSet) where
  /-- The version whose run it is. -/
  version : Version
  /-- The other versions, as they are passed. -/
  others : List Version
  /-- Together they are the item's versions. -/
  perm : (version :: others).Perm s.versions

/-- What the item shows after a publish. -/
def VersionRun.apply {s : VersionSet} (p : VersionRun s) (types : ShownTypes) (prior : List Marker) : List Marker :=
  agreedAcrossVersions p.version.markers p.version.key (p.others.map Version.asOther) prior types.types

/-- What the item shows after publishes one after another, each given what the one before left. -/
def publishAll {s : VersionSet} (types : ShownTypes) (prior : List Marker) (ps : List (VersionRun s)) : List Marker :=
  ps.foldl (fun shown p => p.apply types shown) prior

/-- The types and times on the item, in the order they are listed. -/
def shownTimes (shown : List Marker) : List (MarkerType × ℤ × ℤ) := shown.map fun m => (m.type, times m)

/-- A version's marker of a type that decides what the item shows: of the first locked holder in key
order, or else of the first holder. -/
structure IsWinner (s : VersionSet) (mtype : MarkerType) (v : Version) (m : Marker) : Prop where
  /-- It is one of the item's versions. -/
  version_mem : v ∈ s.versions
  /-- The marker is one of its own. -/
  marker_mem : m ∈ v.markers
  /-- It is of the type. -/
  type_eq : m.type = mtype
  /-- A locked holder comes first. -/
  locked_first : ∀ v' ∈ s.versions, ∀ m' ∈ v'.markers, m'.type = mtype → m'.locked = true → m.locked = true
  /-- Of those alike in that, the first in key order. -/
  key_first : ∀ v' ∈ s.versions, ∀ m' ∈ v'.markers, m'.type = mtype → m'.locked = m.locked → v.key ≤ v'.key

/-! ### Who wins does not depend on who calls -/

theorem holders_perm {d₁ d₂ : List (VersionKey × List Marker)} (h : d₁.Perm d₂) (mtype : MarkerType) :
    (holders d₁ mtype).Perm (holders d₂ mtype) := (h.map _).filter _

theorem holders_cons (h : VersionKey × List Marker) (l : List (VersionKey × List Marker)) (mtype : MarkerType) :
    holders (h :: l) mtype = holders [h] mtype ++ holders l mtype := by
  rw [← List.singleton_append, holders, List.map_append, List.filter_append]
  rfl

/-- A version never decided takes no part. -/
theorem holders_asOther (vs : List Version) (mtype : MarkerType) :
    holders ((vs.map Version.asOther).filterMap fun o => o.2.map fun d => (o.1, d)) mtype =
      holders (vs.map fun v => (v.key, v.markers)) mtype := by
  induction vs with
  | nil => rfl
  | cons v vs ih =>
    rw [List.map_cons, List.map_cons, holders_cons (v.key, v.markers), ← ih]
    cases hd : v.decided with
    | none =>
      have hnone : holders [(v.key, v.markers)] mtype = [] := by simp [holders, ofOneType, Version.markers, hd]
      rw [hnone, List.filterMap_cons_none (by simp [Version.asOther, hd]), List.nil_append]
    | some d =>
      have hsome : v.markers = d.markers := by simp [Version.markers, hd]
      rw [hsome, List.filterMap_cons_some (b := (v.key, d.markers)) (by simp [Version.asOther, hd]), holders_cons]

theorem mem_holders {s : VersionSet} {mtype : MarkerType} {h : VersionKey × List Marker} :
    h ∈ holders (s.versions.map fun v => (v.key, v.markers)) mtype ↔
      ∃ v ∈ s.versions, h = (v.key, ofOneType v.markers mtype) ∧ ofOneType v.markers mtype ≠ [] := by
  simp only [holders, List.map_map, List.mem_filter, List.mem_map, Function.comp, decide_eq_true_eq]
  constructor
  · rintro ⟨⟨v, hv, rfl⟩, hne⟩
    exact ⟨v, hv, rfl, hne⟩
  · rintro ⟨v, hv, rfl, hne⟩
    exact ⟨⟨v, hv, rfl⟩, hne⟩

theorem holderKey_injOn {s : VersionSet} {mtype : MarkerType} {a b : VersionKey × List Marker}
    (ha : a ∈ holders (s.versions.map fun v => (v.key, v.markers)) mtype)
    (hb : b ∈ holders (s.versions.map fun v => (v.key, v.markers)) mtype) (h : holderKey a = holderKey b) : a = b := by
  obtain ⟨v, hv, rfl, -⟩ := mem_holders.mp ha
  obtain ⟨w, hw, rfl, -⟩ := mem_holders.mp hb
  have hkey : v.key = w.key := congrArg (fun k => (ofLex k).2) h
  obtain rfl := List.inj_on_of_nodup_map s.nodup hv hw hkey
  rfl

/-- The holders of a type of an item. -/
def VersionSet.ranked (s : VersionSet) (mtype : MarkerType) : List (VersionKey × List Marker) :=
  Publishers.ranked (s.versions.map fun v => (v.key, v.markers)) mtype

/-- **Every version finds the same holders in the same order.** -/
theorem ranked_eq {s : VersionSet} (p : VersionRun s) (mtype : MarkerType) :
    ranked ((p.version.key, p.version.markers) ::
      (p.others.map Version.asOther).filterMap fun o => o.2.map fun d => (o.1, d)) mtype = s.ranked mtype := by
  have hcons : holders ((p.version.key, p.version.markers) ::
      (p.others.map Version.asOther).filterMap fun o => o.2.map fun d => (o.1, d)) mtype =
      holders ((p.version :: p.others).map fun v => (v.key, v.markers)) mtype := by
    rw [holders_cons, holders_asOther, List.map_cons, ← holders_cons]
  have hperm := holders_perm (p.perm.map fun v => (v.key, v.markers)) mtype
  rw [← hcons] at hperm
  have hsorted := ((sortBy_perm holderKey _).trans hperm).trans (sortBy_perm holderKey _).symm
  refine hsorted.eq_of_pairwise ?_ (pairwise_sortBy _ _) (pairwise_sortBy _ _)
  intro a b ha hb hab hba
  exact holderKey_injOn (hperm.mem_iff.mp (mem_sortBy.mp ha)) (mem_sortBy.mp hb) (le_antisymm hab hba)

theorem mem_ranked {s : VersionSet} {mtype : MarkerType} {h : VersionKey × List Marker} :
    h ∈ s.ranked mtype ↔ ∃ v ∈ s.versions, h = (v.key, ofOneType v.markers mtype) ∧ ofOneType v.markers mtype ≠ [] :=
  mem_sortBy.trans mem_holders

/-- No version is two holders. -/
theorem nodup_ranked (s : VersionSet) (mtype : MarkerType) : ((s.ranked mtype).map (·.1)).Nodup := by
  have hperm : ((s.ranked mtype).map (·.1)).Perm _ := (sortBy_perm holderKey _).map _
  refine hperm.symm.nodup (s.nodup.sublist ?_)
  have hkeys : s.versions.map (·.key) =
      ((s.versions.map fun v => (v.key, v.markers)).map fun h => (h.1, ofOneType h.2 mtype)).map (·.1) := by
    simp [Function.comp_def]
  rw [hkeys, holders]
  exact List.filter_sublist.map _

/-- A version holds one marker of a type. -/
theorem ofOneType_eq_singleton {v : Version} {mtype : MarkerType} (hne : ofOneType v.markers mtype ≠ []) :
    ∃ m ∈ v.markers, m.type = mtype ∧ ofOneType v.markers mtype = [m] := by
  have hnodup : (v.markers.map (·.type)).Nodup := by
    cases hd : v.decided with
    | none => simp [Version.markers, hd]
    | some d => simpa [Version.markers, hd] using d.nodup
  obtain ⟨m, rest, hcons⟩ := List.exists_cons_of_ne_nil hne
  have hmem : ∀ x ∈ m :: rest, x ∈ v.markers ∧ x.type = mtype := by
    intro x hx
    rw [← hcons, ofOneType, List.mem_filter, decide_eq_true_eq] at hx
    exact hx
  obtain ⟨hm, htype⟩ := hmem m (.head _)
  refine ⟨m, hm, htype, ?_⟩
  have hfew : (m :: rest).Nodup := by
    rw [← hcons]
    exact (List.Nodup.of_map _ hnodup).sublist List.filter_sublist
  rw [hcons]
  cases rest with
  | nil => rfl
  | cons x rest =>
    obtain ⟨hx, hxtype⟩ := hmem x (.tail _ (.head _))
    have heq : m = x := List.inj_on_of_nodup_map hnodup hm hx (htype.trans hxtype.symm)
    exact absurd (heq ▸ List.mem_cons_self) (List.nodup_cons.mp hfew).1

/-- The first of the holders is the winner's. -/
theorem exists_isWinner {s : VersionSet} {mtype : MarkerType} {h : VersionKey × List Marker}
    {rest : List (VersionKey × List Marker)} (hr : s.ranked mtype = h :: rest) :
    ∃ v m, IsWinner s mtype v m ∧ h = (v.key, [m]) := by
  obtain ⟨v, hv, rfl, hne⟩ := mem_ranked.mp (hr ▸ List.mem_cons_self)
  obtain ⟨m, hm, htype, hone⟩ := ofOneType_eq_singleton hne
  have hfirst : ∀ v' ∈ s.versions, ∀ m' ∈ v'.markers, m'.type = mtype →
      toLex (!m.locked, v.key) ≤ toLex (!m'.locked, v'.key) := by
    intro v' hv' m' hm' htype'
    have hmem' : m' ∈ ofOneType v'.markers mtype := List.mem_filter.mpr ⟨hm', decide_eq_true htype'⟩
    obtain ⟨m'', -, -, hone'⟩ := ofOneType_eq_singleton (List.ne_nil_of_mem hmem')
    obtain rfl : m' = m'' := by simpa [hone'] using hmem'
    have hin : (v'.key, [m']) ∈ s.ranked mtype := by
      rw [← hone']
      exact mem_ranked.mpr ⟨v', hv', rfl, List.ne_nil_of_mem hmem'⟩
    have hsorted : (s.ranked mtype).Pairwise fun a b => holderKey a ≤ holderKey b := pairwise_sortBy _ _
    rw [hr, hone] at hin hsorted
    have hle : holderKey (v.key, [m]) ≤ holderKey (v'.key, [m']) := by
      rcases List.mem_cons.mp hin with heq | hin
      · rw [heq]
      · exact (List.pairwise_cons.mp hsorted).1 _ hin
    simpa [holderKey] using hle
  refine ⟨v, m, ⟨hv, hm, htype, ?_, ?_⟩, by rw [hone]⟩
  · intro v' hv' m' hm' htype' hlocked
    by_contra hfree
    rw [Bool.not_eq_true] at hfree
    have hle := hfirst v' hv' m' hm' htype'
    rw [hlocked, hfree, Prod.Lex.toLex_le_toLex] at hle
    rcases hle with hlt | ⟨heq, -⟩
    · exact absurd hlt (not_lt_of_ge (Bool.false_le _))
    · exact Bool.noConfusion heq
  · intro v' hv' m' hm' htype' heq
    have hle := hfirst v' hv' m' hm' htype'
    rw [heq, Prod.Lex.toLex_le_toLex] at hle
    simpa using hle

/-- There is one winner. -/
theorem IsWinner.unique {s : VersionSet} {mtype : MarkerType} {v v' : Version} {m m' : Marker}
    (h : IsWinner s mtype v m) (h' : IsWinner s mtype v' m') : v = v' := by
  have hlocked : m'.locked = m.locked := by
    rw [Bool.eq_iff_iff]
    exact ⟨h.locked_first v' h'.version_mem m' h'.marker_mem h'.type_eq,
      h'.locked_first v h.version_mem m h.marker_mem h.type_eq⟩
  have hle := h.key_first v' h'.version_mem m' h'.marker_mem h'.type_eq hlocked
  have hge := h'.key_first v h.version_mem m h.marker_mem h.type_eq hlocked.symm
  exact List.inj_on_of_nodup_map s.nodup h.version_mem h'.version_mem (le_antisymm hle hge)

/-! ### What is kept -/

theorem settled_congr {kept kept' chosen : List Marker} (h : kept.map times = kept'.map times) :
    settled kept chosen = settled kept' chosen := by
  have hsame : sameTimes kept chosen = sameTimes kept' chosen := matchPairwise_congr h
  have hagree : versionsAgree kept chosen = versionsAgree kept' chosen := matchPairwise_congr h
  rw [settled, settled, hsame, hagree]

/-- What is settled on one marker is one marker, with its times or close to them. -/
theorem of_settled_singleton {kept : List Marker} {m : Marker} (h : settled kept [m] = true) :
    ∃ m', kept = [m'] ∧ (m.locked = true → times m' = times m) ∧
      |m'.startMs - m.startMs| ≤ versionAgreementMs ∧ |m'.endMs - m.endMs| ≤ versionAgreementMs := by
  by_cases hlocked : m.locked = true
  · have hsame : sameTimes kept [m] = true := by simpa [settled, hlocked] using h
    obtain ⟨m', hone, hnear⟩ := of_matchPairwise_singleton hsame
    obtain ⟨hs, he⟩ := of_decide_eq_true hnear
    simp only [times] at hs he
    refine ⟨m', hone, fun _ => Prod.ext hs he, ?_⟩
    simp [hs, he, versionAgreementMs]
  · have hagree : versionsAgree kept [m] = true := by simpa [settled, hlocked] using h
    obtain ⟨m', hone, hnear⟩ := of_matchPairwise_singleton hagree
    exact ⟨m', hone, fun h => absurd h hlocked, of_decide_eq_true hnear⟩

/-- What a call keeps is a matter of times alone. -/
theorem keptOrChosen_congr {kept kept' : List Marker} (h : kept.map times = kept'.map times)
    (holders : List (VersionKey × List Marker)) :
    (keptOrChosen kept holders).map times = (keptOrChosen kept' holders).map times := by
  have hnil : kept ≠ [] ↔ kept' ≠ [] := by
    rw [Ne, Ne, ← List.map_eq_nil_iff (f := times), h, List.map_eq_nil_iff]
  cases holders with
  | nil => rfl
  | cons first rest =>
    simp only [keptOrChosen, settled_congr h, hnil]
    split_ifs
    · exact h
    · rfl

/-- **What a call shows, the next one keeps.** -/
theorem keptOrChosen_idem (kept : List Marker) (holders : List (VersionKey × List Marker)) :
    keptOrChosen (keptOrChosen kept holders) holders = keptOrChosen kept holders := by
  cases holders with
  | nil => rfl
  | cons first rest =>
    by_cases hkeep : rest ≠ [] ∧ kept ≠ [] ∧ settled kept first.2 = true
    · have hkept : keptOrChosen kept (first :: rest) = kept := if_pos hkeep
      rw [hkept, hkept]
    · have hchosen : keptOrChosen kept (first :: rest) = first.2 := if_neg hkeep
      rw [hchosen, keptOrChosen]
      exact ite_self _

/-- What is kept or chosen of a type is of that type. -/
theorem type_of_mem_keptOrChosen (s : VersionSet) (prior : List Marker) {mtype : MarkerType} {m : Marker}
    (h : m ∈ keptOrChosen (ofOneType prior mtype) (s.ranked mtype)) : m.type = mtype := by
  have hof : ∀ l : List Marker, m ∈ ofOneType l mtype → m.type = mtype :=
    fun l hm => of_decide_eq_true (List.mem_filter.mp hm).2
  cases hr : s.ranked mtype with
  | nil => simp [hr, keptOrChosen] at h
  | cons first rest =>
    obtain ⟨v, -, rfl, -⟩ := mem_ranked.mp (hr ▸ List.mem_cons_self)
    simp only [hr, keptOrChosen] at h
    split_ifs at h
    all_goals exact hof _ h

/-! ### Runs -/

/-- The times of a type once the item is settled. -/
def VersionSet.settledTimes (s : VersionSet) (prior : List Marker) (mtype : MarkerType) : List (ℤ × ℤ) :=
  (keptOrChosen (ofOneType prior mtype) (s.ranked mtype)).map times

variable {s : VersionSet} {types : ShownTypes} {prior : List Marker} {mtype : MarkerType}

/-- A publish shows each type by itself. -/
theorem apply_eq (types : ShownTypes) (prior : List Marker) (p : VersionRun s) : ∃ locked : MarkerType → Bool, p.apply types prior =
    types.types.flatMap fun t => (keptOrChosen (ofOneType prior t) (s.ranked t)).map
      fun m => { m with locked := locked t } := by
  refine ⟨fun t => (ofOneType p.version.markers t).any (·.locked), ?_⟩
  rw [VersionRun.apply, agreedAcrossVersions]
  congr 1
  funext t
  rw [shownOfType, ranked_eq p]

theorem ofOneType_apply (p : VersionRun s) (ht : mtype ∈ types.types) :
    (ofOneType (p.apply types prior) mtype).map times = s.settledTimes prior mtype := by
  obtain ⟨locked, happly⟩ := apply_eq types prior p
  rw [happly, ofOneType, filter_flatMap_eq types.nodup ?_ ht, List.map_map]
  · rfl
  · intro t m hm
    obtain ⟨m₀, hm₀, rfl⟩ := List.mem_map.mp hm
    exact type_of_mem_keptOrChosen s prior (m := m₀) hm₀

theorem shownTimes_apply (p : VersionRun s) :
    shownTimes (p.apply types prior) = types.types.flatMap fun t => (s.settledTimes prior t).map fun ts => (t, ts) := by
  obtain ⟨locked, happly⟩ := apply_eq types prior p
  rw [happly, shownTimes, List.map_flatMap]
  congr 1
  funext t
  rw [VersionSet.settledTimes, List.map_map, List.map_map]
  refine List.map_congr_left fun m hm => ?_
  simp only [Function.comp, type_of_mem_keptOrChosen s prior hm]
  rfl

/-- A publish leaves the settled times as they are. -/
theorem settledTimes_apply (p : VersionRun s) (ht : mtype ∈ types.types) :
    s.settledTimes (p.apply types prior) mtype = s.settledTimes prior mtype := by
  rw [VersionSet.settledTimes, keptOrChosen_congr (ofOneType_apply p ht), keptOrChosen_idem]
  rfl

/-- **After any publishes** the item shows the times it settled on at the first. -/
theorem shownTimes_publishAll (types : ShownTypes) (prior : List Marker) (p : VersionRun s) (ps : List (VersionRun s)) :
    shownTimes (publishAll types prior (p :: ps)) =
      types.types.flatMap fun t => (s.settledTimes prior t).map fun ts => (t, ts) := by
  induction ps generalizing p prior with
  | nil => exact shownTimes_apply p
  | cons q ps ih =>
    rw [publishAll, List.foldl_cons]
    refine Eq.trans (ih (p.apply types prior) q) ?_
    refine List.flatMap_congr fun t ht => ?_
    rw [settledTimes_apply p ht]

theorem ofOneType_publishAll (p : VersionRun s) (ps : List (VersionRun s)) (ht : mtype ∈ types.types) :
    (ofOneType (publishAll types prior (p :: ps)) mtype).map times = s.settledTimes prior mtype := by
  have hshown := shownTimes_publishAll types prior p ps
  have hof : ∀ l : List Marker, (ofOneType l mtype).map times =
      ((shownTimes l).filter fun a => a.1 = mtype).map (·.2) := by
    intro l
    rw [shownTimes, List.filter_map, List.map_map]
    rfl
  rw [hof, hshown, filter_flatMap_eq types.nodup ?_ ht, List.map_map]
  · simp [Function.comp_def]
  · intro t a ha
    obtain ⟨_, -, rfl⟩ := List.mem_map.mp ha
    rfl

/-- **The settled times are the winner's**, or close to them. -/
theorem settledTimes_of_winner (prior : List Marker) (hne : s.ranked mtype ≠ []) :
    ∃ v m, IsWinner s mtype v m ∧ ∃ shown, s.settledTimes prior mtype = [shown] ∧
      |shown.1 - m.startMs| ≤ versionAgreementMs ∧ |shown.2 - m.endMs| ≤ versionAgreementMs ∧
      (m.locked = true ∨ (∀ v' ∈ s.versions, ∀ m' ∈ v'.markers, m'.type = mtype → v' = v) → shown = times m) := by
  obtain ⟨h, rest, hr⟩ := List.exists_cons_of_ne_nil hne
  obtain ⟨v, m, hw, rfl⟩ := exists_isWinner hr
  refine ⟨v, m, hw, ?_⟩
  rw [VersionSet.settledTimes, hr]
  by_cases hkeep : rest ≠ [] ∧ ofOneType prior mtype ≠ [] ∧ settled (ofOneType prior mtype) [m] = true
  · obtain ⟨m', hone, hlocked, hs, he⟩ := of_settled_singleton hkeep.2.2
    -- another version holds the type
    have hother : ¬ ∀ v' ∈ s.versions, ∀ m' ∈ v'.markers, m'.type = mtype → v' = v := by
      intro honly
      obtain ⟨h', rest', rfl⟩ := List.exists_cons_of_ne_nil hkeep.1
      obtain ⟨v', hv', rfl, hne'⟩ := mem_ranked.mp (hr ▸ List.mem_cons_of_mem _ List.mem_cons_self)
      obtain ⟨m', hm', htype', -⟩ := ofOneType_eq_singleton hne'
      obtain rfl := honly v' hv' m' hm' htype'
      have hnodup := nodup_ranked s mtype
      rw [hr] at hnodup
      simp at hnodup
    rw [keptOrChosen, if_pos hkeep]
    exact ⟨times m', by rw [hone]; rfl, hs, he, fun h => hlocked (h.resolve_right hother)⟩
  · rw [keptOrChosen, if_neg hkeep]
    refine ⟨times m, rfl, ?_, ?_, fun _ => rfl⟩
    all_goals simp [times, versionAgreementMs]

theorem ranked_ne_nil_iff : s.ranked mtype ≠ [] ↔ ∃ v ∈ s.versions, ∃ m ∈ v.markers, m.type = mtype := by
  constructor
  · intro hne
    obtain ⟨h, rest, hr⟩ := List.exists_cons_of_ne_nil hne
    obtain ⟨v, m, hw, -⟩ := exists_isWinner hr
    exact ⟨v, hw.version_mem, m, hw.marker_mem, hw.type_eq⟩
  · rintro ⟨v, hv, m, hm, htype⟩
    have hmem : m ∈ ofOneType v.markers mtype := List.mem_filter.mpr ⟨hm, decide_eq_true htype⟩
    exact List.ne_nil_of_mem (mem_ranked.mpr ⟨v, hv, rfl, List.ne_nil_of_mem hmem⟩)

/-- **The versions of an item settle on one marker set**, whatever the order of their publishes and
whatever the item showed before. From the first publish on no publish changes a time; of each type the
times shown are the winner's or within `versionAgreementMs` of them, exactly the winner's when it is
locked or the only holder; and a type no version holds is not shown. -/
theorem versions_settle (s : VersionSet) (types : ShownTypes) (prior : List Marker) (first : VersionRun s)
    (rest : List (VersionRun s)) :
    (∀ later : List (VersionRun s), shownTimes (publishAll types prior (first :: rest ++ later)) =
        shownTimes (publishAll types prior (first :: rest))) ∧
      (∀ t ∈ types.types, (∃ v ∈ s.versions, ∃ m ∈ v.markers, m.type = t) →
        ∃ v m, IsWinner s t v m ∧ ∃ shown, ofOneType (publishAll types prior (first :: rest)) t = [shown] ∧
          |shown.startMs - m.startMs| ≤ versionAgreementMs ∧ |shown.endMs - m.endMs| ≤ versionAgreementMs ∧
          (m.locked = true ∨ (∀ v' ∈ s.versions, ∀ m' ∈ v'.markers, m'.type = t → v' = v) →
            times shown = times m)) ∧
      ∀ t, (∀ v ∈ s.versions, ∀ m ∈ v.markers, m.type ≠ t) →
        ofOneType (publishAll types prior (first :: rest)) t = [] := by
  refine ⟨fun later => ?_, fun t ht hheld => ?_, fun t hnone => ?_⟩
  · rw [List.cons_append, shownTimes_publishAll, shownTimes_publishAll]
  · obtain ⟨v, m, hw, ts, hsettled, hs, he, hexact⟩ := settledTimes_of_winner prior (ranked_ne_nil_iff.mpr hheld)
    rw [← ofOneType_publishAll first rest ht] at hsettled
    obtain ⟨shown, hone, rfl⟩ := List.map_eq_singleton_iff.mp hsettled
    exact ⟨v, m, hw, shown, hone, hs, he, hexact⟩
  · have hnil : s.ranked t = [] := by
      by_contra hne
      obtain ⟨v, hv, m, hm, htype⟩ := ranked_ne_nil_iff.mp hne
      exact hnone v hv m hm htype
    by_contra hne
    obtain ⟨m, hm⟩ := List.exists_mem_of_ne_nil _ hne
    obtain ⟨hm, htype⟩ := List.mem_filter.mp hm
    have hshown : (t, times m) ∈ shownTimes (publishAll types prior (first :: rest)) :=
      List.mem_map.mpr ⟨m, hm, by rw [of_decide_eq_true htype]⟩
    rw [shownTimes_publishAll, List.mem_flatMap] at hshown
    obtain ⟨u, -, hu⟩ := hshown
    obtain ⟨ts, hts, heq⟩ := List.mem_map.mp hu
    obtain rfl : u = t := congrArg Prod.fst heq
    simp [VersionSet.settledTimes, hnil, keptOrChosen] at hts

end MediaPreview.Publishers
