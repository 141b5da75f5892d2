import MediaPreview.Lib.Dict
import MediaPreview.Lib.Ranking
import MediaPreview.Markers.EpisodeNames
import Mathlib.Data.List.Lex
import Mathlib.Data.Char
import Mathlib.Data.Finset.Card
import Mathlib.Data.Finset.Dedup

/-!
# Season groups

`season_group` of `markers/audio/season.py`: the files of a season, and of a season of more than 40 the 40 nearest to the file
the group is for (`seasonGroup`). A file is as far as its episode is, or its place in path order where a name has no
episode, and of two as far the one with the first path is the nearer.

A file with the same episode number is at no distance at all, so 40 of them with a path before the file's own leave the file
itself out: it is in its group if and only if there are fewer (`seasonGroup_spec`).
-/

namespace MediaPreview.Audio

open Markers Ranking Separators Servers

/-- `FolderVideo`. -/
structure FolderVideo where
  /-- `path`. -/
  path : Path
  /-- `season`. -/
  season : Option ℤ
  /-- `episode`. -/
  episode : Option ℤ
  deriving DecidableEq

/-- `SeasonGroup`. -/
structure SeasonGroup where
  /-- `folder`. -/
  folder : Path
  /-- `episodes`. -/
  episodes : List Path

/-- `MAX_GROUP_EPISODES`. -/
def maxGroupEpisodes : ℕ := 40

/-- `_folder_video`. -/
def folderVideo (path : Path) : FolderVideo :=
  ⟨path, (idsFromPath path).map fun ids => (ids.1 : ℤ), (idsFromPath path).map fun ids => (ids.2 : ℤ)⟩

/-- `os.path.dirname`. -/
def dirname (path : Path) : Path :=
  let head := path.rdropWhile (· ≠ '/')
  if head.all (· = '/') then head else rstrip '/' head

/-- `_same_season`. -/
def sameSeason (target : FolderVideo) (videos : List FolderVideo) : List (Path × FolderVideo) :=
  Dict.set (Dict.update [] ((videos.filter fun v => v.season = target.season).map fun v => (v.path, v))) target.path target

/-- `position[path]`: its place in path order. -/
def position (members : List (Path × FolderVideo)) (path : Path) : ℕ := (sortBy id (members.map Prod.fst)).idxOf path

/-- `distance`. -/
def distance (target : FolderVideo) (members : List (Path × FolderVideo)) (video : FolderVideo) : ℕ ×ₗ Path :=
  match target.episode, video.episode with
  | some e, some f => toLex ((f - e).natAbs, video.path)
  | _, _ => toLex (((position members video.path : ℤ) - position members target.path).natAbs, video.path)

/-- The nearest members, as many as there may be. -/
def nearest (target : FolderVideo) (members : List (Path × FolderVideo)) : List FolderVideo :=
  (sortBy (distance target members) (members.map Prod.snd)).take maxGroupEpisodes

/-- The members, or the nearest of too many. -/
def capped (target : FolderVideo) (members : List (Path × FolderVideo)) : List (Path × FolderVideo) :=
  if members.length > maxGroupEpisodes then Dict.update [] ((nearest target members).map fun v => (v.path, v)) else members

/-- `season_group`. -/
def seasonGroup (canonicalPath : Path) (videos : List FolderVideo) : SeasonGroup :=
  let target := folderVideo canonicalPath
  ⟨dirname canonicalPath, sortBy id ((capped target (sameSeason target videos)).map Prod.fst)⟩

/-! ### The members -/

/-- The last listed of a season's files with a path. -/
def lastListed (season : Option ℤ) (videos : List FolderVideo) (path : Path) : Option FolderVideo :=
  (videos.filter fun v => v.season = season).reverse.find? fun v => v.path = path

/-- The paths of a season: the file's own and those listed. -/
def seasonPaths (target : FolderVideo) (videos : List FolderVideo) : Finset Path :=
  insert target.path ((videos.filter fun v => v.season = target.season).map FolderVideo.path).toFinset

variable {target : FolderVideo} {videos : List FolderVideo}

theorem nodup_sameSeason (target : FolderVideo) (videos : List FolderVideo) :
    ((sameSeason target videos).map Prod.fst).Nodup := by
  refine (Dict.nodup_set (Dict.nodup_update _ ?_) _ _).1
  exact List.nodup_nil

/-- What is found of a path: the file itself, or the last listed. -/
theorem get?_sameSeason (path : Path) :
    Dict.get? (sameSeason target videos) path =
      if target.path = path then some target else lastListed target.season videos path := by
  rw [sameSeason, Dict.get?_set, Dict.get?_update_eq, ← List.map_reverse, List.find?_map, Dict.get?, Option.or_none,
    Option.map_map]
  simp only [Function.comp_def, Option.map_id', lastListed]

/-- A member carries its key. -/
theorem path_of_mem {entry : Path × FolderVideo} (h : entry ∈ sameSeason target videos) : entry.2.path = entry.1 := by
  have hget := (Dict.get?_eq_some_iff (nodup_sameSeason target videos)).2 h
  rw [get?_sameSeason] at hget
  split_ifs at hget with hpath
  · rw [← Option.some.inj hget, hpath]
  · unfold lastListed at hget
    simpa using List.find?_some hget

/-- The members' paths are the season's. -/
theorem toFinset_sameSeason : ((sameSeason target videos).map Prod.fst).toFinset = seasonPaths target videos := by
  ext path
  rw [List.mem_toFinset, ← not_iff_not, ← Dict.get?_eq_none_iff, get?_sameSeason, seasonPaths, Finset.mem_insert,
    List.mem_toFinset, List.mem_map]
  split_ifs with hpath
  · simp [hpath]
  · have hne : path ≠ target.path := fun h => hpath h.symm
    rw [lastListed, List.find?_eq_none]
    simp [hne]

theorem card_seasonPaths : (seasonPaths target videos).card = (sameSeason target videos).length := by
  rw [← toFinset_sameSeason, List.toFinset_card_of_nodup (nodup_sameSeason target videos), List.length_map]

/-! ### The nearest -/

/-- The files at no distance that come first: of the file's own episode, with a path before its own. -/
def namesakesBefore (target : FolderVideo) (videos : List FolderVideo) : Finset Path :=
  (seasonPaths target videos).filter fun path => path < target.path ∧
    (lastListed target.season videos path).any fun v => v.episode.isSome && v.episode = target.episode

/-- A file listed by its episode only, with a path before the file's own, is one of them. -/
theorem mem_namesakesBefore {v : FolderVideo} (hlisted : v ∈ videos) (hseason : v.season = target.season)
    (hlt : v.path < target.path)
    (hall : ∀ w ∈ videos, w.path = v.path → w.episode.isSome = true ∧ w.episode = target.episode) :
    v.path ∈ namesakesBefore target videos := by
  have hkept : v ∈ videos.filter fun w => w.season = target.season := List.mem_filter.2 ⟨hlisted, decide_eq_true hseason⟩
  refine Finset.mem_filter.2 ⟨Finset.mem_insert_of_mem (List.mem_toFinset.2 (List.mem_map_of_mem hkept)), hlt, ?_⟩
  have hfound : (lastListed target.season videos v.path).isSome = true :=
    List.find?_isSome.2 ⟨v, List.mem_reverse.2 hkept, decide_eq_true rfl⟩
  obtain ⟨w, hw⟩ := Option.isSome_iff_exists.1 hfound
  have hmem : w ∈ videos := List.mem_of_mem_filter (List.mem_reverse.1 (List.mem_of_find?_eq_some hw))
  have hpath : w.path = v.path := by
    rw [lastListed] at hw
    simpa using List.find?_some hw
  rw [hw, Option.any_some, Bool.and_eq_true, decide_eq_true_eq]
  exact hall w hmem hpath

@[simp] theorem distance_snd (members : List (Path × FolderVideo)) (v : FolderVideo) :
    (ofLex (distance target members v)).2 = v.path := by
  rw [distance]
  cases target.episode <;> cases v.episode <;> rfl

/-- The file is at no distance from itself. -/
theorem distance_self (members : List (Path × FolderVideo)) :
    distance target members target = toLex (0, target.path) := by
  rw [distance]
  cases target.episode <;> simp

/-- The members in path order hold each member's path. -/
theorem position_inj {members : List (Path × FolderVideo)} {p q : Path} (hp : p ∈ members.map Prod.fst)
    (h : position members p = position members q) : p = q :=
  (List.idxOf_inj (mem_sortBy.mpr hp)).1 h

/-- **Nearer than the file itself** are those of its own episode with a path before its own. -/
theorem distance_lt_self_iff {v : FolderVideo} (hv : v.path ∈ (sameSeason target videos).map Prod.fst) :
    distance target (sameSeason target videos) v < distance target (sameSeason target videos) target ↔
      v.path < target.path ∧ v.episode.isSome = true ∧ v.episode = target.episode := by
  have hposition : ((position (sameSeason target videos) v.path : ℤ) -
      position (sameSeason target videos) target.path).natAbs = 0 → v.path = target.path := fun h =>
    position_inj hv (by omega)
  rw [distance_self, Prod.Lex.lt_iff, distance_snd]
  simp only [ofLex_toLex, Nat.not_lt_zero, false_or]
  rw [and_comm, and_congr_right_iff]
  intro hlt
  rw [distance]
  cases hepisode : target.episode with
  | none =>
    refine iff_of_false (fun h => ?_) (by cases v.episode <;> simp)
    exact hlt.ne (hposition (by simpa using h))
  | some e =>
    cases v.episode with
    | none =>
      refine iff_of_false (fun h => ?_) (by simp)
      exact hlt.ne (hposition (by simpa using h))
    | some f =>
      simp only [ofLex_toLex, Option.isSome_some, true_and, Option.some.injEq, Int.natAbs_eq_zero]
      omega

/-- The members' own paths. -/
theorem map_path_members : ((sameSeason target videos).map Prod.snd).map FolderVideo.path =
    (sameSeason target videos).map Prod.fst := by
  rw [List.map_map]
  exact List.map_congr_left fun entry hentry => path_of_mem hentry

theorem target_mem_members (target : FolderVideo) (videos : List FolderVideo) :
    target ∈ (sameSeason target videos).map Prod.snd := by
  have hget : Dict.get? (sameSeason target videos) target.path = some target := by rw [get?_sameSeason, if_pos rfl]
  exact List.mem_map_of_mem (Dict.mem_of_get? hget)

/-- The nearer members are as many as the namesakes before the file. -/
theorem length_nearer : (((sameSeason target videos).map Prod.snd).filter fun v =>
    distance target (sameSeason target videos) v < distance target (sameSeason target videos) target).length =
      (namesakesBefore target videos).card := by
  have hnodup : ((((sameSeason target videos).map Prod.snd).filter fun v =>
      distance target (sameSeason target videos) v < distance target (sameSeason target videos) target).map
        FolderVideo.path).Nodup := by
    refine List.Nodup.sublist (List.filter_sublist.map _) ?_
    rw [map_path_members]
    exact nodup_sameSeason target videos
  rw [← List.length_map (f := FolderVideo.path), ← List.toFinset_card_of_nodup hnodup]
  congr 1
  ext path
  rw [List.mem_toFinset, List.mem_map, namesakesBefore, Finset.mem_filter, ← toFinset_sameSeason, List.mem_toFinset,
    Option.any_eq_true]
  constructor
  · rintro ⟨v, hv, rfl⟩
    obtain ⟨hv, hlt⟩ := List.mem_filter.1 hv
    obtain ⟨entry, hentry, rfl⟩ := List.mem_map.1 hv
    have hpath := path_of_mem hentry
    have hkey : entry.2.path ∈ (sameSeason target videos).map Prod.fst := hpath ▸ List.mem_map_of_mem hentry
    obtain ⟨hbefore, hepisode, hsame⟩ := (distance_lt_self_iff hkey).1 (of_decide_eq_true hlt)
    have hget := (Dict.get?_eq_some_iff (nodup_sameSeason target videos)).2 hentry
    rw [← hpath, get?_sameSeason, if_neg hbefore.ne'] at hget
    exact ⟨hkey, hbefore, entry.2, hget, by rw [hepisode, hsame]; simp⟩
  · rintro ⟨-, hbefore, v, hlast, hepisode⟩
    rw [Bool.and_eq_true, decide_eq_true_eq] at hepisode
    have hget : Dict.get? (sameSeason target videos) path = some v := by rw [get?_sameSeason, if_neg hbefore.ne', hlast]
    have hentry := Dict.mem_of_get? hget
    have hpath : v.path = path := path_of_mem hentry
    have hkey : v.path ∈ (sameSeason target videos).map Prod.fst := hpath ▸ List.mem_map_of_mem hentry
    refine ⟨v, List.mem_filter.2 ⟨List.mem_map_of_mem hentry, decide_eq_true ?_⟩, hpath⟩
    exact (distance_lt_self_iff hkey).2 ⟨hpath ▸ hbefore, hepisode⟩

/-- **The file is among the nearest** exactly when fewer than 40 namesakes come before it. -/
theorem target_mem_nearest_iff : target ∈ nearest target (sameSeason target videos) ↔
    (namesakesBefore target videos).card < maxGroupEpisodes := by
  have hdistinct : ((sameSeason target videos).map Prod.snd).Pairwise fun v w =>
      distance target (sameSeason target videos) v ≠ distance target (sameSeason target videos) w := by
    have hnodup := nodup_sameSeason target videos
    rw [← map_path_members, List.Nodup, List.pairwise_map] at hnodup
    refine hnodup.imp fun hne heq => hne ?_
    rw [← distance_snd (sameSeason target videos), heq, distance_snd]
  rw [nearest, mem_take_sortBy_iff hdistinct (target_mem_members target videos), length_nearer]

/-- Who is there by a path of the nearest is the member with that path. -/
theorem path_mem_nearest_iff : target.path ∈ (nearest target (sameSeason target videos)).map FolderVideo.path ↔
    target ∈ nearest target (sameSeason target videos) := by
  refine ⟨fun h => ?_, fun h => List.mem_map_of_mem h⟩
  obtain ⟨v, hv, hpath⟩ := List.mem_map.1 h
  have hmem : v ∈ (sameSeason target videos).map Prod.snd := mem_sortBy.1 (List.take_subset _ _ hv)
  have hinj := List.inj_on_of_nodup_map (map_path_members ▸ nodup_sameSeason target videos)
  exact hinj hmem (target_mem_members target videos) hpath ▸ hv

/-! ### The group -/

theorem nodup_capped : ((capped target (sameSeason target videos)).map Prod.fst).Nodup := by
  rw [capped]
  split_ifs
  · refine Dict.nodup_update _ ?_
    exact List.nodup_nil
  · exact nodup_sameSeason target videos

/-- The paths of the members that are kept. -/
theorem mem_capped {path : Path} : path ∈ (capped target (sameSeason target videos)).map Prod.fst ↔
    if (sameSeason target videos).length > maxGroupEpisodes then
      path ∈ (nearest target (sameSeason target videos)).map FolderVideo.path
    else path ∈ seasonPaths target videos := by
  rw [capped]
  split_ifs
  · rw [Dict.mem_keys_update]
    simp
  · rw [← toFinset_sameSeason, List.mem_toFinset]

/-- Only members are kept. -/
theorem mem_seasonPaths_of_mem_capped {path : Path} (h : path ∈ (capped target (sameSeason target videos)).map Prod.fst) :
    path ∈ seasonPaths target videos := by
  rw [mem_capped] at h
  split_ifs at h
  · obtain ⟨v, hv, rfl⟩ := List.mem_map.1 h
    obtain ⟨entry, hentry, rfl⟩ := List.mem_map.1 (mem_sortBy.1 (List.take_subset _ _ hv))
    rw [← toFinset_sameSeason, List.mem_toFinset, path_of_mem hentry]
    exact List.mem_map_of_mem hentry
  · exact h

theorem length_capped_le : (capped target (sameSeason target videos)).length ≤ maxGroupEpisodes := by
  by_cases hmany : (sameSeason target videos).length > maxGroupEpisodes
  · have hsub : (capped target (sameSeason target videos)).map Prod.fst ⊆
        (nearest target (sameSeason target videos)).map FolderVideo.path := fun path hpath => by
      rw [mem_capped, if_pos hmany] at hpath
      exact hpath
    have hle := (nodup_capped.subperm hsub).length_le
    rw [List.length_map, List.length_map] at hle
    exact hle.trans (List.length_take_le _ _)
  · rw [capped, if_neg hmany]
    omega

/-- What the episodes of a file's season group are to be: the file itself among them, no path twice, sorted, at most 40, of
the season, and all of it when that is not too much. -/
structure HoldsSeason (target : FolderVideo) (videos : List FolderVideo) (episodes : List Path) : Prop where
  itself : target.path ∈ episodes
  nodup : episodes.Nodup
  sorted : episodes.Pairwise (· ≤ ·)
  few : episodes.length ≤ 40
  season : ∀ path ∈ episodes, path = target.path ∨ ∃ v ∈ videos, v.path = path ∧ v.season = target.season
  whole : (seasonPaths target videos).card ≤ 40 → ∀ path ∈ seasonPaths target videos, path ∈ episodes

/-- The namesakes before a file are of its season, and the file is another. -/
theorem card_namesakesBefore_lt : (namesakesBefore target videos).card < (seasonPaths target videos).card := by
  refine Finset.card_lt_card ⟨Finset.filter_subset _ _, fun h => ?_⟩
  have hself := (Finset.mem_filter.1 (h (Finset.mem_insert_self target.path _))).2.1
  exact lt_irrefl _ hself

theorem episodes_seasonGroup (canonicalPath : Path) (videos : List FolderVideo) :
    (seasonGroup canonicalPath videos).episodes =
      sortBy id ((capped (folderVideo canonicalPath) (sameSeason (folderVideo canonicalPath) videos)).map Prod.fst) := rfl

/-- The file is in its own group if fewer than 40 namesakes come before it. -/
theorem itself_mem_iff (canonicalPath : Path) (videos : List FolderVideo) :
    (folderVideo canonicalPath).path ∈ (seasonGroup canonicalPath videos).episodes ↔
      (namesakesBefore (folderVideo canonicalPath) videos).card < 40 := by
  rw [episodes_seasonGroup]
  generalize folderVideo canonicalPath = target
  rw [mem_sortBy, mem_capped]
  split_ifs with hmany
  · rw [path_mem_nearest_iff, target_mem_nearest_iff, maxGroupEpisodes]
  · have hlt : (namesakesBefore target videos).card < (seasonPaths target videos).card := card_namesakesBefore_lt
    have hcard : (seasonPaths target videos).card = (sameSeason target videos).length := card_seasonPaths
    rw [maxGroupEpisodes] at hmany
    exact iff_of_true (Finset.mem_insert_self _ _) (by omega)

/-- **A season group holds the file it is for**, and all else it is to be, if and only if fewer than 40 files with its episode
number have a path before its own. -/
theorem seasonGroup_spec (canonicalPath : Path) (videos : List FolderVideo) :
    HoldsSeason (folderVideo canonicalPath) videos (seasonGroup canonicalPath videos).episodes ↔
      (namesakesBefore (folderVideo canonicalPath) videos).card < 40 := by
  have hitself := itself_mem_iff canonicalPath videos
  rw [episodes_seasonGroup] at hitself ⊢
  generalize folderVideo canonicalPath = target at hitself ⊢
  have hcard : (seasonPaths target videos).card = (sameSeason target videos).length := card_seasonPaths
  refine ⟨fun h => hitself.1 h.itself, fun h => ⟨hitself.2 h, ?_, pairwise_sortBy id _, ?_, fun path hpath => ?_,
    fun hfew path hpath => ?_⟩⟩
  · exact (sortBy_perm id _).nodup_iff.2 nodup_capped
  · rw [(sortBy_perm id _).length_eq, List.length_map]
    exact length_capped_le
  · obtain rfl | hlisted := Finset.mem_insert.1 (mem_seasonPaths_of_mem_capped (mem_sortBy.1 hpath))
    · exact .inl rfl
    · obtain ⟨v, hv, hvpath⟩ := List.mem_map.1 (List.mem_toFinset.1 hlisted)
      obtain ⟨hmem, hseason⟩ := List.mem_filter.1 hv
      exact .inr ⟨v, hmem, hvpath, of_decide_eq_true hseason⟩
  · rw [mem_sortBy, mem_capped, if_neg (by rw [maxGroupEpisodes]; omega)]
    exact hpath

/-- A copy of an episode. -/
def copyPath (k : ℕ) : Path := "/tv/Show/Season 01/S01E01 v".toList ++ Nat.toDigits 10 (k + 10) ++ ".mkv".toList

/-- The copies' names tell the same season and episode. -/
theorem folderVideo_copyPath : ∀ k < 41, folderVideo (copyPath k) = ⟨copyPath k, some 1, some 1⟩ := by decide +kernel

/-- The last copy's path comes last. -/
theorem copyPath_lt : ∀ k < 40, copyPath k < copyPath 40 := by decide +kernel

/-- Different copies have different paths. -/
theorem copyPath_inj {i j : ℕ} (hi : i < 40) (hj : j < 40) (h : copyPath i = copyPath j) : i = j := by
  have hdigits : ∀ i < 40, ∀ j < 40, Nat.toDigits 10 (i + 10) = Nat.toDigits 10 (j + 10) → i = j := by decide +kernel
  exact hdigits i hi j hj (List.append_cancel_left (List.append_cancel_right h))

/-- The last of 41 copies is not in its own group. -/
theorem not_holdsSeason_of_copies :
    ¬ HoldsSeason (folderVideo (copyPath 40)) ((List.range 41).map fun k => folderVideo (copyPath k))
      (seasonGroup (copyPath 40) ((List.range 41).map fun k => folderVideo (copyPath k))).episodes := by
  intro h
  have hvideos : ((List.range 41).map fun k => folderVideo (copyPath k)) =
      (List.range 41).map fun k => ⟨copyPath k, some 1, some 1⟩ :=
    List.map_congr_left fun k hk => folderVideo_copyPath k (List.mem_range.1 hk)
  have htarget : folderVideo (copyPath 40) = ⟨copyPath 40, some 1, some 1⟩ := folderVideo_copyPath 40 (by decide)
  have hfew := (itself_mem_iff (copyPath 40) ((List.range 41).map fun k => folderVideo (copyPath k))).1 h.itself
  rw [hvideos, htarget] at hfew
  refine hfew.not_ge ?_
  calc 40 = ((Finset.range 40).image copyPath).card := by
        rw [Finset.card_image_of_injOn, Finset.card_range]
        exact fun i hi j hj => copyPath_inj (List.mem_range.1 hi) (List.mem_range.1 hj)
    _ ≤ _ := Finset.card_le_card fun path hpath => ?_
  obtain ⟨k, hk, rfl⟩ := Finset.mem_image.1 hpath
  have hlt := Finset.mem_range.1 hk
  have hlisted : (⟨copyPath k, some 1, some 1⟩ : FolderVideo) ∈
      (List.range 41).map fun k => (⟨copyPath k, some 1, some 1⟩ : FolderVideo) :=
    List.mem_map_of_mem (List.mem_range.2 (by omega))
  refine mem_namesakesBefore hlisted rfl (copyPath_lt k hlt) fun w hw _ => ?_
  obtain ⟨_, -, rfl⟩ := List.mem_map.1 hw
  exact ⟨rfl, rfl⟩

end MediaPreview.Audio
