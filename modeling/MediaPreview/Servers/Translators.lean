import MediaPreview.Servers.Ownership

/-!
# Two translators of one path

A path a webhook or a server names is read here by two modules. `config.paths` takes the first row of the global mappings
with a prefix that covers the path (`pathToCanonicalLocal`), or the path in every row's spellings
(`expandPathMappingCandidates`); `servers.ownership` takes every row whose server prefix covers it (`applyPathMappings`).

Both compare prefixes folder by folder in one normal form. They differ in what they do with the rest: one writes it after
the normal form of the local prefix, the other splices it behind the local prefix as it was typed. The two lead to the
same place (`place`), where the first row that covers the path does so by its server prefix.
-/

namespace MediaPreview.Servers

open Separators

/-! ### What is between the blanks -/

theorem isSpace_fwd (c : Char) : isSpace (if c = '\\' then '/' else c) = isSpace c := by
  by_cases hc : c = '\\'
  · rw [if_pos hc, hc]
    rfl
  · rw [if_neg hc]

theorem strip_fwd (path : Path) : strip (fwd path) = fwd (strip path) := by
  have hspace : isSpace ∘ (fun c => if c = '\\' then '/' else c) = isSpace := funext isSpace_fwd
  simp only [strip, fwd, List.rdropWhile, List.dropWhile_map, ← List.map_reverse, hspace]

theorem strip_strip (path : Path) : strip (strip path) = strip path := by
  have hhead : ∀ s : Path, s.dropWhile isSpace = s → (s.rdropWhile isSpace).dropWhile isSpace = s.rdropWhile isSpace := by
    intro s hs
    obtain ⟨t, ht⟩ := List.rdropWhile_prefix isSpace s
    cases hr : s.rdropWhile isSpace with
    | nil => rfl
    | cons c r =>
      rw [hr, List.cons_append] at ht
      rw [← ht] at hs
      by_cases hc : isSpace c
      · rw [List.dropWhile_cons_of_pos hc] at hs
        have hlen := congrArg List.length hs
        have hle := (List.dropWhile_sublist isSpace (l := r ++ t)).length_le
        rw [List.length_cons] at hlen
        omega
      · rw [List.dropWhile_cons_of_neg hc]
  rw [strip, strip, hhead _ (List.dropWhile_idempotent _ _), List.rdropWhile_idempotent]

/-! ### The rows -/

/-- A row of the global mappings, as `normalize_path_mappings` writes it: no prefix is empty, none has blanks around it. -/
structure MappingRow where
  /-- `plex_prefix`. -/
  plexPrefix : Path
  /-- `local_prefix`. -/
  localPrefix : Path
  /-- `webhook_prefixes`. -/
  webhookPrefixes : List Path
  plex_ne_nil : plexPrefix ≠ []
  local_ne_nil : localPrefix ≠ []
  webhook_ne_nil : ∀ prefix' ∈ webhookPrefixes, prefix' ≠ []
  stripped : ∀ prefix' ∈ plexPrefix :: localPrefix :: webhookPrefixes, strip prefix' = prefix'

/-- The prefixes of a list without the blanks around them; what is blank is no prefix. -/
def stripAll (prefixes : List Path) : List Path := (prefixes.map strip).filter (· ≠ [])

theorem of_mem_stripAll {prefixes : List Path} {s : Path} (h : s ∈ stripAll prefixes) : s ≠ [] ∧ strip s = s := by
  obtain ⟨hmem, hne⟩ := List.mem_filter.1 h
  obtain ⟨t, -, rfl⟩ := List.mem_map.1 hmem
  exact ⟨of_decide_eq_true hne, strip_strip t⟩

/-- The row of two prefixes and those of the webhooks, when neither of the two is blank. -/
def mappingRow? (plex localPrefix : Path) (webhooks : List Path) : Option MappingRow :=
  if h : strip plex ≠ [] ∧ strip localPrefix ≠ [] then
    some {
      plexPrefix := strip plex
      localPrefix := strip localPrefix
      webhookPrefixes := stripAll webhooks
      plex_ne_nil := h.1
      local_ne_nil := h.2
      webhook_ne_nil := fun _ hs => (of_mem_stripAll hs).1
      stripped := by
        intro s hs
        rw [List.mem_cons, List.mem_cons] at hs
        obtain rfl | rfl | hs := hs
        · exact strip_strip _
        · exact strip_strip _
        · exact (of_mem_stripAll hs).2 }
  else none

/-- `get_path_mapping_pairs`: the roots of the two older settings, each a list between semicolons. -/
def getPathMappingPairs (plexMapping localMapping : Path) : List (Path × Path) :=
  match stripAll (plexMapping.splitOn ';'), stripAll (localMapping.splitOn ';') with
  | [], _ | _, [] => []
  | plexList, [localRoot] => plexList.map fun plexRoot => (plexRoot, localRoot)
  | plexRoot :: plexList, localRoot :: localList =>
    if plexList.length = localList.length then (plexRoot :: plexList).zip (localRoot :: localList)
    else [(plexRoot, localRoot)]

/-- A row of `settings["path_mappings"]` as it is stored. -/
structure RawRow extends PathMapping where
  /-- `webhook_prefixes`. -/
  webhookPrefixes : List Path

/-- `normalize_path_mappings`: the stored rows with both their prefixes, else the pairs of the older settings. -/
def normalizePathMappings (raw : List RawRow) (plexMapping localMapping : Path) : List MappingRow :=
  let out := raw.filterMap fun row => mappingRow? row.remote row.localPrefix row.webhookPrefixes
  if out ≠ [] then out
  else (getPathMappingPairs plexMapping localMapping).filterMap fun pair => mappingRow? pair.1 pair.2 []

/-- A normalised row as `servers.ownership` reads it. -/
def MappingRow.mapping (row : MappingRow) : PathMapping := ⟨[], row.plexPrefix, row.localPrefix⟩

@[simp] theorem MappingRow.remote_mapping (row : MappingRow) : row.mapping.remote = row.plexPrefix := rfl

@[simp] theorem MappingRow.localPrefix_mapping (row : MappingRow) : row.mapping.localPrefix = row.localPrefix := rfl

namespace Nfc

variable (N : Nfc)

/-! ### Translating by a row -/

/-- `_normalize_prefix`. -/
def normalizePrefix (p : Path) : Path :=
  if p = [] then p
  else if N.map (rstrip '/' (fwd p)) = [] then ['/'] else N.map (rstrip '/' (fwd p))

/-- `_path_matches_prefix`. -/
def PathMatchesPrefix (path prefix' : Path) : Prop :=
  N.normalizePrefix prefix' ≠ [] ∧
    (N.map (fwd (strip path)) = N.normalizePrefix prefix' ∨
      N.normalizePrefix prefix' ++ ['/'] <+: N.map (fwd (strip path)))

instance (path prefix' : Path) : Decidable (N.PathMatchesPrefix path prefix') := inferInstanceAs (Decidable (_ ∧ (_ ∨ _)))

/-- The rest of the path behind the prefix `source`, written after the prefix `target`. -/
def respelled (path source target : Path) : Path :=
  let rest := ((N.map path).drop source.length).dropWhile (· = '/')
  if rest ≠ [] then rstrip '/' target ++ '/' :: rest else if target ≠ [] then target else ['/']

/-- A webhook prefix that covers the path, and where the row puts it then. -/
def canonicalOfWebhook (path : Path) (row : MappingRow) (wp : Path) : Option Path :=
  if N.normalizePrefix wp ≠ [] ∧ N.PathMatchesPrefix path (N.normalizePrefix wp) then
    some (N.respelled path (N.normalizePrefix wp) (N.normalizePrefix row.localPrefix))
  else none

/-- One row of `path_to_canonical_local`: its server prefix first. -/
def canonicalOf (path : Path) (row : MappingRow) : Option Path :=
  if N.normalizePrefix row.plexPrefix ≠ [] ∧ N.PathMatchesPrefix path (N.normalizePrefix row.plexPrefix) then
    some (N.respelled path (N.normalizePrefix row.plexPrefix) (N.normalizePrefix row.localPrefix))
  else row.webhookPrefixes.findSome? (N.canonicalOfWebhook path row)

/-- `path_to_canonical_local`. -/
def pathToCanonicalLocal (path : Path) (rows : List MappingRow) : Path :=
  if path = [] ∨ rows = [] then path
  else (rows.findSome? (N.canonicalOf (fwd (strip path)))).getD (fwd (strip path))

/-- `_add_mapped_candidate`. -/
def addMappedCandidate (path : Path) (candidates : List Path) (sourcePrefix targetPrefix : Path) : List Path :=
  let source := N.normalizePrefix sourcePrefix
  let target := N.normalizePrefix targetPrefix
  if source = [] ∨ target = [] ∨ ¬ N.PathMatchesPrefix path source then candidates
  else
    let candidate := N.respelled path source target
    addForm (addForm candidates (some candidate)) (windowsNativePath targetPrefix candidate)

/-- A webhook prefix of a row, to and from both its other prefixes. -/
def expandWebhook (path : Path) (row : MappingRow) (candidates : List Path) (wp : Path) : List Path :=
  let toLocal := N.addMappedCandidate path candidates wp row.localPrefix
  let toPlex := N.addMappedCandidate path toLocal wp row.plexPrefix
  let fromLocal := N.addMappedCandidate path toPlex row.localPrefix wp
  N.addMappedCandidate path fromLocal row.plexPrefix wp

/-- One row of `expand_path_mapping_candidates`. -/
def expandRow (path : Path) (candidates : List Path) (row : MappingRow) : List Path :=
  let toLocal := N.addMappedCandidate path candidates row.plexPrefix row.localPrefix
  let toPlex := N.addMappedCandidate path toLocal row.localPrefix row.plexPrefix
  row.webhookPrefixes.foldl (N.expandWebhook path row) toPlex

/-- `expand_path_mapping_candidates`. -/
def expandPathMappingCandidates (path : Path) (rows : List MappingRow) : List Path :=
  if fwd (strip path) = [] then [] else rows.foldl (N.expandRow (fwd (strip path))) [fwd (strip path)]

/-! ### Prefixes that cover a path -/

/-- The path lies under the prefix, folder by folder. -/
def Covers (prefix' path : Path) : Prop := N.normalize prefix' <+: N.normalize path

instance (prefix' path : Path) : Decidable (N.Covers prefix' path) := inferInstanceAs (Decidable (_ <+: _))

theorem rstrip_map_rstrip (p : Path) : rstrip '/' (N.map (rstrip '/' p)) = N.map (rstrip '/' p) := by
  rw [← N.map_rstrip, rstrip_rstrip]

theorem fwd_map_rstrip (p : Path) : fwd (N.map (rstrip '/' (fwd p))) = N.map (rstrip '/' (fwd p)) := by
  obtain ⟨k, hk⟩ := rstrip_append_run '/' (fwd p)
  rw [N.fwd_map, (fwd_of_append hk).1]

/-- A prefix is written as its normal form, but for the root. -/
theorem normalizePrefix_eq {p : Path} (h : p ≠ []) :
    N.normalizePrefix p = if N.map (rstrip '/' (fwd p)) = [] then ['/'] else N.map (rstrip '/' (fwd p)) := by
  rw [normalizePrefix, if_neg h]

theorem normalizePrefix_ne_nil {p : Path} (h : p ≠ []) : N.normalizePrefix p ≠ [] := by
  rw [N.normalizePrefix_eq h]
  by_cases hnil : N.map (rstrip '/' (fwd p)) = []
  · rw [if_pos hnil]
    exact List.cons_ne_nil _ _
  · rwa [if_neg hnil]

/-- Without the slashes at its end, it is the normal form of the prefix without them. -/
theorem rstrip_normalizePrefix (p : Path) : rstrip '/' (N.normalizePrefix p) = N.map (rstrip '/' (fwd p)) := by
  by_cases hp : p = []
  · rw [hp]
    exact N.map_nil.symm
  rw [N.normalizePrefix_eq hp]
  by_cases hnil : N.map (rstrip '/' (fwd p)) = []
  · rw [if_pos hnil, hnil]
    rfl
  · rw [if_neg hnil, N.rstrip_map_rstrip]

theorem fwd_normalizePrefix (p : Path) : fwd (N.normalizePrefix p) = N.normalizePrefix p := by
  by_cases hp : p = []
  · rw [hp]
    rfl
  rw [N.normalizePrefix_eq hp]
  by_cases hnil : N.map (rstrip '/' (fwd p)) = []
  · rw [if_pos hnil]
    rfl
  · rw [if_neg hnil, N.fwd_map_rstrip]

/-- A prefix written once is written so again. -/
theorem normalizePrefix_idem (p : Path) : N.normalizePrefix (N.normalizePrefix p) = N.normalizePrefix p := by
  by_cases hp : p = []
  · rw [hp]
    rfl
  rw [N.normalizePrefix_eq (N.normalizePrefix_ne_nil hp), fwd_normalizePrefix, rstrip_normalizePrefix, N.idem,
    ← N.normalizePrefix_eq hp]

/-- What is compared is the path without the blanks around it, with forward slashes. -/
theorem pathMatchesPrefix_fwd_strip {path prefix' : Path} :
    N.PathMatchesPrefix (fwd (strip path)) (N.normalizePrefix prefix') ↔ N.PathMatchesPrefix path prefix' := by
  rw [PathMatchesPrefix, PathMatchesPrefix, normalizePrefix_idem, strip_fwd, strip_strip, fwd_fwd]

/-- **What matches covers**: the comparison of `config.paths` finds no prefix that the other does not. -/
theorem covers_of_pathMatchesPrefix {path prefix' : Path} (h : N.PathMatchesPrefix path prefix') :
    N.Covers prefix' (strip path) := by
  obtain ⟨hne, h⟩ := h
  have hprefix : prefix' ≠ [] := by
    rintro rfl
    exact hne rfl
  have hbounded : N.map (rstrip '/' (fwd prefix')) ++ ['/'] <+: N.map (fwd (strip path)) ++ ['/'] := by
    rw [N.normalizePrefix_eq hprefix] at h
    by_cases hnil : N.map (rstrip '/' (fwd prefix')) = []
    · rw [if_pos hnil] at h
      rw [hnil]
      obtain heq | hdouble := h
      · rw [heq]
        exact ⟨['/'], rfl⟩
      · exact ((List.prefix_append ['/'] ['/']).trans hdouble).trans (List.prefix_append _ _)
    · rw [if_neg hnil] at h
      obtain heq | hbelow := h
      · exact heq ▸ List.prefix_refl _
      · exact hbelow.trans (List.prefix_append _ _)
  obtain ⟨t, ht, hcut⟩ := cut_of_prefix hbounded
  rw [Covers, normalize, normalize, N.map_rstrip (fwd (strip path)), ht,
    rstrip_append_of_rstrip (N.rstrip_map_rstrip (fwd prefix'))]
  exact prefix_of_cut _ [] hcut.rstrip

/-! ### Where a path leads -/

/-- Where a path leads: forward slashes, one normal form, one slash for each run of them and none at the end. -/
def place (path : Path) : Path := collapse '/' (rstrip '/' (N.map (fwd path)))

/-- Where a mapping puts a path: the normal form of its local prefix, and the part of the path it kept. -/
theorem map_fwd_mapped {path : Path} {m : PathMapping} (h : Cut '/' (kept path m.remote)) :
    ∃ j, N.map (fwd (mapped m path)) =
      N.map (rstrip '/' (fwd m.localPrefix)) ++ (List.replicate j '/' ++ N.map (kept path m.remote)) := by
  obtain ⟨k, hk⟩ := rstrip_append_run '/' m.localPrefix
  obtain ⟨j, hj⟩ := rstrip_append_run '/' (fwd (rstrip '/' m.localPrefix))
  have hstrip : rstrip '/' (fwd (rstrip '/' m.localPrefix)) = rstrip '/' (fwd m.localPrefix) := by
    conv_rhs => rw [hk]
    rw [fwd_append, fwd_replicate, rstrip_append_replicate]
  refine ⟨j, ?_⟩
  rw [mapped, fwd_append, fwd_kept, hj, hstrip, List.append_assoc, N.map_append _ ((cut_replicate j).append h),
    N.map_append _ h, N.map_replicate]

/-- The rest of the path behind the server prefix, without the slashes before it. -/
theorem rest_eq {path prefix' : Path} (hne : prefix' ≠ []) (h : N.InPlace path prefix') :
    ((N.map (fwd path)).drop (N.normalizePrefix prefix').length).dropWhile (· = '/') =
      N.map ((kept path prefix').dropWhile (· = '/')) := by
  rw [h.map_fwd, N.normalizePrefix_eq hne, ← N.map_dropWhile]
  by_cases hnil : N.map (rstrip '/' (fwd prefix')) = []
  · rw [if_pos hnil, hnil, List.nil_append]
    obtain hkept | ⟨b, hkept⟩ := cut_iff.1 (N.map_cut h.2)
    · rw [hkept]
      rfl
    · rw [hkept]
      exact (List.dropWhile_cons_of_pos (by simp)).symm
  · rw [if_neg hnil, List.drop_left]

/-- **One place**: what the one writes after the local prefix and what the other splices behind it lead to the same place. -/
theorem place_respelled {path : Path} {row : MappingRow} (h : N.InPlace path row.plexPrefix) :
    N.place (N.respelled (fwd path) (N.normalizePrefix row.plexPrefix) (N.normalizePrefix row.localPrefix)) =
      N.place (mapped row.mapping path) := by
  obtain ⟨j, hj⟩ := N.map_fwd_mapped (m := row.mapping) h.2
  obtain ⟨k, hk, hhead⟩ := exists_run '/' (kept path row.plexPrefix)
  rw [row.remote_mapping, row.localPrefix_mapping] at hj
  have hlocal : N.map (N.map (rstrip '/' (fwd row.localPrefix))) = N.map (rstrip '/' (fwd row.localPrefix)) := N.idem _
  have hstrip := N.rstrip_map_rstrip (fwd row.localPrefix)
  unfold place respelled
  dsimp only
  rw [hj, N.rest_eq row.plex_ne_nil h]
  by_cases hrest : (kept path row.plexPrefix).dropWhile (· = '/') = []
  · rw [hrest, List.append_nil] at hk
    rw [hrest, N.map_nil, if_neg (not_not.2 rfl), if_pos (N.normalizePrefix_ne_nil row.local_ne_nil), hk, N.map_replicate,
      N.fwd_normalizePrefix, ← N.map_rstrip, N.rstrip_normalizePrefix, hlocal, ← List.replicate_add,
      rstrip_append_replicate, hstrip]
  · have hmap : N.map ((kept path row.plexPrefix).dropWhile (· = '/')) ≠ [] := fun hnil => hrest ((N.eq_nil _).1 hnil)
    have hfwd : fwd ((kept path row.plexPrefix).dropWhile (· = '/')) = (kept path row.plexPrefix).dropWhile (· = '/') := by
      have hkept := fwd_kept path row.plexPrefix
      conv_lhs at hkept => rw [hk]
      rw [fwd_append, fwd_replicate] at hkept
      conv_rhs at hkept => rw [hk]
      exact List.append_cancel_left hkept
    obtain ⟨n, rfl⟩ : ∃ n, k = n + 1 := by
      cases k with
      | zero =>
        rw [List.replicate_zero, List.nil_append] at hk
        rw [← hk] at hhead
        exact absurd (h.2.resolve_left fun hnil => hrest (by rw [hnil]; rfl)) hhead
      | succ n => exact ⟨n, rfl⟩
    have hcons : fwd ('/' :: N.map ((kept path row.plexPrefix).dropWhile (· = '/'))) =
        '/' :: N.map ((kept path row.plexPrefix).dropWhile (· = '/')) := by
      rw [← List.singleton_append, fwd_append, N.fwd_map, hfwd, fwd_slash]
    rw [if_pos hmap, N.rstrip_normalizePrefix, fwd_append, hcons, N.fwd_map_rstrip, N.split, N.idem, N.idem]
    conv_rhs => rw [hk]
    rw [N.map_run_append, List.replicate_succ', List.append_assoc, List.singleton_append, ← List.append_assoc,
      ← List.append_assoc, List.append_assoc _ (List.replicate j '/'), ← List.replicate_add, List.append_assoc,
      collapse_rstrip_run _ _ hmap (N.head?_map_ne hhead)]

/-! ### The first row that covers the path -/

/-- A row answers for a path that its server prefix or a webhook prefix of it covers. -/
def Answers (row : MappingRow) (path : Path) : Prop :=
  N.PathMatchesPrefix path row.plexPrefix ∨ ∃ wp ∈ row.webhookPrefixes, N.PathMatchesPrefix path wp

/-- What a row answers with is a spelling behind its local prefix, from a prefix that covers the path. -/
theorem exists_of_canonicalOf {path l : Path} {row : MappingRow} (h : N.canonicalOf (fwd (strip path)) row = some l) :
    ∃ prefix' ∈ row.plexPrefix :: row.webhookPrefixes, N.PathMatchesPrefix path prefix' ∧
      l = N.respelled (fwd (strip path)) (N.normalizePrefix prefix') (N.normalizePrefix row.localPrefix) := by
  unfold canonicalOf at h
  by_cases hplex : N.normalizePrefix row.plexPrefix ≠ [] ∧
      N.PathMatchesPrefix (fwd (strip path)) (N.normalizePrefix row.plexPrefix)
  · rw [if_pos hplex] at h
    exact ⟨_, List.mem_cons_self, N.pathMatchesPrefix_fwd_strip.1 hplex.2, (Option.some.inj h).symm⟩
  · rw [if_neg hplex] at h
    obtain ⟨wp, hwp, hl⟩ := List.exists_of_findSome?_eq_some h
    unfold canonicalOfWebhook at hl
    by_cases hmatch : N.normalizePrefix wp ≠ [] ∧ N.PathMatchesPrefix (fwd (strip path)) (N.normalizePrefix wp)
    · rw [if_pos hmatch] at hl
      exact ⟨wp, List.mem_cons_of_mem _ hwp, N.pathMatchesPrefix_fwd_strip.1 hmatch.2, (Option.some.inj hl).symm⟩
    · rw [if_neg hmatch] at hl
      cases hl

/-- A row that does not answer is passed by. -/
theorem canonicalOf_eq_none {path : Path} {row : MappingRow} (h : ¬ N.Answers row path) :
    N.canonicalOf (fwd (strip path)) row = none := by
  rw [Option.eq_none_iff_forall_ne_some]
  intro l hl
  obtain ⟨prefix', hmem, hmatch, -⟩ := N.exists_of_canonicalOf hl
  obtain rfl | hwp := List.mem_cons.1 hmem
  · exact h (.inl hmatch)
  · exact h (.inr ⟨prefix', hwp, hmatch⟩)

/-- The server prefix comes before the webhooks' own. -/
theorem canonicalOf_of_plex {path : Path} {row : MappingRow} (h : N.PathMatchesPrefix path row.plexPrefix) :
    N.canonicalOf (fwd (strip path)) row =
      some (N.respelled (fwd (strip path)) (N.normalizePrefix row.plexPrefix) (N.normalizePrefix row.localPrefix)) :=
  if_pos ⟨h.1, N.pathMatchesPrefix_fwd_strip.2 h⟩

/-- A path that a prefix covers is not empty. -/
theorem ne_nil_of_pathMatchesPrefix {path prefix' : Path} (h : N.PathMatchesPrefix path prefix') : path ≠ [] := by
  rintro rfl
  obtain ⟨hne, heq | hprefix⟩ := h
  · exact hne (heq.symm.trans N.map_nil)
  · rw [show N.map (fwd (strip [])) = [] from N.map_nil, List.prefix_nil] at hprefix
    exact List.append_ne_nil_of_right_ne_nil _ (List.cons_ne_nil _ _) hprefix

/-- **The first row that answers decides**, by its server prefix when that covers the path. -/
theorem pathToCanonicalLocal_of_first {path : Path} {before after : List MappingRow} {row : MappingRow}
    (hbefore : ∀ r ∈ before, ¬ N.Answers r path) (h : N.PathMatchesPrefix path row.plexPrefix) :
    N.pathToCanonicalLocal path (before ++ row :: after) =
      N.respelled (fwd (strip path)) (N.normalizePrefix row.plexPrefix) (N.normalizePrefix row.localPrefix) := by
  have hnone : before.findSome? (N.canonicalOf (fwd (strip path))) = none :=
    List.findSome?_eq_none_iff.2 fun r hr => N.canonicalOf_eq_none (hbefore r hr)
  have hne : ¬ (path = [] ∨ before ++ row :: after = []) := by
    rintro (hnil | hnil)
    · exact N.ne_nil_of_pathMatchesPrefix h hnil
    · exact List.append_ne_nil_of_right_ne_nil _ (List.cons_ne_nil _ _) hnil
  rw [pathToCanonicalLocal, if_neg hne, List.findSome?_append, hnone, Option.none_or, List.findSome?_cons,
    N.canonicalOf_of_plex h]
  rfl

/-- Where no row answers, the path stays as it is, but for its slashes and the blanks around it. -/
theorem pathToCanonicalLocal_of_none {path : Path} {rows : List MappingRow} (h : ∀ r ∈ rows, ¬ N.Answers r path) :
    fwd (strip (N.pathToCanonicalLocal path rows)) = fwd (strip path) := by
  unfold pathToCanonicalLocal
  by_cases hnil : path = [] ∨ rows = []
  · rw [if_pos hnil]
  · rw [if_neg hnil, List.findSome?_eq_none_iff.2 fun r hr => N.canonicalOf_eq_none (h r hr), Option.getD_none, strip_fwd,
      strip_strip, fwd_fwd]

/-! ### Every row's spellings -/

section Folds

variable {α : Type} {f : List Path → α → List Path}

theorem subset_foldl (hf : ∀ candidates a, candidates ⊆ f candidates a) (l : List α) (candidates : List Path) :
    candidates ⊆ l.foldl f candidates := by
  induction l generalizing candidates with
  | nil => exact List.Subset.refl _
  | cons a l ih => exact List.Subset.trans (hf candidates a) (ih _)

theorem mem_foldl (hf : ∀ candidates a, candidates ⊆ f candidates a) {l : List α} {a : α} (ha : a ∈ l) {x : Path}
    (hx : ∀ candidates, x ∈ f candidates a) (candidates : List Path) : x ∈ l.foldl f candidates := by
  obtain ⟨before, after, rfl⟩ := List.append_of_mem ha
  rw [List.foldl_append, List.foldl_cons]
  exact subset_foldl hf after _ (hx _)

theorem foldl_of_fixed {l : List α} {candidates : List Path} (h : ∀ a ∈ l, f candidates a = candidates) :
    l.foldl f candidates = candidates := by
  induction l with
  | nil => rfl
  | cons a l ih =>
    rw [List.foldl_cons, h a List.mem_cons_self]
    exact ih fun b hb => h b (List.mem_cons_of_mem _ hb)

end Folds

theorem subset_addMappedCandidate (path source target : Path) (candidates : List Path) :
    candidates ⊆ N.addMappedCandidate path candidates source target := by
  unfold addMappedCandidate
  dsimp only
  by_cases hskip : N.normalizePrefix source = [] ∨ N.normalizePrefix target = [] ∨
      ¬ N.PathMatchesPrefix path (N.normalizePrefix source)
  · rw [if_pos hskip]
    exact List.Subset.refl _
  · rw [if_neg hskip]
    exact List.Subset.trans (subset_addForm _ _) (subset_addForm _ _)

theorem respelled_ne_nil (path source target : Path) : N.respelled path source target ≠ [] := by
  unfold respelled
  dsimp only
  by_cases hrest : ((N.map path).drop source.length).dropWhile (· = '/') ≠ []
  · rw [if_pos hrest]
    exact List.append_ne_nil_of_right_ne_nil _ (List.cons_ne_nil _ _)
  · rw [if_neg hrest]
    by_cases htarget : target ≠ []
    · rwa [if_pos htarget]
    · rw [if_neg htarget]
      exact List.cons_ne_nil _ _

/-- The spelling from a prefix that covers the path is a candidate. -/
theorem mem_addMappedCandidate {path source target : Path} (htarget : target ≠ []) (h : N.PathMatchesPrefix path source)
    (candidates : List Path) :
    N.respelled (fwd (strip path)) (N.normalizePrefix source) (N.normalizePrefix target) ∈
      N.addMappedCandidate (fwd (strip path)) candidates source target := by
  have hgoes : ¬ (N.normalizePrefix source = [] ∨ N.normalizePrefix target = [] ∨
      ¬ N.PathMatchesPrefix (fwd (strip path)) (N.normalizePrefix source)) := by
    rw [not_or, not_or, not_not]
    exact ⟨h.1, N.normalizePrefix_ne_nil htarget, N.pathMatchesPrefix_fwd_strip.2 h⟩
  unfold addMappedCandidate
  dsimp only
  rw [if_neg hgoes]
  exact subset_addForm _ _ (mem_addForm _ (N.respelled_ne_nil _ _ _))

theorem addMappedCandidate_of_not {path source target : Path} (h : ¬ N.PathMatchesPrefix path source)
    (candidates : List Path) : N.addMappedCandidate (fwd (strip path)) candidates source target = candidates :=
  if_pos (.inr (.inr fun hmatch => h (N.pathMatchesPrefix_fwd_strip.1 hmatch)))

theorem subset_expandWebhook (path : Path) (row : MappingRow) (candidates : List Path) (wp : Path) :
    candidates ⊆ N.expandWebhook path row candidates wp := by
  refine List.Subset.trans (N.subset_addMappedCandidate path wp row.localPrefix _) ?_
  refine List.Subset.trans (N.subset_addMappedCandidate path wp row.plexPrefix _) ?_
  refine List.Subset.trans (N.subset_addMappedCandidate path row.localPrefix wp _) ?_
  exact N.subset_addMappedCandidate path row.plexPrefix wp _

theorem subset_expandRow (path : Path) (candidates : List Path) (row : MappingRow) :
    candidates ⊆ N.expandRow path candidates row := by
  refine List.Subset.trans (N.subset_addMappedCandidate path row.plexPrefix row.localPrefix _) ?_
  refine List.Subset.trans (N.subset_addMappedCandidate path row.localPrefix row.plexPrefix _) ?_
  exact subset_foldl (N.subset_expandWebhook path row) _ _

/-- **A row's answer is among its spellings.** -/
theorem mem_expandRow {path l : Path} {row : MappingRow} (h : N.canonicalOf (fwd (strip path)) row = some l)
    (candidates : List Path) : l ∈ N.expandRow (fwd (strip path)) candidates row := by
  obtain ⟨prefix', hmem, hmatch, rfl⟩ := N.exists_of_canonicalOf h
  have hadd := N.mem_addMappedCandidate row.local_ne_nil hmatch
  obtain rfl | hwp := List.mem_cons.1 hmem
  · exact subset_foldl (N.subset_expandWebhook _ row) _ _ (N.subset_addMappedCandidate _ _ _ _ (hadd candidates))
  · refine mem_foldl (N.subset_expandWebhook _ row) hwp (fun candidates => ?_) _
    refine N.subset_addMappedCandidate _ row.plexPrefix prefix' _ ?_
    refine N.subset_addMappedCandidate _ row.localPrefix prefix' _ ?_
    exact N.subset_addMappedCandidate _ prefix' row.plexPrefix _ (hadd candidates)

/-- **The canonical path is one of the spellings.** -/
theorem pathToCanonicalLocal_mem {path : Path} {rows : List MappingRow} (hrows : rows ≠ []) (hpath : ¬ Blank path) :
    N.pathToCanonicalLocal path rows ∈ N.expandPathMappingCandidates path rows := by
  have hfwd : fwd (strip path) ≠ [] := fun hnil => hpath (List.map_eq_nil_iff.1 hnil)
  have hne : ¬ (path = [] ∨ rows = []) := by
    rintro (rfl | hnil)
    · exact hpath rfl
    · exact hrows hnil
  rw [pathToCanonicalLocal, if_neg hne, expandPathMappingCandidates, if_neg hfwd]
  cases hfound : rows.findSome? (N.canonicalOf (fwd (strip path))) with
  | none => exact subset_foldl (N.subset_expandRow _) rows _ List.mem_cons_self
  | some l =>
    obtain ⟨row, hrow, hl⟩ := List.exists_of_findSome?_eq_some hfound
    exact mem_foldl (N.subset_expandRow _) hrow (N.mem_expandRow hl) _

/-- Where no prefix of any row covers the path, it has one spelling. -/
theorem expandPathMappingCandidates_of_none {path : Path} {rows : List MappingRow} (hpath : ¬ Blank path)
    (h : ∀ r ∈ rows, ¬ N.Answers r path ∧ ¬ N.PathMatchesPrefix path r.localPrefix) :
    N.expandPathMappingCandidates path rows = [fwd (strip path)] := by
  have hfwd : fwd (strip path) ≠ [] := fun hnil => hpath (List.map_eq_nil_iff.1 hnil)
  have hrow : ∀ r ∈ rows, ∀ candidates, N.expandRow (fwd (strip path)) candidates r = candidates := by
    intro r hr candidates
    obtain ⟨hanswers, hlocal⟩ := h r hr
    have hplex : ¬ N.PathMatchesPrefix path r.plexPrefix := fun hmatch => hanswers (.inl hmatch)
    have hwebhook : ∀ wp ∈ r.webhookPrefixes, N.expandWebhook (fwd (strip path)) r candidates wp = candidates := by
      intro wp hwp
      have hmatch : ¬ N.PathMatchesPrefix path wp := fun hmatch => hanswers (.inr ⟨wp, hwp, hmatch⟩)
      rw [expandWebhook, N.addMappedCandidate_of_not hmatch, N.addMappedCandidate_of_not hmatch,
        N.addMappedCandidate_of_not hlocal, N.addMappedCandidate_of_not hplex]
    rw [expandRow, N.addMappedCandidate_of_not hplex, N.addMappedCandidate_of_not hlocal]
    exact foldl_of_fixed hwebhook
  rw [expandPathMappingCandidates, if_neg hfwd]
  exact foldl_of_fixed fun r hr => hrow r hr _

/-! ### The two together -/

theorem mapped_mem_applyPathMappings {path : Path} {rows : List MappingRow} {row : MappingRow} (hrow : row ∈ rows)
    (h : N.Covers row.plexPrefix path) : mapped row.mapping path ∈ N.applyPathMappings path (rows.map MappingRow.mapping) :=
  N.mem_applyPathMappings.2 (.inl ⟨row.mapping, List.mem_map_of_mem hrow, ⟨row.plex_ne_nil, row.local_ne_nil, h⟩, rfl⟩)

theorem applyPathMappings_of_none {path : Path} {rows : List MappingRow} (h : ∀ r ∈ rows, ¬ N.Covers r.plexPrefix path) :
    N.applyPathMappings path (rows.map MappingRow.mapping) = [path] := by
  have hnone : (rows.map MappingRow.mapping).filterMap (N.candidate path) = [] := by
    rw [List.filterMap_eq_nil_iff]
    intro m hm
    obtain ⟨row, hrow, rfl⟩ := List.mem_map.1 hm
    rw [Option.eq_none_iff_forall_ne_some]
    intro c hc
    exact h row hrow (N.matches_of_candidate hc).2.2
  rw [applyPathMappings, pathMappingCandidates, hnone]
  rfl

/-- **The translators agree.** Where the first row that answers does so by its server prefix, and the path spells that
prefix in as many characters, the canonical path leads to the same place as one of the mapped paths; the canonical path
is one of the spellings; and where no prefix of a kind that a translator reads covers the path, it returns the path. -/
theorem translators_agree (path : Path) (rows : List MappingRow) :
    (∀ before row after, rows = before ++ row :: after → (∀ r ∈ before, ¬ N.Answers r path) →
      N.PathMatchesPrefix path row.plexPrefix → N.InPlace (strip path) row.plexPrefix →
      ∃ l ∈ N.applyPathMappings (strip path) (rows.map MappingRow.mapping),
        N.place (N.pathToCanonicalLocal path rows) = N.place l) ∧
    (rows ≠ [] → ¬ Blank path → N.pathToCanonicalLocal path rows ∈ N.expandPathMappingCandidates path rows) ∧
    ((∀ r ∈ rows, ¬ N.Covers r.plexPrefix (strip path)) →
      N.applyPathMappings (strip path) (rows.map MappingRow.mapping) = [strip path] ∧
      ((∀ r ∈ rows, ∀ wp ∈ r.webhookPrefixes, ¬ N.Covers wp (strip path)) →
        fwd (strip (N.pathToCanonicalLocal path rows)) = fwd (strip path) ∧
        ((∀ r ∈ rows, ¬ N.Covers r.localPrefix (strip path)) → ¬ Blank path →
          N.expandPathMappingCandidates path rows = [fwd (strip path)]))) := by
  refine ⟨?_, N.pathToCanonicalLocal_mem, fun hplex => ⟨N.applyPathMappings_of_none hplex, fun hwebhook => ?_⟩⟩
  · rintro before row after rfl hbefore hmatch hplace
    refine ⟨_, N.mapped_mem_applyPathMappings (List.mem_append_right _ List.mem_cons_self)
      (N.covers_of_pathMatchesPrefix hmatch), ?_⟩
    rw [N.pathToCanonicalLocal_of_first hbefore hmatch]
    exact N.place_respelled hplace
  · have hanswers : ∀ r ∈ rows, ¬ N.Answers r path := by
      rintro r hr (hmatch | ⟨wp, hwp, hmatch⟩)
      · exact hplex r hr (N.covers_of_pathMatchesPrefix hmatch)
      · exact hwebhook r hr wp hwp (N.covers_of_pathMatchesPrefix hmatch)
    refine ⟨N.pathToCanonicalLocal_of_none hanswers, fun hlocal hpath => ?_⟩
    exact N.expandPathMappingCandidates_of_none hpath fun r hr =>
      ⟨hanswers r hr, fun hmatch => hlocal r hr (N.covers_of_pathMatchesPrefix hmatch)⟩

end Nfc

/-- A row whose webhooks name its folder below the server prefix of the next. -/
def hookRows : List MappingRow :=
  normalizePathMappings
    [⟨⟨"/tv".toList, [], "/disk1/tv".toList⟩, ["/data/tv".toList]⟩, ⟨⟨"/data".toList, [], "/disk2".toList⟩, []⟩] [] []

theorem hookRows_ne_nil : hookRows ≠ [] := by decide +kernel

/-- A path behind the first row's server prefix, and one that no prefix covers. -/
theorem translators_agree_hookRows :
    ((∃ l ∈ Nfc.ascii.applyPathMappings (strip "/tv/x.mkv".toList) (hookRows.map MappingRow.mapping),
        Nfc.ascii.place (Nfc.ascii.pathToCanonicalLocal "/tv/x.mkv".toList hookRows) = Nfc.ascii.place l) ∧
      Nfc.ascii.pathToCanonicalLocal "/tv/x.mkv".toList hookRows ∈
        Nfc.ascii.expandPathMappingCandidates "/tv/x.mkv".toList hookRows) ∧
    (Nfc.ascii.applyPathMappings (strip "/x.mkv".toList) (hookRows.map MappingRow.mapping) = [strip "/x.mkv".toList] ∧
      fwd (strip (Nfc.ascii.pathToCanonicalLocal "/x.mkv".toList hookRows)) = fwd (strip "/x.mkv".toList) ∧
      Nfc.ascii.expandPathMappingCandidates "/x.mkv".toList hookRows = [fwd (strip "/x.mkv".toList)]) := by
  obtain ⟨hmatch, hplace, hblank⟩ : Nfc.ascii.PathMatchesPrefix "/tv/x.mkv".toList (hookRows.head hookRows_ne_nil).plexPrefix ∧
      Nfc.ascii.InPlace (strip "/tv/x.mkv".toList) (hookRows.head hookRows_ne_nil).plexPrefix ∧ ¬ Blank "/tv/x.mkv".toList := by
    decide +kernel
  obtain ⟨hplex, hwebhook, hlocal, hpath⟩ : (∀ r ∈ hookRows, ¬ Nfc.ascii.Covers r.plexPrefix (strip "/x.mkv".toList)) ∧
      (∀ r ∈ hookRows, ∀ wp ∈ r.webhookPrefixes, ¬ Nfc.ascii.Covers wp (strip "/x.mkv".toList)) ∧
      (∀ r ∈ hookRows, ¬ Nfc.ascii.Covers r.localPrefix (strip "/x.mkv".toList)) ∧ ¬ Blank "/x.mkv".toList := by
    decide +kernel
  obtain ⟨hfirst, hmem, -⟩ := Nfc.ascii.translators_agree "/tv/x.mkv".toList hookRows
  obtain ⟨-, -, hnone⟩ := Nfc.ascii.translators_agree "/x.mkv".toList hookRows
  refine ⟨⟨?_, hmem hookRows_ne_nil hblank⟩, (hnone hplex).1, ((hnone hplex).2 hwebhook).1, ((hnone hplex).2 hwebhook).2 hlocal hpath⟩
  exact hfirst [] _ _ (List.cons_head_tail hookRows_ne_nil).symm (fun _ hr => absurd hr List.not_mem_nil) hmatch hplace

/-- **Not always.** The webhook prefix of an earlier row comes before the server prefix of a later one; and a path that
only a local prefix covers has the other prefixes' spellings too. -/
theorem translators_disagree :
    ((∃ r ∈ hookRows, Nfc.ascii.PathMatchesPrefix "/data/tv/x.mkv".toList r.plexPrefix) ∧
      ∀ l ∈ Nfc.ascii.applyPathMappings "/data/tv/x.mkv".toList (hookRows.map MappingRow.mapping),
        Nfc.ascii.place (Nfc.ascii.pathToCanonicalLocal "/data/tv/x.mkv".toList hookRows) ≠ Nfc.ascii.place l) ∧
    ((∀ r ∈ hookRows, ¬ Nfc.ascii.Covers r.plexPrefix "/disk1/tv/x.mkv".toList) ∧
      Nfc.ascii.expandPathMappingCandidates "/disk1/tv/x.mkv".toList hookRows ≠ ["/disk1/tv/x.mkv".toList]) := by
  refine ⟨⟨?_, ?_⟩, ?_, ?_⟩
  all_goals decide +kernel

end MediaPreview.Servers
