import MediaPreview.Lib.Separators

/-!
# Path mappings

A media server names a file by the path it sees it under, which is rarely the path this
application reads it at. Each server's `path_mappings` pair a prefix of the one with a
prefix of the other; `applyPathMappings` reads a server's path here, and
`applyInversePathMappings` reads a path of ours there.

Prefixes are compared folder by folder, with forward slashes and in one Unicode normal
form (`normalize`), while the replacement is spliced into the text as it was given, by the
length of the prefix (`swapPrefix`). `InPlace` says when the two agree: the characters the
splice cuts off are, up to the normal form, the prefix.
-/

namespace MediaPreview.Servers

open Separators

/-- A path, character by character. -/
abbrev Path := List Char

/-- `path.replace("\\", "/")`. -/
def fwd (path : Path) : Path := path.map fun c => if c = '\\' then '/' else c

@[simp] theorem fwd_append (a b : Path) : fwd (a ++ b) = fwd a ++ fwd b := List.map_append

@[simp] theorem fwd_slash : (fwd ['/']) = ['/'] := rfl

@[simp] theorem fwd_replicate (k : ℕ) : fwd (List.replicate k '/') = List.replicate k '/' := by
  simp [fwd]

@[simp] theorem fwd_fwd (path : Path) : fwd (fwd path) = fwd path := by
  simp only [fwd, List.map_map]
  refine List.map_congr_left fun c _ => ?_
  by_cases hc : c = '\\' <;> simp [hc]

/-- What is cut off a forward-slashed path is forward-slashed. -/
theorem fwd_of_append {a b path : Path} (h : fwd path = a ++ b) : fwd a = a ∧ fwd b = b := by
  have hab : fwd a ++ fwd b = a ++ b := by rw [← fwd_append, ← h, fwd_fwd]
  exact List.append_inj hab (by simp [fwd])

/-- `unicodedata.normalize("NFC", …)`: it treats the segments of a path one by one, and the backslash is
no part of any composition either. -/
structure Nfc extends SegmentMap '/' where
  fwd_map : ∀ s, fwd (map s) = map (fwd s)

/-- A mapping of a server's `path_mappings`. A prefix that is missing is empty. -/
structure PathMapping where
  /-- `remote_prefix`. -/
  remotePrefix : Path
  /-- `plex_prefix`, the older name of `remote_prefix`. -/
  plexPrefix : Path
  /-- `local_prefix`. -/
  localPrefix : Path
  deriving DecidableEq

/-- `entry.get("remote_prefix") or entry.get("plex_prefix") or ""`. -/
def PathMapping.remote (m : PathMapping) : Path := if m.remotePrefix = [] then m.plexPrefix else m.remotePrefix

/-- The path, without the slashes at its end, ends in a backslash. -/
def EndsInBackslash (path : Path) : Prop := (rstrip '/' path).getLast? = some '\\'

instance (path : Path) : Decidable (EndsInBackslash path) := inferInstanceAs (Decidable (_ = _))

theorem rstrip_fwd_of_plain {path : Path} (h : ¬ EndsInBackslash path) :
    rstrip '/' (fwd path) = fwd (rstrip '/' path) := by
  obtain ⟨k, hk⟩ := rstrip_append_run '/' path
  have hstrip : rstrip '/' (fwd path) = rstrip '/' (fwd (rstrip '/' path)) := by
    conv_lhs => rw [hk]
    rw [fwd_append, fwd_replicate, rstrip_append_replicate]
  have hself : rstrip '/' (rstrip '/' path) = rstrip '/' path := rstrip_rstrip path
  unfold EndsInBackslash at h
  rw [hstrip]
  clear hstrip hk
  induction hs : rstrip '/' path using List.reverseRecOn with
  | nil => rfl
  | append_singleton s x _ =>
    rw [hs] at h hself
    have hx : x ≠ '/' := by
      rintro rfl
      rw [rstrip_concat, if_pos rfl] at hself
      have hle := (List.rdropWhile_prefix (p := (· = '/')) s).length_le
      have hlen := congrArg List.length hself
      simp only [rstrip, List.length_append, List.length_singleton] at hlen
      omega
    have hb : x ≠ '\\' := by simpa using h
    have hfwd : fwd [x] = [x] := by simp [fwd, hb]
    rw [fwd_append, hfwd, rstrip_concat, if_neg hx]

/-! ### Windows paths -/

/-- The characters `str.strip` takes off. -/
def isSpace (c : Char) : Bool :=
  (9 ≤ c.toNat ∧ c.toNat ≤ 13) ∨ (28 ≤ c.toNat ∧ c.toNat ≤ 32) ∨ c.toNat = 133 ∨ c.toNat = 160 ∨
    c.toNat = 5760 ∨ (8192 ≤ c.toNat ∧ c.toNat ≤ 8202) ∨ c.toNat = 8232 ∨ c.toNat = 8233 ∨ c.toNat = 8239 ∨
    c.toNat = 8287 ∨ c.toNat = 12288

/-- `path.strip()`. -/
def strip (path : Path) : Path := (path.dropWhile isSpace).rdropWhile isSpace

/-- A path that `strip` leaves nothing of. -/
def Blank (path : Path) : Prop := strip path = []

instance (path : Path) : Decidable (Blank path) := inferInstanceAs (Decidable (_ = _))

/-- `_WINDOWS_PATH_RE`: a drive letter with a colon, or the two backslashes of a network share. -/
def isWindowsPath : Path → Bool
  | '\\' :: '\\' :: c :: _ => c ≠ '\\' ∧ c ≠ '/'
  | c :: ':' :: rest => c.isAlpha ∧ (rest = [] ∨ rest.head? = some '\\' ∨ rest.head? = some '/')
  | _ => false

/-- `path.replace("/", "\\")`. -/
def backslashed (path : Path) : Path := path.map fun c => if c = '/' then '\\' else c

/-- `windows_native_path`: the path as a server on Windows stores it, when the prefix it was built from is a
Windows path. Doubled separators are written once, but for the two a network share starts with. -/
def windowsNativePath (mappingPrefix path : Path) : Option Path :=
  if isWindowsPath (strip mappingPrefix) then
    if ['\\', '\\'] <+: backslashed path then
      some ('\\' :: '\\' :: collapse '\\' ((backslashed path).drop 2))
    else some (collapse '\\' (backslashed path))
  else none

theorem not_isWindowsPath_of_slashes {path : Path} (h : ∀ c ∈ path, c = '/' ∨ c = '\\') :
    isWindowsPath path = false := by
  unfold isWindowsPath
  split
  · rename_i c s
    obtain rfl | rfl := h c (by simp) <;> rfl
  · rename_i c s _
    have := h ':' (by simp)
    simp at this
  · rfl

theorem rstrip_fwd_ne_nil_of_windows {path : Path} (h : isWindowsPath (strip path)) : rstrip '/' (fwd path) ≠ [] := by
  intro hnil
  rw [rstrip, List.rdropWhile_eq_nil_iff] at hnil
  have hslash : ∀ c ∈ strip path, c = '/' ∨ c = '\\' := by
    intro c hc
    have hmem : c ∈ path :=
      (List.dropWhile_sublist _).mem ((List.rdropWhile_prefix _ _).sublist.mem hc)
    have := hnil _ (List.mem_map_of_mem hmem)
    by_cases hb : c = '\\'
    · exact Or.inr hb
    · exact Or.inl (by simpa [hb] using this)
  rw [not_isWindowsPath_of_slashes hslash] at h
  cases h

theorem fwd_backslashed (path : Path) : fwd (backslashed path) = fwd path := by
  simp only [fwd, backslashed, List.map_map]
  refine List.map_congr_left fun c _ => ?_
  by_cases hc : c = '/' <;> simp [hc]

theorem slash_notMem_backslashed (path : Path) : '/' ∉ backslashed path := by
  simp only [backslashed, List.mem_map, not_exists, not_and]
  intro c _
  split
  · decide
  · rename_i hc
    exact hc

theorem fwd_collapse {s : Path} (h : '/' ∉ s) : fwd (collapse '\\' s) = collapse '/' (fwd s) := by
  induction s with
  | nil => rfl
  | cons x s ih =>
    rw [List.mem_cons, not_or] at h
    have hx : x ≠ '/' := Ne.symm h.1
    have hhead : (fwd s).head? = some '/' ↔ s.head? = some '\\' := by
      cases s with
      | nil => simp [fwd]
      | cons y s =>
        have hy : y ≠ '/' := fun he => h.2 (by simp [he])
        by_cases hb : y = '\\' <;> simp [fwd, hb, hy]
    have hcons : fwd (x :: s) = (if x = '\\' then '/' else x) :: fwd s := rfl
    rw [hcons, collapse, collapse]
    by_cases hb : x = '\\'
    · by_cases hs : s.head? = some '\\'
      · rw [if_pos ⟨hb, hs⟩, if_pos ⟨if_pos hb, hhead.2 hs⟩, ih h.2]
      · rw [if_neg fun hc => hs hc.2, if_neg fun hc => hs (hhead.1 hc.2), ← ih h.2]
        rfl
    · rw [if_neg fun hc => hb hc.1, if_neg (by simp [hb, hx]), ← ih h.2]
      rfl

/-- Each run of slashes written once, but for the two a network share starts with. -/
def singleSlashes (path : Path) : Path :=
  if ['/', '/'] <+: path then '/' :: '/' :: collapse '/' (path.drop 2) else collapse '/' path

theorem fwd_windowsNativePath {mappingPrefix path form : Path}
    (h : windowsNativePath mappingPrefix path = some form) : fwd form = singleSlashes (fwd path) := by
  have hns := slash_notMem_backslashed path
  have hshare : ∀ s : Path, '/' ∉ s → (['\\', '\\'] <+: s ↔ ['/', '/'] <+: fwd s) := by
    intro s hs
    rcases s with _ | ⟨x, _ | ⟨y, s⟩⟩
    · simp [fwd]
    · simp [fwd]
    · have hx : x ≠ '/' := fun he => hs (by simp [he])
      have hy : y ≠ '/' := fun he => hs (by simp [he])
      have hslash : ∀ z : Char, z ≠ '/' → ('\\' = z ↔ '/' = if z = '\\' then '/' else z) := by
        intro z hz
        by_cases hbz : z = '\\'
        · simp [hbz]
        · simp [hbz, Ne.symm hz, Ne.symm hbz]
      simp only [fwd, List.map_cons, List.cons_prefix_cons, List.nil_prefix, and_true, ← hslash x hx, ← hslash y hy]
  unfold windowsNativePath at h
  split at h
  · unfold singleSlashes
    rw [← fwd_backslashed path]
    split at h
    · rename_i hshares
      cases h
      rw [if_pos ((hshare _ hns).1 hshares)]
      have hdrop : '/' ∉ (backslashed path).drop 2 := fun hmem => hns (List.mem_of_mem_drop hmem)
      have hcons : fwd ('\\' :: '\\' :: collapse '\\' ((backslashed path).drop 2)) =
          '/' :: '/' :: fwd (collapse '\\' ((backslashed path).drop 2)) := rfl
      rw [hcons, fwd_collapse hdrop, fwd, List.map_drop]
      rfl
    · rename_i hshares
      cases h
      rw [if_neg fun hp => hshares ((hshare _ hns).2 hp), fwd_collapse hns]
  · cases h

/-- **Written once, the run of slashes where two parts of a path join is one slash**, and nothing else changes
in a path that doubles no other. -/
theorem singleSlashes_join {a b : Path} (k : ℕ) (ha : a ≠ []) (hstrip : rstrip '/' a = a)
    (hsingle : Single '/' (a ++ '/' :: b).tail) :
    singleSlashes (a ++ (List.replicate k '/' ++ '/' :: b)) = a ++ '/' :: b := by
  have hwhole : ¬ ['/', '/'] <+: a ++ '/' :: b →
      collapse '/' (a ++ (List.replicate k '/' ++ '/' :: b)) = a ++ '/' :: b := by
    intro hshare
    rw [← List.append_assoc, collapse_append_run]
    apply collapse_of_single
    cases a with
    | nil => exact absurd rfl ha
    | cons x a =>
      refine single_cons.2 ⟨?_, hsingle⟩
      rintro ⟨rfl, hhead⟩
      obtain ⟨s, hs⟩ : ∃ s, a ++ '/' :: b = '/' :: s := List.head?_eq_some_iff.1 hhead
      exact hshare ⟨s, (congrArg (List.cons '/') hs).symm⟩
  unfold singleSlashes
  rcases a with _ | ⟨x, _ | ⟨y, a⟩⟩
  · exact absurd rfl ha
  · have hx : '/' ≠ x := by
      rintro rfl
      simp [rstrip] at hstrip
    rw [if_neg (by simp [hx]), hwhole (by simp [hx])]
  · by_cases hshare : x = '/' ∧ y = '/'
    · obtain ⟨rfl, rfl⟩ := hshare
      rw [if_pos (by simp)]
      have hdrop : ('/' :: '/' :: a ++ (List.replicate k '/' ++ '/' :: b)).drop 2 =
          a ++ List.replicate k '/' ++ '/' :: b := by simp
      have hrest : Single '/' (a ++ '/' :: b) := (single_cons.1 hsingle).2
      rw [hdrop, collapse_append_run, collapse_of_single hrest]
      rfl
    · have hno : ∀ s : Path, ¬ ['/', '/'] <+: x :: y :: s := by
        intro s hp
        simp only [List.cons_prefix_cons, List.nil_prefix, and_true] at hp
        exact hshare ⟨hp.1.symm, hp.2.symm⟩
      exact (if_neg (hno _)).trans (hwhole (hno _))

/-! ### The two directions -/

/-- `posixpath.dirname`: everything before the last slash. The slashes it ends with go too, unless it is
nothing else. -/
def dirname (path : Path) : Path :=
  let head := path.rdropWhile (· ≠ '/')
  if rstrip '/' head = [] then head else rstrip '/' head

/-- `posixpath.basename`: everything after the last slash. -/
def basename (path : Path) : Path := path.rtakeWhile (· ≠ '/')

namespace Nfc

variable (N : Nfc)

/-- `_normalize`: forward slashes, one normal form, and one slash at the end, so that a prefix of it is bounded
by a folder. -/
def normalize (path : Path) : Path := N.map (rstrip '/' (fwd path)) ++ ['/']

/-- What `swapPrefix` keeps of a path: all but as many characters as the prefix has. -/
def kept (path from' : Path) : Path := (fwd path).drop (rstrip '/' (fwd from')).length

/-- `_swap_prefix`, of the path with forward slashes. -/
def swapPrefix (path from' to' : Path) : Option Path :=
  if N.normalize from' <+: N.normalize (fwd path) then some (rstrip '/' to' ++ kept path from') else none

/-- One mapping of `path_mapping_candidates`: where it puts the path, with the local prefix it came from. -/
def candidate (path : Path) (m : PathMapping) : Option (Path × Option Path) :=
  if m.remote = [] ∨ m.localPrefix = [] then none
  else (N.swapPrefix path m.remote m.localPrefix).map fun swapped =>
    (swapped, some (if rstrip '/' m.localPrefix = [] then ['/'] else rstrip '/' m.localPrefix))

/-- `path_mapping_candidates`: the path itself when no mapping matches. -/
def pathMappingCandidates (path : Path) (mappings : List PathMapping) : List (Path × Option Path) :=
  let candidates := mappings.filterMap (N.candidate path)
  if candidates = [] then [(path, none)] else candidates

/-- `apply_path_mappings`. -/
def applyPathMappings (path : Path) (mappings : List PathMapping) : List Path :=
  (N.pathMappingCandidates path mappings).map Prod.fst

/-- `if form and form not in candidates: candidates.append(form)`. -/
def addForm (candidates : List Path) (form : Option Path) : List Path :=
  match form with
  | some form => if form ≠ [] ∧ form ∉ candidates then candidates ++ [form] else candidates
  | none => candidates

/-- One mapping of `apply_inverse_path_mappings`: the Windows form first, when the server has one. -/
def addMapping (path : Path) (candidates : List Path) (m : PathMapping) : List Path :=
  if m.remote = [] ∨ m.localPrefix = [] then candidates
  else
    match N.swapPrefix path m.localPrefix m.remote with
    | some swapped => addForm (addForm candidates (windowsNativePath m.remote swapped)) (some swapped)
    | none => candidates

/-- `apply_inverse_path_mappings`. -/
def applyInversePathMappings (path : Path) (mappings : List PathMapping) : List Path :=
  let candidates := mappings.foldl (N.addMapping path) []
  if candidates = [] then [path] else candidates

/-- The mapping has both its prefixes and the path lies under the remote one. -/
def Matches (m : PathMapping) (path : Path) : Prop :=
  m.remote ≠ [] ∧ m.localPrefix ≠ [] ∧ N.normalize m.remote <+: N.normalize path

instance (m : PathMapping) (path : Path) : Decidable (N.Matches m path) :=
  inferInstanceAs (Decidable (_ ∧ _ ∧ _))

/-- Where a mapping puts a path: its local prefix without the slashes at its end, and what is kept of the path. -/
def mapped (m : PathMapping) (path : Path) : Path := rstrip '/' m.localPrefix ++ kept path m.remote

/-- The prefix is spelled in the path with as many characters as it has: what the splice cuts off is the prefix,
up to the normal form, and a whole number of folders. -/
def InPlace (path from' : Path) : Prop :=
  N.map ((fwd path).take (rstrip '/' (fwd from')).length) = N.map (rstrip '/' (fwd from')) ∧
    Cut '/' (kept path from')

/-- The joins of a mapping show no doubled slash: neither prefix ends in a backslash, or the server is on
Windows, where they are written once, and the path doubles no other but a network share's two. -/
def Reversible (m : PathMapping) (path : Path) : Prop :=
  (¬ EndsInBackslash m.remote ∧ ¬ EndsInBackslash m.localPrefix) ∨
    (isWindowsPath (strip m.remote) ∧ kept path m.remote ≠ [] ∧
      Single '/' (rstrip '/' (fwd m.remote) ++ kept path m.remote).tail)

instance (m : PathMapping) (path : Path) : Decidable (Reversible m path) := inferInstanceAs (Decidable (_ ∨ _))

instance (path from' : Path) : Decidable (N.InPlace path from') := inferInstanceAs (Decidable (_ ∧ _))

/-! ### Candidates -/

theorem normalize_fwd (path : Path) : N.normalize (fwd path) = N.normalize path := by
  rw [normalize, fwd_fwd, normalize]

theorem candidate_of_matches {path : Path} {m : PathMapping} (h : N.Matches m path) :
    (N.candidate path m).map Prod.fst = some (mapped m path) := by
  obtain ⟨hr, hl, hp⟩ := h
  rw [candidate, if_neg (by simp [hr, hl]), swapPrefix, normalize_fwd, if_pos hp]
  rfl

theorem matches_of_candidate {path : Path} {m : PathMapping} {c : Path × Option Path}
    (h : N.candidate path m = some c) : N.Matches m path := by
  unfold candidate at h
  split at h
  · cases h
  · rename_i hm
    rw [not_or] at hm
    obtain ⟨swapped, hs, -⟩ := Option.map_eq_some_iff.1 h
    rw [swapPrefix, normalize_fwd] at hs
    split at hs
    · exact ⟨hm.1, hm.2, ‹_›⟩
    · cases hs

/-- **A candidate is where a matching mapping puts the path**, or the path itself when none matches. -/
theorem mem_applyPathMappings {path l : Path} {mappings : List PathMapping} :
    l ∈ N.applyPathMappings path mappings ↔
      (∃ m ∈ mappings, N.Matches m path ∧ l = mapped m path) ∨
        (∀ m ∈ mappings, ¬ N.Matches m path) ∧ l = path := by
  have hmem : l ∈ (mappings.filterMap (N.candidate path)).map Prod.fst ↔
      ∃ m ∈ mappings, N.Matches m path ∧ l = mapped m path := by
    simp only [List.mem_map, List.mem_filterMap]
    constructor
    · rintro ⟨c, ⟨m, hm, hc⟩, rfl⟩
      have hmatch := N.matches_of_candidate hc
      have hfst := N.candidate_of_matches hmatch
      rw [hc] at hfst
      exact ⟨m, hm, hmatch, Option.some.inj hfst⟩
    · rintro ⟨m, hm, hmatch, rfl⟩
      obtain ⟨c, hc, hfst⟩ := Option.map_eq_some_iff.1 (N.candidate_of_matches hmatch)
      exact ⟨c, ⟨m, hm, hc⟩, hfst⟩
  unfold applyPathMappings pathMappingCandidates
  dsimp only
  by_cases hnone : mappings.filterMap (N.candidate path) = []
  · have hno : ∀ m ∈ mappings, ¬ N.Matches m path := by
      intro m hm hmatch
      obtain ⟨c, hc, -⟩ := Option.map_eq_some_iff.1 (N.candidate_of_matches hmatch)
      rw [List.filterMap_eq_nil_iff.1 hnone m hm] at hc
      cases hc
    rw [if_pos hnone]
    constructor
    · intro hl
      exact Or.inr ⟨hno, by simpa using hl⟩
    · rintro (⟨m, hm, hmatch, -⟩ | ⟨-, rfl⟩)
      · exact absurd hmatch (hno m hm)
      · simp
  · rw [if_neg hnone, hmem]
    constructor
    · exact Or.inl
    · rintro (h | ⟨hno, -⟩)
      · exact h
      · refine absurd (List.filterMap_eq_nil_iff.2 fun m hm => ?_) hnone
        cases hc : N.candidate path m with
        | none => rfl
        | some c => exact absurd (N.matches_of_candidate hc) (hno m hm)

theorem subset_addForm (candidates : List Path) (form : Option Path) : candidates ⊆ addForm candidates form := by
  intro x hx
  unfold addForm
  cases form with
  | none => exact hx
  | some form =>
    dsimp only
    split
    · exact List.mem_append_left _ hx
    · exact hx

theorem mem_addForm (candidates : List Path) {form : Path} (h : form ≠ []) :
    form ∈ addForm candidates (some form) := by
  unfold addForm
  dsimp only
  split
  · simp
  · rename_i hno
    by_contra hx
    exact hno ⟨h, hx⟩

theorem subset_addMapping (path : Path) (candidates : List Path) (m : PathMapping) :
    candidates ⊆ N.addMapping path candidates m := by
  unfold addMapping
  split
  · exact List.Subset.refl _
  · split
    · exact List.Subset.trans (subset_addForm _ _) (subset_addForm _ _)
    · exact List.Subset.refl _

/-- **Every form of every matching mapping is a candidate**, the Windows one and the plain one. -/
theorem mem_applyInversePathMappings {path swapped form : Path} {mappings : List PathMapping} {m : PathMapping}
    (hm : m ∈ mappings) (hr : m.remote ≠ []) (hl : m.localPrefix ≠ [])
    (hs : N.swapPrefix path m.localPrefix m.remote = some swapped)
    (hf : windowsNativePath m.remote swapped = some form ∨ form = swapped) (hne : form ≠ []) :
    form ∈ N.applyInversePathMappings path mappings := by
  have hstep : ∀ candidates, form ∈ N.addMapping path candidates m := by
    intro candidates
    rw [addMapping, if_neg (by simp [hr, hl]), hs]
    dsimp only
    rcases hf with hf | rfl
    · rw [hf]
      exact subset_addForm _ _ (mem_addForm _ hne)
    · exact mem_addForm _ hne
  have hkeep : ∀ (ms : List PathMapping) (candidates : List Path), form ∈ candidates →
      form ∈ ms.foldl (N.addMapping path) candidates := by
    intro ms
    induction ms with
    | nil => exact fun _ h => h
    | cons m' ms ih => exact fun candidates h => ih _ (N.subset_addMapping path candidates m' h)
  have hmem : form ∈ mappings.foldl (N.addMapping path) [] := by
    obtain ⟨before, after, rfl⟩ := List.append_of_mem hm
    rw [List.foldl_append, List.foldl_cons]
    exact hkeep after _ (hstep _)
  unfold applyInversePathMappings
  dsimp only
  rw [if_neg (List.ne_nil_of_mem hmem)]
  exact hmem

/-! ### Splices in place -/

/-- **In place, a path is the prefix and what is kept of it**, up to the normal form. -/
theorem InPlace.map_fwd {path from' : Path} (h : N.InPlace path from') :
    N.map (fwd path) = N.map (rstrip '/' (fwd from')) ++ N.map (kept path from') := by
  have hsplit : fwd path = (fwd path).take (rstrip '/' (fwd from')).length ++ kept path from' :=
    (List.take_append_drop _ _).symm
  conv_lhs => rw [hsplit]
  rw [N.map_append _ h.2, h.1]

/-- … and the same without the slashes at its end. -/
theorem InPlace.map_rstrip_fwd {path from' : Path} (h : N.InPlace path from') :
    N.map (rstrip '/' (fwd path)) = N.map (rstrip '/' (fwd from')) ++ N.map (rstrip '/' (kept path from')) := by
  have hsplit : fwd path = (fwd path).take (rstrip '/' (fwd from')).length ++ kept path from' :=
    (List.take_append_drop _ _).symm
  conv_lhs => rw [hsplit]
  rw [N.map_rstrip_append _ h.2, h.1]
  rw [h.1, ← N.map_rstrip, rstrip_rstrip]

theorem fwd_kept (path from' : Path) : fwd (kept path from') = kept path from' :=
  (fwd_of_append (List.take_append_drop (rstrip '/' (fwd from')).length (fwd path)).symm).2

/-! ### There and back -/

/-- **What a mapping put somewhere, it finds there again**: the inverse puts the remote prefix before the part
of the path it kept, with one more slash for each backslash the local prefix ends with. -/
theorem swapPrefix_mapped {path : Path} {m : PathMapping} (h : N.InPlace path m.remote) :
    ∃ j, N.swapPrefix (mapped m path) m.localPrefix m.remote =
        some (rstrip '/' m.remote ++ (List.replicate j '/' ++ kept path m.remote)) ∧
      (¬ EndsInBackslash m.localPrefix → j = 0) := by
  obtain ⟨k, hk⟩ := rstrip_append_run '/' m.localPrefix
  obtain ⟨j, hj⟩ := rstrip_append_run '/' (fwd (rstrip '/' m.localPrefix))
  have hstrip : rstrip '/' (fwd m.localPrefix) = rstrip '/' (fwd (rstrip '/' m.localPrefix)) := by
    conv_lhs => rw [hk]
    rw [fwd_append, fwd_replicate, rstrip_append_replicate]
  have hfwd : fwd (mapped m path) =
      rstrip '/' (fwd m.localPrefix) ++ (List.replicate j '/' ++ kept path m.remote) := by
    rw [mapped, fwd_append, fwd_kept, hj, hstrip, List.append_assoc]
  have hcut : Cut '/' (List.replicate j '/' ++ kept path m.remote) := (cut_replicate j).append h.2
  have hcovers : N.normalize m.localPrefix <+: N.normalize (fwd (mapped m path)) := by
    rw [normalize_fwd, normalize, normalize, hfwd, rstrip_append_of_rstrip (rstrip_rstrip _),
      N.map_append _ hcut.rstrip]
    exact prefix_of_cut _ [] (N.map_cut hcut.rstrip)
  refine ⟨j, ?_, ?_⟩
  · rw [swapPrefix, if_pos hcovers]
    congr 2
    rw [kept, hfwd, List.drop_left]
  · intro hplain
    have hlen := congrArg List.length hj
    rw [← hstrip, rstrip_fwd_of_plain hplain, List.length_append, List.length_replicate] at hlen
    omega

/-- **A mapped path maps back to the path**, up to the normal form and the slashes' direction. -/
theorem exists_inverse {path : Path} {mappings : List PathMapping} {m : PathMapping} (hmem : m ∈ mappings)
    (hmatch : N.Matches m path) (h : N.InPlace path m.remote) (hpath : path ≠ []) (hrev : Reversible m path) :
    ∃ c ∈ N.applyInversePathMappings (mapped m path) mappings, N.map (fwd c) = N.map (fwd path) := by
  obtain ⟨hr, hl, -⟩ := hmatch
  obtain ⟨j, hswap, hj⟩ := N.swapPrefix_mapped h
  have hne : ∀ c, N.map (fwd c) = N.map (fwd path) → c ≠ [] := by
    rintro c hc rfl
    have hnil : fwd path = [] := by rw [← N.eq_nil, ← hc, fwd, List.map_nil, SegmentMap.map_nil]
    exact hpath (List.map_eq_nil_iff.1 hnil)
  have hback : ∀ c, fwd c = rstrip '/' (fwd m.remote) ++ kept path m.remote → N.map (fwd c) = N.map (fwd path) := by
    intro c hc
    rw [hc, N.map_append _ h.2, h.map_fwd]
  obtain ⟨hplain, hplain'⟩ | ⟨hwin, hkept, hsingle⟩ := hrev
  · have hfwd := hback (rstrip '/' m.remote ++ (List.replicate j '/' ++ kept path m.remote)) (by
      rw [hj hplain', List.replicate_zero, List.nil_append, fwd_append, fwd_kept, rstrip_fwd_of_plain hplain])
    exact ⟨_, N.mem_applyInversePathMappings hmem hr hl hswap (Or.inr rfl) (hne _ hfwd), hfwd⟩
  · obtain ⟨form, hform⟩ : ∃ form, windowsNativePath m.remote
        (rstrip '/' m.remote ++ (List.replicate j '/' ++ kept path m.remote)) = some form := by
      unfold windowsNativePath
      rw [if_pos hwin]
      split <;> exact ⟨_, rfl⟩
    obtain ⟨b, hb⟩ : ∃ b, kept path m.remote = '/' :: b := (cut_iff.1 h.2).resolve_left hkept
    obtain ⟨k, hk⟩ := rstrip_append_run '/' m.remote
    obtain ⟨i, hi⟩ := rstrip_append_run '/' (fwd (rstrip '/' m.remote))
    have hstrip : rstrip '/' (fwd (rstrip '/' m.remote)) = rstrip '/' (fwd m.remote) := by
      conv_rhs => rw [hk]
      rw [fwd_append, fwd_replicate, rstrip_append_replicate]
    have hswapped : fwd (rstrip '/' m.remote ++ (List.replicate j '/' ++ kept path m.remote)) =
        rstrip '/' (fwd m.remote) ++ (List.replicate (i + j) '/' ++ '/' :: b) := by
      rw [fwd_append, hi, hstrip, fwd_append, fwd_kept, fwd_replicate, hb, List.replicate_add]
      simp only [List.append_assoc]
    have hfwd := hback form (by
      rw [fwd_windowsNativePath hform, hswapped, hb]
      rw [hb] at hsingle
      exact singleSlashes_join (i + j) (rstrip_fwd_ne_nil_of_windows hwin) (rstrip_rstrip _) hsingle)
    exact ⟨form, N.mem_applyInversePathMappings hmem hr hl hswap (Or.inl hform) (hne form hfwd), hfwd⟩

end Nfc

end MediaPreview.Servers
