import MediaPreview.Servers.Paths

/-!
# Which server a file belongs to

A server owns a file when one of its enabled libraries covers it. The libraries' roots are
the server's own paths, so each is first read here through the server's `path_mappings`,
and the file is compared with where the root went (`serverOwnsPath`).

A file the server names is read here through the same mappings, so the two agree where the
mapping that moved the file also moved the root above it (`mapped_owned`). A mapping
nested below the root moves the file alone; so does one whose local side is the root
directory, since a library root that maps to nothing is refused.
-/

namespace MediaPreview.Servers

open Separators

/-- A library of a server. -/
structure Library where
  /-- `id`. -/
  id : String
  /-- `name`. -/
  name : String
  /-- `remote_paths`: the library's folders as the server sees them. -/
  remotePaths : List Path
  /-- `enabled`. -/
  enabled : Bool

/-- What ownership reads of a `ServerConfig`. -/
structure ServerConfig where
  /-- `id`. -/
  id : String
  /-- `enabled`. -/
  enabled : Bool
  /-- `libraries`. -/
  libraries : List Library
  /-- `path_mappings`. -/
  pathMappings : List PathMapping

/-- `OwnershipMatch`. -/
structure OwnershipMatch where
  /-- `server_id`. -/
  serverId : String
  /-- `library_id`. -/
  libraryId : String
  /-- `library_name`. -/
  libraryName : String
  /-- `local_prefix`: where the library's folder went. -/
  localPrefix : Path
  deriving DecidableEq

/-- `_enabled_libraries`. -/
def enabledLibraries (server : ServerConfig) : List Library := server.libraries.filter (·.enabled)

namespace Nfc

variable (N : Nfc)

/-- The file's path as the folders are compared with it: its folder normalised, then its name. -/
def normPath (canonicalPath : Path) : Path :=
  let path := fwd (N.map canonicalPath)
  N.normalize (dirname path) ++ basename path

/-- The first local form of a library's folder that covers the file, unless the folder is blank. -/
def coveringCandidate (server : ServerConfig) (canonicalPath remotePath : Path) : Option Path :=
  if Blank remotePath then none
  else (N.applyPathMappings remotePath server.pathMappings).find? fun candidate =>
    ¬ Blank candidate ∧ N.normalize candidate <+: N.normPath canonicalPath

/-- `_library_matches`: at most one match for each library, by the first of its folders that covers the file. -/
def libraryMatches (canonicalPath : Path) (server : ServerConfig) (libraries : List Library) : List OwnershipMatch :=
  libraries.filterMap fun library =>
    (library.remotePaths.findSome? (N.coveringCandidate server canonicalPath)).map fun matched =>
      ⟨server.id, library.id, library.name, matched⟩

/-- `server_owns_path`. -/
def serverOwnsPath (canonicalPath : Path) (server : ServerConfig) : Option OwnershipMatch :=
  if server.enabled then (N.libraryMatches canonicalPath server (enabledLibraries server)).head? else none

/-- The path lies below the folder, a whole number of folders down. -/
def Inside (path root : Path) : Prop :=
  N.normalize root <+: N.normalize path ∧ N.normalize path ≠ N.normalize root

instance (path root : Path) : Decidable (N.Inside path root) := inferInstanceAs (Decidable (_ ∧ _))

/-! ### Covering folders -/

/-- **One local form of one folder of one enabled library is enough.** -/
theorem serverOwnsPath_isSome {server : ServerConfig} {library : Library} {path root candidate : Path}
    (hs : server.enabled) (hl : library ∈ server.libraries) (he : library.enabled)
    (hr : root ∈ library.remotePaths) (hroot : ¬ Blank root)
    (hc : candidate ∈ N.applyPathMappings root server.pathMappings) (hblank : ¬ Blank candidate)
    (hcover : N.normalize candidate <+: N.normPath path) : (N.serverOwnsPath path server).isSome := by
  have hcand : (N.coveringCandidate server path root).isSome := by
    rw [coveringCandidate, if_neg hroot, List.find?_isSome]
    exact ⟨candidate, hc, by simp [hblank, hcover]⟩
  have hfind : (library.remotePaths.findSome? (N.coveringCandidate server path)).isSome := by
    rw [List.findSome?_isSome_iff]
    exact ⟨root, hr, hcand⟩
  obtain ⟨matched, hmatched⟩ := Option.isSome_iff_exists.1 hfind
  have hmem : (⟨server.id, library.id, library.name, matched⟩ : OwnershipMatch) ∈
      N.libraryMatches path server (enabledLibraries server) := by
    rw [libraryMatches, List.mem_filterMap]
    exact ⟨library, List.mem_filter.2 ⟨hl, he⟩, by rw [hmatched]; rfl⟩
  rw [serverOwnsPath, if_pos hs, List.isSome_head?]
  exact List.ne_nil_of_mem hmem

theorem rdropWhile_last_slash {h b : Path} (hb : '/' ∉ b) :
    (h ++ '/' :: b).rdropWhile (· ≠ '/') = h ++ ['/'] := by
  rw [← List.singleton_append, ← List.append_assoc]
  induction b using List.reverseRecOn with
  | nil => simp
  | append_singleton b x ih =>
    rw [List.mem_append, List.mem_singleton, not_or] at hb
    rw [← List.append_assoc, List.rdropWhile_concat, if_pos (by simpa using Ne.symm hb.2)]
    exact ih hb.1

theorem basename_last_slash {h b : Path} (hb : '/' ∉ b) : basename (h ++ '/' :: b) = b := by
  have hsplit := List.rdropWhile_append_rtakeWhile (p := fun c => decide (c ≠ '/')) (l := h ++ '/' :: b)
  rw [rdropWhile_last_slash hb, List.append_assoc, List.append_cancel_left_eq] at hsplit
  exact (List.cons.inj hsplit).2

/-- Up to the slashes at its end, the folder of a path is what stands before its last slash. -/
theorem dirname_last_slash {h b : Path} (hb : '/' ∉ b) :
    ∃ k, dirname (h ++ '/' :: b) ++ List.replicate k '/' = h ++ ['/'] := by
  unfold dirname
  rw [rdropWhile_last_slash hb]
  dsimp only
  split
  · exact ⟨0, by simp⟩
  · obtain ⟨k, hk⟩ := rstrip_append_run '/' (h ++ ['/'])
    exact ⟨k, hk.symm⟩

theorem rstrip_dirname {h b : Path} (hb : '/' ∉ b) (hfwd : fwd h = h) :
    rstrip '/' (fwd (dirname (h ++ '/' :: b))) = rstrip '/' h := by
  obtain ⟨k, hk⟩ := dirname_last_slash (h := h) hb
  calc rstrip '/' (fwd (dirname (h ++ '/' :: b)))
      = rstrip '/' (fwd (dirname (h ++ '/' :: b) ++ List.replicate k '/')) := by
        rw [fwd_append, fwd_replicate, rstrip_append_replicate]
    _ = rstrip '/' h := by rw [hk, fwd_append, hfwd, fwd_slash, rstrip_concat, if_pos rfl]

/-- **A folder the path runs through covers the file**, whatever stands between it and the file's name. -/
theorem normalize_prefix_normPath {path folder t : Path}
    (h : N.map (fwd path) = N.map (rstrip '/' (fwd folder)) ++ '/' :: t) :
    N.normalize folder <+: N.normPath path := by
  have hpath : fwd (N.map path) = N.map (rstrip '/' (fwd folder)) ++ '/' :: t := by rw [N.fwd_map, h]
  obtain ⟨head, name, hsplit, hname⟩ := exists_last_split (s := fwd (N.map path)) (c := '/') (by simp [hpath])
  obtain ⟨u, hu, hcut⟩ := cut_before_last (hpath.symm.trans hsplit) hname
  have hfwd : fwd head = head := (fwd_of_append hsplit).1
  have hstripped : rstrip '/' (N.map (N.map (rstrip '/' (fwd folder)))) =
      N.map (N.map (rstrip '/' (fwd folder))) := by rw [N.idem, ← N.map_rstrip, rstrip_rstrip]
  have hnorm : N.normPath path =
      N.map (rstrip '/' (fwd folder)) ++ N.map (rstrip '/' u) ++ '/' :: name := by
    unfold normPath normalize
    dsimp only
    rw [hsplit, basename_last_slash hname, rstrip_dirname hname hfwd, hu, N.map_rstrip_append hstripped hcut,
      N.idem]
    simp
  rw [hnorm]
  exact prefix_of_cut _ name (N.map_cut hcut.rstrip)

/-- **A path below a folder is the folder, a slash and more**, up to the normal form. -/
theorem Inside.split {path root : Path} (h : N.Inside path root) :
    ∃ t, N.map (fwd path) = N.map (rstrip '/' (fwd root)) ++ '/' :: t := by
  obtain ⟨hpre, hne⟩ := h
  obtain ⟨u, hu, hcut⟩ := cut_of_prefix hpre
  obtain ⟨k, hk⟩ := rstrip_append_run '/' (fwd path)
  obtain rfl | ⟨t, rfl⟩ := cut_iff.1 hcut
  · exact absurd (by rw [normalize, normalize, hu, List.append_nil]) hne
  · refine ⟨t ++ List.replicate k '/', ?_⟩
    rw [hk, N.map_append _ (cut_replicate k), hu, SegmentMap.map_replicate, List.append_assoc, List.cons_append]

/-! ### Mapped files and mapped roots -/

/-- **A file and a root that one mapping moves stay one below the other.** -/
theorem mapped_below {m : PathMapping} {path root t : Path} (hpath : N.InPlace path m.remote)
    (hroot : N.InPlace root m.remote) (h : N.map (fwd path) = N.map (rstrip '/' (fwd root)) ++ '/' :: t) :
    ∃ t', N.map (fwd (mapped m path)) = N.map (rstrip '/' (fwd (mapped m root))) ++ '/' :: t' := by
  rw [hpath.map_fwd, hroot.map_rstrip_fwd, List.append_assoc, List.append_cancel_left_eq] at h
  have hfile : N.map (fwd (mapped m path)) =
      N.map (fwd (rstrip '/' m.localPrefix)) ++ (N.map (rstrip '/' (kept root m.remote)) ++ '/' :: t) := by
    rw [mapped, fwd_append, fwd_kept, N.map_append _ hpath.2, h]
  rw [hfile, mapped, fwd_append, fwd_kept, rstrip_append]
  split
  · rename_i hnil
    -- the root is the remote prefix itself: what the local prefix still ends with goes to the file's part
    obtain ⟨j, hj⟩ := rstrip_append_run '/' (fwd (rstrip '/' m.localPrefix))
    refine ⟨List.replicate j '/' ++ t, ?_⟩
    conv_lhs => rw [hj]
    rw [hnil, SegmentMap.map_nil, List.nil_append, N.map_append _ (cut_replicate j), SegmentMap.map_replicate,
      List.append_assoc, run_append_cons]
  · exact ⟨t, by rw [N.map_append _ hroot.2.rstrip, List.append_assoc]⟩

/-- A path's mappings are those of every folder above it, and more. -/
theorem Matches.of_inside {m : PathMapping} {path root : Path} (h : N.Inside path root)
    (hm : N.Matches m root) : N.Matches m path :=
  ⟨hm.1, hm.2.1, hm.2.2.trans h.1⟩

/-- **Mappings and ownership agree.** For a path below a library's folder, a local candidate is the path itself,
owned, when no mapping matches, and otherwise where a matching mapping puts it. Where the path spells the
mapping's remote prefix in place, that is the local prefix followed by the rest of the path; it is owned when the
mapping moves the library's folder as well, and to a folder that is not blank; and it maps back to the path. -/
theorem candidates_agree (server : ServerConfig) (hs : server.enabled) (library : Library)
    (hl : library ∈ server.libraries) (he : library.enabled) (root : Path) (hr : root ∈ library.remotePaths)
    (hroot : ¬ Blank root) (path : Path) (hpath : N.Inside path root) (l : Path)
    (hcand : l ∈ N.applyPathMappings path server.pathMappings) :
    ((∀ m ∈ server.pathMappings, ¬ N.Matches m path) ∧ l = path ∧ (N.serverOwnsPath l server).isSome) ∨
      ∃ m ∈ server.pathMappings, N.Matches m path ∧ l = mapped m path ∧ (N.InPlace path m.remote →
        l = rstrip '/' m.localPrefix ++ kept path m.remote ∧
        N.map (fwd path) = N.map (rstrip '/' (fwd m.remote)) ++ N.map (kept path m.remote) ∧
        (N.Matches m root → N.InPlace root m.remote → ¬ Blank (mapped m root) →
          (N.serverOwnsPath l server).isSome) ∧
        (Reversible m path →
          ∃ c ∈ N.applyInversePathMappings l server.pathMappings, N.map (fwd c) = N.map (fwd path))) := by
  obtain ⟨t, ht⟩ := hpath.split
  obtain ⟨m, hm, hmatch, rfl⟩ | ⟨hnone, rfl⟩ := N.mem_applyPathMappings.1 hcand
  · refine Or.inr ⟨m, hm, hmatch, rfl, fun hplace => ⟨rfl, hplace.map_fwd, ?_, ?_⟩⟩
    · intro hrootMatch hrootPlace hblank
      obtain ⟨t', ht'⟩ := N.mapped_below hplace hrootPlace ht
      have hmapped : mapped m root ∈ N.applyPathMappings root server.pathMappings :=
        N.mem_applyPathMappings.2 (Or.inl ⟨m, hm, hrootMatch, rfl⟩)
      exact N.serverOwnsPath_isSome hs hl he hr hroot hmapped hblank (N.normalize_prefix_normPath ht')
    · have hne : path ≠ [] := by
        rintro rfl
        have hlen := congrArg List.length ht
        simp [fwd] at hlen
      exact N.exists_inverse hm hmatch hplace hne
  · refine Or.inl ⟨hnone, rfl, ?_⟩
    have hself : root ∈ N.applyPathMappings root server.pathMappings :=
      N.mem_applyPathMappings.2 (Or.inr ⟨fun m hm hmatch => hnone m hm (Matches.of_inside N hpath hmatch), rfl⟩)
    exact N.serverOwnsPath_isSome hs hl he hr hroot hself hroot (N.normalize_prefix_normPath ht)

end Nfc

/-! ### Examples of both -/

/-- The normal form of a text with nothing to compose. -/
def Nfc.ascii : Nfc where
  map := fun s => s
  idem _ := rfl
  split _ _ := rfl
  free _ h := h
  eq_nil _ := Iff.rfl
  fwd_map _ := rfl

/-- A library of the one folder `F:\Music`. -/
def musicLibrary : Library := ⟨"1", "Music", ["F:\\Music".toList], true⟩

/-- A server on Windows with it, its drive mounted here as `/media`. -/
def musicServer : ServerConfig := ⟨"plex", true, [musicLibrary], [⟨"F:\\".toList, [], "/media/".toList⟩]⟩

theorem candidates_agree_drive :
    (Nfc.ascii.serverOwnsPath "/media/Music/a.mkv".toList musicServer).isSome ∧
      ∃ c ∈ Nfc.ascii.applyInversePathMappings "/media/Music/a.mkv".toList musicServer.pathMappings,
        Nfc.ascii.map (fwd c) = Nfc.ascii.map (fwd "F:\\Music\\a.mkv".toList) := by
  have hcand : "/media/Music/a.mkv".toList ∈
      Nfc.ascii.applyPathMappings "F:\\Music\\a.mkv".toList musicServer.pathMappings := by decide
  have hagree := Nfc.ascii.candidates_agree musicServer rfl musicLibrary List.mem_cons_self rfl
    "F:\\Music".toList List.mem_cons_self (by decide) "F:\\Music\\a.mkv".toList (by decide) _ hcand
  obtain ⟨hnone, -⟩ | ⟨m, hm, -, -, h⟩ := hagree
  · exact absurd (by decide) (hnone _ List.mem_cons_self)
  · obtain rfl := List.mem_singleton.1 hm
    obtain ⟨-, -, howned, hback⟩ := h (by decide)
    exact ⟨howned (by decide) (by decide) (by decide), hback (by decide)⟩

/-- The composition of one pair: the letter e and the acute accent behind it. -/
def composeAcute : Path → Path
  | 'e' :: '\u0301' :: s => '\u00e9' :: composeAcute s
  | c :: s => c :: composeAcute s
  | [] => []

theorem composeAcute_pair (s : Path) : composeAcute ('e' :: '\u0301' :: s) = '\u00e9' :: composeAcute s := rfl

theorem composeAcute_cons {c : Char} {s : Path} (h : c = 'e' → s.head? ≠ some '\u0301') :
    composeAcute (c :: s) = c :: composeAcute s := by
  rw [composeAcute]
  rintro s' rfl rfl
  exact h rfl rfl

theorem composeAcute_induct {motive : Path → Prop} (nil : motive [])
    (pair : ∀ s, motive s → motive ('e' :: '\u0301' :: s))
    (cons : ∀ c s, (c = 'e' → s.head? ≠ some '\u0301') → motive s → motive (c :: s)) (s : Path) : motive s := by
  induction s using composeAcute.induct with
  | case1 s ih => exact pair s ih
  | case2 c s h ih =>
    refine cons c s (fun hc hs => ?_) ih
    obtain ⟨s', rfl⟩ := List.head?_eq_some_iff.1 hs
    exact h s' hc rfl
  | case3 => exact nil

/-- Its normal form. -/
def Nfc.acute : Nfc where
  map := composeAcute
  idem s := by
    have hhead : ∀ s, (composeAcute s).head? = some '\u0301' → s.head? = some '\u0301' := by
      intro s
      induction s using composeAcute_induct with
      | nil => exact id
      | pair s _ => simp [composeAcute]
      | cons c s h _ => simp [composeAcute_cons h]
    induction s using composeAcute_induct with
    | nil => rfl
    | pair s ih =>
      rw [composeAcute_pair, composeAcute_cons fun hc => absurd hc (by decide), ih]
    | cons c s h ih =>
      rw [composeAcute_cons h, composeAcute_cons fun hc hs => h hc (hhead s hs), ih]
  split a b := by
    induction a using composeAcute_induct with
    | nil => exact composeAcute_cons fun hc => absurd hc (by decide)
    | pair s ih =>
      rw [List.cons_append, List.cons_append, composeAcute_pair, composeAcute_pair, ih, List.cons_append]
    | cons c s h ih =>
      rw [List.cons_append, composeAcute_cons h, composeAcute_cons, ih, List.cons_append]
      intro hc hs
      cases s with
      | nil => simp at hs
      | cons x s => exact h hc hs
  free a ha := by
    induction a using composeAcute_induct with
    | nil => exact ha
    | pair s ih =>
      simp only [List.mem_cons, not_or] at ha
      simp [composeAcute_pair, ih ha.2.2]
    | cons c s h ih =>
      rw [List.mem_cons, not_or] at ha
      simp [composeAcute_cons h, ha.1, ih ha.2]
  eq_nil a := by
    induction a using composeAcute_induct with
    | nil => exact Iff.rfl
    | pair s _ => simp [composeAcute]
    | cons c s h _ => simp [composeAcute_cons h]
  fwd_map s := by
    induction s using composeAcute_induct with
    | nil => rfl
    | pair s ih =>
      have hfwd : fwd ('e' :: '\u0301' :: s) = 'e' :: '\u0301' :: fwd s := rfl
      rw [composeAcute_pair, hfwd, composeAcute_pair, ← ih]
      rfl
    | cons c s h ih =>
      have hfwd : ∀ s, fwd (c :: s) = (if c = '\\' then '/' else c) :: fwd s := fun _ => rfl
      rw [composeAcute_cons h, hfwd, hfwd, ih, composeAcute_cons]
      intro hc hs
      cases s with
      | nil => exact absurd hs (by decide)
      | cons x s =>
        by_cases hb : c = '\\'
        · simp [hb] at hc
        · by_cases hx : x = '\\'
          · simp [fwd, hx] at hs
          · simp [fwd, hx, hb] at hs hc
            exact h hc (by simp [hs])

/-- A server with one library of one folder and one mapping. -/
def oneMapping (root remote localPrefix : String) : ServerConfig :=
  ⟨"plex", true, [⟨"1", "Media", [root.toList], true⟩], [⟨remote.toList, [], localPrefix.toList⟩]⟩

/-- **Not every candidate agrees.** A mapping below the library's folder moves a file out of it, and one to the
root directory leaves the folder blank; a path that spells the prefix in more characters loses its slash; a
backslash that ends the local prefix comes back as a slash of its own, and a doubled slash of a path on Windows
comes back as one. -/
theorem candidates_disagree :
    ("/tv/x.mkv".toList ∈ Nfc.ascii.applyPathMappings "/media/tv/x.mkv".toList
        (oneMapping "/media" "/media/tv" "/tv").pathMappings ∧
      Nfc.ascii.Inside "/media/tv/x.mkv".toList "/media".toList ∧
      Nfc.ascii.serverOwnsPath "/tv/x.mkv".toList (oneMapping "/media" "/media/tv" "/tv") = none) ∧
    ("/x.mkv".toList ∈ Nfc.ascii.applyPathMappings "/media/x.mkv".toList
        (oneMapping "/media" "/media" "/").pathMappings ∧
      Nfc.ascii.Inside "/media/x.mkv".toList "/media".toList ∧
      Nfc.ascii.serverOwnsPath "/x.mkv".toList (oneMapping "/media" "/media" "/") = none) ∧
    ("/datas/x.mkv".toList ∈ Nfc.acute.applyPathMappings "/me\u0301dias/x.mkv".toList
        (oneMapping "/m\u00e9dias" "/m\u00e9dias" "/data").pathMappings ∧
      Nfc.acute.Inside "/me\u0301dias/x.mkv".toList "/m\u00e9dias".toList ∧
      Nfc.acute.serverOwnsPath "/datas/x.mkv".toList (oneMapping "/m\u00e9dias" "/m\u00e9dias" "/data") = none) ∧
    ("D:\\/x.mkv".toList ∈ Nfc.ascii.applyPathMappings "/media/x.mkv".toList
        (oneMapping "/media" "/media" "D:\\").pathMappings ∧
      ∀ c ∈ Nfc.ascii.applyInversePathMappings "D:\\/x.mkv".toList
          (oneMapping "/media" "/media" "D:\\").pathMappings,
        Nfc.ascii.map (fwd c) ≠ Nfc.ascii.map (fwd "/media/x.mkv".toList)) ∧
    ("/m/a//b.mkv".toList ∈ Nfc.ascii.applyPathMappings "D:\\a\\\\b.mkv".toList
        (oneMapping "D:\\" "D:\\" "/m").pathMappings ∧
      ∀ c ∈ Nfc.ascii.applyInversePathMappings "/m/a//b.mkv".toList (oneMapping "D:\\" "D:\\" "/m").pathMappings,
        Nfc.ascii.map (fwd c) ≠ Nfc.ascii.map (fwd "D:\\a\\\\b.mkv".toList)) := by
  refine ⟨⟨?_, ?_, ?_⟩, ⟨?_, ?_, ?_⟩, ⟨?_, ?_, ?_⟩, ⟨?_, ?_⟩, ⟨?_, ?_⟩⟩
  all_goals decide

end MediaPreview.Servers
