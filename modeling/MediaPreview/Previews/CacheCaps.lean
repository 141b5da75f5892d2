import MediaPreview.Previews.SlotLocks
import Mathlib.Algebra.BigOperators.Group.List.Basic

/-!
# The caps of the frame cache

After frames are stored the cache is within its caps, and nothing in it is older than it may be, but for slots in use
(`WithinCaps`). What goes for a cap goes oldest first: while an entry stays whose slot nobody uses, only what has
expired goes that was used later (`put_trims`).
-/

namespace MediaPreview.Frames.FrameCache

variable {κ π σ : Type*} [DecidableEq κ] {s s' : FrameCache κ π σ} {disk : Disk κ σ}

/-- **Within the caps**, but for entries in use: the last one is never removed for its size. -/
structure WithinCaps (s : FrameCache κ π σ) : Prop where
  /-- No more entries than may be. -/
  entries : s.entries.length ≤ s.maxEntries ∨ ∀ e ∈ s.entries, s.idle e.1 = false
  /-- No more on the disk than may be. -/
  disk : s.maxDiskBytes = 0 ∨ (s.entries.map fun e => e.2.sizeBytes).sum ≤ s.maxDiskBytes ∨
    ∀ e ∈ s.entries.dropLast, s.idle e.1 = false
  /-- No entry past its age. -/
  young : ∀ e ∈ s.entries, e.2.cachedAt + s.ttl < s.now → s.idle e.1 = false

/-! ### What a removal leaves -/

omit [DecidableEq κ] in
theorem remove_sublist (s : FrameCache κ π σ) (gone : κ → Bool) (disk : Disk κ σ) :
    (s.remove gone disk).entries.Sublist s.entries := List.filter_sublist

theorem mem_remove {removed : List κ} {e : κ × CacheEntry σ} :
    e ∈ (s.remove (· ∈ removed) disk).entries ↔ e ∈ s.entries ∧ e.1 ∉ removed := by
  rw [remove, List.mem_filter, Bool.not_eq_true', decide_eq_false_iff_not]

/-- The keys that are left. -/
theorem keys_remove (s : FrameCache κ π σ) (removed : List κ) (disk : Disk κ σ) :
    ((s.remove (· ∈ removed) disk).entries.map Prod.fst) = (s.entries.map Prod.fst).filter (· ∉ removed) := by
  rw [List.filter_map]
  unfold remove
  simp only [Function.comp_def, decide_not]

/-- An entry's size is that of its key. -/
theorem map_sizeOf (hkeys : (s.entries.map Prod.fst).Nodup) {entries : List (κ × CacheEntry σ)}
    (hsub : entries ⊆ s.entries) : entries.map (fun e => e.2.sizeBytes) = (entries.map Prod.fst).map s.sizeOf := by
  rw [List.map_map]
  refine List.map_congr_left fun e he => ?_
  rw [Function.comp_apply, sizeOf, (Dict.get?_eq_some_iff hkeys).mpr (hsub he)]
  rfl

omit [DecidableEq κ] in
/-- Two entries that are kept stay in their order. -/
theorem pair_filter {p : κ × CacheEntry σ → Bool} {a b : κ × CacheEntry σ} {entries : List (κ × CacheEntry σ)}
    (hab : [a, b].Sublist entries) (ha : p a = true) (hb : p b = true) : [a, b].Sublist (entries.filter p) := by
  have hkept := hab.filter p
  rwa [List.filter_cons_of_pos ha, List.filter_cons_of_pos hb, List.filter_nil] at hkept

/-- Where an older idle key goes first, an entry that stays keeps the later ones. -/
theorem remove_oldest {removed : List κ} {a b : κ × CacheEntry σ} (hab : [a, b].Sublist s.entries)
    (hfirst : b.1 ∈ removed → a.1 ∈ removed) (ha : a ∈ (s.remove (· ∈ removed) disk).entries) :
    [a, b].Sublist (s.remove (· ∈ removed) disk).entries := by
  have hb : b.1 ∉ removed := fun hb => (mem_remove.mp ha).2 (hfirst hb)
  exact pair_filter hab (List.mem_filter.mp ha).2 (by simpa using hb)

/-! ### The two caps -/

theorem fits_of_overEntries (hkeys : (s.entries.map Prod.fst).Nodup) (disk : Disk κ σ) :
    (s.remove (· ∈ s.overEntries) disk).entries.length ≤ s.maxEntries ∨
      ∀ e ∈ (s.remove (· ∈ s.overEntries) disk).entries, s.idle e.1 = false := by
  have hsub : s.overEntries.Sublist (s.entries.map Prod.fst) := Trim.trim_sublist _ _
  have hlength : (s.remove (· ∈ s.overEntries) disk).entries.length =
      s.entries.length - (s.overEntries.map fun _ => 1).sum := by
    have hones : ∀ l : List κ, (l.map fun _ => 1).sum = l.length := fun l => by
      induction l with
      | nil => rfl
      | cons k l ih => rw [List.map_cons, List.sum_cons, ih, List.length_cons, Nat.add_comm]
    have hsum := Trim.sum_left (fun _ => 1) hkeys hsub
    rwa [← keys_remove s s.overEntries disk, hones, hones, List.length_map, List.length_map] at hsum
  have hfits : s.entries.length - (s.overEntries.map fun _ => 1).sum ≤ s.maxEntries ∨
      ∀ k ∈ s.entries.map Prod.fst, s.idle k = true → k ∈ s.overEntries := Trim.trim_fits _ _
  refine hfits.imp (fun hle => hlength ▸ hle) fun hgone e he => ?_
  obtain ⟨he, hkept⟩ := mem_remove.mp he
  exact Bool.eq_false_iff.mpr fun hidle => hkept (hgone e.1 (List.mem_map_of_mem he) hidle)

/-- The disk cap never takes the latest entry. -/
theorem dropLast_overDisk (hkeys : (s.entries.map Prod.fst).Nodup) {e : κ × CacheEntry σ}
    (he : e ∈ (s.remove (· ∈ s.overDisk) disk).entries.dropLast) :
    e.1 ∈ (s.entries.map Prod.fst).dropLast ∧ e.1 ∉ s.overDisk := by
  refine ⟨?_, (mem_remove.mp (List.dropLast_subset _ he)).2⟩
  have hsub : s.overDisk.Sublist (s.entries.map Prod.fst).dropLast := Trim.trim_sublist _ _
  unfold remove at he
  dsimp only at he
  rcases List.eq_nil_or_concat s.entries with hnil | ⟨before, latest, heq⟩
  · rw [hnil] at he
    cases he
  · rw [List.concat_eq_append] at heq
    rw [heq, List.map_append, List.map_singleton, List.dropLast_concat] at hsub ⊢
    rw [heq, List.map_append, List.map_singleton] at hkeys
    have hlatest : latest.1 ∉ s.overDisk := fun hmem =>
      (List.nodup_append.mp hkeys).2.2 _ (hsub.subset hmem) _ (.head _) rfl
    rw [heq, List.filter_append, List.filter_cons_of_pos (by simp [hlatest]), List.filter_nil,
      List.dropLast_concat] at he
    exact List.mem_map_of_mem (List.mem_of_mem_filter he)

theorem fits_of_overDisk (hkeys : (s.entries.map Prod.fst).Nodup) (disk : Disk κ σ) :
    ((s.remove (· ∈ s.overDisk) disk).entries.map fun e => e.2.sizeBytes).sum ≤ s.maxDiskBytes ∨
      ∀ e ∈ (s.remove (· ∈ s.overDisk) disk).entries.dropLast, s.idle e.1 = false := by
  have hsub : s.overDisk.Sublist (s.entries.map Prod.fst) :=
    (Trim.trim_sublist _ _).trans (List.dropLast_sublist _)
  have hsizes : ((s.remove (· ∈ s.overDisk) disk).entries.map fun e => e.2.sizeBytes).sum =
      (s.entries.map fun e => e.2.sizeBytes).sum - (s.overDisk.map s.sizeOf).sum := by
    rw [map_sizeOf hkeys (remove_sublist s _ disk).subset, keys_remove, Trim.sum_left s.sizeOf hkeys hsub,
      map_sizeOf hkeys (List.Subset.refl _)]
  have hfits : (s.entries.map fun e => e.2.sizeBytes).sum - (s.overDisk.map s.sizeOf).sum ≤ s.maxDiskBytes ∨
      ∀ k ∈ (s.entries.map Prod.fst).dropLast, s.idle k = true → k ∈ s.overDisk := Trim.trim_fits _ _
  refine hfits.imp (fun hle => hsizes ▸ hle) fun hgone e he => ?_
  obtain ⟨hmem, hkept⟩ := dropLast_overDisk hkeys he
  exact Bool.eq_false_iff.mpr fun hidle => hkept (hgone e.1 hmem hidle)

/-- Both caps hold after they are enforced. -/
theorem enforceCaps_fits (hkeys : (s.entries.map Prod.fst).Nodup) (disk : Disk κ σ)
    (hyoung : ∀ e ∈ s.entries, e.2.cachedAt + s.ttl < s.now → s.idle e.1 = false) :
    (s.enforceCaps disk).WithinCaps := by
  have hentries := fits_of_overEntries hkeys disk
  have hsub := remove_sublist s (· ∈ s.overEntries) disk
  have hkeys' := (hsub.map Prod.fst).nodup hkeys
  have hyoung' := fun e he => hyoung e (hsub.subset he)
  unfold enforceCaps
  dsimp only
  split_ifs with hnone
  · refine ⟨hentries, hnone.imp id fun hnil => ?_, hyoung'⟩
    rw [hnil]
    exact .inl (Nat.zero_le _)
  · have hsub' := remove_sublist (s.remove (· ∈ s.overEntries) disk)
      (· ∈ (s.remove (· ∈ s.overEntries) disk).overDisk) disk
    exact ⟨hentries.imp (Nat.le_trans hsub'.length_le) fun h e he => h e (hsub'.subset he),
      .inr (fits_of_overDisk hkeys' disk), fun e he => hyoung' e (hsub'.subset he)⟩

omit [DecidableEq κ] in
theorem overEntries_oldest (hkeys : (s.entries.map Prod.fst).Nodup) {a b : κ × CacheEntry σ}
    (hab : [a, b].Sublist s.entries) (hidle : s.idle a.1 = true) : b.1 ∈ s.overEntries → a.1 ∈ s.overEntries := by
  refine Trim.trim_oldest [] ?_ ?_ hidle
  · rwa [List.append_nil]
  · rw [List.append_nil]
    exact hab.map Prod.fst

theorem overDisk_oldest (hkeys : (s.entries.map Prod.fst).Nodup) {a b : κ × CacheEntry σ}
    (hab : [a, b].Sublist s.entries) (hidle : s.idle a.1 = true) : b.1 ∈ s.overDisk → a.1 ∈ s.overDisk := by
  have hkeys' : s.entries.map Prod.fst ≠ [] := fun hnil => by
    have hmem := (hab.map Prod.fst).subset (.head _)
    rw [hnil] at hmem
    cases hmem
  refine Trim.trim_oldest [(s.entries.map Prod.fst).getLast hkeys'] ?_ ?_ hidle
  · rwa [List.dropLast_append_getLast]
  · rw [List.dropLast_append_getLast]
    exact hab.map Prod.fst

/-- **What goes for a cap goes oldest first.** -/
theorem enforceCaps_oldest (hkeys : (s.entries.map Prod.fst).Nodup) {a b : κ × CacheEntry σ}
    (hab : [a, b].Sublist s.entries) (hidle : s.idle a.1 = true) (ha : a ∈ (s.enforceCaps disk).entries) :
    b ∈ (s.enforceCaps disk).entries := by
  have hsub := remove_sublist s (· ∈ s.overEntries) disk
  unfold enforceCaps at ha ⊢
  dsimp only at ha ⊢
  split_ifs at ha ⊢
  · exact (remove_oldest hab (overEntries_oldest hkeys hab hidle) ha).subset (.tail _ (.head _))
  · have hab' := remove_oldest hab (overEntries_oldest hkeys hab hidle) (List.mem_of_mem_filter ha)
    exact (remove_oldest hab' (overDisk_oldest ((hsub.map Prod.fst).nodup hkeys) hab' hidle) ha).subset
      (.tail _ (.head _))

/-! ### What `put` leaves -/

/-- An entry that stays though it is too old is in use. -/
theorem young_of_sweepExpired (hkeys : (s.entries.map Prod.fst).Nodup) {k : κ} (hk : s.idle k = false)
    {e : κ × CacheEntry σ} (he : e ∈ (s.sweepExpired (some k) disk).entries) (hold : e.2.cachedAt + s.ttl < s.now) :
    s.idle e.1 = false := by
  obtain ⟨hmem, hkept⟩ := List.mem_filter.mp he
  have hexpired : s.expired disk e.1 = true := by
    rw [expired, (Dict.get?_eq_some_iff hkeys).mpr hmem]
    exact decide_eq_true hold
  by_cases heq : k = e.1
  · exact heq ▸ hk
  · simpa [hexpired, heq] using hkept

/-- What is not too old is not swept. -/
theorem mem_sweepExpired (disk : Disk κ σ) (keep : Option κ) (hkeys : (s.entries.map Prod.fst).Nodup)
    {e : κ × CacheEntry σ} (he : e ∈ s.entries) (hyoung : ¬e.2.cachedAt + s.ttl < s.now) : e ∈ (s.sweepExpired keep disk).entries := by
  refine List.mem_filter.mpr ⟨he, ?_⟩
  have hexpired : s.expired disk e.1 = false := by
    rw [expired, (Dict.get?_eq_some_iff hkeys).mpr he]
    exact decide_eq_false hyoung
  simp [hexpired]

theorem enforceCaps_sublist (s : FrameCache κ π σ) (disk : Disk κ σ) :
    (s.enforceCaps disk).entries.Sublist s.entries := by
  unfold enforceCaps
  dsimp only
  split_ifs
  · exact remove_sublist s _ disk
  · exact (remove_sublist _ _ disk).trans (remove_sublist s _ disk)

/-- Two entries of keys that are idle, the first of which stays. -/
theorem put_oldest (hkeys : (s.entries.map Prod.fst).Nodup) {k : κ} (hk : s.idle k = false) (entry : CacheEntry σ)
    {a b : κ × CacheEntry σ} (hab : [a, b].Sublist s.entries) (ha : s.idle a.1 = true) (hb : s.idle b.1 = true)
    (hyoung : ¬b.2.cachedAt + s.ttl < s.now) (hstays : a ∈ (s.put k entry disk).entries) :
    b ∈ (s.put k entry disk).entries := by
  have hne : ∀ {e : κ × CacheEntry σ}, s.idle e.1 = true → e.1 ≠ k := fun he heq => by
    rw [heq, hk] at he
    cases he
  have hstored : [a, b].Sublist (s.store k entry).entries :=
    (pair_filter hab (by simpa using hne ha) (by simpa using hne hb)).trans (List.sublist_append_left _ _)
  have hkeys' : ((s.store k entry).entries.map Prod.fst).Nodup := nodup_store hkeys k entry
  have hswept := (enforceCaps_sublist _ disk).subset hstays
  have hlater := mem_sweepExpired disk (some k) hkeys' (hstored.subset (.tail _ (.head _))) hyoung
  have hpair : [a, b].Sublist ((s.store k entry).sweepExpired (some k) disk).entries :=
    pair_filter hstored (List.mem_filter.mp hswept).2 (List.mem_filter.mp hlater).2
  exact enforceCaps_oldest ((List.filter_sublist.map Prod.fst).nodup hkeys') hpair ha hstays

variable [DecidableEq σ] {key : π → κ} {source : ℕ → π → Option Previews.SourceFingerprint} {e : CacheEvent κ π σ}

/-- Every step leaves each key one entry. -/
theorem nodup_step (h : Locked key s) (hkeys : (s.entries.map Prod.fst).Nodup)
    (hstep : s.step key source e = some s') : (s'.entries.map Prod.fst).Nodup := by
  rcases step_cases hstep with ⟨d, D, -, hd, hgoes | hacquire | hrelease⟩ | ⟨d, o, -, -, -, rfl⟩ |
    ⟨ht, -⟩ | ⟨disk, -, rfl⟩
  · obtain ⟨hwaits, t, p, rfl, -, -, -, ht⟩ := hgoes
    exact (ht (h.lock hd hwaits)).nodup hkeys
  · obtain ⟨-, hacquire⟩ := Option.ite_none_right_eq_some.mp hacquire
    exact Option.some.inj hacquire ▸ hkeys
  · obtain ⟨-, hrelease⟩ := Option.ite_none_right_eq_some.mp hrelease
    exact Option.some.inj hrelease ▸ hkeys
  · exact hkeys
  · exact ht.nodup hkeys
  · exact List.nodup_nil

/-- **Storing frames trims the cache**: after it the cache is within its caps, and an entry that was used after one
that stays though its slot is idle stays too, or has expired, or is the one that is replaced. -/
theorem put_trims {ttl maxEntries maxDiskBytes : ℕ} {slots : κ → Option (Slot σ)} {events : List (CacheEvent κ π σ)}
    {d sizeBytes : ℕ}
    (hrun : Runs (step key source) Any (fresh ttl maxEntries maxDiskBytes slots) events s)
    (hstep : s.step key source (.put d sizeBytes disk) = some s') :
    s'.WithinCaps ∧ ∀ a b, [a, b].Sublist s.entries → s.idle a.1 = true → s.idle b.1 = true → a ∈ s'.entries →
      b ∈ s'.entries ∨ b.2.cachedAt + s.ttl < s.now := by
  obtain ⟨hlocked, hkeys⟩ := hrun.keeps (I := fun t => Locked key t ∧ (t.entries.map Prod.fst).Nodup)
    ⟨locked_fresh _ _ _ _, List.nodup_nil⟩ fun _ _ _ _ hstep h => ⟨h.1.step hstep, nodup_step h.1 h.2 hstep⟩
  obtain ⟨D, hd, hstep⟩ := Option.bind_eq_some_iff.mp hstep
  obtain ⟨count, hmade, hstep⟩ := Option.bind_eq_some_iff.mp hstep
  obtain ⟨-, hstep⟩ := Option.ite_none_right_eq_some.mp hstep
  obtain rfl := Option.some.inj hstep
  have hk := hlocked.lock hd (Phase.ne_waiting_of_made hmade)
  generalize (⟨count, s.now, D.extractionKey, D.fingerprint, sizeBytes⟩ : CacheEntry σ) = entry
  have hbusy : s.idle (key D.path) = false := congrArg Option.isNone hk
  constructor
  · have hkeys' := nodup_store hkeys (key D.path) entry
    have hcaps := enforceCaps_fits (s := (s.store (key D.path) entry).sweepExpired (some (key D.path)) disk)
      ((List.filter_sublist.map Prod.fst).nodup hkeys') disk fun e he hold => young_of_sweepExpired hkeys' hbusy he hold
    exact ⟨hcaps.entries, hcaps.disk, hcaps.young⟩
  · intro a b hab ha hb hstays
    exact (Decidable.em (b.2.cachedAt + s.ttl < s.now)).symm.imp_left fun hyoung =>
      put_oldest hkeys hbusy entry hab ha hb hyoung hstays

/-- Two files, one after the other, with room for one. -/
def twoFiles : List (CacheEvent ℕ ℕ ℕ) :=
  extracts 0 4 ++ [.put 0 10 wiped, .stop 0 wiped, .release 0] ++ extracts 2 9

theorem put_trims_twoFiles : ∃ s s', Runs (step id still) Any small twoFiles s ∧
    s.step id still (.put 2 10 wiped) = some s' ∧ s'.WithinCaps ∧
      ∀ a b, [a, b].Sublist s.entries → s.idle a.1 = true → s.idle b.1 = true → a ∈ s'.entries →
        b ∈ s'.entries ∨ b.2.cachedAt + s.ttl < s.now := by
  have hruns : ((exec (step id still) small twoFiles).any fun s =>
      (s.step id still (.put 2 10 wiped)).isSome) = true := by
    decide +kernel
  obtain ⟨s, hs, hput⟩ := (Option.any_eq_true _ _).mp hruns
  obtain ⟨s', hs'⟩ := Option.isSome_iff_exists.mp hput
  have hrun := Runs.of_exec (C := Any) (fun _ _ _ => trivial) hs
  exact ⟨s, s', hrun, hs', put_trims hrun hs'⟩

end MediaPreview.Frames.FrameCache
