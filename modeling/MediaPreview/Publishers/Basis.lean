import MediaPreview.Publishers.Publish

/-!
# Skipping an unchanged publish

A run skips its write when its basis is still the hash of what it decided and the item row's version.
Over any sequence of runs of the server's files, of items found gone and of bases cleared, that is safe
(`unchanged_since_own_write`): the file's last write to the item is still what the records say of the item,
and nothing in between said anything else, not even for a while.

The basis is taken at the version the write left (`Written`), versions never fall, and a version that comes
again comes with the same record (`advances_run`): between two reads of one version nothing changed.
-/

namespace MediaPreview.Publishers

open Markers

variable {ι φ η : Type*} [DecidableEq ι] [DecidableEq φ] [DecidableEq η]

/-- What changes the publish records of a server. -/
inductive Op (ι φ : Type*) where
  /-- A run of `_publish_to`, under the item's lock. -/
  | publish (file : φ) (item : ι) (attempt : Attempt ι)
  /-- `mark_item_gone`. -/
  | itemGone (item : ι)
  /-- `clear_publish_basis`. -/
  | clearBasis (file : φ)

/-- One change. -/
def step (hash : List Marker → η) (s : Records ι φ η) : Op ι φ → Records ι φ η
  | .publish file item a => s.publishTo hash file item a
  | .itemGone item => s.markItemGone item
  | .clearBasis file => s.clearPublishBasis file

/-- Changes one after another, from no records. -/
def run (hash : List Marker → η) (ops : List (Op ι φ)) : Records ι φ η := ops.foldl (step hash) .empty

/-- In a state, a change is a write by the file: `publisher.write` returned. -/
def IsWrite (hash : List Marker → η) (s : Records ι φ η) (file : φ) : Op ι φ → Prop
  | .publish file' item a => file' = file ∧ ∃ r, s.outcome hash file' item a = .written r
  | .itemGone _ => False
  | .clearBasis _ => False

/-! ### Versions -/

variable {hash : List Marker → η} {file : φ} {item : ι}

theorem run_append (ops ops' : List (Op ι φ)) : run hash (ops ++ ops') = ops'.foldl (step hash) (run hash ops) :=
  List.foldl_append

theorem advances_step (s : Records ι φ η) (op : Op ι φ) : s.Advances (step hash s op) := by
  cases op with
  | publish file item a => exact s.advances_publishTo hash file item a
  | itemGone item => exact s.advances_markItemGone item
  | clearBasis file => exact .of_eq rfl rfl

theorem advances_foldl (s : Records ι φ η) (ops : List (Op ι φ)) : s.Advances (ops.foldl (step hash) s) := by
  induction ops generalizing s with
  | nil => exact .refl s
  | cons op ops ih => exact (advances_step s op).trans (ih (step hash s op))

/-- **No version falls, and one that comes again comes with the same record.** -/
theorem advances_run (hash : List Marker → η) (ops ops' : List (Op ι φ)) : (run hash ops).Advances (run hash (ops ++ ops')) := by
  rw [run_append]
  exact advances_foldl (run hash ops) ops'

/-! ### Where a basis comes from -/

/-- The changes since a file's last write to an item of what hashes to `decidedHash`, at a version the item's row
had reached with that write. -/
structure Written (hash : List Marker → η) (ops : List (Op ι φ)) (file : φ) (item : ι) (decidedHash : η)
    (version : ℕ) (before : List (Op ι φ)) (a : Attempt ι) (after : List (Op ι φ)) : Prop where
  /-- The write is one of the changes. -/
  split : ops = before ++ .publish file item a :: after
  /-- `publisher.write` returned. -/
  write : IsWrite hash (run hash before) file (.publish file item a)
  /-- What it was to write hashes as it does now. -/
  hash_eq : hash a.wanted = decidedHash
  /-- The file has not written since. -/
  last : ∀ mid op, mid ++ [op] <+: after → ¬ IsWrite hash (run hash (before ++ .publish file item a :: mid)) file op
  /-- The item's row was at the version or past it. -/
  version_le : ∃ row, (run hash (before ++ [.publish file item a])).items item = some row ∧ version ≤ row.version

/-- A change that is no write of the file leaves its basis and the item it published to, or no basis. -/
theorem step_of_not_write {s : Records ι φ η} {op : Op ι φ} (h : ¬ IsWrite hash s file op) :
    (step hash s op).basis file = none ∨
      ((step hash s op).basis file = s.basis file ∧ (step hash s op).files file = s.files file) := by
  cases op with
  | publish file' item a =>
    by_cases hfile : file = file'
    · subst hfile
      rcases Records.publishTo_of_not_written fun r hr => h ⟨rfl, r, hr⟩ with hnone | hsame
      · exact .inl hnone
      · rw [step, hsame]
        exact .inr ⟨rfl, rfl⟩
    · exact .inr (Records.publishTo_of_ne hfile)
  | itemGone item =>
    obtain ⟨hf, hb⟩ := s.markItemGone_files item
    rw [step, hf, hb]
    exact .inr ⟨rfl, rfl⟩
  | clearBasis file' =>
    by_cases hfile : file = file'
    · subst hfile
      exact .inl (Function.update_self ..)
    · exact .inr ⟨Function.update_of_ne hfile .., rfl⟩

/-- **Every basis is a write's**: of the file's last one, to the item it was last published to. -/
theorem exists_written (ops : List (Op ι φ)) {decidedHash : η} {version : ℕ}
    (hbasis : (run hash ops).basis file = some (decidedHash, version))
    (hitem : ((run hash ops).files file).bind (·.itemId) = some item) :
    ∃ before a after, Written hash ops file item decidedHash version before a after := by
  induction ops using List.reverseRecOn with
  | nil => exact absurd hbasis (by simp [run, Records.empty])
  | append_singleton ops op ih =>
    rw [run_append, List.foldl_cons, List.foldl_nil] at hbasis hitem
    by_cases hwrite : IsWrite hash (run hash ops) file op
    · cases op with
      | itemGone item => exact hwrite.elim
      | clearBasis file => exact hwrite.elim
      | publish file' item' a =>
        obtain ⟨rfl, r, hr⟩ := hwrite
        obtain ⟨version', row, hbasis', hitem', hrow, hle⟩ := Records.publishTo_of_written hr
        obtain ⟨hhash, rfl⟩ : hash a.wanted = decidedHash ∧ version' = version := by
          simpa using hbasis'.symm.trans hbasis
        obtain rfl : item' = item := by simpa using hitem'.symm.trans hitem
        refine ⟨ops, a, [], rfl, ⟨rfl, r, hr⟩, hhash, fun mid op hmid => by simp at hmid, row, ?_, hle⟩
        rw [run_append]
        exact hrow
    · rcases step_of_not_write hwrite with hnone | ⟨hb, hf⟩
      · exact absurd (hbasis.symm.trans hnone) (by simp)
      · obtain ⟨before, a, after, h⟩ := ih (hb.symm.trans hbasis) (by rw [← hf]; exact hitem)
        refine ⟨before, a, after ++ [op], ?_, h.write, h.hash_eq, fun mid op' hmid => ?_, h.version_le⟩
        · rw [h.split, List.append_assoc, List.cons_append]
        · rcases List.prefix_concat_iff.mp hmid with heq | hpre
          · obtain ⟨rfl, hop⟩ := List.append_inj' heq rfl
            obtain rfl := List.cons.inj hop |>.1
            rw [← h.split]
            exact hwrite
          · exact h.last mid op' hpre

/-! ### What a skip may rely on -/

/-- **An unchanged publish misses nothing.** Whenever a file's basis is the hash of what it is to publish and
the version of the row of the item it was last published to, there is a last write by the file, it was of markers with
that hash, and since then no change to the records changed what the item shows as ours, its kept types or its
status, at any point. And a change of these raises the item's version, which nothing lowers. -/
theorem unchanged_since_own_write (hash : List Marker → η) (ops : List (Op ι φ)) (file : φ) (item : ι) :
    (∀ row (wanted : List Marker), (run hash ops).items item = some row →
        ((run hash ops).files file).bind (·.itemId) = some item →
        (run hash ops).basis file = some (hash wanted, row.version) →
      ∃ before a after, ops = before ++ .publish file item a :: after ∧
        IsWrite hash (run hash before) file (.publish file item a) ∧ hash a.wanted = hash wanted ∧
        (∀ mid op, mid ++ [op] <+: after → ¬ IsWrite hash (run hash (before ++ .publish file item a :: mid)) file op) ∧
        ∀ mid, mid <+: after → (run hash (before ++ .publish file item a :: mid)).view item = (run hash ops).view item) ∧
    ∀ later row, (run hash ops).items item = some row →
      ∃ row', (run hash (ops ++ later)).items item = some row' ∧ row.version ≤ row'.version ∧
        ((run hash (ops ++ later)).view item ≠ (run hash ops).view item → row.version < row'.version) := by
  refine ⟨fun row wanted hrow hitem hbasis => ?_, fun later row hrow => ?_⟩
  · obtain ⟨before, a, after, h⟩ := exists_written ops hbasis hitem
    refine ⟨before, a, after, h.split, h.write, h.hash_eq, h.last, ?_⟩
    rintro mid ⟨rest, hrest⟩
    obtain ⟨first, hfirst, hle⟩ := h.version_le
    obtain ⟨then', hthen, hle', -⟩ := advances_run hash (before ++ [.publish file item a]) mid item first hfirst
    rw [List.append_assoc, List.singleton_append] at hthen
    obtain ⟨now, hnow, hle'', hsame⟩ := advances_run hash (before ++ .publish file item a :: mid) rest item then' hthen
    rw [List.append_assoc, List.cons_append, hrest, ← h.split] at hnow hsame
    obtain rfl := Option.some.inj (hrow.symm.trans hnow)
    exact (hsame (by omega)).symm
  · obtain ⟨row', hrow', hle, hsame⟩ := advances_run hash ops later item row hrow
    refine ⟨row', hrow', hle, fun hne => ?_⟩
    exact lt_of_le_of_ne hle fun heq => hne (hsame heq.symm)

/-- An intro from the start of a file. -/
def openingMarker : Marker := ⟨.intro, 0, 90000, ["chapters"], false⟩

/-- A run that writes the opening to its item. -/
def writesOpening : Attempt ℕ where
  refused := none
  force := false
  wanted := [openingMarker]
  keptOwn := false
  publishAgain := false
  atomicWrites := true
  write := .written ⟨[openingMarker], ∅, true, none, []⟩

/-- Two versions of one item write the same opening to it. -/
def twoVersions : List (Op ℕ ℕ) := [.publish 0 7 writesOpening, .publish 1 7 writesOpening]

theorem unchanged_since_own_write_twoVersions :
    ∃ before a after, twoVersions = before ++ .publish 0 7 a :: after ∧
      IsWrite shownTimes (run shownTimes before) 0 (.publish 0 7 a) ∧
      shownTimes a.wanted = shownTimes [openingMarker] ∧
      (∀ mid op, mid ++ [op] <+: after →
        ¬ IsWrite shownTimes (run shownTimes (before ++ .publish 0 7 a :: mid)) 0 op) ∧
      ∀ mid, mid <+: after →
        (run shownTimes (before ++ .publish 0 7 a :: mid)).view 7 = (run shownTimes twoVersions).view 7 :=
  (unchanged_since_own_write shownTimes twoVersions 0 7).1 ⟨[openingMarker], .written, 1⟩ [openingMarker] rfl rfl rfl

end MediaPreview.Publishers
