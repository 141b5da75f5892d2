import MediaPreview.Publishers.Versions
import Mathlib.Data.Finset.Basic
import Mathlib.Data.String.Basic
import Mathlib.Logic.Function.Basic

/-!
# What is recorded of one server's items

The publish records of `markers/store.py` for one server: what this app left on each item
(`item_publish_state`, with `item_kept_types` and `item_versions`), what each file's last publish came
to (`publish_state`), and what it was based on (`publish_basis`).

An item's row has a version. `Advances` says what one write does to it: it never falls, and while it
stays the same so does what the item shows as ours, its status and its kept types.
-/

namespace MediaPreview.Publishers

open Markers Ranking

/-- The status of an item's row. -/
inductive ItemStatus where
  | written
  | failed
  | gone
  deriving DecidableEq, Repr

/-- `STATE_BY_STATUS`: the status of a file's row. -/
inductive FileStatus where
  | written
  | skipped
  | waiting
  | failed
  deriving DecidableEq, Repr

/-- A row of `item_publish_state`. -/
structure ItemRow where
  /-- Ours on the item. -/
  markers : List Marker
  /-- How the last write of it went. -/
  status : ItemStatus
  /-- Goes up with each change. -/
  version : ℕ

/-- A row of `publish_state`. -/
structure FileRow (ι : Type*) where
  /-- The item the file was published to. -/
  itemId : Option ι
  /-- What it published. -/
  markers : List Marker
  /-- How that went. -/
  status : FileStatus

/-- The publish records of one server, of items `ι` and files `φ`, with hashes `η`. -/
structure Records (ι φ η : Type*) where
  /-- `item_publish_state`. -/
  items : ι → Option ItemRow
  /-- `item_kept_types`: the types kept as the server's own. -/
  keptTypes : ι → Finset MarkerType
  /-- `item_versions`: the item's version files at the last write. -/
  itemFiles : ι → Option (List String)
  /-- `publish_state`. -/
  files : φ → Option (FileRow ι)
  /-- `publish_basis`: the hash of what was decided, and the item row's version. -/
  basis : φ → Option (η × ℕ)

/-- Ours as they are stored, sorted by start. -/
def sortedByStart (markers : List Marker) : List Marker :=
  sortBy (fun m => toLex (m.startMs, m.type.value)) markers

namespace Records

variable {ι φ η : Type*}

/-- No records. -/
def empty : Records ι φ η where
  items _ := none
  keptTypes _ := ∅
  itemFiles _ := none
  files _ := none
  basis _ := none

/-! ### Writes -/

section Items

variable [DecidableEq ι]

/-- `INSERT OR REPLACE` of an item's row, and of its kept types. -/
def putItem (s : Records ι φ η) (item : ι) (row : ItemRow) (kept : Finset MarkerType) : Records ι φ η :=
  { s with items := Function.update s.items item (some row)
           keptTypes := Function.update s.keptTypes item kept }

/-- `INSERT OR REPLACE INTO item_versions`, when the files are given. -/
def putItemFiles (s : Records ι φ η) (item : ι) : Option (List String) → Records ι φ η
  | none => s
  | some files => { s with itemFiles := Function.update s.itemFiles item (some (sortBy id files)) }

/-- The markers a write records: those given, or the ones recorded before. -/
def recorded (s : Records ι φ η) (item : ι) : Option (List Marker) → List Marker
  | none => ((s.items item).map (·.markers)).getD []
  | some markers => sortedByStart markers

/-- `set_item_publish_state`, with the version it returns. -/
def setItemPublishState (s : Records ι φ η) (item : ι) (markers : Option (List Marker)) (status : ItemStatus)
    (keptTypes : Option (Finset MarkerType)) (itemFiles : Option (List String)) : ℕ × Records ι φ η :=
  let s' := s.putItemFiles item itemFiles
  let new := s.recorded item markers
  let kept := keptTypes.getD (s.keptTypes item)
  match s.items item with
  | none => (1, s'.putItem item ⟨new, status, 1⟩ kept)
  | some row =>
    if row.status = status ∧ shownTimes row.markers = shownTimes new ∧ kept = s.keptTypes item then (row.version, s')
    else (row.version + 1, s'.putItem item ⟨new, status, row.version + 1⟩ kept)

/-- `mark_item_gone`: only a written row changes. -/
def markItemGone (s : Records ι φ η) (item : ι) : Records ι φ η :=
  match s.items item with
  | none => s
  | some row =>
    if row.status = .written then s.putItem item ⟨row.markers, .gone, row.version + 1⟩ (s.keptTypes item) else s

end Items

section Files

variable [DecidableEq φ]

/-- `set_publish_state`; without markers the last published ones stay. -/
def setPublishState (s : Records ι φ η) (file : φ) (itemId : Option ι) (markers : Option (List Marker))
    (status : FileStatus) : Records ι φ η :=
  { s with files := Function.update s.files file
             (some ⟨itemId, markers.getD (((s.files file).map (·.markers)).getD []), status⟩) }

/-- `set_publish_basis`. -/
def setPublishBasis (s : Records ι φ η) (file : φ) (decidedHash : η) (itemVersion : ℕ) : Records ι φ η :=
  { s with basis := Function.update s.basis file (some (decidedHash, itemVersion)) }

/-- `clear_publish_basis`. -/
def clearPublishBasis (s : Records ι φ η) (file : φ) : Records ι φ η :=
  { s with basis := Function.update s.basis file none }

end Files

/-! ### What an item's record says -/

/-- What is recorded of an item: what it shows as ours, its status, and its kept types. -/
structure View where
  /-- The types and times of ours. -/
  shown : List (MarkerType × ℤ × ℤ)
  /-- The status. -/
  status : ItemStatus
  /-- The types kept as the server's own. -/
  kept : Finset MarkerType
  deriving DecidableEq

/-- What is recorded of an item, when anything is. -/
def view (s : Records ι φ η) (item : ι) : Option View :=
  (s.items item).map fun row => ⟨shownTimes row.markers, row.status, s.keptTypes item⟩

/-- From `s` to `s'` no item's version falls, and an item with the same version has the same record. -/
def Advances (s s' : Records ι φ η) : Prop :=
  ∀ item row, s.items item = some row →
    ∃ row', s'.items item = some row' ∧ row.version ≤ row'.version ∧
      (row'.version = row.version → s'.view item = s.view item)

theorem Advances.of_eq {s s' : Records ι φ η} (hi : s'.items = s.items) (hk : s'.keptTypes = s.keptTypes) :
    Advances s s' := by
  intro item row hrow
  refine ⟨row, hi ▸ hrow, le_rfl, fun _ => ?_⟩
  rw [view, view, hi, hk]

theorem Advances.refl (s : Records ι φ η) : Advances s s := .of_eq rfl rfl

theorem Advances.trans {s s' s'' : Records ι φ η} (h : Advances s s') (h' : Advances s' s'') : Advances s s'' := by
  intro item row hrow
  obtain ⟨row', hrow', hle, hsame⟩ := h item row hrow
  obtain ⟨row'', hrow'', hle', hsame'⟩ := h' item row' hrow'
  refine ⟨row'', hrow'', hle.trans hle', fun heq => ?_⟩
  rw [hsame' (by omega), hsame (by omega)]

variable [DecidableEq ι] {s : Records ι φ η} {item : ι}

/-- Replacing a row by a newer one. -/
theorem Advances.putItem {row : ItemRow} {kept : Finset MarkerType}
    (h : ∀ old, s.items item = some old → old.version < row.version) : Advances s (s.putItem item row kept) := by
  intro i old hold
  by_cases hi : i = item
  · subst hi
    have hlt := h old hold
    exact ⟨row, by simp [Records.putItem], hlt.le, fun heq => absurd heq hlt.ne'⟩
  · refine ⟨old, by simpa [Records.putItem, hi] using hold, le_rfl, fun _ => ?_⟩
    simp [view, Records.putItem, hi]

theorem items_putItem_self (s : Records ι φ η) (item : ι) (row : ItemRow) (kept : Finset MarkerType) :
    (s.putItem item row kept).items item = some row := Function.update_self ..

@[simp] theorem items_putItemFiles (files : Option (List String)) : (s.putItemFiles item files).items = s.items := by
  cases files <;> rfl

@[simp] theorem keptTypes_putItemFiles (files : Option (List String)) :
    (s.putItemFiles item files).keptTypes = s.keptTypes := by
  cases files <;> rfl

@[simp] theorem files_putItemFiles (files : Option (List String)) : (s.putItemFiles item files).files = s.files := by
  cases files <;> rfl

@[simp] theorem basis_putItemFiles (files : Option (List String)) : (s.putItemFiles item files).basis = s.basis := by
  cases files <;> rfl

/-- **What `set_item_publish_state` does**: the item's row has the version returned and says what it was
told to, and no other record of an item or a file changes. -/
theorem setItemPublishState_spec (s : Records ι φ η) (item : ι) (markers : Option (List Marker)) (status : ItemStatus)
    (keptTypes : Option (Finset MarkerType)) (itemFiles : Option (List String)) :
    let r := s.setItemPublishState item markers status keptTypes itemFiles
    (∃ row, r.2.items item = some row ∧ row.version = r.1) ∧
      r.2.view item = some ⟨shownTimes (s.recorded item markers), status, keptTypes.getD (s.keptTypes item)⟩ ∧
      (∀ i, i ≠ item → r.2.items i = s.items i ∧ r.2.keptTypes i = s.keptTypes i) ∧
      r.2.files = s.files ∧ r.2.basis = s.basis ∧ Advances s r.2 := by
  have hfiles : Advances s (s.putItemFiles item itemFiles) := .of_eq (by simp) (by simp)
  cases hrow : s.items item with
  | none =>
    simp only [setItemPublishState, hrow]
    refine ⟨⟨_, items_putItem_self .., rfl⟩, by simp [view, putItem], fun i hi => by simp [putItem, hi], ?_, ?_, ?_⟩
    · simp [putItem]
    · simp [putItem]
    · exact hfiles.trans (.putItem fun old hold => by simp [hrow] at hold)
  | some row =>
    simp only [setItemPublishState, hrow]
    split_ifs with hsame
    · obtain ⟨hstatus, hshown, hkept⟩ := hsame
      refine ⟨⟨row, by simpa using hrow, rfl⟩, ?_, fun i _ => by simp, by simp, by simp, hfiles⟩
      simp [view, hrow, hstatus, hshown, hkept]
    · refine ⟨⟨_, items_putItem_self .., rfl⟩, by simp [view, putItem], fun i hi => by simp [putItem, hi], ?_, ?_, ?_⟩
      · simp [putItem]
      · simp [putItem]
      · refine hfiles.trans (.putItem fun old hold => ?_)
        rw [items_putItemFiles, hrow] at hold
        obtain rfl := Option.some.inj hold
        exact Nat.lt_succ_self _

theorem advances_setItemPublishState (s : Records ι φ η) (item : ι) (markers : Option (List Marker))
    (status : ItemStatus) (keptTypes : Option (Finset MarkerType)) (itemFiles : Option (List String)) :
    Advances s (s.setItemPublishState item markers status keptTypes itemFiles).2 :=
  (s.setItemPublishState_spec item markers status keptTypes itemFiles).2.2.2.2.2

theorem advances_markItemGone (s : Records ι φ η) (item : ι) : Advances s (s.markItemGone item) := by
  cases hrow : s.items item with
  | none =>
    simp only [markItemGone, hrow]
    exact .refl s
  | some row =>
    simp only [markItemGone, hrow]
    split_ifs
    · refine .putItem fun old hold => ?_
      obtain rfl := Option.some.inj (hrow.symm.trans hold)
      exact Nat.lt_succ_self _
    · exact .refl s

/-- `mark_item_gone` is about items alone. -/
theorem markItemGone_files (s : Records ι φ η) (item : ι) :
    (s.markItemGone item).files = s.files ∧ (s.markItemGone item).basis = s.basis := by
  cases hrow : s.items item with
  | none => simp [markItemGone, hrow]
  | some row =>
    simp only [markItemGone, hrow]
    split_ifs
    · exact ⟨rfl, rfl⟩
    · exact ⟨rfl, rfl⟩

end Records

end MediaPreview.Publishers
