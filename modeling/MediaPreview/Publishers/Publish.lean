import MediaPreview.Publishers.Records

/-!
# Publishing a file to its item

One run of `_publish_to` (`markers/pipeline.py`) for a file and one server, from what it reads of the
records to what it stores: the item's lock is held throughout, so a run is one step. Everything the
records do not hold is the run's own input (`Attempt`): the checks before the write, what a look at the
server says of an item that seems unchanged, and the answer of `publisher.write`.

`outcome` is how the run ends and `publishTo` what it leaves. A run that writes stores the item's record,
the records of the items written with it, and then its basis; a run that fails or is refused clears its
basis (`publishTo_of_written`, `publishTo_of_not_written`).
-/

namespace MediaPreview.Publishers

open Markers Ranking

/-- What `publisher.write` returned, and left to be read of it. -/
structure WriteResult (ι : Type*) where
  /-- Ours on the item. -/
  ours : List Marker
  /-- `last_kept_types`. -/
  kept : Finset MarkerType
  /-- `last_write_changed`. -/
  changed : Bool
  /-- `last_item_files`. -/
  itemFiles : Option (List String)
  /-- `last_siblings`: the items written with it, with theirs and their kept types. -/
  siblings : List (ι × List Marker × Finset MarkerType)

/-- How `publisher.write` ends. -/
inductive WriteOutcome (ι : Type*) where
  /-- The file on disk is no longer the one analysed; nothing is asked of the server. -/
  | fileChanged
  /-- `ItemNotFoundError`. -/
  | notFound
  /-- Any other error: nothing was written. -/
  | failed
  /-- It returned. -/
  | written (result : WriteResult ι)

/-- What a run finds outside the records. -/
structure Attempt (ι : Type*) where
  /-- The status of the row a check before the write stops the run with, when one does. -/
  refused : Option FileStatus
  /-- `ctx.force`: a forced run always writes. -/
  force : Bool
  /-- `wanted`: the file's decided markers, this server's types only. -/
  wanted : List Marker
  /-- `kept_own`: some type is left to the server's own marker. -/
  keptOwn : Bool
  /-- Of an item that seems unchanged, the server shows something else than recorded. -/
  publishAgain : Bool
  /-- `publisher.atomic_writes`. -/
  atomicWrites : Bool
  /-- How `publisher.write` ends. -/
  write : WriteOutcome ι

/-- How a run ends. -/
inductive Outcome (ι : Type*) where
  /-- Nothing is stored. -/
  | nothing
  /-- `_not_written`, with the item its row names and its status. -/
  | notWritten (item : Option ι) (status : FileStatus)
  /-- The write failed: recorded on the item too. -/
  | failed (item : Option ι)
  /-- `publisher.write` returned. -/
  | written (result : WriteResult ι)

namespace Records

variable {ι φ η : Type*}

/-! ### Parts of a run -/

section Items

variable [DecidableEq ι]

/-- The record of an item a write covered. -/
def recordWritten (itemFiles : Option (List String)) (s : Records ι φ η) (entry : ι × List Marker × Finset MarkerType) :
    Records ι φ η :=
  (s.setItemPublishState entry.1 (some entry.2.1) .written (some entry.2.2) itemFiles).2

theorem recordWritten_foldl (itemFiles : Option (List String)) (l : List (ι × List Marker × Finset MarkerType))
    (s : Records ι φ η) : Advances s (l.foldl (recordWritten itemFiles) s) ∧
      (l.foldl (recordWritten itemFiles) s).files = s.files ∧ (l.foldl (recordWritten itemFiles) s).basis = s.basis := by
  induction l generalizing s with
  | nil => exact ⟨.refl s, rfl, rfl⟩
  | cons entry l ih =>
    obtain ⟨-, -, -, hf, hb, hadv⟩ :=
      s.setItemPublishState_spec entry.1 (some entry.2.1) .written (some entry.2.2) itemFiles
    obtain ⟨hadv', hf', hb'⟩ := ih (recordWritten itemFiles s entry)
    exact ⟨hadv.trans hadv', hf'.trans hf, hb'.trans hb⟩

/-- `moved`: the file's part still carries what it published on its old item. -/
def moved (s : Records ι φ η) (file : φ) (item : ι) : Bool :=
  (s.files file).any fun last => last.itemId.any (· ≠ item) && last.markers ≠ []

/-- `attempted_item`: until a write lands the old item is where the file's markers are. -/
def attemptedItem (s : Records ι φ η) (file : φ) (item : ι) : Option ι :=
  if s.moved file item then (s.files file).bind (·.itemId) else some item

/-- `_previous_on_item`: what this app last left on the item; `none` when unknown. -/
def previousOnItem (s : Records ι φ η) (item : ι) (atomicWrites : Bool) : Option (List Marker) :=
  match s.items item with
  | none => some []
  | some row => if row.status = .failed ∧ !atomicWrites then none else some row.markers

/-- `nothing_to_send`. -/
def nothingToSend (s : Records ι φ η) (file : φ) (item : ι) (a : Attempt ι) : Bool :=
  a.wanted = [] ∧ s.previousOnItem item a.atomicWrites = some [] ∧ !s.moved file item ∧
    ¬ ((s.items item).isSome ∧ s.keptTypes item ≠ ∅)

/-- What is recorded of the item and of those written with it, with the item's version. Where nothing was
sent another version's failed write stays on record. -/
def recordItems (s : Records ι φ η) (file : φ) (item : ι) (a : Attempt ι) (r : WriteResult ι) : ℕ × Records ι φ η :=
  match s.items item with
  | some row =>
    if s.nothingToSend file item a ∧ row.status ≠ .written then (row.version, s) else written
  | none => written
where
  /-- The write is recorded. -/
  written : ℕ × Records ι φ η :=
    let own := s.setItemPublishState item (some r.ours) .written (some r.kept) r.itemFiles
    (own.1, r.siblings.foldl (recordWritten r.itemFiles) own.2)

/-- The item's row is at least at the version a run takes for its basis. -/
theorem recordItems_spec (s : Records ι φ η) (file : φ) (item : ι) (a : Attempt ι) (r : WriteResult ι) :
    Advances s (s.recordItems file item a r).2 ∧ (s.recordItems file item a r).2.files = s.files ∧
      (s.recordItems file item a r).2.basis = s.basis ∧
      ∃ row, (s.recordItems file item a r).2.items item = some row ∧ (s.recordItems file item a r).1 ≤ row.version := by
  have hwritten : Advances s (recordItems.written s item r).2 ∧ (recordItems.written s item r).2.files = s.files ∧
      (recordItems.written s item r).2.basis = s.basis ∧
      ∃ row, (recordItems.written s item r).2.items item = some row ∧ (recordItems.written s item r).1 ≤ row.version := by
    obtain ⟨⟨own, hown, hversion⟩, -, -, hf, hb, hadv⟩ :=
      s.setItemPublishState_spec item (some r.ours) .written (some r.kept) r.itemFiles
    obtain ⟨hadv', hf', hb'⟩ := recordWritten_foldl r.itemFiles r.siblings
      (s.setItemPublishState item (some r.ours) .written (some r.kept) r.itemFiles).2
    obtain ⟨row, hrow, hle, -⟩ := hadv' item own hown
    exact ⟨hadv.trans hadv', hf'.trans hf, hb'.trans hb, row, hrow, hversion ▸ hle⟩
  cases hrow : s.items item with
  | none => simpa only [recordItems, hrow] using hwritten
  | some row =>
    simp only [recordItems, hrow]
    split_ifs
    · exact ⟨.refl s, rfl, rfl, row, hrow, le_rfl⟩
    · exact hwritten

end Items

section Files

variable [DecidableEq φ] {s : Records ι φ η} {file : φ}

/-- `_not_written`: the basis is cleared, and the row that does not know the item keeps the last one. -/
def notWritten (s : Records ι φ η) (file : φ) (item : Option ι) (status : FileStatus) : Records ι φ η :=
  (s.clearPublishBasis file).setPublishState file (item.orElse fun _ => (s.files file).bind (·.itemId)) none status

@[simp] theorem basis_setPublishState (s : Records ι φ η) (file : φ) (itemId : Option ι) (markers : Option (List Marker))
    (status : FileStatus) : (s.setPublishState file itemId markers status).basis = s.basis := rfl

@[simp] theorem basis_notWritten (s : Records ι φ η) (file : φ) (at' : Option ι) (status : FileStatus) :
    (s.notWritten file at' status).basis = Function.update s.basis file none := rfl

theorem advances_notWritten (s : Records ι φ η) (file : φ) (at' : Option ι) (status : FileStatus) :
    Advances s (s.notWritten file at' status) := .of_eq rfl rfl

theorem files_notWritten_of_ne {other : φ} (h : other ≠ file) (at' : Option ι) (status : FileStatus) :
    (s.notWritten file at' status).files other = s.files other := Function.update_of_ne h ..

end Files

section Unchanged

variable [DecidableEq ι] [DecidableEq η] {s : Records ι φ η} {file : φ} {item : ι}

/-- `_unchanged`: neither the file's decided set nor the item changed since the file last published
there. -/
def unchanged (s : Records ι φ η) (file : φ) (item : ι) (decidedHash : η) (itemVersion : ℕ) : Bool :=
  (s.files file).any (fun last => last.itemId = some item ∧ last.status = .written) ∧
    s.basis file = some (decidedHash, itemVersion)

theorem unchanged_iff {decidedHash : η} {version : ℕ} : s.unchanged file item decidedHash version = true ↔
    (∃ last, s.files file = some last ∧ last.itemId = some item ∧ last.status = .written) ∧
      s.basis file = some (decidedHash, version) := by
  simp [unchanged, Option.any_eq_true]

end Unchanged

/-! ### A run -/

variable [DecidableEq ι] [DecidableEq φ] [DecidableEq η]

/-- The item seems unchanged, and nothing the run looks at says otherwise. -/
def upToDate (s : Records ι φ η) (file : φ) (item : ι) (decidedHash : η) (a : Attempt ι) : Bool :=
  !a.force && (s.items item).any fun row =>
    s.unchanged file item decidedHash row.version && ((row.markers = [] ∧ s.keptTypes item = ∅) || !a.publishAgain)

/-- How a run of a file ends on an item. -/
def outcome (hash : List Marker → η) (s : Records ι φ η) (file : φ) (item : ι) (a : Attempt ι) : Outcome ι :=
  match a.refused with
  | some status => .notWritten none status
  | none =>
    if s.upToDate file item (hash a.wanted) a then .nothing
    else if s.nothingToSend file item a ∧ !a.keptOwn then .nothing
    else
      match a.write with
      | .fileChanged => .nothing
      | .notFound => .notWritten (s.attemptedItem file item) .waiting
      | .failed => .failed (s.attemptedItem file item)
      | .written result => .written result

/-- What a run stores after `publisher.write` returned. -/
def published (hash : List Marker → η) (s : Records ι φ η) (file : φ) (item : ι) (a : Attempt ι) (r : WriteResult ι) :
    Records ι φ η :=
  let stored := s.recordItems file item a r
  if !r.changed ∧ s.unchanged file item (hash a.wanted) stored.1 then stored.2
  else (stored.2.setPublishBasis file (hash a.wanted) stored.1).setPublishState file (some item)
    (some (sortedByStart r.ours)) .written

/-- `_publish_to`. -/
def publishTo (hash : List Marker → η) (s : Records ι φ η) (file : φ) (item : ι) (a : Attempt ι) : Records ι φ η :=
  match s.outcome hash file item a with
  | .nothing => s
  | .notWritten at' status => s.notWritten file at' status
  | .failed at' => (s.setItemPublishState item none .failed none none).2.notWritten file at' .failed
  | .written result => s.published hash file item a result

/-! ### What a run leaves -/

variable {hash : List Marker → η} {s : Records ι φ η} {file : φ} {item : ι} {a : Attempt ι}

/-- **A run that wrote** has as its basis what it decided, at no later version than the item's row has. -/
theorem publishTo_of_written {r : WriteResult ι} (h : s.outcome hash file item a = .written r) :
    ∃ version row, (s.publishTo hash file item a).basis file = some (hash a.wanted, version) ∧
      ((s.publishTo hash file item a).files file).bind (·.itemId) = some item ∧
      (s.publishTo hash file item a).items item = some row ∧ version ≤ row.version := by
  obtain ⟨-, hf, hb, row, hrow, hle⟩ := s.recordItems_spec file item a r
  refine ⟨(s.recordItems file item a r).1, row, ?_⟩
  simp only [publishTo, h, published]
  by_cases hsame : !r.changed ∧ s.unchanged file item (hash a.wanted) (s.recordItems file item a r).1 = true
  · obtain ⟨⟨last, hlast, hitem, -⟩, hbasis⟩ := unchanged_iff.mp hsame.2
    rw [if_pos hsame, hf, hb, hbasis, hlast]
    exact ⟨rfl, hitem, hrow, hle⟩
  · rw [if_neg hsame]
    exact ⟨by simp [setPublishState, setPublishBasis], by simp [setPublishState], hrow, hle⟩

/-- **A run that did not write** leaves the file's basis and item, or no basis. -/
theorem publishTo_of_not_written (h : ∀ r, s.outcome hash file item a ≠ .written r) :
    (s.publishTo hash file item a).basis file = none ∨ s.publishTo hash file item a = s := by
  cases ho : s.outcome hash file item a with
  | nothing => exact .inr (by simp only [publishTo, ho])
  | notWritten at' status => exact .inl (by simp [publishTo, ho])
  | failed at' => exact .inl (by simp [publishTo, ho])
  | written r => exact absurd ho (h r)

/-- A run says nothing about another file. -/
theorem publishTo_of_ne {other : φ} (h : other ≠ file) :
    (s.publishTo hash file item a).basis other = s.basis other ∧
      (s.publishTo hash file item a).files other = s.files other := by
  cases ho : s.outcome hash file item a with
  | nothing => simp only [publishTo, ho, and_self]
  | notWritten at' status =>
    simp only [publishTo, ho]
    exact ⟨Function.update_of_ne h .., files_notWritten_of_ne h ..⟩
  | failed at' =>
    obtain ⟨-, -, -, hf, hb, -⟩ := s.setItemPublishState_spec item none .failed none none
    simp only [publishTo, ho]
    rw [files_notWritten_of_ne h, hf, basis_notWritten, hb]
    exact ⟨Function.update_of_ne h .., rfl⟩
  | written r =>
    obtain ⟨-, hf, hb, -⟩ := s.recordItems_spec file item a r
    simp only [publishTo, ho, published]
    split_ifs
    · rw [hf, hb]
      exact ⟨rfl, rfl⟩
    · simp [setPublishState, setPublishBasis, h, hf, hb]

theorem advances_publishTo (hash : List Marker → η) (s : Records ι φ η) (file : φ) (item : ι) (a : Attempt ι) :
    Advances s (s.publishTo hash file item a) := by
  cases ho : s.outcome hash file item a with
  | nothing =>
    simp only [publishTo, ho]
    exact .refl s
  | notWritten at' status =>
    simp only [publishTo, ho]
    exact advances_notWritten _ file at' status
  | failed at' =>
    simp only [publishTo, ho]
    exact (s.advances_setItemPublishState item none .failed none none).trans (advances_notWritten _ file at' .failed)
  | written r =>
    obtain ⟨hadv, -⟩ := s.recordItems_spec file item a r
    simp only [publishTo, ho, published]
    split_ifs
    · exact hadv
    · exact hadv.trans (.of_eq rfl rfl)

end Records

end MediaPreview.Publishers
