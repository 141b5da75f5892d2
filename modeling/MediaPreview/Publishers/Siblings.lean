import MediaPreview.Publishers.Publish

/-!
# Items written together

A multi-episode file has an item for each episode, and a write through one of them covers them all. Each
run of `_publish_to` holds its own item's lock from reading the records until the result is recorded, and
records the items written with it one after another. What `publisher.write` does is one whole write to
the server, so runs interleave at these points: taking the lock, the write, and each record.

The lock covers one item, and a run stores records of others: two runs through different items can write
in one order and record in the other (`records_overtaken`). Where a record is never stored after a later
write's, every item's record is what the last write that covered it returned, or that write's run has
still to store it (`RecordsFollow`); so when every run has finished the records follow the server
(`records_follow`). Runs through one item are always so (`inOrder_of_one_item`).
-/

namespace MediaPreview.Publishers

open Markers

variable {ι φ η : Type*}

/-- What a write left an item with: the item, ours on it, and its kept types. -/
abbrev Entry (ι : Type*) := ι × List Marker × Finset MarkerType

/-- Where a file's run stands. -/
inductive Phase (ι : Type*) where
  /-- No run. -/
  | idle
  /-- It holds its item's lock, and `publisher.write` has not returned. -/
  | reading (item : ι)
  /-- Its write was the `number`-th; the records left to store. -/
  | recording (item : ι) (number : ℕ) (itemFiles : Option (List String)) (left : List (Entry ι))

/-- The number of a run's write, with the records it has still to store. -/
def Phase.pending : Phase ι → Option (ℕ × List (Entry ι))
  | .idle => none
  | .reading _ => none
  | .recording _ number _ left => some (number, left)

/-- The runs of a server's files, and what they share. -/
structure Shared (ι φ η : Type*) where
  /-- The publish records. -/
  records : Records ι φ η
  /-- Where each file's run stands; one file's runs exclude each other. -/
  phase : φ → Phase ι
  /-- `_ITEM_LOCKS`: the file whose run holds an item's lock. -/
  holder : ι → Option φ
  /-- How many writes the server has taken. -/
  writes : ℕ
  /-- The last write that covered an item, with what it returned for it. -/
  returned : ι → Option (ℕ × List Marker × Finset MarkerType)

/-- Something a run does. -/
inductive Event (ι φ : Type*) where
  /-- It takes its item's lock. -/
  | start (file : φ) (item : ι)
  /-- It ends without a write: refused, up to date, or with nothing to send. -/
  | leave (file : φ)
  /-- Its write fails. -/
  | fail (file : φ)
  /-- Its write is done; the siblings are other items, each once. -/
  | write (file : φ) (result : WriteResult ι)
  /-- It stores the next of its records. -/
  | record (file : φ)

section Step

variable [DecidableEq ι] [DecidableEq φ]

/-- A run ends and gives its item's lock back. -/
def Shared.finish (g : Shared ι φ η) (file : φ) (item : ι) : Shared ι φ η :=
  { g with phase := Function.update g.phase file .idle
           holder := Function.update g.holder item none }

/-- What is known of each item once a write has covered some. -/
def Shared.afterWrite (g : Shared ι φ η) (entries : List (Entry ι)) (item : ι) :
    Option (ℕ × List Marker × Finset MarkerType) :=
  match entries.lookup item with
  | some result => some (g.writes, result)
  | none => g.returned item

/-- One event; `none` where it cannot happen. -/
def Shared.step (g : Shared ι φ η) : Event ι φ → Option (Shared ι φ η)
  | .start file item =>
    match g.phase file, g.holder item with
    | .idle, none => some { g with phase := Function.update g.phase file (.reading item)
                                   holder := Function.update g.holder item (some file) }
    | _, _ => none
  | .leave file =>
    match g.phase file with
    | .reading item => some (g.finish file item)
    | _ => none
  | .fail file =>
    match g.phase file with
    | .reading item => some { g.finish file item with
                                records := (g.records.setItemPublishState item none .failed none none).2 }
    | _ => none
  | .write file r =>
    match g.phase file with
    | .reading item =>
      let entries := (item, r.ours, r.kept) :: r.siblings
      if (entries.map (·.1)).Nodup then
        some { g with phase := Function.update g.phase file (.recording item g.writes r.itemFiles entries)
                      writes := g.writes + 1
                      returned := g.afterWrite entries }
      else none
    | _ => none
  | .record file =>
    match g.phase file with
    | .recording item number itemFiles (entry :: left) =>
      let stored := { g with records := g.records.recordWritten itemFiles entry }
      some (if left = [] then stored.finish file item
        else { stored with phase := Function.update g.phase file (.recording item number itemFiles left) })
    | _ => none

/-- Events one after another. -/
def Shared.run (g : Shared ι φ η) : List (Event ι φ) → Option (Shared ι φ η)
  | [] => some g
  | e :: es => (g.step e).bind fun g' => g'.run es

end Step

/-- No run yet, over any records. -/
def Shared.start (records : Records ι φ η) : Shared ι φ η where
  records := records
  phase _ := .idle
  holder _ := none
  writes := 0
  returned _ := none

/-! ### The records and the server -/

/-- The record of an item says what a write returned for it: ours, by type and time, and the kept types. -/
def Records.Says (s : Records ι φ η) (item : ι) (result : List Marker × Finset MarkerType) : Prop :=
  ∃ status, s.view item = some ⟨shownTimes (sortedByStart result.1), status, result.2⟩

/-- A run has still to store a record, of its write number `number`. -/
def Shared.Pending (g : Shared ι φ η) (file : φ) (number : ℕ) (entry : Entry ι) : Prop :=
  ∃ left, (g.phase file).pending = some (number, left) ∧ entry ∈ left

/-- The run of the last write that covered an item has still to record the item. -/
def Shared.Open (g : Shared ι φ η) (item : ι) : Prop :=
  ∃ number result file entry, g.returned item = some (number, result) ∧ g.Pending file number entry ∧ entry.1 = item

/-- An event stores no record of an item after a later write's. -/
def Shared.InOrder (g : Shared ι φ η) : Event ι φ → Prop
  | .record file => ∀ item number itemFiles entry left,
      g.phase file = .recording item number itemFiles (entry :: left) → g.Open entry.1
  | _ => True

/-- All the events of a run are as `P` says, each in the state it finds. -/
def Shared.Throughout [DecidableEq ι] [DecidableEq φ] (P : Shared ι φ η → Event ι φ → Prop) (g : Shared ι φ η) :
    List (Event ι φ) → Prop
  | [] => True
  | e :: es => ∀ g', g.step e = some g' → P g e ∧ g'.Throughout P es

/-- **What holds while the records are stored in order.** -/
structure RecordsFollow (g : Shared ι φ η) : Prop where
  /-- A run's write is one the server has taken. -/
  number_lt : ∀ file number left, (g.phase file).pending = some (number, left) → number < g.writes
  /-- A write is one run's. -/
  number_inj : ∀ file file' number left left', (g.phase file).pending = some (number, left) →
    (g.phase file').pending = some (number, left') → file = file'
  /-- So is one that covered an item. -/
  returned_lt : ∀ item number result, g.returned item = some (number, result) → number < g.writes
  /-- A run stores an item's record once. -/
  left_nodup : ∀ file number left, (g.phase file).pending = some (number, left) → (left.map (·.1)).Nodup
  /-- What it is to store is what its write returned. -/
  returned_eq : ∀ file number entry, g.Pending file number entry →
    ∀ result, g.returned entry.1 = some (number, result) → result = entry.2
  /-- An item's record is what the last write that covered it returned, or will be. -/
  says_or_pending : ∀ item number result, g.returned item = some (number, result) →
    g.records.Says item result ∨ ∃ file, g.Pending file number (item, result)

theorem recordsFollow_start (records : Records ι φ η) : RecordsFollow (Shared.start records) where
  number_lt _ _ _ h := by simp [Shared.start, Phase.pending] at h
  number_inj _ _ _ _ _ h := by simp [Shared.start, Phase.pending] at h
  returned_lt _ _ _ h := by simp [Shared.start] at h
  left_nodup _ _ _ h := by simp [Shared.start, Phase.pending] at h
  returned_eq _ _ _ _ _ h := by simp [Shared.start] at h
  says_or_pending _ _ _ h := by simp [Shared.start] at h

section Frame

variable [DecidableEq ι]

theorem says_of_ne {s : Records ι φ η} {item i : ι} {markers : Option (List Marker)} {status : ItemStatus}
    {kept : Option (Finset MarkerType)} {files : Option (List String)} {result : List Marker × Finset MarkerType}
    (hi : i ≠ item) (h : s.Says i result) : (s.setItemPublishState item markers status kept files).2.Says i result := by
  obtain ⟨-, -, hframe, -⟩ := s.setItemPublishState_spec item markers status kept files
  obtain ⟨hitems, hkept⟩ := hframe i hi
  obtain ⟨old, hview⟩ := h
  refine ⟨old, ?_⟩
  rw [← hview, Records.view, Records.view, hitems, hkept]

/-- A failed write leaves what the record says of ours and of the kept types. -/
theorem says_failed {s : Records ι φ η} {item i : ι} {result : List Marker × Finset MarkerType}
    (h : s.Says i result) : (s.setItemPublishState item none .failed none none).2.Says i result := by
  by_cases hi : i = item
  · subst hi
    obtain ⟨-, hview, -⟩ := s.setItemPublishState_spec i none .failed none none
    obtain ⟨old, hold⟩ := h
    obtain ⟨row, hrow, heq⟩ := Option.map_eq_some_iff.mp hold
    obtain ⟨hshown, -, hkept⟩ := Records.View.mk.inj heq
    refine ⟨.failed, hview.trans ?_⟩
    rw [Option.getD_none, hkept, ← hshown, Records.recorded, hrow]
    rfl
  · exact says_of_ne hi h

theorem says_recordWritten (s : Records ι φ η) (files : Option (List String)) (entry : Entry ι) :
    (s.recordWritten files entry).Says entry.1 entry.2 := by
  obtain ⟨-, hview, -⟩ := s.setItemPublishState_spec entry.1 (some entry.2.1) .written (some entry.2.2) files
  exact ⟨.written, hview⟩

end Frame

/-! ### One event -/

section Pending

variable {g g' : Shared ι φ η}

/-- What is to be stored, the writes and the answers are as before, and the records say no less. -/
theorem RecordsFollow.of_frame (h : RecordsFollow g) (hpending : ∀ f, (g'.phase f).pending = (g.phase f).pending)
    (hwrites : g'.writes = g.writes) (hreturned : g'.returned = g.returned)
    (hsaid : ∀ i result, g.records.Says i result → g'.records.Says i result) : RecordsFollow g' where
  number_lt f n l hp := by
    rw [hwrites]
    exact h.number_lt f n l ((hpending f).symm.trans hp)
  number_inj f f' n l l' hp hp' := h.number_inj f f' n l l' ((hpending f).symm.trans hp) ((hpending f').symm.trans hp')
  returned_lt i n r hr := by
    rw [hreturned] at hr
    rw [hwrites]
    exact h.returned_lt i n r hr
  left_nodup f n l hp := h.left_nodup f n l ((hpending f).symm.trans hp)
  returned_eq f n e hp r hr := by
    obtain ⟨l, hl, he⟩ := hp
    rw [hreturned] at hr
    exact h.returned_eq f n e ⟨l, (hpending f).symm.trans hl, he⟩ r hr
  says_or_pending i n r hr := by
    rw [hreturned] at hr
    rcases h.says_or_pending i n r hr with hs | ⟨f, l, hl, he⟩
    · exact .inl (hsaid i r hs)
    · exact .inr ⟨f, l, (hpending f).trans hl, he⟩

/-- What a run has to store was returned by the last write that covered the item. -/
def Shared.Answered (g : Shared ι φ η) : Prop :=
  ∀ file number entry, g.Pending file number entry → g.returned entry.1 = some (number, entry.2)

theorem answered_of_frame (h : g.Answered) (hpending : ∀ f, (g'.phase f).pending = (g.phase f).pending)
    (hreturned : g'.returned = g.returned) : g'.Answered := by
  rintro f n e ⟨l, hl, he⟩
  rw [hreturned]
  exact h f n e ⟨l, (hpending f).symm.trans hl, he⟩

variable [DecidableEq φ] {file : φ}

/-- A run that has nothing to store comes and goes without changing what is to be stored. -/
theorem pending_update {p : Phase ι} (hold : (g.phase file).pending = none) (hnew : p.pending = none) (f : φ) :
    (Function.update g.phase file p f).pending = (g.phase f).pending := by
  by_cases hf : f = file
  · subst hf
    rw [Function.update_self, hold, hnew]
  · rw [Function.update_of_ne hf]

theorem pending_update_self {p : Phase ι} {r : Option (ℕ × List (Entry ι))} (h : p.pending = r) :
    (Function.update g.phase file p file).pending = r := by
  rw [Function.update_self, h]

theorem pending_update_of_ne {p : Phase ι} {f : φ} {r : Option (ℕ × List (Entry ι))} (hf : f ≠ file)
    (h : (g.phase f).pending = r) : (Function.update g.phase file p f).pending = r := by
  rw [Function.update_of_ne hf, h]

theorem pending_update_cases {p : Phase ι} {f : φ} {number : ℕ} {left : List (Entry ι)}
    (h : (Function.update g.phase file p f).pending = some (number, left)) :
    (f = file ∧ p.pending = some (number, left)) ∨ (f ≠ file ∧ (g.phase f).pending = some (number, left)) := by
  by_cases hf : f = file
  · rw [hf, Function.update_self] at h
    exact .inl ⟨hf, h⟩
  · rw [Function.update_of_ne hf] at h
    exact .inr ⟨hf, h⟩

/-- The item whose lock a run holds. -/
def Phase.held : Phase ι → Option ι
  | .idle => none
  | .reading item => some item
  | .recording item _ _ _ => some item

/-- Every run there is holds the lock of `item`. -/
def Shared.HeldBy (g : Shared ι φ η) (item : ι) : Prop :=
  ∀ file item', (g.phase file).held = some item' → item' = item ∧ g.holder item = some file

theorem heldBy_update {item : ι} (h : g.HeldBy item) {p : Phase ι} (hp : p.held = (g.phase file).held) :
    Shared.HeldBy { g with phase := Function.update g.phase file p } item := by
  intro f i hf
  by_cases hfile : f = file
  · subst hfile
    simp only [Function.update_self, hp] at hf
    exact h f i hf
  · simp only [Function.update_of_ne hfile] at hf
    exact h f i hf

end Pending

section Runs

variable [DecidableEq ι] {g g' : Shared ι φ η}

theorem afterWrite_cases {entries : List (Entry ι)} {i : ι} {number : ℕ} {result : List Marker × Finset MarkerType}
    (h : g.afterWrite entries i = some (number, result)) :
    (number = g.writes ∧ (i, result) ∈ entries) ∨ g.returned i = some (number, result) := by
  rw [Shared.afterWrite] at h
  cases hl : entries.lookup i with
  | none => exact .inr (by simpa only [hl] using h)
  | some r =>
    simp only [hl, Option.some.injEq, Prod.mk.injEq] at h
    obtain ⟨l₁, l₂, rfl, -⟩ := List.lookup_eq_some_iff.mp hl
    exact .inl ⟨h.1.symm, by rw [← h.2]; simp⟩

theorem afterWrite_of_mem {entries : List (Entry ι)} {e : Entry ι} (hnodup : (entries.map (·.1)).Nodup)
    (he : e ∈ entries) : g.afterWrite entries e.1 = some (g.writes, e.2) := by
  rw [Shared.afterWrite]
  cases hl : entries.lookup e.1 with
  | none =>
    have hne := List.lookup_eq_none_iff.mp hl e he
    exact absurd hne (by simp)
  | some r =>
    obtain ⟨l₁, l₂, hsplit, -⟩ := List.lookup_eq_some_iff.mp hl
    have hmem : (e.1, r) ∈ entries := by
      rw [hsplit]
      simp
    have heq : (e.1, r) = e := List.inj_on_of_nodup_map hnodup hmem he rfl
    rw [← heq]

variable [DecidableEq φ] {file : φ} {item : ι}

/-- **A write** returns something for every item it covers, which its run is to store. -/
theorem RecordsFollow.write (h : RecordsFollow g) (files : Option (List String)) {entries : List (Entry ι)}
    (hreading : (g.phase file).pending = none) (hnodup : (entries.map (·.1)).Nodup) :
    RecordsFollow { g with phase := Function.update g.phase file (.recording item g.writes files entries)
                           writes := g.writes + 1
                           returned := g.afterWrite entries } := by
  have hcases : ∀ {f n l}, (Function.update g.phase file (.recording item g.writes files entries) f).pending = some (n, l) →
      (f = file ∧ n = g.writes ∧ l = entries) ∨ (f ≠ file ∧ (g.phase f).pending = some (n, l)) := by
    intro f n l hp
    refine (pending_update_cases hp).imp_left fun hnew => ⟨hnew.1, ?_⟩
    rw [Phase.pending, Option.some.injEq, Prod.mk.injEq] at hnew
    exact ⟨hnew.2.1.symm, hnew.2.2.symm⟩
  refine ⟨fun f n l hp => ?_, fun f f' n l l' hp hp' => ?_, fun i n r hr => ?_, fun f n l hp => ?_,
    fun f n e hp r hr => ?_, fun i n r hr => ?_⟩
  · rcases hcases hp with ⟨-, hn, -⟩ | ⟨-, hp⟩
    · exact hn ▸ Nat.lt_succ_self _
    · exact (h.number_lt f n l hp).trans (Nat.lt_succ_self _)
  · rcases hcases hp with ⟨hf, hn, -⟩ | ⟨-, hp⟩ <;> rcases hcases hp' with ⟨hf', hn', -⟩ | ⟨-, hp'⟩
    · exact hf.trans hf'.symm
    · exact absurd (h.number_lt f' n l' hp') (by omega)
    · exact absurd (h.number_lt f n l hp) (by omega)
    · exact h.number_inj f f' n l l' hp hp'
  · rcases afterWrite_cases hr with ⟨hn, -⟩ | hold
    · exact hn ▸ Nat.lt_succ_self _
    · exact (h.returned_lt i n r hold).trans (Nat.lt_succ_self _)
  · rcases hcases hp with ⟨-, -, hl⟩ | ⟨-, hp⟩
    · exact hl ▸ hnodup
    · exact h.left_nodup f n l hp
  · obtain ⟨l, hp, he⟩ := hp
    rcases hcases hp with ⟨-, hn, hl⟩ | ⟨-, hp⟩
    · rcases afterWrite_cases hr with ⟨-, hmem⟩ | hold
      · have heq : (e.1, r) = e := List.inj_on_of_nodup_map hnodup hmem (hl ▸ he) rfl
        exact congrArg Prod.snd heq
      · exact absurd (h.returned_lt _ _ _ hold) (by omega)
    · rcases afterWrite_cases hr with ⟨hn, -⟩ | hold
      · exact absurd (h.number_lt f n l hp) (by omega)
      · exact h.returned_eq f n e ⟨l, hp, he⟩ r hold
  · rcases afterWrite_cases hr with ⟨hn, hmem⟩ | hold
    · exact .inr ⟨file, entries, pending_update_self (by rw [Phase.pending, hn]), hmem⟩
    · refine (h.says_or_pending i n r hold).imp_right ?_
      rintro ⟨f, l, hl, he⟩
      have hf : f ≠ file := by
        rintro rfl
        simp [hreading] at hl
      exact ⟨f, l, pending_update_of_ne hf hl, he⟩

/-- **A record stored in order**: the item's own last answer, or one that will be stored over. -/
theorem RecordsFollow.record (h : RecordsFollow g) (files : Option (List String)) {number : ℕ} {entry : Entry ι}
    {left : List (Entry ι)} (hp : (g.phase file).pending = some (number, entry :: left)) (hopen : g.Open entry.1)
    {p : Phase ι} (hnew : p.pending = some (number, left) ∨ (left = [] ∧ p.pending = none))
    (hg' : g' = { g with records := g.records.recordWritten files entry, phase := g'.phase, holder := g'.holder })
    (hphase : g'.phase = Function.update g.phase file p) : RecordsFollow g' := by
  have hcases : ∀ {f n l}, (g'.phase f).pending = some (n, l) →
      (f = file ∧ n = number ∧ l = left) ∨ (f ≠ file ∧ (g.phase f).pending = some (n, l)) := by
    intro f n l hpend
    rw [hphase] at hpend
    refine (pending_update_cases hpend).imp_left fun hself => ⟨hself.1, ?_⟩
    rcases hnew with hsome | ⟨-, hnone⟩
    · simpa [hsome, eq_comm] using hself.2
    · simp [hnone] at hself
  have hwrites : g'.writes = g.writes := by rw [hg']
  have hreturned : g'.returned = g.returned := by rw [hg']
  have hrecords : g'.records = g.records.recordWritten files entry := by rw [hg']
  refine ⟨fun f n l hpend => ?_, fun f f' n l l' hpend hpend' => ?_, fun i n r hr => ?_, fun f n l hpend => ?_,
    fun f n e hpend r hr => ?_, fun i n r hr => ?_⟩
  · rw [hwrites]
    rcases hcases hpend with ⟨-, hn, -⟩ | ⟨-, hpend⟩
    · exact hn ▸ h.number_lt file number _ hp
    · exact h.number_lt f n l hpend
  · rcases hcases hpend with ⟨hf, hn, -⟩ | ⟨-, hpend⟩ <;> rcases hcases hpend' with ⟨hf', hn', -⟩ | ⟨-, hpend'⟩
    · exact hf.trans hf'.symm
    · exact hf.trans (h.number_inj file f' n _ l' (hn ▸ hp) hpend')
    · exact (h.number_inj f file n l _ hpend (hn' ▸ hp)).trans hf'.symm
    · exact h.number_inj f f' n l l' hpend hpend'
  · rw [hreturned] at hr
    rw [hwrites]
    exact h.returned_lt i n r hr
  · rcases hcases hpend with ⟨-, -, hl⟩ | ⟨-, hpend⟩
    · exact hl ▸ (List.nodup_cons.mp (h.left_nodup file number _ hp)).2
    · exact h.left_nodup f n l hpend
  · rw [hreturned] at hr
    obtain ⟨l, hl, he⟩ := hpend
    rcases hcases hl with ⟨-, hn, hleft⟩ | ⟨-, hl⟩
    · exact h.returned_eq file n e ⟨_, hn ▸ hp, .tail _ (hleft ▸ he)⟩ r hr
    · exact h.returned_eq f n e ⟨l, hl, he⟩ r hr
  · rw [hreturned] at hr
    rw [hrecords]
    by_cases hi : i = entry.1
    · subst hi
      obtain ⟨m, r', f, e, hr', hpend, he⟩ := hopen
      obtain ⟨rfl, rfl⟩ : m = n ∧ r' = r := by simpa using hr'.symm.trans hr
      have hans := h.returned_eq f m e hpend r' (by rw [he]; exact hr)
      obtain ⟨l, hl, hel⟩ := hpend
      by_cases hf : f = file
      · -- the run's own write was the last to cover the item
        subst hf
        obtain ⟨hm, hcons⟩ : number = m ∧ entry :: left = l := by simpa using hp.symm.trans hl
        have hown : e = entry := List.inj_on_of_nodup_map (h.left_nodup f m l hl) hel (hcons ▸ .head _) he
        rw [hans, hown]
        exact .inl (says_recordWritten ..)
      · -- the last write's run stores its own over it
        refine .inr ⟨f, l, by rw [hphase, Function.update_of_ne hf, hl], ?_⟩
        rw [← he, hans]
        exact hel
    · rcases h.says_or_pending i n r hr with hs | ⟨f, l, hl, hmem⟩
      · exact .inl (says_of_ne hi hs)
      · by_cases hf : f = file
        · subst hf
          obtain ⟨hn, hcons⟩ : number = n ∧ entry :: left = l := by simpa using hp.symm.trans hl
          have hleft : (i, r) ∈ left := by
            rcases List.mem_cons.mp (hcons ▸ hmem) with heq | hmem
            · exact absurd (congrArg Prod.fst heq) hi
            · exact hmem
          rcases hnew with hsome | ⟨hnil, -⟩
          · exact .inr ⟨f, left, by rw [hphase, Function.update_self, hsome, hn], hleft⟩
          · exact absurd (hnil ▸ hleft) List.not_mem_nil
        · exact .inr ⟨f, l, by rw [hphase, Function.update_of_ne hf, hl], hmem⟩

/-- **One event in order.** -/
theorem RecordsFollow.step (h : RecordsFollow g) {e : Event ι φ} (hin : g.InOrder e) (hs : g.step e = some g') :
    RecordsFollow g' := by
  cases e with
  | start file item =>
    rw [Shared.step] at hs
    split at hs
    · next hidle _ =>
      obtain rfl := Option.some.inj hs
      exact h.of_frame (pending_update (by rw [hidle]; rfl) rfl) rfl rfl fun _ _ => id
    · exact absurd hs (by simp)
  | leave file =>
    rw [Shared.step] at hs
    split at hs
    · next item hreading =>
      obtain rfl := Option.some.inj hs
      exact h.of_frame (pending_update (by rw [hreading]; rfl) rfl) rfl rfl fun _ _ => id
    · exact absurd hs (by simp)
  | fail file =>
    rw [Shared.step] at hs
    split at hs
    · next item hreading =>
      obtain rfl := Option.some.inj hs
      exact h.of_frame (pending_update (by rw [hreading]; rfl) rfl) rfl rfl fun _ _ => says_failed
    · exact absurd hs (by simp)
  | write file r =>
    rw [Shared.step] at hs
    split at hs
    · next item hreading =>
      dsimp only at hs
      split_ifs at hs with hnodup
      obtain rfl := Option.some.inj hs
      exact h.write r.itemFiles (by rw [hreading]; rfl) hnodup
    · exact absurd hs (by simp)
  | record file =>
    rw [Shared.step] at hs
    split at hs
    · next item number files entry left hrecording =>
      have hp : (g.phase file).pending = some (number, entry :: left) := by rw [hrecording]; rfl
      have hopen := hin item number files entry left hrecording
      obtain rfl := Option.some.inj hs
      dsimp only
      split_ifs with hleft
      · exact h.record files hp hopen (.inr ⟨hleft, rfl⟩) rfl rfl
      · exact h.record files hp hopen (.inl rfl) rfl rfl
    · exact absurd hs (by simp)

theorem RecordsFollow.run {events : List (Event ι φ)} (h : RecordsFollow g) (hin : g.Throughout Shared.InOrder events)
    (hs : g.run events = some g') : RecordsFollow g' := by
  induction events generalizing g with
  | nil => exact Option.some.inj hs ▸ h
  | cons e es ih =>
    obtain ⟨g₁, hstep, hrun⟩ := Option.bind_eq_some_iff.mp hs
    obtain ⟨horder, hrest⟩ := hin g₁ hstep
    exact ih (h.step horder hstep) hrest hrun

/-- **The records follow the server** in every run whose records are stored in order. Each item's record is what the
last write that covered it returned for it, or that write's run has still to store it; and once every run has
finished it is what the write returned. -/
theorem records_follow (records : Records ι φ η) (events : List (Event ι φ)) (g : Shared ι φ η)
    (hrun : (Shared.start records).run events = some g) (hin : (Shared.start records).Throughout Shared.InOrder events) :
    (∀ item number result, g.returned item = some (number, result) →
        g.records.Says item result ∨ ∃ file, g.Pending file number (item, result)) ∧
      ((∀ file, g.phase file = .idle) → ∀ item number result, g.returned item = some (number, result) →
        g.records.Says item result) := by
  have h := (recordsFollow_start records).run hin hrun
  refine ⟨h.says_or_pending, fun hidle item number result hr => ?_⟩
  rcases h.says_or_pending item number result hr with hs | ⟨file, left, hp, -⟩
  · exact hs
  · simp [hidle file, Phase.pending] at hp

/-! ### Runs that are in order -/

/-- What an invariant makes of the events, it makes of a run. -/
theorem Throughout.imp {P Q : Shared ι φ η → Event ι φ → Prop} {I : Shared ι φ η → Prop} {events : List (Event ι φ)}
    (hstep : ∀ g e g', I g → P g e → g.step e = some g' → I g')
    (hPQ : ∀ g e g', I g → P g e → g.step e = some g' → Q g e) (hI : I g) (h : g.Throughout P events) :
    g.Throughout Q events := by
  induction events generalizing g with
  | nil => trivial
  | cons e es ih =>
    intro g' hs
    obtain ⟨hP, hrest⟩ := h g' hs
    exact ⟨hPQ g e g' hI hP hs, ih (hstep g e g' hI hP hs) hrest⟩

/-- No run writes while another has records to store. -/
def Shared.WritesAlone (g : Shared ι φ η) : Event ι φ → Prop
  | .write file _ => ∀ f, f ≠ file → (g.phase f).pending = none
  | _ => True

theorem answered_step {e : Event ι φ} (h : g.Answered) (halone : g.WritesAlone e) (hs : g.step e = some g') :
    g'.Answered := by
  cases e with
  | start file item =>
    rw [Shared.step] at hs
    split at hs
    · next hidle _ =>
      obtain rfl := Option.some.inj hs
      exact answered_of_frame h (pending_update (by rw [hidle]; rfl) rfl) rfl
    · exact absurd hs (by simp)
  | leave file =>
    rw [Shared.step] at hs
    split at hs
    · next item hreading =>
      obtain rfl := Option.some.inj hs
      exact answered_of_frame h (pending_update (by rw [hreading]; rfl) rfl) rfl
    · exact absurd hs (by simp)
  | fail file =>
    rw [Shared.step] at hs
    split at hs
    · next item hreading =>
      obtain rfl := Option.some.inj hs
      exact answered_of_frame h (pending_update (by rw [hreading]; rfl) rfl) rfl
    · exact absurd hs (by simp)
  | write file r =>
    rw [Shared.step] at hs
    split at hs
    · next item hreading =>
      dsimp only at hs
      split_ifs at hs with hnodup
      obtain rfl := Option.some.inj hs
      rintro f n e ⟨l, hl, he⟩
      rcases pending_update_cases hl with ⟨-, hnew⟩ | ⟨hf, hold⟩
      · obtain ⟨rfl, rfl⟩ : g.writes = n ∧ (item, r.ours, r.kept) :: r.siblings = l := by
          simpa [Phase.pending] using hnew
        exact afterWrite_of_mem hnodup he
      · rw [halone f hf] at hold
        exact absurd hold (by simp)
    · exact absurd hs (by simp)
  | record file =>
    rw [Shared.step] at hs
    split at hs
    · next item number files entry left hrecording =>
      have hp : (g.phase file).pending = some (number, entry :: left) := by rw [hrecording]; rfl
      obtain rfl := Option.some.inj hs
      dsimp only
      split_ifs with hleft
      · rintro f n e ⟨l, hl, he⟩
        rcases pending_update_cases hl with ⟨-, hnew⟩ | ⟨-, hold⟩
        · simp [Phase.pending] at hnew
        · exact h f n e ⟨l, hold, he⟩
      · rintro f n e ⟨l, hl, he⟩
        rcases pending_update_cases hl with ⟨-, hnew⟩ | ⟨-, hold⟩
        · obtain ⟨rfl, rfl⟩ : number = n ∧ left = l := by simpa [Phase.pending] using hnew
          exact h file number e ⟨_, hp, .tail _ he⟩
        · exact h f n e ⟨l, hold, he⟩
    · exact absurd hs (by simp)

/-- Runs that write alone store their records in order. -/
theorem inOrder_of_writesAlone {events : List (Event ι φ)} (h : g.Throughout Shared.WritesAlone events)
    (hg : g.Answered) : g.Throughout Shared.InOrder events := by
  refine Throughout.imp (fun _ _ _ hI hP hs => answered_step hI hP hs) (fun g e g' hI hP hs => ?_) hg h
  cases e with
  | record file =>
    intro item number files entry left hrecording
    have hpending : g.Pending file number entry := ⟨_, by rw [hrecording]; rfl, .head _⟩
    exact ⟨number, entry.2, file, entry, hI file number entry hpending, hpending, rfl⟩
  | _ => trivial

/-- An event starts no run but through `item`. -/
def StartsAt (item : ι) : Event ι φ → Prop
  | .start _ item' => item' = item
  | _ => True

theorem heldBy_finish (h : g.HeldBy item) {item' : ι} (hheld : (g.phase file).held = some item') :
    (g.finish file item').HeldBy item := by
  obtain ⟨rfl, hholder⟩ := h file item' hheld
  intro f i hf
  by_cases hfile : f = file
  · subst hfile
    simp [Shared.finish, Phase.held] at hf
  · simp only [Shared.finish, Function.update_of_ne hfile] at hf
    obtain ⟨-, hholder'⟩ := h f i hf
    exact absurd (Option.some.inj (hholder'.symm.trans hholder)) hfile

theorem heldBy_step {e : Event ι φ} (h : g.HeldBy item) (hat : StartsAt item e) (hs : g.step e = some g') :
    g'.HeldBy item := by
  cases e with
  | start file item' =>
    rw [Shared.step] at hs
    obtain rfl : item' = item := hat
    split at hs
    · next _ hfree =>
      obtain rfl := Option.some.inj hs
      intro f i hf
      by_cases hfile : f = file
      · subst hfile
        simp only [Function.update_self, Phase.held, Option.some.injEq] at hf
        exact ⟨hf.symm, Function.update_self ..⟩
      · simp only [Function.update_of_ne hfile] at hf
        exact absurd ((h f i hf).2.symm.trans hfree) (by simp)
    · exact absurd hs (by simp)
  | leave file =>
    rw [Shared.step] at hs
    split at hs
    · next item' hreading =>
      obtain rfl := Option.some.inj hs
      exact heldBy_finish h (by rw [hreading]; rfl)
    · exact absurd hs (by simp)
  | fail file =>
    rw [Shared.step] at hs
    split at hs
    · next item' hreading =>
      obtain rfl := Option.some.inj hs
      exact heldBy_finish h (by rw [hreading]; rfl)
    · exact absurd hs (by simp)
  | write file r =>
    rw [Shared.step] at hs
    split at hs
    · next item' hreading =>
      dsimp only at hs
      split_ifs at hs
      obtain rfl := Option.some.inj hs
      exact heldBy_update h (by rw [hreading]; rfl)
    · exact absurd hs (by simp)
  | record file =>
    rw [Shared.step] at hs
    split at hs
    · next item' number files entry left hrecording =>
      obtain rfl := Option.some.inj hs
      dsimp only
      split_ifs
      · exact heldBy_finish h (by rw [hrecording]; rfl)
      · exact heldBy_update h (by rw [hrecording]; rfl)
    · exact absurd hs (by simp)

/-- **What an item's lock protects**: runs that all go through one item store their records in order. -/
theorem inOrder_of_one_item (records : Records ι φ η) {events : List (Event ι φ)} (item : ι)
    (h : (Shared.start records).Throughout (fun _ => StartsAt item) events) :
    (Shared.start records).Throughout Shared.InOrder events := by
  refine inOrder_of_writesAlone (Throughout.imp (fun _ _ _ => heldBy_step) (fun g e g' hI _ hs => ?_) ?_ h) ?_
  · cases e with
    | write file r =>
      rw [Shared.step] at hs
      split at hs
      · next item' hreading =>
        have hmine := (hI file item' (by rw [hreading]; rfl)).2
        intro f hf
        cases hphase : g.phase f with
        | recording i number files left =>
          have hother := (hI f i (by rw [hphase]; rfl)).2
          exact absurd (Option.some.inj (hother.symm.trans hmine)) hf
        | idle => rfl
        | reading i => rfl
      · exact absurd hs (by simp)
    | _ => trivial
  · intro f i hf
    simp [Shared.start, Phase.held] at hf
  · rintro f n e ⟨l, hl, -⟩
    simp [Shared.start, Phase.pending] at hl

end Runs

/-! ### Two episodes of one file -/

/-- A write of an intro that ends at `stop`, to an episode and the other one. -/
def introOnBoth (stop : ℤ) (other : Bool) : WriteResult Bool :=
  ⟨[⟨.intro, 0, stop, ["chapters"], false⟩], ∅, true, none, [(other, [⟨.intro, 0, stop, ["chapters"], false⟩], ∅)]⟩

/-- Two version files run through an episode each: the second writes last and records first. -/
def overtaking : List (Event Bool Bool) :=
  [.start false false, .start true true, .write false (introOnBoth 60000 true), .write true (introOnBoth 90000 false),
    .record true, .record true, .record false, .record false]

/-- What these runs leave. -/
def overtaken : Shared Bool Bool Unit := ((Shared.start Records.empty).run overtaking).getD (Shared.start Records.empty)

/-- **A record can be stored after a later write's**: every run has finished, and an item's record is not what the
last write that covered it returned. -/
theorem records_overtaken : ¬ ∀ (events : List (Event Bool Bool)) (g : Shared Bool Bool Unit),
    (Shared.start Records.empty).run events = some g → (∀ file, g.phase file = .idle) →
      ∀ item number result, g.returned item = some (number, result) → g.records.Says item result := by
  intro h
  obtain ⟨status, hview⟩ := h overtaking overtaken rfl (fun file => by cases file <;> rfl) true 1
    ((introOnBoth 90000 false).ours, ∅) rfl
  have hshown : (overtaken.records.view true).map Records.View.shown = some [(.intro, 0, 90000)] := by
    rw [hview]
    rfl
  exact absurd hshown (by decide)

/-- Both files run through the first episode. -/
def throughOne : List (Event Bool Bool) :=
  [.start false false, .write false (introOnBoth 60000 true), .record false, .record false,
    .start true false, .write true (introOnBoth 90000 true), .record true, .record true]

/-- What these runs leave. -/
def inTurn : Shared Bool Bool Unit := ((Shared.start Records.empty).run throughOne).getD (Shared.start Records.empty)

theorem records_follow_inTurn : inTurn.records.Says true ((introOnBoth 90000 true).ours, ∅) :=
  (records_follow Records.empty throughOne inTurn rfl
    (inOrder_of_one_item Records.empty false (by simp [throughOne, Shared.Throughout, StartsAt]))).2
    (fun file => by cases file <;> rfl) true 1 _ rfl

end MediaPreview.Publishers
