import Mathlib.Logic.Function.Basic
import Mathlib.Order.Basic
import MediaPreview.Lib.Memo
import MediaPreview.Lib.Runs
import MediaPreview.Store.Noted

/-!
# Memoised reads of a shared store

Threads share a `MarkerStore`: each commits and rolls back transactions, and within `read_memo` reads through a memo of its
own (`read_memoised`, `_tx`, `_current_memo`). A commit and the move of the counters are one step; a memoised read is two,
the comparison of the memo's tag and the rest, with other threads' transactions between them. A value from the memo is
what the method itself would have returned when the read began, and one that is not in it is read now
(`fresh_of_run`).
-/

namespace MediaPreview.Store

/-! ### The store and its threads -/

/-- What a thread has of its own. -/
structure Thread where
  /-- `_local.writes`. -/
  writes : ℕ
  /-- The `read_memo` blocks it is in. -/
  depth : ℕ
  /-- `_local.memo` with `_local.memo_tag`. -/
  memo : Option (Memo (ℕ × ℕ) Read Answer)
  /-- The memoised read it is making, with the database as it was when that began. -/
  reading : Option (Read × Db)

/-- A store in use. -/
structure Shared where
  /-- `markers.db`. -/
  db : Db
  /-- `data_generation`. -/
  dataGeneration : ℕ
  /-- `season_generation`. -/
  seasonGeneration : ℕ
  /-- The threads. -/
  threads : ℕ → Thread

/-- A store as it is opened. -/
def Shared.opened (db : Db) : Shared := ⟨db, 0, 0, fun _ => ⟨0, 0, none, none⟩⟩

namespace Shared

variable (s : Shared)

/-- The store with another thread state. -/
def setThread (t : ℕ) (thread : Thread) : Shared := { s with threads := Function.update s.threads t thread }

/-- `(data_generation, writes)`. -/
def tag (t : ℕ) : ℕ × ℕ := (s.dataGeneration, (s.threads t).writes)

/-- The end of `_tx`, of a transaction that executed some statements. -/
def noteWrites (t : ℕ) (tx : Transaction) (executed : List Sql) : Shared :=
  let tables := executed.filterMap writtenTable
  if tables ≠ [] ∧ tx.cachedReadsUnchanged = false then
    let counted := s.setThread t { s.threads t with writes := (s.threads t).writes + 1 }
    if ∃ table ∈ tables, table ∈ readTables then
      { counted with
        dataGeneration := s.dataGeneration + 1
        seasonGeneration := if tx.seasonReadsUnchanged then s.seasonGeneration else s.seasonGeneration + 1 }
    else counted
  else s

/-- `read_memo` begins. -/
def enter (t : ℕ) : Shared :=
  let thread := s.threads t
  s.setThread t { thread with depth := thread.depth + 1, memo := some (thread.memo.getD .empty) }

/-- `read_memo` ends. -/
def leave (t : ℕ) : Shared :=
  let thread := s.threads t
  s.setThread t { thread with depth := thread.depth - 1, memo := if thread.depth ≤ 1 then none else thread.memo }

/-- `_current_memo`, of a read. -/
def beginRead (t : ℕ) (r : Read) : Shared :=
  let thread := s.threads t
  s.setThread t { thread with memo := thread.memo.map (·.refresh (s.tag t)), reading := some (r, s.db) }

/-- What the read a thread is making returns. -/
def returns (t : ℕ) : Option Answer :=
  (s.threads t).reading.map fun reading => ((s.threads t).memo.bind (·.find? reading.1)).getD (s.db.answer reading.1)

/-- The read is over, and its value kept. -/
def finishRead (t : ℕ) : Shared :=
  let thread := s.threads t
  let memo := match thread.reading with
    | none => thread.memo
    | some reading => thread.memo.map fun m => if (m.find? reading.1).isSome then m else m.add reading.1 (s.db.answer reading.1)
  s.setThread t { thread with memo := memo, reading := none }

end Shared

/-- What a thread does; nothing else while it is making a read. -/
inductive ThreadEvent where
  /-- It enters `read_memo`. -/
  | enter
  /-- It leaves it. -/
  | leave
  /-- It begins a memoised read. -/
  | beginRead (r : Read)
  /-- It ends it. -/
  | finishRead
  /-- It commits a transaction. -/
  | commit (tx : Transaction)
  /-- It rolls one back, after some of its statements. -/
  | rollback (tx : Transaction) (executed : ℕ)

/-- What an event makes of the store. -/
def Shared.step (s : Shared) (e : ℕ × ThreadEvent) : Option Shared :=
  match (s.threads e.1).reading with
  | some _ =>
    match e.2 with
    | .finishRead => some (s.finishRead e.1)
    | _ => none
  | none =>
    match e.2 with
    | .enter => some (s.enter e.1)
    | .leave => some (s.leave e.1)
    | .beginRead r => some (s.beginRead e.1 r)
    | .finishRead => none
    | .commit tx => (tx.apply s.db).map fun db => { s with db := db }.noteWrites e.1 tx (tx.statements s.db)
    | .rollback tx executed => some (s.noteWrites e.1 tx ((tx.statements s.db).take executed))

/-! ### What the counters tell -/

theorem setThread_self (s : Shared) (t : ℕ) (thread : Thread) : (s.setThread t thread).threads t = thread := by
  show Function.update s.threads t thread t = thread
  exact Function.update_self t thread s.threads

theorem setThread_of_ne (s : Shared) {t u : ℕ} (h : u ≠ t) (thread : Thread) :
    (s.setThread t thread).threads u = s.threads u := by
  show Function.update s.threads t thread u = s.threads u
  exact Function.update_of_ne h thread s.threads

/-- **What noting writes changes**: of the threads only how many writes the writing one made; the counters do not go back,
and the database stays. -/
structure Counted (t : ℕ) (s s' : Shared) : Prop where
  db : s'.db = s.db
  le : s.dataGeneration ≤ s'.dataGeneration
  writes_le : ∀ u, (s.threads u).writes ≤ (s'.threads u).writes
  memo : ∀ u, (s'.threads u).memo = (s.threads u).memo
  reading : ∀ u, (s'.threads u).reading = (s.threads u).reading

theorem counted_noteWrites (s : Shared) (t : ℕ) (tx : Transaction) (executed : List Sql) :
    Counted t s (s.noteWrites t tx executed) := by
  have hcounted : Counted t s (s.setThread t { s.threads t with writes := (s.threads t).writes + 1 }) := by
    refine ⟨rfl, le_rfl, fun u => ?_, fun u => ?_, fun u => ?_⟩
    · obtain rfl | hu := eq_or_ne u t
      · rw [setThread_self]
        exact Nat.le_succ _
      · rw [setThread_of_ne s hu]
    · obtain rfl | hu := eq_or_ne u t
      · rw [setThread_self]
      · rw [setThread_of_ne s hu]
    · obtain rfl | hu := eq_or_ne u t
      · rw [setThread_self]
      · rw [setThread_of_ne s hu]
  unfold Shared.noteWrites
  dsimp only
  by_cases hnoted : executed.filterMap writtenTable ≠ [] ∧ tx.cachedReadsUnchanged = false
  · rw [if_pos hnoted]
    by_cases hread : ∃ table ∈ executed.filterMap writtenTable, table ∈ readTables
    · rw [if_pos hread]
      exact ⟨rfl, Nat.le_succ _, hcounted.writes_le, hcounted.memo, hcounted.reading⟩
    · rw [if_neg hread]
      exact hcounted
  · rw [if_neg hnoted]
    exact ⟨rfl, le_rfl, fun u => le_rfl, fun u => rfl, fun u => rfl⟩

/-- What is noted moves the generation. -/
theorem lt_of_noted {s : Shared} {t : ℕ} {tx : Transaction} {executed : List Sql} (hpromise : tx.cachedReadsUnchanged = false)
    (h : Noted executed) : s.dataGeneration < (s.noteWrites t tx executed).dataGeneration := by
  obtain ⟨sql, hsql, table, hread, htable⟩ := h
  have hmem : table ∈ executed.filterMap writtenTable := List.mem_filterMap.2 ⟨sql, hsql, htable⟩
  unfold Shared.noteWrites
  dsimp only
  rw [if_pos ⟨List.ne_nil_of_mem hmem, hpromise⟩, if_pos ⟨table, hmem, hread⟩]
  exact Nat.lt_succ_self _

/-- **A commit that changes what a memoised method returns moves the generation.** -/
theorem lt_of_change {s s' : Shared} {t : ℕ} {tx : Transaction} (h : s.step (t, .commit tx) = some s') {r : Read}
    (hr : s'.db.answer r ≠ s.db.answer r) : s.dataGeneration < s'.dataGeneration := by
  unfold Shared.step at h
  dsimp only at h
  cases hreading : (s.threads t).reading with
  | some reading =>
    rw [hreading] at h
    cases h
  | none =>
    rw [hreading] at h
    obtain ⟨db, hdb, rfl⟩ := Option.map_eq_some_iff.1 h
    have hkept := (counted_noteWrites { s with db := db } t tx (tx.statements s.db)).db
    obtain hsame | ⟨hpromise, hnoted⟩ := noted_of_change hdb
    · refine absurd ?_ hr
      rw [hkept]
      show db.readTables.answer r = s.db.readTables.answer r
      rw [hsame]
    · exact lt_of_noted (s := { s with db := db }) hpromise hnoted

/-- **A commit elsewhere drops no other thread's cached reads.** -/
theorem dataGeneration_elsewhere {s s' : Shared} {t : ℕ} {statements : List ElsewhereStatement} {after : Elsewhere}
    (h : s.step (t, .commit (.elsewhere statements after)) = some s') : s'.dataGeneration = s.dataGeneration := by
  unfold Shared.step at h
  dsimp only at h
  cases hreading : (s.threads t).reading with
  | some reading =>
    rw [hreading] at h
    cases h
  | none =>
    rw [hreading] at h
    obtain ⟨db, -, rfl⟩ := Option.map_eq_some_iff.1 h
    have hunread : ¬ ∃ table ∈ (statements.map ElsewhereStatement.text).filterMap writtenTable, table ∈ readTables := by
      rintro ⟨table, htable, hread⟩
      rw [List.filterMap_map, List.mem_filterMap] at htable
      obtain ⟨e, -, he⟩ := htable
      obtain ⟨hwritten, hnot⟩ := e.writtenTable_text
      exact hnot (Option.some.inj (hwritten.symm.trans he) ▸ hread)
    unfold Shared.noteWrites
    dsimp only [Transaction.statements]
    rw [if_neg hunread]
    split_ifs <;> rfl

/-! ### Every run -/

/-- What the memos hold: under the present counters the present values, and of a thread that is making a read those of the
database as that began. -/
structure MemoInv (s : Shared) : Prop where
  sound : ∀ t m, (s.threads t).memo = some m → m.Sound s.db.answer (s.tag t)
  began : ∀ t r db m, (s.threads t).reading = some (r, db) → (s.threads t).memo = some m → m.Holds db.answer

theorem memoInv_opened (db : Db) : MemoInv (.opened db) :=
  ⟨fun t m h => (by cases h), fun t r db' m h => (by cases h)⟩

/-- A transaction leaves what the memos hold as good as it was, if it moves the generation or changes no value. -/
theorem MemoInv.counted {s s' : Shared} {db : Db} {t : ℕ} (h : MemoInv s) (hc : Counted t { s with db := db } s')
    (hsame : s'.dataGeneration = s.dataGeneration → ∀ r, db.answer r = s.db.answer r) : MemoInv s' := by
  constructor
  · intro u m hm
    rw [hc.memo u] at hm
    rw [hc.db]
    refine (h.sound u m hm).move ⟨hc.le, hc.writes_le u⟩ fun htag => hsame (congrArg Prod.fst htag)
  · intro u r began m hreading hm
    rw [hc.memo u] at hm
    rw [hc.reading u] at hreading
    exact h.began u r began m hreading hm

/-- What a thread does to its own memo leaves the others. -/
theorem MemoInv.thread {s : Shared} {t : ℕ} {thread : Thread} (h : MemoInv s)
    (hwrites : thread.writes = (s.threads t).writes)
    (hsound : ∀ m, thread.memo = some m → m.Sound s.db.answer (s.tag t))
    (hbegan : ∀ r db m, thread.reading = some (r, db) → thread.memo = some m → m.Holds db.answer) :
    MemoInv (s.setThread t thread) := by
  constructor
  · intro u m hm
    by_cases hu : u = t
    · subst hu
      rw [setThread_self] at hm
      have htag : (s.setThread u thread).tag u = s.tag u := by
        rw [Shared.tag, setThread_self, hwrites]
        rfl
      rw [htag]
      exact hsound m hm
    · rw [setThread_of_ne s hu] at hm
      have htag : (s.setThread t thread).tag u = s.tag u := by
        rw [Shared.tag, setThread_of_ne s hu]
        rfl
      rw [htag]
      exact h.sound u m hm
  · intro u r db m hreading hm
    by_cases hu : u = t
    · subst hu
      rw [setThread_self] at hreading hm
      exact hbegan r db m hreading hm
    · rw [setThread_of_ne s hu] at hreading hm
      exact h.began u r db m hreading hm

theorem MemoInv.enter {s : Shared} (h : MemoInv s) {t : ℕ} (hreading : (s.threads t).reading = none) :
    MemoInv (s.enter t) := by
  refine h.thread rfl (fun m hm => ?_) fun r db m hr => ?_
  · obtain rfl := Option.some.inj hm
    cases hmemo : (s.threads t).memo with
    | none => exact Memo.sound_empty _ _
    | some m => exact h.sound t m hmemo
  · exact absurd (hreading.symm.trans hr) (by simp)

theorem MemoInv.leave {s : Shared} (h : MemoInv s) {t : ℕ} (hreading : (s.threads t).reading = none) :
    MemoInv (s.leave t) := by
  refine h.thread rfl (fun m hm => ?_) fun r db m hr => ?_
  · dsimp only at hm
    split_ifs at hm
    exact h.sound t m hm
  · exact absurd (hreading.symm.trans hr) (by simp)

theorem MemoInv.beginRead {s : Shared} (h : MemoInv s) (t : ℕ) (r : Read) : MemoInv (s.beginRead t r) := by
  refine h.thread rfl (fun m hm => ?_) fun r' db m hr hm => ?_
  · obtain ⟨m, hmemo, rfl⟩ := Option.map_eq_some_iff.1 hm
    exact (h.sound t m hmemo).refresh.1
  · obtain ⟨m, hmemo, rfl⟩ := Option.map_eq_some_iff.1 hm
    obtain ⟨-, rfl⟩ := Prod.mk.inj (Option.some.inj hr)
    exact (h.sound t m hmemo).refresh.2

theorem MemoInv.finishRead {s : Shared} (h : MemoInv s) (t : ℕ) : MemoInv (s.finishRead t) := by
  refine h.thread rfl (fun m hm => ?_) fun r db m hr => (by cases hr)
  dsimp only at hm
  cases hreading : (s.threads t).reading with
  | none =>
    rw [hreading] at hm
    exact h.sound t m hm
  | some reading =>
    rw [hreading] at hm
    obtain ⟨m', hmemo, rfl⟩ := Option.map_eq_some_iff.1 hm
    split_ifs
    · exact h.sound t m' hmemo
    · exact (h.sound t m' hmemo).add reading.1

/-- **Each step keeps it.** -/
theorem MemoInv.step {s s' : Shared} {e : ℕ × ThreadEvent} (hs : s.step e = some s') (h : MemoInv s) : MemoInv s' := by
  obtain ⟨t, e⟩ := e
  have hgeneration : ∀ tx, e = .commit tx → ∀ r, s'.db.answer r ≠ s.db.answer r → s.dataGeneration < s'.dataGeneration := by
    rintro tx rfl r
    exact lt_of_change hs
  unfold Shared.step at hs
  dsimp only at hs
  cases hreading : (s.threads t).reading with
  | some reading =>
    rw [hreading] at hs
    cases e with
    | finishRead => exact Option.some.inj hs ▸ h.finishRead t
    | _ => cases hs
  | none =>
    rw [hreading] at hs
    cases e with
    | enter => exact Option.some.inj hs ▸ h.enter hreading
    | leave => exact Option.some.inj hs ▸ h.leave hreading
    | beginRead r => exact Option.some.inj hs ▸ h.beginRead t r
    | finishRead => cases hs
    | commit tx =>
      obtain ⟨db, hdb, rfl⟩ := Option.map_eq_some_iff.1 hs
      have hcounted := counted_noteWrites { s with db := db } t tx (tx.statements s.db)
      refine h.counted hcounted fun hsame r => ?_
      by_contra hne
      have hlt := hgeneration tx rfl r (hcounted.db ▸ hne)
      exact hlt.ne' hsame
    | rollback tx executed =>
      obtain rfl := Option.some.inj hs
      have hcounted : Counted t { s with db := s.db } (s.noteWrites t tx ((tx.statements s.db).take executed)) :=
        counted_noteWrites s t tx _
      exact h.counted hcounted fun _ _ => rfl

/-- **A memoised read is never stale**, in any interleaving: it returns what the method itself would have returned when the
read began or what it returns now, and so exactly that where nothing came between; and a commit that changes what a method
returns moves the generation. -/
theorem fresh_of_run {db : Db} {es : List (ℕ × ThreadEvent)} {s : Shared}
    (h : Runs Shared.step Any (.opened db) es s) :
    (∀ t r began answer, (s.threads t).reading = some (r, began) → s.returns t = some answer →
      answer = began.answer r ∨ answer = s.db.answer r) ∧
    (∀ t r s', s.step (t, .beginRead r) = some s' → s'.returns t = some (s.db.answer r)) ∧
    ∀ t tx s' r, s.step (t, .commit tx) = some s' → s'.db.answer r ≠ s.db.answer r →
      s.dataGeneration < s'.dataGeneration := by
  have hinv : MemoInv s := h.keeps (memoInv_opened db) fun _ _ _ _ hs hi => hi.step hs
  have hreturns : ∀ {s : Shared}, MemoInv s → ∀ t r began answer, (s.threads t).reading = some (r, began) →
      s.returns t = some answer → answer = began.answer r ∨ answer = s.db.answer r := by
    intro s hinv t r began answer hreading hreturns
    rw [Shared.returns, hreading] at hreturns
    obtain rfl := Option.some.inj hreturns
    cases hmemo : (s.threads t).memo with
    | none => exact .inr rfl
    | some m =>
      cases hfind : m.find? r with
      | none => exact .inr (by simp [hfind])
      | some v => exact .inl (by simpa [hfind] using (hinv.began t r began m hreading hmemo).find? hfind)
  refine ⟨hreturns hinv, fun t r s' hs => ?_, fun t tx s' r hs hr => lt_of_change hs hr⟩
  have hinv' := hinv.step hs
  unfold Shared.step at hs
  dsimp only at hs
  cases hreading : (s.threads t).reading with
  | some reading =>
    rw [hreading] at hs
    cases hs
  | none =>
    rw [hreading] at hs
    obtain rfl := Option.some.inj hs
    have hbegun : ((s.beginRead t r).threads t).reading = some (r, s.db) := by
      rw [Shared.beginRead, setThread_self]
    obtain ⟨answer, hanswer⟩ : ∃ answer, (s.beginRead t r).returns t = some answer := by
      rw [Shared.returns, hbegun]
      exact ⟨_, rfl⟩
    rw [hanswer]
    obtain hold | hnow := hreturns hinv' t r s.db answer hbegun hanswer
    · rw [hold]
    · rw [hnow]
      rfl

/-- One thread has read a failure that another then stores. -/
def rereading : List (ℕ × ThreadEvent) :=
  [(0, .enter), (0, .beginRead (.identityFailedAt .memberProbeFailures ⟨"/a.mkv", 1, 1⟩)), (0, .finishRead),
    (1, .commit (.recordIdentityFailure .memberProbeFailures ⟨"/a.mkv", 1, 1, "2026-01-02"⟩ "2025-01-02"))]

/-- Its next read returns the failure. -/
theorem fresh_rereading :
    let s := (exec Shared.step (.opened .empty) rereading).getD (.opened .empty)
    let read := Read.identityFailedAt .memberProbeFailures ⟨"/a.mkv", 1, 1⟩
    ((s.step (0, .beginRead read)).bind fun s' => s'.returns 0) = some (s.db.answer read) ∧
      s.db.answer read = .time (some "2026-01-02") := by
  intro s read
  have hsome : (exec Shared.step (.opened .empty) rereading).isSome = true := by decide +kernel
  have hrun : Runs Shared.step Any (.opened .empty) rereading s := by
    obtain ⟨s', hs'⟩ := Option.isSome_iff_exists.1 hsome
    have hs : s = s' := by simp only [s, hs', Option.getD_some]
    exact Runs.of_exec (fun _ _ _ => trivial) (hs ▸ hs')
  have hreading : (s.step (0, .beginRead read)).isSome = true := by decide +kernel
  obtain ⟨s', hs'⟩ := Option.isSome_iff_exists.1 hreading
  refine ⟨?_, rfl⟩
  rw [hs']
  exact (fresh_of_run hrun).2.1 0 read s' hs'

end MediaPreview.Store
