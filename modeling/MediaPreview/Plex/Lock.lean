import MediaPreview.Lib.Parties
import MediaPreview.Lib.Ranking
import Mathlib.Logic.Relation

/-!
# The lock on Plex's database

`_DatabaseLock`: this process's reader/writer lock on one database file, and the threads that take it. Every method
is one critical section of its condition, so a step is one of them: of `acquire`, one check of its predicate, at
which the thread enters, gives up or sleeps.

A thread that takes the lock exclusively first queues, and is in the queue until it dequeues, with the lock or
without. The counters the lock keeps are the threads' places counted (`Inv`), and no thread sleeps on a predicate
that holds: every step that makes one true wakes everybody (`Step.inv`).
-/

namespace MediaPreview.Plex

open Parties Relation

/-! ### The lock -/

/-- The fields of `_DatabaseLock` its condition guards. -/
structure DatabaseLock where
  /-- `_readers`. -/
  readers : ℤ
  /-- `_writer`. -/
  writer : Bool
  /-- `_writers_waiting`. -/
  writersWaiting : ℤ
  deriving DecidableEq, Repr

namespace DatabaseLock

/-- `__init__`. -/
def init : DatabaseLock := ⟨0, false, 0⟩

/-- `_can_enter`. -/
def canEnter (l : DatabaseLock) (shared : Bool) : Bool :=
  if l.writer then false else if shared then l.writersWaiting = 0 else l.readers = 0

/-- `acquire`, once its predicate holds. -/
def enter (l : DatabaseLock) (shared : Bool) : DatabaseLock :=
  if shared then { l with readers := l.readers + 1 } else { l with writer := true }

/-- `release`. -/
def release (l : DatabaseLock) (shared : Bool) : DatabaseLock :=
  if shared then { l with readers := l.readers - 1 } else { l with writer := false }

/-- `queue_exclusive`. -/
def queueExclusive (l : DatabaseLock) : DatabaseLock := { l with writersWaiting := l.writersWaiting + 1 }

/-- `dequeue_exclusive`. -/
def dequeueExclusive (l : DatabaseLock) : DatabaseLock := { l with writersWaiting := l.writersWaiting - 1 }

/-- `locked`. -/
def locked (l : DatabaseLock) : Bool := l.writer || 0 < l.readers

theorem canEnter_shared_iff {l : DatabaseLock} : l.canEnter true = true ↔ l.writer = false ∧ l.writersWaiting = 0 := by
  cases hw : l.writer <;> simp [canEnter, hw]

theorem canEnter_exclusive_iff {l : DatabaseLock} : l.canEnter false = true ↔ l.writer = false ∧ l.readers = 0 := by
  cases hw : l.writer <;> simp [canEnter, hw]

end DatabaseLock

/-! ### The threads -/

/-- Where a thread is. -/
inductive Place where
  /-- Outside the lock. -/
  | idle
  /-- Between `queue_exclusive` and `dequeue_exclusive`, without the lock and not in `acquire`. -/
  | queued
  /-- In `acquire`, asleep on its condition. -/
  | asleep (shared : Bool)
  /-- In `acquire`, notified or timed out, to check its predicate again. -/
  | woken (shared : Bool)
  /-- With the lock exclusively, still to dequeue. -/
  | entered
  /-- With the lock. -/
  | holding (shared : Bool)
  deriving DecidableEq, Repr

namespace Place

/-- Holds the lock shared. -/
def isReading : Place → Bool
  | holding true => true
  | _ => false

/-- Holds the lock exclusively. -/
def isWriting : Place → Bool
  | entered | holding false => true
  | _ => false

/-- Between `queue_exclusive` and `dequeue_exclusive`. -/
def isQueued : Place → Bool
  | queued | asleep false | woken false | entered => true
  | _ => false

/-- Holds the lock. -/
def holds (p : Place) : Bool := p.isReading || p.isWriting

/-- `notify_all`, for one thread. -/
def notify : Place → Place
  | asleep shared => woken shared
  | p => p

/-- Where a thread calls `acquire` from, and is again when it gives up. -/
def outside : Bool → Place
  | true => idle
  | false => queued

/-- Where a thread is once it entered. -/
def inside : Bool → Place
  | true => holding true
  | false => entered

@[simp] theorem isReading_notify (p : Place) : p.notify.isReading = p.isReading := by cases p <;> rfl

@[simp] theorem isWriting_notify (p : Place) : p.notify.isWriting = p.isWriting := by cases p <;> rfl

@[simp] theorem isQueued_notify (p : Place) : p.notify.isQueued = p.isQueued := by
  rcases p with _ | _ | shared | shared | _ | shared <;> first | rfl | cases shared <;> rfl

end Place

/-- The lock and every thread's place. -/
structure LockState where
  /-- The lock. -/
  lock : DatabaseLock
  /-- The threads' places. -/
  threads : List Place
  deriving DecidableEq, Repr

namespace LockState

/-- No thread has touched the lock. -/
def init (n : ℕ) : LockState := ⟨.init, List.replicate n .idle⟩

/-- `notify_all`. -/
def notifyAll (threads : List Place) : List Place := threads.map Place.notify

variable {s s' : LockState}

/-- One critical section of one thread, or one thread's wait timing out. -/
inductive Step (s : LockState) : LockState → Prop where
  /-- `queue_exclusive`. -/
  | queue {i : ℕ} (h : s.threads[i]? = some .idle) :
      Step s ⟨s.lock.queueExclusive, s.threads.set i .queued⟩
  /-- `acquire`'s predicate holds when it is called or checked again. -/
  | enter {i : ℕ} {p : Place} (shared : Bool) (h : s.threads[i]? = some p)
      (hp : p = .outside shared ∨ p = .woken shared) (hc : s.lock.canEnter shared = true) :
      Step s ⟨s.lock.enter shared, s.threads.set i (.inside shared)⟩
  /-- It does not, and there is time left. -/
  | sleep {i : ℕ} {p : Place} (shared : Bool) (h : s.threads[i]? = some p)
      (hp : p = .outside shared ∨ p = .woken shared) (hc : s.lock.canEnter shared = false) :
      Step s ⟨s.lock, s.threads.set i (.asleep shared)⟩
  /-- It does not, and there is none, or `acquire` does not block. -/
  | giveUp {i : ℕ} {p : Place} (shared : Bool) (h : s.threads[i]? = some p)
      (hp : p = .outside shared ∨ p = .woken shared) (hc : s.lock.canEnter shared = false) :
      Step s ⟨s.lock, s.threads.set i (.outside shared)⟩
  /-- A wait times out. -/
  | timeout {i : ℕ} (shared : Bool) (h : s.threads[i]? = some (.asleep shared)) :
      Step s ⟨s.lock, s.threads.set i (.woken shared)⟩
  /-- `dequeue_exclusive`, without the lock. -/
  | leave {i : ℕ} (h : s.threads[i]? = some .queued) :
      Step s ⟨s.lock.dequeueExclusive, notifyAll (s.threads.set i .idle)⟩
  /-- `dequeue_exclusive`, with it. -/
  | dequeue {i : ℕ} (h : s.threads[i]? = some .entered) :
      Step s ⟨s.lock.dequeueExclusive, notifyAll (s.threads.set i (.holding false))⟩
  /-- `release`. -/
  | release {i : ℕ} (shared : Bool) (h : s.threads[i]? = some (.holding shared)) :
      Step s ⟨s.lock.release shared, notifyAll (s.threads.set i .idle)⟩

/-- A state some run of `n` threads reaches. -/
def Reachable (n : ℕ) (s : LockState) : Prop := ReflTransGen Step (init n) s

/-! ### What the counters count -/

/-- The lock's fields are the threads counted. -/
structure Counts (l : DatabaseLock) (threads : List Place) : Prop where
  /-- `_readers` counts the shared holders. -/
  readers_eq : l.readers = threads.countP Place.isReading
  /-- `_writer` counts the exclusive holders. -/
  writer_eq : l.writer.toNat = threads.countP Place.isWriting
  /-- `_writers_waiting` counts the threads in the queue. -/
  waiting_eq : l.writersWaiting = threads.countP Place.isQueued

/-- The counters are true, writers are alone, and no one sleeps on a predicate that holds. -/
structure Inv (s : LockState) : Prop where
  /-- The counters are true. -/
  counts : Counts s.lock s.threads
  /-- Beside an exclusive holder there is no shared one. -/
  alone : s.lock.writer = true → s.lock.readers = 0
  /-- A sleeping thread's predicate is false. -/
  asleep : ∀ shared, Place.asleep shared ∈ s.threads → s.lock.canEnter shared = false

variable {l l' : DatabaseLock} {threads : List Place} {i : ℕ} {p q : Place}

theorem countP_notifyAll {f : Place → Bool} (hf : ∀ a, f a.notify = f a) (threads : List Place) :
    (notifyAll threads).countP f = threads.countP f := by
  rw [notifyAll, List.countP_map]
  exact List.countP_congr fun a _ => by rw [Function.comp_apply, hf]

theorem Counts.notifyAll (h : Counts l threads) : Counts l (notifyAll threads) :=
  ⟨by rw [countP_notifyAll Place.isReading_notify, h.readers_eq],
    by rw [countP_notifyAll Place.isWriting_notify, h.writer_eq],
    by rw [countP_notifyAll Place.isQueued_notify, h.waiting_eq]⟩

/-- A thread moved, and the lock's fields with it. -/
theorem Counts.move (hc : Counts l threads) (h : threads[i]? = some p)
    (hr : l'.readers + p.isReading.toNat = l.readers + q.isReading.toNat)
    (hw : l'.writer.toNat + p.isWriting.toNat = l.writer.toNat + q.isWriting.toNat)
    (hq : l'.writersWaiting + p.isQueued.toNat = l.writersWaiting + q.isQueued.toNat) :
    Counts l' (threads.set i q) := by
  obtain ⟨hr₀, hw₀, hq₀⟩ := hc
  have hr₁ := countP_set_move h Place.isReading q
  have hw₁ := countP_set_move h Place.isWriting q
  have hq₁ := countP_set_move h Place.isQueued q
  exact ⟨by omega, by omega, by omega⟩

theorem Counts.readers_nonneg (h : Counts l threads) : 0 ≤ l.readers := h.readers_eq ▸ Int.natCast_nonneg _

theorem Counts.waiting_nonneg (h : Counts l threads) : 0 ≤ l.writersWaiting := h.waiting_eq ▸ Int.natCast_nonneg _

theorem one_less (n : ℤ) : n - 1 + 1 = n + 0 := by omega

/-- A shared holder is counted. -/
theorem Counts.readers_pos (hc : Counts l threads) (h : threads[i]? = some (.holding true)) : 0 < l.readers := by
  have := toNat_le_countP h Place.isReading
  have hr := hc.readers_eq
  simp only [Place.isReading, Bool.toNat_true] at this
  omega

/-- An exclusive holder is counted. -/
theorem Counts.writer_of_isWriting (hc : Counts l threads) (h : threads[i]? = some p) (hp : p.isWriting = true) :
    l.writer = true := by
  have := toNat_le_countP h Place.isWriting
  have hw := hc.writer_eq
  rw [hp, Bool.toNat_true] at this
  cases hl : l.writer with
  | true => rfl
  | false =>
    rw [hl, Bool.toNat_false] at hw
    omega

theorem not_asleep_notifyAll {shared : Bool} : Place.asleep shared ∉ notifyAll threads := by
  rw [notifyAll, List.mem_map]
  rintro ⟨p, -, hp⟩
  cases p <;> exact absurd hp (by simp [Place.notify])

/-- A thread moved: whoever sleeps after it slept before it, or is that thread. -/
theorem mem_of_asleep_mem_set {shared : Bool} (hq : q ≠ .asleep shared) (h : Place.asleep shared ∈ threads.set i q) :
    Place.asleep shared ∈ threads :=
  (List.mem_or_eq_of_mem_set h).resolve_right fun heq => hq heq.symm

/-- A thread that is asleep or awake in `acquire`, or about to call it, is counted as one outside it. -/
theorem share_of_acquiring {shared : Bool} (hp : p = .outside shared ∨ p = .woken shared) :
    p.isReading = false ∧ p.isWriting = false ∧ p.isQueued = !shared := by
  rcases hp with rfl | rfl <;> cases shared <;> exact ⟨rfl, rfl, rfl⟩

/-- Entering makes no predicate true. -/
theorem canEnter_enter {shared shared' : Bool} (hl : 0 ≤ l.readers) (h : l.canEnter shared' = false) :
    (l.enter shared).canEnter shared' = false := by
  cases shared with
  | false => rfl
  | true =>
    rw [Bool.eq_false_iff] at h ⊢
    cases shared' with
    | false =>
      rw [Ne, DatabaseLock.canEnter_exclusive_iff]
      rintro ⟨-, hr⟩
      have hr : l.readers + 1 = 0 := hr
      omega
    | true => exact h

/-- Queueing makes no predicate true. -/
theorem canEnter_queueExclusive {shared : Bool} (hl : 0 ≤ l.writersWaiting) (h : l.canEnter shared = false) :
    l.queueExclusive.canEnter shared = false := by
  rw [Bool.eq_false_iff] at h ⊢
  cases shared with
  | false => exact h
  | true =>
    rw [Ne, DatabaseLock.canEnter_shared_iff]
    rintro ⟨-, hz⟩
    have hz : l.writersWaiting + 1 = 0 := hz
    omega

theorem inv_init (n : ℕ) : (init n).Inv := by
  have hcount : ∀ f : Place → Bool, f .idle = false → (List.replicate n Place.idle).countP f = 0 := by
    intro f hf
    rw [List.countP_replicate, hf]
    rfl
  refine ⟨⟨?_, ?_, ?_⟩, fun h => absurd h Bool.false_ne_true, fun shared h => ?_⟩
  · exact congrArg Int.ofNat (hcount _ rfl).symm
  · exact (hcount _ rfl).symm
  · exact congrArg Int.ofNat (hcount _ rfl).symm
  · exact absurd (List.eq_of_mem_replicate h) (by simp)

/-- **Each critical section keeps the counters true and the sleepers' predicates false.** -/
theorem Step.inv (h : Step s s') (hs : s.Inv) : s'.Inv := by
  obtain ⟨hc, halone, hasleep⟩ := hs
  cases h with
  | queue h =>
    refine ⟨hc.move h rfl rfl (Int.add_zero _), halone, fun shared hsleep => ?_⟩
    exact canEnter_queueExclusive hc.waiting_nonneg (hasleep shared (mem_of_asleep_mem_set (by simp) hsleep))
  | @enter i p shared h hp henter =>
    obtain ⟨hpr, hpw, hpq⟩ := share_of_acquiring hp
    have hnone : ∀ shared', Place.asleep shared' ∈ s.threads.set i (.inside shared) →
        (s.lock.enter shared).canEnter shared' = false := by
      intro shared' hsleep
      refine canEnter_enter hc.readers_nonneg (hasleep shared' (mem_of_asleep_mem_set ?_ hsleep))
      cases shared <;> simp [Place.inside]
    cases shared with
    | false =>
      obtain ⟨hfree, hempty⟩ := DatabaseLock.canEnter_exclusive_iff.1 henter
      refine ⟨hc.move h ?_ ?_ ?_, fun _ => hempty, hnone⟩
      · rw [hpr]
        rfl
      · rw [hpw, hfree]
        rfl
      · rw [hpq]
        rfl
    | true =>
      obtain ⟨hfree, -⟩ := DatabaseLock.canEnter_shared_iff.1 henter
      refine ⟨hc.move h ?_ ?_ ?_, fun hwr => absurd (hfree.symm.trans hwr) Bool.false_ne_true, hnone⟩
      · rw [hpr]
        exact Int.add_zero _
      · rw [hpw]
        rfl
      · rw [hpq]
        rfl
  | sleep shared h hp hno =>
    obtain ⟨hpr, hpw, hpq⟩ := share_of_acquiring hp
    refine ⟨hc.move h ?_ ?_ ?_, halone, fun shared' hsleep => ?_⟩
    · rw [hpr]
      rfl
    · rw [hpw]
      rfl
    · rw [hpq]
      cases shared <;> rfl
    · rcases List.mem_or_eq_of_mem_set hsleep with hbefore | heq
      · exact hasleep shared' hbefore
      · obtain rfl := Place.asleep.inj heq
        exact hno
  | giveUp shared h hp hno =>
    obtain ⟨hpr, hpw, hpq⟩ := share_of_acquiring hp
    refine ⟨hc.move h ?_ ?_ ?_, halone, fun shared' hsleep => ?_⟩
    · rw [hpr]
      cases shared <;> rfl
    · rw [hpw]
      cases shared <;> rfl
    · rw [hpq]
      cases shared <;> rfl
    · exact hasleep shared' (mem_of_asleep_mem_set (by cases shared <;> simp [Place.outside]) hsleep)
  | timeout shared h =>
    refine ⟨hc.move h rfl rfl ?_, halone, fun shared' hsleep => ?_⟩
    · cases shared <;> rfl
    · exact hasleep shared' (mem_of_asleep_mem_set (by simp) hsleep)
  | @leave i h =>
    have hmove : Counts s.lock.dequeueExclusive (s.threads.set i .idle) :=
      hc.move h rfl rfl (one_less _)
    exact ⟨hmove.notifyAll, halone, fun shared hsleep => absurd hsleep not_asleep_notifyAll⟩
  | @dequeue i h =>
    have hmove : Counts s.lock.dequeueExclusive (s.threads.set i (.holding false)) :=
      hc.move h rfl rfl (one_less _)
    exact ⟨hmove.notifyAll, halone, fun shared hsleep => absurd hsleep not_asleep_notifyAll⟩
  | @release i shared h =>
    cases shared with
    | false =>
      have hwriter := hc.writer_of_isWriting h rfl
      have hmove : Counts (s.lock.release false) (s.threads.set i .idle) := by
        refine hc.move h rfl ?_ rfl
        rw [hwriter]
        rfl
      exact ⟨hmove.notifyAll, fun hf => absurd hf Bool.false_ne_true,
        fun shared hsleep => absurd hsleep not_asleep_notifyAll⟩
    | true =>
      have hpos := hc.readers_pos h
      have hmove : Counts (s.lock.release true) (s.threads.set i .idle) :=
        hc.move h (one_less _) rfl rfl
      refine ⟨hmove.notifyAll, fun hwr => ?_, fun shared hsleep => absurd hsleep not_asleep_notifyAll⟩
      have hzero := halone hwr
      omega

theorem Reachable.inv {n : ℕ} (h : Reachable n s) : s.Inv := by
  induction h with
  | refl => exact inv_init n
  | tail _ hstep ih => exact hstep.inv ih

/-! ### Fairness -/

/-- Where a thread is after another or itself moved. -/
theorem eq_or_of_getElem?_set {j : ℕ} (h : (threads.set j q)[i]? = some p) : p = q ∨ threads[i]? = some p := by
  rw [List.getElem?_set] at h
  split_ifs at h
  · exact .inl (Option.some.inj h).symm
  · exact .inr h

/-- A sleeping thread sleeps on or is woken. -/
theorem Step.asleep_or (h : Step s s') {shared : Bool} (hi : s.threads[i]? = some (.asleep shared)) :
    s'.threads[i]? = some (.asleep shared) ∨ s'.threads[i]? = some (.woken shared) := by
  have hstay : ∀ {j a b}, s.threads[j]? = some a → a ≠ .asleep shared → (s.threads.set j b)[i]? = some (.asleep shared) := by
    intro j a b hj ha
    rw [List.getElem?_set_ne, hi]
    rintro rfl
    rw [hj] at hi
    exact ha (Option.some.inj hi)
  have hwake : ∀ {l : List Place}, l[i]? = some (.asleep shared) → (notifyAll l)[i]? = some (.woken shared) := by
    intro l hl
    rw [notifyAll, List.getElem?_map, hl]
    rfl
  have hcalling : ∀ {a : Place} {sh}, a = .outside sh ∨ a = .woken sh → a ≠ .asleep shared := by
    rintro a sh (rfl | rfl) <;> cases sh <;> simp [Place.outside]
  cases h with
  | queue h => exact .inl (hstay h (by simp))
  | enter sh h hp hc => exact .inl (hstay h (hcalling hp))
  | sleep sh h hp hc => exact .inl (hstay h (hcalling hp))
  | giveUp sh h hp hc => exact .inl (hstay h (hcalling hp))
  | @timeout j sh h =>
    by_cases hij : j = i
    · subst hij
      obtain rfl := Place.asleep.inj (Option.some.inj (hi.symm.trans h))
      exact .inr (List.getElem?_set_self (List.getElem?_eq_some_iff.1 hi).1)
    · exact .inl (by rw [List.getElem?_set_ne hij, hi])
  | leave h => exact .inr (hwake (hstay h (by simp)))
  | dequeue h => exact .inr (hwake (hstay h (by simp)))
  | release sh h => exact .inr (hwake (hstay h (by simp)))

/-- **A step that makes a sleeper's predicate true has notified it.** -/
theorem Step.woken_of_canEnter (h : Step s s') (hs : s.Inv) {shared : Bool}
    (hi : s.threads[i]? = some (.asleep shared)) (hc : s'.lock.canEnter shared = true) :
    s'.threads[i]? = some (.woken shared) := by
  refine (h.asleep_or hi).resolve_left fun hsleep => ?_
  have hfalse := (h.inv hs).asleep shared (List.mem_of_getElem? hsleep)
  rw [hc] at hfalse
  exact Bool.false_ne_true hfalse.symm

/-- **A thread that enters shared** enters while the queue is empty. -/
theorem Step.queue_empty_of_enters (h : Step s s') (hs : s.Inv) (hi : s.threads[i]? = some p)
    (hp : p.isReading = false) (hi' : s'.threads[i]? = some q) (hq : q.isReading = true) :
    s.threads.countP Place.isQueued = 0 := by
  have hset : ∀ {j r a}, a.isReading = true → r.isReading = false → (s.threads.set j r)[i]? ≠ some a := by
    intro j r a ha hr hj
    rcases eq_or_of_getElem?_set hj with rfl | hbefore
    · exact Bool.false_ne_true (hr.symm.trans ha)
    · rw [hi] at hbefore
      obtain rfl := Option.some.inj hbefore
      exact Bool.false_ne_true (hp.symm.trans ha)
  have hnotify : ∀ {j r}, r.isReading = false → (notifyAll (s.threads.set j r))[i]? ≠ some q := by
    intro j r hr hj
    rw [notifyAll, List.getElem?_map, Option.map_eq_some_iff] at hj
    obtain ⟨a, ha, rfl⟩ := hj
    exact hset (Place.isReading_notify a ▸ hq) hr ha
  cases h with
  | queue h => exact absurd hi' (hset hq rfl)
  | enter shared h hpl hc =>
    cases shared with
    | false => exact absurd hi' (hset hq rfl)
    | true =>
      have hzero := (DatabaseLock.canEnter_shared_iff.1 hc).2
      have hcount := hs.counts.waiting_eq
      omega
  | sleep shared h hpl hc => exact absurd hi' (hset hq rfl)
  | giveUp shared h hpl hc => exact absurd hi' (hset hq (by cases shared <;> rfl))
  | timeout shared h => exact absurd hi' (hset hq rfl)
  | leave h => exact absurd hi' (hnotify rfl)
  | dequeue h => exact absurd hi' (hnotify rfl)
  | release shared h => exact absurd hi' (hnotify rfl)

/-- Beside an exclusive holder no other thread holds the lock. -/
theorem Inv.excludes (hs : s.Inv) {j : ℕ} (hi : s.threads[i]? = some p) (hp : p.isWriting = true)
    (hj : s.threads[j]? = some q) (hne : i ≠ j) : q.holds = false := by
  have hwriter := hs.counts.writer_of_isWriting hi hp
  have hone := hs.counts.writer_eq
  rw [hwriter, Bool.toNat_true] at hone
  have hreading : q.isReading = false := by
    have hle := toNat_le_countP hj Place.isReading
    have hr := hs.counts.readers_eq
    have hzero := hs.alone hwriter
    cases hq : q.isReading with
    | false => rfl
    | true =>
      rw [hq, Bool.toNat_true] at hle
      omega
  have hwriting : q.isWriting = false := by
    -- without thread `i` no one is counted
    have hset := countP_set_move hi Place.isWriting .idle
    have hj' : (s.threads.set i .idle)[j]? = some q := by rw [List.getElem?_set_ne hne, hj]
    have hle := toNat_le_countP hj' Place.isWriting
    rw [hp, Bool.toNat_true] at hset
    cases hq : q.isWriting with
    | false => rfl
    | true =>
      rw [hq, Bool.toNat_true] at hle
      simp only [Place.isWriting, Bool.toNat_false] at hset
      omega
  rw [Place.holds, hreading, hwriting]
  rfl

/-- `locked` says whether a thread holds the lock. -/
theorem Inv.locked_iff (hs : s.Inv) : s.lock.locked = true ↔ ∃ p ∈ s.threads, p.holds = true := by
  have hr := hs.counts.readers_eq
  have hw := hs.counts.writer_eq
  have hpos : (∃ p ∈ s.threads, p.holds = true) ↔
      0 < s.threads.countP Place.isReading ∨ 0 < s.threads.countP Place.isWriting := by
    simp only [List.countP_pos_iff, Place.holds, Bool.or_eq_true, ← exists_or, ← and_or_left]
  have hwriter : s.lock.writer = true ↔ 0 < s.lock.writer.toNat := by cases s.lock.writer <;> decide
  rw [hpos, DatabaseLock.locked, Bool.or_eq_true, decide_eq_true_eq, hwriter, hr, hw, Int.natCast_pos]
  exact Or.comm

/-- **The lock is a fair reader/writer lock**: for any number of threads, in every state they reach, an exclusive
holder is alone, `_writers_waiting` counts the threads in the queue, no one enters shared while there are some,
`locked` says whether there is a holder, no one sleeps on a predicate that holds, and the step that makes a sleeper's
predicate true has notified it. -/
theorem databaseLock_fair (n : ℕ) (s : LockState) (hs : Reachable n s) :
    (∀ (i j : ℕ) (p q : Place), s.threads[i]? = some p → s.threads[j]? = some q → i ≠ j → p.isWriting = true → q.holds = false) ∧
      (s.lock.writersWaiting = s.threads.countP Place.isQueued ∧ 0 ≤ s.lock.writersWaiting) ∧
      (∀ s', Step s s' → ∀ (i : ℕ) (p q : Place), s.threads[i]? = some p → s'.threads[i]? = some q →
        p.isReading = false → q.isReading = true → ∀ p' ∈ s.threads, p'.isQueued = false) ∧
      (s.lock.locked = true ↔ ∃ p ∈ s.threads, p.holds = true) ∧
      (∀ shared, Place.asleep shared ∈ s.threads → s.lock.canEnter shared = false) ∧
      ∀ s', Step s s' → ∀ (i : ℕ) (shared : Bool), s.threads[i]? = some (.asleep shared) → s'.lock.canEnter shared = true →
        s'.threads[i]? = some (.woken shared) := by
  have hinv := hs.inv
  refine ⟨fun i j p q hi hj hne hp => hinv.excludes hi hp hj hne,
    ⟨hinv.counts.waiting_eq, hinv.counts.waiting_nonneg⟩, ?_, hinv.locked_iff, hinv.asleep, ?_⟩
  · intro s' hstep i p q hi hi' hp hq p' hp'
    have hzero := hstep.queue_empty_of_enters hinv hi hp hi' hq
    exact Bool.eq_false_iff.2 (List.countP_eq_zero.1 hzero p' hp')
  · intro s' hstep i shared hi hc
    exact hstep.woken_of_canEnter hinv hi hc

/-- A reader sleeps behind a writer that then gives up: the writer's leaving wakes it. -/
theorem databaseLock_fair_wakes : ∃ s s' : LockState, Reachable 2 s ∧ Step s s' ∧
    s.threads[1]? = some (.asleep true) ∧ s'.threads[1]? = some (.woken true) := by
  have hqueue : Step (init 2) ⟨⟨0, false, 1⟩, [.queued, .idle]⟩ := .queue (i := 0) rfl
  have hsleep : Step ⟨⟨0, false, 1⟩, [.queued, .idle]⟩ ⟨⟨0, false, 1⟩, [.queued, .asleep true]⟩ :=
    .sleep (i := 1) (p := .idle) true rfl (.inl rfl) rfl
  have hleave : Step ⟨⟨0, false, 1⟩, [.queued, .asleep true]⟩ ⟨⟨0, false, 0⟩, [.idle, .woken true]⟩ :=
    .leave (i := 0) rfl
  have hreach : Reachable 2 ⟨⟨0, false, 1⟩, [.queued, .asleep true]⟩ := .tail (.tail .refl hqueue) hsleep
  exact ⟨_, _, hreach, hleave, rfl, (databaseLock_fair 2 _ hreach).2.2.2.2.2 _ hleave 1 true rfl rfl⟩

end LockState

end MediaPreview.Plex
