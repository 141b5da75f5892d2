import Mathlib.Logic.Function.Basic
import MediaPreview.Lib.Parties
import MediaPreview.Lib.Runs

/-!
# Locks by key

`KeyedLocks`: one lock for each key, kept while a call of `hold` or `try_hold` is under way for it. A call is at work in
a guarded section at its start, which makes the key's entry or counts itself into it, in attempts at the lock, which no
guard covers, and in a guarded section at its end, which deletes the entry with its last call. Each is one event, as is
the end of a block, by an exception or not; calls come from any threads, in any order.

An entry is a Python list, which a call goes on using whatever the table says; it is a number here, and its lock tells
which call holds it.
-/

namespace MediaPreview.Markers

open Parties

/-! ### The locks -/

/-- How a call takes the lock. -/
inductive LockWay where
  /-- `hold`. -/
  | hold
  /-- `hold` with `while_waiting`. -/
  | polled
  /-- `try_hold`. -/
  | tried
  deriving DecidableEq, Repr

/-- Where a call is. -/
inductive LockPlace where
  /-- It is counted, and attempts the lock. -/
  | waiting
  /-- It is in the block, with the lock. -/
  | inside
  /-- It is in the block, told `False`. -/
  | refused
  /-- It is done, and still counted. -/
  | leaving
  /-- It is over. -/
  | left
  deriving DecidableEq, Repr

/-- A call of `hold` or `try_hold`. -/
structure LockCall (κ : Type*) where
  /-- `key`. -/
  key : κ
  /-- `entry`. -/
  entry : ℕ
  /-- How it takes the lock. -/
  way : LockWay
  /-- Where it is. -/
  place : LockPlace

/-- It is under way. -/
def LockCall.active {κ : Type*} (c : LockCall κ) : Bool := c.place ≠ .left

/-- It holds the lock or waits for it. -/
def LockCall.holdsOrWaits {κ : Type*} (c : LockCall κ) : Bool := c.place = .inside || c.place = .waiting

/-- The locks, and the calls at them. -/
structure KeyedLocks (κ : Type*) where
  /-- `_locks`: each key's entry. -/
  locks : κ → Option ℕ
  /-- How many callers an entry says it has. -/
  callers : ℕ → ℕ
  /-- The call that holds an entry's lock. -/
  holder : ℕ → Option ℕ
  /-- How many entries were made. -/
  made : ℕ
  /-- The calls, in the order they came. -/
  calls : List (LockCall κ)

/-- What a call does. -/
inductive LockEvent (κ : Type*) where
  /-- It comes: the guarded section at its start. -/
  | enter (key : κ) (way : LockWay)
  /-- It gets the lock. -/
  | acquire (call : ℕ)
  /-- Its attempt times out, and `while_waiting` lets it wait on. -/
  | poll (call : ℕ)
  /-- Its attempt times out: `try_hold` yields `False`. -/
  | refuse (call : ℕ)
  /-- `while_waiting` raises, or the lock does not take its timeout. -/
  | fail (call : ℕ)
  /-- Its block ends, or raises. -/
  | blockEnd (call : ℕ)
  /-- The guarded section at its end. -/
  | leave (call : ℕ)

/-- The call that goes on, where none comes. -/
def LockEvent.call {κ : Type*} : LockEvent κ → ℕ
  | .enter _ _ => 0
  | .acquire i => i
  | .poll i => i
  | .refuse i => i
  | .fail i => i
  | .blockEnd i => i
  | .leave i => i

namespace KeyedLocks

variable {κ : Type*} [DecidableEq κ]

/-- `__init__`. -/
def new : KeyedLocks κ := ⟨fun _ => none, fun _ => 0, fun _ => none, 0, []⟩

/-- A call comes. -/
def enter (s : KeyedLocks κ) (key : κ) (way : LockWay) : KeyedLocks κ :=
  match s.locks key with
  | none =>
    { locks := Function.update s.locks key (some s.made)
      callers := Function.update s.callers s.made 1
      holder := Function.update s.holder s.made none
      made := s.made + 1
      calls := s.calls ++ [⟨key, s.made, way, .waiting⟩] }
  | some e =>
    { s with
      callers := Function.update s.callers e (s.callers e + 1)
      calls := s.calls ++ [⟨key, e, way, .waiting⟩] }

omit [DecidableEq κ] in
/-- A call goes on to another place. -/
def moved (s : KeyedLocks κ) (i : ℕ) (c : LockCall κ) (place : LockPlace) : KeyedLocks κ :=
  { s with calls := s.calls.set i { c with place := place } }

/-- A call's last guarded section. -/
def leave (s : KeyedLocks κ) (i : ℕ) (c : LockCall κ) : KeyedLocks κ :=
  { s.moved i c .left with
    callers := Function.update s.callers c.entry (s.callers c.entry - 1)
    locks := if s.callers c.entry - 1 = 0 then Function.update s.locks c.key none else s.locks }

/-- What a call does next; `none` where it can't. -/
def act (s : KeyedLocks κ) (i : ℕ) (c : LockCall κ) : LockEvent κ → Option (KeyedLocks κ)
  | .acquire _ =>
    if c.place = .waiting ∧ s.holder c.entry = none then
      some { s.moved i c .inside with holder := Function.update s.holder c.entry (some i) }
    else none
  | .poll _ => if c.place = .waiting ∧ c.way = .polled then some s else none
  | .refuse _ => if c.place = .waiting ∧ c.way = .tried then some (s.moved i c .refused) else none
  | .fail _ => if c.place = .waiting ∧ c.way ≠ .hold then some (s.moved i c .leaving) else none
  | .blockEnd _ =>
    if c.place = .inside then some { s.moved i c .leaving with holder := Function.update s.holder c.entry none }
    else if c.place = .refused then some (s.moved i c .leaving)
    else none
  | .leave _ => if c.place = .leaving then some (s.leave i c) else none
  | .enter _ _ => none

/-- One step. -/
def step (s : KeyedLocks κ) : LockEvent κ → Option (KeyedLocks κ)
  | .enter key way => some (s.enter key way)
  | e => s.calls[e.call]?.bind fun c => s.act e.call c e

/-! ### What the locks are of the calls -/

/-- **The locks are those of the calls under way.** -/
structure Inv (s : KeyedLocks κ) : Prop where
  /-- Entries in the table were made. -/
  made : ∀ key e, s.locks key = some e → e < s.made
  /-- No two keys have one entry. -/
  apart : ∀ key key' e, s.locks key = some e → s.locks key' = some e → key = key'
  /-- A call under way is at its key's entry. -/
  bound : ∀ c ∈ s.calls, c.active = true → s.locks c.key = some c.entry
  /-- An entry in the table counts the calls at it. -/
  callers : ∀ key e, s.locks key = some e → s.callers e = s.calls.countP fun c => c.active && c.entry = e
  /-- There is one. -/
  pos : ∀ key e, s.locks key = some e → 0 < s.callers e
  /-- A lock is held by a call in its block. -/
  holder : ∀ e i, s.holder e = some i → ∃ c, s.calls[i]? = some c ∧ c.place = .inside ∧ c.entry = e
  /-- A call in its block holds its lock, unless it was told otherwise. -/
  inside : ∀ i c, s.calls[i]? = some c → c.place = .inside → s.holder c.entry = some i

omit [DecidableEq κ] in
theorem inv_new : (new : KeyedLocks κ).Inv where
  made key e h := by cases h
  apart key key' e h := by cases h
  bound c h := by cases h
  callers key e h := by cases h
  pos key e h := by cases h
  holder e i h := by cases h
  inside i c h := by cases h

variable {s s' : KeyedLocks κ} {i : ℕ} {c : LockCall κ} {place : LockPlace}

omit [DecidableEq κ] in
theorem mem_moved {c' : LockCall κ} (h : c' ∈ (s.moved i c place).calls) : c' ∈ s.calls ∨ c' = { c with place := place } :=
  List.mem_or_eq_of_mem_set h

omit [DecidableEq κ] in
theorem getElem?_moved (hc : s.calls[i]? = some c) (j : ℕ) :
    (s.moved i c place).calls[j]? = if i = j then some { c with place := place } else s.calls[j]? := by
  obtain ⟨hi, -⟩ := List.getElem?_eq_some_iff.1 hc
  rw [moved, List.getElem?_set]
  split_ifs with hij
  · rfl
  · rfl

omit [DecidableEq κ] in
/-- A call that stays under way is counted as before. -/
theorem countP_moved (hc : s.calls[i]? = some c) (hold : c.active = true) (hnew : place ≠ .left) (e : ℕ) :
    ((s.moved i c place).calls.countP fun c => c.active && c.entry = e) = s.calls.countP fun c => c.active && c.entry = e := by
  have hset := countP_set_move hc (fun c => c.active && c.entry = e) { c with place := place }
  have hactive : LockCall.active { c with place := place } = true := decide_eq_true hnew
  rw [hold, hactive] at hset
  exact Nat.add_right_cancel hset

omit [DecidableEq κ] in
/-- **A call that stays under way keeps the locks**: it has its lock while it is in its block, and others have theirs. -/
theorem Inv.moved (h : s.Inv) (hc : s.calls[i]? = some c) (hold : c.active = true) (hnew : place ≠ .left)
    {holder : ℕ → Option ℕ} (hothers : ∀ e j, j ≠ i → (holder e = some j ↔ s.holder e = some j))
    (hself : ∀ e, holder e = some i ↔ place = .inside ∧ e = c.entry) : { s.moved i c place with holder := holder }.Inv where
  made := h.made
  apart := h.apart
  bound c' hc' hactive := by
    obtain hmem | rfl := mem_moved hc'
    · exact h.bound c' hmem hactive
    · exact h.bound c (List.mem_of_getElem? hc) hold
  callers key e he := (h.callers key e he).trans (countP_moved hc hold hnew e).symm
  pos := h.pos
  holder e j hj := by
    show ∃ c', (s.moved i c place).calls[j]? = some c' ∧ _
    rw [getElem?_moved hc]
    by_cases hji : j = i
    · subst hji
      obtain ⟨hinside, rfl⟩ := (hself e).1 hj
      exact ⟨_, if_pos rfl, hinside, rfl⟩
    · obtain ⟨c', hc', hinside, hentry⟩ := h.holder e j ((hothers e j hji).1 hj)
      exact ⟨c', (if_neg fun hij => hji hij.symm).trans hc', hinside, hentry⟩
  inside j c' hc' hinside := by
    change (s.moved i c place).calls[j]? = some c' at hc'
    rw [getElem?_moved hc] at hc'
    split_ifs at hc' with hij
    · obtain rfl := Option.some.inj hc'
      exact hij ▸ (hself _).2 ⟨hinside, rfl⟩
    · exact (hothers _ j fun hji => hij hji.symm).2 (h.inside j c' hc' hinside)

omit [DecidableEq κ] in
/-- A call that is not in its block has no lock. -/
theorem Inv.holder_ne (h : s.Inv) (hc : s.calls[i]? = some c) (hplace : c.place ≠ .inside) (e : ℕ) :
    s.holder e ≠ some i := by
  intro he
  obtain ⟨c', hc', hinside, -⟩ := h.holder e i he
  rw [Option.some.inj (hc'.symm.trans hc)] at hinside
  exact hplace hinside

omit [DecidableEq κ] in
/-- A call that goes on without the lock. -/
theorem Inv.idle (h : s.Inv) (hc : s.calls[i]? = some c) (hold : c.active = true) (hplace : c.place ≠ .inside)
    (hnew : place ≠ .left) (hinside : place ≠ .inside) : (s.moved i c place).Inv := by
  have hself : ∀ e, s.holder e = some i ↔ place = .inside ∧ e = c.entry := fun e =>
    ⟨fun he => absurd he (h.holder_ne hc hplace e), fun hin => absurd hin.1 hinside⟩
  exact h.moved hc hold hnew (fun e j _ => Iff.rfl) hself

omit [DecidableEq κ] in
/-- A call in its block is one of those before. -/
theorem inside_before {calls : List (LockCall κ)} {c₀ c : LockCall κ} {j : ℕ} (hwaiting : c₀.place = .waiting)
    (hj : (calls ++ [c₀])[j]? = some c) (hinside : c.place = .inside) : calls[j]? = some c := by
  rw [List.getElem?_append] at hj
  split_ifs at hj with hlt
  · exact hj
  · obtain rfl : c = c₀ := List.mem_singleton.1 (List.mem_of_getElem? hj)
    rw [hwaiting] at hinside
    cases hinside

omit [DecidableEq κ] in
theorem getElem?_before {calls : List (LockCall κ)} {c₀ c : LockCall κ} {j : ℕ} (hj : calls[j]? = some c) :
    (calls ++ [c₀])[j]? = some c := by
  rwa [List.getElem?_append_left (List.getElem?_eq_some_iff.1 hj).1]

/-- An entry of the table with a new one. -/
theorem of_newEntry {key k : κ} {e : ℕ} (he : Function.update s.locks key (some s.made) k = some e) :
    k = key ∧ e = s.made ∨ k ≠ key ∧ s.locks k = some e := by
  by_cases hk : k = key
  · subst hk
    rw [Function.update_self] at he
    exact .inl ⟨rfl, (Option.some.inj he).symm⟩
  · rw [Function.update_of_ne hk] at he
    exact .inr ⟨hk, he⟩

omit [DecidableEq κ] in
/-- No call is at an entry to be made. -/
theorem Inv.entry_ne (h : s.Inv) (hc : c ∈ s.calls) (hactive : c.active = true) : c.entry ≠ s.made :=
  Nat.ne_of_lt (h.made _ _ (h.bound c hc hactive))

/-- A key's first call makes its entry. -/
theorem Inv.enterFirst (h : s.Inv) {key : κ} (way : LockWay) (hkey : s.locks key = none) :
    KeyedLocks.Inv
      { locks := Function.update s.locks key (some s.made)
        callers := Function.update s.callers s.made 1
        holder := Function.update s.holder s.made none
        made := s.made + 1
        calls := s.calls ++ [⟨key, s.made, way, .waiting⟩] } where
  made k e he := by
    obtain ⟨-, rfl⟩ | ⟨-, he⟩ := of_newEntry he
    · exact Nat.lt_succ_self _
    · exact Nat.lt_succ_of_lt (h.made k e he)
  apart k k' e he he' := by
    obtain ⟨rfl, rfl⟩ | ⟨-, hold⟩ := of_newEntry he <;> obtain ⟨rfl, hmade⟩ | ⟨-, hold'⟩ := of_newEntry he'
    · rfl
    · exact absurd rfl (Nat.ne_of_lt (h.made k' _ hold'))
    · exact absurd hmade (Nat.ne_of_lt (h.made k e hold))
    · exact h.apart k k' e hold hold'
  bound c hc hactive := by
    dsimp only
    obtain hc | rfl := List.mem_append.1 hc |>.imp_right List.mem_singleton.1
    · have hbound := h.bound c hc hactive
      rw [Function.update_of_ne]
      · exact hbound
      · intro hk
        rw [hk, hkey] at hbound
        cases hbound
    · exact Function.update_self ..
  callers k e he := by
    dsimp only
    rw [countP_concat]
    obtain ⟨-, rfl⟩ | ⟨-, he⟩ := of_newEntry he
    · have hzero : (s.calls.countP fun c => c.active && c.entry = s.made) = 0 := by
        rw [List.countP_eq_zero]
        intro c hc hboth
        rw [Bool.and_eq_true, decide_eq_true_eq] at hboth
        exact h.entry_ne hc hboth.1 hboth.2
      rw [Function.update_self, hzero]
      simp [LockCall.active]
    · have hne : e ≠ s.made := Nat.ne_of_lt (h.made k e he)
      rw [Function.update_of_ne hne, h.callers k e he]
      simp [LockCall.active, hne.symm]
  pos k e he := by
    dsimp only
    obtain ⟨-, rfl⟩ | ⟨-, he⟩ := of_newEntry he
    · rw [Function.update_self]
      exact Nat.one_pos
    · rw [Function.update_of_ne (Nat.ne_of_lt (h.made k e he))]
      exact h.pos k e he
  holder e j hj := by
    dsimp only at hj
    by_cases he : e = s.made
    · subst he
      rw [Function.update_self] at hj
      cases hj
    · rw [Function.update_of_ne he] at hj
      obtain ⟨c, hc, hplace, hentry⟩ := h.holder e j hj
      exact ⟨c, getElem?_before hc, hplace, hentry⟩
  inside j c hj hplace := by
    have hc := inside_before rfl hj hplace
    dsimp only
    rw [Function.update_of_ne]
    · exact h.inside j c hc hplace
    · apply h.entry_ne (List.mem_of_getElem? hc)
      exact decide_eq_true (by rw [hplace]; decide)

omit [DecidableEq κ] in
/-- Another call is counted at the key's entry. -/
theorem Inv.enterNext (h : s.Inv) {key : κ} {e₀ : ℕ} (way : LockWay) (hkey : s.locks key = some e₀) :
    KeyedLocks.Inv
      { s with
        callers := Function.update s.callers e₀ (s.callers e₀ + 1)
        calls := s.calls ++ [⟨key, e₀, way, .waiting⟩] } where
  made := h.made
  apart := h.apart
  bound c hc hactive := by
    obtain hc | rfl := List.mem_append.1 hc |>.imp_right List.mem_singleton.1
    · exact h.bound c hc hactive
    · exact hkey
  callers k e he := by
    dsimp only
    rw [countP_concat]
    by_cases hee : e = e₀
    · subst hee
      rw [Function.update_self, h.callers k e he]
      simp [LockCall.active]
    · rw [Function.update_of_ne hee, h.callers k e he]
      have hne : e₀ ≠ e := fun heq => hee heq.symm
      simp [LockCall.active, hne]
  pos k e he := by
    dsimp only
    by_cases hee : e = e₀
    · subst hee
      rw [Function.update_self]
      exact Nat.succ_pos _
    · rw [Function.update_of_ne hee]
      exact h.pos k e he
  holder e j hj := by
    obtain ⟨c, hc, hplace, hentry⟩ := h.holder e j hj
    exact ⟨c, getElem?_before hc, hplace, hentry⟩
  inside j c hj hplace := h.inside j c (inside_before rfl hj hplace) hplace

/-- A call that comes. -/
theorem Inv.enter (h : s.Inv) (key : κ) (way : LockWay) : (s.enter key way).Inv := by
  unfold KeyedLocks.enter
  cases hkey : s.locks key with
  | none => exact h.enterFirst way hkey
  | some e₀ => exact h.enterNext way hkey

/-- **A call's last guarded section**: the entry goes with its last call. -/
theorem Inv.leave (h : s.Inv) (hc : s.calls[i]? = some c) (hplace : c.place = .leaving) : (s.leave i c).Inv := by
  have hactive : c.active = true := decide_eq_true (by rw [hplace]; decide)
  have hmem : c ∈ s.calls := List.mem_of_getElem? hc
  have hbound : s.locks c.key = some c.entry := h.bound c hmem hactive
  have hcount : ∀ e, ((s.moved i c .left).calls.countP fun c => c.active && c.entry = e) + (decide (c.entry = e)).toNat =
      s.calls.countP fun c => c.active && c.entry = e := by
    intro e
    have hset := countP_set_move hc (fun c => c.active && c.entry = e) { c with place := .left }
    simp only [hactive, Bool.true_and] at hset
    exact hset
  have hcallers : ∀ key e, s.locks key = some e → Function.update s.callers c.entry (s.callers c.entry - 1) e =
      (s.moved i c .left).calls.countP fun c => c.active && c.entry = e := by
    intro key e he
    have hold := h.callers key e he
    have hmoved := hcount e
    by_cases hee : e = c.entry
    · subst hee
      rw [Function.update_self, hold]
      simp only [decide_true, Bool.toNat_true] at hmoved
      omega
    · have hne : c.entry ≠ e := fun heq => hee heq.symm
      rw [Function.update_of_ne hee, hold]
      simpa [hne] using hmoved.symm
  -- the table without the entry, if this was its last call
  have hkeys : ∀ key e, (s.leave i c).locks key = some e → s.locks key = some e := by
    intro key e he
    change (if s.callers c.entry - 1 = 0 then Function.update s.locks c.key none else s.locks) key = some e at he
    split_ifs at he with hlast
    · by_cases hk : key = c.key
      · subst hk
        rw [Function.update_self] at he
        cases he
      · rwa [Function.update_of_ne hk] at he
    · exact he
  refine ⟨fun key e he => h.made key e (hkeys key e he),
    fun key key' e he he' => h.apart key key' e (hkeys key e he) (hkeys key' e he'), fun c' hc' hactive' => ?_,
    fun key e he => hcallers key e (hkeys key e he), fun key e he => ?_, fun e j hj => ?_, fun j c' hc' hinside => ?_⟩
  · obtain hmem' | rfl := mem_moved hc'
    · have hbound' := h.bound c' hmem' hactive'
      show (if s.callers c.entry - 1 = 0 then Function.update s.locks c.key none else s.locks) c'.key = some c'.entry
      split_ifs with hlast
      · rw [Function.update_of_ne]
        · exact hbound'
        · intro hk
          rw [hk, hbound] at hbound'
          -- it is still counted at the entry
          have hentry : c'.entry = c.entry := (Option.some.inj hbound').symm
          have hpos : 0 < (s.moved i c .left).calls.countP fun c' => c'.active && c'.entry = c.entry :=
            List.countP_pos_iff.2 ⟨c', hc', by rw [hactive', hentry]; simp⟩
          have hold := h.callers c.key c.entry hbound
          have hmoved := hcount c.entry
          simp only [decide_true, Bool.toNat_true] at hmoved
          omega
      · exact hbound'
    · cases hactive'
  · show 0 < Function.update s.callers c.entry (s.callers c.entry - 1) e
    have hold := hkeys key e he
    by_cases hee : e = c.entry
    · subst hee
      rw [Function.update_self]
      refine Nat.pos_of_ne_zero fun hlast => ?_
      obtain rfl := h.apart key c.key _ hold hbound
      change (if s.callers c.entry - 1 = 0 then Function.update s.locks c.key none else s.locks) c.key = some c.entry at he
      rw [if_pos hlast, Function.update_self] at he
      cases he
    · rw [Function.update_of_ne hee]
      exact h.pos key e hold
  · obtain ⟨c', hc', hinside, hentry⟩ := h.holder e j hj
    refine ⟨c', ?_, hinside, hentry⟩
    show (s.moved i c .left).calls[j]? = some c'
    rw [getElem?_moved hc, if_neg]
    · exact hc'
    · rintro rfl
      rw [Option.some.inj (hc'.symm.trans hc), hplace] at hinside
      cases hinside
  · change (s.moved i c .left).calls[j]? = some c' at hc'
    rw [getElem?_moved hc] at hc'
    split_ifs at hc' with hij
    · obtain rfl := Option.some.inj hc'
      cases hinside
    · exact h.inside j c' hc' hinside

/-- **One step keeps the locks those of the calls under way.** -/
theorem Inv.step (h : s.Inv) {e : LockEvent κ} (hs : s.step e = some s') : s'.Inv := by
  have hwaiting : ∀ {c : LockCall κ}, c.place = .waiting → c.active = true ∧ c.place ≠ .inside := by
    intro c hplace
    rw [LockCall.active, hplace]
    exact ⟨by decide, by decide⟩
  cases e with
  | enter key way =>
    obtain rfl := Option.some.inj hs
    exact h.enter key way
  | acquire i =>
    obtain ⟨c, hc, hs⟩ := Option.bind_eq_some_iff.1 hs
    obtain ⟨⟨hplace, hfree⟩, hs⟩ := Option.ite_none_right_eq_some.1 hs
    obtain rfl := Option.some.inj hs
    obtain ⟨hactive, hout⟩ := hwaiting hplace
    apply h.moved hc hactive (by decide)
    · intro e j hj
      by_cases he : e = c.entry
      · subst he
        rw [Function.update_self, hfree]
        exact ⟨fun heq => absurd (Option.some.inj heq).symm hj, fun heq => (by cases heq)⟩
      · rw [Function.update_of_ne he]
    · intro e
      by_cases he : e = c.entry
      · subst he
        rw [Function.update_self]
        exact ⟨fun _ => ⟨rfl, rfl⟩, fun _ => rfl⟩
      · rw [Function.update_of_ne he]
        exact ⟨fun heq => absurd heq (h.holder_ne hc hout e), fun hboth => absurd hboth.2 he⟩
  | poll i =>
    obtain ⟨c, -, hs⟩ := Option.bind_eq_some_iff.1 hs
    obtain ⟨-, hs⟩ := Option.ite_none_right_eq_some.1 hs
    exact Option.some.inj hs ▸ h
  | refuse i =>
    obtain ⟨c, hc, hs⟩ := Option.bind_eq_some_iff.1 hs
    obtain ⟨⟨hplace, -⟩, hs⟩ := Option.ite_none_right_eq_some.1 hs
    obtain rfl := Option.some.inj hs
    obtain ⟨hactive, hout⟩ := hwaiting hplace
    exact h.idle hc hactive hout (by decide) (by decide)
  | fail i =>
    obtain ⟨c, hc, hs⟩ := Option.bind_eq_some_iff.1 hs
    obtain ⟨⟨hplace, -⟩, hs⟩ := Option.ite_none_right_eq_some.1 hs
    obtain rfl := Option.some.inj hs
    obtain ⟨hactive, hout⟩ := hwaiting hplace
    exact h.idle hc hactive hout (by decide) (by decide)
  | blockEnd i =>
    obtain ⟨c, hc, hs⟩ := Option.bind_eq_some_iff.1 hs
    simp only [act] at hs
    split_ifs at hs with hinside hrefused
    · obtain rfl := Option.some.inj hs
      have hholds := h.inside i c hc hinside
      apply h.moved hc (decide_eq_true (by rw [hinside]; decide)) (by decide)
      · intro e j hj
        by_cases he : e = c.entry
        · subst he
          rw [Function.update_self, hholds]
          exact ⟨fun heq => (by cases heq), fun heq => absurd (Option.some.inj heq).symm hj⟩
        · rw [Function.update_of_ne he]
      · intro e
        refine ⟨fun heq => ?_, fun hboth => (by cases hboth.1)⟩
        by_cases he : e = c.entry
        · subst he
          rw [Function.update_self] at heq
          cases heq
        · rw [Function.update_of_ne he] at heq
          obtain ⟨c', hc', -, hentry⟩ := h.holder e i heq
          exact absurd (by rw [← hentry, Option.some.inj (hc'.symm.trans hc)]) he
    · obtain rfl := Option.some.inj hs
      exact h.idle hc (decide_eq_true (by rw [hrefused]; decide)) (by rw [hrefused]; decide) (by decide) (by decide)
  | leave i =>
    obtain ⟨c, hc, hs⟩ := Option.bind_eq_some_iff.1 hs
    obtain ⟨hplace, hs⟩ := Option.ite_none_right_eq_some.1 hs
    obtain rfl := Option.some.inj hs
    exact h.leave hc hplace

/-- **Keyed locks exclude per key and leave nothing behind.** In every run, at most one call is in a block with a key's
lock; a call that is not has none; a key's entry exists exactly while a call is under way for it, from its first guarded
section to its last, and counts them; and all calls under way for a key share one lock. -/
theorem excludes_per_key (es : List (LockEvent κ)) (s : KeyedLocks κ) (hrun : Runs KeyedLocks.step Any new es s) :
    (∀ (i j : ℕ) (c c' : LockCall κ), s.calls[i]? = some c → s.calls[j]? = some c' → c.place = .inside → c'.place = .inside →
      c.key = c'.key → i = j) ∧
    (∀ (i : ℕ) (c : LockCall κ), s.calls[i]? = some c → c.place ≠ .inside → ∀ e, s.holder e ≠ some i) ∧
    (∀ key, (s.locks key ≠ none ↔ ∃ c ∈ s.calls, c.active = true ∧ c.key = key) ∧
      ∀ e, s.locks key = some e → s.callers e = s.calls.countP fun c => c.active && c.key = key) ∧
    (∀ c ∈ s.calls, ∀ c' ∈ s.calls, c.active = true → c'.active = true → c.key = c'.key → c.entry = c'.entry) := by
  have h : s.Inv := hrun.keeps inv_new fun _ _ _ _ hs h => h.step hs
  have hshared : ∀ c ∈ s.calls, ∀ c' ∈ s.calls, c.active = true → c'.active = true → c.key = c'.key →
      c.entry = c'.entry := by
    intro c hc c' hc' hactive hactive' hkey
    have hbound := h.bound c hc hactive
    rw [hkey, h.bound c' hc' hactive'] at hbound
    exact (Option.some.inj hbound).symm
  refine ⟨fun i j c c' hc hc' hin hin' hkey => ?_, fun i c hc hplace => h.holder_ne hc hplace, fun key => ⟨⟨fun hne => ?_, ?_⟩,
    fun e he => ?_⟩, hshared⟩
  · have hactive : ∀ {c : LockCall κ}, c.place = .inside → c.active = true := fun hplace =>
      decide_eq_true (by rw [hplace]; decide)
    have hentry := hshared c (List.mem_of_getElem? hc) c' (List.mem_of_getElem? hc') (hactive hin) (hactive hin') hkey
    have hi := h.inside i c hc hin
    rw [hentry, h.inside j c' hc' hin'] at hi
    exact (Option.some.inj hi).symm
  · obtain ⟨e, he⟩ := Option.ne_none_iff_exists'.1 hne
    have hpos := h.pos key e he
    rw [h.callers key e he] at hpos
    obtain ⟨c, hc, hboth⟩ := List.countP_pos_iff.1 hpos
    rw [Bool.and_eq_true, decide_eq_true_eq] at hboth
    refine ⟨c, hc, hboth.1, ?_⟩
    exact h.apart c.key key e (hboth.2 ▸ h.bound c hc hboth.1) he
  · rintro ⟨c, hc, hactive, rfl⟩
    rw [h.bound c hc hactive]
    exact Option.some_ne_none _
  · rw [h.callers key e he]
    apply List.countP_congr
    intro c hc
    simp only [Bool.and_eq_true, decide_eq_true_eq]
    refine and_congr_right fun hactive => ⟨fun hentry => ?_, fun hkey => ?_⟩
    · exact h.apart c.key key e (hentry ▸ h.bound c hc hactive) he
    · have hbound := h.bound c hc hactive
      rw [hkey, he] at hbound
      exact (Option.some.inj hbound).symm

/-- A call holds a key's lock, and another tries for it in vain; the first is over. -/
def triedInVain : List (LockEvent String) :=
  [.enter "/media/a.mkv" .hold, .acquire 0, .enter "/media/a.mkv" .tried, .refuse 1, .blockEnd 0, .leave 0]

theorem triedInVain_isSome : (exec KeyedLocks.step new triedInVain).isSome = true := by decide +kernel

/-- The call that tried is in its block. -/
def toldFalse : KeyedLocks String := (exec KeyedLocks.step new triedInVain).get triedInVain_isSome

/-- The call that was told `False` has no lock, and is counted at the key's entry. -/
theorem excludes_per_key_toldFalse : (∀ e, toldFalse.holder e ≠ some 1) ∧ toldFalse.callers 0 = 1 := by
  have h := excludes_per_key triedInVain toldFalse (.of_exec (fun _ _ _ => trivial) (Option.some_get _).symm)
  have hcall : toldFalse.calls[1]? = some ⟨"/media/a.mkv", 0, .tried, .refused⟩ := by rfl
  refine ⟨h.2.1 1 _ hcall (by decide), ?_⟩
  rw [(h.2.2.1 "/media/a.mkv").2 0 (by decide +kernel)]
  decide +kernel

/-- **An entry outlives who holds or waits for its lock**: it stays while a call told `False` is in its block. -/
theorem entry_stays_toldFalse : ∃ s, Runs KeyedLocks.step Any new triedInVain s ∧ (s.locks "/media/a.mkv").isSome = true ∧
    s.callers 0 = 1 ∧ (s.calls.any LockCall.holdsOrWaits) = false :=
  ⟨toldFalse, .of_exec (fun _ _ _ => trivial) (Option.some_get _).symm, by decide +kernel, by decide +kernel,
    by decide +kernel⟩

end KeyedLocks

end MediaPreview.Markers
