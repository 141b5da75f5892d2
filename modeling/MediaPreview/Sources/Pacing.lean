import MediaPreview.Lib.Ledger
import MediaPreview.Lib.Runs
import MediaPreview.Sources.Ratelimit

/-!
# Callers at a source limiter

The limiter with the threads that call it. Each block under the lock is one event: the reserve section of `acquire`,
every turn of its wait loop, the refund of a slot given up, `refund`, `record`, `seed_usage` and `usage`; the time and
the day each of them reads come with it, and need not go forward; the clock gives the time as a `float`. The log tells what happened, newest first: it is what
the accounts are checked against.
-/

namespace MediaPreview.Sources

open Binary64 (fl)

/-- A reserved slot's ticket. -/
structure Ticket (δ : Type*) where
  /-- Which of the slots reserved so far. -/
  slotId : ℕ
  /-- `day`. -/
  day : δ
  /-- `remaining_gen`. -/
  gen : ℕ

/-- A thread in the wait loop. -/
structure Wait (δ : Type*) where
  /-- Its reservation. -/
  ticket : Ticket δ
  /-- `slot`. -/
  slot : ℚ
  /-- `deadline`. -/
  deadline : ℚ
  /-- A turn told it to wait; next it may find itself cancelled. -/
  polled : Bool

/-- Where a thread is. -/
inductive Caller (δ : Type*) where
  /-- Outside `acquire`, with the ticket it has left. -/
  | idle (ticket : Option (Ticket δ))
  /-- In the wait loop. -/
  | waiting (w : Wait δ)

/-- The reservation a thread can still give back. -/
def Caller.held {δ : Type*} : Caller δ → Option (Ticket δ)
  | .idle ticket => ticket
  | .waiting w => some w.ticket

/-- What is told of a run. -/
inductive Note where
  /-- A slot was reserved, with what was left of what limit. -/
  | reserved (slotId : ℕ) (slot : ℚ) (priority : ℤ) (remaining limit : Option ℤ)
  /-- A waiting caller's slot was moved. -/
  | moved (slotId : ℕ) (slot : ℚ)
  /-- A caller was told ALLOWED, and when, and the end of the block in force. -/
  | allowed (slotId : ℕ) (slot now blockedUntil : ℚ)
  /-- A slot was refunded. -/
  | refunded (slotId : ℕ)
  /-- A server's count, or the seed's, replaced what remains. -/
  | replaced (remaining : ℤ)
  /-- A day began. -/
  | newDay
  /-- The usage was seeded. -/
  | seeded (used : ℕ)

namespace Note

/-- The slot it reserves. -/
def opens : Note → Option ℕ
  | .reserved slotId _ _ _ _ => some slotId
  | _ => none

/-- The slot it refunds. -/
def closes : Note → Option ℕ
  | .refunded slotId => some slotId
  | _ => none

/-- The time slot it gives a reservation. -/
def gives : Note → Option (ℕ × ℚ)
  | .reserved slotId slot _ _ _ => some (slotId, slot)
  | .moved slotId slot => some (slotId, slot)
  | _ => none

/-- The reservation it lets go ahead, and its time slot. -/
def allows : Note → Option (ℕ × ℚ)
  | .allowed slotId slot _ _ => some (slotId, slot)
  | _ => none

/-- What remains is replaced. -/
def replaces : Note → Bool
  | .replaced _ => true
  | .newDay => true
  | _ => false

/-- A day begins. -/
def beginsDay : Note → Bool
  | .newDay => true
  | _ => false

/-- Slots and their refunds. -/
def slots : Ledger Note ℕ := ⟨opens, closes⟩

end Note

/-- What remained when it was last replaced. -/
def lastReplaced : List Note → Option ℤ
  | [] => none
  | .replaced remaining :: _ => some remaining
  | .newDay :: _ => none
  | _ :: log => lastReplaced log

/-- What was seeded since the day began. -/
def seededToday : List Note → ℕ
  | [] => 0
  | .newDay :: _ => 0
  | .seeded used :: _ => used
  | _ :: log => seededToday log

/-- What should remain: what it was last replaced by, less the slots reserved since and not refunded. -/
def remainingByLog (log : List Note) : Option ℤ :=
  (lastReplaced log).map fun remaining : ℤ => remaining - (Note.slots.openSince Note.replaces log).length

/-- What should be used: what was seeded, and the slots reserved since the day began and not refunded. -/
def usedByLog (log : List Note) : ℕ := seededToday log + (Note.slots.openSince Note.beginsDay log).length

/-- A limiter, its callers, how many slots they reserved and what happened. -/
structure Pacing (τ δ : Type*) where
  /-- The limiter. -/
  limiter : Limiter δ
  /-- The threads. -/
  callers : τ → Caller δ
  /-- How many slots were reserved. -/
  made : ℕ
  /-- What happened, newest first. -/
  log : List Note

/-- What happens. -/
inductive PacingEvent (τ δ : Type*) where
  /-- `acquire` finds itself cancelled at once. -/
  | refuse (t : τ)
  /-- The reserve section. -/
  | acquire (t : τ) (priority : ℤ) (maxWaitS : ℚ) (cap : Option ℚ) (today : δ) (now : ℚ)
  /-- A turn of the wait loop. -/
  | turn (t : τ) (now : ℚ)
  /-- The refund of a waiting caller that is cancelled. -/
  | cancel (t : τ)
  /-- `refund`. -/
  | refund (t : τ)
  /-- `record`. -/
  | record (t : τ) (status : Option ℤ) (headers : Option (List (String × String))) (today : δ) (now wallNow : ℚ)
  /-- `seed_usage`. -/
  | seed (day : δ) (used limit remaining : Option ℤ) (today : δ)
  /-- `usage`. -/
  | usage (today : δ)

namespace Pacing

variable {τ δ : Type*} [DecidableEq τ] [DecidableEq δ]

/-- A new limiter, and threads that never called it. -/
def new (τ : Type*) (day : δ) : Pacing τ δ := ⟨Limiter.new day, fun _ => .idle none, 0, []⟩

/-- A thread's place. -/
def setCaller (s : Pacing τ δ) (t : τ) (c : Caller δ) : Pacing τ δ := { s with callers := Function.update s.callers t c }

/-- The day is read. -/
def rollDay (s : Pacing τ δ) (today : δ) : Pacing τ δ :=
  { s with
    limiter := s.limiter.rollDay today
    log := if today = s.limiter.day then s.log else .newDay :: s.log }

/-- A ticket is given back. -/
def giveBack (s : Pacing τ δ) (k : Ticket δ) : Pacing τ δ :=
  { s with
    limiter := s.limiter.refund k.day k.gen
    log := .refunded k.slotId :: s.log }

/-- The reserve section lets the request through. -/
def reserve (cfg : LimiterConfig) (s : Pacing τ δ) (t : τ) (priority : ℤ) (slot deadline : ℚ) : Pacing τ δ :=
  { s with
    limiter := s.limiter.reserve cfg slot
    callers := Function.update s.callers t
      (.waiting ⟨⟨s.made, s.limiter.day, s.limiter.remainingGen⟩, slot, deadline, false⟩)
    made := s.made + 1
    log := .reserved s.made slot priority s.limiter.remaining s.limiter.limit :: s.log }

/-- The rest of a turn, with the slot it found. -/
def endTurn (s : Pacing τ δ) (t : τ) (w : Wait δ) (now : ℚ) : Pacing τ δ :=
  if fl (w.slot - now) ≤ 0 then
    { s with
      callers := Function.update s.callers t (.idle (some w.ticket))
      log := .allowed w.ticket.slotId w.slot now s.limiter.blockedUntil :: s.log }
  else s.setCaller t (.waiting { w with polled := true })

/-- A waiting caller's slot is moved past the block. -/
def move (cfg : LimiterConfig) (s : Pacing τ δ) (t : τ) (w : Wait δ) (slot : ℚ) : Pacing τ δ :=
  { s with
    limiter := s.limiter.hold cfg slot
    callers := Function.update s.callers t (.waiting { w with slot := slot })
    log := .moved w.ticket.slotId slot :: s.log }

/-- A turn of the wait loop. -/
def turn (cfg : LimiterConfig) (s : Pacing τ δ) (t : τ) (w : Wait δ) (now : ℚ) : Pacing τ δ :=
  if w.slot < s.limiter.blockedUntil then
    let slot := s.limiter.freeSlot now
    if w.deadline < slot then (s.giveBack w.ticket).setCaller t (.idle none)
    else (s.move cfg t w slot).endTurn t { w with slot := slot } now
  else s.endTurn t w now

/-- `record` and its note. -/
def recorded (cfg : LimiterConfig) (s : Pacing τ δ) (status : Option ℤ) (headers : Option (List (String × String)))
    (now wallNow : ℚ) : Pacing τ δ :=
  { s with
    limiter := s.limiter.record cfg status headers now wallNow
    log := ((status.bind fun _ => remainingHeader cfg.parsers headers).elim [] fun r => [.replaced r]) ++ s.log }

/-- `seed_usage`, where it goes through, and its notes. -/
def seedUsage (s : Pacing τ δ) (used limit remaining : Option ℤ) : Pacing τ δ :=
  { s with
    limiter := s.limiter.seedUsage used limit remaining
    log := ((remaining.map (max 0)).elim [] fun r => [.replaced r]) ++ .seeded (used.getD 0).toNat :: s.log }

/-- One step. -/
def step (cfg : LimiterConfig) (s : Pacing τ δ) : PacingEvent τ δ → Option (Pacing τ δ)
  | .refuse t =>
    match s.callers t with
    | .idle _ => some (s.setCaller t (.idle none))
    | .waiting _ => none
  | .acquire t priority maxWaitS cap today now =>
    match s.callers t with
    | .idle _ =>
      let s := (s.setCaller t (.idle none)).rollDay today
      let now := fl now
      let deadline := fl (now + cap.elim maxWaitS (min maxWaitS))
      let slot := s.limiter.freeSlot now
      some (if s.limiter.exhausted cfg priority ∨ deadline < slot then s else s.reserve cfg t priority slot deadline)
    | .waiting _ => none
  | .turn t now =>
    match s.callers t with
    | .idle _ => none
    | .waiting w => some (s.turn cfg t w (fl now))
  | .cancel t =>
    match s.callers t with
    | .idle _ => none
    | .waiting w => if w.polled then some ((s.giveBack w.ticket).setCaller t (.idle none)) else none
  | .refund t =>
    match s.callers t with
    | .idle none => some s
    | .idle (some k) => some ((s.giveBack k).setCaller t (.idle none))
    | .waiting _ => none
  | .record t status headers today now wallNow =>
    match s.callers t with
    | .idle _ => some (((s.setCaller t (.idle none)).rollDay today).recorded cfg status headers (fl now) (fl wallNow))
    | .waiting _ => none
  | .seed day used limit remaining today =>
    let s := s.rollDay today
    some (if s.limiter.seeds day then s.seedUsage used limit remaining else s)
  | .usage today => some (s.rollDay today)

end Pacing

end MediaPreview.Sources
