import Mathlib.Logic.Function.Basic
import MediaPreview.Lib.Binary64

/-!
# The source limiter

`SourceLimiter` (`markers/sources/ratelimit.py`): the fields its lock guards, and what each block under the lock makes of
them. Times are `float`s, and each sum and product of them is rounded (`Binary64.fl`). How `float` and
`parsedate_to_datetime` read a header is a parameter (`Parsers`): any reading will do.
-/

namespace MediaPreview.Sources

open Binary64

/-- `PRIORITY_LOW`. -/
def priorityLow : ℤ := 3

/-- `_MAX_BLOCK_S`. -/
def maxBlockS : ℚ := 3600

/-- `_DEFAULT_429_S`. -/
def default429S : ℚ := 300

/-- `_MIN_RETRY_S`. -/
def minRetryS : ℚ := 1

/-- `_EPOCH_THRESHOLD_S`. -/
def epochThresholdS : ℚ := 1000000000

/-- How a header's text is read. -/
structure Parsers where
  /-- `float`, where it is a finite number. -/
  float : String → Option ℚ
  /-- `parsedate_to_datetime`, as Unix time. -/
  date : String → Option ℚ

/-- A limiter's settings. -/
structure LimiterConfig where
  /-- `min_interval_s`. -/
  minIntervalS : ℚ
  /-- `reserve_fraction`. -/
  reserveFraction : ℚ
  /-- `failure_threshold`. -/
  failureThreshold : ℤ
  /-- `circuit_open_s`. -/
  circuitOpenS : ℚ
  /-- How headers are read. -/
  parsers : Parsers

/-! ### Headers -/

/-- `int`. -/
def toInt (x : ℚ) : ℤ := if x < 0 then ⌈x⌉ else ⌊x⌋

/-- `_number`. -/
def number (p : Parsers) (value : Option String) : Option ℚ := value.bind p.float

/-- `_delay_s`. -/
def delayS (p : Parsers) (value : Option String) (wallNow : ℚ) : Option ℚ :=
  (match number p value with
    | some x => some x
    | none =>
      match value with
      | none => none
      | some value => if value = "" then none else p.date value).map
    fun x => max 0 (if epochThresholdS ≤ x then fl (x - wallNow) else x)

/-- `lowered.get`: of two headers of one name the later counts. -/
def lowered (headers : Option (List (String × String))) (name : String) : Option String :=
  ((headers.getD []).reverse.find? fun h => h.1.toLower = name).map Prod.snd

/-- What `x-usagelimit-remaining` says, where it does. -/
def remainingHeader (p : Parsers) (headers : Option (List (String × String))) : Option ℤ :=
  (number p (lowered headers "x-usagelimit-remaining")).map fun x => max 0 (toInt x)

/-! ### The fields -/

/-- The fields of a limiter. -/
structure Limiter (δ : Type*) where
  /-- `_next_slot`. -/
  nextSlot : ℚ
  /-- `_blocked_until`. -/
  blockedUntil : ℚ
  /-- `_failures`. -/
  failures : ℤ
  /-- `_day`. -/
  day : δ
  /-- `_used`. -/
  used : ℕ
  /-- `_limit`. -/
  limit : Option ℤ
  /-- `_remaining`. -/
  remaining : Option ℤ
  /-- `_remaining_gen`. -/
  remainingGen : ℕ
  /-- `_usage_seq`. -/
  usageSeq : ℕ

namespace Limiter

variable {δ : Type*}

/-- A new limiter. -/
def new (day : δ) : Limiter δ := ⟨0, 0, 0, day, 0, none, none, 0, 0⟩

/-- `_replace_remaining`. -/
def replaceRemaining (l : Limiter δ) (value : Option ℤ) : Limiter δ :=
  { l with remaining := value, remainingGen := l.remainingGen + 1 }

variable [DecidableEq δ]

/-- `_roll_day`. -/
def rollDay (l : Limiter δ) (today : δ) : Limiter δ :=
  if today = l.day then l else { l with day := today, used := 0 }.replaceRemaining none

/-- `_refund`. -/
def refund (l : Limiter δ) (day : δ) (remainingGen : ℕ) : Limiter δ :=
  { l with
    used := if day = l.day ∧ 0 < l.used then l.used - 1 else l.used
    remaining := if remainingGen = l.remainingGen then l.remaining.map (· + 1) else l.remaining }

/-- The daily budget lets no request of this priority through. -/
def exhausted (cfg : LimiterConfig) (l : Limiter δ) (priority : ℤ) : Bool :=
  l.remaining.any fun remaining : ℤ => remaining ≤ 0 ||
    priorityLow ≤ priority && l.limit.any fun limit : ℤ => (remaining : ℚ) ≤ fl (cfg.reserveFraction * fl limit)

/-- The next free slot. -/
def freeSlot (l : Limiter δ) (now : ℚ) : ℚ := max now (max l.nextSlot l.blockedUntil)

/-- A slot is taken. -/
def hold (cfg : LimiterConfig) (l : Limiter δ) (slot : ℚ) : Limiter δ := { l with nextSlot := fl (slot + cfg.minIntervalS) }

/-- A slot is reserved. -/
def reserve (cfg : LimiterConfig) (l : Limiter δ) (slot : ℚ) : Limiter δ :=
  { l.hold cfg slot with used := l.used + 1, remaining := l.remaining.map (· - 1) }

/-- `_block`. -/
def block (l : Limiter δ) (now seconds : ℚ) : Limiter δ :=
  { l with blockedUntil := max l.blockedUntil (fl (now + min seconds maxBlockS)) }

/-- `record`'s count of failures. -/
def countFailure (cfg : LimiterConfig) (l : Limiter δ) (status : Option ℤ) (now : ℚ) : Limiter δ :=
  if status.all fun status => 500 ≤ status then
    if cfg.failureThreshold ≤ l.failures + 1 then
      { l with
        blockedUntil := max l.blockedUntil (fl (now + cfg.circuitOpenS))
        failures := cfg.failureThreshold - 1 }
    else { l with failures := l.failures + 1 }
  else { l with failures := 0 }

/-- The daily limit, where a positive one is given. -/
def setLimit (l : Limiter δ) (limit : Option ℤ) : Limiter δ := { l with limit := limit.or l.limit }

/-- How long `_apply_headers` blocks for a closed rate window. -/
def rateBlock (rateRemaining rateReset : Option ℚ) : Option ℚ :=
  if rateRemaining.any (· ≤ 0) then rateReset.filter (· ≠ 0) else none

/-- How long it blocks for the status. -/
def statusBlock (status : ℤ) (retryAfter rateReset : Option ℚ) : Option ℚ :=
  if status = 429 then some (max (retryAfter.getD ((rateReset.filter (· ≠ 0)).getD default429S)) minRetryS)
  else if 500 ≤ status then retryAfter.map (max · minRetryS)
  else none

/-- A block, where there is one. -/
def blockFor (l : Limiter δ) (now : ℚ) (seconds : Option ℚ) : Limiter δ := seconds.elim l (l.block now)

/-- `_apply_headers`. -/
def applyHeaders (cfg : LimiterConfig) (l : Limiter δ) (status : ℤ) (headers : Option (List (String × String)))
    (now wallNow : ℚ) : Limiter δ :=
  let p := cfg.parsers
  let l := l.setLimit (((number p (lowered headers "x-usagelimit-limit")).filter (0 < ·)).map toInt)
  let l := (remainingHeader p headers).elim l fun remaining => l.replaceRemaining (some remaining)
  let rateReset := delayS p (lowered headers "x-ratelimit-reset") wallNow
  let l := l.blockFor now (rateBlock (number p (lowered headers "x-ratelimit-remaining")) rateReset)
  l.blockFor now (statusBlock status (delayS p (lowered headers "retry-after") wallNow) rateReset)

/-- `record`, under the lock. -/
def record (cfg : LimiterConfig) (l : Limiter δ) (status : Option ℤ) (headers : Option (List (String × String)))
    (now wallNow : ℚ) : Limiter δ :=
  let l := l.countFailure cfg status now
  let l := status.elim l fun status => l.applyHeaders cfg status headers now wallNow
  { l with usageSeq := l.usageSeq + 1 }

/-- `seed_usage` goes through. -/
def seeds (l : Limiter δ) (day : δ) : Bool := day = l.day && l.used = 0 && l.usageSeq = 0

/-- `seed_usage`, where it does. -/
def seedUsage (l : Limiter δ) (used limit remaining : Option ℤ) : Limiter δ :=
  let l := { l with used := (used.getD 0).toNat }.setLimit (limit.filter (0 < ·))
  remaining.elim l fun remaining => l.replaceRemaining (some (max 0 remaining))

/-! ### What a response leaves alone -/

omit [DecidableEq δ]

/-- The next slot, the day and the counts are the same. -/
structure SameCounts (l l' : Limiter δ) : Prop where
  /-- The next slot. -/
  nextSlot : l'.nextSlot = l.nextSlot
  /-- The day. -/
  day : l'.day = l.day
  /-- What was used. -/
  used : l'.used = l.used
  /-- What remains. -/
  remaining : l'.remaining = l.remaining
  /-- Its generation. -/
  remainingGen : l'.remainingGen = l.remainingGen

namespace SameCounts

variable {l l' l'' : Limiter δ}

theorem refl (l : Limiter δ) : SameCounts l l := ⟨rfl, rfl, rfl, rfl, rfl⟩

theorem trans (h : SameCounts l l') (h' : SameCounts l' l'') : SameCounts l l'' :=
  ⟨h'.nextSlot.trans h.nextSlot, h'.day.trans h.day, h'.used.trans h.used, h'.remaining.trans h.remaining,
    h'.remainingGen.trans h.remainingGen⟩

theorem replaceRemaining (h : SameCounts l l') (value : Option ℤ) :
    SameCounts (l.replaceRemaining value) (l'.replaceRemaining value) :=
  ⟨h.nextSlot, h.day, h.used, rfl, congrArg (· + 1) h.remainingGen⟩

end SameCounts

variable {l : Limiter δ} {now : ℚ}

theorem sameCounts_setLimit (limit : Option ℤ) : SameCounts l (l.setLimit limit) := ⟨rfl, rfl, rfl, rfl, rfl⟩

theorem sameCounts_blockFor (seconds : Option ℚ) : SameCounts l (l.blockFor now seconds) := by
  cases seconds with
  | none => exact .refl l
  | some seconds => exact ⟨rfl, rfl, rfl, rfl, rfl⟩

theorem sameCounts_countFailure (cfg : LimiterConfig) (status : Option ℤ) :
    SameCounts l (l.countFailure cfg status now) := by
  unfold countFailure
  split_ifs
  · exact ⟨rfl, rfl, rfl, rfl, rfl⟩
  · exact ⟨rfl, rfl, rfl, rfl, rfl⟩
  · exact ⟨rfl, rfl, rfl, rfl, rfl⟩

/-- What remains is replaced, where there is something to replace it. -/
def replaceBy (l : Limiter δ) (value : Option ℤ) : Limiter δ :=
  value.elim l fun remaining => l.replaceRemaining (some remaining)

theorem SameCounts.replaceBy {l' : Limiter δ} (h : SameCounts l l') (value : Option ℤ) :
    SameCounts (l.replaceBy value) (l'.replaceBy value) := by
  cases value with
  | none => exact h
  | some remaining => exact h.replaceRemaining _

/-- **A response replaces what remains** by what the server counts, if it does, and touches no other count. -/
theorem sameCounts_record (cfg : LimiterConfig) (status : Option ℤ) (headers : Option (List (String × String)))
    (wallNow : ℚ) : SameCounts (l.replaceBy (status.bind fun _ => remainingHeader cfg.parsers headers))
      (l.record cfg status headers now wallNow) := by
  have hseq : ∀ l : Limiter δ, SameCounts l { l with usageSeq := l.usageSeq + 1 } := fun _ => ⟨rfl, rfl, rfl, rfl, rfl⟩
  cases status with
  | none => exact (sameCounts_countFailure cfg none).trans (hseq _)
  | some status =>
    apply SameCounts.trans _ (hseq _)
    exact ((((sameCounts_countFailure cfg _).trans (sameCounts_setLimit _)).replaceBy _).trans
      (sameCounts_blockFor _)).trans (sameCounts_blockFor _)

/-- So does a seed, which says what was used too. -/
theorem sameCounts_seedUsage (used limit remaining : Option ℤ) :
    SameCounts ({ l with used := (used.getD 0).toNat }.replaceBy (remaining.map (max 0)))
      (l.seedUsage used limit remaining) := by
  cases remaining with
  | none => exact sameCounts_setLimit _
  | some remaining => exact (sameCounts_setLimit _).replaceRemaining _

/-! ### The end of the block -/

/-- A block ends at a `float`. -/
def FloatBlock (l : Limiter δ) : Prop := fl l.blockedUntil = l.blockedUntil

theorem FloatBlock.blockFor (h : l.FloatBlock) (seconds : Option ℚ) : (l.blockFor now seconds).FloatBlock := by
  cases seconds with
  | none => exact h
  | some seconds => exact fl_max h (fl_fl _)

theorem FloatBlock.countFailure (h : l.FloatBlock) (cfg : LimiterConfig) (status : Option ℤ) :
    (l.countFailure cfg status now).FloatBlock := by
  unfold Limiter.countFailure
  split_ifs
  · exact fl_max h (fl_fl _)
  · exact h
  · exact h

/-- **So it does after a response.** -/
theorem FloatBlock.record (h : l.FloatBlock) (cfg : LimiterConfig) (status : Option ℤ)
    (headers : Option (List (String × String))) (wallNow : ℚ) : (l.record cfg status headers now wallNow).FloatBlock := by
  have hcount : (l.countFailure cfg status now).FloatBlock := h.countFailure cfg status
  cases status with
  | none => exact hcount
  | some status =>
    have hremaining : ∀ (l : Limiter δ) (value : Option ℤ), l.FloatBlock →
        (value.elim l fun remaining => l.replaceRemaining (some remaining)).FloatBlock := by
      intro l value hl
      cases value with
      | none => exact hl
      | some remaining => exact hl
    exact ((hremaining _ _ (show FloatBlock (Limiter.setLimit _ _) from hcount)).blockFor _).blockFor _

theorem FloatBlock.seedUsage (h : l.FloatBlock) (used limit remaining : Option ℤ) :
    (l.seedUsage used limit remaining).FloatBlock := by
  cases remaining with
  | none => exact h
  | some remaining => exact h

end Limiter

end MediaPreview.Sources
