import Mathlib.Data.List.Chain
import Mathlib.Data.Rat.Floor
import MediaPreview.Credits.ReachBack

/-!
# Looking back before the tail

The loop of `_read_credits` in `markers/credits/detector.py`: where the tail of a file opens on a run of credits, the
keyframes before it are read too, one window after another, until there is story enough before the run or no room
(`_next_step_start`). Whatever the rule says of the rows and whatever the windows hold, the windows go back from the tail
without a gap, go on as long as the rule asks for more and there is room, and end (`lookBack_spec`).

Times are binary64 numbers. Far beyond the length of any file 120 s are less than their spacing, and the loop stays where
it is (`lookBack_far`); so the result is about times up to `2 ^ 53` seconds, and the lengths are the ones the code computes.
-/

namespace MediaPreview.Credits

open Binary64

/-- `STORY_BEFORE_RUN_S`. -/
def storyBeforeRun : ℚ := 30

/-- `READ_BEFORE_TAIL_S`. -/
def readBeforeTail : ℚ := 120

/-- `_next_step_start`. -/
def nextStepStart (readFrom : ℚ) : Option ℚ → Option ℚ
  | none => none
  | some earliestStart =>
    let floor := fl (earliestStart - storyBeforeRun)
    if fl (readFrom - floor) < storyBeforeRun then none
    else
      let start := fl (readFrom - readBeforeTail)
      some (if storyBeforeRun ≤ fl (start - floor) then start else floor)

/-- What the loop asks of the rule. -/
structure Rule where
  /-- The tail's rows hold a run, and `opens_on_the_run`. -/
  opensOnTheRun : List Row → Bool
  /-- `joined_before` gives rows, of those before and the tail's. -/
  joinsBefore : List Row → List Row → Bool
  /-- The rows hold a run, with `too_little_story` before it. -/
  tooLittleStory : List Row → Bool

/-- What comes of a window that is to be read. -/
inductive Decoded where
  /-- The job was cancelled, or the time ran out, before. -/
  | refused
  /-- Decoding failed. -/
  | failed
  /-- The window's rows. -/
  | rows (rows : List Row)

/-- `rows_before`. -/
def rowsBefore (before rows : List Row) : List Row :=
  before.filter (fun row => rows.all fun other => row.time < other.time) ++ rows

/-- What the loop leaves. -/
structure LookBack where
  /-- The windows read, in turn, each with its start and its end. -/
  windows : List (ℚ × ℚ)
  /-- `key_rows`; `none` where it raised. -/
  keyRows : Option (List Row)
  deriving DecidableEq

/-- The loop, of what comes of the windows to be read from here on; `none` where the fuel is used up. -/
def laterSteps (rule : Rule) (earliestStart : Option ℚ) : ℕ → (ℕ → Decoded) → List Row → ℚ → Option LookBack
  | 0, _, _, _ => none
  | fuel + 1, steps, keyRows, beforeStart =>
    if rule.tooLittleStory keyRows then
      match nextStepStart beforeStart earliestStart with
      | none => some ⟨[], some keyRows⟩
      | some start =>
        match steps 0 with
        | .refused => some ⟨[], none⟩
        | .failed => some ⟨[(start, beforeStart)], none⟩
        | .rows rows =>
          (laterSteps rule earliestStart fuel (fun i => steps (i + 1)) (rowsBefore rows keyRows) start).map fun later =>
            ⟨(start, beforeStart) :: later.windows, later.keyRows⟩
    else some ⟨[], some keyRows⟩

/-- The windows before the tail, whose rows are given. -/
def lookBack (rule : Rule) (earliestStart : Option ℚ) (steps : ℕ → Decoded) (tailStart : ℚ) (keyRows : List Row)
    (fuel : ℕ) : Option LookBack :=
  if 0 < tailStart ∧ rule.opensOnTheRun keyRows then
    let beforeStart := max 0 (fl (tailStart - readBeforeTail))
    match steps 0 with
    | .refused => some ⟨[], none⟩
    | .failed => some ⟨[(beforeStart, tailStart)], none⟩
    | .rows rows =>
      if rule.joinsBefore rows keyRows then
        (laterSteps rule earliestStart fuel (fun i => steps (i + 1)) (rowsBefore rows keyRows) beforeStart).map fun later =>
          ⟨(beforeStart, tailStart) :: later.windows, later.keyRows⟩
      else some ⟨[(beforeStart, tailStart)], some keyRows⟩
  else some ⟨[], some keyRows⟩

/-! ### A further window -/

variable {readFrom start : ℚ} {earliestStart : Option ℚ}

/-- **A step back over the floor is at most 150 s long**: what the code took for less than 30 s above the floor is, less
the 120 s of a step. -/
theorem fl_sub_le_of_lt {floor : ℚ} (hfrom : fl readFrom = readFrom) (hfloor : fl floor = floor)
    (hbound : |readFrom| ≤ 2 ^ 53) (hbound' : |floor| ≤ 2 ^ 53) (h : fl (fl (readFrom - 120) - floor) < 30) :
    fl (readFrom - floor) ≤ 150 := by
  refine fl_le (x := 150) (by decide +kernel) ?_
  by_contra hlong
  have hshort : fl (readFrom - 120) - floor < 30 := lt_of_fl_lt (by decide +kernel) h
  have hnear : |fl (readFrom - 120) - (readFrom - 120)| ≤ |floor + 30 - (readFrom - 120)| := by
    obtain hge | hlt := le_or_gt 60 readFrom
    · -- the step's start is exact
      have hexact : fl (readFrom + (-120 : ℤ)) = readFrom + (-120 : ℤ) := by
        refine fl_add_intCast hfrom hbound ?_
        push_cast
        rw [abs_le, abs_of_nonneg (by linarith)]
        constructor <;> linarith
      push_cast at hexact
      rw [← sub_eq_add_neg] at hexact
      rw [hexact, sub_self, abs_zero]
      exact abs_nonneg _
    · -- the floor is far below, and 30 s above it is a number
      have hexact : fl (floor + (30 : ℤ)) = floor + (30 : ℤ) := by
        refine fl_add_intCast hfloor hbound' ?_
        push_cast
        rw [abs_le, abs_of_neg (by linarith : floor < 0)]
        constructor <;> linarith
      push_cast at hexact
      exact abs_fl_sub_le_abs hexact
  rw [abs_of_nonpos (by linarith : fl (readFrom - 120) - (readFrom - 120) ≤ 0),
    abs_of_nonpos (by linarith : floor + 30 - (readFrom - 120) ≤ 0)] at hnear
  linarith

/-- Up to `2 ^ 54` rounding is off by 2 at most. -/
theorem abs_fl_sub_le_two {q : ℚ} (h : |q| ≤ 2 ^ 54) : |fl q - q| ≤ 2 := by
  have herror := abs_fl_sub_le q
  linarith

/-- **A further window** lies before what was read, is from 30 s to 150 s long and starts no earlier than the floor. -/
theorem nextStepStart_spec (hfrom : fl readFrom = readFrom) (hbound : readFrom ≤ 2 ^ 53)
    (hearliest : ∀ earliest ∈ earliestStart, -2 ^ 52 ≤ earliest) (h : nextStepStart readFrom earliestStart = some start) :
    fl start = start ∧ 30 ≤ fl (readFrom - start) ∧ fl (readFrom - start) ≤ 150 ∧
      ∃ earliest ∈ earliestStart, fl (earliest - 30) ≤ start := by
  cases earliestStart with
  | none => cases h
  | some earliest =>
    have hstory : storyBeforeRun = 30 := rfl
    have hread : readBeforeTail = 120 := rfl
    unfold nextStepStart at h
    dsimp only at h
    rw [hstory, hread] at h
    by_cases hroom : fl (readFrom - fl (earliest - 30)) < 30
    · rw [if_pos hroom] at h
      cases h
    · rw [if_neg hroom] at h
      have hfloor : -2 ^ 53 ≤ fl (earliest - 30) :=
        le_fl (by decide +kernel) (by linarith [hearliest earliest rfl])
      have hlower : fl (earliest - 30) < readFrom := by
        by_contra hle
        exact hroom (lt_of_le_of_lt (fl_le fl_zero (by linarith)) (by norm_num))
      have habs : |readFrom| ≤ 2 ^ 53 := abs_le.2 ⟨by linarith, hbound⟩
      by_cases hlong : 30 ≤ fl (fl (readFrom - 120) - fl (earliest - 30))
      · rw [if_pos hlong] at h
        obtain rfl := Option.some.inj h
        have herror := abs_le.1 (abs_fl_sub_le_two (q := readFrom - 120) (abs_le.2 ⟨by linarith, by linarith⟩))
        refine ⟨fl_fl _, le_fl (by decide +kernel) (by linarith), fl_le (by decide +kernel) (by linarith), earliest, rfl, ?_⟩
        by_contra hle
        exact hlong.not_gt (lt_of_le_of_lt (fl_le fl_zero (by linarith)) (by norm_num))
      · rw [if_neg hlong] at h
        obtain rfl := Option.some.inj h
        exact ⟨fl_fl _, not_lt.1 hroom, fl_sub_le_of_lt hfrom (fl_fl _) habs (abs_le.2 ⟨hfloor, by linarith⟩) (not_le.1 hlong),
          earliest, rfl, le_rfl⟩

/-- There is no further window: of what lies before, less than 30 s is left above the floor. -/
theorem lt_of_nextStepStart {earliest : ℚ} (h : nextStepStart readFrom (some earliest) = none) :
    fl (readFrom - fl (earliest - 30)) < 30 := by
  have hstory : storyBeforeRun = 30 := rfl
  by_contra hroom
  unfold nextStepStart at h
  dsimp only at h
  rw [hstory, if_neg hroom] at h
  cases h

/-- How many further windows there is room for: each takes more than 29 s. -/
def room (readFrom : ℚ) (earliestStart : Option ℚ) : ℕ := ⌊(readFrom - fl (earliestStart.getD 0 - 30)) / 29⌋₊

/-- What a window of 30 s or more by the code's reckoning leaves. -/
theorem lt_of_le_fl_sub (h : 30 ≤ fl (readFrom - start)) : start + 29 < readFrom := by
  by_contra hle
  have := fl_le (x := 29) (by decide +kernel) (by linarith : readFrom - start ≤ 29)
  linarith

theorem room_lt {earliest : ℚ} (hlong : 30 ≤ fl (readFrom - start)) (hfloor : fl (earliest - 30) ≤ start) :
    room start (some earliest) < room readFrom (some earliest) := by
  have hgap := lt_of_le_fl_sub hlong
  have hpos : 0 ≤ (start - fl (earliest - 30)) / 29 := by linarith
  have hle : (start - fl (earliest - 30)) / 29 + 1 ≤ (readFrom - fl (earliest - 30)) / 29 := by linarith
  have hfloors := Nat.floor_mono hle
  rw [Nat.floor_add_one hpos] at hfloors
  exact hfloors

/-! ### The windows that go on from one -/

/-- The rows read, with those of the first windows put before them. -/
def rowsAfter (steps : ℕ → Decoded) (keyRows : List Row) : ℕ → List Row
  | 0 => keyRows
  | n + 1 =>
    match steps 0 with
    | .rows rows => rowsAfter (fun i => steps (i + 1)) (rowsBefore rows keyRows) n
    | _ => rowsAfter (fun i => steps (i + 1)) keyRows n

/-- The rule asks for another window after the first ones, which were all read. -/
structure AsksOn (rule : Rule) (steps : ℕ → Decoded) (keyRows : List Row) (n : ℕ) : Prop where
  decoded : ∀ i < n, ∃ rows, steps i = .rows rows
  story : rule.tooLittleStory (rowsAfter steps keyRows n) = true

variable {rule : Rule} {steps : ℕ → Decoded} {keyRows rows : List Row}

theorem asksOn_zero : AsksOn rule steps keyRows 0 ↔ rule.tooLittleStory keyRows = true :=
  ⟨fun h => h.story, fun h => ⟨fun _ hi => absurd hi (Nat.not_lt_zero _), h⟩⟩

/-- What the rule asks after one more window. -/
theorem asksOn_succ (hrows : steps 0 = .rows rows) {n : ℕ} :
    AsksOn rule steps keyRows (n + 1) ↔ AsksOn rule (fun i => steps (i + 1)) (rowsBefore rows keyRows) n := by
  have hafter : rowsAfter steps keyRows (n + 1) = rowsAfter (fun i => steps (i + 1)) (rowsBefore rows keyRows) n := by
    rw [rowsAfter, hrows]
  constructor
  · rintro ⟨hdecoded, hstory⟩
    exact ⟨fun i hi => hdecoded (i + 1) (Nat.succ_lt_succ hi), hafter ▸ hstory⟩
  · rintro ⟨hdecoded, hstory⟩
    refine ⟨fun i hi => ?_, hafter ▸ hstory⟩
    cases i with
    | zero => exact ⟨rows, hrows⟩
    | succ i => exact hdecoded i (Nat.lt_of_succ_lt_succ hi)

/-- What the windows behind one that starts at `readFrom` are: they go on from it, each is in order, there are more as long
as the rule asks for more, and then little room is left. -/
structure GoesOn (rule : Rule) (earliestStart : Option ℚ) (steps : ℕ → Decoded) (keyRows : List Row) (readFrom : ℚ)
    (later : LookBack) : Prop where
  /-- Each starts where the one before ends. -/
  chain : List.IsChain (fun a b : ℚ × ℚ => b.2 = a.1) ((readFrom, readFrom) :: later.windows)
  long : ∀ w ∈ later.windows, 30 ≤ fl (w.2 - w.1) ∧ fl (w.2 - w.1) ≤ 150
  above : ∀ w ∈ later.windows, ∃ earliest ∈ earliestStart, fl (earliest - 30) ≤ w.1
  asked : ∀ i < later.windows.length, AsksOn rule steps keyRows i
  noRoom : AsksOn rule steps keyRows later.windows.length → steps later.windows.length = .refused ∨
    ∀ earliest ∈ earliestStart, fl ((later.windows.getLast?.map Prod.fst).getD readFrom - fl (earliest - 30)) < 30
  joined : ∀ rows ∈ later.keyRows, rows = rowsAfter steps keyRows later.windows.length
  few : later.windows.length ≤ room readFrom earliestStart

/-- No window goes on from it: the rule asks for none, or it was refused, or there is no room. -/
theorem GoesOn.nil {found : Option (List Row)} (hfound : ∀ rows ∈ found, rows = keyRows)
    (h : rule.tooLittleStory keyRows = true → steps 0 = .refused ∨
      ∀ earliest ∈ earliestStart, fl (readFrom - fl (earliest - 30)) < 30) :
    GoesOn rule earliestStart steps keyRows readFrom ⟨[], found⟩ where
  chain := List.isChain_singleton _
  long := fun _ hw => (by cases hw)
  above := fun _ hw => (by cases hw)
  asked := fun _ hi => absurd hi (Nat.not_lt_zero _)
  noRoom := fun hasks => h (asksOn_zero.1 hasks)
  joined := hfound
  few := Nat.zero_le _

/-- A window and those that go on from it are in order. -/
theorem isChain_cons_windows {w : ℚ × ℚ} {windows : List (ℚ × ℚ)} (hw : w.2 = readFrom)
    (h : List.IsChain (fun a b : ℚ × ℚ => b.2 = a.1) ((w.1, w.1) :: windows)) :
    List.IsChain (fun a b : ℚ × ℚ => b.2 = a.1) ((readFrom, readFrom) :: w :: windows) := by
  refine List.IsChain.cons_cons hw ?_
  cases windows with
  | nil => exact List.isChain_singleton _
  | cons v windows =>
    rw [List.isChain_cons_cons] at h
    exact List.IsChain.cons_cons h.1 h.2

/-- Where the last of a window and those behind it starts. -/
theorem getLast?_cons_map_fst (w : ℚ × ℚ) (windows : List (ℚ × ℚ)) :
    (((w :: windows).getLast?.map Prod.fst).getD readFrom) = (windows.getLast?.map Prod.fst).getD w.1 := by
  cases windows with
  | nil => rfl
  | cons v windows =>
    rw [List.getLast?_cons_cons]
    cases hlast : (v :: windows).getLast? with
    | none => exact absurd (List.getLast?_eq_none_iff.1 hlast) (List.cons_ne_nil _ _)
    | some last => rfl

/-- One more window that was read, before windows that go on from it. -/
theorem GoesOn.cons {later : LookBack} (hasks : rule.tooLittleStory keyRows = true) (hrows : steps 0 = .rows rows)
    (hlong : 30 ≤ fl (readFrom - start)) (hshort : fl (readFrom - start) ≤ 150)
    (habove : ∃ earliest ∈ earliestStart, fl (earliest - 30) ≤ start)
    (h : GoesOn rule earliestStart (fun i => steps (i + 1)) (rowsBefore rows keyRows) start later) :
    GoesOn rule earliestStart steps keyRows readFrom ⟨(start, readFrom) :: later.windows, later.keyRows⟩ where
  chain := isChain_cons_windows rfl h.chain
  long := List.forall_mem_cons.2 ⟨⟨hlong, hshort⟩, h.long⟩
  above := List.forall_mem_cons.2 ⟨habove, h.above⟩
  asked := by
    intro i hi
    cases i with
    | zero => exact asksOn_zero.2 hasks
    | succ i => exact (asksOn_succ hrows).2 (h.asked i (Nat.lt_of_succ_lt_succ hi))
  noRoom := by
    intro hmore
    rw [getLast?_cons_map_fst]
    exact h.noRoom ((asksOn_succ hrows).1 hmore)
  joined := by
    intro found hfound
    rw [h.joined found hfound, List.length_cons, rowsAfter, hrows]
  few := by
    obtain ⟨earliest, hearliest, hfloor⟩ := habove
    obtain rfl : earliestStart = some earliest := hearliest
    have hroom := room_lt hlong hfloor
    have hfew := h.few
    rw [List.length_cons]
    omega

/-- A window whose decoding failed is the last. -/
theorem GoesOn.failed (hasks : rule.tooLittleStory keyRows = true) (hfailed : steps 0 = .failed)
    (hlong : 30 ≤ fl (readFrom - start)) (hshort : fl (readFrom - start) ≤ 150)
    (habove : ∃ earliest ∈ earliestStart, fl (earliest - 30) ≤ start) :
    GoesOn rule earliestStart steps keyRows readFrom ⟨[(start, readFrom)], none⟩ where
  chain := isChain_cons_windows rfl (List.isChain_singleton _)
  long := List.forall_mem_cons.2 ⟨⟨hlong, hshort⟩, fun _ hw => (by cases hw)⟩
  above := List.forall_mem_cons.2 ⟨habove, fun _ hw => (by cases hw)⟩
  asked := by
    intro i hi
    obtain rfl := Nat.lt_one_iff.1 hi
    exact asksOn_zero.2 hasks
  noRoom := by
    intro hmore
    obtain ⟨rows, hrows⟩ := hmore.decoded 0 Nat.one_pos
    rw [hfailed] at hrows
    cases hrows
  joined := fun _ hfound => (by cases hfound)
  few := by
    obtain ⟨earliest, hearliest, hfloor⟩ := habove
    obtain rfl : earliestStart = some earliest := hearliest
    exact Nat.lt_of_le_of_lt (Nat.zero_le _) (room_lt hlong hfloor)

/-- **The loop goes on in order and ends**, by induction on the room there is, which bounds the fuel it needs. -/
theorem goesOn_laterSteps (rule : Rule) (steps : ℕ → Decoded) (keyRows : List Row) (hfrom : fl readFrom = readFrom)
    (hbound : readFrom ≤ 2 ^ 53) (hearliest : ∀ earliest ∈ earliestStart, -2 ^ 52 ≤ earliest) :
    ∃ later, GoesOn rule earliestStart steps keyRows readFrom later ∧
      ∀ fuel, room readFrom earliestStart < fuel →
        laterSteps rule earliestStart fuel steps keyRows readFrom = some later := by
  induction hroom : room readFrom earliestStart using Nat.strongRecOn generalizing steps keyRows readFrom with
  | ind n ih =>
    subst hroom
    by_cases hasks : rule.tooLittleStory keyRows = true
    · cases hnext : nextStepStart readFrom earliestStart with
      | none =>
        refine ⟨⟨[], some keyRows⟩, GoesOn.nil (fun found hfound => (Option.some.inj hfound).symm) fun _ => ?_, ?_⟩
        · refine .inr fun earliest he => ?_
          obtain rfl : earliestStart = some earliest := he
          exact lt_of_nextStepStart hnext
        · intro fuel hfuel
          obtain ⟨fuel, rfl⟩ := Nat.exists_eq_succ_of_ne_zero (Nat.ne_zero_of_lt hfuel)
          rw [laterSteps, if_pos hasks, hnext]
      | some start =>
        obtain ⟨hstart, hlong, hshort, habove⟩ := nextStepStart_spec hfrom hbound hearliest hnext
        cases hstep : steps 0 with
        | refused =>
          refine ⟨⟨[], none⟩, GoesOn.nil (fun _ hfound => (by cases hfound)) fun _ => .inl hstep, fun fuel hfuel => ?_⟩
          obtain ⟨fuel, rfl⟩ := Nat.exists_eq_succ_of_ne_zero (Nat.ne_zero_of_lt hfuel)
          rw [laterSteps, if_pos hasks, hnext, hstep]
        | failed =>
          refine ⟨_, GoesOn.failed hasks hstep hlong hshort habove, fun fuel hfuel => ?_⟩
          obtain ⟨fuel, rfl⟩ := Nat.exists_eq_succ_of_ne_zero (Nat.ne_zero_of_lt hfuel)
          rw [laterSteps, if_pos hasks, hnext, hstep]
        | rows rows =>
          have hless : room start earliestStart < room readFrom earliestStart := by
            obtain ⟨earliest, he, hfloor⟩ := habove
            obtain rfl : earliestStart = some earliest := he
            exact room_lt hlong hfloor
          have hlt := lt_of_le_fl_sub hlong
          obtain ⟨later, hgoes, hlater⟩ :=
            ih _ hless (fun i => steps (i + 1)) (rowsBefore rows keyRows) hstart (by linarith) rfl
          refine ⟨_, GoesOn.cons hasks hstep hlong hshort habove hgoes, fun fuel hfuel => ?_⟩
          obtain ⟨fuel, rfl⟩ := Nat.exists_eq_succ_of_ne_zero (Nat.ne_zero_of_lt hfuel)
          rw [laterSteps, if_pos hasks, hnext, hstep]
          exact congrArg (Option.map _) (hlater fuel (by omega))
    · refine ⟨⟨[], some keyRows⟩, GoesOn.nil (fun found hfound => (Option.some.inj hfound).symm) fun h => absurd h hasks, ?_⟩
      intro fuel hfuel
      obtain ⟨fuel, rfl⟩ := Nat.exists_eq_succ_of_ne_zero (Nat.ne_zero_of_lt hfuel)
      rw [laterSteps, if_neg hasks]

/-! ### The windows before a tail -/

/-- What the windows are that are read before a tail. -/
structure GoesBack (rule : Rule) (earliestStart : Option ℚ) (steps : ℕ → Decoded) (tailStart : ℚ) (keyRows : List Row)
    (read : LookBack) : Prop where
  /-- A window is read exactly where the tail opens on its run and the first is not refused. -/
  starts : read.windows ≠ [] ↔ 0 < tailStart ∧ rule.opensOnTheRun keyRows = true ∧ steps 0 ≠ .refused
  /-- The first is the 120 s before the tail, or what there is of them. -/
  first : ∀ w ∈ read.windows.head?, w = (max 0 (fl (tailStart - 120)), tailStart)
  /-- Each ends where the one before starts. -/
  chain : read.windows.IsChain fun a b => b.2 = a.1
  /-- They go strictly back. -/
  lt : ∀ w ∈ read.windows, w.1 < w.2
  /-- Those after the first are from 30 s to 150 s long. -/
  long : ∀ w ∈ read.windows.tail, 30 ≤ fl (w.2 - w.1) ∧ fl (w.2 - w.1) ≤ 150
  /-- They start at or after the earliest start less 30 s. -/
  above : ∀ w ∈ read.windows.tail, ∃ earliest ∈ earliestStart, fl (earliest - 30) ≤ w.1
  /-- Each was asked for: the first joins, and there is too little story in what was read before. -/
  asked : ∀ i < read.windows.length, 0 < i → AsksOn rule steps keyRows i ∧
    ∃ rows, steps 0 = .rows rows ∧ rule.joinsBefore rows keyRows = true
  /-- Where more is asked for, and not refused, there is no room: less than 30 s above the floor is unread. -/
  noRoom : AsksOn rule steps keyRows read.windows.length →
    (∃ rows, steps 0 = .rows rows ∧ rule.joinsBefore rows keyRows = true) → steps read.windows.length = .refused ∨
    ∀ earliest ∈ earliestStart, ∀ w ∈ read.windows.getLast?, fl (w.1 - fl (earliest - 30)) < 30
  /-- The rows left are the tail's, or these with the windows' before them. -/
  joined : ∀ rows ∈ read.keyRows, rows = keyRows ∨ rows = rowsAfter steps keyRows read.windows.length
  /-- There are finitely many. -/
  few : ∀ w ∈ read.windows.head?, read.windows.tail.length ≤ room w.1 earliestStart
  /-- Without an earliest start only the first is read. -/
  only : earliestStart = none → read.windows.length ≤ 1

variable {tailStart : ℚ}

/-- Nothing is read. -/
theorem GoesBack.nil {found : Option (List Row)} (hfound : ∀ rows ∈ found, rows = keyRows)
    (h : ¬ (0 < tailStart ∧ rule.opensOnTheRun keyRows = true ∧ steps 0 ≠ .refused)) :
    GoesBack rule earliestStart steps tailStart keyRows ⟨[], found⟩ where
  starts := iff_of_false (fun hne => hne rfl) h
  first := fun _ hw => (by cases hw)
  chain := List.isChain_nil
  lt := fun _ hw => (by cases hw)
  long := fun _ hw => (by cases hw)
  above := fun _ hw => (by cases hw)
  asked := fun _ hi => absurd hi (Nat.not_lt_zero _)
  noRoom := fun _ _ => .inr fun _ _ _ hw => (by cases hw)
  joined := fun rows hrows => .inl (hfound rows hrows)
  few := fun _ hw => (by cases hw)
  only := fun _ => Nat.zero_le 1

/-- The first window before a tail is no empty one. -/
theorem first_lt (htail : 0 < tailStart) (hbound : tailStart ≤ 2 ^ 53) : max 0 (fl (tailStart - 120)) < tailStart := by
  have herror := abs_le.1 (abs_fl_sub_le_two (q := tailStart - 120) (abs_le.2 ⟨by linarith, by linarith⟩))
  exact max_lt htail (by linarith)

/-- Only the first window is read: its rows do not join, or it could not be decoded. -/
theorem GoesBack.single {found : Option (List Row)} (hopen : 0 < tailStart ∧ rule.opensOnTheRun keyRows = true)
    (hbound : tailStart ≤ 2 ^ 53) (hread : steps 0 ≠ .refused) (hfound : ∀ rows ∈ found, rows = keyRows)
    (h : ¬ ∃ rows, steps 0 = .rows rows ∧ rule.joinsBefore rows keyRows = true) :
    GoesBack rule earliestStart steps tailStart keyRows ⟨[(max 0 (fl (tailStart - 120)), tailStart)], found⟩ where
  starts := iff_of_true (List.cons_ne_nil _ _) ⟨hopen.1, hopen.2, hread⟩
  first := fun _ hw => (Option.some.inj hw).symm
  chain := List.isChain_singleton _
  lt := List.forall_mem_cons.2 ⟨first_lt hopen.1 hbound, fun _ hw => (by cases hw)⟩
  long := fun _ hw => (by cases hw)
  above := fun _ hw => (by cases hw)
  asked := by
    intro i hi hpos
    rw [List.length_singleton] at hi
    omega
  noRoom := fun _ hjoins => absurd hjoins h
  joined := fun rows hrows => .inl (hfound rows hrows)
  few := fun _ _ => Nat.zero_le _
  only := fun _ => le_rfl

/-- The first window and those that go on from it. -/
theorem GoesBack.of_goesOn {later : LookBack} (hopen : 0 < tailStart ∧ rule.opensOnTheRun keyRows = true)
    (hbound : tailStart ≤ 2 ^ 53) (hrows : steps 0 = .rows rows) (hjoins : rule.joinsBefore rows keyRows = true)
    (h : GoesOn rule earliestStart (fun i => steps (i + 1)) (rowsBefore rows keyRows) (max 0 (fl (tailStart - 120))) later) :
    GoesBack rule earliestStart steps tailStart keyRows
      ⟨(max 0 (fl (tailStart - 120)), tailStart) :: later.windows, later.keyRows⟩ where
  starts := iff_of_true (List.cons_ne_nil _ _) ⟨hopen.1, hopen.2, fun hrefused => (by rw [hrows] at hrefused; cases hrefused)⟩
  first := fun _ hw => (Option.some.inj hw).symm
  chain := by
    have hchain := h.chain
    cases hlater : later.windows with
    | nil => exact List.isChain_singleton _
    | cons w windows =>
      rw [hlater, List.isChain_cons_cons] at hchain
      exact List.IsChain.cons_cons hchain.1 hchain.2
  lt := by
    refine List.forall_mem_cons.2 ⟨first_lt hopen.1 hbound, fun w hw => ?_⟩
    have hlt := lt_of_le_fl_sub (h.long w hw).1
    linarith
  long := h.long
  above := h.above
  asked := by
    intro i hi hpos
    obtain ⟨n, rfl⟩ := Nat.exists_eq_succ_of_ne_zero hpos.ne'
    exact ⟨(asksOn_succ hrows).2 (h.asked n (Nat.lt_of_succ_lt_succ hi)), rows, hrows, hjoins⟩
  noRoom := by
    intro hmore _
    refine (h.noRoom ((asksOn_succ hrows).1 hmore)).imp_right fun hroom earliest he w hw => ?_
    have hstarts : ((((max 0 (fl (tailStart - 120)), tailStart) :: later.windows).getLast?.map Prod.fst).getD 0) =
        (later.windows.getLast?.map Prod.fst).getD (max 0 (fl (tailStart - 120))) := getLast?_cons_map_fst _ _
    rw [Option.mem_def.1 hw] at hstarts
    have hroom := hroom earliest he
    rwa [← hstarts] at hroom
  joined := by
    intro found hfound
    rw [h.joined found hfound, List.length_cons, rowsAfter, hrows]
    exact .inr rfl
  few := by
    intro w hw
    obtain rfl := Option.some.inj hw
    exact h.few
  only := by
    rintro rfl
    cases hlater : later.windows with
    | nil => exact le_refl 1
    | cons w windows =>
      obtain ⟨earliest, hearliest, -⟩ := h.above w (hlater ▸ List.mem_cons_self)
      cases hearliest

/-- **Looking back leaves no gap and ends**: for times up to `2 ^ 53` seconds, whatever the rule says and whatever the
windows hold, the loop ends; the windows go strictly back from the tail without a gap, one after another as long as the
rule asks for more, down to less than 30 s above the earliest start less 30 s. -/
theorem lookBack_spec (rule : Rule) (earliestStart : Option ℚ) (steps : ℕ → Decoded) (tailStart : ℚ) (keyRows : List Row)
    (hbound : tailStart ≤ 2 ^ 53) (hearliest : ∀ earliest ∈ earliestStart, -2 ^ 52 ≤ earliest) :
    ∃ read, GoesBack rule earliestStart steps tailStart keyRows read ∧
      ∀ fuel, room (max 0 (fl (tailStart - 120))) earliestStart < fuel →
        lookBack rule earliestStart steps tailStart keyRows fuel = some read := by
  have hread : readBeforeTail = 120 := rfl
  unfold lookBack
  rw [hread]
  by_cases hopen : 0 < tailStart ∧ rule.opensOnTheRun keyRows = true
  · simp only [if_pos hopen]
    cases hstep : steps 0 with
    | refused =>
      exact ⟨_, GoesBack.nil (fun _ hfound => (by cases hfound)) fun h => h.2.2 hstep, fun _ _ => rfl⟩
    | failed =>
      refine ⟨_, GoesBack.single hopen hbound (by rw [hstep]; exact Decoded.noConfusion) (fun _ hfound => (by cases hfound))
        ?_, fun _ _ => rfl⟩
      rintro ⟨rows, hrows, -⟩
      rw [hstep] at hrows
      cases hrows
    | rows rows =>
      dsimp only
      by_cases hjoins : rule.joinsBefore rows keyRows = true
      · have hfirst : fl (max 0 (fl (tailStart - 120))) = max 0 (fl (tailStart - 120)) := by
          obtain h | h := max_choice 0 (fl (tailStart - 120)) <;> rw [h]
          · exact fl_zero
          · exact fl_fl _
        have hle : max 0 (fl (tailStart - 120)) ≤ 2 ^ 53 := ((first_lt hopen.1 hbound).trans_le hbound).le
        obtain ⟨later, hgoes, hlater⟩ :=
          goesOn_laterSteps rule (fun i => steps (i + 1)) (rowsBefore rows keyRows) hfirst hle hearliest
        refine ⟨_, GoesBack.of_goesOn hopen hbound hstep hjoins hgoes, fun fuel hfuel => ?_⟩
        rw [if_pos hjoins, hlater fuel hfuel]
        rfl
      · refine ⟨_, GoesBack.single hopen hbound (by rw [hstep]; exact Decoded.noConfusion)
          (fun found hfound => (Option.some.inj hfound).symm) ?_, fun _ _ => if_neg hjoins⟩
        rintro ⟨rows', hrows', hjoins'⟩
        rw [hstep] at hrows'
        cases hrows'
        exact hjoins hjoins'
  · simp only [if_neg hopen]
    exact ⟨_, GoesBack.nil (fun found hfound => (Option.some.inj hfound).symm) fun h => hopen ⟨h.1, h.2.1⟩, fun _ _ => rfl⟩

/-- A rule that always asks for more. -/
def alwaysOn : Rule := ⟨fun _ => true, fun _ _ => true, fun _ => true⟩

/-- Ten minutes before a tail, and an earliest start at 100 s: the last window takes what is left down to 70 s. -/
theorem lookBack_tenMinutes :
    lookBack alwaysOn (some 100) (fun _ => .rows []) 600 [] 20 =
        some ⟨[(480, 600), (360, 480), (240, 360), (120, 240), (70, 120)], some []⟩ ∧
      GoesBack alwaysOn (some 100) (fun _ => .rows []) 600 []
        ⟨[(480, 600), (360, 480), (240, 360), (120, 240), (70, 120)], some []⟩ := by
  have hread : lookBack alwaysOn (some 100) (fun _ => .rows []) 600 [] 20 =
      some ⟨[(480, 600), (360, 480), (240, 360), (120, 240), (70, 120)], some []⟩ := by decide +kernel
  have hearliest : ∀ earliest ∈ some (100 : ℚ), -2 ^ 52 ≤ earliest := by
    intro earliest he
    obtain rfl := Option.some.inj he
    norm_num
  obtain ⟨read, hback, hends⟩ :=
    lookBack_spec alwaysOn (some 100) (fun _ => .rows []) 600 [] (by norm_num) hearliest
  have hread' := hends 20 (by decide +kernel)
  obtain rfl := Option.some.inj (hread.symm.trans hread')
  exact ⟨hread, hback⟩

/-- Where 120 s are less than the spacing of the numbers, a step goes nowhere. -/
theorem nextStepStart_far : nextStepStart (2 ^ 62) (some 0) = some (2 ^ 62) := by decide +kernel

theorem laterSteps_far (fuel : ℕ) : laterSteps alwaysOn (some 0) fuel (fun _ => .rows []) [] (2 ^ 62) = none := by
  induction fuel with
  | zero => rfl
  | succ fuel ih =>
    rw [laterSteps, if_pos (show alwaysOn.tooLittleStory [] = true from rfl), nextStepStart_far]
    exact congrArg (Option.map _) ih

/-- **Far out the loop neither goes back nor ends**; and near by a step can be shorter than 30 s by less than rounding tells:
the code finds its 30 s, and it has half a unit less. -/
theorem lookBack_far :
    (∀ fuel, lookBack alwaysOn (some 0) (fun _ => .rows []) (2 ^ 62) [] fuel = none) ∧
      ∃ tailStart earliest start ends : ℚ, fl tailStart = tailStart ∧ fl earliest = earliest ∧ tailStart < 135 ∧
        (lookBack alwaysOn (some earliest) (fun _ => .rows []) tailStart [] 20).map LookBack.windows =
          some [(ends, tailStart), (start, ends)] ∧ ends - start < 30 := by
  constructor
  · intro fuel
    have hfirst : max 0 (fl ((2 : ℚ) ^ 62 - readBeforeTail)) = 2 ^ 62 := by decide +kernel
    unfold lookBack
    rw [if_pos ⟨by norm_num, rfl⟩, hfirst]
    exact congrArg (Option.map _) (laterSteps_far fuel)
  · refine ⟨135 - 2 ^ (-45 : ℤ), 15 - 15 * 2 ^ (-49 : ℤ), -15 - 15 * 2 ^ (-49 : ℤ), 15 - 2 ^ (-45 : ℤ), ?_⟩
    decide +kernel

end MediaPreview.Credits
