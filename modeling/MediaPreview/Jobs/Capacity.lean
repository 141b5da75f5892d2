import Mathlib.Data.Finset.Lattice.Fold
import Mathlib.Order.Lattice.Nat
import MediaPreview.Jobs.WorkerGroups
import MediaPreview.Lib.Bits
import MediaPreview.Lib.Sweep

/-!
# The capacity that worker groups ask for

`_peak`, `configured_group_totals` and `configured_node_totals` of `worker_groups.py`: how many workers of one kind the
groups have at once, at the busiest minute of the week. The minutes a policy's group is open are kept as a bit mask
(`testBit_groupWeeklyMask` says which); the runs of ones of the masks are swept as signed changes. The sweep gives the
maximum over all minutes (`peak_eq`).
-/

namespace MediaPreview.Groups

open Bits

/-! ### Times -/

/-- A time of a day. -/
def TimeOfDay.Valid (t : TimeOfDay) : Prop := t.hour < 24 ∧ t.minute < 60

/-- The days are of the week, and the times of a day. -/
def Window.Valid (w : Window) : Prop := (∀ day ∈ w.days, day < 7) ∧ w.start.Valid ∧ w.stop.Valid

/-- The windows are valid. -/
def Policy.Valid (p : Policy) : Prop :=
  match p.availability with
  | .always => True
  | .scheduled windows => ∀ w ∈ windows, w.Valid

instance (t : TimeOfDay) : Decidable t.Valid := inferInstanceAs (Decidable (_ ∧ _))

instance (w : Window) : Decidable w.Valid := inferInstanceAs (Decidable (_ ∧ _))

theorem TimeOfDay.Valid.minutes_lt {t : TimeOfDay} (h : t.Valid) : t.minutes < 24 * 60 := by
  obtain ⟨hhour, hminute⟩ := h
  unfold TimeOfDay.minutes
  omega

/-- How long a window is open, in minutes. -/
def Window.duration (w : Window) : ℕ := (((w.stop.minutes : ℤ) - w.start.minutes) % (24 * 60)).toNat

/-- The minutes from a window's start on a day to a minute of the week, counted around the end of the week. -/
def Window.since (w : Window) (day minute : ℕ) : ℕ :=
  (minute + Policy.weekMinutes - (day * (24 * 60) + w.start.minutes)) % Policy.weekMinutes

/-- The window is open: it started on one of its days, and is not over. -/
def Window.OpenAt (w : Window) (minute : ℕ) : Prop := ∃ day ∈ w.days, w.since day minute < w.duration

instance (w : Window) (minute : ℕ) : Decidable (w.OpenAt minute) := inferInstanceAs (Decidable (∃ day ∈ _, _))

/-- The policy's group is on, and open. -/
def Policy.OpenAt (p : Policy) (minute : ℕ) : Prop :=
  p.enabled = true ∧
    match p.availability with
    | .always => True
    | .scheduled windows => ∃ w ∈ windows, w.OpenAt minute

instance (p : Policy) (minute : ℕ) : Decidable (p.OpenAt minute) := by
  unfold Policy.OpenAt
  cases p.availability with
  | always => exact inferInstanceAs (Decidable (_ ∧ True))
  | scheduled windows => exact inferInstanceAs (Decidable (_ ∧ ∃ w ∈ windows, _))

theorem Window.duration_lt (w : Window) : w.duration < 24 * 60 := by
  unfold Window.duration
  omega

namespace Policy

theorem testBit_allWeek (minute : ℕ) : allWeek.testBit minute = decide (minute < weekMinutes) := by
  rw [allWeek, Nat.one_shiftLeft]
  exact Nat.testBit_two_pow_sub_one weekMinutes minute

theorem mul_add_lt_week {day minutes : ℕ} (hday : day < 7) (h : minutes < 24 * 60) :
    day * (24 * 60) + minutes < weekMinutes := by
  unfold weekMinutes
  omega

/-- A minute lies in a segment of a circle, cut where the circle starts over. -/
theorem within_iff {start duration week : ℕ} (hstart : start < week) (hduration : duration < week) (minute : ℕ) :
    (minute < week ∧ (minute + week - start) % week < duration) ↔
      ((start ≤ minute ∧ minute < start + duration) ∧ minute < week) ∨
        (start ≤ week + minute ∧ week + minute < start + duration) := by
  by_cases hle : start ≤ minute
  · have hadd : minute + week - start = minute - start + week := by omega
    rw [hadd, Nat.add_mod_right]
    by_cases hlt : minute < week
    · rw [Nat.mod_eq_of_lt (by omega)]
      omega
    · omega
  · rw [Nat.mod_eq_of_lt (by omega)]
    omega

/-- **A minute is of a window's mask while the window is open.** -/
theorem testBit_windowMask {w : Window} {day : ℕ} (hday : day < 7) (h : w.start.Valid) (minute : ℕ) :
    (windowMask w day).testBit minute = decide (minute < weekMinutes ∧ w.since day minute < w.duration) := by
  have hstart := mul_add_lt_week hday h.minutes_lt
  have hduration := w.duration_lt
  have hweek : 24 * 60 < weekMinutes := by decide
  have hmask : windowMask w day = (((1 <<< w.duration - 1) <<< (day * (24 * 60) + w.start.minutes)) &&& allWeek) |||
      (((1 <<< w.duration - 1) <<< (day * (24 * 60) + w.start.minutes)) >>> weekMinutes) := by
    rw [windowMask, Nat.mul_assoc]
    rfl
  rw [hmask, Nat.testBit_or, Nat.testBit_and, Nat.testBit_shiftRight, testBit_segment, testBit_segment, testBit_allWeek,
    ← Bool.decide_and, ← Bool.decide_or]
  exact decide_eq_decide.2 (within_iff hstart (hduration.trans hweek) minute).symm

theorem testBit_foldl_or {α : Type*} (f : α → ℕ) (l : List α) (mask minute : ℕ) :
    (l.foldl (fun mask a => mask ||| f a) mask).testBit minute = (mask.testBit minute || l.any fun a => (f a).testBit minute) := by
  induction l generalizing mask with
  | nil => simp
  | cons a l ih => rw [List.foldl_cons, ih, Nat.testBit_or, List.any_cons, Bool.or_assoc]

theorem foldl_windowMask (w : Window) (mask : ℕ) :
    w.days.foldl (fun mask day => mask ||| windowMask w day) mask =
      mask ||| w.days.foldl (fun mask day => mask ||| windowMask w day) 0 := by
  refine Nat.eq_of_testBit_eq fun i => ?_
  rw [Nat.testBit_or, testBit_foldl_or, testBit_foldl_or, Nat.zero_testBit, Bool.false_or]

/-- The minutes of the masks of several windows. -/
theorem testBit_windows {windows : List Window} (h : ∀ w ∈ windows, w.Valid) (minute : ℕ) :
    (windows.foldl (fun mask (w : Window) => w.days.foldl (fun mask day => mask ||| windowMask w day) mask) 0).testBit
      minute = true ↔
      minute < weekMinutes ∧ ∃ w ∈ windows, w.OpenAt minute := by
  have hinner : (fun mask (w : Window) => w.days.foldl (fun mask day => mask ||| windowMask w day) mask) =
      fun mask (w : Window) => mask ||| w.days.foldl (fun mask day => mask ||| windowMask w day) 0 :=
    funext fun mask => funext fun w => foldl_windowMask w mask
  rw [hinner, testBit_foldl_or, Nat.zero_testBit, Bool.false_or, List.any_eq_true]
  constructor
  · rintro ⟨w, hw, hbit⟩
    rw [testBit_foldl_or, Nat.zero_testBit, Bool.false_or, List.any_eq_true] at hbit
    obtain ⟨day, hday, hbit⟩ := hbit
    rw [testBit_windowMask ((h w hw).1 day hday) (h w hw).2.1, decide_eq_true_iff] at hbit
    exact ⟨hbit.1, w, hw, day, hday, hbit.2⟩
  · rintro ⟨hlt, w, hw, day, hday, hsince⟩
    refine ⟨w, hw, ?_⟩
    rw [testBit_foldl_or, Nat.zero_testBit, Bool.false_or, List.any_eq_true]
    refine ⟨day, hday, ?_⟩
    rw [testBit_windowMask ((h w hw).1 day hday) (h w hw).2.1]
    exact decide_eq_true ⟨hlt, hsince⟩

/-- **The mask holds the minutes the group is open at.** -/
theorem testBit_groupWeeklyMask {p : Policy} (h : p.Valid) (minute : ℕ) :
    p.groupWeeklyMask.testBit minute = true ↔ minute < weekMinutes ∧ p.OpenAt minute := by
  unfold groupWeeklyMask Policy.OpenAt
  unfold Policy.Valid at h
  by_cases hen : p.enabled = true
  · rw [if_pos hen]
    cases hav : p.availability with
    | always =>
      rw [testBit_allWeek, decide_eq_true_iff]
      exact ⟨fun hlt => ⟨hlt, hen, trivial⟩, fun hlt => hlt.1⟩
    | scheduled windows =>
      rw [hav] at h
      refine (testBit_windows h minute).trans ?_
      exact and_congr_right fun _ => (and_iff_right hen).symm
  · rw [if_neg hen, Nat.zero_testBit]
    exact ⟨fun hfalse => (by cases hfalse), fun hopen => absurd hopen.2.1 hen⟩

end Policy

/-! ### The peak -/

/-- The changes of a policy: its count more from each run's start, and less from its end. -/
def policyChanges (changes : List (ℕ × ℤ)) (p : Policy) : List (ℕ × ℤ) :=
  (runs (bitLength p.groupWeeklyMask) p.groupWeeklyMask).foldl
    (fun changes run => Sweep.bump (Sweep.bump changes run.1 p.count) run.2 (-p.count)) changes

/-- `_peak`. -/
def peak (policies : List Policy) : ℤ := Sweep.peak (policies.foldl policyChanges [])

/-- The workers of the policies whose mask holds the minute. -/
def load (policies : List Policy) (minute : ℕ) : ℕ :=
  ((policies.filter fun p => p.groupWeeklyMask.testBit minute).map Policy.count).sum

/-- `_peaks`: for GPUs and CPUs. -/
def peaks (policies : List Policy) : ℤ × ℤ :=
  (peak (policies.filter (·.resource = .gpu)), peak (policies.filter (·.resource = .cpu)))

/-- `configured_group_totals`. -/
def configuredGroupTotals (groups : List Group) : ℤ × ℤ := peaks ((memberPolicies groups).filter (·.onNode = none))

/-- The policies of each node. -/
def policiesByNode (policies : List Policy) : List (String × List Policy) :=
  policies.foldl (fun byNode p =>
    match p.onNode with
    | some node => Dict.set byNode node ((Dict.get? byNode node).getD [] ++ [p])
    | none => byNode) []

/-- `configured_node_totals`. -/
def configuredNodeTotals (groups : List Group) : List (String × (ℤ × ℤ)) :=
  (policiesByNode (memberPolicies groups)).map fun entry => (entry.1, peaks entry.2)

theorem level_policyChanges (changes : List (ℕ × ℤ)) (p : Policy) (t : ℕ) :
    Sweep.level (policyChanges changes p) t =
      Sweep.level changes t + if p.groupWeeklyMask.testBit t = true then (p.count : ℤ) else 0 := by
  have hruns := countP_runs (bitLength p.groupWeeklyMask) p.groupWeeklyMask 0 (bitLength p.groupWeeklyMask)
    (fun i hi => (by omega)) (fun i hi => testBit_lt_bitLength hi) (by omega)
  obtain ⟨hlt, hcount⟩ := hruns
  have hfold : ∀ (l : List (ℕ × ℕ)), (∀ run ∈ l, run.1 < run.2) → ∀ changes : List (ℕ × ℤ),
      Sweep.level (l.foldl (fun changes run => Sweep.bump (Sweep.bump changes run.1 p.count) run.2 (-p.count)) changes) t =
        Sweep.level changes t + p.count * (l.countP fun run => run.1 ≤ t ∧ t < run.2 : ℕ) := by
    intro l
    induction l with
    | nil => exact fun _ changes => by simp
    | cons run l ih =>
      intro hl changes
      rw [List.forall_mem_cons] at hl
      rw [List.foldl_cons, ih hl.2, Sweep.level_bump, Sweep.level_bump, List.countP_cons]
      by_cases hin : run.1 ≤ t ∧ t < run.2
      · rw [if_pos hin.1, if_neg (by omega), if_pos (decide_eq_true hin)]
        push_cast
        rw [mul_add, mul_one]
        omega
      · have hboth : (if run.1 ≤ t then (p.count : ℤ) else 0) + (if run.2 ≤ t then -(p.count : ℤ) else 0) = 0 := by
          by_cases hstart : run.1 ≤ t
          · rw [if_pos hstart, if_pos (by omega)]
            omega
          · rw [if_neg hstart, if_neg (by omega), add_zero]
        rw [if_neg fun h => hin (of_decide_eq_true h), Nat.add_zero]
        omega
  rw [policyChanges, hfold _ hlt, hcount]
  cases p.groupWeeklyMask.testBit t <;> simp

theorem nodup_policyChanges {changes : List (ℕ × ℤ)} (h : (changes.map Prod.fst).Nodup) (p : Policy) :
    ((policyChanges changes p).map Prod.fst).Nodup := by
  unfold policyChanges
  generalize runs (bitLength p.groupWeeklyMask) p.groupWeeklyMask = l
  induction l generalizing changes with
  | nil => exact h
  | cons run l ih => exact ih (Sweep.nodup_bump (Sweep.nodup_bump h _ _) _ _)

/-- The level of the sweep at a minute is the load. -/
theorem level_changes (policies : List Policy) (t : ℕ) :
    Sweep.level (policies.foldl policyChanges []) t = load policies t := by
  have hfold : ∀ changes, Sweep.level (policies.foldl policyChanges changes) t = Sweep.level changes t + load policies t := by
    induction policies with
    | nil => exact fun changes => by simp [load]
    | cons p policies ih =>
      intro changes
      rw [List.foldl_cons, ih, level_policyChanges]
      unfold load
      rw [List.filter_cons]
      by_cases hbit : p.groupWeeklyMask.testBit t = true
      · rw [if_pos hbit, if_pos hbit, List.map_cons, List.sum_cons]
        push_cast
        omega
      · rw [if_neg hbit, if_neg hbit, add_zero]
  rw [hfold, Sweep.level_nil, zero_add]

/-- The sweep's result bounds the load at every minute, and is the load at one of them or 0. -/
theorem isGreatest_peak (policies : List Policy) :
    IsGreatest (insert 0 (Set.range fun t => (load policies t : ℤ))) (peak policies) := by
  have hnodup : ∀ changes : List (ℕ × ℤ), (changes.map Prod.fst).Nodup →
      ((policies.foldl policyChanges changes).map Prod.fst).Nodup := by
    induction policies with
    | nil => exact fun _ h => h
    | cons p policies ih => exact fun changes h => ih _ (nodup_policyChanges h p)
  have hpeak := Sweep.isGreatest_peak (hnodup [] List.nodup_nil)
  have hlevel : Sweep.level (policies.foldl policyChanges []) = fun t => (load policies t : ℤ) :=
    funext (level_changes policies)
  rw [hlevel] at hpeak
  exact hpeak

theorem load_eq_zero {policies : List Policy} (h : ∀ p ∈ policies, p.Valid) {minute : ℕ}
    (hminute : Policy.weekMinutes ≤ minute) : load policies minute = 0 := by
  have hnone : policies.filter (fun p => p.groupWeeklyMask.testBit minute) = [] := by
    refine List.filter_eq_nil_iff.2 fun p hp hbit => ?_
    rw [Policy.testBit_groupWeeklyMask (h p hp)] at hbit
    omega
  rw [load, hnone]
  rfl

/-- **The peak is the maximum of the load over the minutes of the week.** -/
theorem peak_eq {policies : List Policy} (h : ∀ p ∈ policies, p.Valid) :
    peak policies = ((Finset.range Policy.weekMinutes).sup (load policies) : ℕ) := by
  obtain ⟨hmem, hupper⟩ := isGreatest_peak policies
  refine le_antisymm ?_ ?_
  · obtain hzero | ⟨t, ht⟩ := hmem
    · rw [hzero]
      exact Int.natCast_nonneg _
    · rw [← ht]
      refine Int.ofNat_le.2 ?_
      by_cases hlt : t < Policy.weekMinutes
      · exact Finset.le_sup (f := load policies) (Finset.mem_range.2 hlt)
      · rw [load_eq_zero h (Nat.le_of_not_lt hlt)]
        exact Nat.zero_le _
  · obtain ⟨n, hn⟩ := Int.eq_ofNat_of_zero_le (hupper (Set.mem_insert 0 _))
    rw [hn]
    refine Int.ofNat_le.2 (Finset.sup_le fun t _ => ?_)
    exact Int.ofNat_le.1 (hn ▸ hupper (Set.mem_insert_of_mem _ ⟨t, rfl⟩))

end MediaPreview.Groups
