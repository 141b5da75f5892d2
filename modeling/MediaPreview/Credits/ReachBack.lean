import Mathlib.Data.List.GetD
import Mathlib.Logic.Relation
import Mathlib.Tactic.Linarith
import MediaPreview.Lib.Binary64
import MediaPreview.Lib.Ranking

/-!
# Stepping a start back over its own roll

`reach_back` of `markers/credits/rule_j.py`, with the band and the spacing it measures a run by. From the start it walks back
in presentation order, from one keyframe of the roll to the one before it, as long as they are no further apart than the
run's own cadence reaches. `Step` is one such step; the walk takes them until there is none (`reachBack_spec`), and a smaller
cadence of the rows as decoded never takes it further.

Times are binary64 numbers: every difference, sum and product of them is rounded (`fl`).
-/

namespace MediaPreview.Credits

open Binary64 Ranking Relation

/-! ### Rows -/

/-- Where a text box is, in pixels, the bounds inclusive. -/
structure Box where
  /-- The left edge. -/
  left : ℤ
  /-- The top edge. -/
  top : ℤ
  /-- The right edge. -/
  right : ℤ
  /-- The bottom edge. -/
  bottom : ℤ
  deriving DecidableEq

/-- A keyframe. -/
structure Row where
  /-- Its time in seconds. -/
  time : ℚ
  /-- How many text boxes it holds. -/
  count : ℤ
  /-- Its mean brightness. -/
  luma : ℚ
  /-- `boxes_of`. -/
  boxes : List Box
  deriving Inhabited, DecidableEq

/-- `RuleParams`. -/
structure RuleParams where
  /-- `dense`. -/
  dense : ℤ
  /-- `min_boxes`. -/
  minBoxes : ℤ
  /-- `dark`. -/
  dark : ℚ
  /-- `gap_s`. -/
  gap : ℚ
  /-- `run_s`. -/
  run : ℚ

/-- `RULE_J`. -/
def ruleJ : RuleParams where
  dense := 3
  minBoxes := 1
  dark := 30
  gap := 24
  run := 15

/-- `ANCHOR_SPACING_FACTOR`. -/
def anchorSpacingFactor : ℚ := 3 / 2

/-- `BAND_TOLERANCE_PX`. -/
def bandTolerance : ℚ := 32

/-- `is_credit`. -/
def Row.isCredit (params : RuleParams) (row : Row) : Bool :=
  if row.luma < params.dark then params.minBoxes ≤ row.count else params.dense ≤ row.count

/-- The credit rows of a run. -/
def creditRows (rows : List Row) (first last : ℕ) (params : RuleParams) : List Row :=
  ((rows.take (last + 1)).drop first).filter (Row.isCredit params)

/-- `statistics.median`. -/
def median (values : List ℚ) : Option ℚ :=
  let sorted := sortBy id values
  if values = [] then none
  else if values.length % 2 = 1 then sorted[values.length / 2]?
  else sorted[values.length / 2 - 1]?.bind fun a => sorted[values.length / 2]?.map fun b => fl (fl (a + b) / 2)

/-- The horizontal middle of a box. -/
def Box.centre (box : Box) : ℚ := fl ((box.left + box.right + 1) / 2)

/-- `band_of`. -/
def bandOf (rows : List Row) (first last : ℕ) (params : RuleParams) : Option ℚ :=
  median ((creditRows rows first last params).flatMap fun row => row.boxes.map Box.centre)

/-- `in_band`. -/
def Row.inBand (band : ℚ) (row : Row) : Bool :=
  (median (row.boxes.map Box.centre)).any fun middle => |fl (middle - band)| ≤ bandTolerance

/-- `_typical_spacing`, of rows in order; it raises where there are fewer than two. -/
def typicalSpacing (rows : List Row) : Option ℚ :=
  let gaps := sortBy id ((rows.zip rows.tail).map fun p => fl (p.2.time - p.1.time))
  gaps[min (rows.length / 2) (gaps.length - 1)]?

/-- `_run_spacing`. -/
def runSpacing (rows : List Row) (first last : ℕ) (params : RuleParams) : Option ℚ :=
  typicalSpacing (sortBy Row.time (creditRows rows first last params))

/-! ### The walk -/

/-- The time of the row at an index. -/
def timeOf (rows : List Row) (i : ℕ) : ℚ := (rows.getD i default).time

/-- The indices of the rows in presentation order. -/
def timeOrder (rows : List Row) : List ℕ := sortBy (timeOf rows) (List.range rows.length)

/-- The position of a row in presentation order. -/
def position (rows : List Row) (i : ℕ) : ℕ := (timeOrder rows).idxOf i

/-- The walk may step onto the row: it is in the band, and not of the excluded run. -/
def Eligible (rows : List Row) (band : ℚ) (run : List ℕ) (i : ℕ) : Prop :=
  i ∉ run ∧ (rows.getD i default).inBand band = true

instance (rows : List Row) (band : ℚ) (run : List ℕ) (i : ℕ) : Decidable (Eligible rows band run i) :=
  inferInstanceAs (Decidable (_ ∧ _))

/-- The two loops: from the position it is on, past `before` positions that are still to be looked at. -/
def walk (rows : List Row) (order : List ℕ) (band limit : ℚ) (run : List ℕ) (current : ℕ) : ℕ → ℕ
  | 0 => current
  | before + 1 =>
    if Eligible rows band run (order.getD before 0) then
      if limit < fl (timeOf rows (order.getD current 0) - timeOf rows (order.getD before 0)) then current
      else walk rows order band limit run before before
    else walk rows order band limit run current before

/-- How far apart two rows of a step may be: the run's spacing, capped by the spacing of the rows as decoded. -/
def stepLimit (rows : List Row) (first last : ℕ) (params : RuleParams) (raw : Option (List Row)) : Option ℚ :=
  (runSpacing rows first last params).bind fun spacing =>
    (match raw with
      | none => some spacing
      | some raw => (runSpacing raw first last params).map fun s => min spacing s).map fun spacing =>
        min params.gap (fl (anchorSpacingFactor * spacing))

/-- `reach_back`; `none` where it raises. -/
def reachBack (rows : List Row) (index first last : ℕ) (params : RuleParams) (run : List ℕ) (raw : Option (List Row)) :
    Option ℕ :=
  match bandOf rows first last params with
  | none => some index
  | some band =>
    (stepLimit rows first last params raw).bind fun limit =>
      if index < rows.length then
        some ((timeOrder rows).getD (walk rows (timeOrder rows) band limit run (position rows index) (position rows index)) 0)
      else none

/-! ### Presentation order -/

variable {rows : List Row}

theorem mem_timeOrder {i : ℕ} : i ∈ timeOrder rows ↔ i < rows.length := mem_sortBy.trans List.mem_range

theorem nodup_timeOrder (rows : List Row) : (timeOrder rows).Nodup :=
  (sortBy_perm _ _).nodup_iff.2 List.nodup_range

theorem idxOf_lt {i : ℕ} (h : i < rows.length) : (timeOrder rows).idxOf i < (timeOrder rows).length :=
  List.idxOf_lt_length_of_mem (mem_timeOrder.2 h)

/-- Where the row at a position is. -/
theorem idxOf_getD {p : ℕ} (h : p < (timeOrder rows).length) : (timeOrder rows).idxOf ((timeOrder rows).getD p 0) = p := by
  rw [List.getD_eq_getElem _ _ h]
  exact (nodup_timeOrder rows).idxOf_getElem p h

/-- Later positions are no earlier. -/
theorem timeOf_le {p q : ℕ} (hle : q ≤ p) (h : p < (timeOrder rows).length) :
    timeOf rows ((timeOrder rows).getD q 0) ≤ timeOf rows ((timeOrder rows).getD p 0) := by
  obtain rfl | hlt := Nat.eq_or_lt_of_le hle
  · exact le_refl _
  · rw [List.getD_eq_getElem _ _ h, List.getD_eq_getElem _ _ (hlt.trans h)]
    exact List.pairwise_iff_getElem.1 (pairwise_sortBy (timeOf rows) _) q p (hlt.trans h) h hlt

/-! ### Steps -/

/-- A step of the walk, from one position in presentation order to an earlier one: onto a row of the band outside the
excluded run, with no such row between, and no further than the limit. -/
structure Step (rows : List Row) (band : Option ℚ) (limit : Option ℚ) (run : List ℕ) (p q : ℕ) : Prop where
  lt : q < p
  eligible : ∃ b ∈ band, Eligible rows b run ((timeOrder rows).getD q 0)
  skipped : ∀ s, q < s → s < p → ∀ b ∈ band, ¬ Eligible rows b run ((timeOrder rows).getD s 0)
  near : ∃ l ∈ limit, fl (timeOf rows ((timeOrder rows).getD p 0) - timeOf rows ((timeOrder rows).getD q 0)) ≤ l

variable {band limit : ℚ} {run : List ℕ}

theorem walk_le {current before : ℕ} (h : before ≤ current) :
    walk rows (timeOrder rows) band limit run current before ≤ current := by
  induction before generalizing current with
  | zero => exact le_refl _
  | succ before ih =>
    rw [walk]
    split_ifs
    · exact le_refl _
    · exact (ih (le_refl before)).trans (by omega)
    · exact ih (by omega)

/-- **The walk takes steps until there is none.** -/
theorem walk_spec {current before : ℕ} (h : before ≤ current)
    (hskipped : ∀ s, before ≤ s → s < current → ¬ Eligible rows band run ((timeOrder rows).getD s 0)) :
    ReflTransGen (Step rows (some band) (some limit) run) current
        (walk rows (timeOrder rows) band limit run current before) ∧
      ∀ q, ¬ Step rows (some band) (some limit) run (walk rows (timeOrder rows) band limit run current before) q := by
  induction before generalizing current with
  | zero =>
    refine ⟨.refl, fun q hstep => ?_⟩
    obtain ⟨b, hb, heligible⟩ := hstep.eligible
    obtain rfl := Option.some.inj hb
    exact hskipped q (Nat.zero_le _) hstep.lt heligible
  | succ before ih =>
    rw [walk]
    by_cases heligible : Eligible rows band run ((timeOrder rows).getD before 0)
    · rw [if_pos heligible]
      by_cases hfar :
          limit < fl (timeOf rows ((timeOrder rows).getD current 0) - timeOf rows ((timeOrder rows).getD before 0))
      · -- the nearest such row is too far
        rw [if_pos hfar]
        refine ⟨.refl, fun q hstep => ?_⟩
        obtain ⟨b, hb, hq⟩ := hstep.eligible
        obtain rfl := Option.some.inj hb
        obtain hlt | rfl | hgt := Nat.lt_trichotomy q before
        · exact hstep.skipped before hlt (by omega) band rfl heligible
        · obtain ⟨l, hl, hnear⟩ := hstep.near
          obtain rfl := Option.some.inj hl
          linarith
        · exact hskipped q (by omega) hstep.lt hq
      · rw [if_neg hfar]
        obtain ⟨hchain, hend⟩ := ih (le_refl before) fun s hle hlt => (by omega)
        refine ⟨ReflTransGen.head ⟨by omega, ⟨band, rfl, heligible⟩, ?_, limit, rfl, not_lt.1 hfar⟩ hchain, hend⟩
        intro s hgt hlt b hb
        obtain rfl := Option.some.inj hb
        exact hskipped s (by omega) hlt
    · rw [if_neg heligible]
      refine ih (by omega) fun s hle hlt => ?_
      obtain rfl | hgt := Nat.eq_or_lt_of_le hle
      · exact heligible
      · exact hskipped s hgt hlt

/-- A smaller limit takes the walk no further. -/
theorem walk_anti {limit' : ℚ} (hlimit : limit' ≤ limit) {current before : ℕ} (h : before ≤ current) :
    walk rows (timeOrder rows) band limit run current before ≤
      walk rows (timeOrder rows) band limit' run current before := by
  induction before generalizing current with
  | zero => exact le_refl _
  | succ before ih =>
    have hle : walk rows (timeOrder rows) band limit run current (before + 1) ≤ current := walk_le h
    rw [walk] at hle ⊢
    rw [walk]
    by_cases heligible : Eligible rows band run ((timeOrder rows).getD before 0)
    · rw [if_pos heligible] at hle ⊢
      rw [if_pos heligible]
      by_cases hfar :
          limit' < fl (timeOf rows ((timeOrder rows).getD current 0) - timeOf rows ((timeOrder rows).getD before 0))
      · rw [if_pos hfar]
        exact hle
      · rw [if_neg hfar, if_neg fun hlt => hfar (lt_of_le_of_lt hlimit hlt)]
        exact ih (le_refl before)
    · rw [if_neg heligible, if_neg heligible]
      exact ih (by omega)

theorem stepLimit_anti {first last : ℕ} {params : RuleParams} {raw raw' : List Row} {l l' : ℚ}
    (h : stepLimit rows first last params (some raw) = some l) (h' : stepLimit rows first last params (some raw') = some l')
    (hraw : ∀ s s', runSpacing raw first last params = some s → runSpacing raw' first last params = some s' → s' ≤ s) :
    l' ≤ l := by
  unfold stepLimit at h h'
  obtain ⟨spacing, hspacing, h⟩ := Option.bind_eq_some_iff.1 h
  obtain ⟨spacing', hspacing', h'⟩ := Option.bind_eq_some_iff.1 h'
  obtain rfl := Option.some.inj (hspacing.symm.trans hspacing')
  obtain ⟨m, hm, rfl⟩ := Option.map_eq_some_iff.1 h
  obtain ⟨m', hm', rfl⟩ := Option.map_eq_some_iff.1 h'
  obtain ⟨s, hs, rfl⟩ := Option.map_eq_some_iff.1 hm
  obtain ⟨s', hs', rfl⟩ := Option.map_eq_some_iff.1 hm'
  have hle := hraw s s' hs hs'
  have hpos : 0 ≤ anchorSpacingFactor := by norm_num [anchorSpacingFactor]
  exact min_le_min_left _ (fl_mono (mul_le_mul_of_nonneg_left (min_le_min_left _ hle) hpos))

/-- **The walk back steps only over the roll's own frames**: from the start it goes back over rows of the run's band outside
the excluded run, the nearest one each time, each step within the limit, and stops where there is no such step. With a
smaller spacing of the rows as decoded it stops no earlier in time. -/
theorem reachBack_spec {index first last r : ℕ} {params : RuleParams} {raw : Option (List Row)} (hindex : index < rows.length)
    (h : reachBack rows index first last params run raw = some r) :
    ReflTransGen (Step rows (bandOf rows first last params) (stepLimit rows first last params raw) run)
        (position rows index) (position rows r) ∧
      (∀ q, ¬ Step rows (bandOf rows first last params) (stepLimit rows first last params raw) run (position rows r) q) ∧
      timeOf rows r ≤ timeOf rows index ∧
      ∀ raw₀ raw' r', raw = some raw₀ → reachBack rows index first last params run (some raw') = some r' →
        (∀ s s', runSpacing raw₀ first last params = some s → runSpacing raw' first last params = some s' → s' ≤ s) →
        position rows r ≤ position rows r' := by
  have hlt : position rows index < (timeOrder rows).length := idxOf_lt hindex
  have hself : (timeOrder rows).getD (position rows index) 0 = index := by
    rw [List.getD_eq_getElem _ _ hlt]
    exact List.getElem_idxOf hlt
  unfold reachBack at h
  cases hband : bandOf rows first last params with
  | none =>
    rw [hband] at h
    obtain rfl := Option.some.inj h
    refine ⟨.refl, fun q hstep => ?_, le_refl _, fun raw₀ raw' r' _ h' _ => ?_⟩
    · obtain ⟨b, hb, -⟩ := hstep.eligible
      cases hb
    · rw [reachBack, hband] at h'
      exact (congrArg (position rows) (Option.some.inj h')).le
  | some band =>
    rw [hband] at h
    obtain ⟨limit, hlimit, h⟩ := Option.bind_eq_some_iff.1 h
    rw [if_pos hindex] at h
    obtain rfl := Option.some.inj h
    have hchain : _ ∧ ∀ q, ¬ Step rows (some band) (some limit) run _ q :=
      walk_spec (le_refl (position rows index)) fun s hle hlt => (by omega)
    obtain ⟨hchain, hend⟩ := hchain
    have hle : walk rows (timeOrder rows) band limit run (position rows index) (position rows index) ≤ position rows index :=
      walk_le (le_refl _)
    have hposition : position rows ((timeOrder rows).getD (walk rows (timeOrder rows) band limit run
        (position rows index) (position rows index)) 0) = walk rows (timeOrder rows) band limit run
          (position rows index) (position rows index) := idxOf_getD (lt_of_le_of_lt hle hlt)
    rw [hlimit, hposition]
    refine ⟨hchain, hend, ?_, fun raw₀ raw' r' hraw₀ h' hraw => ?_⟩
    · have htime := timeOf_le hle hlt
      rwa [hself] at htime
    · rw [reachBack, hband] at h'
      obtain ⟨limit', hlimit', h'⟩ := Option.bind_eq_some_iff.1 h'
      rw [if_pos hindex] at h'
      obtain rfl := Option.some.inj h'
      rw [hraw₀] at hlimit
      have hanti : walk rows (timeOrder rows) band limit run (position rows index) (position rows index) ≤
          walk rows (timeOrder rows) band limit' run (position rows index) (position rows index) :=
        walk_anti (stepLimit_anti hlimit hlimit' hraw) (le_refl _)
      have hle' : walk rows (timeOrder rows) band limit' run (position rows index) (position rows index) ≤
          position rows index := walk_le (le_refl _)
      exact hanti.trans (idxOf_getD (lt_of_le_of_lt hle' hlt)).ge

/-- A row with one box in the middle of the frame. -/
def middleRow (time luma : ℚ) : Row := ⟨time, 1, luma, [⟨140, 80, 179, 100⟩]⟩

/-- Names over footage before a roll on black. -/
def namesThenRoll : List Row :=
  [middleRow 60 90, middleRow 100 90, middleRow 102 90, middleRow 104 10, middleRow 106 10, middleRow 108 10]

/-- The walk goes over the names at the roll's cadence, and not over the gap before them. -/
theorem reachBack_namesThenRoll :
    reachBack namesThenRoll 3 3 5 ruleJ [3, 4, 5] (some namesThenRoll) = some 1 ∧
      ReflTransGen (Step namesThenRoll (bandOf namesThenRoll 3 5 ruleJ)
        (stepLimit namesThenRoll 3 5 ruleJ (some namesThenRoll)) [3, 4, 5]) (position namesThenRoll 3)
          (position namesThenRoll 1) ∧
      ∀ q, ¬ Step namesThenRoll (bandOf namesThenRoll 3 5 ruleJ)
        (stepLimit namesThenRoll 3 5 ruleJ (some namesThenRoll)) [3, 4, 5] (position namesThenRoll 1) q := by
  have hreach : reachBack namesThenRoll 3 3 5 ruleJ [3, 4, 5] (some namesThenRoll) = some 1 := by decide +kernel
  obtain ⟨hchain, hend, -⟩ := reachBack_spec (by decide) hreach
  exact ⟨hreach, hchain, hend⟩

end MediaPreview.Credits
