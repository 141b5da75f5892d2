import MediaPreview.Credits.CreditRuns

/-!
# The coarse start

`coarse_start` of `markers/credits/rule_j.py`, with what it is made of: a run's own credit frames (`creditBounds`), its
anchored start (`anchored`), the earlier runs of the same roll (`sameRoll`), and the rows the end is read from (`runRows`,
`coarseEnd`).

Every run `same_roll` takes in ends before the one after it starts (`sameRollFrom_spec`), and the anchor stays on the
run's own credit frames (`anchorFrom_spec`). So reaching back never makes a start later, and the end, which is read from
the last run's own anchored start, does not depend on it (`coarseStart_spec`).
-/

namespace MediaPreview.Credits

open Binary64

/-- `ANCHOR_MAX_STEPS`. -/
def anchorMaxSteps : ℕ := 1

/-- `ROLL_TEXT_SHARE`. -/
def rollTextShare : ℚ := 1 / 2

/-- `Coarse`. -/
structure Coarse where
  /-- The start's row. -/
  index : ℕ
  /-- `end_index`, the run's last credit row. -/
  endIndex : ℕ
  /-- `pts_s`, the start's time. -/
  pts : ℚ
  /-- `run_index`, the run's own anchored start where the start was moved. -/
  runIndex : Option ℕ
  deriving DecidableEq

/-- The credit rows of a run, by their indices. -/
def creditsOf (rows : List Row) (first last : ℕ) (params : RuleParams) : List ℕ :=
  (List.range' first (last + 1 - first)).filter (creditAt rows params)

/-- `_credit_bounds`. -/
def creditBounds (rows : List Row) (first last : ℕ) (params : RuleParams) : Option (ℕ × ℕ) :=
  let credit := creditsOf rows first last params
  if 2 ≤ credit.length then some (credit.headD 0, credit.getLastD 0) else none

/-- The rows between two in time. -/
def rowsBetween (rows : List Row) (ends starts : ℚ) : List Row :=
  rows.filter fun row => decide (ends < row.time ∧ row.time < starts)

/-- The rows up to the next credit frame are no brighter than the card. -/
def blackAfter (rows : List Row) (first following : ℕ) : Bool :=
  let between := rowsBetween rows (timeOf rows first) (timeOf rows following)
  decide (between ≠ []) && between.all fun row => decide (row.luma ≤ (rows.getD first default).luma)

/-- The loop of `_anchored`, for the steps that are left; `none` where it raises. -/
def anchorFrom (rows : List Row) (last : ℕ) (params : RuleParams) (blackReads : Bool) (spacing : ℚ) : ℕ → ℕ → Option ℕ
  | 0, first => some first
  | steps + 1, first =>
    if first < last then
      ((List.range' (first + 1) (last - first)).find? (creditAt rows params)).bind fun following =>
        let gap := fl (timeOf rows following - timeOf rows first)
        -- only the dark bridge joins across more than the gap
        if gap ≤ fl (anchorSpacingFactor * spacing) ∨ params.gap < gap then some first
        else if (rows.getD first default).luma < params.dark ∧ (blackReads && blackAfter rows first following) then
          some first
        else anchorFrom rows last params blackReads spacing steps following
    else some first

/-- `_anchored`. -/
def anchored (rows : List Row) (first last : ℕ) (params : RuleParams) (blackReads : Bool) : Option ℕ :=
  (runSpacing rows first last params).bind fun spacing =>
    anchorFrom rows last params blackReads spacing anchorMaxSteps first

/-- The loop of `same_roll`, from the run it keeps so far; `none` where it raises. -/
def sameRollFrom (rows : List Row) (runs : List (ℕ × ℕ)) (params : RuleParams) (band : ℚ) : ℕ → Option ℕ
  | 0 => some 0
  | keep + 1 =>
    match creditBounds rows (runs.getD keep default).1 (runs.getD keep default).2 params with
    | none => some (keep + 1)
    | some bounds =>
      match bandOf rows bounds.1 bounds.2 params with
      | none => some (keep + 1)
      | some earlier =>
        if bandTolerance < |fl (earlier - band)| then some (keep + 1)
        else
          (((creditsOf rows bounds.1 bounds.2 params).map (timeOf rows)).max?).bind fun ends =>
            (((creditsOf rows (runs.getD (keep + 1) default).1 (runs.getD (keep + 1) default).2 params).map
              (timeOf rows)).min?).bind fun starts =>
              let between := rowsBetween rows ends starts
              if between = [] ∨
                  ((between.filter fun row => decide (1 ≤ row.count)).length : ℚ) < fl (rollTextShare * fl between.length) then
                some (keep + 1)
              else sameRollFrom rows runs params band keep

/-- `same_roll`. -/
def sameRoll (rows : List Row) (runs : List (ℕ × ℕ)) (params : RuleParams) : Option ℕ :=
  runs.getLast?.bind fun run =>
    match bandOf rows run.1 run.2 params with
    | none => some (runs.length - 1)
    | some band => sameRollFrom rows runs params band (runs.length - 1)

/-- Where the walk back starts: the run, its bounds and its anchored start. -/
structure WalkStart where
  /-- `walk_run`. -/
  run : ℕ × ℕ
  /-- `walk_from`. -/
  bounds : ℕ × ℕ
  /-- `start`. -/
  start : ℕ

/-- The walk starts from the earliest run that was taken in. -/
def walkStart (rows : List Row) (runs : List (ℕ × ℕ)) (params : RuleParams) (blackReads : Bool) (last : WalkStart)
    (keep : ℕ) : Option WalkStart :=
  if keep ≠ runs.length - 1 then
    match creditBounds rows (runs.getD keep default).1 (runs.getD keep default).2 params with
    | none => some last
    | some bounds =>
      (anchored rows bounds.1 bounds.2 params blackReads).map fun start => ⟨runs.getD keep default, bounds, start⟩
  else some last

/-- `coarse_start`, of the rows and the same rows with the overlays' boxes dropped; `none` where it raises. -/
def coarseStart (rows : List Row) (params : RuleParams) (without : Option (List Row)) (blackReads : Bool) :
    Option (Option Coarse) :=
  if without.any fun read => decide (read.map Row.time ≠ rows.map Row.time) then none
  else
    let runs := creditRuns rows params
    let read := without.getD rows
    match runs.getLast? with
    | none => some none
    | some run =>
      match creditBounds read run.1 run.2 params with
      | none => some none
      | some chosen =>
        (anchored read chosen.1 chosen.2 params blackReads).bind fun own =>
          (sameRoll read runs params).bind fun keep =>
            (walkStart read runs params blackReads ⟨run, chosen, own⟩ keep).bind fun origin =>
              (reachBack read origin.start origin.bounds.1 origin.bounds.2 params
                (List.range' origin.run.1 (origin.run.2 + 1 - origin.run.1)) (some rows)).map fun start =>
                some ⟨start, chosen.2, timeOf read start, if start = own then none else some own⟩

/-- `_run_rows`. -/
def runRows (rows : List Row) (coarse : Coarse) : List Row :=
  (rows.take (coarse.endIndex + 1)).drop (coarse.runIndex.getD coarse.index)

/-- `coarse_end_s`. -/
def coarseEnd (rows : List Row) (coarse : Coarse) (params : RuleParams) : ℚ :=
  (((runRows rows coarse).filter (Row.isCredit params)).map Row.time).max?.getD (timeOf rows coarse.endIndex)

/-! ### Credit rows of a run -/

variable {rows : List Row} {params : RuleParams}

theorem mem_creditsOf {first last i : ℕ} :
    i ∈ creditsOf rows first last params ↔ first ≤ i ∧ i ≤ last ∧ creditAt rows params i = true := by
  rw [creditsOf, List.mem_filter, List.mem_range'_1, and_assoc]
  refine and_congr_right fun _ => and_congr_left fun _ => ?_
  omega

theorem pairwise_creditsOf (first last : ℕ) : (creditsOf rows first last params).Pairwise (· < ·) :=
  (List.pairwise_lt_range' (s := first) (n := last + 1 - first)).filter _

/-- **A run's bounds** are its first and last credit rows. -/
theorem creditBounds_spec {first last f l : ℕ} (h : creditBounds rows first last params = some (f, l)) :
    f < l ∧ f ∈ creditsOf rows first last params ∧ l ∈ creditsOf rows first last params ∧
      ∀ i ∈ creditsOf rows first last params, f ≤ i ∧ i ≤ l := by
  have hsorted : (creditsOf rows first last params).Pairwise (· < ·) := pairwise_creditsOf first last
  unfold creditBounds at h
  dsimp only at h
  split_ifs at h with hlong
  obtain ⟨rfl, rfl⟩ := Prod.mk.inj (Option.some.inj h)
  revert hsorted hlong
  generalize creditsOf rows first last params = credit
  intro hsorted hlong
  cases credit with
  | nil => exact absurd hlong (by simp)
  | cons a rest =>
    obtain hnil | ⟨init, b, rfl⟩ := List.eq_nil_or_concat rest
    · rw [hnil] at hlong
      exact absurd hlong (by simp)
    · rw [List.concat_eq_append, List.getLastD_cons, List.getLastD_concat, List.headD_cons]
      rw [List.concat_eq_append, List.pairwise_cons, List.pairwise_append] at hsorted
      have hb : b ∈ init ++ [b] := List.mem_append_right _ (List.mem_singleton.2 rfl)
      refine ⟨hsorted.1 b hb, List.mem_cons_self, List.mem_cons_of_mem _ hb, fun i hi => ?_⟩
      obtain rfl | hi := List.mem_cons.1 hi
      · exact ⟨le_rfl, (hsorted.1 b hb).le⟩
      · refine ⟨(hsorted.1 i hi).le, ?_⟩
        obtain hi | hi := List.mem_append.1 hi
        · exact (hsorted.2.2.2 i hi b (List.mem_singleton.2 rfl)).le
        · exact (List.mem_singleton.1 hi).le

/-- Within its bounds a run has the same credit rows. -/
theorem mem_creditsOf_bounds {first last f l i : ℕ} (h : creditBounds rows first last params = some (f, l))
    (hi : i ∈ creditsOf rows first last params) : i ∈ creditsOf rows f l params := by
  obtain ⟨-, -, -, hbetween⟩ := creditBounds_spec h
  exact mem_creditsOf.2 ⟨(hbetween i hi).1, (hbetween i hi).2, (mem_creditsOf.1 hi).2.2⟩

/-- **The anchor stays on the run's credit rows.** -/
theorem anchorFrom_spec {last steps first own : ℕ} {blackReads : Bool} {spacing : ℚ} (hle : first ≤ last)
    (hcredit : creditAt rows params first = true)
    (h : anchorFrom rows last params blackReads spacing steps first = some own) :
    first ≤ own ∧ own ≤ last ∧ creditAt rows params own = true := by
  have hself : first ≤ first ∧ first ≤ last ∧ creditAt rows params first = true := ⟨le_rfl, hle, hcredit⟩
  induction steps generalizing first with
  | zero =>
    obtain rfl := Option.some.inj h
    exact hself
  | succ steps ih =>
    rw [anchorFrom] at h
    split_ifs at h with hlt
    · obtain ⟨following, hfind, h⟩ := Option.bind_eq_some_iff.1 h
      have hmem := List.mem_range'_1.1 (List.mem_of_find?_eq_some hfind)
      have hfollowing := List.find?_some hfind
      dsimp only at h
      split_ifs at h with hnear hblack
      · obtain rfl := Option.some.inj h
        exact hself
      · obtain rfl := Option.some.inj h
        exact hself
      · have hin : following ≤ last := by omega
        obtain ⟨hge, hown⟩ := ih hin hfollowing h ⟨le_rfl, hin, hfollowing⟩
        exact ⟨by omega, hown⟩
    · obtain rfl := Option.some.inj h
      exact hself

/-- A run's anchored start is one of its credit rows, within its bounds. -/
theorem anchored_spec {first last f l own : ℕ} {blackReads : Bool} (hbounds : creditBounds rows first last params = some (f, l))
    (h : anchored rows f l params blackReads = some own) :
    f ≤ own ∧ own ≤ l ∧ own ∈ creditsOf rows first last params := by
  obtain ⟨hlt, hf, hl, -⟩ := creditBounds_spec hbounds
  obtain ⟨spacing, -, h⟩ := Option.bind_eq_some_iff.1 h
  obtain ⟨hge, hle, hcredit⟩ := anchorFrom_spec hlt.le (mem_creditsOf.1 hf).2.2 h
  have hfirst := (mem_creditsOf.1 hf).1
  have hlast := (mem_creditsOf.1 hl).2.1
  exact ⟨hge, hle, mem_creditsOf.2 ⟨by omega, by omega, hcredit⟩⟩

/-! ### Runs of the same roll -/

/-- The credit rows of a run. -/
def creditsOfRun (rows : List Row) (runs : List (ℕ × ℕ)) (params : RuleParams) (k : ℕ) : List ℕ :=
  creditsOf rows (runs.getD k default).1 (runs.getD k default).2 params

/-- A run whose credit frames all come before another's. -/
def Before (rows : List Row) (runs : List (ℕ × ℕ)) (params : RuleParams) (k k' : ℕ) : Prop :=
  ∀ i ∈ creditsOfRun rows runs params k, ∀ j ∈ creditsOfRun rows runs params k', timeOf rows i < timeOf rows j

theorem mem_rowsBetween {ends starts : ℚ} {row : Row} :
    row ∈ rowsBetween rows ends starts ↔ row ∈ rows ∧ ends < row.time ∧ row.time < starts := by
  rw [rowsBetween, List.mem_filter, decide_eq_true_eq]

/-- **A run that is taken in comes before the one after it**: a keyframe lies between the two. -/
theorem sameRollFrom_spec {runs : List (ℕ × ℕ)} {band : ℚ} {keep k : ℕ}
    (h : sameRollFrom rows runs params band keep = some k) :
    k ≤ keep ∧ (k < keep → (∃ i, i ∈ creditsOfRun rows runs params k) ∧ Before rows runs params k keep) := by
  induction keep generalizing k with
  | zero =>
    obtain rfl := Option.some.inj h
    exact ⟨le_rfl, fun hlt => absurd hlt (lt_irrefl _)⟩
  | succ keep ih =>
    have hstay : some (keep + 1) = some k →
        k ≤ keep + 1 ∧ (k < keep + 1 →
          (∃ i, i ∈ creditsOfRun rows runs params k) ∧ Before rows runs params k (keep + 1)) := by
      intro h
      obtain rfl := Option.some.inj h
      exact ⟨le_rfl, fun hlt => absurd hlt (lt_irrefl _)⟩
    rw [sameRollFrom] at h
    cases hbounds : creditBounds rows (runs.getD keep default).1 (runs.getD keep default).2 params with
    | none =>
      rw [hbounds] at h
      exact hstay h
    | some bounds =>
      rw [hbounds] at h
      dsimp only at h
      cases hband : bandOf rows bounds.1 bounds.2 params with
      | none =>
        rw [hband] at h
        exact hstay h
      | some earlier =>
        rw [hband] at h
        dsimp only at h
        split_ifs at h with hfar
        · exact hstay h
        · obtain ⟨last, hlast, h⟩ := Option.bind_eq_some_iff.1 h
          obtain ⟨start, hstart, h⟩ := Option.bind_eq_some_iff.1 h
          split_ifs at h with hbetween
          · exact hstay h
          · obtain ⟨hle, hbefore⟩ := ih h
            obtain ⟨-, hf, -⟩ := creditBounds_spec hbounds
            have hstep : Before rows runs params keep (keep + 1) := by
              intro i hi j hj
              have hilast : timeOf rows i ≤ last :=
                (List.max?_eq_some_iff.1 hlast).2 _ (List.mem_map_of_mem (mem_creditsOf_bounds hbounds hi))
              have hjstart : start ≤ timeOf rows j := (List.min?_eq_some_iff.1 hstart).2 _ (List.mem_map_of_mem hj)
              obtain ⟨row, hrow⟩ := List.exists_mem_of_ne_nil _ fun hnil => hbetween (.inl hnil)
              have hrow := (mem_rowsBetween.1 hrow).2
              linarith [hrow.1, hrow.2]
            refine ⟨by omega, fun _ => ?_⟩
            obtain rfl | hlt := Nat.eq_or_lt_of_le hle
            · exact ⟨⟨_, hf⟩, hstep⟩
            · obtain ⟨hex, hbefore⟩ := hbefore hlt
              refine ⟨hex, fun i hi j hj => ?_⟩
              exact (hbefore i hi bounds.1 hf).trans (hstep bounds.1 hf j hj)

/-- Where the walk starts is in the rows, and no later than the last run's own anchored start. -/
theorem walkStart_spec {runs : List (ℕ × ℕ)} {run chosen : ℕ × ℕ} {own keep : ℕ} {blackReads : Bool} {origin : WalkStart}
    (hruns : ∀ run ∈ runs, run.2 < rows.length) (hrun : runs.getLast? = some run)
    (hchosen : creditBounds rows run.1 run.2 params = some chosen)
    (hown : anchored rows chosen.1 chosen.2 params blackReads = some own) (hkeep : sameRoll rows runs params = some keep)
    (h : walkStart rows runs params blackReads ⟨run, chosen, own⟩ keep = some origin) :
    origin.start < rows.length ∧ timeOf rows origin.start ≤ timeOf rows own := by
  have hownRun := (anchored_spec hchosen hown).2.2
  have hself : some ⟨run, chosen, own⟩ = some origin →
      origin.start < rows.length ∧ timeOf rows origin.start ≤ timeOf rows own := by
    intro h
    obtain rfl := Option.some.inj h
    have hlt := hruns run (List.mem_of_getLast? hrun)
    have hle := (mem_creditsOf.1 hownRun).2.1
    exact ⟨lt_of_le_of_lt hle hlt, le_rfl⟩
  unfold walkStart at h
  by_cases hmerged : keep ≠ runs.length - 1
  · rw [if_pos hmerged] at h
    cases hbounds : creditBounds rows (runs.getD keep default).1 (runs.getD keep default).2 params with
    | none =>
      rw [hbounds] at h
      exact hself h
    | some bounds =>
      rw [hbounds] at h
      obtain ⟨start, hstart, rfl⟩ := Option.map_eq_some_iff.1 h
      have hlast : runs.getD (runs.length - 1) default = run := by
        rw [List.getD_eq_getElem?_getD, ← List.getLast?_eq_getElem?, hrun]
        rfl
      obtain ⟨run', hrun', hkeep⟩ := Option.bind_eq_some_iff.1 hkeep
      obtain rfl := Option.some.inj (hrun.symm.trans hrun')
      cases hband : bandOf rows run.1 run.2 params with
      | none =>
        rw [hband] at hkeep
        exact absurd (Option.some.inj hkeep).symm hmerged
      | some band =>
        rw [hband] at hkeep
        obtain ⟨hle, hbefore⟩ := sameRollFrom_spec hkeep
        obtain ⟨-, hbefore⟩ := hbefore (by omega)
        have hstartRun := (anchored_spec hbounds hstart).2.2
        have hlt : keep < runs.length := by omega
        have hmem : runs.getD keep default ∈ runs := by
          rw [List.getD_eq_getElem _ _ hlt]
          exact List.getElem_mem hlt
        refine ⟨lt_of_le_of_lt (mem_creditsOf.1 hstartRun).2.1 (hruns _ hmem), (hbefore _ hstartRun own ?_).le⟩
        rw [creditsOfRun, hlast]
        exact hownRun
  · rw [if_neg hmerged] at h
    exact hself h

/-! ### The rows the end is read from -/

/-- The same rows with boxes dropped. -/
def Dropped (rows read : List Row) : Prop :=
  List.Forall₂ (fun row shown => shown.time = row.time ∧ shown.luma = row.luma ∧ shown.count ≤ row.count ∧
    shown.boxes.Sublist row.boxes) rows read

theorem Dropped.refl (rows : List Row) : Dropped rows rows :=
  List.forall₂_same.2 fun _ _ => ⟨rfl, rfl, le_rfl, List.Sublist.refl _⟩

/-- Dropping boxes makes no credit frame. -/
theorem Dropped.creditAt {read : List Row} (h : Dropped rows read) {i : ℕ} (hi : i < read.length)
    (hcredit : creditAt read params i = true) : Credits.creditAt rows params i = true := by
  have hlen : i < rows.length := h.length_eq ▸ hi
  obtain ⟨-, hluma, hcount, -⟩ := List.forall₂_iff_get.1 h |>.2 i hlen hi
  rw [List.get_eq_getElem, List.get_eq_getElem] at hluma hcount
  rw [Credits.creditAt, List.getD_eq_getElem _ _ hi, Row.isCredit, hluma] at hcredit
  rw [Credits.creditAt, List.getD_eq_getElem _ _ hlen, Row.isCredit]
  split_ifs at hcredit ⊢ with hdark
  · exact decide_eq_true ((of_decide_eq_true hcredit).trans hcount)
  · exact decide_eq_true ((of_decide_eq_true hcredit).trans hcount)

theorem Dropped.map_time {read : List Row} (h : Dropped rows read) : read.map Row.time = rows.map Row.time := by
  induction h with
  | nil => rfl
  | cons hrow _ ih => rw [List.map_cons, List.map_cons, hrow.1, ih]

theorem timeOf_congr {read : List Row} (h : read.map Row.time = rows.map Row.time) (i : ℕ) :
    timeOf read i = timeOf rows i := by
  have hget : ∀ rows : List Row, timeOf rows i = (rows.map Row.time).getD i (default : Row).time := by
    intro rows
    rw [List.getD_map]
    rfl
  rw [hget, hget, h]

/-- The rows from one index to another end on the latter's. -/
theorem getLast?_runRows {coarse : Coarse} (hle : coarse.runIndex.getD coarse.index ≤ coarse.endIndex)
    (hlt : coarse.endIndex < rows.length) :
    (runRows rows coarse).getLast? = some (rows.getD coarse.endIndex default) := by
  have htake : rows.take (coarse.endIndex + 1) = rows.take coarse.endIndex ++ [rows[coarse.endIndex]] :=
    (List.take_append_getElem hlt).symm
  rw [runRows, htake, List.drop_append_of_le_length (by rw [List.length_take]; omega), List.getLast?_concat,
    List.getD_eq_getElem _ _ hlt]

/-- The loop keeps indices of rows it has seen. -/
theorem lt_of_mem_scanRuns {n : ℕ} {run : ℕ × ℕ} (h : run ∈ (scanRuns rows params n).runs) : run.2 < n := by
  induction n generalizing run with
  | zero => exact absurd h List.not_mem_nil
  | succ n ih =>
    have hstep : scanRuns rows params (n + 1) = (scanRuns rows params n).step rows params n := by
      rw [scanRuns, List.range_succ, List.foldl_concat]
      rfl
    rw [hstep, RunScan.step] at h
    have hearlier : ∀ run ∈ (scanRuns rows params n).runs, run.2 < n + 1 := fun run h => (ih h).trans n.lt_succ_self
    split_ifs at h with hcredit
    · cases hkept : (scanRuns rows params n).runs with
      | nil =>
        rw [hkept] at h
        obtain rfl := List.mem_singleton.1 h
        exact n.lt_succ_self
      | cons last earlier =>
        rw [hkept] at h hearlier
        dsimp only at h
        split_ifs at h
        · obtain rfl | h := List.mem_cons.1 h
          · exact n.lt_succ_self
          · exact hearlier run (List.mem_cons_of_mem _ h)
        · obtain rfl | h := List.mem_cons.1 h
          · exact n.lt_succ_self
          · exact hearlier run h
    · exact hearlier run h
    · exact hearlier run h

theorem lt_of_mem_creditRuns {run : ℕ × ℕ} (h : run ∈ creditRuns rows params) : run.2 < rows.length :=
  lt_of_mem_scanRuns (List.mem_reverse.1 (List.mem_filter.1 h).1)

/-! ### The coarse start -/

/-- **Reaching a roll's start back never makes it later and never touches its end.** Whatever the order of the rows, the
start is no later than the last run's own anchored start; the end is the last credit row of the last run as read; the rows
the end is read from are there and end on a credit row, and the end is the one of the start as it was before it was
moved. -/
theorem coarseStart_spec (rows : List Row) (params : RuleParams) (without : Option (List Row)) (blackReads : Bool)
    (c : Coarse) (hwithout : ∀ read ∈ without, Dropped rows read)
    (h : coarseStart rows params without blackReads = some (some c)) :
    ∃ run chosen own, (creditRuns rows params).getLast? = some run ∧
      creditBounds (without.getD rows) run.1 run.2 params = some chosen ∧
      anchored (without.getD rows) chosen.1 chosen.2 params blackReads = some own ∧
      timeOf rows c.index ≤ timeOf rows own ∧
      (c.endIndex ∈ creditsOf (without.getD rows) run.1 run.2 params ∧
        ∀ i ∈ creditsOf (without.getD rows) run.1 run.2 params, i ≤ c.endIndex) ∧
      ∀ read, read = rows ∨ read ∈ without →
        (∃ row, (runRows read c).getLast? = some row ∧ row.isCredit params = true) ∧
        coarseEnd read c params = coarseEnd read ⟨own, c.endIndex, timeOf rows own, none⟩ params := by
  have hread : Dropped rows (without.getD rows) := by
    cases without with
    | none => exact .refl rows
    | some read => exact hwithout read rfl
  have hlen := hread.length_eq
  have htime := timeOf_congr hread.map_time
  unfold coarseStart at h
  split_ifs at h
  dsimp only at h
  cases hrun : (creditRuns rows params).getLast? with
  | none =>
    rw [hrun] at h
    cases h
  | some run =>
    rw [hrun] at h
    dsimp only at h
    cases hchosen : creditBounds (without.getD rows) run.1 run.2 params with
    | none =>
      rw [hchosen] at h
      cases h
    | some chosen =>
      rw [hchosen] at h
      obtain ⟨own, hown, h⟩ := Option.bind_eq_some_iff.1 h
      obtain ⟨keep, hkeep, h⟩ := Option.bind_eq_some_iff.1 h
      obtain ⟨origin, horigin, h⟩ := Option.bind_eq_some_iff.1 h
      obtain ⟨start, hstart, h⟩ := Option.map_eq_some_iff.1 h
      obtain rfl := (Option.some.inj h).symm
      have hruns : ∀ run ∈ creditRuns rows params, run.2 < (without.getD rows).length :=
        fun run hmem => hlen ▸ lt_of_mem_creditRuns hmem
      obtain ⟨horiginLt, horiginLe⟩ := walkStart_spec hruns hrun hchosen hown hkeep horigin
      have hback := (reachBack_spec horiginLt hstart).2.2.1
      obtain ⟨-, -, hend, hbounds⟩ := creditBounds_spec hchosen
      have hendLt : chosen.2 < (without.getD rows).length :=
        lt_of_le_of_lt (mem_creditsOf.1 hend).2.1 (hruns run (List.mem_of_getLast? hrun))
      have howner : (if start = own then none else some own).getD start = own := by
        by_cases hself : start = own
        · rw [if_pos hself]
          exact hself
        · rw [if_neg hself]
          rfl
      refine ⟨run, chosen, own, rfl, hchosen, hown, ?_, ⟨hend, fun i hi => (hbounds i hi).2⟩, fun r hr => ⟨?_, ?_⟩⟩
      · rw [← htime, ← htime]
        exact hback.trans horiginLe
      · -- both lists of rows have the run's last credit row at its index
        have hcredit : chosen.2 < r.length ∧ creditAt r params chosen.2 = true := by
          obtain rfl | hr := hr
          · exact ⟨hlen ▸ hendLt, hread.creditAt hendLt (mem_creditsOf.1 hend).2.2⟩
          · rw [Option.mem_def] at hr
            rw [hr, Option.getD_some] at hendLt hend
            exact ⟨hendLt, (mem_creditsOf.1 hend).2.2⟩
        refine ⟨_, getLast?_runRows ?_ hcredit.1, hcredit.2⟩
        dsimp only
        rw [howner]
        exact (anchored_spec hchosen hown).2.1
      · rw [coarseEnd, coarseEnd, runRows, runRows]
        dsimp only
        rw [howner]
        rfl

/-- A name over footage before a roll on black, under a channel's bug. -/
def buggedRoll : List Row :=
  [⟨98, 2, 90, [⟨140, 80, 179, 100⟩, ⟨0, 0, 19, 9⟩]⟩, middleRow 100 10, middleRow 110 10, middleRow 120 10]

/-- The same rows without the bug. -/
def unbuggedRoll : List Row := middleRow 98 90 :: buggedRoll.tail

theorem dropped_unbuggedRoll : Dropped buggedRoll unbuggedRoll := by
  refine .cons ⟨rfl, rfl, by decide, ?_⟩ (Dropped.refl _)
  exact .cons_cons _ (.cons _ .slnil)

/-- The start goes back onto the name, no later than the roll's own, and the end stays where it is. -/
theorem coarseStart_unbuggedRoll :
    coarseStart buggedRoll ruleJ (some unbuggedRoll) true = some (some ⟨0, 3, 98, some 1⟩) ∧
      ∃ own, timeOf buggedRoll 0 ≤ timeOf buggedRoll own ∧
        coarseEnd unbuggedRoll ⟨0, 3, 98, some 1⟩ ruleJ =
          coarseEnd unbuggedRoll ⟨own, 3, timeOf buggedRoll own, none⟩ ruleJ := by
  have hstart : coarseStart buggedRoll ruleJ (some unbuggedRoll) true = some (some ⟨0, 3, 98, some 1⟩) := by
    decide +kernel
  have hdropped : ∀ read ∈ some unbuggedRoll, Dropped buggedRoll read := by
    intro read hread
    obtain rfl := Option.some.inj hread
    exact dropped_unbuggedRoll
  obtain ⟨-, -, own, -, -, -, hle, -, hrows⟩ := coarseStart_spec buggedRoll ruleJ (some unbuggedRoll) true _ hdropped hstart
  exact ⟨hstart, own, hle, (hrows unbuggedRoll (.inr rfl)).2⟩

end MediaPreview.Credits
