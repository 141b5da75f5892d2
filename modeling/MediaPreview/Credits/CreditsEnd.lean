import MediaPreview.Credits.CoarseStart
import MediaPreview.Lib.Hops

/-!
# Where the credits skip ends

`credits_end` of `markers/credits/rule_j.py`: the run's last credit keyframe, or the one before it when that one is scene
text (`endKeyframes`), and the walk forward over the 1 fps rows (`walkForward`).

The end is decided from the walk from the latest credit keyframe, and given by the walk from the keyframe stepped back to.
The second window ends before the latest keyframe, so whatever the second walk ends on the first one would have gone on to
(`walkForward_le`): stepping back only ever moves an end earlier (`creditsEnd_spec`).
-/

namespace MediaPreview.Credits

open Binary64 Ranking Hops Relation

/-- `KEEP_AFTER_CREDITS_S`. -/
def keepAfterCredits : ℚ := 30

/-- `REFINE_END_BEFORE_S`. -/
def refineEndBefore : ℚ := 1

/-- `REFINE_END_AFTER_S`. -/
def refineEndAfter : ℚ := 20

/-- `REFINE_GAP_S`. -/
def refineGap : ℚ := 5 / 2

/-! ### The walk forward -/

/-- The rows of a window, by their indices. -/
def windowOf (rows : List Row) (lo hi : ℚ) : List ℕ :=
  (List.range rows.length).filter fun j => decide (lo ≤ timeOf rows j ∧ timeOf rows j ≤ hi)

/-- The credit frames a walk forward may take. -/
def creditWindow (fine : List Row) (t reach : ℚ) (params : RuleParams) : List ℕ :=
  (windowOf fine (fl (t - refineEndBefore)) reach).filter (creditAt fine params)

/-- The last of the later credit frames that are near. -/
def laterCredit (fine : List Row) (credit : List ℕ) (j : ℕ) : Option ℕ :=
  (credit.filter fun k => decide (j < k ∧ fl (timeOf fine k - timeOf fine j) ≤ refineGap)).getLast?

/-- `_walk_forward`. -/
def walkForward (fine : List Row) (t reach : ℚ) (params : RuleParams) : ℚ :=
  let credit := creditWindow fine t reach params
  match credit.head? with
  | none => t
  | some j => timeOf fine (hop (laterCredit fine credit) fine.length j)

/-! ### The end -/

/-- `_end_keyframes`: the keyframe the end's refinement starts from, and the scene's first keyframe where it stepped back. -/
def endKeyframes (rows : List Row) (coarse : Coarse) (params : RuleParams) : ℚ × Option ℚ :=
  let run := runRows rows coarse
  let credit := sortBy Row.time (run.filter (Row.isCredit params))
  if credit.length < 3 then (coarseEnd rows coarse params, none)
  else
    let before := credit.getD (credit.length - 2) default
    let last := credit.getD (credit.length - 1) default
    let scene := (run.filter fun row =>
      decide (before.time < row.time ∧ row.time < last.time ∧ row.count = 0 ∧ params.dark ≤ row.luma)).map Row.time
    let glued := decide (params.dark ≤ last.luma) && decide (scene ≠ []) &&
      (typicalSpacing credit.dropLast).any fun spacing => decide (fl (anchorSpacingFactor * spacing) < fl (last.time - before.time))
    if glued then (before.time, scene.min?) else (last.time, none)

/-- `end_keyframe_s`. -/
def endKeyframe (rows : List Row) (coarse : Coarse) (params : RuleParams) : ℚ := (endKeyframes rows coarse params).1

/-- `keeps_a_scene_after`. -/
def keepsASceneAfter (ends duration : ℚ) : Bool := keepAfterCredits < fl (duration - ends)

/-- `refine_end`. -/
def refineEnd (rows : List Row) (coarse : Coarse) (fine : List Row) (after : ℚ) (params : RuleParams) : ℚ :=
  let t := (endKeyframes rows coarse params).1
  walkForward fine t (((endKeyframes rows coarse params).2).elim (fl (t + after)) fun scene => min (fl (t + after)) scene)
    params

/-- `credits_end`. -/
def creditsEnd (rows : List Row) (coarse : Coarse) (fine : List Row) (duration : ℚ) (params : RuleParams) : Option ℚ :=
  let latest := coarseEnd rows coarse params
  if !keepsASceneAfter latest duration then none
  else if !keepsASceneAfter (walkForward fine latest (fl (latest + refineEndAfter)) params) duration then none
  else some (refineEnd rows coarse fine refineEndAfter params)

/-- The end as it would be without the step back: the walk's from the run's latest credit keyframe. -/
def plainEnd (rows : List Row) (coarse : Coarse) (fine : List Row) (duration : ℚ) (params : RuleParams) : Option ℚ :=
  let latest := coarseEnd rows coarse params
  let ends := walkForward fine latest (fl (latest + refineEndAfter)) params
  if keepsASceneAfter latest duration && keepsASceneAfter ends duration then some ends else none

/-! ### What a walk forward ends on -/

variable {rows fine : List Row} {params : RuleParams}

theorem mem_windowOf {lo hi : ℚ} {j : ℕ} :
    j ∈ windowOf rows lo hi ↔ j < rows.length ∧ lo ≤ timeOf rows j ∧ timeOf rows j ≤ hi := by
  rw [windowOf, List.mem_filter, List.mem_range, decide_eq_true_eq]

theorem mem_creditWindow {t reach : ℚ} {j : ℕ} :
    j ∈ creditWindow fine t reach params ↔
      (j < fine.length ∧ fl (t - refineEndBefore) ≤ timeOf fine j ∧ timeOf fine j ≤ reach) ∧ creditAt fine params j = true := by
  rw [creditWindow, List.mem_filter, mem_windowOf]

theorem laterCredit_spec {credit : List ℕ} {j k : ℕ} (h : laterCredit fine credit j = some k) :
    k ∈ credit ∧ j < k ∧ fl (timeOf fine k - timeOf fine j) ≤ refineGap := by
  have hmem := List.mem_filter.1 (List.mem_of_getLast? h)
  exact ⟨hmem.1, of_decide_eq_true hmem.2⟩

theorem laterCredit_eq_none {credit : List ℕ} {j k : ℕ} (h : laterCredit fine credit j = none) (hk : k ∈ credit)
    (hlt : j < k) : refineGap < fl (timeOf fine k - timeOf fine j) := by
  by_contra hnear
  rw [laterCredit, List.getLast?_eq_none_iff, List.filter_eq_nil_iff] at h
  exact h k hk (decide_eq_true ⟨hlt, not_lt.1 hnear⟩)

/-- **A walk forward** ends on a credit frame of its window with no near one after it, or where it began if there is none. -/
theorem walkForward_spec (fine : List Row) (t reach : ℚ) (params : RuleParams) :
    (creditWindow fine t reach params = [] ∧ walkForward fine t reach params = t) ∨
    ∃ j ∈ creditWindow fine t reach params, walkForward fine t reach params = timeOf fine j ∧
      ∀ k ∈ creditWindow fine t reach params, j < k → refineGap < fl (timeOf fine k - timeOf fine j) := by
  unfold walkForward
  dsimp only
  cases hfirst : (creditWindow fine t reach params).head? with
  | none => exact .inl ⟨List.head?_eq_none_iff.1 hfirst, rfl⟩
  | some j =>
    have hj := List.mem_of_mem_head? hfirst
    have hsize : ∀ a b, laterCredit fine (creditWindow fine t reach params) a = some b →
        fine.length - b < fine.length - a := by
      intro a b h
      obtain ⟨hb, hlt, -⟩ := laterCredit_spec h
      have hlen := (mem_creditWindow.1 hb).1.1
      omega
    obtain ⟨-, hend⟩ := hop_spec (fun a => fine.length - a) hsize (Nat.sub_le fine.length j)
    exact .inr ⟨_, hop_keeps (P := fun j => j ∈ creditWindow fine t reach params) (fun a b _ h => (laterCredit_spec h).1) hj,
      rfl, fun k hk hlt => laterCredit_eq_none hend hk hlt⟩

/-- Less than the window's lead before a keyframe is near it. -/
theorem fl_sub_le_refineGap {latest early late : ℚ} (hlatest : fl latest = latest)
    (hearly : fl (latest - refineEndBefore) ≤ early) (hlate : late < latest) : fl (late - early) ≤ refineGap := by
  have hback : refineEndBefore = 1 := rfl
  have hgap : fl refineGap = refineGap := by decide +kernel
  have hlead : |fl (latest - refineEndBefore) - (latest - refineEndBefore)| ≤ |latest - (latest - refineEndBefore)| :=
    abs_fl_sub_le_abs hlatest
  rw [hback, sub_sub_cancel, abs_one] at hlead
  refine fl_le hgap ?_
  have hlong : refineGap = 5 / 2 := rfl
  rw [hback] at hearly
  linarith [(abs_le.1 hlead).1]

/-- **A walk whose window ends before `latest` ends no later than the one from `latest`**, in whatever order the rows
come: what it ends on lies in the other window too, or before it. -/
theorem walkForward_le {t latest reach reach' : ℚ} (hlatest : fl latest = latest) (ht : t < latest) (htr : t ≤ reach)
    (hr : reach < latest) (hr' : latest ≤ reach') :
    walkForward fine t reach params ≤ walkForward fine latest reach' params := by
  have hshared : ∀ k ∈ creditWindow fine latest reach' params, timeOf fine k ≤ reach →
      k ∈ creditWindow fine t reach params := by
    intro k hk hle
    rw [mem_creditWindow] at hk ⊢
    have hback : fl (t - refineEndBefore) ≤ fl (latest - refineEndBefore) := fl_mono (by linarith)
    exact ⟨⟨hk.1.1, hback.trans hk.1.2.1, hle⟩, hk.2⟩
  obtain ⟨-, hwalk'⟩ | ⟨j, hj, hwalk', hendj⟩ := walkForward_spec fine latest reach' params
  · obtain ⟨-, hwalk⟩ | ⟨i, hi, hwalk, -⟩ := walkForward_spec fine t reach params
    · linarith
    · linarith [(mem_creditWindow.1 hi).1.2.2]
  · obtain ⟨hnone, hwalk⟩ | ⟨i, hi, hwalk, hendi⟩ := walkForward_spec fine t reach params
    · rw [hwalk, hwalk']
      by_contra hlt
      have hin := hshared j hj (by linarith)
      rw [hnone] at hin
      exact List.not_mem_nil hin
    · rw [hwalk, hwalk']
      by_contra hlt
      have hi' := mem_creditWindow.1 hi
      have hj' := mem_creditWindow.1 hj
      obtain hij | rfl | hji := Nat.lt_trichotomy i j
      · -- a later row of the list that is earlier in time would be walked to
        have hfar := hendi j (hshared j hj (by linarith [hi'.1.2.2])) hij
        have hnear : fl (timeOf fine j - timeOf fine i) ≤ 0 := fl_le fl_zero (by linarith)
        have hgap : refineGap = 5 / 2 := rfl
        linarith
      · exact hlt le_rfl
      · have hin : i ∈ creditWindow fine latest reach' params :=
          mem_creditWindow.2 ⟨⟨hi'.1.1, by linarith [hj'.1.2.1], by linarith [hi'.1.2.2]⟩, hi'.2⟩
        exact (hendj i hin hji).not_ge (fl_sub_le_refineGap hlatest hj'.1.2.1 (by linarith [hi'.1.2.2]))

/-! ### The keyframe the end starts from -/

/-- The last of the rows in presentation order is the latest. -/
theorem max?_time {l : List Row} (h : l ≠ []) :
    (l.map Row.time).max? = some ((sortBy Row.time l).getD ((sortBy Row.time l).length - 1) default).time := by
  have hlen : (sortBy Row.time l).length = l.length := (sortBy_perm _ _).length_eq
  have hpos : 0 < l.length := List.length_pos_iff.2 h
  have hlast : (sortBy Row.time l).length - 1 < (sortBy Row.time l).length := by omega
  rw [List.getD_eq_getElem _ _ hlast, List.max?_eq_some_iff]
  refine ⟨List.mem_map_of_mem (mem_sortBy.1 (List.getElem_mem hlast)), fun time htime => ?_⟩
  obtain ⟨row, hrow, rfl⟩ := List.mem_map.1 htime
  have hsorted : row ∈ sortBy Row.time l := mem_sortBy.2 hrow
  obtain ⟨i, hi, rfl⟩ := List.mem_iff_getElem.1 hsorted
  obtain heq | hlt := Nat.eq_or_lt_of_le (Nat.le_sub_one_of_lt hi)
  · simp [heq]
  · exact List.pairwise_iff_getElem.1 (pairwise_sortBy Row.time l) i _ hi hlast hlt

/-- A run's rows are among the rows. -/
theorem mem_of_mem_runRows {coarse : Coarse} {row : Row} (h : row ∈ runRows rows coarse) : row ∈ rows :=
  List.mem_of_mem_take (List.mem_of_mem_drop h)

/-- **The keyframe the end starts from** is the run's latest credit keyframe, or comes before a scene that comes before
that one. -/
theorem endKeyframes_spec (rows : List Row) (coarse : Coarse) (params : RuleParams) :
    ((endKeyframes rows coarse params).2 = none ∧ endKeyframe rows coarse params = coarseEnd rows coarse params) ∨
    ∃ row ∈ rows, ∃ scene, (endKeyframes rows coarse params).2 = some scene ∧
      endKeyframe rows coarse params = row.time ∧ row.time < scene ∧ scene < coarseEnd rows coarse params := by
  unfold endKeyframe endKeyframes
  dsimp only
  by_cases hshort : (sortBy Row.time ((runRows rows coarse).filter (Row.isCredit params))).length < 3
  · rw [if_pos hshort]
    exact .inl ⟨rfl, rfl⟩
  · rw [if_neg hshort]
    have hne : (runRows rows coarse).filter (Row.isCredit params) ≠ [] := by
      intro hnil
      rw [hnil] at hshort
      exact hshort (by decide)
    have hend := max?_time hne
    have hlatest : coarseEnd rows coarse params = _ := congrArg (Option.getD · (timeOf rows coarse.endIndex)) hend
    rw [hlatest]
    split_ifs with hglued
    · right
      simp only [Bool.and_eq_true, decide_eq_true_eq] at hglued
      have hbefore : (sortBy Row.time ((runRows rows coarse).filter (Row.isCredit params))).getD
          ((sortBy Row.time ((runRows rows coarse).filter (Row.isCredit params))).length - 2) default ∈ rows := by
        rw [List.getD_eq_getElem _ _ (by omega)]
        exact mem_of_mem_runRows (List.mem_filter.1 (mem_sortBy.1 (List.getElem_mem _))).1
      cases hscene : (((runRows rows coarse).filter fun row =>
          decide (((sortBy Row.time ((runRows rows coarse).filter (Row.isCredit params))).getD
            ((sortBy Row.time ((runRows rows coarse).filter (Row.isCredit params))).length - 2) default).time < row.time ∧
          row.time < ((sortBy Row.time ((runRows rows coarse).filter (Row.isCredit params))).getD
            ((sortBy Row.time ((runRows rows coarse).filter (Row.isCredit params))).length - 1) default).time ∧
          row.count = 0 ∧ params.dark ≤ row.luma)).map Row.time).min? with
      | none => exact absurd (List.min?_eq_none_iff.1 hscene) hglued.1.2
      | some scene =>
        obtain ⟨row, hrow, rfl⟩ := List.mem_map.1 (List.min?_eq_some_iff.1 hscene).1
        have hrow := of_decide_eq_true (List.mem_filter.1 hrow).2
        exact ⟨_, hbefore, _, rfl, rfl, hrow.1, hrow.2.1⟩
    · exact .inl ⟨rfl, rfl⟩

section Numbers

variable (htimes : ∀ row ∈ rows, fl row.time = row.time)

include htimes

/-- Where the rows' times are numbers, so is the run's last credit keyframe's. -/
theorem fl_coarseEnd (coarse : Coarse) (params : RuleParams) :
    fl (coarseEnd rows coarse params) = coarseEnd rows coarse params := by
  unfold coarseEnd
  cases hmax : (((runRows rows coarse).filter (Row.isCredit params)).map Row.time).max? with
  | none =>
    rw [Option.getD_none, timeOf]
    by_cases hlt : coarse.endIndex < rows.length
    · rw [List.getD_eq_getElem _ _ hlt]
      exact htimes _ (List.getElem_mem hlt)
    · rw [List.getD_eq_default _ _ (not_lt.1 hlt)]
      exact fl_zero
  | some latest =>
    obtain ⟨row, hrow, rfl⟩ := List.mem_map.1 (List.max?_eq_some_iff.1 hmax).1
    exact htimes row (mem_of_mem_runRows (List.mem_filter.1 hrow).1)

/-- The refined end is no later than the walk's from the latest credit keyframe. -/
theorem refineEnd_le (coarse : Coarse) (fine : List Row) (params : RuleParams) {after : ℚ} (hafter : 0 ≤ after) :
    refineEnd rows coarse fine after params ≤
      walkForward fine (coarseEnd rows coarse params) (fl (coarseEnd rows coarse params + after)) params := by
  have hend := fl_coarseEnd htimes coarse params
  unfold refineEnd
  dsimp only
  obtain ⟨hscene, ht⟩ | ⟨row, hrow, scene, hscene, ht, hbefore, hlt⟩ := endKeyframes_spec rows coarse params
  · rw [hscene, ← endKeyframe, ht]
    exact le_rfl
  · rw [hscene, ← endKeyframe, ht]
    refine walkForward_le hend (hbefore.trans hlt) ?_ (lt_of_le_of_lt (min_le_right _ _) hlt) (le_fl hend (by linarith))
    exact le_min (le_fl (htimes row hrow) (by linarith)) hbefore.le

end Numbers

/-- There is an end exactly where there is one without the step back. -/
theorem creditsEnd_eq_map (rows : List Row) (coarse : Coarse) (fine : List Row) (duration : ℚ) (params : RuleParams) :
    creditsEnd rows coarse fine duration params =
      (plainEnd rows coarse fine duration params).map fun _ => refineEnd rows coarse fine refineEndAfter params := by
  unfold creditsEnd plainEnd
  dsimp only
  generalize walkForward fine (coarseEnd rows coarse params) (fl (coarseEnd rows coarse params + refineEndAfter)) params =
    ends
  cases keepsASceneAfter (coarseEnd rows coarse params) duration with
  | false => rfl
  | true => cases keepsASceneAfter ends duration <;> rfl

/-- What the walk from the latest credit keyframe ends on has more than 30 s after it. -/
theorem plainEnd_spec {coarse : Coarse} {duration ends : ℚ} (h : plainEnd rows coarse fine duration params = some ends) :
    ends = walkForward fine (coarseEnd rows coarse params) (fl (coarseEnd rows coarse params + refineEndAfter)) params ∧
      30 < duration - ends := by
  unfold plainEnd at h
  dsimp only at h
  split_ifs at h with hkeeps
  obtain rfl := Option.some.inj h
  refine ⟨rfl, lt_of_lt_fl (x := 30) ?_ (of_decide_eq_true (Bool.and_eq_true_iff.1 hkeeps).2)⟩
  exact_mod_cast fl_intCast (n := 30) (by norm_num)

/-- **A credits end always leaves a scene after it**: an end has more than 30 s of the file after it, and is no later than
the 1 fps walk from the run's latest credit keyframe gives. Stepping back over scene text never puts the keyframe later,
moves an end only to an earlier one, and creates none. -/
theorem creditsEnd_spec (rows : List Row) (coarse : Coarse) (fine : List Row) (duration : ℚ) (params : RuleParams)
    (htimes : ∀ row ∈ rows, fl row.time = row.time) :
    (∀ e, creditsEnd rows coarse fine duration params = some e →
      30 < duration - e ∧
      e ≤ walkForward fine (coarseEnd rows coarse params) (fl (coarseEnd rows coarse params + refineEndAfter)) params) ∧
    endKeyframe rows coarse params ≤ coarseEnd rows coarse params ∧
    (∀ e, creditsEnd rows coarse fine duration params = some e →
      ∃ e', plainEnd rows coarse fine duration params = some e' ∧ e ≤ e') ∧
    (plainEnd rows coarse fine duration params = none → creditsEnd rows coarse fine duration params = none) := by
  have hle : refineEnd rows coarse fine refineEndAfter params ≤
      walkForward fine (coarseEnd rows coarse params) (fl (coarseEnd rows coarse params + refineEndAfter)) params :=
    refineEnd_le htimes coarse fine params (by norm_num [refineEndAfter])
  have hkeyframe : endKeyframe rows coarse params ≤ coarseEnd rows coarse params := by
    obtain ⟨-, ht⟩ | ⟨row, -, scene, -, ht, hbefore, hlt⟩ := endKeyframes_spec rows coarse params
    · exact ht.le
    · rw [ht]
      exact (hbefore.trans hlt).le
  rw [creditsEnd_eq_map]
  refine ⟨fun e he => ?_, hkeyframe, fun e he => ?_, fun hnone => by rw [hnone]; rfl⟩
  · obtain ⟨e', he', rfl⟩ := Option.map_eq_some_iff.1 he
    obtain ⟨rfl, hscene⟩ := plainEnd_spec he'
    exact ⟨by linarith, hle⟩
  · obtain ⟨e', he', rfl⟩ := Option.map_eq_some_iff.1 he
    obtain ⟨rfl, -⟩ := plainEnd_spec he'
    exact ⟨_, he', hle⟩

/-- A roll of three cards, and the text of a scene that the join glued onto it. -/
def gluedRoll : List Row :=
  [middleRow 100 10, middleRow 106 10, middleRow 112 10, ⟨118, 0, 90, []⟩, ⟨124, 3, 90, []⟩]

/-- The end steps back to the last card, and the 1 fps rows take it on to the card's last second. -/
theorem creditsEnd_gluedRoll :
    creditsEnd gluedRoll ⟨0, 4, 100, none⟩ [middleRow 112 10, middleRow 114 10, ⟨124, 3, 90, []⟩] 200 ruleJ = some 114 ∧
      endKeyframe gluedRoll ⟨0, 4, 100, none⟩ ruleJ ≤ coarseEnd gluedRoll ⟨0, 4, 100, none⟩ ruleJ ∧
      (30 : ℚ) < 200 - 114 := by
  have htimes : ∀ row ∈ gluedRoll, fl row.time = row.time := by decide +kernel
  have hends : creditsEnd gluedRoll ⟨0, 4, 100, none⟩ [middleRow 112 10, middleRow 114 10, ⟨124, 3, 90, []⟩] 200 ruleJ =
      some 114 := by decide +kernel
  obtain ⟨hscene, hkeyframe, -⟩ := creditsEnd_spec gluedRoll ⟨0, 4, 100, none⟩
    [middleRow 112 10, middleRow 114 10, ⟨124, 3, 90, []⟩] 200 ruleJ htimes
  exact ⟨hends, hkeyframe, (hscene 114 hends).1⟩

end MediaPreview.Credits
