import MediaPreview.Credits.CreditsEnd

/-!
# Refining a start

`refine_start` of `markers/credits/rule_j.py`: from the roll near the coarse start the walk goes back over the roll's 1 fps
frames, to the earliest one within reach each time (`refineWalk`), and from where it ends back over the fade (`fadeBack`).

Each hop goes to an earlier row, so the walk ends (`wellFounded_earlierRoll`); it stays in the window, and so does the fade
(`refineStart_spec`).
-/

namespace MediaPreview.Credits

open Binary64 Ranking Hops Relation

/-- `REFINE_BEFORE_S`. -/
def refineBefore : ℚ := 20

/-- `REFINE_AFTER_S`. -/
def refineAfter : ℚ := 1

/-- `FADE_LUMA`. -/
def fadeLuma : ℚ := 12

/-- `FADE_STEP_S`. -/
def fadeStep : ℚ := 4

/-! ### The fade -/

/-- The row before is darker than the fade, no later and near. -/
def Fades (rows : List Row) (floor : ℚ) (i : ℕ) : Prop :=
  floor ≤ timeOf rows i ∧ timeOf rows i ≤ timeOf rows (i + 1) ∧ (rows.getD i default).luma < fadeLuma ∧
    fl (timeOf rows (i + 1) - timeOf rows i) ≤ fadeStep

instance (rows : List Row) (floor : ℚ) (i : ℕ) : Decidable (Fades rows floor i) := inferInstanceAs (Decidable (_ ∧ _))

/-- The loop of `fade_back`. -/
def fadeIndex (rows : List Row) (floor : ℚ) : ℕ → ℕ
  | 0 => 0
  | i + 1 => if Fades rows floor i then fadeIndex rows floor i else i + 1

/-- `fade_back`. -/
def fadeBack (rows : List Row) (index : ℕ) (floor : ℚ) : ℚ := timeOf rows (fadeIndex rows floor index)

/-! ### The walk -/

/-- The rows of the window around the coarse start. -/
def refineWindow (coarse : Coarse) (fine : List Row) (before : ℚ) : List ℕ :=
  windowOf fine (fl (coarse.pts - before)) (fl (coarse.pts + refineAfter))

/-- The roll's frames in the window: credit frames, and frames whose text sits in the roll's band. -/
def rollFrames (rows : List Row) (coarse : Coarse) (fine : List Row) (before : ℚ) (params : RuleParams) : List ℕ :=
  let band := bandOf rows (coarse.runIndex.getD coarse.index) coarse.endIndex params
  (refineWindow coarse fine before).filter fun j =>
    creditAt fine params j || band.any fun band => (fine.getD j default).inBand band

/-- The roll's frames near the coarse start. -/
def nearFrames (rows : List Row) (coarse : Coarse) (fine : List Row) (before : ℚ) (params : RuleParams) : List ℕ :=
  (rollFrames rows coarse fine before params).filter fun j => decide (fl (coarse.pts - refineGap) ≤ timeOf fine j)

/-- The credit frames of the window. -/
def windowCredits (coarse : Coarse) (fine : List Row) (before : ℚ) (params : RuleParams) : List ℕ :=
  (refineWindow coarse fine before).filter (creditAt fine params)

/-- `walk_from`. -/
def walkOrigins (rows : List Row) (coarse : Coarse) (fine : List Row) (before : ℚ) (params : RuleParams) : List ℕ :=
  let near := nearFrames rows coarse fine before params
  if near ≠ [] then near else windowCredits coarse fine before params

/-- The first of the roll's earlier frames that are near. -/
def earlierRoll (fine : List Row) (roll : List ℕ) (j : ℕ) : Option ℕ :=
  (roll.filter fun k => decide (k < j ∧ fl (timeOf fine j - timeOf fine k) ≤ refineGap)).head?

/-- `_refine_walk`. -/
def refineWalk (rows : List Row) (coarse : Coarse) (fine : List Row) (before : ℚ) (params : RuleParams) :
    List ℕ × Option ℕ × Bool :=
  let window := refineWindow coarse fine before
  if window = [] then (window, none, false)
  else
    match (walkOrigins rows coarse fine before params).getLast? with
    | none => (window, none, false)
    | some j =>
      (window, some (hop (earlierRoll fine (rollFrames rows coarse fine before params)) j j),
        decide (nearFrames rows coarse fine before params ≠ []))

/-- `refine_start`. -/
def refineStart (rows : List Row) (coarse : Coarse) (fine : List Row) (before : ℚ) (params : RuleParams) : ℚ :=
  let walk := refineWalk rows coarse fine before params
  if walk.1 = [] then fadeBack rows coarse.index (-1)
  else
    match walk.2.1 with
    | none => coarse.pts
    | some j => fadeBack fine j (fl (coarse.pts - before))

/-! ### What the fade reaches -/

variable {rows fine : List Row} {coarse : Coarse} {before floor : ℚ} {params : RuleParams}

/-- A step of the fade, to the row before. -/
def FadeStep (rows : List Row) (floor : ℚ) (i k : ℕ) : Prop := i = k + 1 ∧ Fades rows floor k

/-- **The fade** goes back row by row, and never later. -/
theorem fadeIndex_spec (rows : List Row) (floor : ℚ) (index : ℕ) :
    ReflTransGen (FadeStep rows floor) index (fadeIndex rows floor index) ∧ fadeIndex rows floor index ≤ index ∧
      fadeBack rows index floor ≤ timeOf rows index ∧
      (fadeIndex rows floor index = index ∨ floor ≤ fadeBack rows index floor) := by
  unfold fadeBack
  induction index with
  | zero => exact ⟨.refl, le_rfl, le_rfl, .inl rfl⟩
  | succ i ih =>
    rw [fadeIndex]
    split_ifs with hfades
    · obtain ⟨hchain, hle, htime, hfloor⟩ := ih
      refine ⟨.head ⟨rfl, hfades⟩ hchain, by omega, htime.trans hfades.2.1, .inr ?_⟩
      obtain hself | hfloor := hfloor
      · rw [hself]
        exact hfades.1
      · exact hfloor
    · exact ⟨.refl, le_rfl, le_rfl, .inl rfl⟩

/-! ### Where the walk ends -/

theorem mem_rollFrames {j : ℕ} (h : j ∈ rollFrames rows coarse fine before params) :
    j ∈ refineWindow coarse fine before :=
  (List.mem_filter.1 h).1

theorem windowCredits_sub {j : ℕ} (h : j ∈ windowCredits coarse fine before params) :
    j ∈ rollFrames rows coarse fine before params := by
  obtain ⟨hwindow, hcredit⟩ := List.mem_filter.1 h
  exact List.mem_filter.2 ⟨hwindow, by rw [hcredit]; rfl⟩

theorem earlierRoll_spec {roll : List ℕ} {j k : ℕ} (h : earlierRoll fine roll j = some k) :
    k ∈ roll ∧ k < j ∧ fl (timeOf fine j - timeOf fine k) ≤ refineGap := by
  have hmem := List.mem_filter.1 (List.mem_of_mem_head? h)
  exact ⟨hmem.1, of_decide_eq_true hmem.2⟩

theorem earlierRoll_eq_none {roll : List ℕ} {j k : ℕ} (h : earlierRoll fine roll j = none) (hk : k ∈ roll) (hlt : k < j) :
    refineGap < fl (timeOf fine j - timeOf fine k) := by
  by_contra hnear
  rw [earlierRoll, List.head?_eq_none_iff, List.filter_eq_nil_iff] at h
  exact h k hk (decide_eq_true ⟨hlt, not_lt.1 hnear⟩)

/-- **The walk's loop terminates**: each hop goes to an earlier row. -/
theorem wellFounded_earlierRoll (fine : List Row) (roll : List ℕ) :
    WellFounded fun k j => earlierRoll fine roll j = some k :=
  Subrelation.wf (fun h => (earlierRoll_spec h).2.1) Nat.lt_wfRel.wf

/-- The last of a window's rows is its latest. -/
theorem le_getLast {l : List ℕ} {j k : ℕ} (hfine : fine.Pairwise fun a b => a.time ≤ b.time)
    (hsub : l.Sublist (refineWindow coarse fine before)) (h : l.getLast? = some j) (hk : k ∈ l) :
    timeOf fine k ≤ timeOf fine j := by
  have hsorted : l.Pairwise (· < ·) := (List.pairwise_lt_range.filter _).sublist hsub
  have hj := (mem_windowOf.1 (hsub.subset (List.mem_of_getLast? h))).1
  obtain ⟨init, rfl⟩ := List.getLast?_eq_some_iff.1 h
  obtain hk | hk := List.mem_append.1 hk
  · have hlt := (List.pairwise_append.1 hsorted).2.2 k hk j (List.mem_singleton.2 rfl)
    rw [timeOf, timeOf, List.getD_eq_getElem _ _ hj, List.getD_eq_getElem _ _ (hlt.trans hj)]
    exact List.pairwise_iff_getElem.1 hfine k j (hlt.trans hj) hj hlt
  · rw [List.mem_singleton.1 hk]

/-- Where a walk starts: the latest roll frame near the coarse start, or if there is none the latest credit frame of the
window. -/
def StartsFrom (rows : List Row) (coarse : Coarse) (fine : List Row) (before : ℚ) (params : RuleParams) (j : ℕ) : Prop :=
  (j ∈ nearFrames rows coarse fine before params ∧
    ∀ k ∈ nearFrames rows coarse fine before params, timeOf fine k ≤ timeOf fine j) ∨
  (nearFrames rows coarse fine before params = [] ∧ j ∈ windowCredits coarse fine before params ∧
    ∀ k ∈ windowCredits coarse fine before params, timeOf fine k ≤ timeOf fine j)

theorem startsFrom_of_getLast {j : ℕ} (hfine : fine.Pairwise fun a b => a.time ≤ b.time)
    (h : (walkOrigins rows coarse fine before params).getLast? = some j) : StartsFrom rows coarse fine before params j := by
  unfold walkOrigins at h
  dsimp only at h
  split_ifs at h with hnear
  · have hsub : (nearFrames rows coarse fine before params).Sublist (refineWindow coarse fine before) :=
      List.filter_sublist.trans List.filter_sublist
    exact .inl ⟨List.mem_of_getLast? h, fun k hk => le_getLast hfine hsub h hk⟩
  · exact .inr ⟨not_not.1 hnear, List.mem_of_getLast? h, fun k hk => le_getLast hfine List.filter_sublist h hk⟩

theorem StartsFrom.mem_rollFrames {j : ℕ} (h : StartsFrom rows coarse fine before params j) :
    j ∈ rollFrames rows coarse fine before params := by
  obtain ⟨hj, -⟩ | ⟨-, hj, -⟩ := h
  · exact (List.mem_filter.1 hj).1
  · exact windowCredits_sub hj

/-- **Refining a start stays near the coarse start.** The walk's loop terminates. Where a 1 fps row lies in the window around
the coarse start, the start is the coarse start itself where no roll frame is near it and the window has no credit frame,
and else is in the window: it is reached from the latest near roll frame, or the latest credit frame of the window, by hops
over the window's roll frames of at most `refineGap`, to one that has no roll frame so near before it, and from there over
the fade. Where no row lies there, the start is the time of a keyframe no later than the coarse start's. -/
theorem refineStart_spec (rows : List Row) (coarse : Coarse) (fine : List Row) (before : ℚ) (params : RuleParams)
    (hfine : fine.Pairwise fun a b => a.time ≤ b.time) :
    (WellFounded fun k j => earlierRoll fine (rollFrames rows coarse fine before params) j = some k) ∧
    (refineWindow coarse fine before ≠ [] →
      (refineStart rows coarse fine before params = coarse.pts ∧ nearFrames rows coarse fine before params = [] ∧
          windowCredits coarse fine before params = []) ∨
        (fl (coarse.pts - before) ≤ refineStart rows coarse fine before params ∧
          refineStart rows coarse fine before params ≤ fl (coarse.pts + refineAfter)) ∧
        ∃ start ends i, StartsFrom rows coarse fine before params start ∧
          ReflTransGen (fun j k => k ∈ rollFrames rows coarse fine before params ∧ k < j ∧
            fl (timeOf fine j - timeOf fine k) ≤ refineGap) start ends ∧
          (∀ k ∈ rollFrames rows coarse fine before params, k < ends →
            refineGap < fl (timeOf fine ends - timeOf fine k)) ∧
          ReflTransGen (FadeStep fine (fl (coarse.pts - before))) ends i ∧
          refineStart rows coarse fine before params = timeOf fine i) ∧
    (refineWindow coarse fine before = [] →
      ∃ k ≤ coarse.index, refineStart rows coarse fine before params = timeOf rows k ∧
        timeOf rows k ≤ timeOf rows coarse.index) := by
  refine ⟨wellFounded_earlierRoll _ _, fun hwindow => ?_, fun hwindow => ?_⟩
  · unfold refineStart refineWalk
    rw [if_neg hwindow]
    cases hstart : (walkOrigins rows coarse fine before params).getLast? with
    | none =>
      dsimp only
      rw [if_neg hwindow]
      refine .inl ⟨rfl, ?_⟩
      have hnil := List.getLast?_eq_none_iff.1 hstart
      unfold walkOrigins at hnil
      dsimp only at hnil
      split_ifs at hnil with hnear
      · exact absurd hnil hnear
      · exact ⟨not_not.1 hnear, hnil⟩
    | some start =>
      dsimp only
      rw [if_neg hwindow]
      have hfrom := startsFrom_of_getLast hfine hstart
      have hsmaller : ∀ j k, earlierRoll fine (rollFrames rows coarse fine before params) j = some k → id k < id j :=
        fun j k h => (earlierRoll_spec h).2.1
      obtain ⟨hchain, hend⟩ := hop_spec id hsmaller (le_refl start)
      have hkeeps : hop (earlierRoll fine (rollFrames rows coarse fine before params)) start start ∈
          rollFrames rows coarse fine before params :=
        hop_keeps (P := (· ∈ rollFrames rows coarse fine before params)) (fun a b _ h => (earlierRoll_spec h).1)
          hfrom.mem_rollFrames
      revert hchain hend hkeeps
      generalize hop (earlierRoll fine (rollFrames rows coarse fine before params)) start start = ends
      intro hchain hend hkeeps
      obtain ⟨-, hlo, hhi⟩ := mem_windowOf.1 (mem_rollFrames hkeeps)
      obtain ⟨hfade, -, hle, hfloor⟩ := fadeIndex_spec fine (fl (coarse.pts - before)) ends
      refine .inr ⟨⟨?_, hle.trans hhi⟩, start, ends, fadeIndex fine (fl (coarse.pts - before)) ends, hfrom, ?_, ?_, hfade, rfl⟩
      · obtain hself | hfloor := hfloor
        · rw [fadeBack, hself]
          exact hlo
        · exact hfloor
      · exact ReflTransGen.mono (fun j k h => earlierRoll_spec h) _ _ hchain
      · exact fun k hk hlt => earlierRoll_eq_none hend hk hlt
  · obtain ⟨-, hle, htime, -⟩ := fadeIndex_spec rows (-1) coarse.index
    unfold refineStart refineWalk
    rw [if_pos hwindow]
    dsimp only
    rw [if_pos hwindow]
    exact ⟨_, hle, rfl, htime⟩

/-- A roll's first names, seconds before its first keyframe, after a fade. -/
def fadedNames : List Row :=
  [middleRow 90 90, ⟨93, 0, 5, []⟩, ⟨94, 0, 5, []⟩, middleRow 96 90, middleRow 98 10, middleRow 100 10]

/-- The start is reached over the names, and then over the fade. -/
theorem refineStart_fadedNames :
    refineStart unbuggedRoll ⟨1, 3, 100, none⟩ fadedNames refineBefore ruleJ = 93 ∧
      refineWindow ⟨1, 3, 100, none⟩ fadedNames refineBefore ≠ [] ∧ fl (100 - refineBefore) ≤ 93 := by
  have hfine : fadedNames.Pairwise fun a b => a.time ≤ b.time := by
    norm_num [fadedNames, middleRow]
  have hstart : refineStart unbuggedRoll ⟨1, 3, 100, none⟩ fadedNames refineBefore ruleJ = 93 := by decide +kernel
  have hwindow : refineWindow ⟨1, 3, 100, none⟩ fadedNames refineBefore ≠ [] := by decide +kernel
  obtain ⟨hcoarse, -⟩ | ⟨⟨hbound, -⟩, -⟩ :=
    (refineStart_spec unbuggedRoll ⟨1, 3, 100, none⟩ fadedNames refineBefore ruleJ hfine).2.1 hwindow
  · rw [hstart] at hcoarse
    exact absurd hcoarse (by decide)
  · exact ⟨hstart, hwindow, hstart ▸ hbound⟩

end MediaPreview.Credits
