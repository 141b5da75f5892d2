import MediaPreview.Lib.Window
import MediaPreview.Markers.Clock
import Mathlib.Data.String.Basic

/-!
# Clusters of agreeing candidates

Rule 4 of `markers/decide.py`: the maximal sets of candidates that agree
(`agreeingCliques`), the marker such a set publishes (`composeCluster`), and the
independent pairs that contradict a marker (`contradictingGroups`).
-/

namespace MediaPreview.Markers

open Ranking Window

/-- `_AUDIO_OR_SERVER`: season audio and the markers already on a server. -/
def Source.isAudioOrServer (s : Source) : Bool := s.isServer || s = .seasonAudio || s = .seasonAudioPrevious

/-- `_READS_THE_FILE`: the sources that read this file. -/
def Source.readsTheFile : Source → Bool
  | .chapters | .seasonAudio | .seasonAudioPrevious | .creditsText => true
  | _ => false

/-- `_WINS_A_DISAGREEMENT`: the file read that wins a disagreement, credit text. -/
def Source.winsADisagreement (s : Source) : Bool := s = .creditsText

/-- `TEXT_OVER_ONLINE_MS`. -/
def textOverOnlineMs : ℤ := 5000

/-- What `agreeingCliques` asks of a window: two independent groups, and a candidate that is
neither a server marker nor season audio. -/
def isClique (window : List Candidate) : Bool :=
  2 ≤ (window.map group).dedup.length ∧ window.any fun c => !c.source.isAudioOrServer

/-- `by_value`: candidates in ascending order of their compared value, ties best first. -/
def byValue (candidates : List Candidate) (ctx : DecisionContext) : List Candidate :=
  sortBy (fun c => toLex (agreeValue c ctx.durationMs, sortKey ctx c)) candidates

/-- `_agreeing_cliques`: every maximal set of mutually agreeing candidates that spans two
independent groups, in ascending order of their smallest compared value, each best first. -/
def agreeingCliques (candidates : List Candidate) (mtype : MarkerType) (ctx : DecisionContext) :
    List (List Candidate) :=
  let sorted := byValue candidates ctx
  let values := valueAt (fun c => agreeValue c ctx.durationMs) sorted
  (slidingWindows values sorted.length (toleranceMs mtype)).filterMap fun w =>
    let window := slice sorted w
    if isClique window then some (sortBy (sortKey ctx) window) else none

/-- `_safer_other_edge`: the safer unchecked edge of `suppliers`, the latest start or the
earliest end, and the candidates that have it. (`max` and `min` of no suppliers raise; no
caller passes none.) -/
def saferOtherEdge (mtype : MarkerType) (suppliers : List Candidate) (ctx : DecisionContext) :
    ℤ × List Candidate :=
  if mtype.isStartSegment then
    let value := ((suppliers.map (·.startMs)).max?).getD 0
    (value, suppliers.filter (·.startMs = value))
  else
    let value := ((suppliers.map (resolveEndMs · ctx.durationMs)).min?).getD 0
    (value, suppliers.filter (resolveEndMs · ctx.durationMs = value))

/-- `_partial_season_match`: a season audio intro that one other episode supports, beside an
agreeing answer that starts well before it. -/
def partialSeasonMatch (c : Candidate) (confirmed : List Candidate) : Bool :=
  if c.source ≠ .seasonAudio ∨ c.origin.toList.takeWhile (· ≠ '/') ≠ ['1'] then false
  else confirmed.any fun o =>
    !o.source.isServer && group o ≠ group c && otherReleaseMinShiftMs < c.startMs - o.startMs

/-- The members of a cluster that agree with one of a different independent group. -/
def confirmedOf (cluster : List Candidate) (ctx : DecisionContext) : List Candidate :=
  cluster.filter fun c => cluster.any fun o => group o ≠ group c && agree c o ctx.durationMs

/-- The confirming members that may supply the checked edge. -/
def confirmedNonServer (cluster : List Candidate) (ctx : DecisionContext) : List Candidate :=
  (confirmedOf cluster ctx).filter fun c => !c.source.isServer

/-- `winner_key`. -/
def winnerKey (fileEdge textStart : Bool) (ctx : DecisionContext) (c : Candidate) : Bool ×ₗ Bool ×ₗ RankKey :=
  toLex (fileEdge && timedOnAnyRelease c, toLex (textStart && c.source ≠ .creditsText, sortKey ctx c))

/-- The candidate whose checked edge a cluster publishes. (`min` of an empty list raises; a
cluster composed has a confirming member outside the servers.) -/
def clusterWinner (cluster : List Candidate) (mtype : MarkerType) (ctx : DecisionContext) (textStart : Bool) :
    Candidate :=
  let confirmed := confirmedNonServer cluster ctx
  let fileEdge := mtype.isStartSegment && confirmed.any fun c => c.source.readsTheFile
  let winner := (confirmed.argmin (winnerKey fileEdge textStart ctx)).getD default
  if mtype = .credits then
    match (confirmed.filter fun c => c.source = .creditsText).argmin (sortKey ctx) with
    | some text => if textOverOnlineMs < |text.startMs - winner.startMs| then text else winner
    | none => winner
  else winner

/-- The confirming members the unchecked edge is taken from. -/
def edgePool (cluster : List Candidate) (mtype : MarkerType) (ctx : DecisionContext) : List Candidate :=
  let confirmed := confirmedOf cluster ctx
  let pool := if mtype.isStartSegment then confirmed.filter fun c => !partialSeasonMatch c confirmed else []
  if pool = [] then confirmed else pool

/-- `_compose_cluster`: the marker a cluster would publish, and its time winner. -/
def composeCluster (cluster : List Candidate) (mtype : MarkerType) (ctx : DecisionContext) (textStart : Bool) :
    Marker × Candidate :=
  let winner := clusterWinner cluster mtype ctx textStart
  let other := saferOtherEdge mtype (edgePool cluster mtype ctx) ctx
  let agreeing := (confirmedOf cluster ctx).filter fun c => agree winner c ctx.durationMs
  let sources := (winner :: (other.2 ++ agreeing)).map (·.source)
  (composedMarker mtype (agreeValue winner ctx.durationMs) other.1 sources ctx, winner)

/-- Two candidates are a pair of independent sources that agree. -/
def independentPair (ctx : DecisionContext) (a b : Candidate) : Bool :=
  group a ≠ group b && agree a b ctx.durationMs

/-- `_contradicting_groups`: the groups of every agreeing cross-group pair in `pool` whose
members are both beyond the tolerance of the marker. -/
def contradictingGroups (m : Marker) (pool : List Candidate) (ctx : DecisionContext) : List String :=
  let value := checkedValue m.type m
  let far := pool.filter fun c => toleranceMs m.type < |agreeValue c ctx.durationMs - value|
  let pairs := (pairs far).filter fun p => independentPair ctx p.1 p.2
  sortedSet id ((pairs.flatMap fun p => [p.1, p.2]).map fun c => (group c).name)

/-! ### What a cluster gives -/

/-- A cluster whose marker may be composed: of candidates of `pool`, one of which, not a server's,
agrees with a member of another group. -/
structure Composable (pool : List Candidate) (ctx : DecisionContext) (cluster : List Candidate) : Prop where
  /-- Its members are of the pool. -/
  subset : ∀ c ∈ cluster, c ∈ pool
  /-- Some member may supply the checked edge. -/
  confirmed : ∃ c, c ∈ confirmedNonServer cluster ctx

theorem mem_confirmedOf {cluster : List Candidate} {ctx : DecisionContext} {c : Candidate} :
    c ∈ confirmedOf cluster ctx ↔
      c ∈ cluster ∧ ∃ o ∈ cluster, group o ≠ group c ∧ agree c o ctx.durationMs = true := by
  simp [confirmedOf]

theorem mem_confirmedNonServer {cluster : List Candidate} {ctx : DecisionContext} {c : Candidate} :
    c ∈ confirmedNonServer cluster ctx ↔ c ∈ confirmedOf cluster ctx ∧ c.source.isServer = false := by
  simp [confirmedNonServer]

/-- More members confirm no fewer. -/
theorem Composable.mono {pool pool' cluster cluster' : List Candidate} {ctx : DecisionContext}
    (h : Composable pool ctx cluster) (hsub : ∀ c ∈ cluster, c ∈ cluster') (hpool : ∀ c ∈ cluster', c ∈ pool') :
    Composable pool' ctx cluster' := by
  obtain ⟨c, hc⟩ := h.confirmed
  rw [mem_confirmedNonServer, mem_confirmedOf] at hc
  obtain ⟨⟨hcl, o, ho, hgroup⟩, hserver⟩ := hc
  refine ⟨hpool, c, ?_⟩
  rw [mem_confirmedNonServer, mem_confirmedOf]
  exact ⟨⟨hsub c hcl, o, hsub o ho, hgroup⟩, hserver⟩

@[simp] theorem mem_byValue {l : List Candidate} {ctx : DecisionContext} {c : Candidate} :
    c ∈ byValue l ctx ↔ c ∈ l := mem_sortBy

theorem pairwise_byValue (l : List Candidate) (ctx : DecisionContext) :
    (byValue l ctx).Pairwise fun a b => agreeValue a ctx.durationMs ≤ agreeValue b ctx.durationMs := by
  refine (pairwise_sortBy _ l).imp fun h => ?_
  rcases Prod.Lex.toLex_le_toLex.mp h with h | h
  · exact h.le
  · exact h.1.le

/-- The windows of `agreeingCliques`: everything whose compared value lies within the tolerance
above some value. -/
theorem mem_agreeingCliques {l : List Candidate} {mtype : MarkerType} {ctx : DecisionContext} {cl : List Candidate}
    (h : cl ∈ agreeingCliques l mtype ctx) :
    ∃ (low : ℤ) (window : List Candidate), cl = sortBy (sortKey ctx) window ∧ isClique window = true ∧
      ∀ c, c ∈ window ↔ c ∈ l ∧ low ≤ agreeValue c ctx.durationMs ∧
        agreeValue c ctx.durationMs ≤ low + toleranceMs mtype := by
  obtain ⟨w, hw, hcl⟩ := List.mem_filterMap.mp h
  have hsorted := pairwise_byValue l ctx
  rw [mem_slidingWindows (valueAt_mono hsorted) (toleranceMs_pos mtype).le] at hw
  have hslice := slice_eq_filter hsorted hw
  dsimp only at hcl
  split_ifs at hcl with hclique
  refine ⟨valueAt (fun c => agreeValue c ctx.durationMs) (byValue l ctx) w.1, _, (Option.some.inj hcl).symm, hclique,
    fun c => ?_⟩
  rw [hslice, List.mem_filter, decide_eq_true_eq, mem_byValue]

/-- **An agreeing cluster may be composed.** -/
theorem composable_of_mem_agreeingCliques {l : List Candidate} {mtype : MarkerType} {ctx : DecisionContext}
    (htype : ∀ c ∈ l, c.type = mtype) {cl : List Candidate} (h : cl ∈ agreeingCliques l mtype ctx) :
    Composable l ctx cl := by
  obtain ⟨low, window, rfl, hclique, hmem⟩ := mem_agreeingCliques h
  simp only [isClique, decide_eq_true_eq, List.any_eq_true] at hclique
  obtain ⟨hgroups, c, hc, hserver⟩ := hclique
  obtain ⟨o, ho, hne⟩ := exists_ne_of_two_le_dedup hgroups (group c)
  refine ⟨fun c hc => ((hmem c).mp (mem_sortBy.mp hc)).1, c, ?_⟩
  rw [mem_confirmedNonServer, mem_confirmedOf]
  refine ⟨⟨mem_sortBy.mpr hc, o, mem_sortBy.mpr ho, hne, ?_⟩, ?_⟩
  · have hcv := ((hmem c).mp hc).2
    have hov := ((hmem o).mp ho).2
    rw [agree, decide_eq_true_eq, htype c ((hmem c).mp hc).1, abs_le]
    omega
  · simp only [Source.isAudioOrServer, Bool.not_eq_true', Bool.or_eq_false_iff] at hserver
    exact hserver.1.1

/-- The winner is a confirming member outside the servers. -/
theorem Composable.winner_mem {pool cluster : List Candidate} {ctx : DecisionContext}
    (h : Composable pool ctx cluster) (mtype : MarkerType) (textStart : Bool) :
    clusterWinner cluster mtype ctx textStart ∈ confirmedNonServer cluster ctx := by
  obtain ⟨c, hc⟩ := h.confirmed
  have hmin : ∀ key : Candidate → Bool ×ₗ Bool ×ₗ RankKey,
      ((confirmedNonServer cluster ctx).argmin key).getD default ∈ confirmedNonServer cluster ctx := by
    intro key
    cases hm : (confirmedNonServer cluster ctx).argmin key with
    | none => rw [List.argmin_eq_none.mp hm] at hc; simp at hc
    | some w => exact argmin_mem hm
  unfold clusterWinner
  dsimp only
  split_ifs
  · split
    · rename_i text htext
      split_ifs
      · exact (List.mem_filter.mp (argmin_mem htext)).1
      · exact hmin _
    · exact hmin _
  · exact hmin _

/-- The safer edge is one of the suppliers', which is then among those credited. -/
theorem saferOtherEdge_mem (mtype : MarkerType) {suppliers : List Candidate} (ctx : DecisionContext)
    (h : suppliers ≠ []) : ∃ o ∈ suppliers, o ∈ (saferOtherEdge mtype suppliers ctx).2 ∧
      (saferOtherEdge mtype suppliers ctx).1 = otherValue mtype o ctx.durationMs := by
  unfold saferOtherEdge otherValue
  split_ifs
  · cases hm : (suppliers.map (·.startMs)).max? with
    | none => simp [h] at hm
    | some v =>
      obtain ⟨o, ho, hov⟩ := List.mem_map.mp (List.max?_mem hm)
      exact ⟨o, ho, by simp [ho, hov], by simp [hov]⟩
  · cases hm : (suppliers.map (resolveEndMs · ctx.durationMs)).min? with
    | none => simp [h] at hm
    | some v =>
      obtain ⟨o, ho, hov⟩ := List.mem_map.mp (List.min?_mem hm)
      exact ⟨o, ho, by simp [ho, hov], by simp [hov]⟩

theorem mem_edgePool {cluster : List Candidate} {mtype : MarkerType} {ctx : DecisionContext} {c : Candidate}
    (h : c ∈ edgePool cluster mtype ctx) : c ∈ confirmedOf cluster ctx := by
  unfold edgePool at h
  dsimp only at h
  split_ifs at h
  · exact h
  · exact (List.mem_filter.mp h).1
  · exact h
  · simp at h

theorem Composable.edgePool_ne_nil {pool cluster : List Candidate} {ctx : DecisionContext}
    (h : Composable pool ctx cluster) (mtype : MarkerType) : edgePool cluster mtype ctx ≠ [] := by
  obtain ⟨c, hc⟩ := h.confirmed
  have hc := (mem_confirmedNonServer.mp hc).1
  unfold edgePool
  dsimp only
  generalize (if mtype.isStartSegment then _ else _ : List Candidate) = pool'
  split_ifs with hnil
  · exact List.ne_nil_of_mem hc
  · exact hnil

end MediaPreview.Markers
