import MediaPreview.Lib.Cliques
import MediaPreview.Markers.Decide
import Mathlib.Data.Multiset.Dedup

/-!
# What the agreeing cliques are

The sliding window of `agreeingCliques` finds the maximal sets of pairwise agreeing candidates, keeps those that
span two independent groups and hold a candidate that is neither a server marker nor season audio, and returns each
once, in ascending order of their smallest compared value (`agreeingCliques_spec`).

Sets are multisets here, since two sources may give the same candidate twice.
-/

namespace MediaPreview.Markers

open Ranking Window Cliques

/-- Candidates of `l` that agree pairwise. -/
def Agreeing (l : List Candidate) (ctx : DecisionContext) (S : Multiset Candidate) : Prop :=
  S ≤ (l : Multiset Candidate) ∧ ∀ a ∈ S, ∀ b ∈ S, agree a b ctx.durationMs = true

/-- What a set of candidates needs to be kept: two independent groups, and a candidate that is neither a server
marker nor season audio. -/
def Spans (S : Multiset Candidate) : Prop :=
  2 ≤ (S.map group).dedup.card ∧ ∃ c ∈ S, c.source.isAudioOrServer = false

variable {l : List Candidate} {mtype : MarkerType} {ctx : DecisionContext}

theorem isClique_iff {window : List Candidate} : isClique window = true ↔ Spans (window : Multiset Candidate) := by
  simp [isClique, Spans]

theorem Spans.ne_zero {S : Multiset Candidate} (h : Spans S) : S ≠ 0 := by
  rintro rfl
  obtain ⟨-, c, hc, -⟩ := h
  exact Multiset.notMem_zero c hc

theorem coe_sortBy (window : List Candidate) :
    (sortBy (sortKey ctx) window : Multiset Candidate) = (window : Multiset Candidate) :=
  Multiset.coe_eq_coe.2 (sortBy_perm _ _)

/-- Candidates of one type agree when their compared values do. -/
theorem agreeing_eq_clique (htype : ∀ c ∈ l, c.type = mtype) :
    Agreeing l ctx = Clique (fun c => agreeValue c ctx.durationMs) (toleranceMs mtype) (byValue l ctx) := by
  funext S
  have hcoe : (byValue l ctx : Multiset Candidate) = (l : Multiset Candidate) := Multiset.coe_eq_coe.2 (sortBy_perm _ _)
  rw [Agreeing, Clique, hcoe]
  refine propext (and_congr_right fun hsub => forall₂_congr fun a ha => forall₂_congr fun b _ => ?_)
  rw [agree, decide_eq_true_eq, htype a (Multiset.mem_coe.1 (Multiset.mem_of_le hsub ha))]

/-- A set returned is a window's, best first. -/
theorem mem_agreeingCliques_iff {cl : List Candidate} :
    cl ∈ agreeingCliques l mtype ctx ↔
      ∃ w ∈ slidingWindows (valueAt (fun c => agreeValue c ctx.durationMs) (byValue l ctx)) (byValue l ctx).length
          (toleranceMs mtype),
        Spans (slice (byValue l ctx) w : Multiset Candidate) ∧ sortBy (sortKey ctx) (slice (byValue l ctx) w) = cl := by
  unfold agreeingCliques
  dsimp only
  rw [List.mem_filterMap]
  refine exists_congr fun w => and_congr_right fun _ => ?_
  rw [← isClique_iff]
  split_ifs with h
  · simp [h]
  · simp [h]

/-- The sets returned are the maximal ones that are kept. -/
theorem coe_mem_agreeingCliques (htype : ∀ c ∈ l, c.type = mtype) (S : Multiset Candidate) :
    (∃ cl ∈ agreeingCliques l mtype ctx, (cl : Multiset Candidate) = S) ↔ Maximal (Agreeing l ctx) S ∧ Spans S := by
  have hwindows := maximal_iff_mem_slidingWindows (pairwise_byValue l ctx) (toleranceMs_pos mtype).le (S := S)
  rw [agreeing_eq_clique htype]
  constructor
  · rintro ⟨cl, hcl, rfl⟩
    obtain ⟨w, hw, hspans, rfl⟩ := mem_agreeingCliques_iff.1 hcl
    rw [coe_sortBy] at hwindows ⊢
    exact ⟨(hwindows.2 ⟨w, hw, rfl⟩).1, hspans⟩
  · rintro ⟨hmax, hspans⟩
    obtain ⟨w, hw, rfl⟩ := hwindows.1 ⟨hmax, hspans.ne_zero⟩
    exact ⟨_, mem_agreeingCliques_iff.2 ⟨w, hw, hspans, rfl⟩, coe_sortBy _⟩

/-- They come in strictly ascending order of their smallest compared value. -/
theorem pairwise_agreeingCliques (l : List Candidate) (mtype : MarkerType) (ctx : DecisionContext) :
    (agreeingCliques l mtype ctx).Pairwise fun x y =>
      ∃ a ∈ x, ∀ b ∈ y, agreeValue a ctx.durationMs < agreeValue b ctx.durationMs := by
  unfold agreeingCliques
  dsimp only
  rw [List.pairwise_filterMap]
  refine (pairwise_valueAt (pairwise_byValue l ctx) (toleranceMs_pos mtype).le).imp fun {w w'} h x hx y hy => ?_
  obtain ⟨a, ha, hlt⟩ := h
  split_ifs at hx hy
  obtain rfl := Option.some.inj hx
  obtain rfl := Option.some.inj hy
  exact ⟨a, mem_sortBy.2 ha, fun b hb => hlt b (mem_sortBy.1 hb)⟩

/-- **The sliding window finds exactly the maximal agreeing sets**: what is returned are the maximal sets of pairwise
agreeing candidates that span two independent groups and hold a candidate that is neither a server marker nor season
audio, each once, in ascending order of their smallest compared value, and each best first. -/
theorem agreeingCliques_spec (l : List Candidate) (mtype : MarkerType) (ctx : DecisionContext)
    (htype : ∀ c ∈ l, c.type = mtype) :
    (∀ S : Multiset Candidate, (∃ cl ∈ agreeingCliques l mtype ctx, (cl : Multiset Candidate) = S) ↔
      Maximal (Agreeing l ctx) S ∧ Spans S) ∧
    ((agreeingCliques l mtype ctx).map Multiset.ofList).Nodup ∧
    ((agreeingCliques l mtype ctx).Pairwise fun x y =>
      ∃ a ∈ x, ∀ b ∈ y, agreeValue a ctx.durationMs < agreeValue b ctx.durationMs) ∧
    ∀ cl ∈ agreeingCliques l mtype ctx, cl.Pairwise fun a b => sortKey ctx a ≤ sortKey ctx b := by
  have hascending := pairwise_agreeingCliques l mtype ctx
  refine ⟨coe_mem_agreeingCliques htype, ?_, hascending, fun cl hcl => ?_⟩
  · rw [List.Nodup, List.pairwise_map]
    refine hascending.imp ?_
    rintro x y ⟨a, ha, hlt⟩ heq
    have hmem : a ∈ y := Multiset.mem_coe.1 (heq ▸ Multiset.mem_coe.2 ha)
    exact lt_irrefl _ (hlt a hmem)
  · obtain ⟨w, -, -, rfl⟩ := mem_agreeingCliques_iff.1 hcl
    exact pairwise_sortBy _ _

/-- The opening IntroDB and season audio agree on is such a set. -/
theorem agreeing_opening :
    (∀ c ∈ [openingIntrodb, openingAudio], c.type = .intro) ∧
      Maximal (Agreeing [openingIntrodb, openingAudio] episodeCtx) (↑[openingIntrodb, openingAudio] : Multiset Candidate) := by
  have htype : ∀ c ∈ [openingIntrodb, openingAudio], c.type = .intro := by
    simp [openingIntrodb, openingAudio]
  have hmem : [openingIntrodb, openingAudio] ∈ agreeingCliques [openingIntrodb, openingAudio] .intro episodeCtx := by
    decide +kernel
  exact ⟨htype, (((agreeingCliques_spec _ .intro episodeCtx htype).1 _).1 ⟨_, hmem, rfl⟩).1⟩

end MediaPreview.Markers
