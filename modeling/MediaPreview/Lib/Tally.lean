import MediaPreview.Lib.Ranking
import Mathlib.Algebra.GroupWithZero.Nat
import Mathlib.Data.List.Count

/-!
# Counting votes

Two ways to rank the options of a vote by the number of votes they got, ties to the one
first voted for.

One reads the votes in order and counts them in a dictionary, which keeps the order its
keys were first set in; a stable sort by count then leaves ties in that order (`tally`).
The other knows a stamp of every vote, ascending in the order of the vote, and keeps for
each option its count and its least stamp; it may read the votes in any order, and sorts
by count and stamp (`firstSeen`). They rank alike (`sortBy_tally`).
-/

namespace MediaPreview.Tally

open Ranking

variable {σ κ : Type*} [DecidableEq σ]

/-! ### A dictionary of counts -/

/-- `counts[s] = counts.get(s, 0) + 1`: a new key goes last. -/
def bump : List (σ × ℕ) → σ → List (σ × ℕ)
  | [], s => [(s, 1)]
  | (t, n) :: d, s => if t = s then (t, n + 1) :: d else (t, n) :: bump d s

/-- The dictionary after all votes. -/
def tally (votes : List σ) : List (σ × ℕ) := votes.foldl bump []

@[simp] theorem tally_nil : tally ([] : List σ) = [] := rfl

theorem tally_concat (votes : List σ) (s : σ) : tally (votes ++ [s]) = bump (tally votes) s := by
  simp [tally, List.foldl_append]

/-- A key set again stays where it is. -/
theorem map_fst_bump (d : List (σ × ℕ)) (s : σ) :
    (bump d s).map Prod.fst = if s ∈ d.map Prod.fst then d.map Prod.fst else d.map Prod.fst ++ [s] := by
  induction d with
  | nil => simp [bump]
  | cons p d ih =>
    obtain ⟨t, n⟩ := p
    by_cases h : t = s
    · simp [bump, h]
    · have h' : s ≠ t := fun h' => h h'.symm
      rw [bump, if_neg h, List.map_cons, ih]
      by_cases hs : s ∈ d.map Prod.fst
      · rw [if_pos hs, if_pos (by simp only [List.map_cons, List.mem_cons]; exact .inr hs), List.map_cons]
      · rw [if_neg hs, if_neg (by simp only [List.map_cons, List.mem_cons]; exact fun h => h.elim h' hs)]
        rfl

/-- A bump adds one. -/
theorem sum_bump (d : List (σ × ℕ)) (s : σ) : ((bump d s).map Prod.snd).sum = (d.map Prod.snd).sum + 1 := by
  induction d with
  | nil => rfl
  | cons e d ih =>
    obtain ⟨t, n⟩ := e
    rw [bump]
    split_ifs
    · simp only [List.map_cons, List.sum_cons]
      omega
    · simp only [List.map_cons, List.sum_cons, ih]
      omega

/-- What a bump changes: one count. -/
theorem mem_bump {d : List (σ × ℕ)} {s t : σ} {n : ℕ} (hd : (d.map Prod.fst).Nodup) :
    (t, n) ∈ bump d s ↔
      (t ≠ s ∧ (t, n) ∈ d) ∨ (t = s ∧ ((s ∉ d.map Prod.fst ∧ n = 1) ∨ ∃ m, (s, m) ∈ d ∧ n = m + 1)) := by
  induction d with
  | nil => simp [bump]
  | cons p d ih =>
    obtain ⟨u, m⟩ := p
    rw [List.map_cons, List.nodup_cons] at hd
    have hsnd : ∀ k, (u, k) ∈ d → False := fun k hk => hd.1 (List.mem_map.mpr ⟨(u, k), hk, rfl⟩)
    by_cases h : u = s
    · subst h
      rw [bump, if_pos rfl]
      simp only [List.mem_cons, Prod.mk.injEq, List.map_cons, true_or, not_true_eq_false, false_and, false_or]
      constructor
      · rintro (⟨rfl, rfl⟩ | hmem)
        · exact .inr ⟨rfl, m, .inl ⟨trivial, rfl⟩, rfl⟩
        · have hne : t ≠ u := fun h => hsnd n (h ▸ hmem)
          exact .inl ⟨hne, .inr hmem⟩
      · rintro (⟨hne, ⟨rfl, -⟩ | hmem⟩ | ⟨rfl, k, ⟨-, rfl⟩ | hmem, rfl⟩)
        · exact absurd rfl hne
        · exact .inr hmem
        · exact .inl ⟨rfl, rfl⟩
        · exact absurd hmem (hsnd k)
    · rw [bump, if_neg h, List.mem_cons, ih hd.2]
      have h' : ¬ s = u := fun h' => h h'.symm
      simp only [List.map_cons, List.mem_cons, Prod.mk.injEq, h', false_or, false_and]
      constructor
      · rintro (⟨rfl, rfl⟩ | ⟨hne, hmem⟩ | hs)
        · exact .inl ⟨h, .inl ⟨rfl, rfl⟩⟩
        · exact .inl ⟨hne, .inr hmem⟩
        · exact .inr hs
      · rintro (⟨hne, hhead | hmem⟩ | hs)
        · exact .inl hhead
        · exact .inr (.inl ⟨hne, hmem⟩)
        · exact .inr (.inr hs)

/-- The keys are the options voted for, each once. -/
theorem keys_tally (votes : List σ) :
    ((tally votes).map Prod.fst).Nodup ∧ ∀ s, s ∈ (tally votes).map Prod.fst ↔ s ∈ votes := by
  induction votes using List.reverseRecOn with
  | nil => simp
  | append_singleton votes s ih =>
    rw [tally_concat, map_fst_bump]
    split_ifs with hs
    · refine ⟨ih.1, fun t => ?_⟩
      rw [ih.2, List.mem_append, List.mem_singleton]
      exact ⟨.inl, fun h => h.elim id fun h => h ▸ (ih.2 s).mp hs⟩
    · refine ⟨?_, fun t => by rw [List.mem_append, ih.2, List.mem_append]⟩
      refine List.Nodup.append ih.1 (List.nodup_singleton s) fun t ht hts => ?_
      rw [List.mem_singleton] at hts
      exact hs (hts ▸ ht)

/-- **Each count is the number of votes.** -/
theorem count_of_mem_tally {votes : List σ} {s : σ} {n : ℕ} (h : (s, n) ∈ tally votes) : n = votes.count s := by
  induction votes using List.reverseRecOn generalizing s n with
  | nil => simp at h
  | append_singleton votes v ih =>
    rw [tally_concat, mem_bump (keys_tally votes).1] at h
    rw [List.count_append]
    rcases h with ⟨hne, hmem⟩ | ⟨rfl, ⟨hnew, rfl⟩ | ⟨m, hmem, rfl⟩⟩
    · rw [ih hmem, List.count_singleton, if_neg (by simpa using hne.symm), Nat.add_zero]
    · rw [(keys_tally votes).2] at hnew
      simp [List.count_eq_zero.mpr hnew]
    · simp [ih hmem]

/-! ### Counts and first stamps -/

variable [LinearOrder κ]

/-- The least stamp of the votes for `s`, starting from `top`. -/
def firstSeen (top : κ) (votes : List (σ × κ)) (s : σ) : κ :=
  ((votes.filter fun v => v.1 = s).map Prod.snd).foldl min top

/-- Whatever order the votes are read in. -/
theorem firstSeen_perm (top : κ) {v₁ v₂ : List (σ × κ)} (h : v₁.Perm v₂) (s : σ) :
    firstSeen top v₁ s = firstSeen top v₂ s :=
  have : RightCommutative (min : κ → κ → κ) := ⟨min_right_comm⟩
  ((h.filter _).map _).foldl_eq top

theorem firstSeen_concat (top : κ) (votes : List (σ × κ)) (v : σ × κ) (s : σ) :
    firstSeen top (votes ++ [v]) s = if v.1 = s then min (firstSeen top votes s) v.2 else firstSeen top votes s := by
  unfold firstSeen
  rw [List.filter_append]
  split_ifs with h
  · simp [h, List.foldl_append]
  · simp [h]

/-- Renaming the options keeps their stamps. -/
theorem firstSeen_map {τ : Type*} [DecidableEq τ] {f : σ → τ} (hf : Function.Injective f) (top : κ)
    (votes : List (σ × κ)) (s : σ) : firstSeen top (votes.map fun v => (f v.1, v.2)) (f s) = firstSeen top votes s := by
  simp only [firstSeen, List.filter_map, List.map_map, Function.comp_def, hf.eq_iff]

/-- Keeping the least stamp of each option, one vote at a time. -/
def keepFirst (stamps : σ → κ) (v : σ × κ) : σ → κ := Function.update stamps v.1 (min (stamps v.1) v.2)

/-- From no stamps at all that is `firstSeen`. -/
theorem foldl_keepFirst (votes : List (σ × κ)) (stamps : σ → κ) (s : σ) :
    votes.foldl keepFirst stamps s = firstSeen (stamps s) votes s := by
  induction votes generalizing stamps with
  | nil => rfl
  | cons v votes ih =>
    rw [List.foldl_cons, ih, firstSeen, firstSeen, List.filter_cons, keepFirst]
    by_cases h : v.1 = s
    · subst h
      simp
    · rw [Function.update_of_ne (fun hs => h hs.symm), if_neg (by simpa using h)]

theorem foldl_min_le_top (l : List κ) (top : κ) : l.foldl min top ≤ top := by
  induction l generalizing top with
  | nil => exact le_rfl
  | cons x l ih => exact (ih (min top x)).trans (min_le_left top x)

theorem foldl_min_le {top k : κ} {l : List κ} (h : k ∈ l) : l.foldl min top ≤ k := by
  induction l generalizing top with
  | nil => simp at h
  | cons x l ih =>
    rw [List.foldl_cons]
    rcases List.mem_cons.mp h with rfl | h
    · exact (foldl_min_le_top l _).trans (min_le_right _ _)
    · exact ih h

theorem firstSeen_le_top (top : κ) (votes : List (σ × κ)) (s : σ) : firstSeen top votes s ≤ top := foldl_min_le_top _ _

theorem firstSeen_le {top : κ} {votes : List (σ × κ)} {v : σ × κ} (h : v ∈ votes) : firstSeen top votes v.1 ≤ v.2 :=
  foldl_min_le (List.mem_map_of_mem (List.mem_filter.mpr ⟨h, decide_eq_true rfl⟩))

/-- An option not voted for has no stamp. -/
theorem firstSeen_of_notMem {top : κ} {votes : List (σ × κ)} {s : σ} (h : s ∉ votes.map Prod.fst) :
    firstSeen top votes s = top := by
  have hnil : (votes.filter fun v => v.1 = s) = [] := by
    rw [List.filter_eq_nil_iff]
    intro v hv
    have : v.1 ≠ s := fun hs => h (hs ▸ List.mem_map_of_mem hv)
    simpa using this
  rw [firstSeen, hnil]
  rfl

/-- **The dictionary's keys stand in the order of their first stamps.** -/
theorem pairwise_firstSeen_tally {top : κ} {votes : List (σ × κ)} (hk : votes.Pairwise fun v w => v.2 < w.2)
    (htop : ∀ v ∈ votes, v.2 ≤ top) :
    ((tally (votes.map Prod.fst)).map Prod.fst).Pairwise fun s t => firstSeen top votes s < firstSeen top votes t := by
  induction votes using List.reverseRecOn with
  | nil => simp
  | append_singleton votes v ih =>
    obtain ⟨hvotes, -, hlast⟩ := List.pairwise_append.mp hk
    have hbefore : ∀ w ∈ votes, w.2 < v.2 := fun w hw => hlast w hw v (List.mem_singleton_self v)
    have hih := ih hvotes fun w hw => htop w (List.mem_append_left _ hw)
    -- an option voted for before keeps its first stamp
    have hkeep : ∀ s ∈ votes.map Prod.fst, firstSeen top (votes ++ [v]) s = firstSeen top votes s := by
      intro s hs
      obtain ⟨w, hw, rfl⟩ := List.mem_map.mp hs
      rw [firstSeen_concat]
      split_ifs
      · exact min_eq_left ((firstSeen_le hw).trans (hbefore w hw).le)
      · rfl
    have hkeys := (keys_tally (votes.map Prod.fst)).2
    have hold : ((tally (votes.map Prod.fst)).map Prod.fst).Pairwise fun s t =>
        firstSeen top (votes ++ [v]) s < firstSeen top (votes ++ [v]) t := by
      refine hih.imp_of_mem fun {s t} hs ht hst => ?_
      rwa [hkeep s ((hkeys s).mp hs), hkeep t ((hkeys t).mp ht)]
    rw [List.map_append, List.map_singleton, tally_concat, map_fst_bump]
    split_ifs with hmem
    · exact hold
    · refine List.pairwise_append.mpr ⟨hold, List.pairwise_singleton _ _, fun s hs t ht => ?_⟩
      rw [List.mem_singleton] at ht
      subst ht
      have hs := (hkeys s).mp hs
      obtain ⟨w, hw, rfl⟩ := List.mem_map.mp hs
      rw [hkeep w.1 hs, firstSeen_concat, if_pos rfl, firstSeen_of_notMem fun h => hmem ((hkeys _).mpr h),
        min_eq_right (htop v (by simp))]
      exact (firstSeen_le hw).trans_lt (hbefore w hw)

/-- **The two rankings are one**: by count with ties in the dictionary's order, and by count and
first stamp, of the same options in whatever order. -/
theorem sortBy_tally {top : κ} {votes : List (σ × κ)} (hk : votes.Pairwise fun v w => v.2 < w.2)
    (htop : ∀ v ∈ votes, v.2 ≤ top) {options : List σ} (hnd : options.Nodup)
    (hmem : ∀ s, s ∈ options ↔ s ∈ votes.map Prod.fst) :
    sortBy (fun s => toLex (-((votes.map Prod.fst).count s : ℤ), firstSeen top votes s)) options =
      (sortBy (fun p => -(p.2 : ℤ)) (tally (votes.map Prod.fst))).map Prod.fst := by
  obtain ⟨hkeysnd, hkeys⟩ := keys_tally (votes.map Prod.fst)
  set rank := fun s => toLex (-((votes.map Prod.fst).count s : ℤ), firstSeen top votes s) with hrank
  have hfirst := pairwise_firstSeen_tally hk htop
  -- the stable sort leaves ties in the order of first stamps
  have hstable := pairwise_lex_sortBy (fun p : σ × ℕ => -(p.2 : ℤ)) (fun p => firstSeen top votes p.1)
    (l := tally (votes.map Prod.fst)) ((List.pairwise_map.mp hfirst).imp fun h => h.le)
  have hranked : ((sortBy (fun p => -(p.2 : ℤ)) (tally (votes.map Prod.fst))).map Prod.fst).Pairwise
      fun s t => rank s ≤ rank t := by
    rw [List.pairwise_map]
    refine hstable.imp_of_mem fun {p q} hp hq hpq => ?_
    rw [mem_sortBy] at hp hq
    rwa [count_of_mem_tally hp, count_of_mem_tally hq] at hpq
  have hinj : ∀ s ∈ (tally (votes.map Prod.fst)).map Prod.fst, ∀ t ∈ (tally (votes.map Prod.fst)).map Prod.fst,
      firstSeen top votes s = firstSeen top votes t → s = t := by
    have hnodup : (((tally (votes.map Prod.fst)).map Prod.fst).map (firstSeen top votes)).Nodup :=
      List.pairwise_map.mpr (hfirst.imp fun h => h.ne)
    exact fun s hs t ht heq => List.inj_on_of_nodup_map hnodup hs ht heq
  have hperm : (sortBy rank options).Perm ((sortBy (fun p => -(p.2 : ℤ)) (tally (votes.map Prod.fst))).map Prod.fst) := by
    refine (sortBy_perm rank options).trans (List.Perm.trans ?_ ((sortBy_perm _ _).map Prod.fst).symm)
    rw [List.perm_ext_iff_of_nodup hnd hkeysnd]
    exact fun s => (hmem s).trans (hkeys s).symm
  refine hperm.eq_of_pairwise (fun s t hs ht hst hts => ?_) (pairwise_sortBy rank options) hranked
  have hs := (hkeys s).mpr ((hmem s).mp (mem_sortBy.mp hs))
  have ht := (hkeys t).mpr ((hmem t).mp (mem_sortBy.mp (hperm.mem_iff.mpr ht)))
  exact hinj s hs t ht (Prod.mk.inj (toLex_inj.mp (le_antisymm hst hts))).2

end MediaPreview.Tally
