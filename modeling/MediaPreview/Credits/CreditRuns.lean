import MediaPreview.Credits.ReachBack
import MediaPreview.Lib.Chains

/-!
# Runs of credit frames

`credit_runs` of `markers/credits/rule_j.py` goes over the rows once and keeps the runs so far and when it last saw a lit
row that shows no credits (`RunScan`). Where the times increase, a credit row comes after such a row exactly when that row
is no earlier than the run's last (`LastLit.lt_iff`), so what it keeps are the ends of the maximal chains of credit rows,
joined when they are near or nothing lit lies between them (`creditRuns_spec`).
-/

namespace MediaPreview.Credits

open Binary64 Chains

/-- The row at an index shows credits. -/
def creditAt (rows : List Row) (params : RuleParams) (i : ℕ) : Bool := (rows.getD i default).isCredit params

/-- The row at an index is lit and shows none. -/
def Lit (rows : List Row) (params : RuleParams) (i : ℕ) : Prop :=
  creditAt rows params i = false ∧ params.dark ≤ (rows.getD i default).luma

instance (rows : List Row) (params : RuleParams) (i : ℕ) : Decidable (Lit rows params i) :=
  inferInstanceAs (Decidable (_ ∧ _))

/-- What the loop keeps. -/
structure RunScan where
  /-- `runs`, the last one first. -/
  runs : List (ℕ × ℕ)
  /-- `last_bright`. -/
  lastBright : ℚ

/-- One round of the loop. -/
def RunScan.step (rows : List Row) (params : RuleParams) (s : RunScan) (i : ℕ) : RunScan :=
  if creditAt rows params i then
    match s.runs with
    | [] => { s with runs := [(i, i)] }
    | (first, last) :: earlier =>
      -- dark frames without text never break a run
      if fl (timeOf rows i - timeOf rows last) ≤ params.gap ∨ s.lastBright < timeOf rows last then
        { s with runs := (first, i) :: earlier }
      else { s with runs := (i, i) :: (first, last) :: earlier }
  else if params.dark ≤ (rows.getD i default).luma then { s with lastBright := timeOf rows i }
  else s

/-- The loop over the first rows. -/
def scanRuns (rows : List Row) (params : RuleParams) (n : ℕ) : RunScan :=
  (List.range n).foldl (RunScan.step rows params) ⟨[], -1⟩

/-- A run is long enough. -/
def longEnough (rows : List Row) (params : RuleParams) (run : ℕ × ℕ) : Bool :=
  params.run ≤ fl (timeOf rows run.2 - timeOf rows run.1)

/-- `credit_runs`. -/
def creditRuns (rows : List Row) (params : RuleParams) : List (ℕ × ℕ) :=
  (scanRuns rows params rows.length).runs.reverse.filter (longEnough rows params)

/-! ### Classes of credit rows -/

/-- The credit rows among the first. -/
def creditsBelow (rows : List Row) (params : RuleParams) (n : ℕ) : List ℕ := (List.range n).filter (creditAt rows params)

/-- Two successive credit rows are of one class: they are near, or no lit row without credits lies between them. -/
def joins (rows : List Row) (params : RuleParams) (b i : ℕ) : Bool :=
  decide (fl (timeOf rows i - timeOf rows b) ≤ params.gap ∨ ∀ k < i, b < k → ¬ Lit rows params k)

/-- The classes of the credit rows. -/
def creditClasses (rows : List Row) (params : RuleParams) : List (List ℕ) :=
  (creditsBelow rows params rows.length).splitBy (joins rows params)

variable {rows : List Row} {params : RuleParams}

theorem mem_creditsBelow {n i : ℕ} : i ∈ creditsBelow rows params n ↔ i < n ∧ creditAt rows params i = true := by
  rw [creditsBelow, List.mem_filter, List.mem_range]

theorem pairwise_creditsBelow (n : ℕ) : (creditsBelow rows params n).Pairwise (· < ·) :=
  List.pairwise_lt_range.filter _

theorem creditsBelow_succ (n : ℕ) :
    creditsBelow rows params (n + 1) = creditsBelow rows params n ++ if creditAt rows params n then [n] else [] := by
  rw [creditsBelow, List.range_succ, List.filter_append, List.filter_singleton, creditsBelow]
  cases creditAt rows params n <;> rfl

/-! ### When a lit row was last seen -/

/-- The loop has seen no lit row without credits so far, or the last one was then. -/
def LastLit (rows : List Row) (params : RuleParams) (n : ℕ) (bright : ℚ) : Prop :=
  (bright = -1 ∧ ∀ k < n, ¬ Lit rows params k) ∨
    ∃ k < n, Lit rows params k ∧ bright = timeOf rows k ∧ ∀ j < n, k < j → ¬ Lit rows params j

theorem LastLit.unlit {n : ℕ} {bright : ℚ} (h : LastLit rows params n bright) (hn : ¬ Lit rows params n) :
    LastLit rows params (n + 1) bright := by
  obtain ⟨hbright, hnone⟩ | ⟨k, hk, hlit, hbright, hnone⟩ := h
  · refine .inl ⟨hbright, fun j hj => ?_⟩
    obtain hj | rfl := Nat.lt_succ_iff_lt_or_eq.1 hj
    · exact hnone j hj
    · exact hn
  · refine .inr ⟨k, by omega, hlit, hbright, fun j hj hkj => ?_⟩
    obtain hj | rfl := Nat.lt_succ_iff_lt_or_eq.1 hj
    · exact hnone j hj hkj
    · exact hn

theorem lastLit_of_lit {n : ℕ} (hn : Lit rows params n) : LastLit rows params (n + 1) (timeOf rows n) :=
  .inr ⟨n, n.lt_succ_self, hn, rfl, fun j hj hnj => by omega⟩

section Increasing

variable (hsorted : rows.Pairwise fun a b => a.time < b.time) (hpos : ∀ row ∈ rows, 0 ≤ row.time)

include hsorted

theorem timeOf_lt {i j : ℕ} (hij : i < j) (hj : j < rows.length) : timeOf rows i < timeOf rows j := by
  rw [timeOf, timeOf, List.getD_eq_getElem _ _ hj, List.getD_eq_getElem _ _ (hij.trans hj)]
  exact List.pairwise_iff_getElem.1 hsorted i j (hij.trans hj) hj hij

include hpos

/-- **A credit row is later than the last lit row** when no such row came since. -/
theorem LastLit.lt_iff {n b : ℕ} {bright : ℚ} (h : LastLit rows params n bright) (hn : n ≤ rows.length) (hb : b < n)
    (hcredit : creditAt rows params b = true) :
    bright < timeOf rows b ↔ ∀ k < n, b < k → ¬ Lit rows params k := by
  obtain ⟨rfl, hnone⟩ | ⟨k, hk, hlit, rfl, hnone⟩ := h
  · have hlen : b < rows.length := by omega
    have hbpos : 0 ≤ timeOf rows b := by
      rw [timeOf, List.getD_eq_getElem _ _ hlen]
      exact hpos _ (List.getElem_mem hlen)
    exact iff_of_true (by linarith) fun k hk _ => hnone k hk
  · have hne : k ≠ b := by
      rintro rfl
      rw [hlit.1] at hcredit
      cases hcredit
    obtain hkb | hbk := Nat.lt_or_gt_of_ne hne
    · exact iff_of_true (timeOf_lt hsorted hkb (by omega)) fun j hj hbj => hnone j hj (by omega)
    · refine iff_of_false ?_ fun hall => hall k hk hbk hlit
      exact not_lt.2 (timeOf_lt hsorted hbk (by omega)).le

/-- **After each row** the loop has the ends of the classes so far. -/
theorem scanRuns_spec {n : ℕ} (hn : n ≤ rows.length) :
    (scanRuns rows params n).runs = (chainEnds (joins rows params) (creditsBelow rows params n)).reverse ∧
      LastLit rows params n (scanRuns rows params n).lastBright := by
  induction n with
  | zero => exact ⟨rfl, .inl ⟨rfl, fun k hk => absurd hk (Nat.not_lt_zero k)⟩⟩
  | succ n ih =>
    obtain ⟨hruns, hlit⟩ := ih (by omega)
    have hstep : scanRuns rows params (n + 1) = (scanRuns rows params n).step rows params n := by
      rw [scanRuns, List.range_succ, List.foldl_concat]
      rfl
    rw [hstep, creditsBelow_succ, RunScan.step]
    by_cases hcredit : creditAt rows params n = true
    · rw [if_pos hcredit, if_pos hcredit, chainEnds_concat, ← hruns]
      have hunlit : ¬ Lit rows params n := by
        rintro ⟨hno, -⟩
        rw [hno] at hcredit
        cases hcredit
      cases hkept : (scanRuns rows params n).runs with
      | nil => exact ⟨rfl, hlit.unlit hunlit⟩
      | cons run earlier =>
        obtain ⟨first, last⟩ := run
        have hmem : (first, last) ∈ chainEnds (joins rows params) (creditsBelow rows params n) := by
          rw [← List.mem_reverse, ← hruns, hkept]
          exact List.mem_cons_self
        obtain ⟨m, hm, hends⟩ := mem_chainEnds.1 hmem
        obtain ⟨hlast, hlastCredit⟩ := mem_creditsBelow.1 (mem_of_mem_splitBy hm (mem_of_ends hends).2)
        have hbright := or_congr_right (a := fl (timeOf rows n - timeOf rows last) ≤ params.gap)
          (hlit.lt_iff hsorted hpos (by omega) hlast hlastCredit)
        dsimp only
        rw [extend]
        by_cases hjoin : joins rows params last n = true
        · rw [if_pos hjoin, if_pos (hbright.2 (of_decide_eq_true hjoin))]
          exact ⟨rfl, hlit.unlit hunlit⟩
        · rw [if_neg hjoin, if_neg fun hor => hjoin (decide_eq_true (hbright.1 hor))]
          exact ⟨rfl, hlit.unlit hunlit⟩
    · rw [if_neg hcredit, if_neg hcredit, List.append_nil]
      by_cases hdark : params.dark ≤ (rows.getD n default).luma
      · rw [if_pos hdark]
        exact ⟨hruns, lastLit_of_lit ⟨Bool.eq_false_iff.2 hcredit, hdark⟩⟩
      · rw [if_neg hdark]
        exact ⟨hruns, hlit.unlit fun h => hdark h.2⟩

/-- The runs are the ends of the classes that are long enough. -/
theorem creditRuns_eq :
    creditRuns rows params = ((creditClasses rows params).filterMap ends).filter (longEnough rows params) := by
  rw [creditRuns, (scanRuns_spec hsorted hpos le_rfl).1, List.reverse_reverse]
  rfl

end Increasing

/-- **Credit runs are the maximal chains of credit frames**: where the times increase and are not negative, they are, in
order, the first and last rows of the classes that come of joining two successive credit rows when they are at most `gap`
apart or no lit row without credits lies between them, of those whose ends are at least `run` apart. So they are disjoint,
begin and end on credit rows, and a credit row outside them is of a class that is shorter. -/
theorem creditRuns_spec (rows : List Row) (params : RuleParams) (hsorted : rows.Pairwise fun a b => a.time < b.time)
    (hpos : ∀ row ∈ rows, 0 ≤ row.time) :
    creditRuns rows params = ((creditClasses rows params).filterMap ends).filter (longEnough rows params) ∧
    (creditRuns rows params).Pairwise (fun run run' => run.2 < run'.1) ∧
    (∀ run ∈ creditRuns rows params, run.1 ≤ run.2 ∧ run.2 < rows.length ∧
      creditAt rows params run.1 = true ∧ creditAt rows params run.2 = true) ∧
    ∀ i < rows.length, creditAt rows params i = true →
      (∃ run ∈ creditRuns rows params, run.1 ≤ i ∧ i ≤ run.2) ∨
      ∃ m ∈ creditClasses rows params, i ∈ m ∧ ∃ e ∈ ends m, fl (timeOf rows e.2 - timeOf rows e.1) < params.run := by
  have heq : creditRuns rows params = ((creditClasses rows params).filterMap ends).filter (longEnough rows params) :=
    creditRuns_eq hsorted hpos
  have hincreasing : (creditsBelow rows params rows.length).Pairwise (· < ·) := pairwise_creditsBelow rows.length
  refine ⟨heq, ?_, fun run hrun => ?_, fun i hi hcredit => ?_⟩
  · rw [heq]
    exact (pairwise_chainEnds hincreasing).filter _
  · rw [heq, List.mem_filter] at hrun
    obtain ⟨m, hm, hends⟩ := mem_chainEnds.1 hrun.1
    obtain ⟨hfirst, hlast⟩ := mem_of_ends hends
    obtain ⟨-, hcreditFirst⟩ := mem_creditsBelow.1 (mem_of_mem_splitBy hm hfirst)
    obtain ⟨hlt, hcreditLast⟩ := mem_creditsBelow.1 (mem_of_mem_splitBy hm hlast)
    exact ⟨(between_of_ends hincreasing hm hends hlast).1, hlt, hcreditFirst, hcreditLast⟩
  · obtain ⟨m, hm, hmem⟩ := exists_chain (r := joins rows params) (mem_creditsBelow.2 ⟨hi, hcredit⟩)
    obtain ⟨a, b, hends⟩ := exists_ends (List.ne_nil_of_mem hmem)
    by_cases hlong : longEnough rows params (a, b) = true
    · refine .inl ⟨(a, b), ?_, between_of_ends hincreasing hm hends hmem⟩
      rw [heq, List.mem_filter]
      exact ⟨mem_chainEnds.2 ⟨m, hm, hends⟩, hlong⟩
    · refine .inr ⟨m, hm, hmem, (a, b), hends, ?_⟩
      rw [longEnough, decide_eq_true_eq] at hlong
      exact not_le.1 hlong

/-- A card, a dark stretch longer than the gap, and a second card: one run. -/
def bridgedRows : List Row := [⟨100, 1, 5, []⟩, ⟨130, 0, 5, []⟩, ⟨160, 1, 5, []⟩, ⟨190, 0, 90, []⟩, ⟨220, 1, 5, []⟩]

/-- The dark bridge joins two cards, and a lit row keeps the third apart. -/
theorem creditRuns_bridgedRows :
    creditRuns bridgedRows ruleJ = [(0, 2)] ∧
      creditRuns bridgedRows ruleJ =
        ((creditClasses bridgedRows ruleJ).filterMap ends).filter (longEnough bridgedRows ruleJ) := by
  have hsorted : bridgedRows.Pairwise fun a b => a.time < b.time := by
    norm_num [bridgedRows]
  have hpos : ∀ row ∈ bridgedRows, 0 ≤ row.time := by
    norm_num [bridgedRows]
  exact ⟨by decide +kernel, (creditRuns_spec bridgedRows ruleJ hsorted hpos).1⟩

end MediaPreview.Credits
