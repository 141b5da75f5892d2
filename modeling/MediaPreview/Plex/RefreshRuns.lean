import MediaPreview.Plex.RefreshQueue

/-!
# No notification is lost or overtaken

As long as threads can be started and held requests released, the queue has a worker whenever a file waits, and a file
that was queued is taken after exactly the files that were ahead of it (`taken_in_order`).

A release that raises ends it all: `_worker` then names a thread that does not run, and no file is ever taken again
(`not_taken_of_lost`).
-/

namespace MediaPreview.Plex

namespace RefreshQueue

variable {κ : Type*} [DecidableEq κ] {q q' q'' : RefreshQueue κ} {e : RefreshEvent κ} {es : List (RefreshEvent κ)}
  {key : κ}

/-- The worker's thread starts, and no release raises. -/
def Works (_ : RefreshQueue κ) : RefreshEvent κ → Prop
  | .enqueue _ _ _ _ starts => starts = true
  | .finish _ releases => releases = true
  | _ => True

/-- What every queue keeps to. -/
structure Sound (q : RefreshQueue κ) : Prop where
  /-- A file waits once. -/
  nodup : q.keys.Nodup
  /-- The worker's file is in flight, and no other. -/
  inflight : q.inflight = match q.worker with | .busy key _ => [key] | _ => []
  /-- Where a file waits there is a worker. -/
  worker : q.worker = .none → q.pending = []
  /-- The worker runs. -/
  runs : q.worker ≠ .lost
  /-- Nothing waits once the app stops. -/
  closed : q.closed = true → q.pending = []

omit [DecidableEq κ] in
theorem sound_empty (capacity : ℕ) : (empty capacity : RefreshQueue κ).Sound where
  nodup := List.nodup_nil
  inflight := rfl
  worker _ := rfl
  runs h := by cases h
  closed _ := rfl

/-- A file set goes last when it is new, and stays where it is otherwise. -/
theorem keys_set (d : List (κ × Refresh)) (k : κ) (request : Refresh) :
    (Dict.set d k request).map Prod.fst = if k ∈ d.map Prod.fst then d.map Prod.fst else d.map Prod.fst ++ [k] := by
  induction d with
  | nil => rfl
  | cons entry d ih =>
    obtain ⟨k', v⟩ := entry
    rw [Dict.set]
    by_cases hk : k' = k
    · subst hk
      simp
    · rw [if_neg hk, List.map_cons, ih, List.map_cons]
      by_cases hmem : k ∈ d.map Prod.fst
      · rw [if_pos hmem, if_pos (List.mem_cons_of_mem _ hmem)]
      · rw [if_neg hmem, if_neg (by simpa [Ne.symm hk] using hmem), List.cons_append]

/-- What queueing a file does to the files that wait. -/
theorem enqueue_cases (q : RefreshQueue κ) (k : κ) (itemId libraryId : Option String) (quiet starts : Bool) :
    ((q.enqueue k itemId libraryId quiet starts).2 = false ∧
      (q.enqueue k itemId libraryId quiet starts).1.pending = q.pending ∧
      (q.enqueue k itemId libraryId quiet starts).1.worker = q.worker ∧
      (q.closed = true ∨ q.Full k quiet)) ∨
    ((q.enqueue k itemId libraryId quiet starts).2 = true ∧ q.closed = false ∧ ¬ q.Full k quiet ∧
      (q.enqueue k itemId libraryId quiet starts).1.keys = (if k ∈ q.keys then q.keys else q.keys ++ [k]) ∧
      (q.enqueue k itemId libraryId quiet starts).1.worker =
        if q.worker = .none then (if starts then .ready else .lost) else q.worker) := by
  unfold enqueue
  by_cases hclosed : q.closed = true
  · rw [if_pos hclosed]
    exact .inl ⟨rfl, rfl, rfl, .inl hclosed⟩
  rw [if_neg hclosed]
  dsimp only
  by_cases hfull : q.Full k quiet
  · rw [if_pos hfull]
    exact .inl ⟨rfl, rfl, rfl, .inr hfull⟩
  · rw [if_neg hfull]
    exact .inr ⟨rfl, Bool.not_eq_true _ ▸ hclosed, hfull, keys_set .., rfl⟩

theorem enqueue_others (q : RefreshQueue κ) (k : κ) (itemId libraryId : Option String) (quiet starts : Bool) :
    (q.enqueue k itemId libraryId quiet starts).1.capacity = q.capacity ∧
      (q.enqueue k itemId libraryId quiet starts).1.inflight = q.inflight ∧
      (q.enqueue k itemId libraryId quiet starts).1.closed = q.closed := by
  unfold enqueue
  split_ifs <;> exact ⟨rfl, rfl, rfl⟩

/-- **Every step keeps the queue sound** while the thread starts and releases work. -/
theorem Sound.step (h : q.Sound) (hworks : Works q e) (hstep : step q e = some q') : q'.Sound := by
  cases e with
  | enqueue k itemId libraryId quiet starts =>
    obtain rfl := Option.some.inj hstep
    obtain ⟨-, hinflight, hclosed⟩ := enqueue_others q k itemId libraryId quiet starts
    rcases enqueue_cases q k itemId libraryId quiet starts with ⟨-, hpending, hworker, -⟩ | ⟨-, hopen, -, hkeys, hworker⟩
    · refine ⟨?_, ?_, ?_, ?_, ?_⟩
      · rw [keys, hpending]
        exact h.nodup
      · rw [hinflight, hworker]
        exact h.inflight
      · rw [hworker, hpending]
        exact h.worker
      · rw [hworker]
        exact h.runs
      · rw [hclosed, hpending]
        exact h.closed
    · obtain rfl : starts = true := hworks
      rw [if_pos rfl] at hworker
      refine ⟨?_, ?_, fun hnone => ?_, ?_, fun hc => ?_⟩
      · rw [hkeys]
        split_ifs with hmem
        · exact h.nodup
        · exact List.nodup_append.mpr ⟨h.nodup, List.pairwise_singleton _ k, fun a ha b hb heq =>
            hmem (List.mem_singleton.mp hb ▸ heq ▸ ha)⟩
      · rw [hworker, hinflight, h.inflight]
        by_cases hnone : q.worker = .none
        · rw [if_pos hnone, hnone]
        · rw [if_neg hnone]
      · rw [hworker] at hnone
        by_cases hw : q.worker = .none
        · rw [if_pos hw] at hnone
          cases hnone
        · rw [if_neg hw] at hnone
          exact absurd hnone hw
      · rw [hworker]
        by_cases hw : q.worker = .none
        · rw [if_pos hw]
          intro hc
          cases hc
        · rw [if_neg hw]
          exact h.runs
      · rw [hclosed, hopen] at hc
        exact absurd hc (by decide)
  | take k =>
    unfold RefreshQueue.step at hstep
    dsimp only at hstep
    split at hstep
    · rename_i request pending hready hpending
      split_ifs at hstep with htake
      obtain rfl := Option.some.inj hstep
      have hnodup := h.nodup
      rw [keys, hpending, List.map_cons, List.nodup_cons] at hnodup
      have hinflight := h.inflight
      rw [hready] at hinflight
      refine ⟨hnodup.2, ?_, fun hc => (by cases hc), fun hc => (by cases hc), fun hc => ?_⟩
      · change k :: q.inflight = [k]
        rw [hinflight]
      · exact absurd (htake.2.symm.trans hc) (by decide)
    · cases hstep
  | finish outcome releases =>
    unfold RefreshQueue.step at hstep
    dsimp only at hstep
    split at hstep
    · rename_i k request hbusy
      change releases = true at hworks
      rw [if_neg fun hc => absurd (hc.2.symm.trans hworks) (by decide)] at hstep
      obtain rfl := Option.some.inj hstep
      refine ⟨h.nodup, ?_, fun hc => (by cases hc), fun hc => (by cases hc), h.closed⟩
      have hinflight := h.inflight
      rw [hbusy] at hinflight
      change q.inflight.filter (fun key => key ≠ k) = []
      rw [hinflight]
      simp
    · cases hstep
  | leave =>
    unfold RefreshQueue.step at hstep
    split_ifs at hstep with hleave
    obtain rfl := Option.some.inj hstep
    have hinflight := h.inflight
    rw [hleave.1] at hinflight
    exact ⟨h.nodup, hinflight, fun _ => hleave.2.elim h.closed id, fun hc => (by cases hc), h.closed⟩
  | close =>
    obtain rfl := Option.some.inj hstep
    exact ⟨List.nodup_nil, h.inflight, fun _ => rfl, h.runs, fun _ => rfl⟩

/-! ### A file that waits -/

/-- The worker takes a file. -/
def isTake : RefreshEvent κ → Bool
  | .take _ => true
  | _ => false

/-- How many files are taken. -/
def takes (es : List (RefreshEvent κ)) : ℕ := es.countP isTake

/-- **A file that waits moves up by one with each file taken**, and is overtaken by none. -/
theorem waiting_step (hstep : step q e = some q') (hmem : key ∈ q.keys) (hopen : q'.closed = false)
    (htaken : ∀ k, e = .take k → k ≠ key) :
    key ∈ q'.keys ∧ q.keys.idxOf key = q'.keys.idxOf key + takes [e] := by
  cases e with
  | enqueue k itemId libraryId quiet starts =>
    obtain rfl := Option.some.inj hstep
    change _ ∧ _ = _ + 0
    rcases enqueue_cases q k itemId libraryId quiet starts with ⟨-, hpending, -, -⟩ | ⟨-, -, -, hkeys, -⟩
    · have hkeys : (q.enqueue k itemId libraryId quiet starts).1.keys = q.keys := by rw [keys, keys, hpending]
      rw [hkeys]
      exact ⟨hmem, rfl⟩
    · rw [hkeys]
      split_ifs
      · exact ⟨hmem, rfl⟩
      · exact ⟨List.mem_append_left _ hmem, (List.idxOf_append_of_mem hmem).symm⟩
  | take k =>
    unfold RefreshQueue.step at hstep
    dsimp only at hstep
    split at hstep
    · rename_i k' request pending hready hpending
      split_ifs at hstep with htake
      obtain ⟨rfl, -⟩ := htake
      obtain rfl := Option.some.inj hstep
      have hne : k ≠ key := htaken k rfl
      have hkeys : q.keys = k :: pending.map Prod.fst := by rw [keys, hpending, List.map_cons]
      rw [hkeys] at hmem ⊢
      refine ⟨(List.mem_cons.mp hmem).resolve_left (Ne.symm hne), ?_⟩
      rw [List.idxOf_cons_ne _ hne]
      rfl
    · cases hstep
  | finish outcome releases =>
    unfold RefreshQueue.step at hstep
    dsimp only at hstep
    split at hstep
    · split_ifs at hstep
      all_goals
        obtain rfl := Option.some.inj hstep
        exact ⟨hmem, rfl⟩
    · cases hstep
  | leave =>
    unfold RefreshQueue.step at hstep
    split_ifs at hstep
    obtain rfl := Option.some.inj hstep
    exact ⟨hmem, rfl⟩
  | close =>
    obtain rfl := Option.some.inj hstep
    cases hopen

/-- Once stopped, always stopped. -/
theorem closed_of_step (hclosed : q.closed = true) (hstep : step q e = some q') : q'.closed = true := by
  cases e with
  | enqueue k itemId libraryId quiet starts =>
    obtain rfl := Option.some.inj hstep
    rw [(enqueue_others q k itemId libraryId quiet starts).2.2]
    exact hclosed
  | take k =>
    unfold RefreshQueue.step at hstep
    dsimp only at hstep
    split at hstep
    · split_ifs at hstep with htake
      exact absurd (htake.2.symm.trans hclosed) (by decide)
    · cases hstep
  | finish outcome releases =>
    unfold RefreshQueue.step at hstep
    dsimp only at hstep
    split at hstep
    · split_ifs at hstep
      all_goals
        obtain rfl := Option.some.inj hstep
        exact hclosed
    · cases hstep
  | leave =>
    unfold RefreshQueue.step at hstep
    split_ifs at hstep
    obtain rfl := Option.some.inj hstep
    exact hclosed
  | close =>
    obtain rfl := Option.some.inj hstep
    rfl

/-- What a run does to a file that waits. -/
theorem Sound.waiting_runs (h : Runs RefreshQueue.step Works q es q') (hs : q.Sound) (hmem : key ∈ q.keys) :
    q'.closed = true ∨ .take key ∈ es ∨
      q'.Sound ∧ key ∈ q'.keys ∧ q.keys.idxOf key = q'.keys.idxOf key + takes es := by
  induction h with
  | nil q => exact .inr (.inr ⟨hs, hmem, rfl⟩)
  | @cons q q₁ q' e es hworks hstep hrest ih =>
    have hs₁ := hs.step hworks hstep
    by_cases hclosed : q₁.closed = true
    · exact .inl (hrest.keeps hclosed fun _ _ _ _ hstep hc => closed_of_step hc hstep)
    by_cases htake : e = .take key
    · exact .inr (.inl (htake ▸ List.mem_cons_self))
    obtain ⟨hmem₁, hidx⟩ := waiting_step hstep hmem (Bool.not_eq_true _ ▸ hclosed) fun k hk heq => htake (heq ▸ hk)
    rcases ih hs₁ hmem₁ with hc | hc | ⟨hs', hmem', hidx'⟩
    · exact .inl hc
    · exact .inr (.inl (List.mem_cons_of_mem _ hc))
    · refine .inr (.inr ⟨hs', hmem', ?_⟩)
      have htakes : takes (e :: es) = takes [e] + takes es := by
        rw [takes, takes, takes, ← List.countP_append]
        rfl
      omega

theorem sound_of_runs {capacity : ℕ} (h : Runs RefreshQueue.step Works (empty capacity) es q) : q.Sound :=
  h.keeps (sound_empty capacity) fun _ _ _ hworks hstep hs => hs.step hworks hstep

/-- **A file the queue took on is not lost and not overtaken**: until it is taken, as many files are taken as were ahead of
it and are no longer, and there is a worker at it, or about to look. -/
theorem taken_in_order {capacity : ℕ} {es₀ : List (RefreshEvent κ)} {itemId libraryId : Option String} {quiet : Bool}
    (h₀ : Runs RefreshQueue.step Works (empty capacity) es₀ q)
    (haccepted : (q.enqueue key itemId libraryId quiet true).2 = true)
    (h : Runs RefreshQueue.step Works (q.enqueue key itemId libraryId quiet true).1 es q') :
    q'.closed = true ∨ .take key ∈ es ∨ key ∈ q'.keys ∧
      (q.enqueue key itemId libraryId quiet true).1.keys.idxOf key = q'.keys.idxOf key + takes es ∧
      (q'.worker = .ready ∨ ∃ k request, q'.worker = .busy k request) := by
  have hs : (q.enqueue key itemId libraryId quiet true).1.Sound :=
    (sound_of_runs h₀).step (e := .enqueue key itemId libraryId quiet true) rfl rfl
  have hmem : key ∈ (q.enqueue key itemId libraryId quiet true).1.keys := by
    rcases enqueue_cases q key itemId libraryId quiet true with ⟨hno, -⟩ | ⟨-, -, -, hkeys, -⟩
    · exact absurd (hno.symm.trans haccepted) (by decide)
    · rw [hkeys]
      split_ifs with hthere
      · exact hthere
      · exact List.mem_append_right _ List.mem_cons_self
  refine (hs.waiting_runs h hmem).imp_right fun hc => hc.imp_right fun ⟨hs', hmem', hidx⟩ => ⟨hmem', hidx, ?_⟩
  cases hworker : q'.worker with
  | none =>
    rw [keys, hs'.worker hworker] at hmem'
    exact absurd hmem' List.not_mem_nil
  | ready => exact .inl rfl
  | busy k request => exact .inr ⟨k, request, rfl⟩
  | lost => exact absurd hworker hs'.runs

/-- A second file waits while the first one's Analyze runs. -/
theorem taken_in_order_second : ∃ q q' : RefreshQueue ℕ,
    Runs RefreshQueue.step Works (empty 128) [.enqueue 1 none none false true, .take 1] q ∧
      Runs RefreshQueue.step Works (q.enqueue 2 none none false true).1 [.finish (.answered false) true] q' ∧
      (q'.closed = true ∨ .take 2 ∈ [RefreshEvent.finish (.answered false) true] ∨ 2 ∈ q'.keys ∧
        (q.enqueue 2 none none false true).1.keys.idxOf 2 =
          q'.keys.idxOf 2 + takes [RefreshEvent.finish (κ := ℕ) (.answered false) true] ∧
        (q'.worker = .ready ∨ ∃ k request, q'.worker = .busy k request)) := by
  obtain ⟨q, hq, hnext⟩ := (Option.any_eq_true ..).mp (show (exec RefreshQueue.step (empty 128 : RefreshQueue ℕ)
    [.enqueue 1 none none false true, .take 1]).any (fun q => (q.enqueue 2 none none false true).2 &&
      (exec RefreshQueue.step (q.enqueue 2 none none false true).1 [.finish (.answered false) true]).isSome) = true by
    decide +kernel)
  rw [Bool.and_eq_true, Option.isSome_iff_exists] at hnext
  obtain ⟨haccepted, q', hq'⟩ := hnext
  have h₀ : Runs RefreshQueue.step Works (empty 128) _ q := Runs.of_exec (fun e he _ => by
    simp only [List.mem_cons, List.not_mem_nil, or_false] at he
    rcases he with rfl | rfl
    · rfl
    · trivial) hq
  have h : Runs RefreshQueue.step Works _ _ q' := Runs.of_exec (fun e he _ => by
    obtain rfl := List.mem_singleton.mp he
    rfl) hq'
  exact ⟨q, q', h₀, h, taken_in_order h₀ haccepted h⟩

/-- **After a release that raised no file is taken again**, until the app starts anew. -/
theorem not_taken_of_lost (h : Runs RefreshQueue.step Any q es q') (hlost : q.worker = .lost) :
    q'.worker = .lost ∧ ∀ k, .take k ∉ es := by
  induction h with
  | nil q => exact ⟨hlost, fun _ => List.not_mem_nil⟩
  | @cons q q₁ q' e es _ hstep _ ih =>
    have hstays : q₁.worker = .lost ∧ ∀ k, e ≠ .take k := by
      cases e with
      | enqueue k itemId libraryId quiet starts =>
        obtain rfl := Option.some.inj hstep
        refine ⟨?_, fun _ hc => by cases hc⟩
        rcases enqueue_cases q k itemId libraryId quiet starts with ⟨-, -, hworker, -⟩ | ⟨-, -, -, -, hworker⟩
        · exact hworker.trans hlost
        · rw [hworker, hlost, if_neg fun hc => by cases hc]
      | take k =>
        unfold RefreshQueue.step at hstep
        rw [hlost] at hstep
        cases hstep
      | finish outcome releases =>
        unfold RefreshQueue.step at hstep
        rw [hlost] at hstep
        cases hstep
      | leave =>
        unfold RefreshQueue.step at hstep
        rw [if_neg fun hc => by rw [hlost] at hc; cases hc.1] at hstep
        cases hstep
      | close =>
        obtain rfl := Option.some.inj hstep
        exact ⟨hlost, fun _ hc => by cases hc⟩
    obtain ⟨hlost', hnot⟩ := ih hstays.1
    refine ⟨hlost', fun k hmem => ?_⟩
    rcases List.mem_cons.mp hmem with heq | hmem
    · exact hstays.2 k heq.symm
    · exact hnot k hmem

end RefreshQueue

end MediaPreview.Plex
