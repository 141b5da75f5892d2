import MediaPreview.Jobs.Claims

/-!
# A sweep claims what a plain scan would

Which worker may take which file is said once, without the order of the queue or of the pool (`MayTake`). A claim keeps to
it (`mayTake_of_pass`, by induction on the files passed over, over what the pass has worked out: `Memo.Sound`).

A job without node limits is swept by its files' refused GPUs first (`firstFreeFile`). The files that wait for a busy GPU
are among those that refused one, each path once, so fewer of them than the head is long; the first file of the whole
queue that a free worker may take is in the head then, and the sweep finds it (`firstFreeFile_eq`).
-/

namespace MediaPreview.Claims

open Groups

/-! ### Which worker may take which file -/

/-- A worker is free and runs the kind. -/
structure Fleet.Free (f : Fleet) (kind : JobKind) (w : Worker) : Prop where
  mem : w ∈ f.pool.workers
  available : w.isAvailable = true
  supports : f.pool.workerSupportsKind w kind f.minute true = true

/-- A free worker may take a file: its node sees the file, has no wait for it and is not held back; and while another GPU
runs the kind for a file that GPUs refused, the worker is on one of the others. -/
structure Tracker.MayTake {ι : Type} (t : Tracker ι) (f : Fleet) (frozenJobs : Finset String) (p : String) (w : Worker) :
    Prop where
  free : f.Free t.kind w
  visible : ∀ node, f.nodeOf w.id = some node → node ∉ keys (t.excluded p)
  waited : ∀ node, f.nodeOf w.id = some node → node ∉ t.waiting f.now p
  awake : ∀ node, f.nodeOf w.id = some node → f.isSuspect node = false
  otherGpu : t.refused p ≠ [] → f.runsKindOnOtherGpu t.kind (keys (t.refused p)) (t.nodesOff p) frozenJobs = true →
    w.workerType = .gpu ∧ w.groupResource ∉ keys (t.refused p)

theorem keys_eq_empty {α : Type} {d : List (String × α)} : keys d = ∅ ↔ d = [] := by
  rw [keys, List.toFinset_eq_empty_iff, List.map_eq_nil_iff]

/-! ### Finding a worker -/

namespace Fleet

variable {f : Fleet} {kind : JobKind} {excludeNodes excludeGpus : Finset String}

theorem isFound_iff {w : Worker} :
    f.isFound false kind excludeNodes excludeGpus w = true ↔
      (∀ node, f.nodeOf w.id = some node → node ∉ excludeNodes ∧ f.isSuspect node = false) ∧
      (excludeGpus ≠ ∅ → w.workerType = .gpu ∧ w.groupResource ∉ excludeGpus) ∧
      w.isAvailable = true ∧ f.pool.workerSupportsKind w kind f.minute true = true := by
  unfold isFound
  cases hnode : f.nodeOf w.id with
  | none => by_cases hgpus : excludeGpus = ∅ <;> simp [hgpus]
  | some node => by_cases hgpus : excludeGpus = ∅ <;> simp [hgpus, and_assoc]

/-- The order of the search leaves no worker out. -/
theorem mem_byType {w : Worker} :
    w ∈ f.pool.workers.filter (·.workerType = .gpu) ++ f.pool.workers.filter (·.workerType ≠ .gpu) ↔
      w ∈ f.pool.workers := by
  rw [List.mem_append, List.mem_filter, List.mem_filter]
  by_cases hgpu : w.workerType = .gpu <;> simp [hgpu]

/-- A worker found is the pool's, and will do. -/
theorem of_findAvailableWorker {w : Worker} (h : f.findAvailableWorker false kind excludeNodes excludeGpus = some w) :
    w ∈ f.pool.workers ∧ f.isFound false kind excludeNodes excludeGpus w = true :=
  ⟨mem_byType.1 (List.mem_of_find?_eq_some h), List.find?_some h⟩

/-- One that will do is found, if not always the same. -/
theorem exists_findAvailableWorker {w : Worker} (hmem : w ∈ f.pool.workers)
    (h : f.isFound false kind excludeNodes excludeGpus w = true) :
    ∃ v, f.findAvailableWorker false kind excludeNodes excludeGpus = some v := by
  rw [← Option.isSome_iff_exists, findAvailableWorker, List.find?_isSome]
  exact ⟨w, mem_byType.2 hmem, h⟩

/-- Who is found with more left out is found with less. -/
theorem isFound_mono {nodes gpus : Finset String} {w : Worker} (hnodes : nodes ⊆ excludeNodes)
    (hgpus : gpus = ∅ ∨ gpus = excludeGpus) (h : f.isFound false kind excludeNodes excludeGpus w = true) :
    f.isFound false kind nodes gpus w = true := by
  rw [isFound_iff] at h ⊢
  obtain ⟨hnode, hgpu, hfree⟩ := h
  refine ⟨fun node hn => ⟨fun hmem => (hnode node hn).1 (hnodes hmem), (hnode node hn).2⟩, fun hne => ?_, hfree⟩
  obtain rfl | rfl := hgpus
  · exact absurd rfl hne
  · exact hgpu hne

end Fleet

namespace Tracker

variable {ι : Type} {t : Tracker ι} {f : Fleet} {path : ι → String} {backNodes frozenJobs : Finset String}

/-- The GPUs whose workers are left out for a file: those that refused it, while another runs the kind. -/
def skipGpus (t : Tracker ι) (f : Fleet) (frozenJobs : Finset String) (p : String) : Finset String :=
  if keys (t.refused p) ≠ ∅ ∧ f.runsKindOnOtherGpu t.kind (keys (t.refused p)) (t.nodesOff p) frozenJobs = true then
    keys (t.refused p)
  else ∅

/-- **Who may take a file is who is found for it.** -/
theorem mayTake_iff {p : String} {w : Worker} :
    t.MayTake f frozenJobs p w ↔ w ∈ f.pool.workers ∧
      f.isFound false t.kind (keys (t.excluded p) ∪ t.waiting f.now p) (t.skipGpus f frozenJobs p) w = true := by
  have hgpus : (t.refused p ≠ [] → f.runsKindOnOtherGpu t.kind (keys (t.refused p)) (t.nodesOff p) frozenJobs = true →
      w.workerType = .gpu ∧ w.groupResource ∉ keys (t.refused p)) ↔
      (t.skipGpus f frozenJobs p ≠ ∅ → w.workerType = .gpu ∧ w.groupResource ∉ t.skipGpus f frozenJobs p) := by
    unfold skipGpus
    by_cases hskip : keys (t.refused p) ≠ ∅ ∧
        f.runsKindOnOtherGpu t.kind (keys (t.refused p)) (t.nodesOff p) frozenJobs = true
    · rw [if_pos hskip]
      exact ⟨fun h _ => h (fun hnil => hskip.1 (keys_eq_empty.2 hnil)) hskip.2, fun h _ _ => h hskip.1⟩
    · rw [if_neg hskip]
      exact iff_of_true (fun hne hruns => absurd ⟨fun hnil => hne (keys_eq_empty.1 hnil), hruns⟩ hskip)
        fun hne => absurd rfl hne
  rw [Fleet.isFound_iff]
  constructor
  · rintro ⟨⟨hmem, havailable, hsupports⟩, hvisible, hwaited, hawake, hother⟩
    refine ⟨hmem, fun node hnode => ⟨?_, hawake node hnode⟩, hgpus.1 hother, havailable, hsupports⟩
    rw [Finset.mem_union, not_or]
    exact ⟨hvisible node hnode, hwaited node hnode⟩
  · rintro ⟨hmem, hnodes, hother, havailable, hsupports⟩
    exact {
      free := ⟨hmem, havailable, hsupports⟩
      visible := fun node hnode hin => (hnodes node hnode).1 (Finset.mem_union_left _ hin)
      waited := fun node hnode hin => (hnodes node hnode).1 (Finset.mem_union_right _ hin)
      awake := fun node hnode => (hnodes node hnode).2
      otherGpu := hgpus.2 hother }

/-! ### The pass keeps to it -/

/-- What a pass remembers is what the pool says. -/
def Memo.Sound (memo : Memo) (t : Tracker ι) (f : Fleet) (frozenJobs : Finset String) : Prop :=
  ∀ key runs, Dict.get? memo.otherGpuRuns key = some runs → runs = f.runsKindOnOtherGpu t.kind key.1 key.2 frozenJobs

theorem Memo.Sound.otherGpuRuns {memo : Memo} (h : memo.Sound t f frozenJobs) (key : Finset String × Finset String) :
    t.otherGpuRuns f frozenJobs memo key = f.runsKindOnOtherGpu t.kind key.1 key.2 frozenJobs := by
  rw [Tracker.otherGpuRuns]
  cases hget : Dict.get? memo.otherGpuRuns key with
  | none => rfl
  | some runs => exact h key runs hget

/-- Who is chosen for a file may take it. -/
theorem mayTake_of_choose {p : String} {w : Worker}
    (h : t.choose f backNodes (t.skipGpus f frozenJobs p) p = .take w) : t.MayTake f frozenJobs p w := by
  have hfound : ∀ nodes, keys (t.excluded p) ∪ t.waiting f.now p ⊆ nodes →
      f.findAvailableWorker false t.kind nodes (t.skipGpus f frozenJobs p) = some w → t.MayTake f frozenJobs p w := by
    intro nodes hsub hw
    obtain ⟨hmem, hfound⟩ := Fleet.of_findAvailableWorker hw
    exact mayTake_iff.2 ⟨hmem, Fleet.isFound_mono hsub (.inr rfl) hfound⟩
  unfold choose at h
  dsimp only at h
  cases hdropped : Dict.get? t.droppedOn p with
  | none =>
    rw [hdropped] at h
    dsimp only at h
    cases hany : f.findAvailableWorker false t.kind (keys (t.excluded p) ∪ t.waiting f.now p)
        (t.skipGpus f frozenJobs p) with
    | none =>
      rw [hany] at h
      cases h
    | some v =>
      rw [hany] at h
      obtain rfl := Choice.take.inj h
      exact hfound _ (Finset.Subset.refl _) hany
  | some node =>
    rw [hdropped] at h
    dsimp only at h
    cases hoff : f.findAvailableWorker false t.kind (insert node (keys (t.excluded p) ∪ t.waiting f.now p))
        (t.skipGpus f frozenJobs p) with
    | some v =>
      rw [hoff] at h
      obtain rfl := Choice.take.inj h
      exact hfound _ (Finset.subset_insert _ _) hoff
    | none =>
      rw [hoff] at h
      dsimp only at h
      by_cases hwait : (decide (node ∈ t.waiting f.now p) || !(decide (node ∈ backNodes) &&
          decide (Dict.get? t.staysOff p ≠ some node)) &&
          f.runsKindOutside t.kind (insert node (keys (t.excluded p)))) = true
      · rw [if_pos hwait] at h
        cases h
      · rw [if_neg hwait] at h
        cases hany : f.findAvailableWorker false t.kind (keys (t.excluded p) ∪ t.waiting f.now p)
            (t.skipGpus f frozenJobs p) with
        | none =>
          rw [hany] at h
          cases h
        | some v =>
          rw [hany] at h
          obtain rfl := Choice.take.inj h
          exact hfound _ (Finset.Subset.refl _) hany

/-- The GPUs a pass leaves out for a file are those that are to be. -/
theorem skipGpus_of_memo {memo : Memo} (h : memo.Sound t f frozenJobs) (p : String) :
    (if (decide (keys (t.refused p) ≠ ∅) && t.otherGpuRuns f frozenJobs memo (keys (t.refused p), t.nodesOff p)) = true
      then keys (t.refused p) else ∅) = t.skipGpus f frozenJobs p := by
  rw [h.otherGpuRuns, skipGpus]
  simp only [Bool.and_eq_true, decide_eq_true_eq]

/-- What is worked out for a file is remembered as it is. -/
theorem Memo.Sound.remember {memo : Memo} (h : memo.Sound t f frozenJobs) (p : String) :
    (t.remember f frozenJobs memo p).Sound t f frozenJobs := by
  unfold Tracker.remember
  dsimp only
  by_cases hrefused : keys (t.refused p) = ∅
  · rw [if_pos hrefused]
    exact h
  · rw [if_neg hrefused]
    intro key runs hget
    dsimp only at hget
    rw [Dict.get?_set] at hget
    by_cases hkey : (keys (t.refused p), t.nodesOff p) = key
    · rw [if_pos hkey, h.otherGpuRuns] at hget
      rw [← hkey, Option.some.inj hget]
    · rw [if_neg hkey] at hget
      exact h key runs hget

/-- **The pass keeps to it**: the worker it ends with may take the file it ends at. -/
theorem mayTake_of_pass {items : List ι} {index k : ℕ} {memo : Memo} {w : Worker} (hmemo : memo.Sound t f frozenJobs)
    (h : t.pass f path backNodes frozenJobs items index memo = .take w k) :
    index ≤ k ∧ ∃ item, items[k - index]? = some item ∧ t.MayTake f frozenJobs (path item) w := by
  induction items generalizing index memo with
  | nil => cases h
  | cons item rest ih =>
    have hlater : ∀ {memo : Memo}, memo.Sound t f frozenJobs →
        t.pass f path backNodes frozenJobs rest (index + 1) memo = .take w k →
        index ≤ k ∧ ∃ x, (item :: rest)[k - index]? = some x ∧ t.MayTake f frozenJobs (path x) w := by
      intro memo hmemo hrest
      obtain ⟨hle, x, hx, hmay⟩ := ih hmemo hrest
      have hshift : k - index = k - (index + 1) + 1 := by omega
      refine ⟨by omega, x, ?_, hmay⟩
      rw [hshift, List.getElem?_cons_succ, hx]
    rw [pass] at h
    dsimp only at h
    by_cases hknown : (decide (keys (t.refused (path item)) ≠ ∅) && !t.anyNodeLimits &&
        (Dict.get? t.refusedKeys (path item)).any fun x => decide (x ∈ memo.noFreeGpu)) = true
    · rw [if_pos hknown] at h
      exact hlater hmemo h
    rw [if_neg hknown, skipGpus_of_memo hmemo] at h
    have hmemo' := hmemo.remember (path item)
    revert h hmemo'
    generalize t.remember f frozenJobs memo (path item) = memo'
    intro h hmemo'
    split at h
    · exact hlater hmemo' h
    · cases hchoose : t.choose f backNodes (t.skipGpus f frozenJobs (path item)) (path item) with
      | take v =>
        rw [hchoose] at h
        obtain ⟨rfl, rfl⟩ := Pass.take.inj h
        exact ⟨le_rfl, item, by rw [Nat.sub_self]; rfl, mayTake_of_choose hchoose⟩
      | wait =>
        rw [hchoose] at h
        exact hlater hmemo' h
      | no =>
        rw [hchoose] at h
        dsimp only at h
        split at h
        · refine hlater ?_ h
          exact hmemo'
        · split at h
          · cases h
          · split at h
            · cases h
            · exact hlater hmemo' h

/-! ### A sweep finds the first -/

/-- A job none of whose files is kept off a node. -/
structure Unlimited (t : Tracker ι) : Prop where
  excluded : t.excludedNodes = []
  dropped : t.droppedOn = []
  waits : t.startWaits = []

theorem unlimited_iff : Unlimited t ↔ t.anyNodeLimits = false := by
  rw [anyNodeLimits]
  constructor
  · rintro ⟨hexcluded, hdropped, hwaits⟩
    simp [hexcluded, hdropped, hwaits]
  · intro h
    simp only [Bool.or_eq_false_iff, decide_eq_false_iff_not, not_not] at h
    exact ⟨h.1.1, h.1.2, h.2⟩

namespace Unlimited

variable (h : Unlimited t) (p : String)

include h

theorem excluded_eq : t.excluded p = [] := by
  rw [Tracker.excluded, h.excluded]
  rfl

theorem waiting_eq : t.waiting f.now p = ∅ := by
  rw [waiting, h.waits]
  rfl

theorem droppedOn_eq : Dict.get? t.droppedOn p = none := by
  rw [h.dropped]
  rfl

theorem nodesOff_eq : t.nodesOff p = ∅ := by
  rw [nodesOff, h.excluded_eq, h.waits, h.droppedOn_eq]
  rfl

theorem avoid_eq : keys (t.excluded p) ∪ t.waiting f.now p = ∅ := by
  rw [h.excluded_eq, h.waiting_eq]
  rfl

/-- Some free worker may take the file exactly when one is found off the GPUs left out for it. -/
theorem exists_mayTake_iff :
    (∃ w, t.MayTake f frozenJobs p w) ↔
      (f.findAvailableWorker false t.kind ∅ (t.skipGpus f frozenJobs p)).isSome = true := by
  rw [Option.isSome_iff_exists]
  constructor
  · rintro ⟨w, hw⟩
    obtain ⟨hmem, hfound⟩ := mayTake_iff.1 hw
    rw [h.avoid_eq] at hfound
    exact Fleet.exists_findAvailableWorker hmem hfound
  · rintro ⟨w, hw⟩
    refine ⟨w, mayTake_iff.2 ?_⟩
    rw [h.avoid_eq]
    exact Fleet.of_findAvailableWorker hw

end Unlimited

/-- A file that no free worker may take, while one is free, has refused a GPU. -/
theorem mem_refused_of_waiting (h : Unlimited t) (hfree : (f.findAvailableWorker false t.kind ∅ ∅).isSome = true)
    {p : String} (hno : ¬ ∃ w, t.MayTake f frozenJobs p w) : p ∈ t.gpusRefused.map Prod.fst := by
  by_contra hnot
  have hskip : t.skipGpus f frozenJobs p = ∅ := by
    rw [skipGpus, refused, Dict.get?_eq_none_iff.2 hnot]
    exact if_neg fun hne => hne.1 rfl
  rw [h.exists_mayTake_iff, hskip] at hno
  exact hno hfree

/-- A file the sweep does not find waiting is one that some free worker may take. -/
theorem free_iff (h : Unlimited t) (hfree : (f.findAvailableWorker false t.kind ∅ ∅).isSome = true) (p : String) :
    ((Dict.get? t.refusedKeys p).any fun key => f.runsKindOnOtherGpu t.kind key ∅ frozenJobs &&
      (f.findAvailableWorker false t.kind ∅ key).isNone) = false ↔ ∃ w, t.MayTake f frozenJobs p w := by
  rw [h.exists_mayTake_iff, t.get?_refusedKeys, skipGpus, h.nodesOff_eq, refused]
  cases hget : Dict.get? t.gpusRefused p with
  | none => exact iff_of_true rfl (by simpa [keys] using hfree)
  | some gpus =>
    simp only [Option.map_some, Option.any_some, Option.getD_some]
    by_cases hempty : keys gpus = ∅
    · rw [if_neg fun hne => hne.1 hempty, hempty]
      exact iff_of_true (by simp [hfree]) hfree
    · cases hruns : f.runsKindOnOtherGpu t.kind (keys gpus) ∅ frozenJobs with
      | false =>
        rw [if_neg (by simp)]
        exact iff_of_true rfl hfree
      | true =>
        rw [if_pos ⟨hempty, rfl⟩, Bool.true_and]
        cases f.findAvailableWorker false t.kind ∅ (keys gpus) <;> simp

/-- **The sweep finds the first file of the whole queue that a free worker may take**: before it stand files that refused
a GPU, each path once, so the head is long enough. -/
theorem firstFreeFile_eq (h : Unlimited t) (hfree : (f.findAvailableWorker false t.kind ∅ ∅).isSome = true)
    (hpaths : (t.itemQueue.map path).Nodup) {before after : List ι} {item : ι}
    (hqueue : t.itemQueue = before ++ item :: after) (hbefore : ∀ x ∈ before, ¬ ∃ w, t.MayTake f frozenJobs (path x) w)
    (hitem : ∃ w, t.MayTake f frozenJobs (path item) w) :
    t.firstFreeFile f path frozenJobs t.queueHead = some before.length ∧
      ∃ rest, t.queueHead.drop before.length = item :: rest := by
  have hshort : before.length ≤ t.gpusRefused.length := by
    have hnodup : (before.map path).Nodup := by
      rw [hqueue, List.map_append] at hpaths
      exact (List.nodup_append.1 hpaths).1
    have hsub : before.map path ⊆ t.gpusRefused.map Prod.fst := by
      intro p hp
      obtain ⟨x, hx, rfl⟩ := List.mem_map.1 hp
      exact mem_refused_of_waiting h hfree (hbefore x hx)
    simpa using (hnodup.subperm hsub).length_le
  have hhead : ∃ rest, t.queueHead = before ++ item :: rest := by
    refine ⟨after.take (64 + t.gpusRefused.length - before.length - 1), ?_⟩
    have hlong : 64 + t.gpusRefused.length - before.length = 64 + t.gpusRefused.length - before.length - 1 + 1 := by omega
    rw [queueHead, hqueue, List.take_append, List.take_of_length_le (by omega), hlong, List.take_succ_cons]
    rfl
  obtain ⟨rest, hhead⟩ := hhead
  refine ⟨?_, rest, by rw [hhead, List.drop_left]⟩
  have hnone : before.findIdx? (fun x => !(Dict.get? t.refusedKeys (path x)).any fun key =>
      f.runsKindOnOtherGpu t.kind key ∅ frozenJobs && (f.findAvailableWorker false t.kind ∅ key).isNone) = none := by
    rw [List.findIdx?_eq_none_iff]
    intro x hx
    rw [Bool.not_eq_false']
    exact Bool.of_not_eq_false fun hfound => hbefore x hx ((free_iff h hfree (path x)).1 hfound)
  rw [firstFreeFile, hhead, List.findIdx?_append, hnone, Option.none_or, List.findIdx?_cons,
    (free_iff h hfree (path item)).2 hitem]
  exact congrArg some (Nat.zero_add _)

/-- The worker found for a file of such a job is chosen for it. -/
theorem choose_of_found (h : Unlimited t) {p : String} {w : Worker}
    (hw : f.findAvailableWorker false t.kind ∅ (t.skipGpus f frozenJobs p) = some w) :
    t.choose f backNodes (t.skipGpus f frozenJobs p) p = .take w := by
  rw [choose, h.droppedOn_eq]
  dsimp only
  rw [h.avoid_eq, hw]

/-- The pass ends at its first file when a worker is found for it. -/
theorem pass_of_found (h : Unlimited t) {item : ι} {w : Worker}
    (hw : f.findAvailableWorker false t.kind ∅ (t.skipGpus f frozenJobs (path item)) = some w) (rest : List ι) (start : ℕ) :
    t.pass f path backNodes frozenJobs (item :: rest) start ⟨[], []⟩ = .take w start := by
  have hmemo : Memo.Sound ⟨[], []⟩ t f frozenJobs := by
    intro key runs hget
    cases hget
  have hnew : (t.remember f frozenJobs ⟨[], []⟩ (path item)).noFreeGpu = [] := by
    rw [remember]
    split <;> rfl
  rw [pass]
  dsimp only
  rw [if_neg (by simp), skipGpus_of_memo hmemo, hnew, if_neg (by simp), choose_of_found h hw]

end Tracker

/-! ### Claims -/

namespace Tracker

variable {ι : Type} {t : Tracker ι} {f : Fleet} {path : ι → String} {backNodes frozenJobs : Finset String}

/-- A file taken is the queue's. -/
theorem of_takeFor {cancelled : Bool} {w v : Worker} {index : ℕ} {item : ι}
    (h : (t.takeFor f path cancelled w index).claimed = some (v, item)) : v = w ∧ t.itemQueue[index]? = some item := by
  unfold takeFor takeQueued at h
  cases cancelled with
  | true => cases h
  | false =>
    rw [if_neg Bool.false_ne_true] at h
    cases hitem : t.itemQueue[index]? with
    | none =>
      rw [hitem] at h
      cases h
    | some x =>
      rw [hitem] at h
      obtain ⟨rfl, rfl⟩ := Prod.mk.inj (Option.some.inj h)
      exact ⟨rfl, rfl⟩

theorem takeFor_of_get {w : Worker} {index : ℕ} {item : ι} (h : t.itemQueue[index]? = some item) :
    (t.takeFor f path false w index).claimed = some (w, item) := by
  rw [takeFor, takeQueued, if_neg Bool.false_ne_true, h]
  rfl

theorem claimed_strandAt (cancelled : Bool) (index : ℕ) : (t.strandAt f path cancelled index).claimed = none := by
  unfold strandAt
  cases t.takeQueued cancelled index <;> rfl

/-- When every file was found waiting says nothing about who may take one. -/
theorem mayTake_forget {state : Option (ℕ × List Bool)} {p : String} {w : Worker} :
    MayTake { t with allWaitingState := state } f frozenJobs p w ↔ t.MayTake f frozenJobs p w := by
  rw [mayTake_iff, mayTake_iff]
  exact Iff.rfl

/-- Without any limit, whoever is free may take a file. -/
theorem mayTake_of_plain (hexcluded : t.excludedNodes = []) (hdropped : t.droppedOn = []) (hrefused : t.gpusRefused = [])
    {w : Worker} (h : f.findAvailableWorker false t.kind ∅ ∅ = some w) (p : String) : t.MayTake f frozenJobs p w := by
  have hwaits : Dict.get? t.startWaits p = none := t.waits_of_dropped p (by rw [hdropped]; rfl)
  have havoid : keys (t.excluded p) ∪ t.waiting f.now p = ∅ := by
    rw [excluded, waiting, hexcluded, hwaits]
    rfl
  have hskip : t.skipGpus f frozenJobs p = ∅ := by
    rw [skipGpus, refused, hrefused]
    exact if_neg fun hne => hne.1 rfl
  rw [mayTake_iff, havoid, hskip]
  exact Fleet.of_findAvailableWorker h

/-- **A claim keeps to it**: the worker may take the file, and the file was in the queue. -/
theorem mayTake_of_claimWorker {cancelled : Bool} {w : Worker} {item : ι}
    (h : (t.claimWorker f path backNodes frozenJobs cancelled).claimed = some (w, item)) :
    item ∈ t.itemQueue ∧ t.MayTake f frozenJobs (path item) w := by
  unfold claimWorker at h
  by_cases hplain : t.excludedNodes = [] ∧ t.droppedOn = [] ∧ t.gpusRefused = []
  · rw [if_pos hplain] at h
    cases hfind : f.findAvailableWorker false t.kind ∅ ∅ with
    | none =>
      rw [hfind] at h
      cases h
    | some v =>
      rw [hfind] at h
      dsimp only at h
      cases cancelled with
      | true => cases h
      | false =>
        rw [takeQueued, if_neg Bool.false_ne_true] at h
        cases hitem : t.itemQueue[0]? with
        | none =>
          rw [hitem] at h
          cases h
        | some x =>
          rw [hitem] at h
          obtain ⟨rfl, rfl⟩ := Prod.mk.inj (Option.some.inj h)
          exact ⟨List.mem_of_getElem? hitem, mayTake_of_plain hplain.1 hplain.2.1 hplain.2.2 hfind _⟩
  · rw [if_neg hplain] at h
    dsimp only at h
    split at h
    · cases h
    split at h
    · cases h
    split at h
    · cases h
    · rename_i start _
      have hforget : ∃ state, (if (decide (t.gpusRefused ≠ []) && !t.anyNodeLimits) = true then
          { t with allWaitingState := none } else t) = { t with allWaitingState := state } := by
        split
        · exact ⟨none, rfl⟩
        · exact ⟨t.allWaitingState, rfl⟩
      obtain ⟨state, hstate⟩ := hforget
      rw [hstate] at h
      split at h
      · cases h
      · rename_i v index hpass
        obtain ⟨rfl, hitem⟩ := of_takeFor h
        have hmemo : Memo.Sound ⟨[], []⟩ { t with allWaitingState := state } f frozenJobs := by
          intro key runs hget
          cases hget
        obtain ⟨hle, x, hx, hmay⟩ := mayTake_of_pass hmemo hpass
        have hhead : t.itemQueue[index]? = some x := by
          rw [List.getElem?_drop, queueHead, List.getElem?_take, Nat.add_sub_cancel' hle] at hx
          split at hx
          · exact hx
          · cases hx
        obtain rfl := Option.some.inj (hhead.symm.trans hitem)
        exact ⟨List.mem_of_getElem? hitem, mayTake_forget.1 hmay⟩
      · rw [claimed_strandAt] at h
        cases h

/-- A node that dropped a file gets none for a while. -/
theorem isSuspect_markNodeSuspect (f : Fleet) (node : String) : (f.markNodeSuspect node).isSuspect node = true := by
  rw [Fleet.isSuspect, Fleet.markNodeSuspect, Dict.get?_set, if_pos rfl, Option.any_some, decide_eq_true_eq]
  exact lt_add_of_pos_right _ (by decide)

/-- A node's answer changes neither the queue nor where the workers are, and the node is off for the file: it cannot see
it, or gets no file for now. -/
structure Settles (t : Tracker ι) (f : Fleet) (p node : String) (r : Tracker ι × Fleet × Option String) : Prop where
  queue : r.1.itemQueue = t.itemQueue
  nodeOf : r.2.1.nodeOf = f.nodeOf
  off : node ∈ keys (r.1.excluded p) ∨ r.2.1.isSuspect node = true

theorem settles_nodeDropped (t : Tracker ι) (f : Fleet) (p : String) (requeue : NodeRequeue) (sentBack : Bool) :
    Settles t f p requeue.nodeId (t.nodeDropped f p requeue sentBack) := by
  have hsuspect := isSuspect_markNodeSuspect f requeue.nodeId
  unfold nodeDropped
  dsimp only
  split
  · exact ⟨rfl, rfl, .inr hsuspect⟩
  · exact ⟨rfl, rfl, .inr hsuspect⟩

theorem settles_nodeNotStarted (t : Tracker ι) (f : Fleet) (p : String) (requeue : NodeRequeue) :
    Settles t f p requeue.nodeId (t.nodeNotStarted f p requeue) := by
  have hsuspect := isSuspect_markNodeSuspect f requeue.nodeId
  unfold nodeNotStarted
  dsimp only
  split
  · exact ⟨rfl, rfl, .inr hsuspect⟩
  · exact ⟨rfl, rfl, .inr hsuspect⟩

theorem settles_nodeNotVisible (t : Tracker ι) (f : Fleet) (p : String) (requeue : NodeRequeue) :
    Settles t f p requeue.nodeId (t.nodeNotVisible f p requeue) := by
  refine ⟨rfl, rfl, .inl ?_⟩
  have hnow : ∀ excluded : List (String × String),
      Dict.get? (Dict.set excluded requeue.nodeId requeue.nodeName) requeue.nodeId = some requeue.nodeName :=
    fun excluded => by rw [Dict.get?_set, if_pos rfl]
  show requeue.nodeId ∈ keys ((Dict.get? (Dict.set t.excludedNodes p _) p).getD [])
  rw [Dict.get?_set, if_pos rfl, Option.getD_some, keys, List.mem_toFinset]
  exact List.mem_map_of_mem (Dict.mem_of_get? (hnow _))

theorem settles_settle (t : Tracker ι) (f : Fleet) (p : String) (requeue : NodeRequeue) :
    Settles t f p requeue.nodeId (t.settle f p requeue) := by
  have hthen : ∀ {r : Tracker ι × Fleet × Option String},
      Settles { t with sentBack := Dict.erase t.sentBack p } f p requeue.nodeId r → Settles t f p requeue.nodeId r :=
    fun h => ⟨h.queue, h.nodeOf, h.off⟩
  unfold settle
  dsimp only
  cases requeue.reason with
  | unavailable => exact hthen (settles_nodeDropped _ f p requeue _)
  | notStarted => exact hthen (settles_nodeNotStarted _ f p requeue)
  | notVisible => exact hthen (settles_nodeNotVisible _ f p requeue)

/-- **A file a node gave back** is first in the queue, and no claim gives it to that node as things stand; or it failed,
and is not queued again. -/
theorem requeueOrFail_spec (t : Tracker ι) (f : Fleet) (path : ι → String) (item : ι) (requeue : NodeRequeue) :
    let r := t.requeueOrFail f path item requeue
    (r.2.2 = none → r.1.itemQueue = item :: t.itemQueue ∧
      ∀ backNodes frozenJobs cancelled w x, (r.1.claimWorker r.2.1 path backNodes frozenJobs cancelled).claimed = some (w, x) →
        path x = path item → f.nodeOf w.id ≠ some requeue.nodeId) ∧
    (r.2.2 ≠ none → r.1.itemQueue = t.itemQueue ∧ r.1.refused (path item) = []) := by
  intro r
  have hsettles := settles_settle t f (path item) requeue
  have hr : r = if (t.settle f (path item) requeue).2.2 = none then
      ((t.settle f (path item) requeue).1.giveBack item, (t.settle f (path item) requeue).2)
    else ({ (t.settle f (path item) requeue).1.forgetGpusRefused (path item) with
      activeProcessing := (t.settle f (path item) requeue).1.activeProcessing - 1 },
      (t.settle f (path item) requeue).2) := rfl
  clear_value r
  generalize t.settle f (path item) requeue = settled at hsettles hr
  obtain ⟨t', f', failure⟩ := settled
  dsimp only at hr
  by_cases hfailure : failure = none
  · rw [if_pos hfailure] at hr
    obtain rfl := hr
    refine ⟨fun _ => ⟨congrArg (item :: ·) hsettles.queue, fun backNodes frozenJobs cancelled w x hclaimed hpath hnode => ?_⟩,
      fun h => absurd hfailure h⟩
    have hmay := (mayTake_of_claimWorker hclaimed).2
    have hnode' : f'.nodeOf w.id = some requeue.nodeId := hsettles.nodeOf ▸ hnode
    rw [hpath] at hmay
    obtain hexcluded | hsuspect := hsettles.off
    · exact hmay.visible _ hnode' hexcluded
    · exact Bool.false_ne_true ((hmay.awake _ hnode').symm.trans hsuspect)
  · rw [if_neg hfailure] at hr
    obtain rfl := hr
    refine ⟨fun h => absurd h hfailure, fun _ => ⟨hsettles.queue, ?_⟩⟩
    show (Dict.get? (Dict.erase t'.gpusRefused (path item)) (path item)).getD [] = []
    rw [Dict.get?_erase_self]
    rfl

/-- **The first file that a free worker may take is claimed**, for a job without node limits. -/
theorem claimWorker_of_first (h : Unlimited t) (hpaths : (t.itemQueue.map path).Nodup) (hthrottle : ¬ t.Throttled f)
    {before after : List ι} {item : ι} (hqueue : t.itemQueue = before ++ item :: after)
    (hbefore : ∀ x ∈ before, ¬ ∃ w, t.MayTake f frozenJobs (path x) w)
    (hitem : ∃ w, t.MayTake f frozenJobs (path item) w) :
    ∃ w, (t.claimWorker f path backNodes frozenJobs false).claimed = some (w, item) := by
  have hfree : ∃ v, f.findAvailableWorker false t.kind ∅ ∅ = some v := by
    obtain ⟨w, hw⟩ := hitem
    obtain ⟨hmem, hfound⟩ := mayTake_iff.1 hw
    exact Fleet.exists_findAvailableWorker hmem (Fleet.isFound_mono (Finset.empty_subset _) (.inl rfl) hfound)
  obtain ⟨v, hv⟩ := hfree
  have hget : t.itemQueue[before.length]? = some item := by
    rw [hqueue, List.getElem?_append_right le_rfl, Nat.sub_self]
    rfl
  unfold claimWorker
  by_cases hrefused : t.gpusRefused = []
  · have hnil : before = [] := by
      by_contra hne
      obtain ⟨x, hx⟩ := List.exists_mem_of_ne_nil _ hne
      exact hbefore x hx ⟨v, mayTake_of_plain h.excluded h.dropped hrefused hv _⟩
    rw [hnil, List.length_nil] at hget
    rw [if_pos ⟨h.excluded, h.dropped, hrefused⟩, hv]
    dsimp only
    rw [takeQueued, if_neg Bool.false_ne_true, hget]
    exact ⟨v, rfl⟩
  · have hsweep : (decide (t.gpusRefused ≠ []) && !t.anyNodeLimits) = true := by
      rw [unlimited_iff.1 h, decide_eq_true hrefused]
      rfl
    have hsome : (f.findAvailableWorker false t.kind ∅ ∅).isSome = true := by
      rw [hv]
      rfl
    obtain ⟨hstart, rest, hdrop⟩ := firstFreeFile_eq h hsome hpaths hqueue hbefore hitem
    obtain ⟨w, hw⟩ := Option.isSome_iff_exists.1 ((h.exists_mayTake_iff _).1 hitem)
    have hunlimited : Unlimited { t with allWaitingState := none } := ⟨h.excluded, h.dropped, h.waits⟩
    rw [if_neg fun hplain => hrefused hplain.2.2]
    dsimp only
    rw [hsweep, hv, if_neg (by simp), if_neg (by simpa using hthrottle), if_pos rfl, hstart]
    dsimp only
    rw [if_pos rfl, hdrop, pass_of_found hunlimited hw]
    exact ⟨w, takeFor_of_get hget⟩

/-- **The sweep neither misses nor misassigns a file.** Whatever a claim returns, the worker is free and may take the file;
and for a job without node limits, whose throttle is off, it returns a claim whenever some queued file could be taken by
some free worker, for the first such file of the whole queue. -/
theorem claimWorker_spec (t : Tracker ι) (f : Fleet) (path : ι → String) (backNodes frozenJobs : Finset String) :
    (∀ cancelled w item, (t.claimWorker f path backNodes frozenJobs cancelled).claimed = some (w, item) →
      item ∈ t.itemQueue ∧ t.MayTake f frozenJobs (path item) w) ∧
    (t.anyNodeLimits = false → (t.itemQueue.map path).Nodup → ¬ t.Throttled f →
      (∃ x ∈ t.itemQueue, ∃ w, t.MayTake f frozenJobs (path x) w) →
      ∃ before item after w, t.itemQueue = before ++ item :: after ∧
        (∀ x ∈ before, ¬ ∃ w, t.MayTake f frozenJobs (path x) w) ∧
        (t.claimWorker f path backNodes frozenJobs false).claimed = some (w, item)) := by
  refine ⟨fun cancelled w item h => mayTake_of_claimWorker h, fun hlimits hpaths hthrottle hexists => ?_⟩
  have hfirst : ∀ queue : List ι, (∃ x ∈ queue, ∃ w, t.MayTake f frozenJobs (path x) w) →
      ∃ before item after, queue = before ++ item :: after ∧
        (∀ x ∈ before, ¬ ∃ w, t.MayTake f frozenJobs (path x) w) ∧ ∃ w, t.MayTake f frozenJobs (path item) w := by
    intro queue
    induction queue with
    | nil =>
      rintro ⟨x, hx, -⟩
      cases hx
    | cons y queue ih =>
      rintro ⟨x, hx, hw⟩
      by_cases hy : ∃ w, t.MayTake f frozenJobs (path y) w
      · exact ⟨[], y, queue, rfl, fun z hz => absurd hz List.not_mem_nil, hy⟩
      · obtain rfl | hx := List.mem_cons.1 hx
        · exact absurd hw hy
        · obtain ⟨before, item, after, rfl, hbefore, hitem⟩ := ih ⟨x, hx, hw⟩
          refine ⟨y :: before, item, after, rfl, fun z hz => ?_, hitem⟩
          obtain rfl | hz := List.mem_cons.1 hz
          · exact hy
          · exact hbefore z hz
  obtain ⟨before, item, after, hqueue, hbefore, hitem⟩ := hfirst _ hexists
  have hclaimed : ∃ w, (t.claimWorker f path backNodes frozenJobs false).claimed = some (w, item) :=
    claimWorker_of_first (unlimited_iff.2 hlimits) hpaths hthrottle hqueue hbefore hitem
  obtain ⟨w, hclaim⟩ := hclaimed
  exact ⟨before, item, after, w, hqueue, hbefore, hclaim⟩

end Tracker

/-! ### Two workers left free -/

/-- A pool with these workers, all on one node. -/
def poolOf (workers : List Worker) (node : Option String) (suspects : List (String × ℚ)) : Fleet where
  pool := ⟨workers, fun _ => 0, [], workers.length, none, [], [], none⟩
  nodeOf _ := node
  jobOf _ := some "scan"
  suspectNodes := suspects
  hardware := ⟨[], []⟩
  memberCanComeBack _ := false
  stuckNodeMembers _ _ := []
  minute := 0
  now := 0

/-- The CPU's worker, free. -/
def freeCpu : Worker := ⟨0, .cpu, none, "cpu", none, false, false⟩

/-- A job with one file, which a GPU refused. -/
def refusedOne : Tracker String := (Tracker.new .previews [] [] [] []).requeueForAnotherGpu id "a.mkv" "gpu:0" "A"

/-- A job with one file. -/
def plainOne : Tracker String := (Tracker.new .previews [] [] [] []).giveBack "a.mkv"

/-- The job's file goes to the CPU's worker. -/
theorem claimWorker_spec_plainOne :
    (∃ w item, (plainOne.claimWorker (poolOf [freeCpu] none []) id ∅ ∅ false).claimed = some (w, item) ∧
      item ∈ plainOne.itemQueue ∧ plainOne.MayTake (poolOf [freeCpu] none []) ∅ item w) ∧
    ∃ before item after w, plainOne.itemQueue = before ++ item :: after ∧
      (∀ x ∈ before, ¬ ∃ w, plainOne.MayTake (poolOf [freeCpu] none []) ∅ x w) ∧
      (plainOne.claimWorker (poolOf [freeCpu] none []) id ∅ ∅ false).claimed = some (w, item) := by
  have hsome : (plainOne.claimWorker (poolOf [freeCpu] none []) id ∅ ∅ false).claimed.isSome = true := by decide +kernel
  obtain ⟨⟨w, item⟩, hclaimed⟩ := Option.isSome_iff_exists.1 hsome
  obtain ⟨hmay, hfirst⟩ := plainOne.claimWorker_spec (poolOf [freeCpu] none []) id ∅ ∅
  obtain ⟨hmem, htakes⟩ := hmay false w item hclaimed
  exact ⟨⟨w, item, hclaimed, hmem, htakes⟩,
    hfirst rfl (List.nodup_singleton _) (fun h => by cases h.1) ⟨item, hmem, w, htakes⟩⟩

/-- **A free worker is not always used**: the CPU's is left free for a file that waits for a busy GPU, although it is on no
GPU the file refused; and so is one whose node is held back since it dropped another job's file. -/
theorem leaves_worker_free :
    (refusedOne.itemQueue = ["a.mkv"] ∧ refusedOne.anyNodeLimits = false ∧
      (poolOf [⟨1, .gpu, none, "gpu:1", none, true, false⟩, freeCpu] none []).Free .previews freeCpu ∧
      freeCpu.groupResource ∉ keys (refusedOne.refused "a.mkv") ∧
      (refusedOne.claimWorker (poolOf [⟨1, .gpu, none, "gpu:1", none, true, false⟩, freeCpu] none []) id ∅ ∅ false).claimed =
        none) ∧
    (plainOne.itemQueue = ["a.mkv"] ∧ plainOne.anyNodeLimits = false ∧
      (poolOf [freeCpu] (some "n") [("n", 300)]).Free .previews freeCpu ∧
      (plainOne.claimWorker (poolOf [freeCpu] (some "n") [("n", 300)]) id ∅ ∅ false).claimed = none) := by
  have hbusy : (refusedOne.claimWorker (poolOf [⟨1, .gpu, none, "gpu:1", none, true, false⟩, freeCpu] none []) id ∅ ∅
      false).claimed = none := by decide +kernel
  have hheld : (plainOne.claimWorker (poolOf [freeCpu] (some "n") [("n", 300)]) id ∅ ∅ false).claimed = none := by
    decide +kernel
  refine ⟨⟨rfl, rfl, ⟨?_, rfl, rfl⟩, ?_, hbusy⟩, ⟨rfl, rfl, ⟨?_, rfl, rfl⟩, hheld⟩⟩
  · exact List.mem_cons_of_mem _ (List.mem_singleton.2 rfl)
  · decide +kernel
  · exact List.mem_singleton.2 rfl

end MediaPreview.Claims
