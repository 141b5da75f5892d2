import MediaPreview.Lib.Dict
import MediaPreview.Lib.Runs
import Mathlib.Data.Int.Notation

/-!
# The queue of Plex notifications

`PlexRefreshQueue` of `processing/plex_refresh.py`: files wait in the order they were queued, one worker takes them one by
one and asks Plex to analyze each, or holds it for the maintenance window. Everything happens under one condition but the
request itself, so a file may be queued again while its Analyze runs.

An answer of the queue is backed by what happened: `wait` says an Analyze was made only when one began after every
request for the file and Plex took it (`wait_sound`), and `asked` only when the file is in the queue or Plex took one
(`asked_sound`).
-/

namespace MediaPreview.Plex

/-- `_Refresh`, but for the server and the file, which are its key. -/
structure Refresh where
  /-- The item's id, where known. -/
  itemId : Option String
  /-- The library's id, where known. -/
  libraryId : Option String
  /-- A catch-up request. -/
  quiet : Bool
  deriving DecidableEq, Repr

/-- The worker thread. -/
inductive RefreshWorker (κ : Type*) where
  /-- There is none. -/
  | none
  /-- It waits, or is about to look at the queue. -/
  | ready
  /-- It sends a request. -/
  | busy (key : κ) (request : Refresh)
  /-- It was not started, or died with an exception: `_worker` names a thread that does not run. -/
  | lost
  deriving DecidableEq, Repr

/-- `PlexRefreshQueue`. -/
structure RefreshQueue (κ : Type*) where
  /-- `_capacity`. -/
  capacity : ℕ
  /-- `_pending`. -/
  pending : List (κ × Refresh)
  /-- `_inflight`. -/
  inflight : List κ
  /-- `_completed`. -/
  completed : List (κ × Bool)
  /-- `_analyzed`. -/
  analyzed : List (κ × Option String)
  /-- `_worker`. -/
  worker : RefreshWorker κ
  /-- `_closed`. -/
  closed : Bool

/-- How a request ended. -/
inductive Outcome where
  /-- Held for Plex's maintenance window, also when writing it down raised. -/
  | held
  /-- `refresh_preview_metadata` answered. -/
  | answered (notified : Bool)
  /-- It raised, or asking whether to hold did. -/
  | raised
  deriving DecidableEq, Repr

/-- `_ANALYZED_MEMORY`. -/
def analyzedMemory : ℕ := 4096

namespace RefreshQueue

variable {κ : Type*} [DecidableEq κ]

/-- The oldest entries of an `OrderedDict` dropped over a limit. -/
def trim {α : Type*} (limit : ℕ) (d : List α) : List α := d.drop (d.length - limit)

/-- The keys of the files that wait. -/
def keys (q : RefreshQueue κ) : List κ := q.pending.map Prod.fst

/-- `PlexRefreshQueue(capacity=…)`. -/
def empty (capacity : ℕ) : RefreshQueue κ := ⟨capacity, [], [], [], [], .none, false⟩

/-- `item_id or (previous.item_id if previous else None)`. -/
def itemIdOf (itemId : Option String) (previous : Option Refresh) : Option String :=
  (itemId.filter fun id => id ≠ "").or (previous.bind Refresh.itemId)

/-- The request a call leaves for a file, by the one there. -/
def requestOf (itemId libraryId : Option String) (quiet : Bool) (previous : Option Refresh) : Refresh :=
  ⟨itemIdOf itemId previous, libraryId, quiet && previous.all Refresh.quiet⟩

/-- `enqueue` turns a file away: it is new and there is no room for it. -/
def Full (q : RefreshQueue κ) (key : κ) (quiet : Bool) : Prop :=
  key ∉ q.keys ∧ key ∉ q.inflight ∧ (if quiet then q.capacity / 2 else q.capacity) ≤
    if quiet then (q.pending.filter fun entry => entry.2.quiet).length else q.pending.length

instance (q : RefreshQueue κ) (key : κ) (quiet : Bool) : Decidable (q.Full key quiet) := by
  unfold Full
  infer_instance

/-- `enqueue`, with whether the thread it may need can be started; the queue after it and what it answers. Starting a
thread raises only after the request was queued. -/
def enqueue (q : RefreshQueue κ) (key : κ) (itemId libraryId : Option String) (quiet starts : Bool) :
    RefreshQueue κ × Bool :=
  if q.closed then (q, false)
  else
    let completed := Dict.erase q.completed key
    if q.Full key quiet then ({ q with completed := completed }, false)
    else ({ q with
      completed := completed
      pending := Dict.set q.pending key (requestOf itemId libraryId quiet (Dict.get? q.pending key))
      worker := if q.worker = .none then (if starts then .ready else .lost) else q.worker }, true)

/-- `asked`: Analyze is queued or running, or Plex took one for this item or for the file. -/
def asked (q : RefreshQueue κ) (key : κ) (itemId : String) : Bool :=
  key ∈ q.keys || key ∈ q.inflight || (key, some itemId) ∈ q.analyzed || (key, none) ∈ q.analyzed

/-- `is_queued`. -/
def isQueued (q : RefreshQueue κ) (key : κ) : Bool := key ∈ q.keys || key ∈ q.inflight

/-- `free_slots`. -/
def freeSlots (q : RefreshQueue κ) : ℤ := (q.capacity : ℤ) - q.pending.length

/-- **A file that is not queued is taken in while slots are free.** -/
theorem enqueue_iff_freeSlots {q : RefreshQueue κ} {key : κ} (hopen : q.closed = false) (hnew : q.isQueued key = false)
    (itemId libraryId : Option String) (starts : Bool) :
    (q.enqueue key itemId libraryId false starts).2 = true ↔ 0 < q.freeSlots := by
  rw [isQueued, Bool.or_eq_false_iff, decide_eq_false_iff_not, decide_eq_false_iff_not] at hnew
  have hfull : q.Full key false ↔ q.capacity ≤ q.pending.length :=
    ⟨fun h => h.2.2, fun h => ⟨hnew.1, hnew.2, h⟩⟩
  unfold enqueue freeSlots
  rw [if_neg (by rw [hopen]; exact Bool.false_ne_true)]
  dsimp only
  by_cases h : q.Full key false
  · have hle := hfull.1 h
    rw [if_pos h]
    exact iff_of_false Bool.false_ne_true (by omega)
  · have hlt : ¬ q.capacity ≤ q.pending.length := fun hle => h (hfull.2 hle)
    rw [if_neg h]
    exact iff_of_true rfl (by omega)

/-- One look of `wait` at the queue: what it answers; `none` while it goes on waiting. -/
def waitResult (q : RefreshQueue κ) (key : κ) (required : Bool) : Option Bool :=
  if q.closed then some false
  else if q.isQueued key then none
  else some (if required then (Dict.get? q.completed key).getD false else true)

/-- The item a request was sent for: `str(request.item_id).rsplit("/", 1)[-1]`. -/
def analyzedItem (request : Refresh) : Option String :=
  (request.itemId.filter fun id => id ≠ "").map fun id => String.ofList ((id.toList.splitOn '/').getLastD [])

/-- The end of a request, when the held one could be released. -/
def finish (q : RefreshQueue κ) (key : κ) (request : Refresh) (outcome : Outcome) : RefreshQueue κ :=
  { q with
    inflight := q.inflight.filter fun k => k ≠ key
    analyzed := if outcome = .answered true then
        trim analyzedMemory
          ((q.analyzed.filter fun a => a ≠ (key, analyzedItem request)) ++ [(key, analyzedItem request)])
      else q.analyzed
    completed := trim (max 256 q.capacity) (Dict.erase q.completed key ++ [(key, decide (outcome = .answered true))])
    worker := .ready }

/-! ### What happens -/

/-- What happens to the queue. -/
inductive RefreshEvent (κ : Type*) where
  /-- A file is queued, or turned away. -/
  | enqueue (key : κ) (itemId libraryId : Option String) (quiet starts : Bool)
  /-- The worker takes the file that waits longest. -/
  | take (key : κ)
  /-- Its request is over; `plex_held_rereads.release` may raise. -/
  | finish (outcome : Outcome) (releases : Bool)
  /-- The worker finds nothing to do. -/
  | leave
  /-- The app stops. -/
  | close

/-- What an event makes of the queue. -/
def step (q : RefreshQueue κ) : RefreshEvent κ → Option (RefreshQueue κ)
  | .enqueue key itemId libraryId quiet starts => some (q.enqueue key itemId libraryId quiet starts).1
  | .take key =>
    match q.worker, q.pending with
    | .ready, (k, request) :: pending =>
      if key = k ∧ q.closed = false then
        some { q with pending := pending, inflight := key :: q.inflight, worker := .busy key request }
      else none
    | _, _ => none
  | .finish outcome releases =>
    match q.worker with
    | .busy key request =>
      if outcome ≠ .held ∧ releases = false then some { q with worker := .lost }
      else some (q.finish key request outcome)
    | _ => none
  | .leave => if q.worker = .ready ∧ (q.closed = true ∨ q.pending = []) then some { q with worker := .none } else none
  | .close => some { q with closed := true, pending := [] }

/-- A request for a file. -/
def Asks (key : κ) : RefreshEvent κ → Prop
  | .enqueue k _ _ _ _ => k = key
  | _ => False

/-- The end of a request. -/
def Ends : RefreshEvent κ → Prop
  | .finish _ _ => True
  | _ => False

/-- Plex took an Analyze of the file. -/
def Sent (key : κ) (es : List (RefreshEvent κ)) : Prop :=
  ∃ before between after, es = before ++ .take key :: (between ++ .finish (.answered true) true :: after) ∧
    ∀ e ∈ between, ¬ Ends e

/-- Plex took an Analyze of the file that began after every request for it. -/
def SentSince (key : κ) (es : List (RefreshEvent κ)) : Prop :=
  ∃ before between after, es = before ++ .take key :: (between ++ .finish (.answered true) true :: after) ∧
    (∀ e ∈ between, ¬ Ends e) ∧ ∀ e ∈ between ++ after, ¬ Asks key e

/-- What the queue holds, and what happened. -/
structure Backed (es : List (RefreshEvent κ)) (q : RefreshQueue κ) : Prop where
  /-- Only the worker's file is in flight, as long as the worker runs. -/
  inflight : q.worker ≠ .lost → q.inflight = match q.worker with | .busy key _ => [key] | _ => []
  /-- The worker's file was taken, and what was asked for it since waits. -/
  busy : ∀ key request, q.worker = .busy key request → ∃ before between, es = before ++ .take key :: between ∧
    (∀ e ∈ between, ¬ Ends e) ∧ (q.closed = false → (∃ e ∈ between, Asks key e) → key ∈ q.keys)
  /-- A file whose Analyze went well waits again, is in flight again, or was sent since. -/
  completed : q.closed = false → ∀ key, (key, true) ∈ q.completed → key ∈ q.keys ∨ key ∈ q.inflight ∨ SentSince key es
  /-- What is remembered as analyzed was sent. -/
  analyzed : ∀ key itemId, (key, itemId) ∈ q.analyzed → Sent key es

/-! ### One step -/

variable {q q' : RefreshQueue κ} {es : List (RefreshEvent κ)} {e : RefreshEvent κ} {key : κ}

theorem mem_keys_set {d : List (κ × Refresh)} {k : κ} {request : Refresh} :
    key ∈ (Dict.set d k request).map Prod.fst ↔ key = k ∨ key ∈ d.map Prod.fst := by
  rw [← not_iff_not, ← Dict.get?_eq_none_iff, Dict.get?_set, not_or, ← Dict.get?_eq_none_iff]
  by_cases hk : k = key
  · simp [hk]
  · simp [hk, Ne.symm hk]

omit [DecidableEq κ] in
theorem Sent.snoc (h : Sent key es) (e : RefreshEvent κ) : Sent key (es ++ [e]) := by
  obtain ⟨before, between, after, rfl, hends⟩ := h
  exact ⟨before, between, after ++ [e], by simp, hends⟩

omit [DecidableEq κ] in
theorem SentSince.snoc (h : SentSince key es) (he : ¬ Asks key e) : SentSince key (es ++ [e]) := by
  obtain ⟨before, between, after, rfl, hends, hasks⟩ := h
  refine ⟨before, between, after ++ [e], by simp, hends, fun e' he' => ?_⟩
  rw [← List.append_assoc, List.mem_append, List.mem_singleton] at he'
  rcases he' with he' | rfl
  · exact hasks e' he'
  · exact he

omit [DecidableEq κ] in
/-- What is known of the worker's file, after one more event that does not end its request. -/
theorem Backed.busy_snoc (h : Backed es q) (hends : ¬ Ends e) {k : κ} {request : Refresh}
    (hbusy : q.worker = .busy k request) {keys : List κ} {closed : Bool} (hclosed : closed = false → q.closed = false)
    (hkeys : closed = false → ∀ key ∈ q.keys, key ∈ keys) (hnew : closed = false → Asks k e → k ∈ keys) :
    ∃ before between, es ++ [e] = before ++ .take k :: between ∧ (∀ e ∈ between, ¬ Ends e) ∧
      (closed = false → (∃ e ∈ between, Asks k e) → k ∈ keys) := by
  obtain ⟨before, between, rfl, hbetween, hwaits⟩ := h.busy k request hbusy
  refine ⟨before, between ++ [e], by simp, fun e' he' => ?_, fun hopen hasks => ?_⟩
  · rcases List.mem_append.mp he' with he' | he'
    · exact hbetween e' he'
    · exact List.mem_singleton.mp he' ▸ hends
  · obtain ⟨e', he', hask⟩ := hasks
    rcases List.mem_append.mp he' with he' | he'
    · exact hkeys hopen k (hwaits (hclosed hopen) ⟨e', he', hask⟩)
    · exact hnew hopen (List.mem_singleton.mp he' ▸ hask)

/-- A file queued or turned away. -/
theorem Backed.enqueue (h : Backed es q) (k : κ) (itemId libraryId : Option String) (quiet starts : Bool) :
    Backed (es ++ [.enqueue k itemId libraryId quiet starts]) (q.enqueue k itemId libraryId quiet starts).1 := by
  have hends : ¬ Ends (.enqueue k itemId libraryId quiet starts : RefreshEvent κ) := id
  have hcompleted : q.closed = false → ∀ key, (key, true) ∈ Dict.erase q.completed k → key ∈ q.keys ∨ key ∈ q.inflight ∨
      SentSince key (es ++ [.enqueue k itemId libraryId quiet starts]) := by
    intro hopen key hmem
    obtain ⟨hmem, hne⟩ := List.mem_filter.mp hmem
    refine (h.completed hopen key hmem).imp_right fun hc => hc.imp_right fun hsent => hsent.snoc ?_
    exact fun hk : k = key => of_decide_eq_true hne hk.symm
  have hanalyzed : ∀ key itemId', (key, itemId') ∈ q.analyzed →
      Sent key (es ++ [.enqueue k itemId libraryId quiet starts]) :=
    fun key itemId' hmem => (h.analyzed key itemId' hmem).snoc _
  unfold RefreshQueue.enqueue
  by_cases hopen : q.closed = true
  · rw [if_pos hopen]
    have hclosed : q.closed ≠ false := fun hc => Bool.false_ne_true (hc.symm.trans hopen)
    refine ⟨h.inflight, fun key request hbusy => ?_, fun hc => absurd hc hclosed, hanalyzed⟩
    exact h.busy_snoc hends hbusy id (fun hc => absurd hc hclosed) fun hc => absurd hc hclosed
  rw [if_neg hopen]
  dsimp only
  by_cases hfull : q.Full k quiet
  · rw [if_pos hfull]
    refine ⟨h.inflight, fun key request hbusy => ?_, hcompleted, hanalyzed⟩
    refine h.busy_snoc hends hbusy id (fun _ _ => id) fun _ (hask : k = key) => ?_
    -- the worker's file is never turned away
    have hinflight := h.inflight (by rw [hbusy]; intro hc; cases hc)
    rw [hbusy] at hinflight
    exact absurd (hinflight ▸ hask ▸ List.mem_cons_self) hfull.2.1
  · rw [if_neg hfull]
    have hkeys : ∀ key ∈ q.keys,
        key ∈ (Dict.set q.pending k (requestOf itemId libraryId quiet (Dict.get? q.pending k))).map Prod.fst :=
      fun key hmem => mem_keys_set.mpr (.inr hmem)
    refine ⟨fun hlost => ?_, fun key request hbusy => ?_, fun hc key hmem => ?_, hanalyzed⟩
    · dsimp only at hlost ⊢
      by_cases hnone : q.worker = .none
      · have hinflight := h.inflight (by rw [hnone]; intro hc; cases hc)
        rw [hnone] at hinflight
        rw [hinflight, if_pos hnone]
        cases starts <;> rfl
      · rw [if_neg hnone] at hlost ⊢
        exact h.inflight hlost
    · dsimp only at hbusy ⊢
      by_cases hnone : q.worker = .none
      · rw [if_pos hnone] at hbusy
        cases starts <;> cases hbusy
      · rw [if_neg hnone] at hbusy
        exact h.busy_snoc hends hbusy id (fun _ => hkeys) fun _ (hask : k = key) => mem_keys_set.mpr (.inl hask.symm)
    · exact (hcompleted hc key hmem).imp_left (hkeys key)

/-- A request that is over. -/
theorem Backed.finish (h : Backed es q) {k : κ} {request : Refresh} (hbusy : q.worker = .busy k request)
    {outcome : Outcome} {releases : Bool} (hreleases : outcome ≠ .held → releases = true) :
    Backed (es ++ [.finish outcome releases]) (q.finish k request outcome) := by
  have hinflight : q.inflight = [k] := by
    have := h.inflight (by rw [hbusy]; intro hc; cases hc)
    rwa [hbusy] at this
  obtain ⟨before, between, hes, hbetween, hwaits⟩ := h.busy k request hbusy
  have hsent : outcome = .answered true → es ++ [.finish outcome releases] =
      before ++ .take k :: (between ++ .finish (.answered true) true :: []) := by
    rintro rfl
    rw [hes, hreleases (by intro hc; cases hc)]
    simp
  refine ⟨fun _ => ?_, fun key request' hc => ?_, fun hopen key hmem => ?_, fun key itemId hmem => ?_⟩
  · change q.inflight.filter (fun key => key ≠ k) = []
    rw [hinflight]
    simp
  · cases hc
  · have hmem := List.mem_of_mem_drop hmem
    rw [List.mem_append, List.mem_singleton, Prod.mk.injEq] at hmem
    rcases hmem with hmem | ⟨rfl, houtcome⟩
    · obtain ⟨hmem, hne⟩ := List.mem_filter.mp hmem
      have hne : key ≠ k := of_decide_eq_true hne
      rcases h.completed hopen key hmem with hkeys | hin | hsince
      · exact .inl hkeys
      · rw [hinflight] at hin
        exact absurd (List.mem_singleton.mp hin) hne
      · exact .inr (.inr (hsince.snoc id))
    · by_cases hasked : ∃ e ∈ between, Asks key e
      · exact .inl (hwaits hopen hasked)
      · refine .inr (.inr ⟨before, between, [], hsent (of_decide_eq_true houtcome.symm), hbetween, fun e he hask => ?_⟩)
        exact hasked ⟨e, by simpa using he, hask⟩
  · change (key, itemId) ∈ (if outcome = .answered true then trim analyzedMemory _ else q.analyzed) at hmem
    split_ifs at hmem with houtcome
    · have hmem := List.mem_of_mem_drop hmem
      rw [List.mem_append, List.mem_singleton, Prod.mk.injEq] at hmem
      rcases hmem with hmem | ⟨rfl, -⟩
      · exact (h.analyzed key itemId (List.mem_of_mem_filter hmem)).snoc _
      · exact ⟨before, between, [], hsent houtcome, hbetween⟩
    · exact (h.analyzed key itemId hmem).snoc _

/-- **What the queue holds is backed by what happened**, step by step. -/
theorem Backed.step (h : Backed es q) (hstep : step q e = some q') : Backed (es ++ [e]) q' := by
  have hsnoc : ¬ Ends e → ∀ key, (¬ Asks key e) → (key ∈ q.keys ∨ key ∈ q.inflight ∨ SentSince key es) →
      key ∈ q.keys ∨ key ∈ q.inflight ∨ SentSince key (es ++ [e]) :=
    fun _ key hask hc => hc.imp_right fun hc => hc.imp_right fun hs => hs.snoc hask
  cases e with
  | enqueue k itemId libraryId quiet starts =>
    obtain rfl := Option.some.inj hstep
    exact h.enqueue k itemId libraryId quiet starts
  | take k =>
    unfold RefreshQueue.step at hstep
    dsimp only at hstep
    split at hstep
    · rename_i request pending hready hpending
      split_ifs at hstep with htake
      obtain ⟨rfl, hopen⟩ := htake
      obtain rfl := Option.some.inj hstep
      have hinflight : q.inflight = [] := by
        have := h.inflight (by rw [hready]; intro hc; cases hc)
        rwa [hready] at this
      refine ⟨fun _ => ?_, fun key request' hbusy => ?_, fun _ key hmem => ?_, fun key itemId hmem => ?_⟩
      · change k :: q.inflight = [k]
        rw [hinflight]
      · obtain ⟨rfl, -⟩ := RefreshWorker.busy.inj hbusy
        exact ⟨es, [], rfl, fun _ he => absurd he List.not_mem_nil, fun _ ⟨_, he, _⟩ => absurd he List.not_mem_nil⟩
      · rcases hsnoc id key id (h.completed hopen key hmem) with hkeys | hin | hsince
        · rw [keys, hpending, List.map_cons, List.mem_cons] at hkeys
          exact hkeys.elim (fun hk => .inr (.inl (hk ▸ List.mem_cons_self))) .inl
        · exact .inr (.inl (List.mem_cons_of_mem _ hin))
        · exact .inr (.inr hsince)
      · exact (h.analyzed key itemId hmem).snoc _
    · cases hstep
  | finish outcome releases =>
    unfold RefreshQueue.step at hstep
    dsimp only at hstep
    split at hstep
    · rename_i k request hbusy
      split_ifs at hstep with hlost
      · obtain rfl := Option.some.inj hstep
        refine ⟨fun hc => absurd rfl hc, fun key request' hc => (by cases hc), fun hopen key hmem => ?_,
          fun key itemId hmem => (h.analyzed key itemId hmem).snoc _⟩
        exact (h.completed hopen key hmem).imp_right fun hc => hc.imp_right fun hs => hs.snoc id
      · obtain rfl := Option.some.inj hstep
        exact h.finish hbusy fun hheld => by
          by_contra hno
          exact hlost ⟨hheld, Bool.not_eq_true _ ▸ hno⟩
    · cases hstep
  | leave =>
    unfold RefreshQueue.step at hstep
    split_ifs at hstep with hleave
    obtain rfl := Option.some.inj hstep
    have hinflight := h.inflight (by rw [hleave.1]; intro hc; cases hc)
    rw [hleave.1] at hinflight
    exact ⟨fun _ => hinflight, fun key request' hc => (by cases hc),
      fun hopen key hmem => hsnoc id key id (h.completed hopen key hmem),
      fun key itemId hmem => (h.analyzed key itemId hmem).snoc _⟩
  | close =>
    obtain rfl := Option.some.inj hstep
    refine ⟨h.inflight, fun key request hbusy => ?_, fun hopen => (by cases hopen),
      fun key itemId hmem => (h.analyzed key itemId hmem).snoc _⟩
    exact h.busy_snoc id hbusy (fun hc => by cases hc) (fun hc => by cases hc) fun hc => by cases hc

omit [DecidableEq κ] in
theorem backed_empty (capacity : ℕ) : Backed [] (empty capacity : RefreshQueue κ) where
  inflight _ := rfl
  busy _ _ h := by cases h
  completed _ _ h := absurd h List.not_mem_nil
  analyzed _ _ h := absurd h List.not_mem_nil

theorem backed_of_runs {capacity : ℕ} (h : Runs RefreshQueue.step Any (empty capacity) es q) : Backed es q :=
  h.keeps_from (backed_empty capacity) fun _ _ _ _ _ hstep hbacked => hbacked.step hstep

/-- **An Analyze `wait` vouches for began after every request for the file**, in every run, and Plex took it. -/
theorem wait_sound {capacity : ℕ} (h : Runs RefreshQueue.step Any (empty capacity) es q)
    (hwait : q.waitResult key true = some true) : SentSince key es := by
  unfold waitResult at hwait
  by_cases hclosed : q.closed = true
  · rw [if_pos hclosed] at hwait
    cases hwait
  rw [if_neg hclosed] at hwait
  by_cases hqueued : q.isQueued key = true
  · rw [if_pos hqueued] at hwait
    cases hwait
  rw [if_neg hqueued, if_pos rfl, Option.some.injEq] at hwait
  cases hget : Dict.get? q.completed key with
  | none =>
    rw [hget] at hwait
    cases hwait
  | some value =>
    rw [hget, Option.getD_some] at hwait
    subst hwait
    simp only [isQueued, Bool.or_eq_true, decide_eq_true_eq, not_or] at hqueued
    have hopen : q.closed = false := Bool.not_eq_true _ ▸ hclosed
    have hcases := (backed_of_runs h).completed hopen key (Dict.mem_of_get? hget)
    exact (hcases.resolve_left hqueued.1).resolve_left hqueued.2

/-- A file queued once more while its Analyze runs: the second one counts. -/
theorem wait_sound_twice : ∃ q : RefreshQueue ℕ, Runs RefreshQueue.step Any (empty 128)
    [.enqueue 1 none none false true, .take 1, .enqueue 1 none none false true, .finish (.answered true) true, .take 1,
      .finish (.answered true) true] q ∧ SentSince 1 [.enqueue 1 none none false true, .take 1,
      .enqueue 1 none none false true, .finish (.answered true) true, .take 1, .finish (.answered true) true] := by
  obtain ⟨q, hq, hwait⟩ := (Option.any_eq_true ..).mp (show (exec RefreshQueue.step (empty 128 : RefreshQueue ℕ)
    [.enqueue 1 none none false true, .take 1, .enqueue 1 none none false true, .finish (.answered true) true, .take 1,
      .finish (.answered true) true]).any (fun q => q.waitResult 1 true = some true) = true by decide +kernel)
  have hrun := Runs.of_exec (C := Any) (fun _ _ _ => trivial) hq
  exact ⟨q, hrun, wait_sound hrun (of_decide_eq_true hwait)⟩

/-- **A file `asked` names is in the queue**, or Plex took an Analyze of it. -/
theorem asked_sound {capacity : ℕ} (h : Runs RefreshQueue.step Any (empty capacity) es q) {itemId : String}
    (hasked : q.asked key itemId = true) : q.isQueued key = true ∨ Sent key es := by
  simp only [asked, Bool.or_eq_true, decide_eq_true_eq] at hasked
  rcases hasked with (hqueued | hitem) | hfile
  · exact .inl (by simpa only [isQueued, Bool.or_eq_true, decide_eq_true_eq] using hqueued)
  · exact .inr ((backed_of_runs h).analyzed key _ hitem)
  · exact .inr ((backed_of_runs h).analyzed key _ hfile)

end RefreshQueue

end MediaPreview.Plex
