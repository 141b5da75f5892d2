import MediaPreview.Lib.Stages
import MediaPreview.Loudness.Completions
import Mathlib.Data.List.Forall2
import Mathlib.Data.List.Perm.Basic

/-!
# Resuming a job credits the verified files

Whether a file is credited is said of what was stored for it and of what its own checks find (`Creditable`). One round of the
loop credits it or leaves it, and where it raises, accepts no other (`judge_cases`); so after every file the tallies and the
accepted paths are those of the files that may be credited (`Judged`).

The results are listed from the stored rows, and a row without a message is not refused when it is looked at: with one
credited, listing raises (`results_iff`). That is the only way it goes wrong (`restore_spec`).
-/

namespace MediaPreview.Loudness

open Tally

/-! ### Lists -/

/-- One after another the chunks are the list. -/
theorem flatten_chunksOf {α : Type} {size : ℕ} (hsize : 0 < size) (items : List α) :
    (chunksOf size items).flatten = items := by
  have hprefix : ∀ n, ((List.range n).map fun k => (items.drop (size * k)).take size).flatten = items.take (size * n) := by
    intro n
    induction n with
    | zero => simp
    | succ n ih =>
      rw [List.range_succ, List.map_append, List.flatten_append, ih, Nat.mul_succ, List.take_add]
      simp
  rw [chunksOf, hprefix]
  refine List.take_of_length_le ?_
  have hdiv := Nat.div_add_mod (items.length + size - 1) size
  have hmod := Nat.mod_lt (items.length + size - 1) hsize
  omega

/-! ### Which files may be credited -/

/-- What was stored for a file, and what its own checks find, credit it: the latest row stored is a version 1 success for
the same server and items with a valid list of servers; the source stored is the file's on disk before the check and after
it; and the check says up to date for exactly the row's servers. -/
structure Creditable (loads : String → Loaded) (env : Env) (completions : List (String × String)) (item : Item)
    (row : Entries) : Prop where
  stored : ∃ text, text ≠ "" ∧ Dict.get? completions item.canonicalPath = some text ∧ loads text = .value (.dict row)
  version : (PyValue.get row "version").eq (.int 1) = true
  outcome : ∃ key ∈ success, (PyValue.get row "outcome").eq (.str key) = true
  server : (PyValue.get row "server_id").eq (.str item.serverId) = true
  itemIds : (PyValue.get row "item_id_by_server").eq (.dict (item.itemIdByServer.map fun e => (e.1, .str e.2))) = true
  servers : validServers (PyValue.get row "servers") = true
  before : ∃ fingerprint, env.before item = some fingerprint ∧ fingerprint.matches (PyValue.get row "source") = true
  checked : ∃ current, env.check item = some (some current) ∧ current.outcomeKey = "loudness_up_to_date" ∧
    (current.publisherRows.map fun server => PyValue.get server "server_id").all hashable = true ∧
    sameSet (current.publisherRows.map fun server => PyValue.get server "server_id")
      (serverIds (PyValue.get row "servers")) = true
  after : ∃ fingerprint, env.after item = some (some fingerprint) ∧ fingerprint.matches (PyValue.get row "source") = true

/-- A file is credited, by the code's own tests. -/
def credits (loads : String → Loaded) (env : Env) (completions : List (String × String)) (item : Item) : Bool :=
  (savedCandidate loads (env.before item) item (Dict.get? completions item.canonicalPath)).join.any fun row =>
    (env.check item).any fun current => (env.after item).any fun fingerprint =>
      decide (stillHolds current fingerprint row = some true)

variable {loads : String → Loaded} {env : Env} {completions : List (String × String)} {item : Item} {row : Entries}

theorem isCandidate_iff {fingerprint : SourceFingerprint} :
    isCandidate item fingerprint row = true ↔
      (PyValue.get row "version").eq (.int 1) = true ∧
      (∃ key ∈ success, (PyValue.get row "outcome").eq (.str key) = true) ∧
      fingerprint.matches (PyValue.get row "source") = true ∧
      (PyValue.get row "server_id").eq (.str item.serverId) = true ∧
      (PyValue.get row "item_id_by_server").eq (.dict (item.itemIdByServer.map fun e => (e.1, .str e.2))) = true ∧
      validServers (PyValue.get row "servers") = true := by
  simp only [isCandidate, Bool.and_eq_true, List.any_eq_true, and_assoc]

/-- A file has a candidate exactly when its row is stored and holds. -/
theorem savedCandidate_iff {fingerprint : Option SourceFingerprint} {encoded : Option String} :
    savedCandidate loads fingerprint item encoded = some (some row) ↔
      (∃ text, text ≠ "" ∧ encoded = some text ∧ loads text = .value (.dict row)) ∧
        ∃ f, fingerprint = some f ∧ isCandidate item f row = true := by
  constructor
  · intro h
    cases encoded with
    | none => cases h
    | some text =>
      rw [savedCandidate] at h
      split_ifs at h with hempty
      · cases h
      · cases hload : loads text with
        | raises =>
          rw [hload] at h
          cases h
        | malformed =>
          rw [hload] at h
          cases h
        | value v =>
          rw [hload] at h
          cases v with
          | dict entries =>
            cases fingerprint with
            | none => cases h
            | some f =>
              have h := Option.some.inj h
              split_ifs at h with hcandidate
              obtain rfl := Option.some.inj h
              exact ⟨⟨text, hempty, rfl, hload⟩, f, rfl, hcandidate⟩
          | _ => cases h
  · rintro ⟨⟨text, hempty, rfl, hload⟩, f, rfl, hcandidate⟩
    rw [savedCandidate, if_neg hempty, hload]
    dsimp only
    rw [if_pos hcandidate]

theorem stillHolds_iff {current : Option ItemOutcome} {fingerprint : Option SourceFingerprint} :
    stillHolds current fingerprint row = some true ↔
      (∃ c, current = some c ∧ c.outcomeKey = "loudness_up_to_date" ∧
        (c.publisherRows.map fun server => PyValue.get server "server_id").all hashable = true ∧
        sameSet (c.publisherRows.map fun server => PyValue.get server "server_id")
          (serverIds (PyValue.get row "servers")) = true) ∧
      ∃ f, fingerprint = some f ∧ f.matches (PyValue.get row "source") = true := by
  cases current with
  | none => simp [stillHolds]
  | some c =>
    rw [stillHolds]
    dsimp only
    simp only [Option.some.injEq, exists_eq_left']
    generalize (c.publisherRows.map fun server => PyValue.get server "server_id") = ids
    by_cases hkey : c.outcomeKey = "loudness_up_to_date"
    · rw [if_neg fun hne => hne hkey]
      cases ids.all hashable with
      | false => simp
      | true => cases fingerprint <;> simp [hkey]
    · rw [if_pos hkey]
      simp [hkey]

/-- **The code's tests are the conditions.** -/
theorem credits_iff : credits loads env completions item = true ↔ ∃ row, Creditable loads env completions item row := by
  simp only [credits, Option.any_eq_true, Option.join_eq_some_iff, decide_eq_true_eq, savedCandidate_iff, stillHolds_iff,
    isCandidate_iff]
  refine exists_congr fun row => ?_
  constructor
  · rintro ⟨⟨hstored, f, hf, hversion, houtcome, hsource, hserver, hitems, hservers⟩, current, hcheck, fingerprint, hafter,
      ⟨c, rfl, hkey, hhash, hsame⟩, g, rfl, hmatches⟩
    exact ⟨hstored, hversion, houtcome, hserver, hitems, hservers, ⟨f, hf, hsource⟩, ⟨c, hcheck, hkey, hhash, hsame⟩,
      g, hafter, hmatches⟩
  · rintro ⟨hstored, hversion, houtcome, hserver, hitems, hservers, ⟨f, hf, hsource⟩, ⟨c, hcheck, hkey, hhash, hsame⟩,
      g, hafter, hmatches⟩
    exact ⟨⟨hstored, f, hf, hversion, houtcome, hsource, hserver, hitems, hservers⟩, some c, hcheck, some g, hafter,
      ⟨c, rfl, hkey, hhash, hsame⟩, g, rfl, hmatches⟩

/-! ### The loop -/

/-- **What one round can do**: where it returns, the file is credited or left; where it raises, nothing else is accepted. -/
theorem judge_cases {saved : List (String × String)} {p : Pass} {candidate : Option Entries}
    (h : withCandidate loads env saved item = some (item, candidate)) :
    (credits loads env saved item = true ∧ (∃ row aggregate, judge env p item candidate =
        .ok { p.ask.count item row with publishersAggregate := aggregate })) ∨
    (credits loads env saved item = false ∧ judge env p item candidate = .ok (p.ask.leave item)) ∨
    ∃ q, judge env p item candidate = .error q ∧
      (q.accepted = p.accepted ∨ credits loads env saved item = true ∧ q.accepted = insert item.canonicalPath p.accepted) := by
  have hsaved : savedCandidate loads (env.before item) item (Dict.get? saved item.canonicalPath) = some candidate := by
    obtain ⟨c, hc, hpair⟩ := Option.map_eq_some_iff.1 h
    exact (Prod.mk.inj hpair).2 ▸ hc
  unfold judge
  split_ifs with hcancel
  · exact .inr (.inr ⟨p.ask, rfl, .inl rfl⟩)
  · cases candidate with
    | none => exact .inr (.inl ⟨by simp [credits, hsaved], rfl⟩)
    | some row =>
      dsimp only
      cases hcheck : env.check item with
      | none => exact .inr (.inr ⟨p.ask, rfl, .inl rfl⟩)
      | some current =>
        dsimp only
        cases hafter : env.after item with
        | none => exact .inr (.inr ⟨p.ask, rfl, .inl rfl⟩)
        | some fingerprint =>
          dsimp only
          have hcredits : credits loads env saved item = decide (stillHolds current fingerprint row = some true) := by
            simp [credits, hsaved, hcheck, hafter]
          rw [hcredits]
          cases stillHolds current fingerprint row with
          | none => exact .inr (.inr ⟨p.ask, rfl, .inl rfl⟩)
          | some holds =>
            cases holds with
            | false => exact .inr (.inl ⟨rfl, rfl⟩)
            | true =>
              dsimp only
              rw [Pass.credit]
              cases foldRows p.ask.publishersAggregate (PyValue.get row "servers") with
              | none => exact .inr (.inr ⟨_, rfl, .inr ⟨rfl, rfl⟩⟩)
              | some aggregate =>
                dsimp only
                split_ifs
                · exact .inr (.inr ⟨_, rfl, .inr ⟨rfl, rfl⟩⟩)
                · exact .inl ⟨rfl, row, aggregate, rfl⟩

/-- The accepted paths are those of the files that are credited. -/
def AcceptedOf (credit : Item → Bool) (items : List Item) (accepted : Finset String) : Prop :=
  ∀ path ∈ accepted, ∃ item ∈ items, credit item = true ∧ item.canonicalPath = path

/-- The files `done` are judged: what remains, what is accepted, and the tallies. -/
structure Judged (credit : Item → Bool) (done : List Item) (p : Pass) : Prop where
  remaining : p.remaining = done.filter fun item => !credit item
  accepted : AcceptedOf credit done p.accepted
  credited : ∀ item ∈ done, credit item = true → item.canonicalPath ∈ p.accepted
  successful : p.successful = (done.filter credit).length
  counts : (p.outcomeCounts.map Prod.snd).sum = p.successful

theorem Judged.start (credit : Item → Bool) : Judged credit [] .start where
  remaining := rfl
  accepted := fun _ h => absurd h (Finset.notMem_empty _)
  credited := fun _ h => absurd h List.not_mem_nil
  successful := rfl
  counts := rfl

theorem Judged.ask {credit : Item → Bool} {done : List Item} {p : Pass} (h : Judged credit done p) :
    Judged credit done p.ask := ⟨h.remaining, h.accepted, h.credited, h.successful, h.counts⟩

theorem AcceptedOf.mono {credit : Item → Bool} {items more : List Item} {accepted : Finset String}
    (h : AcceptedOf credit items accepted) (hsub : items ⊆ more) : AcceptedOf credit more accepted := fun path hpath =>
  (h path hpath).imp fun _ h => ⟨hsub h.1, h.2⟩

theorem AcceptedOf.insert {credit : Item → Bool} {items : List Item} {accepted : Finset String} {item : Item}
    (h : AcceptedOf credit items accepted) (hmem : item ∈ items) (hcredit : credit item = true) :
    AcceptedOf credit items (insert item.canonicalPath accepted) := by
  intro path hpath
  obtain rfl | hpath := Finset.mem_insert.1 hpath
  · exact ⟨item, hmem, hcredit, rfl⟩
  · exact h path hpath

/-- A file that is left. -/
theorem Judged.leave {credit : Item → Bool} {done : List Item} {p : Pass} {item : Item} (h : Judged credit done p)
    (hcredit : credit item = false) : Judged credit (done ++ [item]) (p.leave item) where
  remaining := by simp [Pass.leave, h.remaining, hcredit]
  accepted := h.accepted.mono (List.subset_append_left _ _)
  credited := by
    intro other hmem hother
    obtain hmem | hmem := List.mem_append.1 hmem
    · exact h.credited other hmem hother
    · obtain rfl := List.mem_singleton.1 hmem
      rw [hcredit] at hother
      cases hother
  successful := by simp [Pass.leave, h.successful, hcredit]
  counts := h.counts

/-- A file that is credited. -/
theorem Judged.count {credit : Item → Bool} {done : List Item} {p : Pass} {item : Item} (h : Judged credit done p)
    (hcredit : credit item = true) (row : Entries) (aggregate : List (String × ServerEntry)) :
    Judged credit (done ++ [item]) { p.count item row with publishersAggregate := aggregate } where
  remaining := by simp [Pass.count, h.remaining, hcredit]
  accepted := (h.accepted.mono (List.subset_append_left _ _)).insert
    (List.mem_append_right _ (List.mem_singleton_self item)) hcredit
  credited := by
    intro other hmem hother
    obtain hmem | hmem := List.mem_append.1 hmem
    · exact Finset.mem_insert_of_mem (h.credited other hmem hother)
    · obtain rfl := List.mem_singleton.1 hmem
      exact Finset.mem_insert_self _ _
  successful := by simp [Pass.count, h.successful, hcredit]
  counts := by
    dsimp only [Pass.count]
    rw [sum_bump, h.counts]

/-- A chunk. -/
theorem judgeAll_spec {saved : List (String × String)} {chunk : List Item} {candidates : List (Item × Option Entries)}
    (hcandidates : List.Forall₂ (fun item pair => withCandidate loads env saved item = some pair) chunk candidates) :
    ∀ {done : List Item} {p : Pass}, Judged (credits loads env saved) done p →
      (∃ q, judgeAll env p candidates = .ok q ∧ Judged (credits loads env saved) (done ++ chunk) q) ∨
        ∃ q, judgeAll env p candidates = .error q ∧ AcceptedOf (credits loads env saved) (done ++ chunk) q.accepted := by
  induction hcandidates with
  | nil =>
    intro done p hp
    exact .inl ⟨p, rfl, by rwa [List.append_nil]⟩
  | @cons item pair chunk candidates hpair _ ih =>
    intro done p hp
    obtain ⟨other, candidate⟩ := pair
    obtain rfl : item = other := by
      obtain ⟨c, -, hc⟩ := Option.map_eq_some_iff.1 hpair
      exact (Prod.mk.inj hc).1
    rw [judgeAll, List.append_cons]
    obtain ⟨hcredit, row, aggregate, hok⟩ | ⟨hcredit, hok⟩ | ⟨q, herror, haccepted⟩ := judge_cases (p := p) hpair
    · rw [hok]
      exact ih (hp.ask.count hcredit row aggregate)
    · rw [hok]
      exact ih (hp.ask.leave hcredit)
    · rw [herror]
      refine .inr ⟨q, rfl, ?_⟩
      have hmem : item ∈ done ++ [item] ++ chunk := by simp
      have hsub : done ⊆ done ++ [item] ++ chunk := by simp
      obtain haccepted | ⟨hcredit, haccepted⟩ := haccepted
      · rw [haccepted]
        exact hp.accepted.mono hsub
      · rw [haccepted]
        exact (hp.accepted.mono hsub).insert hmem hcredit

/-- **All chunks.** -/
theorem judgeChunks_spec {saved : List (String × String)} {chunks : List (List Item)} {done : List Item} {p : Pass}
    (hp : Judged (credits loads env saved) done p) :
    (∃ q, judgeChunks loads env saved p chunks = .ok q ∧ Judged (credits loads env saved) (done ++ chunks.flatten) q) ∨
      ∃ q, judgeChunks loads env saved p chunks = .error q ∧
        AcceptedOf (credits loads env saved) (done ++ chunks.flatten) q.accepted := by
  induction chunks generalizing done p with
  | nil => exact .inl ⟨p, rfl, by rwa [List.flatten_nil, List.append_nil]⟩
  | cons chunk chunks ih =>
    rw [judgeChunks, List.flatten_cons, ← List.append_assoc]
    have hsub : done ⊆ done ++ chunk ++ chunks.flatten := by simp
    split_ifs with hcancel
    · exact .inr ⟨p.ask, rfl, hp.accepted.mono hsub⟩
    · cases hcandidates : chunk.mapM (withCandidate loads env saved) with
      | none => exact .inr ⟨p.ask, rfl, hp.accepted.mono hsub⟩
      | some candidates =>
        dsimp only
        obtain ⟨q, hok, hq⟩ | ⟨q, herror, haccepted⟩ := judgeAll_spec (mapM_eq_some_iff.1 hcandidates) hp.ask
        · rw [hok]
          exact ih hq
        · rw [herror]
          exact .inr ⟨q, rfl, haccepted.mono (List.subset_append_left _ _)⟩

/-! ### The results listed -/

/-- A result lists what was stored: its path, its outcome, its message and its servers. -/
structure ListsRow (loads : String → Loaded) (stored : String × String) (result : PreviousResult) : Prop where
  file : result.file = stored.1
  row : ∃ (row : Entries) (servers : List Entries), loads stored.2 = .value (.dict row) ∧ Dict.get? row "outcome" = some result.outcome ∧
    Dict.get? row "servers" = some (.list (servers.map .dict)) ∧ result.servers = servers.map previousServer ∧
    Dict.get? row "message" = some result.reason

/-- An entry that is not `null` is there. -/
theorem get?_of_get {d : Entries} {key : String} {v : PyValue} (hv : PyValue.get d key = v) (hnone : v ≠ .none) :
    Dict.get? d key = some v := by
  rw [PyValue.get] at hv
  cases hget : Dict.get? d key with
  | none =>
    rw [hget] at hv
    exact absurd hv.symm hnone
  | some w =>
    rw [hget] at hv
    exact congrArg some hv

theorem exists_rows_of_validServersFrom {ids : List String} {rows : List PyValue} (h : validServersFrom ids rows = true) :
    ∃ servers : List Entries, rows = servers.map .dict := by
  induction rows generalizing ids with
  | nil => exact ⟨[], rfl⟩
  | cons row rows ih =>
    cases row with
    | dict row =>
      rw [validServersFrom] at h
      cases hserver : validServer ids row with
      | none =>
        rw [hserver] at h
        cases h
      | some id =>
        rw [hserver] at h
        obtain ⟨servers, rfl⟩ := ih h
        exact ⟨row :: servers, rfl⟩
    | _ => cases h

/-- Valid servers are a list of rows. -/
theorem exists_rows_of_validServers {v : PyValue} (h : validServers v = true) :
    ∃ servers : List Entries, v = .list (servers.map .dict) := by
  cases v with
  | list rows => exact (exists_rows_of_validServersFrom h).imp fun _ h => congrArg _ h
  | _ => cases h

/-- Rows are listed one by one. -/
theorem previousServers_rows (servers : List Entries) :
    previousServers (.list (servers.map .dict)) = some (servers.map previousServer) := by
  cases servers with
  | nil => rfl
  | cons row servers =>
    rw [previousServers, if_neg (by simp [PyValue.truthy])]
    refine mapM_eq_some_iff.2 ?_
    induction row :: servers with
    | nil => exact .nil
    | cons row servers ih => exact .cons rfl ih

/-- A value equal to a text is that text. -/
theorem eq_str {v : PyValue} {s : String} (h : v.eq (.str s) = true) : v = .str s := by
  cases v with
  | str t => rw [of_decide_eq_true h]
  | _ => simp [PyValue.eq, PyValue.number] at h

/-- **The row of a credited file is listed** with its message, and not without. -/
theorem Creditable.resultOf_eq (h : Creditable loads env completions item row) {stored : String × String}
    (hload : loads stored.2 = .value (.dict row)) :
    ∃ (outcome : PyValue) (servers : List Entries), Dict.get? row "outcome" = some outcome ∧
      Dict.get? row "servers" = some (.list (servers.map .dict)) ∧
      resultOf loads stored = (Dict.get? row "message").map fun message =>
        ⟨stored.1, outcome, servers.map previousServer, message⟩ := by
  obtain ⟨key, -, hkey⟩ := h.outcome
  obtain ⟨servers, hservers⟩ := exists_rows_of_validServers h.servers
  have houtcome : Dict.get? row "outcome" = some (.str key) := get?_of_get (eq_str hkey) (by simp)
  have hget : Dict.get? row "servers" = some (.list (servers.map .dict)) := get?_of_get hservers (by simp)
  refine ⟨.str key, servers, houtcome, hget, ?_⟩
  simp only [resultOf, hload, houtcome, hget, Option.bind_some, previousServers_rows]

/-! ### Resuming -/

/-- What resuming gives: the files accepted and those that remain are the files in order, the tallies are of the accepted,
the accepted are those that may be credited, and the results listed are their stored rows, one each. -/
structure Resumed (loads : String → Loaded) (env : Env) (ledger ledger' : CompletionLedger) (items remaining : List Item)
    (state : CarriedState) : Prop where
  remaining : remaining = items.filter fun item => item.canonicalPath ∉ ledger'.accepted
  accepted : ∀ path ∈ ledger'.accepted, ∃ item ∈ items, item.canonicalPath = path
  successful : state.successful = (items.filter fun item => item.canonicalPath ∈ ledger'.accepted).length
  counts : (state.outcomeCounts.map Prod.snd).sum = state.successful
  creditable : ∀ item ∈ items, item.canonicalPath ∈ ledger'.accepted ↔
    ∃ row, Creditable loads env ledger.completions item row
  completions : ledger'.completions = ledger.completions
  results : ∃ results, ledger'.currentResults loads = some results ∧
    List.Forall₂ (ListsRow loads) (ledger'.completions.filter fun stored => stored.1 ∈ ledger'.accepted) results ∧
    List.Perm (results.map PreviousResult.file)
      ((items.filter fun item => item.canonicalPath ∈ ledger'.accepted).map Item.canonicalPath)

/-- Where each item has a related one there is a related list. -/
theorem exists_forall₂ {α β : Type} {R : α → β → Prop} {l : List α} (h : ∀ a ∈ l, ∃ b, R a b) :
    ∃ r, List.Forall₂ R l r := by
  induction l with
  | nil => exact ⟨[], .nil⟩
  | cons a l ih =>
    obtain ⟨b, hb⟩ := h a (.head _)
    obtain ⟨r, hr⟩ := ih fun c hc => h c (.tail _ hc)
    exact ⟨b :: r, .cons hb hr⟩

/-- Related lists relate each item of the first. -/
theorem exists_of_forall₂ {α β : Type} {R : α → β → Prop} {l : List α} {r : List β} (h : List.Forall₂ R l r) {a : α}
    (ha : a ∈ l) : ∃ b, R a b := by
  induction h with
  | nil => cases ha
  | cons hab _ ih =>
    obtain rfl | ha := List.mem_cons.1 ha
    · exact ⟨_, hab⟩
    · exact ih ha

section Restored

variable {ledger ledger' : CompletionLedger} {items : List Item}

theorem restore_of_ok {p : Pass} (h : judgeChunks loads env ledger.completions .start (chunksOf restoreChunk items) = .ok p) :
    ledger.restore loads env items = ({ ledger with accepted := p.accepted }, some (p.remaining,
      { successful := p.successful, outcomeCounts := p.outcomeCounts, publishersAggregate := p.publishersAggregate })) := by
  rw [CompletionLedger.restore, h]

theorem restore_of_error {p : Pass}
    (h : judgeChunks loads env ledger.completions .start (chunksOf restoreChunk items) = .error p) :
    ledger.restore loads env items = ({ ledger with accepted := p.accepted }, none) := by
  rw [CompletionLedger.restore, h]

/-- The paths stored for the accepted files are the accepted files' paths. -/
theorem stored_perm (hpaths : (items.map Item.canonicalPath).Nodup) (hcompletions : ledger'.completions = ledger.completions)
    (haccepted : ∀ path ∈ ledger'.accepted, ∃ item ∈ items, item.canonicalPath = path)
    (hcreditable : ∀ item ∈ items, item.canonicalPath ∈ ledger'.accepted →
      ∃ row, Creditable loads env ledger.completions item row) :
    List.Perm ((ledger'.completions.filter fun stored => stored.1 ∈ ledger'.accepted).map Prod.fst)
      ((items.filter fun item => item.canonicalPath ∈ ledger'.accepted).map Item.canonicalPath) := by
  have hstored : ((ledger'.completions.filter fun stored => stored.1 ∈ ledger'.accepted).map Prod.fst).Nodup :=
    ledger'.nodup.sublist (List.filter_sublist.map _)
  have hitems : ((items.filter fun item => item.canonicalPath ∈ ledger'.accepted).map Item.canonicalPath).Nodup :=
    hpaths.sublist (List.filter_sublist.map _)
  rw [List.perm_ext_iff_of_nodup hstored hitems]
  intro path
  simp only [List.mem_map, List.mem_filter, decide_eq_true_eq]
  constructor
  · rintro ⟨stored, ⟨-, hmem⟩, rfl⟩
    obtain ⟨item, hitem, hpath⟩ := haccepted stored.1 hmem
    exact ⟨item, ⟨hitem, hpath ▸ hmem⟩, hpath⟩
  · rintro ⟨item, ⟨hitem, hmem⟩, rfl⟩
    obtain ⟨row, hrow⟩ := hcreditable item hitem hmem
    obtain ⟨text, -, hget, -⟩ := hrow.stored
    exact ⟨(item.canonicalPath, text), ⟨hcompletions ▸ Dict.mem_of_get? hget, hmem⟩, rfl⟩

/-- The stored row of an accepted file is the row it is credited for. -/
theorem exists_creditable_of_stored (hcompletions : ledger'.completions = ledger.completions)
    (haccepted : ∀ path ∈ ledger'.accepted, ∃ item ∈ items, item.canonicalPath = path)
    (hcreditable : ∀ item ∈ items, item.canonicalPath ∈ ledger'.accepted →
      ∃ row, Creditable loads env ledger.completions item row) {stored : String × String}
    (hstored : stored ∈ ledger'.completions) (hmem : stored.1 ∈ ledger'.accepted) :
    ∃ item ∈ items, ∃ row, Creditable loads env ledger.completions item row ∧ loads stored.2 = .value (.dict row) := by
  obtain ⟨item, hitem, hpath⟩ := haccepted stored.1 hmem
  obtain ⟨row, hrow⟩ := hcreditable item hitem (hpath ▸ hmem)
  obtain ⟨text, -, hget, hload⟩ := hrow.stored
  have htext : Dict.get? ledger.completions item.canonicalPath = some stored.2 := by
    rw [Dict.get?_eq_some_iff ledger.nodup, hpath]
    exact hcompletions ▸ hstored
  obtain rfl : text = stored.2 := Option.some.inj (hget.symm.trans htext)
  exact ⟨item, hitem, row, hrow, hload⟩

/-- **The results are listed** exactly when every accepted file's row has a message. -/
theorem results_iff (hpaths : (items.map Item.canonicalPath).Nodup) (hcompletions : ledger'.completions = ledger.completions)
    (haccepted : ∀ path ∈ ledger'.accepted, ∃ item ∈ items, item.canonicalPath = path)
    (hcreditable : ∀ item ∈ items, item.canonicalPath ∈ ledger'.accepted ↔
      ∃ row, Creditable loads env ledger.completions item row) :
    (∃ results, ledger'.currentResults loads = some results ∧
      List.Forall₂ (ListsRow loads) (ledger'.completions.filter fun stored => stored.1 ∈ ledger'.accepted) results ∧
      List.Perm (results.map PreviousResult.file)
        ((items.filter fun item => item.canonicalPath ∈ ledger'.accepted).map Item.canonicalPath)) ↔
    ∀ item ∈ items, ∀ row, Creditable loads env ledger.completions item row → (Dict.get? row "message").isSome = true := by
  have hcredit := fun item hitem => (hcreditable item hitem).1
  simp only [CompletionLedger.currentResults, mapM_eq_some_iff]
  constructor
  · rintro ⟨results, hresults, -⟩ item hitem row hrow
    obtain ⟨text, -, hget, hload⟩ := hrow.stored
    have hmem : (item.canonicalPath, text) ∈ ledger'.completions.filter fun stored => stored.1 ∈ ledger'.accepted := by
      rw [List.mem_filter, decide_eq_true_eq, hcompletions]
      exact ⟨Dict.mem_of_get? hget, (hcreditable item hitem).2 ⟨row, hrow⟩⟩
    obtain ⟨result, hresult⟩ := exists_of_forall₂ hresults hmem
    have hload : loads (item.canonicalPath, text).2 = .value (.dict row) := hload
    obtain ⟨outcome, servers, -, -, heq⟩ := hrow.resultOf_eq hload
    rw [heq] at hresult
    cases hmessage : Dict.get? row "message" with
    | none =>
      rw [hmessage] at hresult
      cases hresult
    | some message => rfl
  · intro hmessage
    obtain ⟨results, hresults⟩ : ∃ results, List.Forall₂ (fun stored result => resultOf loads stored = some result ∧
        ListsRow loads stored result) (ledger'.completions.filter fun stored => stored.1 ∈ ledger'.accepted) results := by
      refine exists_forall₂ fun stored hstored => ?_
      rw [List.mem_filter, decide_eq_true_eq] at hstored
      obtain ⟨item, hitem, row, hrow, hload⟩ :=
        exists_creditable_of_stored hcompletions haccepted hcredit hstored.1 hstored.2
      obtain ⟨outcome, servers, houtcome, hservers, heq⟩ := hrow.resultOf_eq hload
      obtain ⟨message, hget⟩ := Option.isSome_iff_exists.1 (hmessage item hitem row hrow)
      refine ⟨⟨stored.1, outcome, servers.map previousServer, message⟩, ?_, rfl, row, servers, hload, houtcome, hservers,
        rfl, hget⟩
      rw [heq, hget]
      rfl
    refine ⟨results, hresults.imp fun _ _ h => h.1, hresults.imp fun _ _ h => h.2, ?_⟩
    have hfiles : (ledger'.completions.filter fun stored => stored.1 ∈ ledger'.accepted).map Prod.fst =
        results.map PreviousResult.file := by
      rw [← List.forall₂_eq_eq_eq, List.forall₂_map_left_iff, List.forall₂_map_right_iff]
      exact hresults.imp fun _ _ h => h.2.file.symm
    exact hfiles ▸ stored_perm hpaths hcompletions haccepted hcredit

end Restored

/-- **Resuming credits exactly the verified files**, provided no row that credits a file lacks a message: then all of
`Resumed` holds, otherwise the results cannot be listed. Where it raises nothing is accepted but files that may be
credited. -/
theorem restore_spec (ledger : CompletionLedger) (loads : String → Loaded) (env : Env) (items : List Item)
    (hpaths : (items.map Item.canonicalPath).Nodup) :
    (∀ remaining state, (ledger.restore loads env items).2 = some (remaining, state) →
      (Resumed loads env ledger (ledger.restore loads env items).1 items remaining state ↔
        ∀ item ∈ items, ∀ row, Creditable loads env ledger.completions item row →
          (Dict.get? row "message").isSome = true)) ∧
    ((ledger.restore loads env items).2 = none →
      ∀ path ∈ (ledger.restore loads env items).1.accepted, ∃ item ∈ items, item.canonicalPath = path ∧
        ∃ row, Creditable loads env ledger.completions item row) := by
  have hspec := @judgeChunks_spec loads env ledger.completions (chunksOf restoreChunk items) [] .start (Judged.start _)
  rw [flatten_chunksOf (by decide), List.nil_append] at hspec
  obtain ⟨p, hok, hp⟩ | ⟨p, herror, haccepted⟩ := hspec
  · rw [restore_of_ok hok]
    refine ⟨fun remaining state h => ?_, fun h => absurd h (Option.some_ne_none _)⟩
    obtain ⟨rfl, rfl⟩ := Prod.mk.inj (Option.some.inj h)
    -- Paths are told apart, so a file whose path is accepted is the one that was credited.
    have hcredits : ∀ item ∈ items, item.canonicalPath ∈ p.accepted ↔ credits loads env ledger.completions item = true := by
      refine fun item hitem => ⟨fun hmem => ?_, hp.credited item hitem⟩
      obtain ⟨other, hother, hcredit, hpath⟩ := hp.accepted _ hmem
      obtain rfl := List.inj_on_of_nodup_map hpaths hother hitem hpath
      exact hcredit
    have hcreditable : ∀ item ∈ items, item.canonicalPath ∈ p.accepted ↔
        ∃ row, Creditable loads env ledger.completions item row := fun item hitem =>
      (hcredits item hitem).trans credits_iff
    have haccepted : ∀ path ∈ p.accepted, ∃ item ∈ items, item.canonicalPath = path := fun path hpath =>
      (hp.accepted path hpath).imp fun _ h => ⟨h.1, h.2.2⟩
    have hlisted := @results_iff loads env ledger ⟨ledger.completions, p.accepted, ledger.nodup⟩ items hpaths rfl haccepted
      hcreditable
    rw [← hlisted]
    refine ⟨Resumed.results, fun hresults => ⟨?_, haccepted, ?_, hp.counts, hcreditable, rfl, hresults⟩⟩
    · rw [hp.remaining]
      refine List.filter_congr fun item hitem => ?_
      rw [decide_not, Bool.eq_iff_iff.2 (decide_eq_true_iff.trans (hcredits item hitem))]
    · dsimp only
      rw [hp.successful]
      refine congrArg _ (List.filter_congr fun item hitem => ?_)
      exact (Bool.eq_iff_iff.2 ((hcredits item hitem).symm.trans decide_eq_true_iff.symm))
  · rw [restore_of_error herror]
    refine ⟨fun _ _ h => absurd h.symm (Option.some_ne_none _), fun _ path hpath => ?_⟩
    obtain ⟨item, hitem, hcredit, rfl⟩ := haccepted path hpath
    exact ⟨item, hitem, rfl, credits_iff.1 hcredit⟩

/-! ### A row without a message -/

/-- An episode. -/
def episode : Item := ⟨"/m/e1.mkv", "", [("plex", "7")]⟩

/-- Its fingerprint. -/
def episodeSource : SourceFingerprint := ⟨"/m/e1.mkv", 1, 2, 3, 4, 5⟩

/-- Its row, whatever is stored after the servers. -/
def episodeRow (rest : Entries) : Entries :=
  [("version", .int 1),
    ("source", .list [.str "/m/e1.mkv", .int 1, .int 2, .int 3, .int 4, .int 5]),
    ("server_id", .str ""),
    ("item_id_by_server", .dict [("plex", .str "7")]),
    ("outcome", .str "loudness_written"),
    ("servers", .list [.dict [("server_id", .str "plex"), ("server_type", .str "plex"), ("status", .str "loudness_written")]])] ++
    rest

/-- The row as it is stored. -/
def episodeText (rest : String) : String :=
  "\x7b\"version\":1,\"source\":[\"/m/e1.mkv\",1,2,3,4,5],\"server_id\":\"\",\"item_id_by_server\":\x7b\"plex\":\"7\"\x7d," ++
  "\"outcome\":\"loudness_written\",\"servers\":[\x7b\"server_id\":\"plex\",\"server_type\":\"plex\"," ++
  "\"status\":\"loudness_written\"\x7d]" ++ rest ++ "\x7d"

/-- The ledger with this one row. -/
def episodeLedger (rest : String) : CompletionLedger := ⟨[("/m/e1.mkv", episodeText rest)], ∅, by simp⟩

/-- The row is read back. -/
def episodeLoads (text : String) (rest : Entries) : String → Loaded := fun encoded =>
  if encoded = episodeText text then .value (.dict (episodeRow rest)) else .malformed

/-- The file never changes, and the check says up to date for the row's server. -/
def upToDate : Env where
  before := fun _ => some episodeSource
  check := fun _ => some (some ⟨"loudness_up_to_date", [[("server_id", .str "plex")]]⟩)
  after := fun _ => some (some episodeSource)
  cancelled := fun _ => false
  progressRaises := fun _ => false

/-- A row without a message: the file is credited, and the results cannot be listed. -/
theorem not_resumed_without_message :
    ([episode].map Item.canonicalPath).Nodup ∧
      ∃ remaining state, ((episodeLedger "").restore (episodeLoads "" []) upToDate [episode]).2 = some (remaining, state) ∧
        ¬ Resumed (episodeLoads "" []) upToDate (episodeLedger "")
          ((episodeLedger "").restore (episodeLoads "" []) upToDate [episode]).1 [episode] remaining state := by
  have hreturns : ((episodeLedger "").restore (episodeLoads "" []) upToDate [episode]).2.isSome = true := by decide +kernel
  have hraises : (((episodeLedger "").restore (episodeLoads "" []) upToDate [episode]).1.currentResults
    (episodeLoads "" [])).isNone = true := by decide +kernel
  obtain ⟨⟨remaining, state⟩, hrestore⟩ := Option.isSome_iff_exists.1 hreturns
  refine ⟨List.nodup_singleton _, remaining, state, hrestore, fun h => ?_⟩
  obtain ⟨results, hresults, -⟩ := h.results
  rw [Option.isNone_iff_eq_none.1 hraises] at hresults
  cases hresults

/-- With the message nothing is wrong. -/
theorem resumed_with_message :
    ∃ remaining state, ((episodeLedger ",\"message\":\"Done\"").restore
        (episodeLoads ",\"message\":\"Done\"" [("message", .str "Done")]) upToDate [episode]).2 = some (remaining, state) ∧
      Resumed (episodeLoads ",\"message\":\"Done\"" [("message", .str "Done")]) upToDate
        (episodeLedger ",\"message\":\"Done\"")
        ((episodeLedger ",\"message\":\"Done\"").restore
          (episodeLoads ",\"message\":\"Done\"" [("message", .str "Done")]) upToDate [episode]).1
        [episode] remaining state := by
  have hreturns : ((episodeLedger ",\"message\":\"Done\"").restore
      (episodeLoads ",\"message\":\"Done\"" [("message", .str "Done")]) upToDate [episode]).2.isSome = true := by
    decide +kernel
  obtain ⟨⟨remaining, state⟩, hrestore⟩ := Option.isSome_iff_exists.1 hreturns
  refine ⟨remaining, state, hrestore, ((restore_spec _ _ upToDate [episode] (List.nodup_singleton _)).1 _ _ hrestore).2 ?_⟩
  intro item hitem row hrow
  obtain rfl := List.mem_singleton.1 hitem
  obtain ⟨text, -, hget, hload⟩ := hrow.stored
  obtain rfl := Option.some.inj hget
  rw [episodeLoads, if_pos rfl] at hload
  obtain rfl := PyValue.dict.inj (Loaded.value.inj hload)
  rfl

end MediaPreview.Loudness
