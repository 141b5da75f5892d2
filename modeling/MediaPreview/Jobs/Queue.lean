import MediaPreview.Jobs.Gate

/-!
# The queue at the gate

What every operation of the gate keeps (`Gate.Sound`): each entry of the heap has a kind, no
token and no place in the queue is in it twice, and an entry belongs to the request with its
token or, where there is none, to a caller that came without one.

Most operations only take things away or change what is not compared (`Gate.Shrinks`); two add
an entry, of a request or of a new caller. A token whose request is gone stays out of the queue
for good (`Gate.Dead`), since an entry is only ever added for a request or for a new token.
-/

namespace MediaPreview.Jobs

/-- What of an entry never changes. -/
def Entry.place (e : Entry) : Token × Order := (e.token, e.order)

namespace Gate

/-- What holds of a gate between two operations. -/
structure Sound (g : Gate) : Prop where
  /-- Every entry has its kind. -/
  kinds : ∀ e ∈ g.heap, (g.waiterKinds e.token).isSome
  /-- No token is queued twice. -/
  tokens : (g.heap.map Entry.token).Nodup
  /-- No place is taken twice. -/
  orders : (g.heap.map Entry.order).Nodup
  /-- The tokens of entries exist. -/
  entry_lt : ∀ e ∈ g.heap, e.token < g.created
  /-- The tokens of requests exist. -/
  request_lt : ∀ r ∈ g.requests, r.token < g.created
  /-- A job has a creation time. -/
  dated : ∀ r ∈ g.requests, r.createdAt ≠ ""
  /-- No two requests share a token. -/
  unique : ∀ r ∈ g.requests, ∀ r' ∈ g.requests, r.token = r'.token → r = r'
  /-- An entry is its request's, or a caller's that came without one. -/
  placed : ∀ e ∈ g.heap, (∃ r ∈ g.requests, r.token = e.token ∧ r.order = e.order) ∨
    (∀ r ∈ g.requests, r.token ≠ e.token) ∧ ∃ n < g.seq, e.order = toLex ("", padded n)

/-- A token that is neither queued nor of a request. -/
structure Dead (g : Gate) (token : Token) : Prop where
  lt : token < g.created
  request : ∀ r ∈ g.requests, r.token ≠ token
  entry : ∀ e ∈ g.heap, e.token ≠ token

theorem sound_empty : empty.Sound where
  kinds := by simp [empty]
  tokens := by simp [empty]
  orders := by simp [empty]
  entry_lt := by simp [empty]
  request_lt := by simp [empty]
  dated := by simp [empty]
  unique := by simp [empty]
  placed := by simp [empty]

/-! ### Taking away -/

/-- What `g'` has, `g` had: no entry is new or moves to another place, no request is new, and a request with an
entry stays. -/
structure Shrinks (g g' : Gate) : Prop where
  entries : (g'.heap.map Entry.place).Sublist (g.heap.map Entry.place)
  requests : ∀ r' ∈ g'.requests, ∃ r ∈ g.requests,
    r.token = r'.token ∧ r.jobId = r'.jobId ∧ r.createdAt = r'.createdAt
  kept : ∀ e ∈ g'.heap, ∀ r ∈ g.requests, r.token = e.token → ∃ r' ∈ g'.requests, r'.token = r.token ∧
    r'.order = r.order
  kinds : ∀ e ∈ g'.heap, (g.waiterKinds e.token).isSome → (g'.waiterKinds e.token).isSome
  created : g.created ≤ g'.created
  seq : g'.seq = g.seq

namespace Shrinks

variable {g g' : Gate}

theorem entry (h : Shrinks g g') {e : Entry} (he : e ∈ g'.heap) :
    ∃ e₀ ∈ g.heap, e₀.token = e.token ∧ e₀.order = e.order := by
  have hplace : e.place ∈ g.heap.map Entry.place := h.entries.mem (List.mem_map_of_mem he)
  obtain ⟨e₀, he₀, heq⟩ := List.mem_map.1 hplace
  exact ⟨e₀, he₀, congrArg Prod.fst heq, congrArg Prod.snd heq⟩

/-- **Taking away keeps a sound gate sound.** -/
theorem sound (h : Shrinks g g') (hg : g.Sound) : g'.Sound where
  kinds e he := by
    obtain ⟨e₀, he₀, htoken, -⟩ := h.entry he
    exact h.kinds e he (htoken ▸ hg.kinds e₀ he₀)
  tokens := by
    have hsub := h.entries.map Prod.fst
    rw [List.map_map, List.map_map] at hsub
    exact hg.tokens.sublist hsub
  orders := by
    have hsub := h.entries.map Prod.snd
    rw [List.map_map, List.map_map] at hsub
    exact hg.orders.sublist hsub
  entry_lt e he := by
    obtain ⟨e₀, he₀, htoken, -⟩ := h.entry he
    exact htoken ▸ (hg.entry_lt e₀ he₀).trans_le h.created
  request_lt r hr := by
    obtain ⟨r₀, hr₀, htoken, -⟩ := h.requests r hr
    exact htoken ▸ (hg.request_lt r₀ hr₀).trans_le h.created
  dated r hr := by
    obtain ⟨r₀, hr₀, -, -, hdate⟩ := h.requests r hr
    exact hdate ▸ hg.dated r₀ hr₀
  unique r hr r' hr' htoken := by
    obtain ⟨r₀, hr₀, ht, hj, -⟩ := h.requests r hr
    obtain ⟨r₀', hr₀', ht', hj', -⟩ := h.requests r' hr'
    have hsame : r₀ = r₀' := hg.unique r₀ hr₀ r₀' hr₀' (by rw [ht, ht', htoken])
    exact Table.eq_of_key hr hr' (by rw [← hj, ← hj', hsame])
  placed e he := by
    obtain ⟨e₀, he₀, htoken, horder⟩ := h.entry he
    obtain ⟨r, hr, ht, ho⟩ | ⟨hno, n, hn, ho⟩ := hg.placed e₀ he₀
    · obtain ⟨r', hr', ht', ho'⟩ := h.kept e he r hr (ht.trans htoken)
      exact Or.inl ⟨r', hr', by rw [ht', ht, htoken], by rw [ho', ho, horder]⟩
    · refine Or.inr ⟨fun r' hr' hr't => ?_, n, h.seq ▸ hn, horder ▸ ho⟩
      obtain ⟨r, hr, ht, -⟩ := h.requests r' hr'
      exact hno r hr (by rw [ht, hr't, htoken])

/-- A token out of the queue does not come back. -/
theorem dead (h : Shrinks g g') {token : Token} (hd : g.Dead token) : g'.Dead token where
  lt := hd.lt.trans_le h.created
  request r hr := by
    obtain ⟨r₀, hr₀, ht, -⟩ := h.requests r hr
    exact ht ▸ hd.request r₀ hr₀
  entry e he := by
    obtain ⟨e₀, he₀, ht, -⟩ := h.entry he
    exact ht ▸ hd.entry e₀ he₀

end Shrinks

theorem shrinks_refl (g : Gate) : Shrinks g g where
  entries := List.Sublist.refl _
  requests r hr := ⟨r, hr, rfl, rfl, rfl⟩
  kept _ _ r hr _ := ⟨r, hr, rfl, rfl⟩
  kinds _ _ h := h
  created := le_rfl
  seq := rfl

theorem Shrinks.trans {g g' g'' : Gate} (h : Shrinks g g') (h' : Shrinks g' g'') : Shrinks g g'' where
  entries := h'.entries.trans h.entries
  requests r'' hr'' := by
    obtain ⟨r', hr', ht', hj', hc'⟩ := h'.requests r'' hr''
    obtain ⟨r, hr, ht, hj, hc⟩ := h.requests r' hr'
    exact ⟨r, hr, ht.trans ht', hj.trans hj', hc.trans hc'⟩
  kept e he r hr ht := by
    obtain ⟨e', he', hte, -⟩ := h'.entry he
    obtain ⟨r', hr', ht', ho'⟩ := h.kept e' he' r hr (ht.trans hte.symm)
    obtain ⟨r'', hr'', ht'', ho''⟩ := h'.kept e he r' hr' (by rw [ht', ht])
    exact ⟨r'', hr'', ht''.trans ht', ho''.trans ho'⟩
  kinds e he hk := by
    obtain ⟨e', he', hte, -⟩ := h'.entry he
    exact h'.kinds e he (hte ▸ h.kinds e' he' (hte.symm ▸ hk))
  created := h.created.trans h'.created
  seq := h'.seq.trans h.seq

/-- An operation that changes one job's request, and of the entries at most their priorities. -/
theorem shrinks_of_change {g g' : Gate} {jobId : String} {f : Request → Request}
    (hrequests : g'.requests.rows = g.requests.rows.map fun r => if decide (r.jobId = jobId) then f r else r)
    (hjob : ∀ r, (f r).jobId = r.jobId) (htoken : ∀ r, (f r).token = r.token)
    (hdate : ∀ r, (f r).createdAt = r.createdAt) (hheap : g'.heap.map Entry.place = g.heap.map Entry.place)
    (hkinds : g'.waiterKinds = g.waiterKinds) (hcreated : g.created ≤ g'.created) (hseq : g'.seq = g.seq) :
    Shrinks g g' where
  entries := by rw [hheap]
  requests r' hr' := by
    rw [Table.mem_def, hrequests, List.mem_map] at hr'
    obtain ⟨r, hr, rfl⟩ := hr'
    refine ⟨r, hr, ?_⟩
    split
    · exact ⟨(htoken r).symm, (hjob r).symm, (hdate r).symm⟩
    · exact ⟨rfl, rfl, rfl⟩
  kept _ _ r hr _ := by
    refine ⟨if decide (r.jobId = jobId) then f r else r, ?_, ?_⟩
    · rw [Table.mem_def, hrequests]
      exact List.mem_map_of_mem hr
    · split
      · exact ⟨htoken r, by rw [Request.order, hjob r, hdate r, Request.order]⟩
      · exact ⟨rfl, rfl⟩
  kinds _ _ h := by rwa [hkinds]
  created := hcreated
  seq := hseq

/-- An operation that takes a token's entries away, and perhaps its kind. -/
theorem shrinks_of_drop {g g' : Gate} (token : Token) (hrequests : g'.requests = g.requests)
    (hheap : g'.heap = g.dropEntry token) (hkinds : ∀ t, t ≠ token → g'.waiterKinds t = g.waiterKinds t)
    (hcreated : g'.created = g.created) (hseq : g'.seq = g.seq) : Shrinks g g' where
  entries := by
    rw [hheap]
    exact List.filter_sublist.map _
  requests r hr := ⟨r, hrequests ▸ hr, rfl, rfl, rfl⟩
  kept _ _ r hr _ := ⟨r, hrequests ▸ hr, rfl, rfl⟩
  kinds e he h := by
    rw [hheap, dropEntry, List.mem_filter, decide_eq_true_eq] at he
    rwa [hkinds e.token he.2]
  created := hcreated.ge
  seq := hseq

theorem notMem_dropEntry {g : Gate} {token : Token} {e : Entry} (he : e ∈ g.dropEntry token) : e.token ≠ token := by
  rw [dropEntry, List.mem_filter, decide_eq_true_eq] at he
  exact he.2

theorem shrinks_claimRequest (g : Gate) (jobId : String) : Shrinks g (g.claimRequest jobId).1 := by
  unfold claimRequest
  split
  · split
    · exact shrinks_refl g
    · exact shrinks_of_change rfl (fun _ => rfl) (fun _ => rfl) (fun _ => rfl) rfl rfl (Nat.le_succ _) rfl
  · exact shrinks_refl g

theorem shrinks_completePreflight (g : Gate) (jobId : String) : Shrinks g (g.completePreflight jobId) := by
  unfold completePreflight
  split
  · exact shrinks_of_change rfl (fun _ => rfl) (fun _ => rfl) (fun _ => rfl) rfl rfl le_rfl rfl
  · exact shrinks_refl g

theorem shrinks_deferPreflight (g : Gate) (jobId : String) : Shrinks g (g.deferPreflight jobId) := by
  unfold deferPreflight
  split
  · exact shrinks_of_change rfl (fun _ => rfl) (fun _ => rfl) (fun _ => rfl) rfl rfl le_rfl rfl
  · exact shrinks_refl g

theorem shrinks_reprioritize (g : Gate) (jobId : String) (priority : ℤ) :
    Shrinks g (g.reprioritize jobId priority) := by
  unfold reprioritize
  split
  · refine shrinks_of_change rfl (fun _ => rfl) (fun _ => rfl) (fun _ => rfl) ?_ rfl le_rfl rfl
    rw [List.map_map]
    refine List.map_congr_left fun e _ => ?_
    simp only [Function.comp]
    split <;> rfl
  · exact shrinks_refl g

/-- **A finished request leaves no entry and no request.** -/
theorem finishRequest_of_mem {g : Gate} (hg : g.Sound) {r : Request} (hr : r ∈ g.requests) :
    Shrinks g (g.finishRequest r.jobId r.owner) ∧ (g.finishRequest r.jobId r.owner).Dead r.token := by
  have hfind : g.requests.get? (·.jobId = r.jobId) = some r := by
    cases hget : g.requests.get? (·.jobId = r.jobId) with
    | none => simpa using Table.get?_eq_none.1 hget r hr
    | some r' =>
      obtain ⟨hr', hjob⟩ := Table.of_get? hget
      rw [Table.eq_of_key hr' hr (of_decide_eq_true hjob)]
  have hgate : g.finishRequest r.jobId r.owner =
      { g with requests := g.requests.delete (·.jobId = r.jobId)
               heap := g.dropEntry r.token
               waiterKinds := Function.update g.waiterKinds r.token none
               policyEpoch := g.policyEpoch + 1 } := by
    rw [finishRequest, hfind]
    exact if_neg fun h => h rfl
  rw [hgate]
  constructor
  · constructor
    · exact List.filter_sublist.map _
    · exact fun r' hr' => ⟨r', (Table.mem_delete.1 hr').1, rfl, rfl, rfl⟩
    · intro e he r' hr' htoken
      refine ⟨r', Table.mem_delete.2 ⟨hr', ?_⟩, rfl, rfl⟩
      rw [decide_eq_false_iff_not]
      intro hjob
      rw [Table.eq_of_key hr' hr hjob] at htoken
      exact notMem_dropEntry he htoken.symm
    · intro e he h
      dsimp only
      rwa [Function.update_of_ne (notMem_dropEntry he)]
    · exact le_rfl
    · rfl
  · constructor
    · exact hg.request_lt r hr
    · intro r' hr' htoken
      obtain ⟨hmem, hjob⟩ := Table.mem_delete.1 hr'
      rw [hg.unique r' hmem r hr htoken] at hjob
      simp at hjob
    · exact fun e he => notMem_dropEntry he

theorem shrinks_finishRequest {g : Gate} (hg : g.Sound) (jobId : String) (owner : Option Token) :
    Shrinks g (g.finishRequest jobId owner) := by
  cases hget : g.requests.get? (·.jobId = jobId) with
  | none =>
    rw [finishRequest, hget]
    exact shrinks_refl g
  | some r =>
    obtain ⟨hr, hjob⟩ := Table.of_get? hget
    obtain rfl : r.jobId = jobId := of_decide_eq_true hjob
    by_cases howner : r.owner = owner
    · subst howner
      exact (finishRequest_of_mem hg hr).1
    · rw [finishRequest, hget]
      dsimp only
      rw [if_pos howner]
      exact shrinks_refl g

/-! ### Refreshing -/

theorem requestOf_of_mem {g : Gate} (hg : g.Sound) {r : Request} (hr : r ∈ g.requests) :
    g.requestOf r.token = some r := by
  cases hget : g.requestOf r.token with
  | none => simpa using Table.get?_eq_none.1 hget r hr
  | some r' =>
    obtain ⟨hr', htoken⟩ := Table.of_get? hget
    rw [hg.unique r' hr' r hr (of_decide_eq_true htoken)]

theorem refreshed_place (copied : Snapshot) (answers : Token → Answer) (r : Request) :
    (refreshed copied answers r).token = r.token ∧ (refreshed copied answers r).jobId = r.jobId ∧
      (refreshed copied answers r).createdAt = r.createdAt := by
  unfold refreshed
  split
  · split <;> exact ⟨rfl, rfl, rfl⟩
  · exact ⟨rfl, rfl, rfl⟩

/-- A list filtered and changed has, of what the changes leave alone, a part of what it had. -/
theorem filterMap_place_sublist {f : Entry → Option Entry} (hf : ∀ e e', f e = some e' → e'.place = e.place)
    (heap : List Entry) : ((heap.filterMap f).map Entry.place).Sublist (heap.map Entry.place) := by
  induction heap with
  | nil => exact List.Sublist.refl _
  | cons e heap ih =>
    rw [List.filterMap_cons, List.map_cons]
    cases hfe : f e with
    | none => exact ih.cons _
    | some e' =>
      dsimp only
      rw [List.map_cons, hf e e' hfe]
      exact ih.cons_cons _

/-- **A merge keeps every entry whose request it keeps.** -/
theorem shrinks_merge {g : Gate} (hg : g.Sound) (copied : Snapshot) (answers : Token → Answer)
    (limits : String → Option ℕ) : Shrinks g (g.merge copied answers limits) where
  entries := by
    refine filterMap_place_sublist ?_ g.heap
    intro e e' he
    split at he
    · split at he
      · cases he
      · cases he
        rfl
    · cases he
      rfl
  requests r' hr' := by
    unfold merge at hr'
    rw [Table.mem_update] at hr'
    obtain ⟨r, hr, rfl⟩ := hr'
    rw [if_pos rfl]
    obtain ⟨ht, hj, hc⟩ := refreshed_place copied answers r
    exact ⟨r, (Table.mem_delete.1 hr).1, ht.symm, hj.symm, hc.symm⟩
  kept e' he' r hr htoken := by
    obtain ⟨e, -, he⟩ := List.mem_filterMap.1 he'
    have hof : g.requestOf e.token = some r := by
      have hplace : e.token = r.token := by
        rw [htoken]
        split at he
        · split at he
          · cases he
          · cases he
            rfl
        · cases he
          rfl
      rw [hplace]
      exact requestOf_of_mem hg hr
    rw [hof] at he
    dsimp only at he
    split at he
    · cases he
    · rename_i hkeep
      obtain ⟨ht, hj, hc⟩ := refreshed_place copied answers r
      refine ⟨refreshed copied answers r, ?_, ht, ?_⟩
      · unfold merge
        rw [Table.mem_update]
        exact ⟨r, Table.mem_delete.2 ⟨hr, Bool.eq_false_iff.2 hkeep⟩, if_pos rfl⟩
      · rw [Request.order, hj, hc, Request.order]
  kinds e' he' h := by
    obtain ⟨e, -, he⟩ := List.mem_filterMap.1 he'
    unfold merge
    dsimp only
    cases hof : g.requestOf e.token with
    | none =>
      rw [hof] at he
      obtain rfl := Option.some.inj he
      rw [hof]
      exact h
    | some r =>
      rw [hof] at he
      dsimp only at he
      split at he
      · cases he
      · rename_i hkeep
        cases he
        dsimp only
        rw [hof]
        dsimp only
        rw [if_neg hkeep]
        exact h
  created := le_rfl
  seq := rfl

/-! ### Adding -/

/-- The operations that add an entry give it the token of a request or a new one. -/
theorem sound_push {g g' : Gate} {e : Entry} (hg : g.Sound) (hheap : g'.heap = g.heap ++ [e])
    (hrequests : g'.requests = g.requests) (hkinds : g'.waiterKinds e.token ≠ none)
    (hothers : ∀ t, t ≠ e.token → g'.waiterKinds t = g.waiterKinds t) (hcreated : g.created ≤ g'.created)
    (hseq : g.seq ≤ g'.seq) (hlt : e.token < g'.created) (hnew : ∀ e' ∈ g.heap, e'.token ≠ e.token)
    (hplace : (∃ r ∈ g.requests, r.token = e.token ∧ r.order = e.order) ∨
      (∀ r ∈ g.requests, r.token ≠ e.token) ∧ g.seq < g'.seq ∧ e.order = toLex ("", padded g.seq)) :
    g'.Sound := by
  have hcases : ∀ e' ∈ g'.heap, e' ∈ g.heap ∨ e' = e := by
    intro e' he'
    rw [hheap, List.mem_append, List.mem_singleton] at he'
    exact he'
  have horder : ∀ e' ∈ g.heap, e'.order ≠ e.order := by
    intro e' he' heq
    obtain ⟨r', hr', ht', ho'⟩ | ⟨-, n, hn, ho'⟩ := hg.placed e' he'
    · obtain ⟨r, hr, ht, ho⟩ | ⟨-, -, ho⟩ := hplace
      · have hjob : r'.jobId = r.jobId := by
          have horders : r'.order = r.order := by rw [ho', ho, heq]
          exact congrArg (fun o : Order => (ofLex o).2) horders
        exact hnew e' he' (by rw [← ht', Table.eq_of_key hr' hr hjob, ht])
      · have horders : r'.order = toLex ("", padded g.seq) := by rw [ho', heq, ho]
        exact hg.dated r' hr' (congrArg (fun o : Order => (ofLex o).1) horders)
    · obtain ⟨r, hr, -, ho⟩ | ⟨-, -, ho⟩ := hplace
      · have horders : r.order = toLex ("", padded n) := by rw [ho, ← heq, ho']
        exact hg.dated r hr (congrArg (fun o : Order => (ofLex o).1) horders)
      · have horders : padded n = padded g.seq := by
          rw [heq, ho] at ho'
          exact (congrArg (fun o : Order => (ofLex o).2) ho').symm
        exact hn.ne (padded_injective horders)
  constructor
  · intro e' he'
    obtain hold | rfl := hcases e' he'
    · rw [hothers _ (hnew e' hold)]
      exact hg.kinds e' hold
    · exact Option.isSome_iff_ne_none.2 hkinds
  · rw [hheap, List.map_append, List.map_singleton, List.nodup_append]
    refine ⟨hg.tokens, List.nodup_singleton _, ?_⟩
    intro t ht t' ht'
    obtain ⟨e', he', rfl⟩ := List.mem_map.1 ht
    rw [List.mem_singleton.1 ht']
    exact hnew e' he'
  · rw [hheap, List.map_append, List.map_singleton, List.nodup_append]
    refine ⟨hg.orders, List.nodup_singleton _, ?_⟩
    intro o ho o' ho'
    obtain ⟨e', he', rfl⟩ := List.mem_map.1 ho
    rw [List.mem_singleton.1 ho']
    exact horder e' he'
  · intro e' he'
    obtain hold | rfl := hcases e' he'
    · exact (hg.entry_lt e' hold).trans_le hcreated
    · exact hlt
  · intro r hr
    rw [hrequests] at hr
    exact (hg.request_lt r hr).trans_le hcreated
  · intro r hr
    rw [hrequests] at hr
    exact hg.dated r hr
  · intro r hr r' hr'
    rw [hrequests] at hr hr'
    exact hg.unique r hr r' hr'
  · intro e' he'
    rw [hrequests]
    obtain hold | rfl := hcases e' he'
    · exact (hg.placed e' hold).imp_right fun ⟨hno, n, hn, ho⟩ => ⟨hno, n, hn.trans_le hseq, ho⟩
    · exact hplace.imp_right fun ⟨hno, hn, ho⟩ => ⟨hno, g.seq, hn, ho⟩

/-- A token that stays dead when an entry is added: it is not the entry's. -/
theorem dead_push {g g' : Gate} {e : Entry} {token : Token} (hd : g.Dead token) (hheap : g'.heap = g.heap ++ [e])
    (hrequests : ∀ r ∈ g'.requests, r ∈ g.requests ∨ r.token = e.token) (hcreated : g.created ≤ g'.created)
    (hne : e.token ≠ token) : g'.Dead token where
  lt := hd.lt.trans_le hcreated
  request r hr := by
    obtain hold | hnew := hrequests r hr
    · exact hd.request r hold
    · rwa [hnew]
  entry e' he' := by
    rw [hheap, List.mem_append, List.mem_singleton] at he'
    obtain hold | rfl := he'
    · exact hd.entry e' hold
    · exact hne

/-- **A job's first registration queues it, and another changes nothing.** -/
theorem sound_registerRequest {g : Gate} (hg : g.Sound) (jobId createdAt : String) (priority : ℤ) (kind : String)
    (hdate : createdAt ≠ "") : (g.registerRequest jobId createdAt priority kind).Sound := by
  unfold registerRequest
  split
  · exact hg
  · rename_i hno
    have habsent : ∀ r ∈ g.requests, r.jobId ≠ jobId := by
      intro r hr hjob
      exact hno (Table.any_eq_true.2 ⟨r, hr, decide_eq_true hjob⟩)
    -- first the request alone, which no entry has yet
    have hmem : ∀ r ∈ g.requests.put ⟨jobId, createdAt, g.created, priority, kind, none, 0, false, false, false⟩,
        r = ⟨jobId, createdAt, g.created, priority, kind, none, 0, false, false, false⟩ ∨ r ∈ g.requests := by
      intro r hr
      exact (Table.mem_put.1 hr).imp_right And.left
    have hadded : Sound { g with
        requests := g.requests.put ⟨jobId, createdAt, g.created, priority, kind, none, 0, false, false, false⟩
        created := g.created + 1 } := by
      refine ⟨hg.kinds, hg.tokens, hg.orders, fun e he => (hg.entry_lt e he).trans (Nat.lt_succ_self _), ?_, ?_, ?_, ?_⟩
      · intro r hr
        obtain rfl | hold := hmem r hr
        · exact Nat.lt_succ_self _
        · exact (hg.request_lt r hold).trans (Nat.lt_succ_self _)
      · intro r hr
        obtain rfl | hold := hmem r hr
        · exact hdate
        · exact hg.dated r hold
      · intro r hr r' hr' htoken
        obtain rfl | hold := hmem r hr
        · obtain rfl | hold' := hmem r' hr'
          · rfl
          · exact absurd htoken (hg.request_lt r' hold').ne'
        · obtain rfl | hold' := hmem r' hr'
          · exact absurd htoken (hg.request_lt r hold).ne
          · exact hg.unique r hold r' hold' htoken
      · intro e he
        obtain ⟨r, hr, hplace⟩ | ⟨hnone, hplace⟩ := hg.placed e he
        · exact Or.inl ⟨r, (Table.mem_put_of_ne (habsent r hr)).2 hr, hplace⟩
        · refine Or.inr ⟨fun r hr => ?_, hplace⟩
          obtain rfl | hold := hmem r hr
          · exact (hg.entry_lt e he).ne'
          · exact hnone r hold
    refine sound_push hadded rfl rfl ?_ ?_ le_rfl le_rfl (Nat.lt_succ_self _) ?_ ?_
    · dsimp only
      rw [Function.update_self]
      exact Option.some_ne_none _
    · intro t ht
      exact Function.update_of_ne ht _ _
    · exact fun e he => (hg.entry_lt e he).ne
    · exact Or.inl ⟨_, Table.mem_put_self _ _, rfl, rfl⟩

theorem dead_registerRequest {g : Gate} {token : Token} (hd : g.Dead token) (jobId createdAt : String)
    (priority : ℤ) (kind : String) : (g.registerRequest jobId createdAt priority kind).Dead token := by
  unfold registerRequest
  split
  · exact hd
  · refine dead_push hd rfl ?_ (Nat.le_succ _) hd.lt.ne'
    intro r hr
    obtain rfl | ⟨hold, -⟩ := Table.mem_put.1 hr
    · exact Or.inr rfl
    · exact Or.inl hold

/-- What a caller of `acquire` finds when it has entered: its token is queued with its kind. -/
structure Entered (g g' : Gate) (token : Token) : Prop where
  sound : g'.Sound
  dead : ∀ t, g.Dead t → g'.Dead t
  alive : ¬ g.Dead token
  created : g.created ≤ g'.created
  lt : token < g'.created
  heap : ∀ e ∈ g'.heap, e ∈ g.heap ∨ e.token = token
  requests : g'.requests = g.requests
  active : g'.active = g.active

theorem entered_enter {g : Gate} (hg : g.Sound) (priority : ℤ) (kind requestId : Option String) :
    Entered g (g.enter priority kind requestId).1 (g.enter priority kind requestId).2.1 := by
  unfold enter
  split
  · rename_i r hfind
    obtain ⟨jobId, -, hget⟩ := Option.bind_eq_some_iff.1 hfind
    obtain ⟨hr, -⟩ := Table.of_get? hget
    by_cases hqueued : g.heap.any (·.token = r.token)
    · dsimp only
      rw [if_pos hqueued, if_pos hqueued]
      have hshrinks : Shrinks g { g with waiterKinds := Function.update g.waiterKinds r.token (some kind) } := by
        refine { shrinks_refl g with kinds := ?_ }
        intro e he h
        dsimp only
        by_cases ht : e.token = r.token
        · rw [ht, Function.update_self]
          rfl
        · rwa [Function.update_of_ne ht]
      exact ⟨hshrinks.sound hg, fun t => hshrinks.dead, fun hd => hd.request r hr rfl, le_rfl, hg.request_lt r hr,
        fun e he => Or.inl he, rfl, rfl⟩
    · dsimp only
      rw [if_neg hqueued, if_neg hqueued]
      have hnew : ∀ e' ∈ g.heap, e'.token ≠ r.token := by
        intro e' he' ht
        exact hqueued (List.any_eq_true.2 ⟨e', he', decide_eq_true ht⟩)
      constructor
      · refine sound_push hg rfl rfl ?_ ?_ le_rfl le_rfl (hg.request_lt r hr) hnew (Or.inl ⟨r, hr, rfl, rfl⟩)
        · dsimp only
          rw [Function.update_self]
          exact Option.some_ne_none _
        · exact fun t ht => Function.update_of_ne ht _ _
      · exact fun t hd => dead_push hd rfl (fun r' hr' => Or.inl hr') le_rfl (hd.request r hr)
      · exact fun hd => hd.request r hr rfl
      · exact le_rfl
      · exact hg.request_lt r hr
      · intro e he
        rw [List.mem_append, List.mem_singleton] at he
        exact he.imp_right fun h => by rw [h]
      · rfl
      · rfl
  · dsimp only
    constructor
    · refine sound_push hg rfl rfl ?_ ?_ (Nat.le_succ _) (Nat.le_succ _) (Nat.lt_succ_self _) ?_ ?_
      · dsimp only
        rw [Function.update_self]
        exact Option.some_ne_none _
      · exact fun t ht => Function.update_of_ne ht _ _
      · exact fun e he => (hg.entry_lt e he).ne
      · exact Or.inr ⟨fun r hr => (hg.request_lt r hr).ne, Nat.lt_succ_self _, rfl⟩
    · exact fun t hd => dead_push hd rfl (fun r' hr' => Or.inl hr') (Nat.le_succ _) hd.lt.ne'
    · exact fun hd => absurd hd.lt (lt_irrefl _)
    · exact Nat.le_succ _
    · exact Nat.lt_succ_self _
    · intro e he
      rw [List.mem_append, List.mem_singleton] at he
      exact he.imp_right fun h => by rw [h]
    · rfl
    · rfl

/-! ### Slots -/

theorem shrinks_view (g : Gate) (kind : Option String) (registered : Bool) (limit : Option ℕ) :
    Shrinks g (g.view kind registered limit) := by
  unfold view
  split
  · exact { shrinks_refl g with }
  · exact shrinks_refl g

theorem view_active (g : Gate) (kind : Option String) (registered : Bool) (limit : Option ℕ) :
    (g.view kind registered limit).active = g.active := by
  unfold view
  split <;> rfl

theorem shrinks_takeSlot (g : Gate) (token : Token) : Shrinks g (g.takeSlot token) :=
  shrinks_of_drop token rfl rfl (fun _ _ => rfl) rfl rfl

theorem shrinks_leave (g : Gate) (token : Token) : Shrinks g (g.leave token) :=
  shrinks_of_drop token rfl rfl (fun _ ht => Function.update_of_ne ht _ _) rfl rfl

theorem shrinks_release (g : Gate) : Shrinks g g.release := { shrinks_refl g with }

/-- **The next to be admitted is the entry before every other that could be.** -/
theorem nextEligible_spec {g : Gate} (hg : g.Sound) {token : Token} (h : g.nextEligible = some token) :
    g.active < STARTUP_SLOTS ∧ ∃ e ∈ g.heap, e.token = token ∧ g.eligible e ∧
      ∀ e' ∈ g.heap, g.eligible e' → e' ≠ e → e.key < e'.key := by
  unfold nextEligible at h
  split at h
  · cases h
  · rename_i hfull
    obtain ⟨e, he, rfl⟩ := Option.map_eq_some_iff.1 h
    obtain ⟨hmem, helig⟩ := List.mem_filter.1 (List.argmin_mem he)
    refine ⟨Nat.lt_of_not_le hfull, e, hmem, rfl, helig, fun e' he' helig' hne => ?_⟩
    have hle : e.key ≤ e'.key := List.le_of_mem_argmin (List.mem_filter.2 ⟨he', helig'⟩) he
    refine lt_of_le_of_ne hle fun hkey => hne ?_
    -- no two entries have one place, so no two have one key
    have horder : e'.order = e.order := (congrArg (fun k : ℤ ×ₗ Order => (ofLex k).2) hkey).symm
    exact List.inj_on_of_nodup_map hg.orders he' hmem horder

end Gate

end MediaPreview.Jobs
