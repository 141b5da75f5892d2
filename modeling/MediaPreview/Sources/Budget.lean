import MediaPreview.Sources.Slots

/-!
# The day's budget

What remains is what it was last replaced by, less the slots reserved since and not refunded (`Accounts`): a ticket's
generation is the limiter's exactly while its slot was reserved since the last replacement.
-/

namespace MediaPreview.Sources

namespace Note

variable {n : Note} {log : List Note}

/-- A note that neither reserves nor refunds a slot, nor replaces what remains. -/
def Plain (n : Note) : Prop := n.opens = none ∧ n.closes = none ∧ n.replaces = false

theorem lastReplaced_cons (h : n.replaces = false) : lastReplaced (n :: log) = lastReplaced log := by
  cases n <;> first | rfl | cases h

theorem Plain.openSince (h : n.Plain) : slots.openSince replaces (n :: log) = slots.openSince replaces log :=
  Ledger.openSince_skip h.2.2 h.1 h.2.1

theorem Plain.remainingByLog (h : n.Plain) : remainingByLog (n :: log) = Sources.remainingByLog log := by
  rw [Sources.remainingByLog, h.openSince, lastReplaced_cons h.2.2, Sources.remainingByLog]

theorem remainingByLog_replaces (h : n.replaces = true) : remainingByLog (n :: log) = lastReplaced (n :: log) := by
  rw [remainingByLog, Ledger.openSince_mark h]
  simp only [List.length_nil, Nat.cast_zero, sub_zero, Option.map_id']

end Note

namespace Pacing

variable {τ δ : Type*} {cfg : LimiterConfig} {s s' : Pacing τ δ} {t : τ} {n : Note} {k : Ticket δ}

/-- The tickets held, and what remains. -/
structure Accounts (s : Pacing τ δ) : Prop where
  /-- A slot is one thread's. -/
  alone : ∀ t t' k k', (s.callers t).held = some k → (s.callers t').held = some k' → k.slotId = k'.slotId → t = t'
  /-- It is one of those made. -/
  held_lt : ∀ t k, (s.callers t).held = some k → k.slotId < s.made
  /-- So is each reserved. -/
  opened_lt : ∀ n ∈ s.log, ∀ i, n.opens = some i → i < s.made
  /-- And each refunded. -/
  closed_lt : ∀ i ∈ s.log.filterMap Note.closes, i < s.made
  /-- A slot held was not refunded. -/
  unreturned : ∀ t k, (s.callers t).held = some k → k.slotId ∉ s.log.filterMap Note.closes
  /-- No slot was refunded twice. -/
  once : (s.log.filterMap Note.closes).Nodup
  /-- No ticket is of a later generation. -/
  gen_le : ∀ t k, (s.callers t).held = some k → k.gen ≤ s.limiter.remainingGen
  /-- It is of this one when its slot was reserved since the last replacement. -/
  gen_eq_iff : ∀ t k, (s.callers t).held = some k →
    (k.gen = s.limiter.remainingGen ↔ k.slotId ∈ Note.slots.openSince Note.replaces s.log)
  /-- What remains. -/
  remaining : s.limiter.remaining = remainingByLog s.log
  /-- It is never negative. -/
  nonneg : ∀ r, s.limiter.remaining = some r → 0 ≤ r

theorem accounts_new (day : δ) : (new τ day).Accounts where
  alone t t' k k' h := by cases h
  held_lt t k h := by cases h
  opened_lt n h := nomatch h
  closed_lt i h := nomatch h
  unreturned t k h := by cases h
  once := .nil
  gen_le t k h := by cases h
  gen_eq_iff t k h := by cases h
  remaining := rfl
  nonneg r h := by cases h

/-- A change of neither the log nor the counts, by which no thread gets a ticket. -/
theorem Accounts.frame (h : s.Accounts)
    (hheld : ∀ t k, (s'.callers t).held = some k → (s.callers t).held = some k) (hmade : s'.made = s.made)
    (hlog : s'.log = s.log) (hgen : s'.limiter.remainingGen = s.limiter.remainingGen)
    (hremaining : s'.limiter.remaining = s.limiter.remaining) : s'.Accounts where
  alone t t' k k' hk hk' := h.alone t t' k k' (hheld t k hk) (hheld t' k' hk')
  held_lt t k hk := hmade ▸ h.held_lt t k (hheld t k hk)
  opened_lt := by rw [hlog, hmade]; exact h.opened_lt
  closed_lt := by rw [hlog, hmade]; exact h.closed_lt
  unreturned t k hk := hlog ▸ h.unreturned t k (hheld t k hk)
  once := hlog ▸ h.once
  gen_le t k hk := hgen ▸ h.gen_le t k (hheld t k hk)
  gen_eq_iff t k hk := by rw [hgen, hlog]; exact h.gen_eq_iff t k (hheld t k hk)
  remaining := by rw [hremaining, hlog]; exact h.remaining
  nonneg := by rw [hremaining]; exact h.nonneg

/-- A plain note. -/
theorem Accounts.note (h : s.Accounts) (hn : n.Plain) : { s with log := n :: s.log }.Accounts where
  alone := h.alone
  held_lt := h.held_lt
  opened_lt n' hn' i hi := by
    obtain rfl | hn' := List.mem_cons.1 hn'
    · rw [hn.1] at hi
      cases hi
    · exact h.opened_lt n' hn' i hi
  closed_lt := by rw [List.filterMap_cons_none hn.2.1]; exact h.closed_lt
  unreturned := by rw [List.filterMap_cons_none hn.2.1]; exact h.unreturned
  once := by rw [List.filterMap_cons_none hn.2.1]; exact h.once
  gen_le := h.gen_le
  gen_eq_iff := by rw [hn.openSince]; exact h.gen_eq_iff
  remaining := by rw [hn.remainingByLog]; exact h.remaining
  nonneg := h.nonneg

/-- What remains is replaced. -/
theorem Accounts.replace (h : s.Accounts) (ho : n.opens = none) (hc : n.closes = none) (hn : n.replaces = true)
    (hheld : ∀ t k, (s'.callers t).held = some k → (s.callers t).held = some k) (hmade : s'.made = s.made)
    (hlog : s'.log = n :: s.log) (hgen : s'.limiter.remainingGen = s.limiter.remainingGen + 1)
    (hremaining : s'.limiter.remaining = lastReplaced (n :: s.log))
    (hnonneg : ∀ r, lastReplaced (n :: s.log) = some r → 0 ≤ r) : s'.Accounts where
  alone t t' k k' hk hk' := h.alone t t' k k' (hheld t k hk) (hheld t' k' hk')
  held_lt t k hk := hmade ▸ h.held_lt t k (hheld t k hk)
  opened_lt n' hn' i hi := by
    rw [hlog] at hn'
    obtain rfl | hn' := List.mem_cons.1 hn'
    · rw [ho] at hi
      cases hi
    · exact hmade ▸ h.opened_lt n' hn' i hi
  closed_lt := by rw [hlog, List.filterMap_cons_none hc, hmade]; exact h.closed_lt
  unreturned t k hk := by rw [hlog, List.filterMap_cons_none hc]; exact h.unreturned t k (hheld t k hk)
  once := by rw [hlog, List.filterMap_cons_none hc]; exact h.once
  gen_le t k hk := hgen ▸ (h.gen_le t k (hheld t k hk)).trans (Nat.le_succ _)
  gen_eq_iff t k hk := by
    have hle := h.gen_le t k (hheld t k hk)
    rw [hgen, hlog, Ledger.openSince_mark hn]
    exact ⟨fun heq => by omega, fun hmem => nomatch hmem⟩
  remaining := by rw [hlog, Note.remainingByLog_replaces hn, hremaining]
  nonneg r hr := hnonneg r (hremaining ▸ hr)

/-- A slot is reserved. -/
theorem Accounts.reserve [DecidableEq τ] (h : s.Accounts) {priority : ℤ} {slot deadline : ℚ}
    (hpos : ∀ r, s.limiter.remaining = some r → 0 < r) : (s.reserve cfg t priority slot deadline).Accounts := by
  have hnew : ∀ t' k', ((s.reserve cfg t priority slot deadline).callers t').held = some k' →
      (t' = t ∧ k' = ⟨s.made, s.limiter.day, s.limiter.remainingGen⟩) ∨
        (t' ≠ t ∧ (s.callers t').held = some k' ∧ k'.slotId < s.made) := by
    intro t' k' hk'
    change (Function.update s.callers t _ t').held = some k' at hk'
    obtain rfl | hne := eq_or_ne t' t
    · rw [Function.update_self] at hk'
      exact .inl ⟨rfl, (Option.some.inj hk').symm⟩
    · rw [Function.update_of_ne hne] at hk'
      exact .inr ⟨hne, hk', h.held_lt t' k' hk'⟩
  have hopen : Note.slots.openSince Note.replaces (s.reserve cfg t priority slot deadline).log =
      s.made :: Note.slots.openSince Note.replaces s.log := Ledger.openSince_open rfl rfl
  refine ⟨fun t₁ t₂ k₁ k₂ h₁ h₂ heq => ?_, fun t' k' hk' => ?_, fun n hn i hi => ?_, fun i hi => ?_,
    fun t' k' hk' => ?_, h.once, fun t' k' hk' => ?_, fun t' k' hk' => ?_, ?_, fun r hr => ?_⟩
  · obtain ⟨rfl, rfl⟩ | ⟨-, h₁, hlt₁⟩ := hnew t₁ k₁ h₁
    · obtain ⟨rfl, -⟩ | ⟨-, -, hlt₂⟩ := hnew t₂ k₂ h₂
      · rfl
      · exact absurd (heq ▸ hlt₂) (lt_irrefl _)
    · obtain ⟨-, rfl⟩ | ⟨-, h₂, -⟩ := hnew t₂ k₂ h₂
      · exact absurd (heq ▸ hlt₁) (lt_irrefl _)
      · exact h.alone t₁ t₂ k₁ k₂ h₁ h₂ heq
  · obtain ⟨-, rfl⟩ | ⟨-, -, hlt⟩ := hnew t' k' hk'
    · exact Nat.lt_succ_self _
    · exact Nat.lt_succ_of_lt hlt
  · obtain rfl | hn := List.mem_cons.1 hn
    · obtain rfl := Option.some.inj hi
      exact Nat.lt_succ_self _
    · exact Nat.lt_succ_of_lt (h.opened_lt n hn i hi)
  · exact Nat.lt_succ_of_lt (h.closed_lt i hi)
  · obtain ⟨-, rfl⟩ | ⟨-, hk', -⟩ := hnew t' k' hk'
    · exact fun hmem => lt_irrefl _ (h.closed_lt _ hmem)
    · exact h.unreturned t' k' hk'
  · obtain ⟨-, rfl⟩ | ⟨-, hk', -⟩ := hnew t' k' hk'
    · exact le_rfl
    · exact h.gen_le t' k' hk'
  · rw [hopen]
    obtain ⟨-, rfl⟩ | ⟨-, hk', hlt⟩ := hnew t' k' hk'
    · exact ⟨fun _ => .head _, fun _ => rfl⟩
    · rw [List.mem_cons, or_iff_right hlt.ne]
      exact h.gen_eq_iff t' k' hk'
  · show s.limiter.remaining.map (· - 1) = (lastReplaced s.log).map _
    rw [hopen, h.remaining, remainingByLog, Option.map_map]
    refine congrArg (Option.map · _) (funext fun r => ?_)
    simp only [Function.comp_apply, List.length_cons, Nat.cast_add, Nat.cast_one]
    omega
  · obtain ⟨r', hr', rfl⟩ := Option.map_eq_some_iff.1 (show s.limiter.remaining.map (· - 1) = some r from hr)
    have := hpos r' hr'
    omega

/-- The day is read. -/
theorem Accounts.rollDay [DecidableEq δ] (h : s.Accounts) (today : δ) : (s.rollDay today).Accounts := by
  unfold Pacing.rollDay Limiter.rollDay
  split_ifs
  · exact h
  · exact h.replace (n := .newDay) rfl rfl rfl (fun _ _ hk => hk) rfl rfl rfl rfl fun r hr => nomatch hr

/-- What remains is replaced by a server's count or the seed's, if it is. -/
theorem Accounts.replaceBy (h : s.Accounts) {l : Limiter δ} {value : Option ℤ}
    (hl : (s.limiter.replaceBy value).SameCounts l) (hpos : ∀ r, value = some r → 0 ≤ r) :
    { s with
      limiter := l
      log := (value.elim [] fun r => [Note.replaced r]) ++ s.log }.Accounts := by
  cases value with
  | none => exact h.frame (fun _ _ hk => hk) rfl rfl hl.remainingGen hl.remaining
  | some r =>
    refine h.replace (n := .replaced r) rfl rfl rfl (fun _ _ hk => hk) rfl rfl hl.remainingGen hl.remaining ?_
    rintro r' hr'
    obtain rfl := Option.some.inj hr'
    exact hpos r rfl

theorem remainingHeader_nonneg {p : Parsers} {headers : Option (List (String × String))} {r : ℤ}
    (h : remainingHeader p headers = some r) : 0 ≤ r := by
  obtain ⟨x, -, rfl⟩ := Option.map_eq_some_iff.1 h
  exact le_max_left _ _

variable [DecidableEq τ]

/-- A thread that keeps no ticket. -/
theorem of_held_update {callers : τ → Caller δ} {t' : τ} {k' : Ticket δ}
    (h : (Function.update callers t (.idle none) t').held = some k') : t' ≠ t ∧ (callers t').held = some k' := by
  obtain rfl | hne := eq_or_ne t' t
  · rw [Function.update_self] at h
    cases h
  · rw [Function.update_of_ne hne] at h
    exact ⟨hne, h⟩

/-- A thread that keeps the ticket it has. -/
theorem of_held_update_same {callers : τ → Caller δ} {c : Caller δ} (hk : (callers t).held = some k)
    (hc : c.held = some k) {t' : τ} {k' : Ticket δ} (h : (Function.update callers t c t').held = some k') :
    (callers t').held = some k' := by
  obtain rfl | hne := eq_or_ne t' t
  · rw [Function.update_self, hc] at h
    exact hk.trans h
  · rwa [Function.update_of_ne hne] at h

theorem Accounts.dropTicket (h : s.Accounts) : (s.setCaller t (.idle none)).Accounts :=
  h.frame (fun _ _ hk => (of_held_update hk).2) rfl rfl rfl rfl

variable [DecidableEq δ]

/-- **A slot is given back**, and the ticket with it. -/
theorem Accounts.giveBack (h : s.Accounts) (hk : (s.callers t).held = some k) :
    ((s.giveBack k).setCaller t (.idle none)).Accounts := by
  have hother : ∀ t' k', (((s.giveBack k).setCaller t (.idle none)).callers t').held = some k' →
      (s.callers t').held = some k' ∧ k'.slotId ≠ k.slotId := by
    intro t' k' hk'
    obtain ⟨hne, hk'⟩ := of_held_update hk'
    exact ⟨hk', fun heq => hne (h.alone t' t k' k hk' hk heq)⟩
  refine ⟨fun t₁ t₂ k₁ k₂ h₁ h₂ => h.alone t₁ t₂ k₁ k₂ (hother t₁ k₁ h₁).1 (hother t₂ k₂ h₂).1,
    fun t' k' hk' => h.held_lt t' k' (hother t' k' hk').1, fun n hn i hi => ?_, fun i hi => ?_, fun t' k' hk' => ?_,
    List.nodup_cons.2 ⟨h.unreturned t k hk, h.once⟩, fun t' k' hk' => h.gen_le t' k' (hother t' k' hk').1,
    fun t' k' hk' => ?_, ?_, fun r hr => ?_⟩
  · obtain rfl | hn := List.mem_cons.1 hn
    · cases hi
    · exact h.opened_lt n hn i hi
  · obtain rfl | hi := List.mem_cons.1 hi
    · exact h.held_lt t k hk
    · exact h.closed_lt i hi
  · obtain ⟨hk', hne⟩ := hother t' k' hk'
    exact fun hmem => (List.mem_cons.1 hmem).elim hne (h.unreturned t' k' hk')
  · obtain ⟨hk', hne⟩ := hother t' k' hk'
    exact (h.gen_eq_iff t' k' hk').trans (Ledger.mem_openSince_close rfl rfl rfl hne).symm
  · show (if k.gen = s.limiter.remainingGen then s.limiter.remaining.map (· + 1) else s.limiter.remaining) =
      (lastReplaced s.log).map fun r : ℤ => r - (Note.slots.openSince Note.replaces (.refunded k.slotId :: s.log)).length
    split_ifs with hgen
    · have hlen : (Note.slots.openSince Note.replaces (.refunded k.slotId :: s.log)).length + 1 =
          (Note.slots.openSince Note.replaces s.log).length :=
        Ledger.length_openSince_close rfl rfl rfl ((h.gen_eq_iff t k hk).1 hgen)
      rw [h.remaining, remainingByLog, Option.map_map]
      refine congrArg (Option.map · _) (funext fun r => ?_)
      simp only [Function.comp_apply]
      omega
    · rw [Ledger.openSince_close_of_notMem rfl rfl rfl fun hmem => hgen ((h.gen_eq_iff t k hk).2 hmem), h.remaining,
        remainingByLog]
  · change (if k.gen = s.limiter.remainingGen then s.limiter.remaining.map (· + 1) else s.limiter.remaining) = some r at hr
    split_ifs at hr with hgen
    · obtain ⟨r', hr', rfl⟩ := Option.map_eq_some_iff.1 hr
      have := h.nonneg r' hr'
      omega
    · exact h.nonneg r hr

end Pacing

end MediaPreview.Sources
