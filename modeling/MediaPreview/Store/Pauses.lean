import MediaPreview.Store.Series
import Mathlib.Data.List.Dedup
import Mathlib.Data.List.Perm.Subperm

/-!
# The pauses of a series, over whole runs

A pause starts only where nothing speaks for the series, never while one runs, and takes at least as many "no entry"
answers since the last one as it is set to, from different episodes each answered last with it (`pauses_in_turn`). It is
more than that when stored answers of the show's files held the pause back meanwhile (`pause_after_more`).
-/

namespace MediaPreview.Store

open Markers

/-! ### Answers so far -/

/-- The lookups of a run. -/
def callsOf (es : List SeriesEvent) : List SeriesCall :=
  es.filterMap fun
    | .lookup c => some c
    | .store _ => none

/-- An episode's latest answer. -/
def latest (es : List SeriesEvent) (k : Source × String × String) : Option SeriesCall :=
  (callsOf es).reverse.find? fun c => c.key = k

/-- The episodes of a series that were asked for. -/
def episodesOf (es : List SeriesEvent) (series : Source × String) : List String :=
  (((callsOf es).filter fun c => c.series = series).map SeriesCall.episode).dedup

/-- How many episodes of a series have a latest answer of "no entry" given since a time. -/
def missedSince (es : List SeriesEvent) (series : Source × String) (since : Datetime) : ℕ :=
  ((episodesOf es series).filter fun episode =>
    (latest es (series.1, series.2, episode)).any fun c => !c.found && since ≤ c.now).length

theorem mem_callsOf {es : List SeriesEvent} {c : SeriesCall} : c ∈ callsOf es ↔ .lookup c ∈ es := by
  rw [callsOf, List.mem_filterMap]
  constructor
  · rintro ⟨e, he, hc⟩
    cases e with
    | lookup c' => exact Option.some.inj hc ▸ he
    | store db => cases hc
  · exact fun h => ⟨_, h, rfl⟩

theorem latest_lookup (es : List SeriesEvent) (c : SeriesCall) (k : Source × String × String) :
    latest (es ++ [.lookup c]) k = if c.key = k then some c else latest es k := by
  have hcalls : callsOf (es ++ [.lookup c]) = callsOf es ++ [c] := by simp [callsOf]
  rw [latest, hcalls, List.reverse_append, List.reverse_singleton, List.singleton_append, List.find?_cons]
  by_cases h : c.key = k
  · rw [if_pos h]
    simp only [h, decide_true]
  · rw [if_neg h]
    simp only [h, decide_false]
    rfl

theorem latest_store (es : List SeriesEvent) (db : Db) (k : Source × String × String) :
    latest (es ++ [.store db]) k = latest es k := by
  have hcalls : callsOf (es ++ [.store db]) = callsOf es := by simp [callsOf]
  rw [latest, hcalls, latest]

theorem of_latest {es : List SeriesEvent} {k : Source × String × String} {c : SeriesCall} (h : latest es k = some c) :
    c ∈ callsOf es ∧ c.key = k :=
  ⟨List.mem_reverse.1 (List.mem_of_find?_eq_some h), of_decide_eq_true (List.find?_some h :)⟩

/-- The rows hold the latest answers. -/
def Tracks (es : List SeriesEvent) (s : SeriesDb) : Prop :=
  ∀ r, r ∈ s.lookups ↔ ∃ c, latest es r.key = some c ∧ c.row = r

theorem tracks_empty : Tracks [] SeriesDb.empty := fun r =>
  ⟨fun h => absurd h List.not_mem_nil, fun ⟨c, h, _⟩ => by cases h⟩

theorem tracks_answer {es : List SeriesEvent} {s s' : SeriesDb} (h : Tracks es s) (c : SeriesCall)
    (hs : s'.lookups = (s.answer c).lookups) : Tracks (es ++ [.lookup c]) s' := by
  intro r
  rw [hs]
  show r ∈ s.lookups.put c.row ↔ _
  rw [Table.mem_put, latest_lookup, SeriesCall.key_row]
  by_cases hk : c.key = r.key
  · rw [if_pos hk]
    constructor
    · rintro (rfl | ⟨-, hne⟩)
      · exact ⟨c, rfl, rfl⟩
      · exact absurd hk.symm hne
    · rintro ⟨c', hc, rfl⟩
      exact .inl (by rw [Option.some.inj hc])
  · rw [if_neg hk, ← h r]
    exact ⟨fun hr => (hr.resolve_left fun heq => hk (by rw [heq]; rfl)).1, fun hr => .inr ⟨hr, fun heq => hk heq.symm⟩⟩

/-- The lookups after a step. -/
theorem lookups_of_step {cfg : Pausing} {s s' : SeriesDb} {c : SeriesCall}
    (h : SeriesDb.step cfg s (.lookup c) = some s') : s'.lookups = (s.answer c).lookups := by
  obtain ⟨⟨s', until'⟩, hrec, rfl⟩ := Option.map_eq_some_iff.1 h
  rcases SeriesDb.recordSeriesLookup_cases hrec with ⟨-, rfl, -⟩ | ⟨-, rfl, -⟩ | ⟨-, rfl, -⟩
  · rfl
  · rfl
  · rfl

theorem Tracks.step {cfg : Pausing} {es : List SeriesEvent} {s s' : SeriesDb} {e : SeriesEvent} (h : Tracks es s)
    (hstep : SeriesDb.step cfg s e = some s') : Tracks (es ++ [e]) s' := by
  cases e with
  | lookup c => exact tracks_answer h c (lookups_of_step hstep)
  | store db =>
    obtain rfl := Option.some.inj hstep
    intro r
    rw [latest_store]
    exact h r

/-- **The rows of a run hold its latest answers.** -/
theorem tracks_of_run {cfg : Pausing} {C : SeriesDb → SeriesEvent → Prop} {es es' : List SeriesEvent} {s s' : SeriesDb}
    (h : Tracks es s) (hrun : Runs (SeriesDb.step cfg) C s es' s') : Tracks (es ++ es') s' :=
  hrun.keeps_from h fun _ _ _ _ _ hstep ht => ht.step hstep

/-- **A count of rows is a count of episodes.** -/
theorem countP_eq_missedSince {es : List SeriesEvent} {s : SeriesDb} (h : Tracks es s) (series : Source × String)
    (since : Datetime) : (s.lookups.rows.countP fun r => r.series = series && r.missedSince since.isoformat) =
      missedSince es series since := by
  set p : LookupRow → Bool := fun r => r.series = series && r.missedSince since.isoformat with hp
  have hkeys : (s.lookups.rows.filter p).map LookupRow.key =
      ((s.lookups.rows.filter p).map LookupRow.episode).map fun episode => (series.1, series.2, episode) := by
    rw [List.map_map]
    refine List.map_congr_left fun r hr => ?_
    have hseries := (Bool.and_eq_true_iff.1 (List.mem_filter.1 hr).2).1
    rw [← of_decide_eq_true hseries]
    rfl
  have hnodup : ((s.lookups.rows.filter p).map LookupRow.episode).Nodup := by
    refine List.Nodup.of_map (fun episode => (series.1, series.2, episode)) ?_
    rw [← hkeys]
    exact s.lookups.nodup.sublist (List.filter_sublist.map _)
  have hmissed : ∀ r ∈ s.lookups, ∀ c : SeriesCall, c.row = r →
      (p r = true ↔ c.series = series ∧ c.found = false ∧ since ≤ c.now) := by
    rintro r - c rfl
    rw [hp, Bool.and_eq_true, decide_eq_true_eq, SeriesCall.missedSince_row, SeriesCall.series_row]
  have hmem : ∀ episode, episode ∈ (s.lookups.rows.filter p).map LookupRow.episode ↔
      episode ∈ (episodesOf es series).filter fun episode =>
        (latest es (series.1, series.2, episode)).any fun c => !c.found && since ≤ c.now := by
    intro episode
    simp only [List.mem_map, List.mem_filter, Option.any_eq_true, Bool.and_eq_true, Bool.not_eq_true', decide_eq_true_eq]
    constructor
    · rintro ⟨r, ⟨hr, hpr⟩, rfl⟩
      obtain ⟨c, hc, rfl⟩ := (h r).1 hr
      obtain ⟨rfl, hf, hle⟩ := (hmissed _ hr c rfl).1 hpr
      refine ⟨?_, c, hc, hf, hle⟩
      exact List.mem_dedup.2 (List.mem_map.2 ⟨c, List.mem_filter.2 ⟨(of_latest hc).1, decide_eq_true rfl⟩, rfl⟩)
    · rintro ⟨-, c, hc, hf, hle⟩
      obtain ⟨-, hkey⟩ := of_latest hc
      have hseries : c.series = series := congrArg (fun k => (k.1, k.2.1)) hkey
      have hrow : c.row ∈ s.lookups := (h c.row).2 ⟨c, by rw [SeriesCall.key_row, hkey]; exact hc, rfl⟩
      exact ⟨c.row, ⟨hrow, (hmissed _ hrow c rfl).2 ⟨hseries, hf, hle⟩⟩, congrArg (fun k => k.2.2) hkey⟩
  have hperm : ((s.lookups.rows.filter p).map LookupRow.episode).Perm ((episodesOf es series).filter fun episode =>
      (latest es (series.1, series.2, episode)).any fun c => !c.found && since ≤ c.now) :=
    (List.perm_ext_iff_of_nodup hnodup ((List.nodup_dedup _).filter _)).2 hmem
  rw [List.countP_eq_length_filter, ← List.length_map LookupRow.episode, hperm.length_eq, missedSince]

/-! ### Starts -/

/-- No step starts a pause of the series. -/
def NoStart (cfg : Pausing) (series : Source × String) (s : SeriesDb) (e : SeriesEvent) : Prop :=
  ∀ c, e = .lookup c → c.series = series → ¬ s.Starts cfg c

/-- No lookup of the series comes while a file under its folder has a stored answer. -/
def NoAnswers (series : Source × String) (s : SeriesDb) (e : SeriesEvent) : Prop :=
  ∀ c, e = .lookup c → c.series = series → ¬ AnswersUnder s.db c.source c.showFolder

/-- The clock of the lookups never goes back. -/
def Clocked (es : List SeriesEvent) : Prop := (callsOf es).Pairwise fun c c' => c.now ≤ c'.now

variable {cfg : Pausing} {es : List SeriesEvent} {s s' : SeriesDb} {e : SeriesEvent} {c : SeriesCall}
  {series : Source × String} {since : Datetime}

/-- When a pause is due. -/
theorem pauseDue_iff {text : String} : s.pauseDue cfg c text = true ↔
    (∀ r ∈ s.lookups, r.series = c.series → r.found = false) ∧
      cfg.misses ≤ (s.lookups.rows.countP fun r => r.series = c.series && r.missedSince text : ℤ) ∧
      ¬ AnswersUnder s.db c.source c.showFolder := by
  rw [← seriesHasAnswers_iff]
  simp only [SeriesDb.pauseDue, Bool.and_eq_true, Bool.not_eq_true', List.any_eq_false, decide_eq_true_eq,
    decide_eq_false_iff_not, not_and, Bool.not_eq_true, Table.mem_def, not_lt, and_assoc]

/-- A step that records a lookup starts a pause, ends one or leaves them. -/
theorem pausedAt_of_step (h : SeriesDb.step cfg s (.lookup c) = some s') (series : Source × String) :
    (c.series ≠ series ∧ s'.pausedAt series = s.pausedAt series) ∨
    (c.series = series ∧ (c.found = true ∧ s'.pausedAt series = none ∨
      s.Starts cfg c ∧ s'.pausedAt series = some c.now.isoformat ∨
      c.found = false ∧ ¬ s.Starts cfg c ∧ s'.pausedAt series = s.pausedAt series)) := by
  obtain ⟨⟨s', until'⟩, hrec, rfl⟩ := Option.map_eq_some_iff.1 h
  by_cases hs : c.series = series
  · refine .inr ⟨hs, ?_⟩
    rcases SeriesDb.recordSeriesLookup_cases hrec with ⟨hf, rfl, -⟩ | ⟨hf, rfl, -, hwhy⟩ | ⟨hstart, rfl, -⟩
    · exact .inl ⟨hf, (SeriesDb.pausedAt_delete s c series).trans (if_pos hs)⟩
    · refine .inr (.inr ⟨hf, ?_, rfl⟩)
      rintro ⟨-, since, hsince, hdue⟩
      rcases hwhy with ⟨pausedAt, lastEnd, hp, hend, hlt⟩ | ⟨since', hsince', hdue'⟩
      · rw [SeriesDb.countedFrom, hp] at hsince
        simp only [hend, Option.bind_some, if_pos hlt, reduceCtorEq] at hsince
      · rw [hsince] at hsince'
        obtain rfl := Option.some.inj hsince'
        rw [hdue] at hdue'
        cases hdue'
    · exact .inr (.inl ⟨hstart, (SeriesDb.pausedAt_startPause _ c series).trans (if_pos hs)⟩)
  · refine .inl ⟨hs, ?_⟩
    rcases SeriesDb.recordSeriesLookup_cases hrec with ⟨-, rfl, -⟩ | ⟨-, rfl, -, -⟩ | ⟨-, rfl, -⟩
    · exact (SeriesDb.pausedAt_delete s c series).trans (if_neg hs)
    · rfl
    · exact (SeriesDb.pausedAt_startPause _ c series).trans (if_neg hs)

/-- No pause runs where one starts. -/
theorem end_of_starts (hstart : s.Starts cfg c) {pausedAt : String} (hp : s.pausedAt c.series = some pausedAt) :
    ∃ lastEnd, SeriesDb.endOf cfg pausedAt = some lastEnd ∧ lastEnd ≤ c.now := by
  obtain ⟨-, text, htext, -⟩ := hstart
  rw [SeriesDb.countedFrom, hp] at htext
  obtain ⟨lastEnd, hend, htext⟩ := Option.bind_eq_some_iff.1 htext
  refine ⟨lastEnd, hend, not_lt.1 fun hlt => ?_⟩
  rw [if_pos hlt] at htext
  cases htext

/-- What a start needs. -/
theorem Tracks.of_starts (h : Tracks es s) (hstart : s.Starts cfg c) :
    c.found = false ∧
    (∀ pausedAt, s.pausedAt c.series = some pausedAt →
      ∃ lastEnd, SeriesDb.endOf cfg pausedAt = some lastEnd ∧ lastEnd ≤ c.now) ∧
    (∀ episode c', latest (es ++ [.lookup c]) (c.source, c.seriesKey, episode) = some c' → c'.found = false) ∧
    ¬ AnswersUnder s.db c.source c.showFolder := by
  obtain ⟨hf, text, -, hdue⟩ := id hstart
  obtain ⟨hnone, -, hanswers⟩ := pauseDue_iff.1 hdue
  refine ⟨hf, fun pausedAt hp => end_of_starts hstart hp, fun episode c' hc' => ?_, hanswers⟩
  have hkey := (of_latest hc').2
  have hrow : c'.row ∈ (s.answer c).lookups :=
    (tracks_answer h c rfl c'.row).2 ⟨c', by rw [SeriesCall.key_row, hkey]; exact hc', rfl⟩
  exact hnone c'.row hrow (congrArg (fun k => (k.1, k.2.1)) hkey)

/-! ### From one pause to the next -/

/-- A stored row adds at most itself to a count. -/
theorem countP_put_le (t : Table LookupRow LookupRow.key) (x : LookupRow) (p : LookupRow → Bool) :
    (t.put x).rows.countP p ≤ t.rows.countP p + if p x then 1 else 0 := by
  show ((t.rows.filter fun r => r.key ≠ x.key) ++ [x]).countP p ≤ _
  rw [List.countP_append, List.countP_singleton]
  exact Nat.add_le_add_right (List.filter_sublist.countP_le) _

/-- The series is paused since `start`, and had no answer since. -/
structure Paused (cfg : Pausing) (series : Source × String) (start : Datetime) (es : List SeriesEvent) (s : SeriesDb) :
    Prop where
  /-- The rows are the latest answers. -/
  tracks : Tracks es s
  /-- Its pause is the one that began then. -/
  pausedAt : s.pausedAt series = some start.isoformat
  /-- No episode's latest answer is found. -/
  none_found : ∀ r ∈ s.lookups, r.series = series → r.found = false

theorem Paused.of_starts (h : Tracks es s) (hstart : s.Starts cfg c) (hstep : SeriesDb.step cfg s (.lookup c) = some s') :
    Paused cfg c.series c.now (es ++ [.lookup c]) s' where
  tracks := h.step hstep
  pausedAt := by
    rcases pausedAt_of_step hstep c.series with ⟨hne, -⟩ | ⟨-, ⟨hf, -⟩ | ⟨-, hp⟩ | ⟨-, hnot, -⟩⟩
    · exact absurd rfl hne
    · rw [hstart.1] at hf
      cases hf
    · exact hp
    · exact absurd hstart hnot
  none_found r hr hs := by
    obtain ⟨-, text, -, hdue⟩ := hstart
    rw [Table.mem_def, lookups_of_step hstep] at hr
    exact (pauseDue_iff.1 hdue).1 r hr hs

/-- A step that starts no pause and finds nothing keeps it. -/
theorem Paused.step {start : Datetime} (h : Paused cfg series start es s) (hno : NoStart cfg series s e)
    (hf : ∀ c, e = .lookup c → c.series = series → c.found = false) (hstep : SeriesDb.step cfg s e = some s') :
    Paused cfg series start (es ++ [e]) s' where
  tracks := h.tracks.step hstep
  pausedAt := by
    cases e with
    | lookup c =>
      rcases pausedAt_of_step hstep series with ⟨-, hp⟩ | ⟨hs, ⟨hfound, -⟩ | ⟨hstart, -⟩ | ⟨-, -, hp⟩⟩
      · exact hp.trans h.pausedAt
      · rw [hf c rfl hs] at hfound
        cases hfound
      · exact absurd hstart (hno c rfl hs)
      · exact hp.trans h.pausedAt
    | store db =>
      obtain rfl := Option.some.inj hstep
      exact h.pausedAt
  none_found r hr hs := by
    cases e with
    | lookup c =>
      rw [Table.mem_def, lookups_of_step hstep] at hr
      rcases Table.mem_put.1 hr with rfl | ⟨hr, -⟩
      · exact hf c rfl hs
      · exact h.none_found r hr hs
    | store db =>
      obtain rfl := Option.some.inj hstep
      exact h.none_found r hr hs

theorem Paused.run {start : Datetime} {es' : List SeriesEvent} (h : Paused cfg series start es s)
    (hrun : Runs (SeriesDb.step cfg) (NoStart cfg series) s es' s')
    (hnone : ∀ c ∈ callsOf es', c.series = series → c.found = false) : Paused cfg series start (es ++ es') s' := by
  refine hrun.mem.keeps_from h fun es s e s' hc hstep hp => hp.step hc.1 (fun c he => hnone c ?_) hstep
  exact mem_callsOf.2 (he ▸ hc.2)

/-- The next start counts from the pause's end. -/
theorem Paused.missed_of_starts {start lastEnd : Datetime} (h : Paused cfg series start es s)
    (hend : start.add cfg.pause = some lastEnd) (hstart : s.Starts cfg c) (hs : c.series = series) :
    lastEnd ≤ c.now ∧ cfg.misses ≤ missedSince (es ++ [.lookup c]) series lastEnd := by
  subst hs
  obtain ⟨-, text, htext, hdue⟩ := hstart
  have hend' : SeriesDb.endOf cfg start.isoformat = some lastEnd := by
    rw [SeriesDb.endOf, Datetime.fromisoformat_isoformat, Option.bind_some, hend]
  rw [SeriesDb.countedFrom, h.pausedAt] at htext
  simp only [hend', Option.bind_some] at htext
  split_ifs at htext with hlt
  obtain rfl := Option.some.inj htext
  refine ⟨not_lt.1 hlt, ?_⟩
  have hcount := (pauseDue_iff.1 hdue).2.1
  rwa [countP_eq_missedSince (tracks_answer h.tracks c rfl)] at hcount

/-- Fewer "no entry" answers since the end than start a pause, or none. -/
def Few (cfg : Pausing) (series : Source × String) (lastEnd : Datetime) (es : List SeriesEvent) : Prop :=
  (missedSince es series lastEnd : ℤ) < cfg.misses ∨ missedSince es series lastEnd = 0

/-- When a pause starts, none of the answers so far comes after its end. -/
theorem missedSince_eq_zero (series : Source × String) {lastEnd : Datetime} (hclock : Clocked (es ++ [.lookup c])) (hlt : c.now < lastEnd) :
    missedSince (es ++ [.lookup c]) series lastEnd = 0 := by
  have hcalls : callsOf (es ++ [.lookup c]) = callsOf es ++ [c] := by simp [callsOf]
  rw [Clocked, hcalls, List.pairwise_append] at hclock
  have hle : ∀ c' ∈ callsOf (es ++ [.lookup c]), c'.now ≤ c.now := by
    intro c' hc'
    rw [hcalls] at hc'
    rcases List.mem_append.1 hc' with hc' | hc'
    · exact hclock.2.2 c' hc' c (List.mem_singleton_self c)
    · rw [List.mem_singleton.1 hc']
  rw [missedSince, List.length_eq_zero_iff, List.filter_eq_nil_iff]
  intro episode _ hany
  obtain ⟨c', hc', hmissed⟩ := (Option.any_eq_true ..).1 hany
  have hsince := of_decide_eq_true (Bool.and_eq_true_iff.1 hmissed).2
  exact absurd hlt (not_lt.2 (hsince.trans (hle c' (of_latest hc').1)))

/-- A lookup adds at most one "no entry" answer. -/
theorem missedSince_lookup_le (h : Tracks es s) (c : SeriesCall) (series : Source × String) (lastEnd : Datetime) :
    missedSince (es ++ [.lookup c]) series lastEnd ≤
      missedSince es series lastEnd + if c.series = series ∧ c.found = false ∧ lastEnd ≤ c.now then 1 else 0 := by
  rw [← countP_eq_missedSince (tracks_answer h c rfl : Tracks _ (s.answer c)), ← countP_eq_missedSince h]
  refine (countP_put_le s.lookups c.row _).trans (Nat.add_le_add_left (Nat.le_of_eq ?_) _)
  refine if_congr ?_ rfl rfl
  rw [Bool.and_eq_true, decide_eq_true_eq, SeriesCall.series_row, SeriesCall.missedSince_row]

/-- With nothing to hold a pause back, they stay few until it starts. -/
theorem Paused.few_step {start lastEnd : Datetime} (h : Paused cfg series start es s)
    (hend : start.add cfg.pause = some lastEnd) (hfew : Few cfg series lastEnd es) (hno : NoStart cfg series s e)
    (hnoAnswers : NoAnswers series s e) (hf : ∀ c, e = .lookup c → c.series = series → c.found = false)
    (hstep : SeriesDb.step cfg s e = some s') : Few cfg series lastEnd (es ++ [e]) := by
  cases e with
  | store db =>
    have hsame : missedSince (es ++ [.store db]) series lastEnd = missedSince es series lastEnd := by
      simp only [missedSince, latest_store, episodesOf]
      simp [callsOf]
    rwa [Few, hsame]
  | lookup c =>
    have hle := missedSince_lookup_le h.tracks c series lastEnd
    by_cases hc : c.series = series ∧ c.found = false ∧ lastEnd ≤ c.now
    · obtain ⟨rfl, hfound, hpast⟩ := hc
      refine .inl ?_
      by_contra hmany
      -- Nothing was found, and nothing is stored: with that many the answer would have started a pause.
      refine hno c rfl rfl ⟨hfound, lastEnd.isoformat, ?_, ?_⟩
      · have hend' : SeriesDb.endOf cfg start.isoformat = some lastEnd := by
          rw [SeriesDb.endOf, Datetime.fromisoformat_isoformat, Option.bind_some, hend]
        simp only [SeriesDb.countedFrom, h.pausedAt, hend', Option.bind_some, if_neg (not_lt.2 hpast)]
      · refine pauseDue_iff.2 ⟨fun r hr hs => ?_, ?_, hnoAnswers c rfl rfl⟩
        · rcases Table.mem_put.1 hr with rfl | ⟨hr, -⟩
          · exact hfound
          · exact h.none_found r hr hs
        · rw [countP_eq_missedSince (tracks_answer h.tracks c rfl)]
          exact not_lt.1 hmany
    · rw [if_neg hc, Nat.add_zero] at hle
      rcases hfew with hlt | hzero
      · exact .inl (lt_of_le_of_lt (Int.ofNat_le.2 hle) hlt)
      · exact .inr (Nat.le_zero.1 (hzero ▸ hle))

theorem Paused.few_run {start lastEnd : Datetime} {es' : List SeriesEvent} (h : Paused cfg series start es s)
    (hend : start.add cfg.pause = some lastEnd) (hfew : Few cfg series lastEnd es)
    (hrun : Runs (SeriesDb.step cfg) (NoStart cfg series) s es' s')
    (hnoAnswers : Runs (SeriesDb.step cfg) (NoAnswers series) s es' s')
    (hnone : ∀ c ∈ callsOf es', c.series = series → c.found = false) : Few cfg series lastEnd (es ++ es') := by
  refine ((hrun.and hnoAnswers).mem.keeps_from (I := fun es s => Paused cfg series start es s ∧
    Few cfg series lastEnd es) ⟨h, hfew⟩ fun es s e s' hc hstep hp => ?_).2
  have hf : ∀ c, e = .lookup c → c.series = series → c.found = false :=
    fun c he => hnone c (mem_callsOf.2 (he ▸ hc.2))
  exact ⟨hp.1.step hc.1.1 hf hstep, hp.1.few_step hend hp.2 hc.1.1 hc.1.2 hf hstep⟩

/-- An answer counts itself. -/
theorem one_le_missedSince {lastEnd : Datetime} (hs : c.series = series) (hf : c.found = false)
    (hle : lastEnd ≤ c.now) : 1 ≤ missedSince (es ++ [.lookup c]) series lastEnd := by
  subst hs
  refine List.length_pos_of_mem (a := c.episode) (List.mem_filter.2 ⟨List.mem_dedup.2 (List.mem_map.2 ⟨c, ?_, rfl⟩), ?_⟩)
  · exact List.mem_filter.2 ⟨mem_callsOf.2 (List.mem_append_right _ (.head _)), decide_eq_true rfl⟩
  · have hlatest : latest (es ++ [.lookup c]) (c.series.1, c.series.2, c.episode) = some c :=
      (latest_lookup es c _).trans (if_pos rfl)
    rw [hlatest, Option.any_some, hf]
    simpa using hle

/-- **The pauses of a series follow one another.** A pause starts only at a "no entry" answer, when none runs, no
episode's latest answer is found and no file under the show's folder has a stored one. When no answer was found since
the last pause began, the next starts at its end or later, and at least `misses` episodes have a latest answer of
"no entry" given since; just `misses` (or the one, where that is less than one) when no file of the show had a stored
answer at the lookups between. A running pause goes on as it began until an answer is found; and from a found answer
on the series is not paused until a pause starts. -/
theorem pauses_in_turn (cfg : Pausing) :
    (∀ es s c, Runs (SeriesDb.step cfg) Any SeriesDb.empty es s → s.Starts cfg c →
      c.found = false ∧
      (∀ pausedAt, s.pausedAt c.series = some pausedAt →
        ∃ lastEnd, SeriesDb.endOf cfg pausedAt = some lastEnd ∧ lastEnd ≤ c.now) ∧
      (∀ episode c', latest (es ++ [.lookup c]) (c.source, c.seriesKey, episode) = some c' → c'.found = false) ∧
      ¬ AnswersUnder s.db c.source c.showFolder) ∧
    (∀ es₁ s₁ c₁ s₁' lastEnd es₂ s₂ c₂, Runs (SeriesDb.step cfg) Any SeriesDb.empty es₁ s₁ → s₁.Starts cfg c₁ →
      SeriesDb.step cfg s₁ (.lookup c₁) = some s₁' → c₁.now.add cfg.pause = some lastEnd →
      Runs (SeriesDb.step cfg) (NoStart cfg c₁.series) s₁' es₂ s₂ → s₂.Starts cfg c₂ → c₂.series = c₁.series →
      (∀ c ∈ callsOf es₂, c.series = c₁.series → c.found = false) →
      lastEnd ≤ c₂.now ∧
      cfg.misses ≤ missedSince (es₁ ++ [.lookup c₁] ++ es₂ ++ [.lookup c₂]) c₁.series lastEnd ∧
      (0 < cfg.pause → Clocked (es₁ ++ [.lookup c₁]) →
        Runs (SeriesDb.step cfg) (NoAnswers c₁.series) s₁' es₂ s₂ →
        (missedSince (es₁ ++ [.lookup c₁] ++ es₂ ++ [.lookup c₂]) c₁.series lastEnd : ℤ) = max cfg.misses 1)) ∧
    (∀ s e s' series pausedAt, SeriesDb.step cfg s e = some s' → s.pausedAt series = some pausedAt →
      s'.pausedAt series = some pausedAt ∨ ∃ c, e = .lookup c ∧ c.series = series ∧
        (c.found = true ∧ s'.pausedAt series = none ∨
          s.Starts cfg c ∧ ∃ lastEnd, SeriesDb.endOf cfg pausedAt = some lastEnd ∧ lastEnd ≤ c.now)) ∧
    ∀ s c s' es s'', SeriesDb.step cfg s (.lookup c) = some s' → c.found = true →
      Runs (SeriesDb.step cfg) (NoStart cfg c.series) s' es s'' →
      ∀ showFolder now, s''.seriesLookupsPausedUntil cfg c.series showFolder now = some none := by
  refine ⟨fun es s c hrun hstart => ?_, ?_, fun s e s' series pausedAt hstep hp => ?_, fun s c s' es s'' hstep hf hrun
    showFolder now => ?_⟩
  · exact (tracks_of_run tracks_empty hrun).of_starts hstart
  · intro es₁ s₁ c₁ s₁' lastEnd es₂ s₂ c₂ hrun₁ hstart₁ hstep₁ hend hrun₂ hstart₂ hseries hnone
    have hpaused := Paused.of_starts (tracks_of_run tracks_empty hrun₁) hstart₁ hstep₁
    rw [List.nil_append] at hpaused
    have hlast := hpaused.run hrun₂ hnone
    obtain ⟨hle, hmany⟩ := hlast.missed_of_starts hend hstart₂ hseries
    refine ⟨hle, hmany, fun hpause hclock hnoAnswers => ?_⟩
    have hlt : c₁.now < lastEnd := by
      rw [Datetime.lt_def, Datetime.add_eq_some_iff.1 hend]
      omega
    have hzero := missedSince_eq_zero c₁.series hclock hlt
    have hfew := hpaused.few_run hend (.inr hzero) hrun₂ hnoAnswers hnone
    have hone := missedSince_lookup_le hlast.tracks c₂ c₁.series lastEnd
    rw [if_pos ⟨hseries, hstart₂.1, hle⟩] at hone
    have hself : 1 ≤ missedSince (es₁ ++ [.lookup c₁] ++ es₂ ++ [.lookup c₂]) c₁.series lastEnd :=
      one_le_missedSince hseries hstart₂.1 hle
    rcases hfew with hlt | hzero
    · omega
    · omega
  · cases e with
    | lookup c =>
      rcases pausedAt_of_step hstep series with ⟨-, hsame⟩ | ⟨hs, ⟨hf, hnone⟩ | ⟨hstart, -⟩ | ⟨-, -, hsame⟩⟩
      · exact .inl (hsame.trans hp)
      · exact .inr ⟨c, rfl, hs, .inl ⟨hf, hnone⟩⟩
      · refine .inr ⟨c, rfl, hs, .inr ⟨hstart, ?_⟩⟩
        obtain ⟨lastEnd, hend, hle⟩ := end_of_starts hstart (hs ▸ hp)
        exact ⟨lastEnd, hend, hle⟩
      · exact .inl (hsame.trans hp)
    | store db =>
      obtain rfl := Option.some.inj hstep
      exact .inl hp
  · have hunpaused : s''.pausedAt c.series = none := by
      have hfirst : s'.pausedAt c.series = none := by
        rcases pausedAt_of_step hstep c.series with ⟨hne, -⟩ | ⟨-, ⟨-, hnone⟩ | ⟨hstart, -⟩ | ⟨hnot, -, -⟩⟩
        · exact absurd rfl hne
        · exact hnone
        · rw [hstart.1] at hf
          cases hf
        · rw [hf] at hnot
          cases hnot
      refine hrun.keeps (I := fun s => s.pausedAt c.series = none) hfirst fun s e s' hno hstep hs => ?_
      cases e with
      | lookup c' =>
        rcases pausedAt_of_step hstep c.series with ⟨-, hsame⟩ | ⟨heq, ⟨-, hnone⟩ | ⟨hstart, -⟩ | ⟨-, -, hsame⟩⟩
        · exact hsame.trans hs
        · exact hnone
        · exact absurd hstart (hno c' rfl heq)
        · exact hsame.trans hs
      | store db =>
        obtain rfl := Option.some.inj hstep
        exact hs
    rw [SeriesDb.seriesLookupsPausedUntil, hunpaused]

/-- A file of the show with a stored intro. -/
def answered : Db :=
  { Db.empty with
    files := ⟨[{ id := 1, canonicalPath := "/tv/Show/1.mkv", size := 1, mtimeNs := 1, durationMs := none,
                 seasonKey := none, isMovie := false, missingSince := none, updatedAt := "" }],
              List.nodup_singleton _, List.nodup_singleton _⟩
    evidence := ⟨[⟨1, 1, .theintrodb, "", "", some .intro, some 0, some 1, none, "", ""⟩], List.nodup_singleton _⟩ }

/-- Three "no entry" answers pause a series for a week. -/
def weekly : Pausing := ⟨3, 604800000000⟩

/-- The start of a day of January 2024. -/
def january (day : Fin 31) : Datetime := ⟨63839577600000000 + day * 86400000000, by
  have hmax : 63839577600000000 + 31 * 86400000000 ≤ maxMicros := by decide
  omega⟩

/-- A "no entry" answer for an episode. -/
def miss (episode : String) (now : Datetime) : SeriesCall := ⟨.theintrodb, "tvdb:1", episode, false, "/tv/Show", now⟩

/-- Two episodes without an entry. -/
def twoMissed : List SeriesEvent := [.lookup (miss "S01E01" (january 1)), .lookup (miss "S01E02" (january 1))]

/-- The tables after them. -/
def twoRows : SeriesDb := (exec (SeriesDb.step weekly) SeriesDb.empty twoMissed).get (by decide +kernel)

/-- The third starts a pause. -/
def pausedRows : SeriesDb := (SeriesDb.step weekly twoRows (.lookup (miss "S01E03" (january 1)))).get (by decide +kernel)

theorem step_twoRows : SeriesDb.step weekly twoRows (.lookup (miss "S01E03" (january 1))) = some pausedRows :=
  (Option.some_get _).symm

theorem starts_twoRows : twoRows.Starts weekly (miss "S01E03" (january 1)) := by decide +kernel

/-- Two more, after the pause. -/
def twoMore : List SeriesEvent := [.lookup (miss "S01E04" (january 8)), .lookup (miss "S01E05" (january 8))]

/-- One of them, and the other. -/
def oneMore : SeriesDb := (SeriesDb.step weekly pausedRows (.lookup (miss "S01E04" (january 8)))).get (by decide +kernel)

@[inherit_doc oneMore]
def bothMore : SeriesDb := (SeriesDb.step weekly oneMore (.lookup (miss "S01E05" (january 8)))).get (by decide +kernel)

/-- Neither is held back, and neither starts a pause. -/
theorem run_twoMore {C : SeriesDb → SeriesEvent → Prop}
    (h₁ : C pausedRows (.lookup (miss "S01E04" (january 8)))) (h₂ : C oneMore (.lookup (miss "S01E05" (january 8)))) :
    Runs (SeriesDb.step weekly) C pausedRows twoMore bothMore :=
  .cons h₁ (Option.some_get _).symm (.cons h₂ (Option.some_get _).symm (.nil _))

/-- After a third and the week, it takes three more. -/
theorem pauses_in_turn_weekly : twoRows.Starts weekly (miss "S01E03" (january 1)) ∧
    bothMore.Starts weekly (miss "S01E01" (january 8)) ∧
    (missedSince (twoMissed ++ [.lookup (miss "S01E03" (january 1))] ++ twoMore ++ [.lookup (miss "S01E01" (january 8))])
      (.theintrodb, "tvdb:1") (january 8) : ℤ) = max weekly.misses 1 := by
  have hstart : bothMore.Starts weekly (miss "S01E01" (january 8)) := by decide +kernel
  have hno : ∀ s c, ¬ s.Starts weekly c → NoStart weekly (.theintrodb, "tvdb:1") s (.lookup c) := by
    intro s c hnot c' hc' _
    exact SeriesEvent.lookup.inj hc' ▸ hnot
  have hnoAnswers : ∀ s c, seriesHasAnswers s.db c.source c.showFolder = false →
      NoAnswers (.theintrodb, "tvdb:1") s (.lookup c) := by
    intro s c hnot c' hc' _
    rw [← SeriesEvent.lookup.inj hc', ← seriesHasAnswers_iff, hnot]
    exact Bool.false_ne_true
  have hrun := (pauses_in_turn weekly).2.1 twoMissed twoRows (miss "S01E03" (january 1)) pausedRows (january 8) twoMore
    bothMore (miss "S01E01" (january 8)) (.of_exec (fun _ _ _ => trivial) (Option.some_get _).symm) starts_twoRows
    step_twoRows (by decide) (run_twoMore (hno _ _ (by decide +kernel)) (hno _ _ (by decide +kernel))) hstart rfl
    (fun c hc _ => by
      rw [mem_callsOf, twoMore, List.mem_cons, List.mem_singleton] at hc
      rcases hc with hc | hc <;> rw [SeriesEvent.lookup.inj hc] <;> rfl)
  refine ⟨starts_twoRows, hstart, hrun.2.2 (by decide) (by unfold Clocked; decide +kernel) ?_⟩
  exact run_twoMore (hnoAnswers _ _ (by decide +kernel)) (hnoAnswers _ _ (by decide +kernel))

/-- Four episodes answer while a file of the show has a stored answer, which then goes. -/
def heldBack : List SeriesEvent :=
  [.store answered, .lookup (miss "S01E04" (january 8)), .lookup (miss "S01E05" (january 8)),
    .lookup (miss "S01E06" (january 8)), .lookup (miss "S01E07" (january 8)), .store Db.empty]

/-- The tables after them. -/
def heldBackRows : SeriesDb := (exec (SeriesDb.step weekly) pausedRows heldBack).get (by decide +kernel)

/-- **A pause held back starts after more.** A week after its first pause, four episodes of the series answer
"no entry" while a file of the show has a stored answer; once it has none, the next "no entry" starts a pause, the
fifth since the first pause's end. -/
theorem pause_after_more : exec (SeriesDb.step weekly) SeriesDb.empty twoMissed = some twoRows ∧
    twoRows.Starts weekly (miss "S01E03" (january 1)) ∧
    SeriesDb.step weekly twoRows (.lookup (miss "S01E03" (january 1))) = some pausedRows ∧
    (january 1).add weekly.pause = some (january 8) ∧
    exec (SeriesDb.step weekly) pausedRows heldBack = some heldBackRows ∧
    heldBackRows.pausedAt (.theintrodb, "tvdb:1") = some (january 1).isoformat ∧
    heldBackRows.Starts weekly (miss "S01E08" (january 8)) ∧ weekly.misses = 3 ∧
    missedSince (twoMissed ++ [.lookup (miss "S01E03" (january 1))] ++ heldBack ++
      [.lookup (miss "S01E08" (january 8))]) (.theintrodb, "tvdb:1") (january 8) = 5 := by
  refine ⟨(Option.some_get _).symm, starts_twoRows, step_twoRows, by decide, (Option.some_get _).symm, ?_, ?_, rfl, ?_⟩
  · decide +kernel
  · decide +kernel
  · decide +kernel

end MediaPreview.Store
