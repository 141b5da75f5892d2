import MediaPreview.Lib.Isoformat
import MediaPreview.Lib.Runs
import MediaPreview.Lib.Separators
import MediaPreview.Store.Schema

/-!
# Pausing the lookups of a series

`record_series_lookup` and `series_lookups_paused_until` (`markers/store.py`): what an online source answered for each
episode of a series, and since when the series is not asked about. The times are stored, and compared, as their ISO
text. A call that raises in its transaction leaves everything as it was, and is no step here.

What was answered is kept in the rows (`Tracks`), so a count of rows is a count of episodes (`countP_eq_missedSince`).
-/

namespace MediaPreview.Store

open Markers

/-! ### Files of a folder -/

/-- A path is the folder's own text and more just when it sorts from `folder/` to before `folder0`. -/
theorem between_iff_prefix : ∀ a p : List Char, ¬ p < a ++ ['/'] ∧ p < a ++ ['0'] ↔ a ++ ['/'] <+: p
  | [], [] => by simp
  | [], c :: p => by
    have hchar : ¬ c < '/' ∧ c < '0' ↔ c = '/' := by
      simp only [Char.lt_def, UInt32.lt_iff_toNat_lt, Char.ext_iff, ← UInt32.toNat_inj]
      show ¬ c.val.toNat < 47 ∧ c.val.toNat < 48 ↔ c.val.toNat = 47
      omega
    simp only [List.nil_append, List.cons_lt_cons_iff, List.not_lt_nil, and_false, or_false, List.cons_prefix_cons,
      List.nil_prefix, and_true, hchar]
    exact eq_comm
  | x :: a, [] => by simp
  | x :: a, c :: p => by
    have ih := between_iff_prefix a p
    simp only [List.cons_append, List.cons_lt_cons_iff, List.cons_prefix_cons, ← ih]
    constructor
    · rintro ⟨hle, hlt | ⟨rfl, hlt⟩⟩
      · exact absurd (.inl hlt) hle
      · exact ⟨rfl, fun hp => hle (.inr ⟨rfl, hp⟩), hlt⟩
    · rintro ⟨rfl, hle, hlt⟩
      exact ⟨fun h => h.elim (fun h => absurd h (lt_irrefl _)) fun h => hle h.2, .inr ⟨rfl, hlt⟩⟩

/-- `show_folder.rstrip("/")`. -/
def stripFolder (showFolder : String) : String := String.ofList (Separators.rstrip '/' showFolder.toList)

/-- `_series_has_answers`. -/
def seriesHasAnswers (db : Db) (source : Source) (showFolder : String) : Bool :=
  let folder := stripFolder showFolder
  if folder = "" then false
  else db.files.rows.any fun f =>
    folder ++ "/" ≤ f.canonicalPath && f.canonicalPath < folder ++ "0" &&
      db.evidence.any fun e => e.fileId = f.id && e.source = source && e.origin = "" && e.type.isSome

/-- A file under the show's folder has a stored answer with a marker in it. -/
def AnswersUnder (db : Db) (source : Source) (showFolder : String) : Prop :=
  stripFolder showFolder ≠ "" ∧ ∃ f ∈ db.files.rows,
    (stripFolder showFolder).toList ++ ['/'] <+: f.canonicalPath.toList ∧
      ∃ e ∈ db.evidence, e.fileId = f.id ∧ e.source = source ∧ e.origin = "" ∧ e.type.isSome = true

theorem seriesHasAnswers_iff {db : Db} {source : Source} {showFolder : String} :
    seriesHasAnswers db source showFolder = true ↔ AnswersUnder db source showFolder := by
  unfold seriesHasAnswers AnswersUnder
  dsimp only
  split_ifs with h
  · exact iff_of_false (fun hf => hf) fun hu => hu.1 h
  · have hrange : ∀ f : FileRow, (stripFolder showFolder ++ "/" ≤ f.canonicalPath ∧
        f.canonicalPath < stripFolder showFolder ++ "0") ↔
          (stripFolder showFolder).toList ++ ['/'] <+: f.canonicalPath.toList := by
      intro f
      rw [← between_iff_prefix, ← not_lt, String.lt_iff, String.lt_iff, String.toList_append, String.toList_append]
      rfl
    simp only [List.any_eq_true, Bool.and_eq_true, decide_eq_true_eq, hrange, Table.any_eq_true, and_assoc,
      iff_true_intro h, true_and]

/-! ### The tables -/

/-- A row of `series_lookups`. -/
structure LookupRow where
  /-- The source asked. -/
  source : Source
  /-- The series. -/
  seriesKey : String
  /-- The episode. -/
  episode : String
  /-- Whether it had anything. -/
  found : Bool
  /-- When it answered. -/
  answeredAt : String
  deriving DecidableEq

/-- Its primary key. -/
def LookupRow.key (r : LookupRow) : Source × String × String := (r.source, r.seriesKey, r.episode)

/-- A row of `series_pauses`. -/
structure PauseRow where
  /-- The source. -/
  source : Source
  /-- The series. -/
  seriesKey : String
  /-- Since when it is not asked. -/
  pausedAt : String
  deriving DecidableEq

/-- Its primary key. -/
def PauseRow.key (r : PauseRow) : Source × String := (r.source, r.seriesKey)

/-- The database and the two tables of the lookups. -/
structure SeriesDb where
  /-- The tables of the files and their evidence. -/
  db : Db
  /-- `series_lookups`. -/
  lookups : Table LookupRow LookupRow.key
  /-- `series_pauses`. -/
  pauses : Table PauseRow PauseRow.key

/-- What every call gives for a series' pauses. -/
structure Pausing where
  /-- `misses`. -/
  misses : ℤ
  /-- `pause`, in microseconds. -/
  pause : ℕ

/-- The arguments of `record_series_lookup`, and the time. -/
structure SeriesCall where
  /-- The source asked. -/
  source : Source
  /-- The series. -/
  seriesKey : String
  /-- The episode. -/
  episode : String
  /-- Whether it had anything. -/
  found : Bool
  /-- The show's folder. -/
  showFolder : String
  /-- The clock. -/
  now : Datetime

namespace SeriesCall

/-- The series asked about. -/
def series (c : SeriesCall) : Source × String := (c.source, c.seriesKey)

/-- The key of its row. -/
def key (c : SeriesCall) : Source × String × String := (c.source, c.seriesKey, c.episode)

/-- The row it is stored as. -/
def row (c : SeriesCall) : LookupRow := ⟨c.source, c.seriesKey, c.episode, c.found, c.now.isoformat⟩

@[simp] theorem key_row (c : SeriesCall) : c.row.key = c.key := rfl

end SeriesCall

/-- The series of a row. -/
def LookupRow.series (r : LookupRow) : Source × String := (r.source, r.seriesKey)

@[simp] theorem SeriesCall.series_row (c : SeriesCall) : c.row.series = c.series := rfl

/-- Whether a row is a "no entry" answer since a time. -/
def LookupRow.missedSince (r : LookupRow) (since : String) : Bool := !r.found && since ≤ r.answeredAt

theorem SeriesCall.missedSince_row {c : SeriesCall} {since : Datetime} :
    c.row.missedSince since.isoformat = true ↔ c.found = false ∧ since ≤ c.now := by
  simp only [LookupRow.missedSince, SeriesCall.row, Bool.and_eq_true, Bool.not_eq_true', decide_eq_true_eq,
    Datetime.isoformat_le_iff]

namespace SeriesDb

/-- Nothing was looked up yet. -/
def empty : SeriesDb := ⟨Db.empty, Table.empty, Table.empty⟩

/-- `SELECT paused_at`. -/
def pausedAt (s : SeriesDb) (series : Source × String) : Option String :=
  (s.pauses.get? fun r => r.key = series).map PauseRow.pausedAt

/-- The answer is stored. -/
def answer (s : SeriesDb) (c : SeriesCall) : SeriesDb := { s with lookups := s.lookups.put c.row }

/-- The test before a pause starts, with the answer stored. -/
def pauseDue (cfg : Pausing) (s : SeriesDb) (c : SeriesCall) (countedFrom : String) : Bool :=
  !(s.lookups.rows.any fun r => r.series = c.series && r.found) &&
    !decide ((s.lookups.rows.countP fun r => r.series = c.series && r.missedSince countedFrom : ℤ) < cfg.misses) &&
    !seriesHasAnswers s.db c.source c.showFolder

/-- A pause starts. -/
def startPause (s : SeriesDb) (c : SeriesCall) : SeriesDb :=
  { s with pauses := s.pauses.put ⟨c.source, c.seriesKey, c.now.isoformat⟩ }

/-- The end of a pause; `none` where reading or adding raises. -/
def endOf (cfg : Pausing) (pausedAt : String) : Option Datetime :=
  (Datetime.fromisoformat pausedAt).bind fun d => d.add cfg.pause

/-- The end of `record_series_lookup`. -/
def finish (cfg : Pausing) (s : SeriesDb) (c : SeriesCall) (countedFrom : String) : SeriesDb × Option Datetime :=
  if pauseDue cfg s c countedFrom then (s.startPause c, c.now.add cfg.pause) else (s, none)

/-- `record_series_lookup`, with what it returns: `none` too for the `OverflowError` once the pause is stored. -/
def recordSeriesLookup (cfg : Pausing) (s : SeriesDb) (c : SeriesCall) : Option (SeriesDb × Option Datetime) :=
  let s := s.answer c
  if c.found then some ({ s with pauses := s.pauses.delete fun r => r.key = c.series }, none)
  else
    match s.pausedAt c.series with
    | none => some (finish cfg s c "")
    | some pausedAt => do
      let lastEnd ← endOf cfg pausedAt
      if c.now < lastEnd then return (s, none)
      return finish cfg s c lastEnd.isoformat

/-- `series_lookups_paused_until`; `none` where it raises. -/
def seriesLookupsPausedUntil (cfg : Pausing) (s : SeriesDb) (series : Source × String) (showFolder : String)
    (now : Datetime) : Option (Option Datetime) :=
  match s.pausedAt series with
  | none => some none
  | some pausedAt => do
    let until' ← endOf cfg pausedAt
    if until' ≤ now ∨ seriesHasAnswers s.db series.1 showFolder then return none
    return some until'

end SeriesDb

/-- What happens to the tables. -/
inductive SeriesEvent where
  /-- A lookup is recorded. -/
  | lookup (c : SeriesCall)
  /-- The files and their evidence change. -/
  | store (db : Db)

namespace SeriesDb

/-- One step. -/
def step (cfg : Pausing) (s : SeriesDb) : SeriesEvent → Option SeriesDb
  | .lookup c => (recordSeriesLookup cfg s c).map Prod.fst
  | .store db => some { s with db := db }

/-- From when "no entry" answers count; `none` during a pause. -/
def countedFrom (cfg : Pausing) (s : SeriesDb) (c : SeriesCall) : Option String :=
  match s.pausedAt c.series with
  | none => some ""
  | some pausedAt => (endOf cfg pausedAt).bind fun lastEnd => if c.now < lastEnd then none else some lastEnd.isoformat

/-- A lookup starts a pause of its series. -/
def Starts (cfg : Pausing) (s : SeriesDb) (c : SeriesCall) : Prop :=
  c.found = false ∧ ∃ since, countedFrom cfg s c = some since ∧ pauseDue cfg (s.answer c) c since = true

instance (cfg : Pausing) (s : SeriesDb) (c : SeriesCall) : Decidable (Starts cfg s c) :=
  decidable_of_iff (c.found = false ∧ (countedFrom cfg s c).any fun since => pauseDue cfg (s.answer c) c since) <| by
    rw [Option.any_eq_true]
    exact Iff.rfl

/-- **What a recorded lookup does.** -/
theorem recordSeriesLookup_cases {cfg : Pausing} {s s' : SeriesDb} {c : SeriesCall} {until' : Option Datetime}
    (h : recordSeriesLookup cfg s c = some (s', until')) :
    (c.found = true ∧ s' = { s.answer c with pauses := s.pauses.delete fun r => r.key = c.series } ∧ until' = none) ∨
    (c.found = false ∧ s' = s.answer c ∧ until' = none ∧
      ((∃ pausedAt lastEnd, s.pausedAt c.series = some pausedAt ∧ endOf cfg pausedAt = some lastEnd ∧ c.now < lastEnd) ∨
        ∃ since, countedFrom cfg s c = some since ∧ pauseDue cfg (s.answer c) c since = false)) ∨
    (Starts cfg s c ∧ s' = (s.answer c).startPause c ∧ until' = c.now.add cfg.pause) := by
  have hfinish : ∀ since, c.found = false → countedFrom cfg s c = some since →
      finish cfg (s.answer c) c since = (s', until') →
      (c.found = false ∧ s' = s.answer c ∧ until' = none ∧
        ∃ since, countedFrom cfg s c = some since ∧ pauseDue cfg (s.answer c) c since = false) ∨
      (Starts cfg s c ∧ s' = (s.answer c).startPause c ∧ until' = c.now.add cfg.pause) := by
    intro since hf hsince heq
    unfold finish at heq
    split_ifs at heq with hdue
    · obtain ⟨rfl, rfl⟩ := Prod.mk.inj heq
      exact .inr ⟨⟨hf, since, hsince, hdue⟩, rfl, rfl⟩
    · obtain ⟨rfl, rfl⟩ := Prod.mk.inj heq
      exact .inl ⟨hf, rfl, rfl, since, hsince, Bool.eq_false_iff.2 hdue⟩
  unfold recordSeriesLookup at h
  dsimp only at h
  split_ifs at h with hf
  · obtain ⟨rfl, rfl⟩ := Prod.mk.inj (Option.some.inj h)
    exact .inl ⟨hf, rfl, rfl⟩
  have hf := Bool.eq_false_iff.2 hf
  have hpaused : (s.answer c).pausedAt c.series = s.pausedAt c.series := rfl
  rw [hpaused] at h
  refine .inr ?_
  cases hp : s.pausedAt c.series with
  | none =>
    rw [hp] at h
    have hsince : countedFrom cfg s c = some "" := by rw [countedFrom, hp]
    rcases hfinish "" hf hsince (Option.some.inj h) with ⟨h1, h2, h3, h4⟩ | h
    · exact .inl ⟨h1, h2, h3, .inr h4⟩
    · exact .inr h
  | some pausedAt =>
    rw [hp] at h
    obtain ⟨lastEnd, hend, h⟩ := Option.bind_eq_some_iff.1 h
    split_ifs at h with hlt
    · obtain ⟨rfl, rfl⟩ := Prod.mk.inj (Option.some.inj h)
      exact .inl ⟨hf, rfl, rfl, .inl ⟨pausedAt, lastEnd, rfl, hend, hlt⟩⟩
    · have hsince : countedFrom cfg s c = some lastEnd.isoformat := by
        rw [countedFrom, hp]
        show (endOf cfg pausedAt).bind _ = _
        rw [hend, Option.bind_some, if_neg hlt]
      rcases hfinish lastEnd.isoformat hf hsince (Option.some.inj h) with ⟨h1, h2, h3, h4⟩ | h
      · exact .inl ⟨h1, h2, h3, .inr h4⟩
      · exact .inr h

/-! ### Pauses -/

theorem get?_put {t : Table PauseRow PauseRow.key} {x : PauseRow} {series : Source × String} :
    ((t.put x).get? fun r => r.key = series) = if x.key = series then some x else t.get? fun r => r.key = series := by
  have hfilter : ∀ l : List PauseRow, x.key ≠ series →
      (l.filter fun r => r.key ≠ x.key).find? (fun r => r.key = series) = l.find? fun r => r.key = series := by
    intro l hne
    rw [List.find?_filter]
    congr 1
    funext r
    by_cases hr : r.key = series
    · simp [hr, Ne.symm hne]
    · simp [hr]
  unfold Table.get? Table.put
  rw [List.find?_append]
  split_ifs with hx
  · have hnone : (t.rows.filter fun r => r.key ≠ x.key).find? (fun r => r.key = series) = none := by
      rw [List.find?_eq_none]
      intro r hr hkey
      exact of_decide_eq_true (List.mem_filter.1 hr).2 ((of_decide_eq_true hkey).trans hx.symm)
    rw [hnone, Option.none_or, List.find?_singleton, if_pos (decide_eq_true hx)]
  · rw [hfilter _ hx, List.find?_singleton, if_neg (by simpa using hx), Option.or_none]

theorem pausedAt_startPause (s : SeriesDb) (c : SeriesCall) (series : Source × String) :
    (s.startPause c).pausedAt series = if c.series = series then some c.now.isoformat else s.pausedAt series := by
  unfold pausedAt startPause
  rw [get?_put]
  split_ifs with h h' h'
  · rfl
  · exact absurd h h'
  · exact absurd h' h
  · rfl

theorem pausedAt_delete (s : SeriesDb) (c : SeriesCall) (series : Source × String) :
    SeriesDb.pausedAt { s.answer c with pauses := s.pauses.delete fun r => r.key = c.series } series =
      if c.series = series then none else s.pausedAt series := by
  unfold pausedAt Table.get? Table.delete
  dsimp only
  rw [List.find?_filter]
  split_ifs with h
  · subst h
    rw [Option.map_eq_none_iff, List.find?_eq_none]
    intro r _
    simp
  · congr 2
    funext r
    by_cases hr : r.key = series
    · simp [hr, Ne.symm h]
    · simp [hr]

end SeriesDb

end MediaPreview.Store
