import MediaPreview.Jobs.GroupSettings
import MediaPreview.Lib.Numeral

/-!
# Quiet hours

`quiet_hours.py`: the hours of the week in which everything pauses, as they are stored (an older single window, older
windows, or windows by the day they start on) and as `migrate_quiet_hours` rewrites them. An older window that ends before it
starts pauses the morning and the evening of each of its days; a newer one runs from its day into the next. The rewritten
value pauses the minutes the stored one does, and rewriting it again changes nothing (`migration_keeps`).

Only a text reads as a time or a day: of every other value `str` gives something that is neither.
-/

namespace MediaPreview.Groups

/-! ### Times -/

/-- `_time`. -/
def time (value : PyValue) : Option TimeOfDay :=
  match value with
  | .str text =>
    match text.toList.splitOn ':' with
    | [hour, minute] =>
      (Text.readInt hour).bind fun h => (Text.readInt minute).bind fun m =>
        if 0 ≤ h ∧ h < 24 ∧ 0 ≤ m ∧ m < 60 then some ⟨h.toNat, m.toNat⟩ else none
    | _ => none
  | _ => none

/-- A number below 100, in two digits. -/
def padded (n : ℕ) : List Char := [Nat.digitChar (n / 10), Nat.digitChar (n % 10)]

/-- `HH:MM`. -/
def TimeOfDay.text (t : TimeOfDay) : String := String.ofList (padded t.hour ++ ':' :: padded t.minute)

/-! ### Windows -/

/-- `DAYS`. -/
def dayNames : List String := ["mon", "tue", "wed", "thu", "fri", "sat", "sun"]

/-- A window of quiet hours: its days are of the week, in order, and it is not empty. -/
@[ext]
structure QuietWindow extends Window where
  sublist : toWindow.days.Sublist (List.range 7)
  days_ne_nil : toWindow.days ≠ []
  valid_start : toWindow.start.Valid
  valid_stop : toWindow.stop.Valid
  ne : toWindow.start.minutes ≠ toWindow.stop.minutes

/-- Quiet hours by the days they start on. -/
structure QuietHours where
  /-- `enabled`. -/
  enabled : Bool
  /-- `windows`. -/
  windows : List QuietWindow

/-- `str(day).strip().lower()` is the day's name. -/
def namesDay (value : PyValue) (day : ℕ) : Bool :=
  match value with
  | .str text => String.ofList ((strip text).toList.map Char.toLower) = dayNames.getD day ""
  | _ => false

/-- The days of a window; all days where it names none. -/
def chosenDays (window : List (String × PyValue)) : List ℕ :=
  let chosen := match PyValue.get window "days" with
    | .list days => (List.range 7).filter fun day => days.any fun value => namesDay value day
    | _ => []
  if chosen = [] then List.range 7 else chosen

theorem chosenDays_sublist (window : List (String × PyValue)) : (chosenDays window).Sublist (List.range 7) := by
  unfold chosenDays
  dsimp only
  split_ifs
  · exact List.Sublist.refl _
  · cases PyValue.get window "days" with
    | list days => exact List.filter_sublist
    | _ => exact List.nil_sublist _

theorem chosenDays_ne_nil (window : List (String × PyValue)) : chosenDays window ≠ [] := by
  unfold chosenDays
  dsimp only
  split_ifs with h
  · decide
  · exact h

theorem valid_of_time {value : PyValue} {t : TimeOfDay} (h : time value = some t) : t.Valid := by
  unfold time at h
  split at h
  · split at h
    · obtain ⟨hour, -, h⟩ := Option.bind_eq_some_iff.1 h
      obtain ⟨minute, -, h⟩ := Option.bind_eq_some_iff.1 h
      split_ifs at h with hbounds
      obtain rfl := Option.some.inj h
      refine ⟨show hour.toNat < 24 by omega, show minute.toNat < 60 by omega⟩
    · cases h
  · cases h

/-- A window as it is stored; `none` where it is malformed or empty. -/
def readWindow : PyValue → Option QuietWindow
  | .dict window =>
    match hstart : time (PyValue.get window "start"), hstop : time (PyValue.get window "end") with
    | some start, some stop =>
      if h : start.minutes = stop.minutes then none
      else some
        { days := chosenDays window
          start := start
          stop := stop
          sublist := chosenDays_sublist window
          days_ne_nil := chosenDays_ne_nil window
          valid_start := valid_of_time hstart
          valid_stop := valid_of_time hstop
          ne := h }
    | _, _ => none
  | _ => none

/-- The entries of the stored value. -/
def entriesOf : PyValue → List (String × PyValue)
  | .dict entries => entries
  | _ => []

/-- `raw.get("day_basis") == "start"`. -/
def startBasis (raw : List (String × PyValue)) : Bool := PyValue.eq (PyValue.get raw "day_basis") (.str "start")

/-- `source`: the stored windows, or the older single one. -/
def sourceOf (raw : List (String × PyValue)) : List PyValue :=
  let single := [.dict [("start", PyValue.get raw "start"), ("end", PyValue.get raw "end")]]
  match PyValue.get raw "windows" with
  | .list [] => if startBasis raw then [] else single
  | .list windows => windows
  | _ => single

/-- `00:00`. -/
def TimeOfDay.midnight : TimeOfDay := ⟨0, 0⟩

/-- The windows by start days that pause what an older window pauses. -/
def splitWindow (w : QuietWindow) : List QuietWindow :=
  if h : w.stop.minutes < w.start.minutes then
    let evening : QuietWindow :=
      { w with stop := TimeOfDay.midnight
               valid_stop := by decide
               ne := show w.start.minutes ≠ 0 by omega }
    if hstop : w.stop.minutes = 0 then [evening]
    else
      [{ w with start := TimeOfDay.midnight
                valid_start := by decide
                ne := show 0 ≠ w.stop.minutes by omega }, evening]
  else [w]

/-- `migrate_quiet_hours`. -/
def migrateQuietHours (value : PyValue) : QuietHours :=
  let raw := entriesOf value
  let windows := (sourceOf raw).filterMap readWindow
  { enabled := (PyValue.get raw "enabled").truthy
    windows := if startBasis raw then windows else windows.flatMap splitWindow }

/-- The window, as it is stored. -/
def QuietWindow.value (w : QuietWindow) : PyValue :=
  .dict [("start", .str w.start.text), ("end", .str w.stop.text),
    ("days", .list (w.days.map fun day => .str (dayNames.getD day "")))]

/-- The quiet hours, as they are stored. -/
def QuietHours.value (quiet : QuietHours) : PyValue :=
  .dict [("enabled", .bool quiet.enabled), ("day_basis", .str "start"),
    ("windows", .list (quiet.windows.map QuietWindow.value))]

/-- What `quiet_hours_weekly_mask` makes a mask of. -/
def QuietHours.policy (quiet : QuietHours) : Policy where
  id := ""
  enabled := quiet.enabled
  availability := .scheduled (quiet.windows.map QuietWindow.toWindow)
  resource := .cpu
  device := none
  count := 0
  jobTypes := []
  node := none

/-- `quiet_hours_weekly_mask`. -/
def quietHoursWeeklyMask (value : PyValue) : ℕ := (migrateQuietHours value).policy.groupWeeklyMask

/-! ### What a stored value says -/

/-- The value is a time: the number of an hour and the number of a minute, with a colon between them. -/
def NamesTime (value : PyValue) (t : TimeOfDay) : Prop :=
  t.Valid ∧ ∃ hour minute : List Char, value = .str (String.ofList (hour ++ ':' :: minute)) ∧
    Text.Numeral hour t.hour ∧ Text.Numeral minute t.minute

/-- The value is the name of a day, in either case, with white space around it. -/
def NamesDay (value : PyValue) (day : ℕ) : Prop :=
  ∃ l name r : List Char, value = .str (String.ofList (l ++ name ++ r)) ∧ (∀ c ∈ l, Servers.isSpace c = true) ∧
    (∀ c ∈ r, Servers.isSpace c = true) ∧ name.map Char.toLower = (dayNames.getD day "").toList

/-- The window's list of days names the day. -/
def ListsDay (window : List (String × PyValue)) (day : ℕ) : Prop :=
  day < 7 ∧ ∃ days, PyValue.get window "days" = .list days ∧ ∃ value ∈ days, NamesDay value day

/-- The entry is a window that is not empty, on the days its list names, or on every day where it names none. -/
def IsWindow (entry : PyValue) (w : Window) : Prop :=
  ∃ window, entry = .dict window ∧ NamesTime (PyValue.get window "start") w.start ∧
    NamesTime (PyValue.get window "end") w.stop ∧ w.start ≠ w.stop ∧
    ∀ day, day ∈ w.days ↔ ListsDay window day ∨ day < 7 ∧ ∀ other, ¬ ListsDay window other

/-- The windows are by the days they start on. -/
def ByStart (raw : List (String × PyValue)) : Prop := PyValue.get raw "day_basis" = .str "start"

/-- The entry is of the stored list, or it is the older single window, where there is no list or an older empty one. -/
def Stored (raw : List (String × PyValue)) (entry : PyValue) : Prop :=
  (∃ windows, PyValue.get raw "windows" = .list windows ∧ entry ∈ windows) ∨
    (∀ windows, PyValue.get raw "windows" = .list windows → windows = [] ∧ ¬ ByStart raw) ∧
      entry = .dict [("start", PyValue.get raw "start"), ("end", PyValue.get raw "end")]

/-- An older window pauses its days between its times; one that ends before it starts pauses the morning and the evening
of each of its days. -/
def Window.PausesDay (w : Window) (minute : ℕ) : Prop :=
  ∃ day ∈ w.days, minute / (24 * 60) = day ∧
    if w.start.minutes < w.stop.minutes then
      w.start.minutes ≤ minute % (24 * 60) ∧ minute % (24 * 60) < w.stop.minutes
    else minute % (24 * 60) < w.stop.minutes ∨ w.start.minutes ≤ minute % (24 * 60)

/-- A window by start days pauses its days between its times; one that ends before it starts runs into the next day. -/
def Window.PausesFrom (w : Window) (minute : ℕ) : Prop :=
  ∃ day ∈ w.days,
    if w.start.minutes < w.stop.minutes then
      minute / (24 * 60) = day ∧ w.start.minutes ≤ minute % (24 * 60) ∧ minute % (24 * 60) < w.stop.minutes
    else
      minute / (24 * 60) = day ∧ w.start.minutes ≤ minute % (24 * 60) ∨
        minute / (24 * 60) = (day + 1) % 7 ∧ minute % (24 * 60) < w.stop.minutes

/-- The stored value pauses the minute, by its own rule. -/
def PausedAt (value : PyValue) (minute : ℕ) : Prop :=
  ∃ raw, value = .dict raw ∧ (PyValue.get raw "enabled").truthy = true ∧
    ∃ entry w, Stored raw entry ∧ IsWindow entry w ∧ (ByStart raw ∧ w.PausesFrom minute ∨ ¬ ByStart raw ∧ w.PausesDay minute)

theorem QuietWindow.day_lt (w : QuietWindow) {day : ℕ} (h : day ∈ w.days) : day < 7 :=
  List.mem_range.1 (w.sublist.mem h)

theorem QuietWindow.valid (w : QuietWindow) : w.Valid := ⟨fun _ => w.day_lt, w.valid_start, w.valid_stop⟩

/-- A window is open while it pauses. -/
theorem QuietWindow.openAt_iff (w : QuietWindow) {minute : ℕ} (h : minute < Policy.weekMinutes) :
    w.OpenAt minute ↔ w.PausesFrom minute := by
  have hstart := w.valid_start.minutes_lt
  have hstop := w.valid_stop.minutes_lt
  have hne := w.ne
  have hweek : Policy.weekMinutes = 10080 := rfl
  refine exists_congr fun day => and_congr_right fun hday => ?_
  have hday := w.day_lt hday
  unfold Window.since Window.duration
  rw [hweek] at h ⊢
  split_ifs <;> omega

theorem minutes_midnight : TimeOfDay.midnight.minutes = 0 := rfl

/-- **An older window's minutes are those of the windows it is split into.** -/
theorem pausesFrom_splitWindow (w : QuietWindow) (minute : ℕ) :
    (∃ v ∈ splitWindow w, v.PausesFrom minute) ↔ w.PausesDay minute := by
  unfold splitWindow
  by_cases h : w.stop.minutes < w.start.minutes
  · have hnot : ¬ w.start.minutes < w.stop.minutes := by omega
    rw [dif_pos h]
    dsimp only
    by_cases hstop : w.stop.minutes = 0
    · rw [dif_pos hstop]
      simp only [List.mem_singleton, exists_eq_left, Window.PausesFrom, Window.PausesDay, minutes_midnight,
        Nat.not_lt_zero, if_false, and_false, or_false, hstop, false_or]
    · rw [dif_neg hstop]
      simp only [List.mem_cons, List.not_mem_nil, or_false, exists_eq_or_imp, exists_eq_left, Window.PausesFrom,
        Window.PausesDay, minutes_midnight, if_neg hnot, Nat.not_lt_zero, if_false, and_false,
        if_pos (Nat.pos_of_ne_zero hstop), Nat.zero_le, true_and]
      constructor
      · rintro (⟨day, hday, hat, hlt⟩ | ⟨day, hday, hat, hle⟩)
        · exact ⟨day, hday, hat, .inl hlt⟩
        · exact ⟨day, hday, hat, .inr hle⟩
      · rintro ⟨day, hday, hat, hlt | hle⟩
        · exact .inl ⟨day, hday, hat, hlt⟩
        · exact .inr ⟨day, hday, hat, hle⟩
  · have hlt : w.start.minutes < w.stop.minutes := by
      have := w.ne
      omega
    rw [dif_neg h]
    simp only [List.mem_singleton, exists_eq_left, Window.PausesFrom, Window.PausesDay, if_pos hlt]

/-! ### What a stored value says is what is read -/

theorem splitOn_colon {hour minute : List Char} (hhour : ':' ∉ hour) (hminute : ':' ∉ minute) :
    (hour ++ ':' :: minute).splitOn ':' = [hour, minute] := by
  have hparts : ∀ part ∈ [hour, minute], ':' ∉ part := by
    intro part hpart
    simp only [List.mem_cons, List.not_mem_nil, or_false] at hpart
    obtain rfl | rfl := hpart
    · exact hhour
    · exact hminute
  have hjoin := List.splitOn_intercalate ':' hparts (List.cons_ne_nil _ _)
  simpa [List.intercalate] using hjoin

/-- **`_time` reads the times.** -/
theorem time_eq_some_iff {value : PyValue} {t : TimeOfDay} : time value = some t ↔ NamesTime value t := by
  constructor
  · intro h
    refine ⟨valid_of_time h, ?_⟩
    unfold time at h
    split at h
    · rename_i text
      split at h
      · rename_i hour minute hsplit
        obtain ⟨n, hn, h⟩ := Option.bind_eq_some_iff.1 h
        obtain ⟨m, hm, h⟩ := Option.bind_eq_some_iff.1 h
        split_ifs at h with hbounds
        obtain rfl := Option.some.inj h
        have htext : hour ++ ':' :: minute = text.toList := by
          have hjoin : [':'].intercalate (text.toList.splitOn ':') = text.toList := List.intercalate_splitOn ':'
          rw [hsplit] at hjoin
          simpa [List.intercalate] using hjoin
        refine ⟨hour, minute, ?_, ?_, ?_⟩
        · rw [htext, String.ofList_toList]
        · rw [← Text.readInt_eq_some_iff, hn]
          exact congrArg some (Int.toNat_of_nonneg hbounds.1).symm
        · rw [← Text.readInt_eq_some_iff, hm]
          exact congrArg some (Int.toNat_of_nonneg hbounds.2.2.1).symm
      · cases h
    · cases h
  · rintro ⟨⟨hhour, hminute⟩, hour, minute, rfl, hn, hm⟩
    have hsplit := splitOn_colon hn.colon_notMem hm.colon_notMem
    rw [time, String.toList_ofList, hsplit]
    dsimp only
    rw [Text.readInt_eq_some_iff.2 hn, Text.readInt_eq_some_iff.2 hm]
    dsimp only [Option.bind_some]
    rw [if_pos (by omega)]
    rfl

/-- White space has no other case. -/
theorem toLower_of_isSpace {c : Char} (h : Servers.isSpace c = true) : c.toLower = c := by
  have hspace := of_decide_eq_true h
  unfold Char.toLower
  rw [dif_neg]
  rintro ⟨hle, hge⟩
  have hlow : 65 ≤ c.toNat := hle
  have hhigh : c.toNat ≤ 90 := hge
  omega

theorem all_letters : ∀ day < 7, ((dayNames.getD day "").toList.all fun c => !Servers.isSpace c) = true := by decide +kernel

/-- A day is named where it is read. -/
theorem namesDay_iff {value : PyValue} {day : ℕ} (hday : day < 7) : namesDay value day = true ↔ NamesDay value day := by
  constructor
  · intro h
    unfold namesDay at h
    split at h
    · rename_i text
      obtain ⟨l, r, htext, hl, hr⟩ := Text.exists_append_trim Servers.isSpace text.toList
      refine ⟨l, Servers.strip text.toList, r, ?_, hl, hr, ?_⟩
      · rw [Servers.strip, ← htext, String.ofList_toList]
      · have hname := congrArg String.toList (of_decide_eq_true h)
        rwa [String.toList_ofList, strip, String.toList_ofList] at hname
    · cases h
  · rintro ⟨l, name, r, rfl, hl, hr, hname⟩
    have hnot : ∀ c ∈ name, Servers.isSpace c = false := by
      intro c hc
      by_contra hspace
      rw [Bool.not_eq_false] at hspace
      have hlower := List.all_eq_true.1 (all_letters day hday) c (hname ▸ List.mem_map.2 ⟨c, hc, toLower_of_isSpace hspace⟩)
      rw [hspace] at hlower
      cases hlower
    have hstrip : Servers.strip (l ++ name ++ r) = name :=
      Text.trim_append hl hr (fun c hc => hnot c (List.mem_of_mem_head? hc)) fun c hc =>
        hnot c (List.mem_of_getLast? hc)
    unfold namesDay strip
    dsimp only
    rw [String.toList_ofList, String.toList_ofList, hstrip, hname, String.ofList_toList, decide_eq_true_iff]

/-- The days that are read of a window. -/
theorem mem_chosenDays_iff {window : List (String × PyValue)} {day : ℕ} :
    day ∈ chosenDays window ↔ ListsDay window day ∨ day < 7 ∧ ∀ other, ¬ ListsDay window other := by
  have hmem : ∀ {day : ℕ} {days : List PyValue},
      day ∈ ((List.range 7).filter fun day => days.any fun value => namesDay value day) ↔
        day < 7 ∧ ∃ value ∈ days, NamesDay value day := by
    intro day days
    rw [List.mem_filter, List.mem_range, List.any_eq_true]
    exact and_congr_right fun hday => exists_congr fun value => and_congr_right fun _ => namesDay_iff hday
  unfold chosenDays
  cases hdays : PyValue.get window "days" with
  | list days =>
    have hlists : ∀ day, ListsDay window day ↔
        day ∈ ((List.range 7).filter fun day => days.any fun value => namesDay value day) := by
      intro day
      rw [hmem]
      refine and_congr_right fun _ => ⟨?_, fun h => ⟨days, hdays, h⟩⟩
      rintro ⟨days', hdays', h⟩
      obtain rfl := PyValue.list.inj (hdays.symm.trans hdays')
      exact h
    dsimp only
    simp only [hlists]
    split_ifs with hnil
    · simp only [hnil, List.not_mem_nil, false_or, not_false_eq_true, implies_true, and_true, List.mem_range]
    · obtain ⟨other, hother⟩ := List.exists_mem_of_ne_nil _ hnil
      exact ⟨.inl, fun h => h.resolve_right fun hno => hno.2 other hother⟩
  | none | bool _ | int _ | float _ | str _ | dict _ =>
    have hlists : ∀ day, ¬ ListsDay window day := by
      rintro day ⟨-, days, hdays', -⟩
      rw [hdays] at hdays'
      cases hdays'
    dsimp only
    rw [if_pos rfl, List.mem_range]
    exact ⟨fun h => .inr ⟨h, hlists⟩, fun h => (h.resolve_left (hlists day)).1⟩

/-- Times of the same minute are the same. -/
theorem TimeOfDay.Valid.eq_of_minutes_eq {t u : TimeOfDay} (ht : t.Valid) (hu : u.Valid) (h : t.minutes = u.minutes) :
    t = u := by
  obtain ⟨hour, minute⟩ := t
  obtain ⟨hour', minute'⟩ := u
  obtain ⟨-, hm⟩ := ht
  obtain ⟨-, hm'⟩ := hu
  unfold TimeOfDay.minutes at h
  dsimp only at hm hm' h
  obtain rfl : hour = hour' := by omega
  obtain rfl : minute = minute' := by omega
  rfl

/-- **A window that is read is one.** -/
theorem isWindow_of_readWindow {entry : PyValue} {w : QuietWindow} (h : readWindow entry = some w) :
    IsWindow entry w.toWindow := by
  unfold readWindow at h
  split at h
  · rename_i window
    split at h
    · rename_i start stop hstart hstop
      split_ifs at h with hne
      obtain rfl := Option.some.inj h
      refine ⟨window, rfl, time_eq_some_iff.1 hstart, time_eq_some_iff.1 hstop, ?_, fun _ => mem_chosenDays_iff⟩
      exact fun heq => hne (congrArg TimeOfDay.minutes heq)
    · cases h
  · cases h

/-- **A window is read**, with its times and its days. -/
theorem readWindow_of_isWindow {entry : PyValue} {w : Window} (h : IsWindow entry w) :
    ∃ v, readWindow entry = some v ∧ v.start = w.start ∧ v.stop = w.stop ∧ ∀ day, day ∈ v.days ↔ day ∈ w.days := by
  obtain ⟨window, rfl, hstart, hstop, hne, hdays⟩ := h
  have hread := time_eq_some_iff.2 hstart
  have hread' := time_eq_some_iff.2 hstop
  unfold readWindow
  dsimp only
  split
  · rename_i start stop hstart' hstop'
    obtain rfl := Option.some.inj (hread.symm.trans hstart')
    obtain rfl := Option.some.inj (hread'.symm.trans hstop')
    rw [dif_neg fun heq => hne (hstart.1.eq_of_minutes_eq hstop.1 heq)]
    exact ⟨_, rfl, rfl, rfl, fun day => mem_chosenDays_iff.trans (hdays day).symm⟩
  · rename_i hnone
    exact absurd hread' (hnone _ _ hread)

theorem startBasis_iff {raw : List (String × PyValue)} : startBasis raw = true ↔ ByStart raw := by
  unfold startBasis ByStart
  cases PyValue.get raw "day_basis" <;> simp [PyValue.eq, PyValue.number]

/-- The entries that are gone through are those stored. -/
theorem mem_sourceOf_iff {raw : List (String × PyValue)} {entry : PyValue} : entry ∈ sourceOf raw ↔ Stored raw entry := by
  unfold sourceOf Stored
  rw [← startBasis_iff]
  cases hwindows : PyValue.get raw "windows" with
  | list windows =>
    cases windows with
    | nil => cases startBasis raw <;> simp
    | cons first rest => simp
  | _ => simp

/-! ### Reading what was rewritten -/

theorem readInt_padded : ∀ n < 60, Text.readInt (padded n) = some (n : ℤ) := by decide +kernel

/-- **A written time is read back.** -/
theorem time_text {t : TimeOfDay} (h : t.Valid) : time (.str t.text) = some t := by
  obtain ⟨hhour, hminute⟩ := h
  refine time_eq_some_iff.2 ⟨⟨hhour, hminute⟩, padded t.hour, padded t.minute, rfl, ?_, ?_⟩
  · exact Text.readInt_eq_some_iff.1 (readInt_padded _ (by omega))
  · exact Text.readInt_eq_some_iff.1 (readInt_padded _ hminute)

theorem namesDay_dayNames : ∀ day < 7, ∀ day' < 7, namesDay (.str (dayNames.getD day "")) day' = decide (day = day') := by
  decide +kernel

/-- A part of a list without repetitions is what the list has of it. -/
theorem filter_mem_of_sublist {α : Type*} [DecidableEq α] {s l : List α} (h : s.Sublist l) (hl : l.Nodup) :
    l.filter (· ∈ s) = s := by
  induction h with
  | slnil => rfl
  | cons a h ih =>
    rw [List.nodup_cons] at hl
    rw [List.filter_cons_of_neg (by simpa using fun ha => hl.1 (h.mem ha)), ih hl.2]
  | cons_cons a h ih =>
    rw [List.nodup_cons] at hl
    rw [List.filter_cons_of_pos (by simp)]
    refine congrArg (a :: ·) (Eq.trans (List.filter_congr fun b hb => ?_) (ih hl.2))
    have hne : b ≠ a := fun heq => hl.1 (heq ▸ hb)
    simp [hne]

/-- The days of a written window are read back. -/
theorem chosenDays_value (w : QuietWindow) (start stop : String) :
    chosenDays [("start", .str start), ("end", .str stop),
      ("days", .list (w.days.map fun day => .str (dayNames.getD day "")))] = w.days := by
  have hfilter : (List.range 7).filter (fun day =>
      (w.days.map fun day => PyValue.str (dayNames.getD day "")).any fun value => namesDay value day) = w.days := by
    refine Eq.trans (List.filter_congr fun day hday => ?_) (filter_mem_of_sublist w.sublist List.nodup_range)
    rw [List.any_map, Bool.eq_iff_iff, List.any_eq_true, decide_eq_true_iff]
    constructor
    · rintro ⟨day', hday', hnames⟩
      have heq := namesDay_dayNames day' (w.day_lt hday') day (List.mem_range.1 hday)
      rw [Function.comp_apply, heq, decide_eq_true_iff] at hnames
      exact hnames ▸ hday'
    · intro hmem
      refine ⟨day, hmem, ?_⟩
      rw [Function.comp_apply, namesDay_dayNames day (w.day_lt hmem) day (w.day_lt hmem)]
      exact decide_eq_true rfl
  show (if (List.range 7).filter _ = [] then List.range 7 else (List.range 7).filter _) = _
  rw [hfilter, if_neg w.days_ne_nil]

/-- **A written window is read back.** -/
theorem readWindow_value (w : QuietWindow) : readWindow w.value = some w := by
  have hstart : time (PyValue.get [("start", .str w.start.text), ("end", .str w.stop.text),
      ("days", .list (w.days.map fun day => .str (dayNames.getD day "")))] "start") = some w.start :=
    time_text w.valid_start
  have hstop : time (PyValue.get [("start", .str w.start.text), ("end", .str w.stop.text),
      ("days", .list (w.days.map fun day => .str (dayNames.getD day "")))] "end") = some w.stop :=
    time_text w.valid_stop
  unfold QuietWindow.value readWindow
  dsimp only
  split
  · rename_i start stop hstart' hstop'
    obtain rfl := Option.some.inj (hstart.symm.trans hstart')
    obtain rfl := Option.some.inj (hstop.symm.trans hstop')
    rw [dif_neg w.ne]
    refine congrArg some (QuietWindow.ext ?_ rfl rfl)
    exact chosenDays_value w w.start.text w.stop.text
  · rename_i hnone
    exact absurd hstop (hnone _ _ hstart)

/-- Rewritten quiet hours are read back. -/
theorem migrateQuietHours_value (quiet : QuietHours) : migrateQuietHours quiet.value = quiet := by
  have hsource : sourceOf (entriesOf quiet.value) = quiet.windows.map QuietWindow.value := by
    show (match PyValue.list (quiet.windows.map QuietWindow.value) with
      | .list [] => if true then [] else _
      | .list windows => windows
      | _ => _) = _
    cases quiet.windows with
    | nil => rfl
    | cons w windows => rfl
  have hbasis : startBasis (entriesOf quiet.value) = true := by
    show PyValue.eq (.str "start") (.str "start") = true
    decide +kernel
  have hwindows : (quiet.windows.map QuietWindow.value).filterMap readWindow = quiet.windows := by
    rw [List.filterMap_map]
    have hread : readWindow ∘ QuietWindow.value = some := funext readWindow_value
    rw [hread, List.filterMap_some]
  rw [migrateQuietHours, hsource, hbasis, hwindows, if_pos rfl]
  cases quiet with
  | mk enabled windows => cases enabled <;> rfl

/-! ### What migration keeps -/

/-- Windows with the same times and the same days pause the same minutes. -/
theorem Window.pauses_congr {v w : Window} (hstart : v.start = w.start) (hstop : v.stop = w.stop)
    (hdays : ∀ day, day ∈ v.days ↔ day ∈ w.days) (minute : ℕ) :
    (v.PausesFrom minute ↔ w.PausesFrom minute) ∧ (v.PausesDay minute ↔ w.PausesDay minute) := by
  unfold Window.PausesFrom Window.PausesDay
  simp only [hstart, hstop, hdays, and_self]

/-- **The migrated windows pause what the stored entries do.** -/
theorem pausesFrom_migrated (raw : List (String × PyValue)) (minute : ℕ) :
    (∃ w ∈ (migrateQuietHours (.dict raw)).windows, w.PausesFrom minute) ↔
      ∃ entry w, Stored raw entry ∧ IsWindow entry w ∧
        (ByStart raw ∧ w.PausesFrom minute ∨ ¬ ByStart raw ∧ w.PausesDay minute) := by
  have hread : (∃ entry w, Stored raw entry ∧ IsWindow entry w ∧
      (ByStart raw ∧ w.PausesFrom minute ∨ ¬ ByStart raw ∧ w.PausesDay minute)) ↔
      ∃ w ∈ (sourceOf raw).filterMap readWindow,
        ByStart raw ∧ w.PausesFrom minute ∨ ¬ ByStart raw ∧ w.PausesDay minute := by
    constructor
    · rintro ⟨entry, w, hstored, hwindow, hpauses⟩
      obtain ⟨v, hv, hstart, hstop, hdays⟩ := readWindow_of_isWindow hwindow
      obtain ⟨hfrom, hday⟩ := Window.pauses_congr hstart hstop hdays minute
      refine ⟨v, List.mem_filterMap.2 ⟨entry, mem_sourceOf_iff.2 hstored, hv⟩, ?_⟩
      rwa [hfrom, hday]
    · rintro ⟨w, hw, hpauses⟩
      obtain ⟨entry, hentry, hw⟩ := List.mem_filterMap.1 hw
      exact ⟨entry, w.toWindow, mem_sourceOf_iff.1 hentry, isWindow_of_readWindow hw, hpauses⟩
  rw [hread]
  show (∃ w ∈ if startBasis raw = true then (sourceOf raw).filterMap readWindow
    else ((sourceOf raw).filterMap readWindow).flatMap splitWindow, w.PausesFrom minute) ↔ _
  by_cases hbasis : ByStart raw
  · simp only [if_pos (startBasis_iff.2 hbasis), hbasis, true_and, not_true_eq_false, false_and, or_false]
  · simp only [if_neg fun h => hbasis (startBasis_iff.1 h), hbasis, false_and, not_false_eq_true, true_and, false_or]
    constructor
    · rintro ⟨v, hv, hpauses⟩
      obtain ⟨w, hw, hv⟩ := List.mem_flatMap.1 hv
      exact ⟨w, hw, (pausesFrom_splitWindow w minute).1 ⟨v, hv, hpauses⟩⟩
    · rintro ⟨w, hw, hpauses⟩
      obtain ⟨v, hv, hpauses⟩ := (pausesFrom_splitWindow w minute).2 hpauses
      exact ⟨v, List.mem_flatMap.2 ⟨w, hw, hv⟩, hpauses⟩

/-- What is no mapping has quiet hours that are off. -/
theorem enabled_migrated (value : PyValue) :
    (migrateQuietHours value).enabled = true ↔ ∃ raw, value = .dict raw ∧ (PyValue.get raw "enabled").truthy = true := by
  cases value with
  | dict raw =>
    refine ⟨fun h => ⟨raw, rfl, h⟩, ?_⟩
    rintro ⟨raw', heq, h⟩
    obtain rfl := PyValue.dict.inj heq
    exact h
  | none | bool _ | int _ | float _ | str _ | list _ =>
    refine ⟨fun h => absurd h Bool.false_ne_true, ?_⟩
    rintro ⟨raw, heq, -⟩
    cases heq

/-- **The mask of a stored value holds the minutes it pauses by its own rule.** -/
theorem testBit_quietHoursWeeklyMask (value : PyValue) {minute : ℕ} (h : minute < Policy.weekMinutes) :
    (quietHoursWeeklyMask value).testBit minute = true ↔ PausedAt value minute := by
  have hvalid : (migrateQuietHours value).policy.Valid := by
    intro w hw
    obtain ⟨v, -, rfl⟩ := List.mem_map.1 hw
    exact v.valid
  have hopen : (migrateQuietHours value).policy.OpenAt minute ↔
      (migrateQuietHours value).enabled = true ∧ ∃ w ∈ (migrateQuietHours value).windows, w.PausesFrom minute := by
    refine and_congr_right fun _ => ?_
    show (∃ w ∈ (migrateQuietHours value).windows.map QuietWindow.toWindow, w.OpenAt minute) ↔ _
    simp only [List.mem_map, exists_exists_and_eq_and]
    exact exists_congr fun w => and_congr_right fun _ => w.openAt_iff h
  rw [quietHoursWeeklyMask, Policy.testBit_groupWeeklyMask hvalid, and_iff_right h, hopen, enabled_migrated]
  constructor
  · rintro ⟨⟨raw, rfl, henabled⟩, hpauses⟩
    exact ⟨raw, rfl, henabled, (pausesFrom_migrated raw minute).1 hpauses⟩
  · rintro ⟨raw, rfl, henabled, hpauses⟩
    exact ⟨⟨raw, rfl, henabled⟩, (pausesFrom_migrated raw minute).2 hpauses⟩

/-- **Migration keeps every paused minute**: for any stored value, migrating again changes nothing, the mask holds the
minutes that were paused by the value's own rule, and it is the same mask after migration. -/
theorem migration_keeps (value : PyValue) :
    migrateQuietHours (migrateQuietHours value).value = migrateQuietHours value ∧
    (∀ minute < Policy.weekMinutes, (quietHoursWeeklyMask value).testBit minute = true ↔ PausedAt value minute) ∧
    quietHoursWeeklyMask (migrateQuietHours value).value = quietHoursWeeklyMask value := by
  have hagain := migrateQuietHours_value (migrateQuietHours value)
  refine ⟨hagain, fun minute h => testBit_quietHoursWeeklyMask value h, ?_⟩
  rw [quietHoursWeeklyMask, hagain]
  rfl

/-- An older window, of Monday, that ends before it starts. -/
def mondayNight : PyValue :=
  .dict [("enabled", .bool true), ("windows", .list [
    .dict [("start", .str "23:0"), ("end", .str " 7:00"), ("days", .list [.str " Mon"])], .int 3])]

/-- Monday at six is paused, as Monday's morning is; Tuesday at six is not. -/
theorem migration_keeps_mondayNight :
    (PausedAt mondayNight 360 ∧ ¬ PausedAt mondayNight 1800) ∧ 360 < Policy.weekMinutes ∧ 1800 < Policy.weekMinutes := by
  have hmonday : 360 < Policy.weekMinutes := by decide
  have htuesday : 1800 < Policy.weekMinutes := by decide
  have hkeeps := (migration_keeps mondayNight).2.1
  refine ⟨⟨(hkeeps 360 hmonday).1 ?_, fun h => Bool.false_ne_true (Eq.trans ?_ ((hkeeps 1800 htuesday).2 h))⟩,
    hmonday, htuesday⟩
  · decide +kernel
  · decide +kernel

end MediaPreview.Groups
