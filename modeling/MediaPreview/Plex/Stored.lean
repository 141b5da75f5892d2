import MediaPreview.Plex.Values

/-!
# What Plex stores for an item

A marker row of an item (`TaggingRow`) and a live part with its `pv:intros` and `pv:credits` values (`Part`), and
what `markers/publishers/plex_db.py` reads of each.

Texts are kept as they are read. A part's `extra_data` is the fields `decode_extra_data` reads of it and the form it
was in, without the derived `url` field (`Extra`); a `pv:` value is its text with what `json.loads` makes of it
(`PvText`). A row's `extra_data` is its fields alone. All of them may be unreadable.

What a type's rows and values serve is known from what the rows and entries say, in whatever order and under
whatever index and id they are stored (`rowsServedWithFinal_congr`).
-/

namespace MediaPreview.Plex

open Ranking

/-! ### Rows -/

/-- What a marker row says: its `text`, times and `extra_data` (`none` where it does not decode). -/
structure MarkerTag where
  /-- The type's text. -/
  text : String
  /-- Start, as stored. -/
  timeOffset : ℤ
  /-- End, as stored. -/
  endTimeOffset : ℤ
  /-- The fields of `extra_data`. -/
  extraData : Option (List (String × String))
  deriving DecidableEq, Repr

/-- `_TaggingRow`: a marker row of an item. -/
structure TaggingRow extends MarkerTag where
  /-- The row's id. -/
  id : ℕ
  /-- The row's number among the item's. -/
  index : ℤ
  /-- When the row was tagged, where that is a number. -/
  createdAt : Option ℤ
  deriving DecidableEq, Repr

/-- What a row says and when it was tagged: all of it but its id and number. -/
def TaggingRow.content (r : TaggingRow) : MarkerTag × Option ℤ := (r.toMarkerTag, r.createdAt)

/-- `_row_is_final`. -/
def rowIsFinal : Option (List (String × String)) → Bool
  | none => false
  | some fields => fields.lookup "pv:final" = some "1"

/-- The served times of a row of a type, with its own `final`. -/
def MarkerTag.served (r : MarkerTag) (t : PlexType) : ℤ × ℤ × Bool :=
  let final := rowIsFinal r.extraData
  ((servedTimes t r.timeOffset r.endTimeOffset final).1, (servedTimes t r.timeOffset r.endTimeOffset final).2, final)

/-- The rows of a type. -/
def rowsOf (rows : List TaggingRow) (t : PlexType) : List TaggingRow := rows.filter fun r => r.text = t.text

@[simp] theorem mem_rowsOf {rows : List TaggingRow} {t : PlexType} {r : TaggingRow} :
    r ∈ rowsOf rows t ↔ r ∈ rows ∧ r.text = t.text := by simp [rowsOf]

/-- `_rows_served_with_final`: the served times of the rows of a type, each with its own `final`. -/
def rowsServedWithFinal (rows : List TaggingRow) (t : PlexType) : List (ℤ × ℤ × Bool) :=
  sortServed ((rowsOf rows t).map fun r => r.served t)

/-- The served times of the rows of a type. -/
def rowsServed (rows : List TaggingRow) (t : PlexType) : List (ℤ × ℤ) :=
  sortTimes ((rowsOf rows t).map fun r => timesOf (r.served t))

theorem map_timesOf_rowsServedWithFinal (rows : List TaggingRow) (t : PlexType) :
    (rowsServedWithFinal rows t).map timesOf = rowsServed rows t := by
  rw [rowsServedWithFinal, map_timesOf_sortServed, List.map_map]
  rfl

theorem mem_rowsServed {rows : List TaggingRow} {t : PlexType} {p : ℤ × ℤ} :
    p ∈ rowsServed rows t ↔ ∃ r ∈ rowsOf rows t, timesOf (r.served t) = p := by
  simp only [rowsServed, mem_sortTimes, List.mem_map]

/-- Two lists of rows say the same of a type, in whatever order and under whatever numbers. -/
def SameRows (rows rows' : List TaggingRow) (t : PlexType) : Prop :=
  ((rowsOf rows t).map TaggingRow.content).Perm ((rowsOf rows' t).map TaggingRow.content)

theorem SameRows.refl (rows : List TaggingRow) (t : PlexType) : SameRows rows rows t := List.Perm.refl _

theorem SameRows.map_perm {β : Type*} {rows rows' : List TaggingRow} {t : PlexType} (h : SameRows rows rows' t)
    (f : MarkerTag × Option ℤ → β) :
    ((rowsOf rows t).map fun r => f r.content).Perm ((rowsOf rows' t).map fun r => f r.content) := by
  have := h.map f
  rwa [List.map_map, List.map_map] at this

/-- **What a type's rows serve** is known from what they say. -/
theorem rowsServedWithFinal_congr {rows rows' : List TaggingRow} {t : PlexType} (h : SameRows rows rows' t) :
    rowsServedWithFinal rows t = rowsServedWithFinal rows' t :=
  sortServed_eq_iff.mpr (h.map_perm fun c => c.1.served t)

theorem rowsServed_congr {rows rows' : List TaggingRow} {t : PlexType} (h : SameRows rows rows' t) :
    rowsServed rows t = rowsServed rows' t := by
  rw [← map_timesOf_rowsServedWithFinal, rowsServedWithFinal_congr h, map_timesOf_rowsServedWithFinal]

/-! ### Parts -/

/-- An entry of a `pv:` value, `final` where Plex's readers take it so. -/
structure Entry where
  /-- `startTimeOffset`. -/
  startTimeOffset : ℤ
  /-- `endTimeOffset`. -/
  endTimeOffset : ℤ
  /-- `_is_final_entry`. -/
  final : Bool
  deriving DecidableEq, Repr

/-- The `MediaPartMarkersArray` of a `pv:` value, what cannot be read `none`. -/
structure MarkerArray where
  /-- `attributeName`. -/
  attributeName : Option String
  /-- `version`. -/
  version : Option ℤ
  /-- `MediaPartMarker`. -/
  entries : Option (List Entry)
  deriving DecidableEq, Repr

/-- The text of a `pv:intros` or `pv:credits` value: the empty one, or another with the `MediaPartMarkersArray`
`json.loads` finds in it. -/
inductive PvText where
  | cleared
  | json (raw : String) (array : Option MarkerArray)
  deriving DecidableEq, Repr

/-- The array of a value; the empty text has none. -/
def PvText.array : PvText → Option MarkerArray
  | .cleared => none
  | .json _ array => array

/-- The entries of a value, where they can be read. -/
def PvText.entries (v : PvText) : Option (List Entry) := v.array.bind MarkerArray.entries

/-- The fields of a part's `extra_data`, as `decode_extra_data` reads them. -/
structure Extra where
  /-- `pv:intros`. -/
  intros : Option PvText
  /-- `pv:credits`. -/
  credits : Option PvText
  /-- Every other field but `url`. -/
  others : List (String × String)
  /-- The text was in the URL-encoded form. -/
  urlForm : Bool
  deriving DecidableEq, Repr

namespace Extra

/-- The value of a type's `_PART_KEY`. -/
def pv (d : Extra) : PlexType → Option PvText
  | .intro => d.intros
  | .credits => d.credits

/-- `encode_extra_data`, read back: without any field the text has no form. -/
def encode (d : Extra) : Extra :=
  if d.intros = none ∧ d.credits = none ∧ d.others = [] then { d with urlForm := false } else d

@[simp] theorem pv_encode (d : Extra) (t : PlexType) : d.encode.pv t = d.pv t := by
  unfold encode
  split_ifs <;> cases t <;> rfl

@[simp] theorem others_encode (d : Extra) : d.encode.others = d.others := by
  unfold encode
  split_ifs <;> rfl

end Extra

/-- `Part`: a live part of an item, with its file. -/
structure Part where
  /-- The part's id. -/
  id : ℕ
  /-- The version it is of. -/
  mediaItemId : ℕ
  /-- The file. -/
  file : String
  /-- The fields of `extra_data`; `none` where it does not decode. -/
  extraData : Option Extra
  /-- `media_items.proxy_type`. -/
  proxyType : Option ℤ := none
  /-- When the part last changed, where that is a number. -/
  updatedAt : Option ℤ := none
  deriving DecidableEq, Repr

/-- The value of a type's `_PART_KEY` in a part; `none` where the part's `extra_data` does not decode. -/
def Part.pv (p : Part) (t : PlexType) : Option (Option PvText) := p.extraData.map fun d => d.pv t

/-- `_same_extra_data`: the same keys and values. -/
def sameExtraData (a : Extra) (b : Option Extra) : Bool :=
  match b with
  | none => false
  | some b => a.intros = b.intros && a.credits = b.credits && a.others = b.others

theorem pv_eq_of_sameExtraData {a b : Extra} (h : sameExtraData a (some b) = true) (t : PlexType) : a.pv t = b.pv t := by
  simp only [sameExtraData, Bool.and_eq_true, decide_eq_true_eq] at h
  cases t
  · exact h.1.1
  · exact h.1.2

theorem sameExtraData_iff {a b : Extra} :
    sameExtraData a (some b) = true ↔ (∀ t, a.pv t = b.pv t) ∧ a.others = b.others := by
  simp only [sameExtraData, Bool.and_eq_true, decide_eq_true_eq]
  constructor
  · rintro ⟨⟨h₁, h₂⟩, h₃⟩
    refine ⟨fun t => ?_, h₃⟩
    cases t
    · exact h₁
    · exact h₂
  · rintro ⟨h, h₃⟩
    exact ⟨⟨h .intro, h .credits⟩, h₃⟩

/-- `_part_entries`: the served times of the entries of a value, each with its own `final`; `none` if unreadable. -/
def partEntries (t : PlexType) (value : Option PvText) : Option (List (ℤ × ℤ × Bool)) :=
  (value.bind PvText.entries).map fun entries => sortServed (entries.map fun e =>
    ((servedTimes t e.startTimeOffset e.endTimeOffset e.final).1,
      (servedTimes t e.startTimeOffset e.endTimeOffset e.final).2, e.final))

/-- `_part_served`: the served times in a value; `none` if unreadable. -/
def partServed (t : PlexType) (value : Option PvText) : Option (List (ℤ × ℤ)) :=
  (partEntries t value).map fun entries => entries.map timesOf

@[simp] theorem partServed_none (t : PlexType) : partServed t none = none := rfl

/-- `_check_marker_array`: a value is cleared, or of the tested shape and version. -/
def checkMarkerArray (t : PlexType) : PvText → Bool
  | .cleared => true
  | .json _ none => false
  | .json _ (some a) =>
    match t with
    | .intro => a.attributeName = some "intros" && a.version = some introJsonVersion
    | .credits => a.attributeName = some "credits" && a.version = some creditsJsonVersion

/-- Both values of a part pass `_check_marker_array`. -/
def Extra.Checked (d : Extra) : Prop := ∀ t, ∀ v ∈ d.pv t, checkMarkerArray t v = true

instance (d : Extra) : Decidable d.Checked := by
  unfold Extra.Checked
  infer_instance

/-! ### Versions -/

/-- `_is_optimized_copy`: a transcode Plex made, under a "Plex Versions" folder. -/
def isOptimizedCopy (p : Part) : Bool :=
  (p.proxyType.any fun n => n ≠ 0) &&
    ((p.file.toList.map fun c => if c = '\\' then '/' else c).splitOn '/').contains "Plex Versions".toList

/-- `_version_files`: the item's versions as its sorted part files, optimized copies left out. -/
def versionFiles (parts : List Part) : List String :=
  sortBy (fun f => f) ((parts.filter fun p => !isOptimizedCopy p).map Part.file)

end MediaPreview.Plex
