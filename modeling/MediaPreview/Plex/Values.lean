import MediaPreview.Lib.Ranking
import MediaPreview.Markers.Models
import Mathlib.Data.Fintype.Basic
import Mathlib.Data.String.Basic

/-!
# The times Plex stores and serves

The markers `markers/publishers/plex_db.py` writes (`PlexMarker`) and their times. Plex shows stored credits later
than they are stored, so the times written (`storedTimes`) and the times served (`servedTimes`) differ. The two are
inverse to each other as long as the credits do not start within the shift (`servedTimes_storedTimes`).

Everything the publisher decides it decides from lists of times put in order, so two lists are told apart up to the
order they came in (`sortServed_eq_iff`).
-/

namespace MediaPreview.Plex

open Ranking

/-- The marker types Plex has: the keys of `_TYPE_TEXT`. -/
inductive PlexType where
  | intro
  | credits
  deriving DecidableEq, Repr, Inhabited

namespace PlexType

instance : Fintype PlexType := ⟨{.intro, .credits}, fun t => by cases t <;> decide⟩

/-- `_TYPE_TEXT`: the text of the rows of a type. -/
def text : PlexType → String
  | .intro => "intro"
  | .credits => "credits"

theorem text_injective : Function.Injective text := by
  intro s t h
  cases s <;> cases t <;> first | rfl | exact absurd h (by decide)

@[simp] theorem text_inj {s t : PlexType} : s.text = t.text ↔ s = t := text_injective.eq_iff

/-- The `MarkerType` of a type. -/
def markerType : PlexType → Markers.MarkerType
  | .intro => .intro
  | .credits => .credits

end PlexType

/-- A `Marker` of a type Plex has, in served times. -/
structure PlexMarker where
  /-- Segment type. -/
  type : PlexType
  /-- Start offset. -/
  startMs : ℤ
  /-- End offset. -/
  endMs : ℤ
  /-- The sources that decided it, by value. -/
  decidedBy : List String
  /-- The user locked it. -/
  locked : Bool := false
  deriving DecidableEq, Repr

/-- The types of a list of markers. -/
def typesOf (markers : List PlexMarker) : Finset PlexType := Finset.univ.filter fun t => ∃ m ∈ markers, m.type = t

@[simp] theorem mem_typesOf {markers : List PlexMarker} {t : PlexType} :
    t ∈ typesOf markers ↔ ∃ m ∈ markers, m.type = t := by simp [typesOf]

/-- The markers of one type. -/
def ofType (markers : List PlexMarker) (t : PlexType) : List PlexMarker := markers.filter fun m => m.type = t

@[simp] theorem mem_ofType {markers : List PlexMarker} {t : PlexType} {m : PlexMarker} :
    m ∈ ofType markers t ↔ m ∈ markers ∧ m.type = t := by simp [ofType]

theorem ofType_eq_nil_iff {markers : List PlexMarker} {t : PlexType} :
    ofType markers t = [] ↔ t ∉ typesOf markers := by simp [ofType, List.filter_eq_nil_iff]

theorem ofType_ofType (markers : List PlexMarker) (t : PlexType) : ofType (ofType markers t) t = ofType markers t := by
  simp only [ofType, List.filter_filter, Bool.and_self]

theorem ofType_append (ms ns : List PlexMarker) (t : PlexType) : ofType (ms ++ ns) t = ofType ms t ++ ofType ns t :=
  List.filter_append ..

/-! ### Times -/

/-- `CREDITS_SERVE_SHIFT_MS`. -/
def creditsServeShiftMs : ℤ := 2000

/-- `FINAL_TOLERANCE_MS`. -/
def finalToleranceMs : ℤ := 2000

/-- `INTRO_JSON_VERSION`. -/
def introJsonVersion : ℤ := 5

/-- `CREDITS_JSON_VERSION`. -/
def creditsJsonVersion : ℤ := 4

/-- `_is_final`: the marker runs to the end of the file. -/
def isFinal (m : PlexMarker) (durationMs : ℤ) : Bool := durationMs - finalToleranceMs ≤ m.endMs

/-- `_stored_times`: start, end and `final` as Plex stores them; `none` where the duration is needed and unknown. -/
def storedTimes (m : PlexMarker) (durationMs : Option ℤ) : Option (ℤ × ℤ × Bool) :=
  match m.type, durationMs with
  | .intro, _ => some (m.startMs, m.endMs, false)
  | .credits, none => none
  | .credits, some d =>
    if d ≤ 0 then none
    else
      let final := isFinal m d
      some (max 0 (m.startMs - creditsServeShiftMs), if final then m.endMs else m.endMs + creditsServeShiftMs, final)

/-- `_served_times`: what Plex serves for a stored marker. -/
def servedTimes (t : PlexType) (start stop : ℤ) (final : Bool) : ℤ × ℤ :=
  match t with
  | .intro => (start, stop)
  | .credits => (start + creditsServeShiftMs, if final then stop else stop - creditsServeShiftMs)

/-- **What is stored is served at its own times**, unless it is credits starting within the shift. -/
theorem servedTimes_storedTimes {m : PlexMarker} {durationMs : Option ℤ} {start stop : ℤ} {final : Bool}
    (h : storedTimes m durationMs = some (start, stop, final))
    (hshift : m.type = .credits → creditsServeShiftMs ≤ m.startMs) :
    servedTimes m.type start stop final = (m.startMs, m.endMs) := by
  obtain ⟨type, s, e, by', locked⟩ := m
  cases type with
  | intro =>
    obtain ⟨rfl, rfl, rfl⟩ : s = start ∧ e = stop ∧ false = final := by simpa [storedTimes] using h
    rfl
  | credits =>
    cases durationMs with
    | none => simp [storedTimes] at h
    | some d =>
      have hs : creditsServeShiftMs ≤ s := hshift rfl
      by_cases hd : d ≤ 0
      · simp [storedTimes, hd] at h
      simp only [storedTimes, if_neg hd, Option.some.injEq, Prod.mk.injEq] at h
      obtain ⟨rfl, rfl, rfl⟩ := h
      refine Prod.ext ?_ ?_
      · show max 0 (s - creditsServeShiftMs) + creditsServeShiftMs = s
        rw [max_eq_right (by omega)]
        omega
      · simp only [servedTimes]
        split_ifs <;> omega

/-- With a duration every marker can be stored. -/
theorem storedTimes_isSome {m : PlexMarker} {d : ℤ} (hd : 0 < d) : (storedTimes m (some d)).isSome := by
  obtain ⟨type, s, e, by', locked⟩ := m
  cases type with
  | intro => rfl
  | credits =>
    simp only [storedTimes]
    rw [if_neg (by omega)]
    rfl

/-- `sorted`, of start and end times. -/
def sortTimes (l : List (ℤ × ℤ)) : List (ℤ × ℤ) := sortBy (fun p => toLex p) l

/-- `sorted`, of start and end times with their `final` flags. -/
def sortServed (l : List (ℤ × ℤ × Bool)) : List (ℤ × ℤ × Bool) := sortBy (fun p => toLex (p.1, toLex p.2)) l

/-- The times alone. -/
def timesOf (p : ℤ × ℤ × Bool) : ℤ × ℤ := (p.1, p.2.1)

theorem sortServed_eq_iff {l l' : List (ℤ × ℤ × Bool)} : sortServed l = sortServed l' ↔ l.Perm l' := by
  refine sortBy_eq_sortBy_iff fun p q h => ?_
  have h := toLex.injective h
  rw [Prod.mk.injEq] at h
  exact Prod.ext h.1 (toLex.injective h.2)

@[simp] theorem mem_sortTimes {l : List (ℤ × ℤ)} {p : ℤ × ℤ} : p ∈ sortTimes l ↔ p ∈ l := mem_sortBy

@[simp] theorem sortTimes_eq_nil_iff {l : List (ℤ × ℤ)} : sortTimes l = [] ↔ l = [] := sortBy_eq_nil_iff

/-- Sorting with the flags sorts the times. -/
theorem map_timesOf_sortServed (l : List (ℤ × ℤ × Bool)) :
    (sortServed l).map timesOf = sortTimes (l.map timesOf) := by
  refine (sortBy_eq_of_pairwise toLex.injective
    ((sortBy_perm _ l).map timesOf) ?_).symm
  rw [List.pairwise_map]
  refine (pairwise_sortBy _ l).imp fun {p q} h => ?_
  rw [Prod.Lex.toLex_le_toLex] at h ⊢
  refine h.imp_right fun ⟨h₁, h₂⟩ => ⟨h₁, ?_⟩
  rw [Prod.Lex.toLex_le_toLex] at h₂
  exact h₂.elim le_of_lt fun h => h.1.le

/-- `_served_of`: the served times of the markers of a type. -/
def servedOf (markers : List PlexMarker) (t : PlexType) : List (ℤ × ℤ) :=
  sortTimes ((ofType markers t).map fun m => (m.startMs, m.endMs))

@[simp] theorem mem_servedOf {markers : List PlexMarker} {t : PlexType} {p : ℤ × ℤ} :
    p ∈ servedOf markers t ↔ ∃ m ∈ markers, m.type = t ∧ (m.startMs, m.endMs) = p := by
  simp [servedOf, and_assoc]

theorem servedOf_eq_nil_iff {markers : List PlexMarker} {t : PlexType} :
    servedOf markers t = [] ↔ t ∉ typesOf markers := by
  rw [servedOf, sortTimes_eq_nil_iff, List.map_eq_nil_iff, ofType_eq_nil_iff]

/-- The served times of a type are its markers'. -/
theorem servedOf_congr {ms ns : List PlexMarker} {t : PlexType} (h : ofType ms t = ofType ns t) :
    servedOf ms t = servedOf ns t := by rw [servedOf, servedOf, h]

theorem servedOf_ofType (markers : List PlexMarker) (t : PlexType) : servedOf (ofType markers t) t = servedOf markers t :=
  servedOf_congr (ofType_ofType markers t)

/-- Every one of the markers has stored times. -/
def Storable (markers : List PlexMarker) (durationMs : Option ℤ) : Prop :=
  ∀ m ∈ markers, (storedTimes m durationMs).isSome

instance (markers : List PlexMarker) (durationMs : Option ℤ) : Decidable (Storable markers durationMs) := by
  unfold Storable
  infer_instance

theorem Storable.of_pos {d : ℤ} (hd : 0 < d) (markers : List PlexMarker) : Storable markers (some d) :=
  fun _ _ => storedTimes_isSome hd

theorem Storable.subset {ms ns : List PlexMarker} {durationMs : Option ℤ} (h : Storable ns durationMs) (hsub : ms ⊆ ns) :
    Storable ms durationMs := fun m hm => h m (hsub hm)

/-- `_served_with_final`: the served times of the markers of a type, with the `final` flag this duration gives; `none`
where a stored time is unknown. -/
def servedWithFinal (markers : List PlexMarker) (t : PlexType) (durationMs : Option ℤ) :
    Option (List (ℤ × ℤ × Bool)) :=
  if Storable (ofType markers t) durationMs then
    some (sortServed ((ofType markers t).filterMap fun m =>
      (storedTimes m durationMs).map fun s => (m.startMs, m.endMs, s.2.2)))
  else none

theorem servedWithFinal_ofType (markers : List PlexMarker) (t : PlexType) (durationMs : Option ℤ) :
    servedWithFinal (ofType markers t) t durationMs = servedWithFinal markers t durationMs := by
  rw [servedWithFinal, servedWithFinal, ofType_ofType]

/-- With the flags come the served times. -/
theorem servedWithFinal_spec {markers : List PlexMarker} {t : PlexType} {durationMs : Option ℤ}
    (h : Storable (ofType markers t) durationMs) :
    ∃ served, servedWithFinal markers t durationMs = some served ∧ served.map timesOf = servedOf markers t := by
  refine ⟨_, if_pos h, ?_⟩
  rw [map_timesOf_sortServed, servedOf, List.map_filterMap, ← List.filterMap_eq_map]
  congr 1
  refine List.filterMap_congr fun m hm => ?_
  obtain ⟨s, hs⟩ := Option.isSome_iff_exists.mp (h m hm)
  rw [hs]
  rfl

end MediaPreview.Plex
