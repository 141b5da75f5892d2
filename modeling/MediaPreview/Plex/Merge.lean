import MediaPreview.Plex.Stored

/-!
# Merging markers into a part

`merge_part_extra_data`: the `pv:intros` and `pv:credits` values of a part are rewritten for the types this write
manages, and nothing else of the part is (`mergePartExtraData_spec`). Each value is decided by itself (`mergeValue`).

A value of a wanted type that comes out serves exactly the wanted times (`Fresh.of_mergeValue`), and what does is
left as it is (`Fresh.mergeValue_eq`): a second merge changes nothing.
-/

namespace MediaPreview.Plex

/-! ### What is written -/

/-- An entry of a `pv:` value, as `json.dumps` prints it. -/
def printEntry (e : Entry) : String :=
  "\x7b\"startTimeOffset\":" ++ toString e.startTimeOffset ++ ",\"endTimeOffset\":" ++ toString e.endTimeOffset ++
    (if e.final then ",\"final\":true" else "") ++ "\x7d"

/-- A `pv:` value holding an array, as `json.dumps` prints it. -/
def printArray (name : String) (version : ℤ) (entries : List Entry) : String :=
  "\x7b\"MediaPartMarkersArray\":\x7b\"attributeName\":\"" ++ name ++ "\",\"version\":" ++ toString version ++
    ",\"MediaPartMarker\":[" ++ ",".intercalate (entries.map printEntry) ++ "]\x7d\x7d"

/-- `_part_payload`: the value written for a type; `none` where a stored time is unknown. -/
def partPayload (t : PlexType) (markers : List PlexMarker) (durationMs : Option ℤ) : Option PvText :=
  if Storable markers durationMs then
    let entries := markers.filterMap fun m => (storedTimes m durationMs).map fun s => ⟨s.1, s.2.1, s.2.2⟩
    let (name, version) := match t with
      | .intro => ("intros", introJsonVersion)
      | .credits => ("credits", creditsJsonVersion)
    some (.json (printArray name version entries) (some ⟨some name, some version, some entries⟩))
  else none

/-- The value `merge_part_extra_data` leaves for a type's key; `none` where it raises. -/
def mergeValue (t : PlexType) (value : Option PvText) (wanted : List PlexMarker) (managed : Finset PlexType)
    (durationMs : Option ℤ) (previous : List PlexMarker) (refreshFinal : Finset PlexType) : Option (Option PvText) :=
  if t ∉ managed then some value
  else if ofType wanted t ≠ [] then
    if t ∈ refreshFinal ∧ servedWithFinal (ofType wanted t) t durationMs = none then none
    else if partServed t value ≠ some (servedOf (ofType wanted t) t) ∨
        t ∈ refreshFinal ∧ partEntries t value ≠ servedWithFinal (ofType wanted t) t durationMs then
      (partPayload t (ofType wanted t) durationMs).map some
    else some value
  else if ofType previous t ≠ [] ∧ partServed t value = some (servedOf (ofType previous t) t) then some none
  else some value

/-- `merge_part_extra_data`; `none` where it raises. -/
def mergePartExtraData (existing : Option Extra) (wanted : List PlexMarker) (managed : Finset PlexType)
    (durationMs : Option ℤ) (previous : List PlexMarker) (refreshFinal : Finset PlexType) : Option Extra := do
  let d ← existing
  guard d.Checked
  let intros ← mergeValue .intro d.intros wanted managed durationMs previous refreshFinal
  let credits ← mergeValue .credits d.credits wanted managed durationMs previous refreshFinal
  return { d with intros, credits }.encode

variable {t : PlexType} {value value' : Option PvText} {wanted previous : List PlexMarker} {managed : Finset PlexType}
  {durationMs : Option ℤ} {refreshFinal : Finset PlexType} {d e : Extra}

/-! ### A part -/

/-- **Each value is merged by itself**, and every other field stays. -/
theorem mergePartExtraData_spec
    (h : mergePartExtraData (some d) wanted managed durationMs previous refreshFinal = some e) :
    d.Checked ∧ e.others = d.others ∧
      ∀ t, mergeValue t (d.pv t) wanted managed durationMs previous refreshFinal = some (e.pv t) := by
  simp only [mergePartExtraData, Option.pure_def, Option.bind_eq_bind, Option.bind_some, Option.bind_eq_some_iff,
    Option.guard_eq_some', Option.some.injEq] at h
  obtain ⟨_, hd, intros, hi, credits, hc, rfl⟩ := h
  refine ⟨hd, Extra.others_encode _, fun t => ?_⟩
  rw [Extra.pv_encode]
  cases t
  · exact hi
  · exact hc

theorem mergePartExtraData_isSome (hd : d.Checked)
    (h : ∀ t, (mergeValue t (d.pv t) wanted managed durationMs previous refreshFinal).isSome) :
    (mergePartExtraData (some d) wanted managed durationMs previous refreshFinal).isSome := by
  obtain ⟨i, hi⟩ := Option.isSome_iff_exists.mp (h .intro)
  obtain ⟨c, hc⟩ := Option.isSome_iff_exists.mp (h .credits)
  change mergeValue .intro d.intros wanted managed durationMs previous refreshFinal = some i at hi
  change mergeValue .credits d.credits wanted managed durationMs previous refreshFinal = some c at hc
  simp [mergePartExtraData, hd, hi, hc]

/-! ### A value -/

theorem mergeValue_of_not_mem (h : t ∉ managed) :
    mergeValue t value wanted managed durationMs previous refreshFinal = some value := if_pos h

/-- The value of a type that is not wanted goes only while it serves what was there before. -/
theorem mergeValue_of_not_wanted (h : t ∉ typesOf wanted) :
    mergeValue t value wanted managed durationMs previous refreshFinal =
      some (if t ∈ managed ∧ t ∈ typesOf previous ∧ partServed t value = some (servedOf previous t) then none
        else value) := by
  have hprev : ofType previous t ≠ [] ↔ t ∈ typesOf previous := by rw [Ne, ofType_eq_nil_iff, not_not]
  unfold mergeValue
  rw [if_neg (c := ofType wanted t ≠ []) (not_not.mpr (ofType_eq_nil_iff.mpr h)), servedOf_ofType]
  by_cases hm : t ∈ managed
  · simp only [hm, not_true_eq_false, if_false, hprev, true_and]
    split_ifs <;> rfl
  · simp only [hm, not_false_eq_true, if_true, false_and, if_false]

/-- A value serves a type's wanted markers, with their own flags where those are refreshed. -/
structure Fresh (t : PlexType) (value : Option PvText) (wanted : List PlexMarker) (durationMs : Option ℤ)
    (refreshFinal : Finset PlexType) : Prop where
  /-- The times are the wanted ones. -/
  served : partServed t value = some (servedOf wanted t)
  /-- So are the flags. -/
  final : t ∈ refreshFinal → partEntries t value = servedWithFinal wanted t durationMs

/-- The value written for a type is of the tested shape. -/
theorem checkMarkerArray_partPayload {markers : List PlexMarker} {v : PvText}
    (h : partPayload t markers durationMs = some v) : checkMarkerArray t v = true := by
  unfold partPayload at h
  split_ifs at h
  obtain rfl := Option.some.inj h
  cases t <;> rfl

/-- **What is written for a type is served at the wanted times**, with the flags the duration gives. -/
theorem partEntries_partPayload {v : PvText}
    (hshift : ∀ m ∈ ofType wanted t, t = .credits → creditsServeShiftMs ≤ m.startMs)
    (h : partPayload t (ofType wanted t) durationMs = some v) :
    partEntries t (some v) = servedWithFinal wanted t durationMs := by
  unfold partPayload at h
  split_ifs at h with hst
  obtain rfl := Option.some.inj h
  rw [servedWithFinal, if_pos hst]
  have hread : ∀ {raw name version entries}, partEntries t (some (.json raw (some ⟨name, version, some entries⟩))) =
      some (sortServed (entries.map fun e => ((servedTimes t e.startTimeOffset e.endTimeOffset e.final).1,
        (servedTimes t e.startTimeOffset e.endTimeOffset e.final).2, e.final))) := rfl
  rw [hread, List.map_filterMap]
  congr 2
  refine List.filterMap_congr fun m hm => ?_
  obtain ⟨⟨start, stop, final⟩, hs⟩ := Option.isSome_iff_exists.mp (hst m hm)
  have htype : m.type = t := (mem_ofType.mp hm).2
  have hserved := servedTimes_storedTimes hs fun hc => hshift m hm (htype.symm.trans hc)
  rw [htype] at hserved
  rw [hs]
  simp only [Option.map_some, hserved]

/-- **A wanted type's value comes out serving the wanted times.** -/
theorem Fresh.of_mergeValue (hm : t ∈ managed) (hw : t ∈ typesOf wanted)
    (hshift : ∀ m ∈ ofType wanted t, t = .credits → creditsServeShiftMs ≤ m.startMs)
    (h : mergeValue t value wanted managed durationMs previous refreshFinal = some value') :
    Fresh t value' wanted durationMs refreshFinal := by
  unfold mergeValue at h
  have hne : ofType wanted t ≠ [] := fun hnil => ofType_eq_nil_iff.mp hnil hw
  rw [if_neg (not_not.mpr hm), if_pos hne, servedOf_ofType, servedWithFinal_ofType] at h
  split_ifs at h with h₁ h₂
  · obtain ⟨v, hv, rfl⟩ := Option.map_eq_some_iff.mp h
    have hentries := partEntries_partPayload hshift hv
    have hst : Storable (ofType wanted t) durationMs := by
      unfold partPayload at hv
      split_ifs at hv with hst
      exact hst
    obtain ⟨served, hserved, htimes⟩ := servedWithFinal_spec hst
    refine ⟨?_, fun _ => hentries⟩
    rw [partServed, hentries, hserved, Option.map_some, htimes]
  · obtain rfl := Option.some.inj h
    rw [not_or, not_not, not_and, not_not] at h₂
    exact ⟨h₂.1, h₂.2⟩

/-- **What serves the wanted times is left as it is.** -/
theorem Fresh.mergeValue_eq (hst : Storable (ofType wanted t) durationMs) (hw : t ∈ typesOf wanted)
    (h : Fresh t value wanted durationMs refreshFinal) :
    mergeValue t value wanted managed durationMs previous refreshFinal = some value := by
  obtain ⟨served, hserved, -⟩ := servedWithFinal_spec hst
  have hne : ofType wanted t ≠ [] := fun hnil => ofType_eq_nil_iff.mp hnil hw
  unfold mergeValue
  rw [if_pos hne, servedOf_ofType, servedWithFinal_ofType]
  have h₁ : ¬ (t ∈ refreshFinal ∧ servedWithFinal wanted t durationMs = none) := by
    rw [hserved]
    exact fun hc => Option.some_ne_none _ hc.2
  have h₂ : ¬ (partServed t value ≠ some (servedOf wanted t) ∨
      t ∈ refreshFinal ∧ partEntries t value ≠ servedWithFinal wanted t durationMs) := by
    rw [not_or, not_not, not_and, not_not]
    exact ⟨h.served, h.final⟩
  rw [if_neg h₁, if_neg h₂, ite_self]

/-- A value of the tested shape stays one. -/
theorem checkMarkerArray_mergeValue {v : PvText} (hv : ∀ v ∈ value, checkMarkerArray t v = true)
    (h : mergeValue t value wanted managed durationMs previous refreshFinal = some (some v)) :
    checkMarkerArray t v = true := by
  unfold mergeValue at h
  split_ifs at h with h₁ h₂ h₃ h₄ h₅
  · obtain ⟨w, hw, heq⟩ := Option.map_eq_some_iff.mp h
    obtain rfl := Option.some.inj heq
    exact checkMarkerArray_partPayload hw
  · exact hv v (Option.some.inj h)
  · exact absurd (Option.some.inj h).symm (Option.some_ne_none v)
  · exact hv v (Option.some.inj h)
  · exact hv v (Option.some.inj h)

/-- A part of the tested shape stays one. -/
theorem checked_of_mergePartExtraData
    (h : mergePartExtraData (some d) wanted managed durationMs previous refreshFinal = some e) : e.Checked := by
  obtain ⟨hd, -, hpv⟩ := mergePartExtraData_spec h
  intro t v hv
  have ht := hpv t
  rw [Option.mem_def.mp hv] at ht
  exact checkMarkerArray_mergeValue (hd t) ht

end MediaPreview.Plex
