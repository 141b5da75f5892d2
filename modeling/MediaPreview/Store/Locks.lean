import MediaPreview.Store.Effects

/-!
# What the user locked stays

A locked marker is the user's own edit. Detection may replace the file under it, decide the
type anew or clear everything else known of the file; the row stays as it is
(`lockedMarkers_survive`). Only the user's operations change one, each the types it is given of
the file it is given (`select_step`).
-/

namespace MediaPreview.Store

open Binary64 Markers

/-- The keys of the markers a user's operation is given; detection's operations have none. -/
def Op.lockKeys : Op → List (ℕ × MarkerType)
  | .lockMarker fileId marker _ => [(fileId, marker.type)]
  | .saveUserMarkers fileId markers _ _ => markers.map fun m => (fileId, m.type)
  | .unlockMarkers fileId types _ => types.map fun type => (fileId, type)
  | _ => []

/-- The operations of detection and of the file sweeps. -/
def Op.detection : Op → Bool
  | .lockMarker .. | .saveUserMarkers .. | .unlockMarkers .. => false
  | _ => true

theorem lockKeys_eq_nil {op : Op} (h : op.detection = true) : op.lockKeys = [] := by
  cases op <;> first | rfl | simp [Op.detection] at h

variable {q : MarkerRow → Bool}

/-- A row at a key is not of a kind that has none there. -/
theorem not_at_key {keys : List (ℕ × MarkerType)} (hq : ∀ r, q r = true → r.key ∉ keys) {r : MarkerRow}
    (hr : r.key ∈ keys) : q r = false := by
  cases h : q r with
  | false => rfl
  | true => exact absurd hr (hq r h)

/-- Saving a decision leaves the locked markers. -/
theorem select_saveDecision (hlocked : ∀ r, q r = true → r.locked = true) (fileId : ℕ) (settingsFingerprint now : String)
    (db : Db) (e : MarkerType × TypeDecision) :
    (saveDecision fileId settingsFingerprint now db e).markers.select q = db.markers.select q := by
  have hunlocked : ∀ r : MarkerRow, r.locked = false → q r = false := by
    intro r hr
    cases h : q r with
    | false => rfl
    | true => exact absurd (hlocked r h) (by simp [hr])
  rw [saveDecision]
  split_ifs with hlock
  · rfl
  · have hnone : ∀ r ∈ db.markers, r.fileId = fileId → r.type = e.1 → r.locked = false := by
      rw [Db.lockedType, Bool.not_eq_true, Table.any_eq_false] at hlock
      intro r hr hfile htype
      simpa [hfile, htype] using hlock r hr
    split
    · refine Table.select_put (hunlocked _ rfl) fun r hr hkey => hunlocked r ?_
      rw [MarkerRow.key, MarkerRow.key, Prod.mk.injEq] at hkey
      exact hnone r hr hkey.1 hkey.2
    · refine Table.select_delete fun r _ hr => ?_
      simp [hlocked r hr]

theorem select_saveDecisions (hlocked : ∀ r, q r = true → r.locked = true) (fileId : ℕ) (settingsFingerprint now : String)
    (decisions : List (MarkerType × TypeDecision)) (db : Db) :
    (decisions.foldl (saveDecision fileId settingsFingerprint now) db).markers.select q = db.markers.select q := by
  induction decisions generalizing db with
  | nil => rfl
  | cons e decisions ih => rw [List.foldl_cons, ih, select_saveDecision hlocked]

/-- Locking a marker leaves the rows that are not at its key. -/
theorem select_writeLock {fileId : ℕ} {m : Marker} (hq : ∀ r, q r = true → r.key ≠ (fileId, m.type)) (db : Db)
    (now : String) : (writeLock db fileId m now).markers.select q = db.markers.select q := by
  have hnot : ∀ r : MarkerRow, r.key = (fileId, m.type) → q r = false := by
    intro r hr
    have hkeys : ∀ r, q r = true → r.key ∉ [(fileId, m.type)] := fun r hr => by simpa using hq r hr
    exact not_at_key hkeys (by simp [hr])
  exact Table.select_put (hnot _ rfl) fun r _ hr => hnot r hr

theorem byType_subset (markers : List Marker) : byType markers ⊆ markers := by
  induction markers with
  | nil => exact List.Subset.refl _
  | cons m markers ih =>
    rw [byType]
    split_ifs
    · exact fun x hx => .tail _ (ih hx)
    · exact List.cons_subset_cons m ih

theorem select_saveUserMarkers {fileId : ℕ} {markers : List Marker}
    (hq : ∀ r, q r = true → r.key ∉ markers.map fun m => (fileId, m.type)) (settingsFingerprint now : String) (db : Db) :
    (markers.foldl (saveUserMarker fileId settingsFingerprint now) db).markers.select q = db.markers.select q := by
  induction markers generalizing db with
  | nil => rfl
  | cons m markers ih =>
    rw [List.foldl_cons, ih fun r hr hmem => hq r hr (List.mem_cons_of_mem _ hmem)]
    refine select_writeLock (fun r hr hkey => hq r hr ?_) db now
    rw [hkey]
    exact List.mem_map.mpr ⟨m, .head _, rfl⟩

/-- Unlocking types leaves the rows of the others. -/
theorem select_unlockMarkers {fileId : ℕ} {types : List MarkerType}
    (hq : ∀ r, q r = true → r.key ∉ types.map fun type => (fileId, type)) (now : String) (acc : List MarkerType × Db) :
    (types.foldl (unlockType fileId now) acc).2.markers.select q = acc.2.markers.select q := by
  induction types generalizing acc with
  | nil => rfl
  | cons type types ih =>
    rw [List.foldl_cons, ih fun r hr hmem => hq r hr (List.mem_cons_of_mem _ hmem), unlockType]
    split_ifs
    · refine Table.select_delete fun r _ hr => ?_
      have hkey : r.key ≠ (fileId, type) := fun hkey => hq r hr (hkey ▸ List.mem_cons_self)
      rw [MarkerRow.key, ne_eq, Prod.mk.injEq] at hkey
      simpa using fun hfile htype => absurd ⟨hfile, htype⟩ hkey
    · rfl

/-- Storing a file leaves the locked markers, another identity too. -/
theorem select_upserted (hlocked : ∀ r, q r = true → r.locked = true) {db db' : Db} (h : Upserted db db') :
    db'.markers.select q = db.markers.select q := by
  rcases h with ⟨files, -, rfl⟩ | ⟨row, files, -, rfl⟩
  · rfl
  · exact Table.select_delete fun r _ hr => by simp [hlocked r hr]

/-- **One operation** leaves every kind of locked row it is not given the key of. -/
theorem select_step (hlocked : ∀ r, q r = true → r.locked = true) {op : Op}
    (hop : ∀ r, q r = true → r.key ∉ op.lockKeys) (db : Db) : (step db op).markers.select q = db.markers.select q := by
  by_cases hjudges : op.judges = false
  · rw [(judgement_step db hjudges).1]
  cases op with
  | upsertFile f now => exact select_upserted hlocked (upserted_upsertFile db f now)
  | storeFile f now => exact select_upserted hlocked (upserted_storeFile db f now)
  | saveDecisions fileId decisions settingsFingerprint now =>
    rw [step, saveDecisions]
    split_ifs
    · exact select_saveDecisions hlocked fileId settingsFingerprint now decisions db
    · rfl
  | lockMarker fileId marker now =>
    rw [step, lockMarker]
    split_ifs
    · refine select_writeLock (fun r hr hkey => hop r hr ?_) db now
      rw [hkey]
      exact List.mem_singleton_self _
    · rfl
  | saveUserMarkers fileId markers settingsFingerprint now =>
    rw [step, saveUserMarkers]
    split_ifs
    · refine select_saveUserMarkers (fun r hr hmem => hop r hr ?_) settingsFingerprint now db
      rw [List.map_map] at hmem
      obtain ⟨m, hm, hkey⟩ := List.mem_map.mp hmem
      exact List.mem_map.mpr ⟨m, byType_subset markers hm, hkey⟩
    · rfl
  | unlockMarkers fileId types now => exact select_unlockMarkers hop now ([], db)
  | _ => simp [Op.judges] at hjudges

theorem select_run (hlocked : ∀ r, q r = true → r.locked = true) {ops : List Op}
    (hops : ∀ op ∈ ops, ∀ r, q r = true → r.key ∉ op.lockKeys) (db : Db) :
    (run db ops).markers.select q = db.markers.select q := by
  refine run_invariant (P := fun db' => db'.markers.select q = db.markers.select q)
    (Q := fun op => ∀ r, q r = true → r.key ∉ op.lockKeys) ?_ rfl ops hops
  intro db' op hop h
  rw [select_step hlocked hop, h]

/-- **Locked markers survive everything detection does**: after any run of detection's operations, from
any database, the locked rows are the same; and in a run of any operations, the locked rows of a type
of a file are the same unless one of the user's operations was given that type of that file. -/
theorem lockedMarkers_survive (db : Db) (ops : List Op) :
    ((∀ op ∈ ops, op.detection = true) →
      (run db ops).markers.select (fun m => m.locked) = db.markers.select fun m => m.locked) ∧
    ∀ fileId type, (∀ op ∈ ops, (fileId, type) ∉ op.lockKeys) →
      (run db ops).markers.select (fun m => m.fileId = fileId ∧ m.type = type ∧ m.locked) =
        db.markers.select fun m => m.fileId = fileId ∧ m.type = type ∧ m.locked := by
  constructor
  · intro hops
    refine select_run (fun r hr => hr) (fun op hop r _ => ?_) db
    rw [lockKeys_eq_nil (hops op hop)]
    exact List.not_mem_nil
  · intro fileId type hops
    refine select_run (fun r hr => ?_) (fun op hop r hr => ?_) db
    · simp only [decide_eq_true_eq] at hr
      exact hr.2.2
    · simp only [decide_eq_true_eq] at hr
      rw [MarkerRow.key, hr.1, hr.2.1]
      exact hops op hop

/-- A file whose intro the user locked. -/
def lockedIntro : Db :=
  run .empty [.upsertFile ⟨⟨"/a.mkv", 1, 1⟩, some 1320000, none, false⟩ "t0",
    .lockMarker 1 ⟨.intro, 30000, 90000, ["user"], false⟩ "t1"]

/-- The file is replaced and its intro decided elsewhere; its credits are saved and unlocked. -/
theorem lockedMarkers_survive_replaced :
    (run lockedIntro [.upsertFile ⟨⟨"/a.mkv", 2, 2⟩, some 1400000, none, false⟩ "t2",
      .saveDecisions 1 [(.intro, decided .intro ⟨.intro, 10000, 70000, ["introdb"], false⟩ "alone")] "" "t3"]).markers.select
        (fun m => m.locked) = [⟨1, .intro, 30000, 90000, ["user"], true, "t1", some "t1"⟩] ∧
    (run lockedIntro [.saveUserMarkers 1 [⟨.credits, 1200000, 1300000, ["user"], false⟩] "" "t2",
      .unlockMarkers 1 [.credits] "t3"]).markers.select (fun m => m.fileId = 1 ∧ m.type = .intro ∧ m.locked) =
        [⟨1, .intro, 30000, 90000, ["user"], true, "t1", some "t1"⟩] :=
  ⟨((lockedMarkers_survive lockedIntro _).1 (by decide)).trans (by decide),
    ((lockedMarkers_survive lockedIntro _).2 1 .intro (by decide)).trans (by decide)⟩

end MediaPreview.Store
