import MediaPreview.Markers.Outcome
import MediaPreview.Store.Effects

/-!
# Decisions and markers agree

A marker detection wrote has a decision row that says decided, and a decision row that says
decided has a marker, detection's or the user's (`Aligned`). The operations that write the two
tables delete from them under different conditions; each re-establishes the agreement, because
a file has one marker of a type: where the user's is, detection's is not.
-/

namespace MediaPreview.Store

open Binary64 Markers

/-- Markers and decisions agree. -/
structure Aligned (db : Db) : Prop where
  /-- An unlocked marker's type is decided. -/
  unlocked : ∀ m ∈ db.markers, m.locked = false →
    ∃ d ∈ db.decisions, d.fileId = m.fileId ∧ d.type = m.type ∧ d.status = .of .decided
  /-- A decided type has a marker. -/
  decided : ∀ d ∈ db.decisions, d.status = .of .decided →
    ∃ m ∈ db.markers, m.fileId = d.fileId ∧ m.type = d.type

/-- Whether the decisions an operation saves carry a marker where they are decided, as `decide()`
returns them. -/
def Op.carriesMarkers : Op → Prop
  | .saveDecisions _ decisions _ _ => ∀ e ∈ decisions, e.2.status = .decided → e.2.marker.isSome
  | _ => True

theorem aligned_empty : Aligned .empty :=
  ⟨fun _ h => absurd h Table.notMem_empty, fun _ h => absurd h Table.notMem_empty⟩

theorem Aligned.of_same {db db' : Db} (h : Aligned db) (hsame : SameJudgement db db') : Aligned db' := by
  refine ⟨?_, ?_⟩
  · rw [hsame.1, hsame.2]
    exact h.unlocked
  · rw [hsame.1, hsame.2]
    exact h.decided

/-- Who writes at some keys leaves the agreement elsewhere, and has to see to it there. -/
theorem Aligned.of_frame {db db' : Db} (h : Aligned db) (K : ℕ × MarkerType → Prop)
    (hmarkers : ∀ m, ¬ K m.key → (m ∈ db'.markers ↔ m ∈ db.markers))
    (hdecisions : ∀ d, ¬ K d.key → (d ∈ db'.decisions ↔ d ∈ db.decisions))
    (hunlocked : ∀ m ∈ db'.markers, K m.key → m.locked = false →
      ∃ d ∈ db'.decisions, d.key = m.key ∧ d.status = .of .decided)
    (hdecided : ∀ d ∈ db'.decisions, K d.key → d.status = .of .decided → ∃ m ∈ db'.markers, m.key = d.key) :
    Aligned db' := by
  constructor
  · intro m hm hlock
    by_cases hK : K m.key
    · obtain ⟨d, hd, hkey, hstatus⟩ := hunlocked m hm hK hlock
      obtain ⟨hfile, htype⟩ := Prod.mk.inj hkey
      exact ⟨d, hd, hfile, htype, hstatus⟩
    · obtain ⟨d, hd, hfile, htype, hstatus⟩ := h.unlocked m ((hmarkers m hK).mp hm) hlock
      have hkey : d.key = m.key := Prod.ext hfile htype
      exact ⟨d, (hdecisions d (hkey ▸ hK)).mpr hd, hfile, htype, hstatus⟩
  · intro d hd hstatus
    by_cases hK : K d.key
    · obtain ⟨m, hm, hkey⟩ := hdecided d hd hK hstatus
      obtain ⟨hfile, htype⟩ := Prod.mk.inj hkey
      exact ⟨m, hm, hfile, htype⟩
    · obtain ⟨m, hm, hfile, htype⟩ := h.decided d ((hdecisions d hK).mp hd) hstatus
      have hkey : m.key = d.key := Prod.ext hfile htype
      exact ⟨m, (hmarkers m (hkey ▸ hK)).mpr hm, hfile, htype⟩

theorem lockedType_iff {db : Db} {fileId : ℕ} {type : MarkerType} :
    db.lockedType fileId type = true ↔ ∃ m ∈ db.markers, m.key = (fileId, type) ∧ m.locked = true := by
  simp [Db.lockedType, MarkerRow.key, and_assoc]

/-- Where a locked marker is, no unlocked one is. -/
theorem locked_of_lockedType {db : Db} {fileId : ℕ} {type : MarkerType} (h : db.lockedType fileId type = true)
    {m : MarkerRow} (hm : m ∈ db.markers) (hkey : m.key = (fileId, type)) : m.locked = true := by
  obtain ⟨l, hl, hlkey, hlocked⟩ := lockedType_iff.mp h
  rw [Table.eq_of_key hm hl (hkey.trans hlkey.symm), hlocked]

/-- A marker of another type or another file is not deleted with a type's. -/
theorem not_deleted {fileId : ℕ} {type : MarkerType} {m : MarkerRow} (h : m.key ≠ (fileId, type)) (q : Bool) :
    decide (m.fileId = fileId ∧ m.type = type ∧ q = true) = false := by
  rw [decide_eq_false_iff_not]
  rintro ⟨hfile, htype, -⟩
  exact h (Prod.ext hfile htype)

/-- **Saving a decision** keeps them in agreement, whether or not the type was locked meanwhile. -/
theorem aligned_saveDecision {db : Db} (h : Aligned db) {fileId : ℕ} {settingsFingerprint now : String}
    {e : MarkerType × TypeDecision} (he : e.2.status = .decided → e.2.marker.isSome) :
    Aligned (saveDecision fileId settingsFingerprint now db e) := by
  obtain ⟨type, d⟩ := e
  rw [saveDecision]
  split_ifs with hlock
  · refine h.of_frame (· = (fileId, type)) (fun _ _ => Iff.rfl) (fun _ hne => Table.mem_put_of_ne hne) ?_ ?_
    · intro m hm hkey hunlocked
      rw [locked_of_lockedType hlock hm hkey] at hunlocked
      exact Bool.noConfusion hunlocked
    · intro x hx hkey hstatus
      obtain ⟨l, hl, hlkey, -⟩ := lockedType_iff.mp hlock
      exact ⟨l, hl, hlkey.trans hkey.symm⟩
  · split
    · -- decided: the marker and its row are written together
      next m hdecided hmarker =>
      refine h.of_frame (· = (fileId, type)) (fun _ hne => Table.mem_put_of_ne hne)
        (fun _ hne => Table.mem_put_of_ne hne) ?_ ?_
      · intro k hk hkey hunlocked
        exact ⟨_, Table.mem_put_self _ _, hkey.symm, congrArg StoredStatus.of hdecided⟩
      · intro x hx hkey hstatus
        exact ⟨_, Table.mem_put_self _ _, hkey.symm⟩
    · -- anything else: no unlocked marker is left
      next hnot =>
      have hundecided : d.status ≠ .decided := by
        intro hdecided
        obtain ⟨m, hm⟩ := Option.isSome_iff_exists.mp (he hdecided)
        exact hnot m hdecided hm
      refine h.of_frame (· = (fileId, type)) (fun m hne => Table.mem_delete_of_not (not_deleted hne _))
        (fun _ hne => Table.mem_put_of_ne hne) ?_ ?_
      · intro k hk hkey hunlocked
        obtain ⟨hfile, htype⟩ := Prod.mk.inj hkey
        have hkept := (Table.mem_delete.mp hk).2
        simp [hfile, htype, hunlocked] at hkept
      · intro x hx hkey hstatus
        rw [Table.eq_of_mem_put hx hkey] at hstatus
        exact absurd (StoredStatus.of.inj hstatus) hundecided

theorem aligned_saveDecisions {fileId : ℕ} {settingsFingerprint now : String}
    {decisions : List (MarkerType × TypeDecision)} (hd : ∀ e ∈ decisions, e.2.status = .decided → e.2.marker.isSome)
    {db : Db} (h : Aligned db) : Aligned (decisions.foldl (saveDecision fileId settingsFingerprint now) db) := by
  induction decisions generalizing db with
  | nil => exact h
  | cons e decisions ih => exact ih (fun x hx => hd x (.tail _ hx)) (aligned_saveDecision h (hd e (.head _)))

/-- Locking a type leaves its decision. -/
theorem aligned_writeLock {db : Db} (h : Aligned db) (fileId : ℕ) (m : Marker) (now : String) :
    Aligned (writeLock db fileId m now) := by
  refine h.of_frame (· = (fileId, m.type)) (fun _ hne => Table.mem_put_of_ne hne) (fun _ _ => Iff.rfl) ?_ ?_
  · intro k hk hkey hunlocked
    rw [Table.eq_of_mem_put hk hkey] at hunlocked
    exact Bool.noConfusion hunlocked
  · intro x hx hkey hstatus
    exact ⟨_, Table.mem_put_self _ _, hkey.symm⟩

/-- A type the user saved is decided, and locked. -/
theorem aligned_saveUserMarker {db : Db} (h : Aligned db) (fileId : ℕ) (settingsFingerprint now : String) (m : Marker) :
    Aligned (saveUserMarker fileId settingsFingerprint now db m) := by
  refine h.of_frame (· = (fileId, m.type)) (fun _ hne => Table.mem_put_of_ne hne)
    (fun _ hne => Table.mem_put_of_ne hne) ?_ ?_
  · intro k hk hkey hunlocked
    exact ⟨_, Table.mem_put_self _ _, hkey.symm, rfl⟩
  · intro x hx hkey hstatus
    exact ⟨_, Table.mem_put_self _ _, hkey.symm⟩

theorem aligned_saveUserMarkers {fileId : ℕ} {settingsFingerprint now : String} (markers : List Marker) {db : Db}
    (h : Aligned db) : Aligned (markers.foldl (saveUserMarker fileId settingsFingerprint now) db) := by
  induction markers generalizing db with
  | nil => exact h
  | cons m markers ih => exact ih (aligned_saveUserMarker h fileId settingsFingerprint now m)

/-- Unlocking a type drops its marker and leaves it undecided. -/
theorem aligned_unlockType {acc : List MarkerType × Db} (h : Aligned acc.2) (fileId : ℕ) (now : String)
    (type : MarkerType) : Aligned (unlockType fileId now acc type).2 := by
  rw [unlockType]
  split_ifs with hlock
  · refine h.of_frame (· = (fileId, type)) (fun m hne => Table.mem_delete_of_not (not_deleted hne _))
      (fun _ hne => Table.mem_put_of_ne hne) ?_ ?_
    · intro k hk hkey hunlocked
      rw [locked_of_lockedType hlock (Table.mem_delete.mp hk).1 hkey] at hunlocked
      exact Bool.noConfusion hunlocked
    · intro x hx hkey hstatus
      rw [Table.eq_of_mem_put hx hkey] at hstatus
      exact DecisionStatus.noConfusion (StoredStatus.of.inj hstatus)
  · exact h

theorem aligned_unlockMarkers {fileId : ℕ} {now : String} (types : List MarkerType) (acc : List MarkerType × Db)
    (h : Aligned acc.2) : Aligned (types.foldl (unlockType fileId now) acc).2 := by
  induction types generalizing acc with
  | nil => exact h
  | cons type types ih => exact ih _ (aligned_unlockType h fileId now type)

/-- A changed identity clears the file's decisions and its unlocked markers. -/
theorem aligned_forgetFile {db : Db} (h : Aligned db) (row : FileRow) (files : FileTable) :
    Aligned (forgetFile db row files) := by
  refine h.of_frame (fun key => key.1 = row.id) (fun m hne => Table.mem_delete_of_not ?_)
    (fun d hne => Table.mem_delete_of_not ?_) ?_ ?_
  · exact decide_eq_false fun hgone => hne hgone.1
  · exact decide_eq_false hne
  · intro k hk hfile hunlocked
    have hkept := (Table.mem_delete.mp hk).2
    simp [show k.fileId = row.id from hfile, hunlocked] at hkept
  · intro x hx hfile hstatus
    exact absurd hfile (of_decide_eq_false (Table.mem_delete.mp hx).2)

theorem aligned_upserted {db db' : Db} (h : Aligned db) (hdb : Upserted db db') : Aligned db' := by
  rcases hdb with ⟨files, -, rfl⟩ | ⟨row, files, -, rfl⟩
  · exact h.of_same ⟨rfl, rfl⟩
  · exact aligned_forgetFile h row files

/-- **Every operation** keeps them in agreement. -/
theorem aligned_step {db : Db} {op : Op} (hop : op.carriesMarkers) (h : Aligned db) : Aligned (step db op) := by
  by_cases hjudges : op.judges = false
  · exact h.of_same (judgement_step db hjudges)
  cases op with
  | upsertFile f now => exact aligned_upserted h (upserted_upsertFile db f now)
  | storeFile f now => exact aligned_upserted h (upserted_storeFile db f now)
  | saveDecisions fileId decisions settingsFingerprint now =>
    rw [step, saveDecisions]
    split_ifs
    · exact aligned_saveDecisions hop h
    · exact h
  | lockMarker fileId marker now =>
    rw [step, lockMarker]
    split_ifs
    · exact aligned_writeLock h fileId marker now
    · exact h
  | saveUserMarkers fileId markers settingsFingerprint now =>
    rw [step, saveUserMarkers]
    split_ifs
    · exact aligned_saveUserMarkers _ h
    · exact h
  | unlockMarkers fileId types now => exact aligned_unlockMarkers types ([], db) h
  | _ => simp [Op.judges] at hjudges

/-- **Decisions and markers never drift apart**: in every run from an empty store whose decided
decisions carry a marker. -/
theorem decisions_markers_aligned (ops : List Op) (hops : ∀ op ∈ ops, op.carriesMarkers) :
    Aligned (run .empty ops) :=
  run_invariant (fun _ _ hop h => aligned_step hop h) aligned_empty ops hops

/-- Saving what `decide()` returned is such an operation. -/
theorem carriesMarkers_decide (fileId : ℕ) (types : List MarkerType) (candidates : List Candidate) (ctx : DecisionContext)
    (locked : MarkerType → Option Marker) (settingsFingerprint now : String) :
    (Op.saveDecisions fileId (types.map fun type => (type, decide candidates ctx locked type))
      settingsFingerprint now).carriesMarkers := by
  intro e he hdecided
  obtain ⟨type, -, rfl⟩ := List.mem_map.mp he
  exact (outcomeOf_decide candidates locked).marker_iff.mpr hdecided

/-- An intro is decided, locked by the user, decided again meanwhile, and unlocked on the replaced file. -/
theorem decisions_markers_aligned_edited :
    Aligned (run .empty [.upsertFile ⟨⟨"/a.mkv", 1, 1⟩, some 1320000, none, false⟩ "t0",
      .saveDecisions 1 [(.intro, decided .intro ⟨.intro, 10000, 70000, ["introdb"], false⟩ "alone")] "" "t1",
      .saveUserMarkers 1 [⟨.intro, 30000, 90000, ["user"], false⟩] "" "t2",
      .saveDecisions 1 ([.intro].map fun type => (type, decide [] ⟨1320000, false, "high", {.intro}, [], none, 0, 0, none⟩
        (fun _ => none) type)) "" "t3",
      .upsertFile ⟨⟨"/a.mkv", 2, 2⟩, some 1320000, none, false⟩ "t4", .unlockMarkers 1 [.intro] "t5"]) := by
  refine decisions_markers_aligned _ fun op hop => ?_
  simp only [List.mem_cons, List.not_mem_nil, or_false] at hop
  obtain rfl | rfl | rfl | rfl | rfl | rfl := hop
  · trivial
  · simp [Op.carriesMarkers, decided]
  · trivial
  · exact carriesMarkers_decide 1 [.intro] [] _ _ "" "t3"
  · trivial
  · trivial

end MediaPreview.Store
