import MediaPreview.Store.Run

/-!
# What the operations can change

For each operation that writes `files` or the season caches, every database it can leave, with
the guards it passed. The invariants of the store are proved from these: an operation that
stores a file keeps every identity, or it forgets one file and changes that file's identity
alone (`upserted_upsertFile`). The operations that write neither a marker nor a decision are told
once (`judgement_step`).
-/

namespace MediaPreview.Store

open Binary64 Markers

/-! ### Identities in the file table -/

/-- A file's size and mtime. -/
def FileTable.identity (t : FileTable) (id : ℕ) : Option (ℤ × ℤ) := (t.byId id).map (·.identity)

/-- Every file of `t` has the same identity in `t'`. -/
def FileTable.Keeps (t t' : FileTable) : Prop := ∀ id, (t.identity id).isSome → t'.identity id = t.identity id

namespace FileTable

theorem Keeps.refl (t : FileTable) : t.Keeps t := fun _ _ => rfl

theorem Keeps.trans {t t' t'' : FileTable} (h : t.Keeps t') (h' : t'.Keeps t'') : t.Keeps t'' := by
  intro id hid
  rw [h' id (by rwa [h id hid]), h id hid]

theorem byId_map {g : FileRow → FileRow} (hg : ∀ r, (g r).id = r.id) (rows : List FileRow) (id : ℕ) :
    (rows.map g).find? (fun r => r.id = id) = (rows.find? fun r => r.id = id).map g := by
  rw [List.find?_map]
  congr 2
  funext r
  simp only [Function.comp, hg]

theorem byId_modify {t : FileTable} {id : ℕ} {f : FileRow → FileRow} (hid hpath) (id' : ℕ) :
    (t.modify id f hid hpath).byId id' = (t.byId id').map fun r => if r.id = id then f r else r := by
  refine byId_map (fun r => ?_) t.rows id'
  split_ifs
  · exact hid r
  · rfl

/-- Rewriting a row changes its own identity only. -/
theorem identity_modify_of_ne {t : FileTable} {id id' : ℕ} {f : FileRow → FileRow} (hid hpath) (hne : id' ≠ id) :
    (t.modify id f hid hpath).identity id' = t.identity id' := by
  rw [identity, identity, byId_modify]
  cases h : t.byId id' with
  | none => rfl
  | some r =>
    have hr : r.id ≠ id := (of_byId h).2 ▸ hne
    simp [hr]

theorem identity_modify_self {t : FileTable} {id : ℕ} {f : FileRow → FileRow} (hid hpath) {r : FileRow}
    (h : t.byId id = some r) : (t.modify id f hid hpath).identity id = some (f r).identity := by
  rw [identity, byId_modify, h]
  simp [(of_byId h).2]

/-- The row of an id is the one with that id. -/
theorem byId_of_mem {t : FileTable} {r : FileRow} (hr : r ∈ t.rows) : t.byId r.id = some r := by
  cases h : t.byId r.id with
  | none =>
    rw [byId, List.find?_eq_none] at h
    exact absurd (h r hr) (by simp)
  | some s =>
    obtain ⟨hs, hid⟩ := of_byId h
    rw [List.inj_on_of_nodup_map t.ids hs hr hid]

/-- Rewriting a row to the identity it has keeps every identity. -/
theorem keeps_modify {t : FileTable} {r : FileRow} (hr : r ∈ t.rows) {f : FileRow → FileRow} (hid hpath)
    (hf : (f r).identity = r.identity) : t.Keeps (t.modify r.id f hid hpath) := by
  intro id _
  by_cases h : id = r.id
  · subst h
    rw [identity_modify_self hid hpath (byId_of_mem hr), identity, byId_of_mem hr, hf]
    rfl
  · exact identity_modify_of_ne hid hpath h

/-- Rewriting columns that are not the identity keeps every identity. -/
theorem keeps_modify_id {t : FileTable} (id : ℕ) {f : FileRow → FileRow} (hid hpath)
    (hf : ∀ r, (f r).identity = r.identity) : t.Keeps (t.modify id f hid hpath) := by
  intro id' _
  rw [identity, identity, byId_modify]
  cases t.byId id' with
  | none => rfl
  | some r =>
    simp only [Option.map_some, Option.some.injEq]
    split_ifs
    · exact hf r
    · rfl

theorem keeps_moveTo {t : FileTable} (id : ℕ) (path : String) {f : FileRow → FileRow} (hid hpath)
    (hf : ∀ r, (f r).identity = r.identity) : t.Keeps (t.moveTo id path f hid hpath) := by
  intro id' _
  rw [moveTo]
  split_ifs
  · rw [identity, identity, byId, byId_map fun r => ?_]
    · change _ = ((t.rows.find? fun r => r.id = id').map _)
      cases t.rows.find? fun r => r.id = id' with
      | none => rfl
      | some r =>
        simp only [Option.map_some, Option.some.injEq]
        split_ifs
        · exact hf r
        · rfl
    · split_ifs
      · exact hid r
      · rfl
  · rfl

theorem byId_insert_of_some {t : FileTable} {row r : FileRow} {id : ℕ} (h : t.byId id = some r) :
    (t.insert row).byId id = some r := by
  rw [insert]
  split_ifs
  · rw [byId] at h
    rw [byId, List.find?_append, h]
    rfl
  · exact h

theorem keeps_insert (t : FileTable) (row : FileRow) : t.Keeps (t.insert row) := by
  intro id h
  rw [identity, Option.isSome_map] at h
  obtain ⟨r, hr⟩ := Option.isSome_iff_exists.mp h
  rw [identity, identity, byId_insert_of_some hr, hr]

/-- An insert at a free path takes the next id. -/
theorem identity_insert {t : FileTable} {row : FileRow} (h : t.byPath row.canonicalPath = none) :
    (t.insert row).identity t.nextId = some row.identity := by
  rw [insert, dif_pos h, identity, byId, List.find?_append]
  have hnone : t.rows.find? (fun r => r.id = t.nextId) = none := by
    rw [List.find?_eq_none]
    intro r hr
    simpa using (id_lt_nextId hr).ne
  rw [hnone]
  simp [FileRecord.identity]

end FileTable

/-! ### Files -/

theorem touchFile_cases {db db' : Db} {f : FileFacts} {now : String} {record : FileRecord}
    (h : touchFile db f now = some (record, db')) : ∃ files, db.files.Keeps files ∧ db' = { db with files := files } := by
  rw [touchFile, Option.map_eq_some_iff] at h
  obtain ⟨r, hr, heq⟩ := h
  rw [Prod.mk.injEq] at heq
  refine ⟨_, ?_, heq.2.symm⟩
  exact FileTable.keeps_modify_id r.id _ _ fun _ => rfl

/-- **What storing a file can do**: the file table with every identity kept, or one file forgotten and
its identity alone changed. -/
def Upserted (db db' : Db) : Prop :=
  (∃ files, db.files.Keeps files ∧ db' = { db with files := files }) ∨
    ∃ row files, (∀ id, id ≠ row.id → files.identity id = db.files.identity id) ∧ db' = forgetFile db row files

theorem upserted_storeFile (db : Db) (f : FileFacts) (now : String) : Upserted db (storeFile db f now).2 := by
  rw [storeFile]
  split
  · exact .inl ⟨_, FileTable.keeps_insert _ _, rfl⟩
  · next row hrow =>
    have hmem := (FileTable.of_byPath hrow).1
    split_ifs with hid
    · refine .inr ⟨row, _, fun id hne => ?_, rfl⟩
      exact FileTable.identity_modify_of_ne _ _ hne
    · refine .inl ⟨_, FileTable.keeps_modify hmem _ _ ?_, rfl⟩
      exact (not_not.mp hid).symm

theorem upserted_upsertFile (db : Db) (f : FileFacts) (now : String) : Upserted db (upsertFile db f now).2 := by
  rw [upsertFile]
  split
  · next record touched h => exact .inl (touchFile_cases h)
  · exact upserted_storeFile db f now

/-- What recording a member can do: nothing, or its chapters and frame rate stored under the row it
returns. -/
theorem recordMember_cases (db : Db) (m : MemberFacts) (now : String) :
    ((recordMember db m now).1 = none ∧ (recordMember db m now).2 = db) ∨
      ∃ record files, (recordMember db m now).1 = some record ∧ db.files.Keeps files ∧
        (recordMember db m now).2 = writeMember { db with files := files } record.id m now := by
  rw [recordMember]
  split
  · next hnone =>
    right
    let inserted := db.files.insert (FileFacts.newRow ⟨m.identity, some m.durationMs, some m.seasonKey, false⟩ now)
    have hinsert : inserted.identity db.files.nextId = some m.identity.stamp := FileTable.identity_insert hnone
    obtain ⟨r, hr, -⟩ := Option.map_eq_some_iff.mp hinsert
    simp only [inserted] at hr
    simp only [hr, Option.map_some, Option.some.injEq]
    refine ⟨r.toFileRecord, inserted, rfl, FileTable.keeps_insert _ _, ?_⟩
    rw [(FileTable.of_byId hr).2]
  · next row hrow =>
    have hmem := (FileTable.of_byPath hrow).1
    split_ifs with hid
    · exact .inl ⟨rfl, rfl⟩
    · right
      simp only [FileTable.byId_modify, FileTable.byId_of_mem hmem, Option.map_some, if_true, Option.some.injEq]
      refine ⟨_, _, rfl, ?_, rfl⟩
      exact FileTable.keeps_modify_id _ _ _ fun _ => rfl

theorem moveFile_cases (db : Db) (fileId : ℕ) (oldPath newPath : String) :
    (moveFile db fileId oldPath newPath).2 = db ∨
      ∃ files failures, db.files.Keeps files ∧
        (moveFile db fileId oldPath newPath).2 = { db with files := files, failures := failures } := by
  rw [moveFile]
  split_ifs
  · exact .inl rfl
  · exact .inl rfl
  · refine .inr ⟨_, _, ?_, rfl⟩
    exact FileTable.keeps_moveTo _ _ _ _ fun _ => rfl

theorem markMissing_cases (db : Db) (record : FileRecord) (now : String) :
    ∃ files, db.files.Keeps files ∧ (markMissing db record now).2 = { db with files := files } := by
  rw [markMissing]
  split_ifs
  · refine ⟨_, ?_, rfl⟩
    exact FileTable.keeps_modify_id _ _ _ fun _ => rfl
  · exact ⟨_, .refl _, rfl⟩

theorem clearMissing_cases (db : Db) (fileId : ℕ) :
    ∃ files, db.files.Keeps files ∧ (clearMissing db fileId).2 = { db with files := files } := by
  rw [clearMissing]
  split_ifs
  · refine ⟨_, ?_, rfl⟩
    exact FileTable.keeps_modify_id _ _ _ fun _ => rfl
  · exact ⟨_, .refl _, rfl⟩

/-! ### The season caches -/

theorem hasFingerprint_iff {db : Db} {fileId : ℕ} {window : String} :
    db.hasFingerprint fileId window = true ↔ ∃ p ∈ db.fingerprints, p.key = (fileId, window) := by
  simp [Db.hasFingerprint, FingerprintRow.key]

/-- What storing a fingerprint can do: nothing, or the row stored for the file's identity, the file's
pairs dropped where it had one of the window. -/
theorem setFingerprint_cases (db : Db) (row : FingerprintRow) (identity : ℤ × ℤ) :
    ((setFingerprint db row identity).1 = false ∧ (setFingerprint db row identity).2 = db) ∨
      ((setFingerprint db row identity).1 = true ∧ db.files.identity row.fileId = some identity ∧
        (setFingerprint db row identity).2 = { db with
          seasonPairRuns :=
            if db.hasFingerprint row.fileId row.window then db.pairsWithout row.fileId else db.seasonPairRuns
          fingerprints := db.fingerprints.put row }) := by
  rw [setFingerprint]
  by_cases hid : db.identityOf row.fileId ≠ some identity
  · rw [if_pos hid]
    exact .inl ⟨rfl, rfl⟩
  · rw [if_neg hid]
    exact .inr ⟨rfl, not_not.mp hid, rfl⟩

/-- Two rows whose ids are `a` or `b` are the rows of both. -/
theorem rows_of_two {files : FileTable} {p : FileRow → Bool} {a b : ℕ} (hp : ∀ f, p f = true → f.id = a ∨ f.id = b)
    (hlen : (files.rows.filter p).length = 2) :
    a ≠ b ∧ (∃ f ∈ files.rows.filter p, f.id = a) ∧ ∃ f ∈ files.rows.filter p, f.id = b := by
  obtain ⟨x, y, hxy⟩ := List.length_eq_two.mp hlen
  have hx := hp x (List.mem_filter.mp (hxy ▸ List.mem_cons_self : x ∈ files.rows.filter p)).2
  have hy := hp y (List.mem_filter.mp (hxy ▸ by simp : y ∈ files.rows.filter p)).2
  have hne : x.id ≠ y.id := by
    have hnodup := files.ids.sublist (List.filter_sublist (p := p).map (·.id))
    rw [hxy] at hnodup
    simpa using hnodup
  rw [hxy]
  rcases hx with hx | hx <;> rcases hy with hy | hy
  · exact absurd (hx.trans hy.symm) hne
  · exact ⟨fun hab => hne (hx.trans (hab.trans hy.symm)), ⟨x, by simp, hx⟩, ⟨y, by simp, hy⟩⟩
  · exact ⟨fun hab => hne (hx.trans (hab.symm.trans hy.symm)), ⟨y, by simp, hy⟩, ⟨x, by simp, hx⟩⟩
  · exact absurd (hx.trans hy.symm) hne

/-- What the setters of two files check: both rows are there, with the identities given. -/
theorem identities_of_rows {files : FileTable} {p : FileRow → Bool} {a b : ℕ} {identityA identityB : ℤ × ℤ}
    (hp : ∀ f, p f = true → f.id = a ∨ f.id = b) (hlen : (files.rows.filter p).length = 2)
    (hid : ∀ f ∈ files.rows.filter p, f.identity = if f.id = b then identityB else identityA) :
    files.identity a = some identityA ∧ files.identity b = some identityB := by
  obtain ⟨hne, ⟨f, hf, rfl⟩, ⟨g, hg, rfl⟩⟩ := rows_of_two hp hlen
  have hof : ∀ f ∈ files.rows.filter p, files.identity f.id = some f.identity := by
    intro f hf
    rw [FileTable.identity, FileTable.byId_of_mem (List.mem_filter.mp hf).1]
    rfl
  rw [hof f hf, hof g hg, hid f hf, hid g hg, if_neg hne, if_pos rfl]
  exact ⟨rfl, rfl⟩

/-- What storing a pair can do: nothing, or the row stored for both files' identities, both having an
intro fingerprint. -/
theorem setSeasonPair_cases (db : Db) (row : PairRow) (identityA identityB : ℤ × ℤ) :
    ((setSeasonPair db row identityA identityB).1 = false ∧ (setSeasonPair db row identityA identityB).2 = db) ∨
      ((setSeasonPair db row identityA identityB).1 = true ∧
        db.files.identity row.fileA = some identityA ∧ db.files.identity row.fileB = some identityB ∧
        db.hasFingerprint row.fileA seasonPairWindow = true ∧ db.hasFingerprint row.fileB seasonPairWindow = true ∧
        ∃ pairs : Table PairRow PairRow.key, (∀ r ∈ pairs, r ∈ db.seasonPairRuns) ∧
          (setSeasonPair db row identityA identityB).2 = { db with seasonPairRuns := pairs.put row }) := by
  simp only [setSeasonPair]
  split_ifs with hcheck
  · exact .inl ⟨rfl, rfl⟩
  right
  rw [not_or, not_not, Bool.not_eq_true, List.any_eq_false] at hcheck
  obtain ⟨hlen, hid⟩ := hcheck
  have hp : ∀ f : FileRow, decide ((f.id = row.fileA ∨ f.id = row.fileB) ∧
      db.hasFingerprint f.id seasonPairWindow = true) = true → f.id = row.fileA ∨ f.id = row.fileB :=
    fun f hf => (of_decide_eq_true hf).1
  have hhas : ∀ f ∈ db.files.rows.filter fun f => decide ((f.id = row.fileA ∨ f.id = row.fileB) ∧
      db.hasFingerprint f.id seasonPairWindow = true), db.hasFingerprint f.id seasonPairWindow = true :=
    fun f hf => (of_decide_eq_true (List.mem_filter.mp hf).2).2
  obtain ⟨hA, hB⟩ := identities_of_rows hp hlen fun f hf => by simpa using hid f hf
  obtain ⟨-, ⟨f, hf, hfA⟩, ⟨g, hg, hgB⟩⟩ := rows_of_two hp hlen
  exact ⟨rfl, hA, hB, hfA ▸ hhas f hf, hgB ▸ hhas g hg, _, fun r hr => (Table.mem_delete.mp hr).1, rfl⟩

/-- What storing an end-picture share can do: nothing, or the row stored for both files' identities. -/
theorem setEndPicture_cases (db : Db) (row : EndPictureRow) (identityA identityB : ℤ × ℤ) :
    ((setEndPicture db row identityA identityB).1 = false ∧ (setEndPicture db row identityA identityB).2 = db) ∨
      ((setEndPicture db row identityA identityB).1 = true ∧
        db.files.identity row.key.fileA = some identityA ∧ db.files.identity row.key.fileB = some identityB ∧
        (setEndPicture db row identityA identityB).2 =
          { db with seasonEndPictures := db.seasonEndPictures.put row }) := by
  simp only [setEndPicture]
  split_ifs with hcheck
  · exact .inl ⟨rfl, rfl⟩
  rw [not_or, not_not, Bool.not_eq_true, List.any_eq_false] at hcheck
  obtain ⟨hlen, hid⟩ := hcheck
  obtain ⟨hA, hB⟩ := identities_of_rows (fun f hf => of_decide_eq_true hf) hlen fun f hf => by simpa using hid f hf
  exact .inr ⟨rfl, hA, hB, rfl⟩

/-! ### Markers and decisions -/

/-- The same markers and the same decisions. -/
def SameJudgement (db db' : Db) : Prop := db'.markers = db.markers ∧ db'.decisions = db.decisions

theorem SameJudgement.refl (db : Db) : SameJudgement db db := ⟨rfl, rfl⟩

theorem SameJudgement.trans {db db' db'' : Db} (h : SameJudgement db db') (h' : SameJudgement db' db'') :
    SameJudgement db db'' := ⟨h'.1.trans h.1, h'.2.trans h.2⟩

/-- The operations that may write a marker or a decision. -/
def Op.judges : Op → Bool
  | .upsertFile .. | .storeFile .. | .saveDecisions .. | .lockMarker .. | .saveUserMarkers .. | .unlockMarkers .. => true
  | _ => false

theorem finishFingerprintChecks_judgement (db : Db) (checkedUpTo : ℕ) (gone : List FingerprintCheck) :
    SameJudgement db (finishFingerprintChecks db checkedUpTo gone).2 := by
  have hfold : ∀ acc : ℕ × Db, SameJudgement acc.2 (gone.foldl dropCache acc).2 := by
    induction gone with
    | nil => exact fun acc => .refl acc.2
    | cons check gone ih =>
      intro acc
      refine SameJudgement.trans ?_ (ih (dropCache acc check))
      rw [dropCache]
      split_ifs
      · exact ⟨rfl, rfl⟩
      · exact .refl _
  exact hfold _

/-- **The other operations write neither.** -/
theorem judgement_step (db : Db) {op : Op} (hop : op.judges = false) : SameJudgement db (step db op) := by
  cases op with
  | upsertFile f now => simp [Op.judges] at hop
  | storeFile f now => simp [Op.judges] at hop
  | saveDecisions fileId decisions settingsFingerprint now => simp [Op.judges] at hop
  | lockMarker fileId marker now => simp [Op.judges] at hop
  | saveUserMarkers fileId markers settingsFingerprint now => simp [Op.judges] at hop
  | unlockMarkers fileId types now => simp [Op.judges] at hop
  | recordMember m now =>
    rcases recordMember_cases db m now with ⟨-, h⟩ | ⟨record, files, -, -, h⟩
    · rw [step, h]
      exact .refl db
    · rw [step, h]
      exact ⟨rfl, rfl⟩
  | moveFile fileId oldPath newPath =>
    rcases moveFile_cases db fileId oldPath newPath with h | ⟨files, failures, -, h⟩
    · rw [step, h]
      exact .refl db
    · rw [step, h]
      exact ⟨rfl, rfl⟩
  | markMissing record now =>
    obtain ⟨files, -, h⟩ := markMissing_cases db record now
    rw [step, h]
    exact ⟨rfl, rfl⟩
  | clearMissing fileId =>
    obtain ⟨files, -, h⟩ := clearMissing_cases db fileId
    rw [step, h]
    exact ⟨rfl, rfl⟩
  | replaceEvidence fileId source candidates origin detail version alsoReplaces now =>
    rw [step, replaceEvidence]
    split_ifs <;> exact ⟨rfl, rfl⟩
  | replaceDetectorAnswer fileId answers version run now =>
    simp only [step, replaceDetectorAnswer]
    split_ifs <;> exact ⟨rfl, rfl⟩
  | setFingerprint row identity =>
    rw [step, setFingerprint]
    split_ifs <;> exact ⟨rfl, rfl⟩
  | setFrameRate fileId frameRate identity =>
    rw [step, setFrameRate]
    split_ifs <;> exact ⟨rfl, rfl⟩
  | setSeasonPair row identityA identityB =>
    simp only [step, setSeasonPair]
    split_ifs <;> exact ⟨rfl, rfl⟩
  | setEndPicture row identityA identityB =>
    simp only [step, setEndPicture]
    split_ifs <;> exact ⟨rfl, rfl⟩
  | finishFingerprintChecks checkedUpTo gone => exact finishFingerprintChecks_judgement db checkedUpTo gone

end MediaPreview.Store
