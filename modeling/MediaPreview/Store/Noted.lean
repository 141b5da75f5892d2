import MediaPreview.Store.Reads
import MediaPreview.Store.Transactions

/-!
# What is noted covers what is read

Every transaction that changes a table the memoised reads come from executes a statement in whose text `_WRITTEN_TABLE`
finds such a table, or promises what holds: that it changes nothing they return (`noted_of_change`).
-/

namespace MediaPreview.Store

open Markers Ranking

/-- What the transactions that change a table the memoised reads come from execute, by the table. -/
def notingStatements : List (Sql × String) :=
  [insertFile, replaceFile, refreshFile, updateMember, renameFile, setMissingSince, clearMissingSince].map (·, "files") ++
  [insertMarker, deleteMarker, insertLock, deleteLock].map (·, "markers") ++
  [insertFingerprint, deleteFingerprints].map (·, "fingerprints") ++
  [FailureTable.memberProbeFailures, .memberFingerprintFailures, .creditsTextTimeouts, .endPictureFailures].map
    (fun table => (deleteFailures table, table.name)) ++
  [(deleteEvidence, "evidence"), (updateEvidenceVersion, "evidence_versions"), (insertFrameRate, "frame_rates"),
    (insertDetectorRun, "detector_runs"), (insertDetectorFailure, "detector_failures")]

theorem writtenTable_notingStatements : ∀ e ∈ notingStatements, e.2 ∈ readTables ∧ writtenTable e.1 = some e.2 := by
  decide +kernel

/-- A statement among them writes a table that cached reads come from. -/
def Noted (sqls : List Sql) : Prop := ∃ sql ∈ sqls, ∃ table ∈ readTables, writtenTable sql = some table

theorem Noted.of_mem {sqls : List Sql} {sql : Sql} (hsql : sql ∈ sqls) (table : String)
    (h : (sql, table) ∈ notingStatements) : Noted sqls :=
  ⟨sql, hsql, table, writtenTable_notingStatements _ h⟩

theorem Noted.left {sqls sqls' : List Sql} (h : Noted sqls) : Noted (sqls ++ sqls') := by
  obtain ⟨sql, hsql, h⟩ := h
  exact ⟨sql, List.mem_append_left _ hsql, h⟩

theorem Noted.right {sqls sqls' : List Sql} (h : Noted sqls') : Noted (sqls ++ sqls') := by
  obtain ⟨sql, hsql, h⟩ := h
  exact ⟨sql, List.mem_append_right _ hsql, h⟩

theorem Noted.tail {sql : Sql} {sqls : List Sql} (h : Noted sqls) : Noted (sql :: sqls) := by
  obtain ⟨sql', hsql', h⟩ := h
  exact ⟨sql', .tail _ hsql', h⟩

/-! ### Files -/

/-- Rewriting when a file was last looked at changes nothing that is read. -/
theorem readTables_touchFile (db : Db) (f : FileFacts) (now : String) :
    ((touchFile db f now).elim db Prod.snd).readTables = db.readTables := by
  unfold touchFile
  cases db.files.rows.find? fun r => f.storedAs r with
  | none => rfl
  | some r =>
    have hfiles : (db.files.rows.map fun s => if s.id = r.id then { s with updatedAt := now } else s).map
        (·.toFileRecord) = db.files.rows.map (·.toFileRecord) := by
      rw [List.map_map]
      refine List.map_congr_left fun s _ => ?_
      show (if s.id = r.id then { s with updatedAt := now } else s).toFileRecord = s.toFileRecord
      split_ifs <;> rfl
    exact congrArg (fun files => { db.readTables with files := files }) hfiles

theorem noted_storeFile (db : Db) (f : FileFacts) : Noted (storeFileStatements db f) := by
  unfold storeFileStatements
  cases db.files.byPath f.identity.canonicalPath with
  | none => exact .of_mem (.head _) "files" (by simp [notingStatements])
  | some row =>
    dsimp only
    split_ifs
    · exact .right (.of_mem (.tail _ (.head _)) "files" (by simp [notingStatements]))
    · exact .of_mem (.head _) "files" (by simp [notingStatements])

theorem noted_writeEvidence (source : Source) (candidates : List Candidate) (version : Option ℤ)
    (alsoReplaces : List Source) : Noted (writeEvidenceStatements source candidates version alsoReplaces) := by
  refine .left (.left (.of_mem (List.mem_flatMap.2 ⟨source, List.mem_dedup.2 (.head _), .head _⟩) "evidence" ?_))
  simp [notingStatements]

theorem noted_recordMember (db : Db) (m : MemberFacts) (now : String) :
    (recordMember db m now).2 = db ∨ Noted (recordMemberStatements db m) := by
  unfold recordMember recordMemberStatements
  cases db.files.byPath m.identity.canonicalPath with
  | none => exact .inr (.of_mem (.head _) "files" (by simp [notingStatements]))
  | some row =>
    dsimp only
    split_ifs
    · exact .inl rfl
    · exact .inr (.of_mem (.head _) "files" (by simp [notingStatements]))

/-! ### Decisions -/

theorem noted_saveDecisions (fileId : ℕ) (settingsFingerprint now : String) (decisions : List (MarkerType × TypeDecision))
    (db : Db) :
    (decisions.foldl (saveDecision fileId settingsFingerprint now) db).readTables = db.readTables ∨
      Noted (saveDecisionsStatements fileId settingsFingerprint now db decisions) := by
  induction decisions generalizing db with
  | nil => exact .inl rfl
  | cons e decisions ih =>
    rw [List.foldl_cons, saveDecisionsStatements]
    cases hlocked : db.lockedType fileId e.1 with
    | true =>
      have hsame : (saveDecision fileId settingsFingerprint now db e).readTables = db.readTables := by
        rw [saveDecision, hlocked]
        rfl
      obtain hrest | hrest := ih (saveDecision fileId settingsFingerprint now db e)
      · exact .inl (hrest.trans hsame)
      · exact .inr (.tail (.right hrest))
    | false =>
      refine .inr (.tail (.left ?_))
      rw [if_neg Bool.false_ne_true]
      split
      · exact .of_mem (.head _) "markers" (by simp [notingStatements])
      · exact .of_mem (.head _) "markers" (by simp [notingStatements])

theorem noted_unlock (fileId : ℕ) (now : String) (types : List MarkerType) (acc : List MarkerType × Db) :
    types = [] ∨ Noted (unlockStatements fileId now acc types) := by
  cases types with
  | nil => exact .inl rfl
  | cons type types => exact .inr (.of_mem (.head _) "markers" (by simp [notingStatements]))

/-! ### Season caches -/

theorem noted_writeFrameRate (db : Db) (row : FrameRateRow) : Noted (writeFrameRateStatements db row) :=
  .right (.of_mem (.head _) "frame_rates" (by simp [notingStatements]))

theorem noted_setFrameRate (db : Db) (fileId : ℕ) (frameRate : Option ℚ) (identity : ℤ × ℤ) :
    (setFrameRate db fileId frameRate identity).2 = db ∨
      Noted (if db.identityOf fileId ≠ some identity then []
        else writeFrameRateStatements db ⟨fileId, identity.1, identity.2, frameRate⟩) := by
  unfold setFrameRate
  by_cases hidentity : db.identityOf fileId ≠ some identity
  · rw [if_pos hidentity]
    exact .inl rfl
  · rw [if_neg hidentity, if_neg hidentity]
    exact .inr (noted_writeFrameRate db _)

theorem noted_setFingerprint (db : Db) (row : FingerprintRow) (identity : ℤ × ℤ) :
    (setFingerprint db row identity).2 = db ∨ Noted (setFingerprintStatements db row identity) := by
  unfold setFingerprint setFingerprintStatements
  by_cases hidentity : db.identityOf row.fileId ≠ some identity
  · rw [if_pos hidentity]
    exact .inl rfl
  · rw [if_neg hidentity, if_neg hidentity]
    exact .inr (.right (.of_mem (.head _) "fingerprints" (by simp [notingStatements])))

theorem noted_moveFile (db : Db) (fileId : ℕ) (oldPath newPath : String) :
    (moveFile db fileId oldPath newPath).2 = db ∨ Noted (moveFileStatements db fileId oldPath newPath) := by
  unfold moveFile moveFileStatements
  cases (db.files.byPath newPath).isSome with
  | true => exact .inl rfl
  | false => exact .inr (.of_mem (.head _) "files" (by simp [notingStatements]))

theorem noted_dropCache (gone : List FingerprintCheck) (n : ℕ) (db : Db) :
    (gone.foldl dropCache (n, db)).2 = db ∨ Noted (dropCacheStatements db gone) := by
  induction gone generalizing n with
  | nil => exact .inl rfl
  | cons check gone ih =>
    rw [List.foldl_cons, dropCacheStatements]
    cases hgone : db.unchanged check with
    | true => exact .inr (.left (.of_mem (.head _) "fingerprints" (by simp [notingStatements])))
    | false =>
      have hsame : ∀ n, dropCache (n, db) check = (n, db) := by
        intro n
        rw [dropCache, hgone, if_neg Bool.false_ne_true]
      rw [hsame, hsame]
      exact (ih n).imp_right .right

/-! ### Every transaction -/

/-- **A transaction that changes what is read notes it**, and one that promises to change nothing does not. -/
theorem noted_of_change {db db' : Db} {tx : Transaction} (h : tx.apply db = some db') :
    db'.readTables = db.readTables ∨ (tx.cachedReadsUnchanged = false ∧ Noted (tx.statements db)) := by
  cases tx with
  | touchFile f now => exact .inl (Option.some.inj h ▸ readTables_touchFile db f now)
  | storeFile f now => exact .inr ⟨rfl, noted_storeFile db f⟩
  | recordMember m now =>
    obtain rfl := Option.some.inj h
    exact (noted_recordMember db m now).imp (congrArg Db.readTables) fun hsql => ⟨rfl, hsql⟩
  | moveFile fileId oldPath newPath =>
    obtain rfl := Option.some.inj h
    exact (noted_moveFile db fileId oldPath newPath).imp (congrArg Db.readTables) fun hsql => ⟨rfl, hsql⟩
  | markMissing record now => exact .inr ⟨rfl, .of_mem (.head _) "files" (by simp [notingStatements])⟩
  | clearMissing fileId => exact .inr ⟨rfl, .of_mem (.head _) "files" (by simp [notingStatements])⟩
  | replaceEvidence fileId source candidates origin detail version alsoReplaces now =>
    exact .inr ⟨rfl, .right (noted_writeEvidence source candidates version alsoReplaces)⟩
  | replaceDetectorAnswer fileId answers version run now =>
    cases answers with
    | cons a answers =>
      have hmem : a ∈ sortBy (fun a => a.1.value) (a :: answers) := mem_sortBy.2 (.head _)
      obtain ⟨sql, hsql, hread⟩ := noted_writeEvidence a.1 a.2 (some version) []
      exact .inr ⟨rfl, .left (.left ⟨sql, List.mem_flatMap.2 ⟨a, hmem, hsql⟩, hread⟩)⟩
    | nil =>
      cases run with
      | some run => exact .inr ⟨rfl, .left (.right (.of_mem (.head _) "detector_runs" (by simp [notingStatements])))⟩
      | none =>
        rw [Transaction.apply, replaceDetectorAnswer, if_pos (.inl ⟨rfl, rfl⟩)] at h
        obtain rfl := Option.some.inj h
        refine .inl ?_
        simp [Db.readTables, Db.answers, sortBy]
  | restampEvidenceVersion fileId source origin version =>
    exact .inr ⟨rfl, .of_mem (.head _) "evidence_versions" (by simp [notingStatements])⟩
  | saveDecisions fileId decisions settingsFingerprint now =>
    rw [Transaction.apply, saveDecisions, Option.ite_none_right_eq_some] at h
    obtain rfl := Option.some.inj h.2
    exact (noted_saveDecisions fileId settingsFingerprint now decisions db).imp_right fun hsql => ⟨rfl, hsql⟩
  | lockMarker fileId marker now => exact .inr ⟨rfl, .of_mem (.head _) "markers" (by simp [notingStatements])⟩
  | saveUserMarkers fileId markers settingsFingerprint now =>
    cases hmarkers : byType markers with
    | nil =>
      rw [Transaction.apply, saveUserMarkers, hmarkers] at h
      obtain ⟨saved, hsaved, rfl⟩ := Option.map_eq_some_iff.1 h
      rw [Option.ite_none_right_eq_some] at hsaved
      exact .inl (by rw [← Option.some.inj hsaved.2]; rfl)
    | cons m rest =>
      refine .inr ⟨rfl, ?_⟩
      rw [Transaction.statements, hmarkers, List.flatMap_cons]
      exact .left (.of_mem (.head _) "markers" (by simp [notingStatements]))
  | unlockMarkers fileId types now =>
    obtain rfl | hsql := noted_unlock fileId now types ([], db)
    · exact .inl (by rw [← Option.some.inj h]; rfl)
    · exact .inr ⟨rfl, hsql⟩
  | setFingerprint row identity =>
    obtain rfl := Option.some.inj h
    exact (noted_setFingerprint db row identity).imp (congrArg Db.readTables) fun hsql => ⟨rfl, hsql⟩
  | setFrameRate fileId frameRate identity =>
    obtain rfl := Option.some.inj h
    exact (noted_setFrameRate db fileId frameRate identity).imp (congrArg Db.readTables) fun hsql => ⟨rfl, hsql⟩
  | setSeasonPair row identityA identityB =>
    obtain rfl := Option.some.inj h
    refine .inl ?_
    unfold setSeasonPair
    dsimp only
    split_ifs <;> rfl
  | setEndPicture row identityA identityB =>
    obtain rfl := Option.some.inj h
    refine .inl ?_
    unfold setEndPicture
    dsimp only
    split_ifs <;> rfl
  | finishFingerprintChecks checkedUpTo gone =>
    obtain rfl := Option.some.inj h
    refine (noted_dropCache gone 0 { db with metaRows := _ }).imp (fun hsame => ?_) fun hsql => ⟨rfl, .tail hsql⟩
    rw [finishFingerprintChecks, hsame]
    rfl
  | setDetectorRun row => exact .inr ⟨rfl, .of_mem (.head _) "detector_runs" (by simp [notingStatements])⟩
  | setDetectorFailure row => exact .inr ⟨rfl, .of_mem (.head _) "detector_failures" (by simp [notingStatements])⟩
  | recordIdentityFailure table row forgetBefore =>
    refine .inr ⟨rfl, .of_mem (.head _) table.name ?_⟩
    cases table <;> simp [notingStatements]
  | elsewhere statements after => exact .inl (by rw [← Option.some.inj h]; rfl)

end MediaPreview.Store
