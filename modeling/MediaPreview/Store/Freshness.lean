import MediaPreview.Store.Effects
import Mathlib.Logic.Function.Basic

/-!
# Cached season matches belong to the files as they are

A match is worked out from two files outside any transaction, and stored with the identities
they had. Meanwhile a file may be replaced, fingerprinted again, probed again or found gone; each
of these writes deletes the rows it makes stale.

To say so, a run is read together with a record of when each cached row was last stored and for
which identities (`Stamps`), which no operation reads. The invariant `Fresh` relates the
tables to it: what is cached was stored with the files' current identities, and after the
current intro fingerprint and the current frame rate of both files came to be stored.

A pair is matched from the files' intro fingerprints, or, for a file played at another speed than the
group's, from its audio retimed, which is fingerprinted as a window of its own (`intro@` and the factor).
Another fingerprint of a window a file has one of drops the file's pairs, whatever the window.

A frame rate that is read again and is the same is written again (`INSERT OR REPLACE`), and a
file's first fingerprint of a window is stored beside the others'; both leave the pairs, which were
matched at that rate and before there was one of that window. So a pair may be older than the row as last
written (`pair_predates_rewrite`).
-/

namespace MediaPreview.Store

open Binary64 Markers

/-! ### When rows were stored -/

/-- When a pair was stored, and for which identities. -/
structure PairStamp where
  /-- The operation's number. -/
  time : ℕ
  /-- The first file's identity. -/
  identityA : ℤ × ℤ
  /-- The second's. -/
  identityB : ℤ × ℤ
  deriving DecidableEq

/-- When a fingerprint was stored, and for which identity. -/
structure FileStamp where
  /-- Since when the file has had one of the window. -/
  first : ℕ
  /-- The operation's number. -/
  time : ℕ
  /-- The file's identity. -/
  identity : ℤ × ℤ
  deriving DecidableEq

/-- What each cached row was last stored with. -/
structure Stamps where
  /-- How many operations have run. -/
  now : ℕ
  /-- By pair key. -/
  pairs : ℕ × ℕ × ℤ → Option PairStamp
  /-- By end-picture key. -/
  pictures : EndPictureKey → Option PairStamp
  /-- By file and window. -/
  fingerprints : ℕ × String → Option FileStamp
  /-- When a file's frame rate was last written. -/
  rateWritten : ℕ → ℕ
  /-- Since when its row has been as it is. -/
  rateSince : ℕ → ℕ

namespace Stamps

/-- Nothing stored. -/
def empty : Stamps := ⟨0, fun _ => none, fun _ => none, fun _ => none, fun _ => 0, fun _ => 0⟩

/-- Another operation. -/
def tick (st : Stamps) : Stamps := { st with now := st.now + 1 }

/-- A frame rate row written. -/
def wroteRate (st : Stamps) (db : Db) (row : FrameRateRow) : Stamps :=
  { st.tick with
    rateWritten := Function.update st.rateWritten row.fileId (st.now + 1)
    rateSince :=
      if (db.frameRates.get? fun r => r.fileId = row.fileId) = some row then st.rateSince
      else Function.update st.rateSince row.fileId (st.now + 1) }

/-- A fingerprint stored. -/
def wroteFingerprint (st : Stamps) (db : Db) (row : FingerprintRow) (identity : ℤ × ℤ) : Stamps :=
  let first :=
    if db.hasFingerprint row.fileId row.window then (st.fingerprints row.key).elim (st.now + 1) FileStamp.first
    else st.now + 1
  { st.tick with fingerprints := Function.update st.fingerprints row.key (some ⟨first, st.now + 1, identity⟩) }

/-- A pair stored. -/
def wrotePair (st : Stamps) (row : PairRow) (identityA identityB : ℤ × ℤ) : Stamps :=
  { st.tick with pairs := Function.update st.pairs row.key (some ⟨st.now + 1, identityA, identityB⟩) }

/-- An end-picture share stored. -/
def wrotePicture (st : Stamps) (row : EndPictureRow) (identityA identityB : ℤ × ℤ) : Stamps :=
  { st.tick with pictures := Function.update st.pictures row.key (some ⟨st.now + 1, identityA, identityB⟩) }

/-- The record after an operation on `db`: what the operation says it stored. -/
def step (st : Stamps) (db : Db) : Op → Stamps
  | .recordMember m now =>
    match (recordMember db m now).1 with
    | some record => st.wroteRate db ⟨record.id, m.identity.size, m.identity.mtimeNs, m.frameRate⟩
    | none => st.tick
  | .setFrameRate fileId frameRate identity =>
    if (setFrameRate db fileId frameRate identity).1 then
      st.wroteRate db ⟨fileId, identity.1, identity.2, frameRate⟩
    else st.tick
  | .setFingerprint row identity =>
    if (setFingerprint db row identity).1 then st.wroteFingerprint db row identity else st.tick
  | .setSeasonPair row identityA identityB =>
    if (setSeasonPair db row identityA identityB).1 then st.wrotePair row identityA identityB else st.tick
  | .setEndPicture row identityA identityB =>
    if (setEndPicture db row identityA identityB).1 then st.wrotePicture row identityA identityB else st.tick
  | _ => st.tick

end Stamps

/-- A run from an empty store, with its record. -/
def track (ops : List Op) : Db × Stamps := ops.foldl (fun s op => (step s.1 op, s.2.step s.1 op)) (.empty, .empty)

/-- The record is beside the run: the database is the run's. -/
theorem track_fst (ops : List Op) : (track ops).1 = run .empty ops := by
  have hfold : ∀ s : Db × Stamps, (ops.foldl (fun s op => (step s.1 op, s.2.step s.1 op)) s).1 = run s.1 ops := by
    induction ops with
    | nil => exact fun s => rfl
    | cons op ops ih =>
      intro s
      rw [List.foldl_cons, ih]
      rfl
  exact hfold _

/-! ### The invariant -/

/-- A pair was stored after what it was matched from: the file's intro fingerprint, and its frame rate
where one is stored. -/
structure MatchedFrom (db : Db) (st : Stamps) (time fileId : ℕ) : Prop where
  /-- The intro fingerprint is there, and older. -/
  fingerprint : ∃ p ∈ db.fingerprints, p.key = (fileId, seasonPairWindow) ∧
    ∃ s, st.fingerprints p.key = some s ∧ s.time < time
  /-- Of every window it had a fingerprint of then, the same one is there. -/
  kept : ∀ p ∈ db.fingerprints, p.fileId = fileId → ∀ s, st.fingerprints p.key = some s → s.first < time → s.time < time
  /-- The frame rate has been stored since before. -/
  rate : ∀ r ∈ db.frameRates, r.fileId = fileId → st.rateSince fileId < time

/-- What the caches hold belongs to the files as they are. -/
structure Fresh (db : Db) (st : Stamps) : Prop where
  /-- Fingerprints were stored with their file's identity. -/
  fingerprint : ∀ r ∈ db.fingerprints, ∃ s, st.fingerprints r.key = some s ∧ s.time ≤ st.now ∧
    db.files.identity r.fileId = some s.identity
  /-- Pairs were stored with both files' identities, after what they were matched from. -/
  pair : ∀ r ∈ db.seasonPairRuns, ∃ s, st.pairs r.key = some s ∧ s.time ≤ st.now ∧
    db.files.identity r.fileA = some s.identityA ∧ db.files.identity r.fileB = some s.identityB ∧
    MatchedFrom db st s.time r.fileA ∧ MatchedFrom db st s.time r.fileB
  /-- End pictures were stored with both files' identities. -/
  picture : ∀ r ∈ db.seasonEndPictures, ∃ s, st.pictures r.key = some s ∧
    db.files.identity r.key.fileA = some s.identityA ∧ db.files.identity r.key.fileB = some s.identityB
  /-- Frame rates were stored before now. -/
  rate : ∀ fileId, st.rateSince fileId ≤ st.now

theorem fresh_empty : Fresh .empty .empty :=
  ⟨fun _ h => absurd h Table.notMem_empty, fun _ h => absurd h Table.notMem_empty,
    fun _ h => absurd h Table.notMem_empty, fun _ => le_rfl⟩

/-- The same caches over files that kept their identities. -/
structure SameCaches (db db' : Db) : Prop where
  /-- Every file keeps its identity. -/
  files : db.files.Keeps db'.files
  /-- The same fingerprints. -/
  fingerprints : db'.fingerprints = db.fingerprints
  /-- The same frame rates. -/
  frameRates : db'.frameRates = db.frameRates
  /-- The same pairs. -/
  pairs : db'.seasonPairRuns = db.seasonPairRuns
  /-- The same end pictures. -/
  pictures : db'.seasonEndPictures = db.seasonEndPictures

theorem SameCaches.refl (db : Db) : SameCaches db db := ⟨.refl _, rfl, rfl, rfl, rfl⟩

theorem SameCaches.trans {db db' db'' : Db} (h : SameCaches db db') (h' : SameCaches db' db'') :
    SameCaches db db'' :=
  ⟨h.files.trans h'.files, h'.fingerprints.trans h.fingerprints, h'.frameRates.trans h.frameRates,
    h'.pairs.trans h.pairs, h'.pictures.trans h.pictures⟩

/-- A loop whose passes leave the caches leaves them. -/
theorem SameCaches.foldl {α β : Type*} (toDb : β → Db) {f : β → α → β}
    (hf : ∀ b a, SameCaches (toDb b) (toDb (f b a))) (xs : List α) (b : β) :
    SameCaches (toDb b) (toDb (xs.foldl f b)) := by
  induction xs generalizing b with
  | nil => exact .refl _
  | cons x xs ih => exact (hf b x).trans (ih (f b x))

theorem SameCaches.identity {db db' : Db} (h : SameCaches db db') {id : ℕ} {i : ℤ × ℤ}
    (hi : db.files.identity id = some i) : db'.files.identity id = some i := by
  rw [h.files id (by rw [hi]; rfl), hi]

theorem MatchedFrom.of_same {db db' : Db} {st : Stamps} {time fileId : ℕ} (hm : MatchedFrom db st time fileId)
    (hfingerprints : db'.fingerprints = db.fingerprints) (hrates : db'.frameRates = db.frameRates) :
    MatchedFrom db' st time fileId := by
  refine ⟨?_, ?_, ?_⟩
  · rw [hfingerprints]
    exact hm.fingerprint
  · rw [hfingerprints]
    exact hm.kept
  · rw [hrates]
    exact hm.rate

theorem Fresh.of_same {db db' : Db} {st : Stamps} (h : Fresh db st) (hsame : SameCaches db db') : Fresh db' st := by
  refine ⟨fun r hr => ?_, fun r hr => ?_, fun r hr => ?_, h.rate⟩
  · rw [hsame.fingerprints] at hr
    obtain ⟨s, hs, hle, hid⟩ := h.fingerprint r hr
    exact ⟨s, hs, hle, hsame.identity hid⟩
  · rw [hsame.pairs] at hr
    obtain ⟨s, hs, hle, hA, hB, hmA, hmB⟩ := h.pair r hr
    exact ⟨s, hs, hle, hsame.identity hA, hsame.identity hB, hmA.of_same hsame.fingerprints hsame.frameRates,
      hmB.of_same hsame.fingerprints hsame.frameRates⟩
  · rw [hsame.pictures] at hr
    obtain ⟨s, hs, hA, hB⟩ := h.picture r hr
    exact ⟨s, hs, hsame.identity hA, hsame.identity hB⟩

theorem MatchedFrom.tick {db : Db} {st : Stamps} {time fileId : ℕ} (hm : MatchedFrom db st time fileId) :
    MatchedFrom db st.tick time fileId :=
  ⟨hm.fingerprint, hm.kept, hm.rate⟩

theorem Fresh.tick {db : Db} {st : Stamps} (h : Fresh db st) : Fresh db st.tick := by
  refine ⟨fun r hr => ?_, fun r hr => ?_, h.picture, fun fileId => Nat.le_succ_of_le (h.rate fileId)⟩
  · obtain ⟨s, hs, hle, hid⟩ := h.fingerprint r hr
    exact ⟨s, hs, Nat.le_succ_of_le hle, hid⟩
  · obtain ⟨s, hs, hle, hA, hB, hmA, hmB⟩ := h.pair r hr
    exact ⟨s, hs, Nat.le_succ_of_le hle, hA, hB, hmA.tick, hmB.tick⟩

/-! ### Deleting what a file's change makes stale -/

theorem mem_pairsWithout {db : Db} {fileId : ℕ} {r : PairRow} :
    r ∈ db.pairsWithout fileId ↔ r ∈ db.seasonPairRuns ∧ r.fileA ≠ fileId ∧ r.fileB ≠ fileId := by
  simp [Db.pairsWithout]

theorem mem_picturesWithout {db : Db} {fileId : ℕ} {r : EndPictureRow} :
    r ∈ db.picturesWithout fileId ↔ r ∈ db.seasonEndPictures ∧ r.key.fileA ≠ fileId ∧ r.key.fileB ≠ fileId := by
  simp [Db.picturesWithout]

/-- A file's fingerprints dropped: the other files' pairs were matched from theirs. -/
theorem MatchedFrom.of_other {db db' : Db} {st : Stamps} {time fileId gone : ℕ} (hm : MatchedFrom db st time fileId)
    (hne : fileId ≠ gone) (hfingerprints : db'.fingerprints = db.fingerprints.delete fun r => r.fileId = gone)
    (hrates : ∀ r ∈ db'.frameRates, r ∈ db.frameRates) : MatchedFrom db' st time fileId := by
  obtain ⟨p, hp, hkey, hs⟩ := hm.fingerprint
  refine ⟨⟨p, ?_, hkey, hs⟩, fun p hp => hm.kept p ?_, fun r hr => hm.rate r (hrates r hr)⟩
  rotate_left
  · rw [hfingerprints, Table.mem_delete] at hp
    exact hp.1
  have hfile : p.fileId = fileId := congrArg Prod.fst hkey
  rw [hfingerprints, Table.mem_delete]
  exact ⟨hp, by simpa [hfile] using hne⟩

/-- **A changed identity** leaves only rows of other files. -/
theorem Fresh.forgetFile {db : Db} {st : Stamps} (h : Fresh db st) (row : FileRow) {files : FileTable}
    (hfiles : ∀ id, id ≠ row.id → files.identity id = db.files.identity id) : Fresh (forgetFile db row files) st := by
  refine ⟨fun r hr => ?_, fun r hr => ?_, fun r hr => ?_, h.rate⟩
  · obtain ⟨hr, hne⟩ := Table.mem_delete.mp hr
    obtain ⟨s, hs, hle, hid⟩ := h.fingerprint r hr
    exact ⟨s, hs, hle, (hfiles r.fileId (by simpa using hne)).trans hid⟩
  · obtain ⟨hr, hneA, hneB⟩ := mem_pairsWithout.mp hr
    obtain ⟨s, hs, hle, hA, hB, hmA, hmB⟩ := h.pair r hr
    refine ⟨s, hs, hle, (hfiles _ hneA).trans hA, (hfiles _ hneB).trans hB, ?_, ?_⟩
    · exact hmA.of_other hneA rfl fun r hr => (Table.mem_delete.mp hr).1
    · exact hmB.of_other hneB rfl fun r hr => (Table.mem_delete.mp hr).1
  · obtain ⟨hr, hneA, hneB⟩ := mem_picturesWithout.mp hr
    obtain ⟨s, hs, hA, hB⟩ := h.picture r hr
    exact ⟨s, hs, (hfiles _ hneA).trans hA, (hfiles _ hneB).trans hB⟩

/-- A file found gone loses its caches. -/
theorem Fresh.dropCache {acc : ℕ × Db} {st : Stamps} (h : Fresh acc.2 st) (check : FingerprintCheck) :
    Fresh (dropCache acc check).2 st := by
  rw [Store.dropCache]
  split_ifs
  · refine ⟨fun r hr => ?_, fun r hr => ?_, fun r hr => ?_, h.rate⟩
    · exact h.fingerprint r (Table.mem_delete.mp hr).1
    · obtain ⟨hr, hneA, hneB⟩ := mem_pairsWithout.mp hr
      obtain ⟨s, hs, hle, hA, hB, hmA, hmB⟩ := h.pair r hr
      exact ⟨s, hs, hle, hA, hB, hmA.of_other hneA rfl fun _ hr => hr, hmB.of_other hneB rfl fun _ hr => hr⟩
    · exact h.picture r (mem_picturesWithout.mp hr).1
  · exact h

theorem Fresh.finishFingerprintChecks {db : Db} {st : Stamps} (h : Fresh db st) (checkedUpTo : ℕ)
    (gone : List FingerprintCheck) : Fresh (finishFingerprintChecks db checkedUpTo gone).2 st := by
  have hfold : ∀ acc : ℕ × Db, Fresh acc.2 st → Fresh (gone.foldl Store.dropCache acc).2 st := by
    induction gone with
    | nil => exact fun _ h => h
    | cons check gone ih => exact fun acc h => ih _ (h.dropCache check)
  exact hfold _ (h.of_same ⟨.refl _, rfl, rfl, rfl, rfl⟩)

/-! ### Storing -/

/-- The rate a file has is written again: nothing it is matched from has changed. -/
theorem MatchedFrom.wroteRate_same {db : Db} {st : Stamps} {row : FrameRateRow} {time fileId : ℕ}
    (hsame : (db.frameRates.get? fun r => r.fileId = row.fileId) = some row) (hm : MatchedFrom db st time fileId) :
    MatchedFrom (writeFrameRate db row) (st.wroteRate db row) time fileId := by
  refine ⟨hm.fingerprint, hm.kept, fun r hr hfile => ?_⟩
  simp only [Stamps.wroteRate, if_pos hsame]
  rcases Table.mem_put.mp hr with rfl | ⟨hr, -⟩
  · exact hm.rate r (Table.of_get? hsame).1 hfile
  · exact hm.rate r hr hfile

/-- Another file's rate is written. -/
theorem MatchedFrom.wroteRate_of_ne {db : Db} {st : Stamps} {row : FrameRateRow} {time fileId : ℕ}
    (hne : fileId ≠ row.fileId) (hm : MatchedFrom db st time fileId) :
    MatchedFrom (writeFrameRate db row) (st.wroteRate db row) time fileId := by
  refine ⟨hm.fingerprint, hm.kept, fun r hr hfile => ?_⟩
  have hsince : (st.wroteRate db row).rateSince fileId = st.rateSince fileId := by
    simp only [Stamps.wroteRate]
    split_ifs
    · rfl
    · exact Function.update_of_ne hne _ _
  rw [hsince]
  rcases Table.mem_put.mp hr with rfl | ⟨hr, -⟩
  · exact absurd hfile.symm hne
  · exact hm.rate r hr hfile

theorem Fresh.rateSince_wroteRate_le {db : Db} {st : Stamps} (h : Fresh db st) (row : FrameRateRow) (fileId : ℕ) :
    (st.wroteRate db row).rateSince fileId ≤ st.now + 1 := by
  simp only [Stamps.wroteRate]
  split_ifs
  · exact Nat.le_succ_of_le (h.rate fileId)
  · by_cases hfile : fileId = row.fileId
    · rw [hfile, Function.update_self]
    · rw [Function.update_of_ne hfile]
      exact Nat.le_succ_of_le (h.rate fileId)

/-- **A frame rate**: another one than the file's drops its pairs, the same one leaves them. -/
theorem Fresh.writeFrameRate {db : Db} {st : Stamps} (h : Fresh db st) (row : FrameRateRow) :
    Fresh (writeFrameRate db row) (st.wroteRate db row) := by
  refine ⟨h.tick.fingerprint, fun r hr => ?_, h.picture, h.rateSince_wroteRate_le row⟩
  by_cases hsame : (db.frameRates.get? fun r => r.fileId = row.fileId) = some row
  · simp only [Store.writeFrameRate, if_pos hsame] at hr
    obtain ⟨s, hs, hle, hA, hB, hmA, hmB⟩ := h.pair r hr
    exact ⟨s, hs, Nat.le_succ_of_le hle, hA, hB, hmA.wroteRate_same hsame, hmB.wroteRate_same hsame⟩
  · simp only [Store.writeFrameRate, if_neg hsame, mem_pairsWithout] at hr
    obtain ⟨hr, hneA, hneB⟩ := hr
    obtain ⟨s, hs, hle, hA, hB, hmA, hmB⟩ := h.pair r hr
    exact ⟨s, hs, Nat.le_succ_of_le hle, hA, hB, hmA.wroteRate_of_ne hneA, hmB.wroteRate_of_ne hneB⟩

/-- A fingerprint stored of another file, or as the file's first of its window: what the file's pair was matched from
is still there. -/
theorem MatchedFrom.wroteFingerprint {db : Db} {st : Stamps} {row : FingerprintRow} {time fileId : ℕ}
    (hm : MatchedFrom db st time fileId) (htime : time ≤ st.now)
    (hfirst : fileId = row.fileId → db.hasFingerprint row.fileId row.window = false) (identity : ℤ × ℤ)
    (pairs : Table PairRow PairRow.key) :
    MatchedFrom { db with seasonPairRuns := pairs, fingerprints := db.fingerprints.put row }
      (st.wroteFingerprint db row identity) time fileId := by
  refine ⟨?_, fun p hp hfile s hs hbefore => ?_, hm.rate⟩
  · obtain ⟨p, hp, hkey, s, hs, hlt⟩ := hm.fingerprint
    have hne : p.key ≠ row.key := by
      intro hsame
      have hhas : db.hasFingerprint row.fileId row.window = true := hasFingerprint_iff.mpr ⟨p, hp, hsame⟩
      rw [hfirst ((congrArg Prod.fst hkey).symm.trans (congrArg Prod.fst hsame))] at hhas
      exact Bool.noConfusion hhas
    exact ⟨p, (Table.mem_put_of_ne hne).mpr hp, hkey, s, (Function.update_of_ne hne _ _).trans hs, hlt⟩
  · rcases Table.mem_put.mp hp with rfl | ⟨hp, hne⟩
    · -- the first of its window came after the pair
      simp only [Stamps.wroteFingerprint, Function.update_self, hfirst hfile.symm, Bool.false_eq_true, if_false,
        Option.some.injEq] at hs
      rw [← hs] at hbefore
      exact absurd hbefore (Nat.not_lt.mpr (Nat.le_succ_of_le htime))
    · refine hm.kept p hp hfile s ?_ hbefore
      rw [← hs]
      exact (Function.update_of_ne hne _ _).symm

/-- **A fingerprint**: the file's first of its window leaves its pairs, another drops them. -/
theorem Fresh.setFingerprint {db : Db} {st : Stamps} (h : Fresh db st) (row : FingerprintRow) (identity : ℤ × ℤ) :
    Fresh (setFingerprint db row identity).2 (st.step db (.setFingerprint row identity)) := by
  rcases setFingerprint_cases db row identity with ⟨hset, heq⟩ | ⟨hset, hidentity, heq⟩
  · rw [heq, Stamps.step, hset]
    exact h.tick
  rw [heq, Stamps.step, if_pos hset]
  refine ⟨fun r hr => ?_, fun r hr => ?_, h.picture, h.tick.rate⟩
  · rcases Table.mem_put.mp hr with rfl | ⟨hr, hne⟩
    · exact ⟨_, Function.update_self _ _ _, le_rfl, hidentity⟩
    · obtain ⟨s, hs, hle, hid⟩ := h.tick.fingerprint r hr
      exact ⟨s, (Function.update_of_ne hne _ _).trans hs, hle, hid⟩
  · simp only at hr
    split_ifs at hr with hhas
    · obtain ⟨hr, hneA, hneB⟩ := mem_pairsWithout.mp hr
      obtain ⟨s, hs, hle, hA, hB, hmA, hmB⟩ := h.pair r hr
      exact ⟨s, hs, Nat.le_succ_of_le hle, hA, hB,
        hmA.wroteFingerprint hle (fun hfile => absurd hfile hneA) identity _,
        hmB.wroteFingerprint hle (fun hfile => absurd hfile hneB) identity _⟩
    · obtain ⟨s, hs, hle, hA, hB, hmA, hmB⟩ := h.pair r hr
      rw [Bool.not_eq_true] at hhas
      exact ⟨s, hs, Nat.le_succ_of_le hle, hA, hB, hmA.wroteFingerprint hle (fun _ => hhas) identity _,
        hmB.wroteFingerprint hle (fun _ => hhas) identity _⟩

/-- A file's intro fingerprint and frame rate have been stored by now. -/
theorem Fresh.matchedFrom {db : Db} {st : Stamps} (h : Fresh db st) {fileId : ℕ}
    (hhas : db.hasFingerprint fileId seasonPairWindow = true) : MatchedFrom db st (st.now + 1) fileId := by
  obtain ⟨p, hp, hkey⟩ := hasFingerprint_iff.mp hhas
  obtain ⟨s, hs, hle, -⟩ := h.fingerprint p hp
  refine ⟨⟨p, hp, hkey, s, hs, Nat.lt_succ_of_le hle⟩, fun q hq _ s hs _ => ?_, fun _ _ _ => Nat.lt_succ_of_le (h.rate fileId)⟩
  obtain ⟨s', hs', hle, -⟩ := h.fingerprint q hq
  obtain rfl := Option.some.inj (hs'.symm.trans hs)
  exact Nat.lt_succ_of_le hle

/-- **A pair** is stored with both files' identities, and matched from what is stored of them. -/
theorem Fresh.setSeasonPair {db : Db} {st : Stamps} (h : Fresh db st) (row : PairRow) (identityA identityB : ℤ × ℤ) :
    Fresh (setSeasonPair db row identityA identityB).2 (st.step db (.setSeasonPair row identityA identityB)) := by
  rcases setSeasonPair_cases db row identityA identityB with
    ⟨hset, heq⟩ | ⟨hset, hA, hB, hhasA, hhasB, pairs, hsub, heq⟩
  · rw [heq, Stamps.step, hset]
    exact h.tick
  rw [heq, Stamps.step, if_pos hset]
  have htick := h.tick
  refine ⟨htick.fingerprint, fun r hr => ?_, h.picture, htick.rate⟩
  rcases Table.mem_put.mp hr with rfl | ⟨hr, hne⟩
  · have hmA := h.matchedFrom hhasA
    have hmB := h.matchedFrom hhasB
    exact ⟨_, Function.update_self _ _ _, le_rfl, hA, hB, ⟨hmA.fingerprint, hmA.kept, hmA.rate⟩,
      ⟨hmB.fingerprint, hmB.kept, hmB.rate⟩⟩
  · obtain ⟨s, hs, hle, hA', hB', hmA, hmB⟩ := htick.pair r (hsub r hr)
    exact ⟨s, (Function.update_of_ne hne _ _).trans hs, hle, hA', hB', ⟨hmA.fingerprint, hmA.kept, hmA.rate⟩,
      ⟨hmB.fingerprint, hmB.kept, hmB.rate⟩⟩

theorem Fresh.setEndPicture {db : Db} {st : Stamps} (h : Fresh db st) (row : EndPictureRow)
    (identityA identityB : ℤ × ℤ) :
    Fresh (setEndPicture db row identityA identityB).2 (st.step db (.setEndPicture row identityA identityB)) := by
  rcases setEndPicture_cases db row identityA identityB with ⟨hset, heq⟩ | ⟨hset, hA, hB, heq⟩
  · rw [heq, Stamps.step, hset]
    exact h.tick
  rw [heq, Stamps.step, if_pos hset]
  have htick := h.tick
  refine ⟨htick.fingerprint, fun r hr => ?_, fun r hr => ?_, htick.rate⟩
  · obtain ⟨s, hs, hle, hA', hB', hmA, hmB⟩ := htick.pair r hr
    exact ⟨s, hs, hle, hA', hB', ⟨hmA.fingerprint, hmA.kept, hmA.rate⟩, ⟨hmB.fingerprint, hmB.kept, hmB.rate⟩⟩
  · rcases Table.mem_put.mp hr with rfl | ⟨hr, hne⟩
    · exact ⟨_, Function.update_self _ _ _, hA, hB⟩
    · obtain ⟨s, hs, hA', hB'⟩ := h.picture r hr
      exact ⟨s, (Function.update_of_ne hne _ _).trans hs, hA', hB'⟩

/-! ### Evidence, decisions and markers are in no cache -/

theorem sameCaches_replaceEvidence (db : Db) (fileId : ℕ) (source : Source) (candidates : List Candidate)
    (origin detail : String) (version : Option ℤ) (alsoReplaces : List Source) (now : String) :
    SameCaches db ((replaceEvidence db fileId source candidates origin detail version alsoReplaces now).getD db) := by
  rw [replaceEvidence]
  split_ifs <;> exact ⟨.refl _, rfl, rfl, rfl, rfl⟩

theorem sameCaches_replaceDetectorAnswer (db : Db) (fileId : ℕ) (answers : List (Source × List Candidate))
    (version : ℤ) (run : Option (Source × String)) (now : String) :
    SameCaches db ((replaceDetectorAnswer db fileId answers version run now).getD db) := by
  simp only [replaceDetectorAnswer]
  split_ifs <;> exact ⟨.refl _, rfl, rfl, rfl, rfl⟩

theorem sameCaches_saveDecisions (db : Db) (fileId : ℕ) (decisions : List (MarkerType × TypeDecision))
    (settingsFingerprint now : String) :
    SameCaches db ((saveDecisions db fileId decisions settingsFingerprint now).getD db) := by
  rw [saveDecisions]
  split_ifs
  · refine SameCaches.foldl id (fun db e => ?_) decisions db
    simp only [id, saveDecision]
    split_ifs
    · exact ⟨.refl _, rfl, rfl, rfl, rfl⟩
    · split <;> exact ⟨.refl _, rfl, rfl, rfl, rfl⟩
  · exact .refl db

theorem sameCaches_lockMarker (db : Db) (fileId : ℕ) (marker : Marker) (now : String) :
    SameCaches db ((lockMarker db fileId marker now).getD db) := by
  rw [lockMarker]
  split_ifs <;> exact ⟨.refl _, rfl, rfl, rfl, rfl⟩

theorem sameCaches_saveUserMarkers (db : Db) (fileId : ℕ) (markers : List Marker) (settingsFingerprint now : String) :
    SameCaches db (((saveUserMarkers db fileId markers settingsFingerprint now).map Prod.snd).getD db) := by
  rw [saveUserMarkers]
  split_ifs
  · refine SameCaches.foldl id (f := saveUserMarker fileId settingsFingerprint now) (fun db m => ?_) _ db
    exact ⟨.refl _, rfl, rfl, rfl, rfl⟩
  · exact .refl db

theorem sameCaches_unlockMarkers (db : Db) (fileId : ℕ) (types : List MarkerType) (now : String) :
    SameCaches db (unlockMarkers db fileId types now).2 := by
  refine SameCaches.foldl Prod.snd (fun acc type => ?_) types ([], db)
  rw [unlockType]
  split_ifs <;> exact ⟨.refl _, rfl, rfl, rfl, rfl⟩

/-! ### Every operation -/

theorem Fresh.upserted {db db' : Db} {st : Stamps} (h : Fresh db st) (hdb : Upserted db db') : Fresh db' st := by
  rcases hdb with ⟨files, hkeeps, rfl⟩ | ⟨row, files, hfiles, rfl⟩
  · exact h.of_same ⟨hkeeps, rfl, rfl, rfl, rfl⟩
  · exact h.forgetFile row hfiles

theorem Fresh.recordMember {db : Db} {st : Stamps} (h : Fresh db st) (m : MemberFacts) (now : String) :
    Fresh (recordMember db m now).2 (st.step db (.recordMember m now)) := by
  rcases recordMember_cases db m now with ⟨hnone, heq⟩ | ⟨record, files, hsome, hkeeps, heq⟩
  · rw [heq, Stamps.step, hnone]
    exact h.tick
  · rw [heq, Stamps.step, hsome]
    let chapters := writeEvidence db.answers record.id .chapters m.chapters "" "" (some m.chapterVersion) [] now
    let answered := { db with files := files, evidence := chapters.evidence, evidenceVersions := chapters.versions }
    have hsame : SameCaches db answered := ⟨hkeeps, rfl, rfl, rfl, rfl⟩
    exact (h.of_same hsame).writeFrameRate ⟨record.id, m.identity.size, m.identity.mtimeNs, m.frameRate⟩

/-- **One operation** keeps what is cached fresh. -/
theorem fresh_step {db : Db} {st : Stamps} (h : Fresh db st) (op : Op) : Fresh (step db op) (st.step db op) := by
  cases op with
  | upsertFile f now => exact (h.upserted (upserted_upsertFile db f now)).tick
  | storeFile f now => exact (h.upserted (upserted_storeFile db f now)).tick
  | recordMember m now => exact h.recordMember m now
  | moveFile fileId oldPath newPath =>
    rcases moveFile_cases db fileId oldPath newPath with heq | ⟨files, failures, hkeeps, heq⟩
    · rw [step, heq]
      exact h.tick
    · rw [step, heq]
      have hsame : SameCaches db { db with files := files, failures := failures } := ⟨hkeeps, rfl, rfl, rfl, rfl⟩
      exact (h.of_same hsame).tick
  | markMissing record now =>
    obtain ⟨files, hkeeps, heq⟩ := markMissing_cases db record now
    rw [step, heq]
    have hsame : SameCaches db { db with files := files } := ⟨hkeeps, rfl, rfl, rfl, rfl⟩
    exact (h.of_same hsame).tick
  | clearMissing fileId =>
    obtain ⟨files, hkeeps, heq⟩ := clearMissing_cases db fileId
    rw [step, heq]
    have hsame : SameCaches db { db with files := files } := ⟨hkeeps, rfl, rfl, rfl, rfl⟩
    exact (h.of_same hsame).tick
  | replaceEvidence fileId source candidates origin detail version alsoReplaces now =>
    exact (h.of_same (sameCaches_replaceEvidence ..)).tick
  | replaceDetectorAnswer fileId answers version run now =>
    exact (h.of_same (sameCaches_replaceDetectorAnswer ..)).tick
  | saveDecisions fileId decisions settingsFingerprint now => exact (h.of_same (sameCaches_saveDecisions ..)).tick
  | lockMarker fileId marker now => exact (h.of_same (sameCaches_lockMarker ..)).tick
  | saveUserMarkers fileId markers settingsFingerprint now => exact (h.of_same (sameCaches_saveUserMarkers ..)).tick
  | unlockMarkers fileId types now => exact (h.of_same (sameCaches_unlockMarkers ..)).tick
  | setFingerprint row identity => exact h.setFingerprint row identity
  | setFrameRate fileId frameRate identity =>
    rw [step, Stamps.step]
    by_cases hid : db.identityOf fileId ≠ some identity
    · simp only [setFrameRate, if_pos hid]
      exact h.tick
    · simp only [setFrameRate, if_neg hid]
      exact h.writeFrameRate ⟨fileId, identity.1, identity.2, frameRate⟩
  | setSeasonPair row identityA identityB => exact h.setSeasonPair row identityA identityB
  | setEndPicture row identityA identityB => exact h.setEndPicture row identityA identityB
  | finishFingerprintChecks checkedUpTo gone => exact (h.finishFingerprintChecks checkedUpTo gone).tick

/-! ### Every run -/

/-- No pair is older than a frame rate row of its files as last written. -/
def PairsAfterRates (s : Db × Stamps) : Prop :=
  ∀ r ∈ s.1.seasonPairRuns, ∀ p, s.2.pairs r.key = some p → ∀ f ∈ s.1.frameRates, f.fileId = r.fileA ∨ f.fileId = r.fileB →
    s.2.rateWritten f.fileId < p.time

/-- No pair is older than a fingerprint of its files, of whatever window. -/
def PairsAfterFingerprints (s : Db × Stamps) : Prop :=
  ∀ r ∈ s.1.seasonPairRuns, ∀ p, s.2.pairs r.key = some p → ∀ f ∈ s.1.fingerprints, f.fileId = r.fileA ∨ f.fileId = r.fileB →
    ∀ q, s.2.fingerprints f.key = some q → q.time < p.time

/-- Two episodes, stored, fingerprinted and matched, the first with a frame rate. -/
def matchedSeason : List Op :=
  [.upsertFile ⟨⟨"/a.mkv", 1, 1⟩, none, none, false⟩ "", .upsertFile ⟨⟨"/b.mkv", 1, 1⟩, none, none, false⟩ "",
    .setFingerprint ⟨1, seasonPairWindow, 0, 600, 1, []⟩ (1, 1),
    .setFingerprint ⟨2, seasonPairWindow, 0, 600, 1, []⟩ (1, 1),
    .setFrameRate 1 (some 25) (1, 1), .setSeasonPair ⟨1, 2, 1000, []⟩ (1, 1) (1, 1)]

/-- A rate that is read again leaves the pair matched at it, and a fingerprint of the credits the pair
matched from the intro's: either may be written after the pair. -/
theorem pair_predates_rewrite :
    ¬ (∀ ops, PairsAfterRates (track ops)) ∧ ¬ ∀ ops, PairsAfterFingerprints (track ops) := by
  constructor
  · intro h
    have hrate := h (matchedSeason ++ [.setFrameRate 1 (some 25) (1, 1)])
    have hlt := hrate ⟨1, 2, 1000, []⟩ (by decide) ⟨6, (1, 1), (1, 1)⟩ (by decide) ⟨1, 1, 1, some 25⟩
      (by decide) (.inl rfl)
    revert hlt
    decide
  · intro h
    have hfingerprint := h (matchedSeason ++ [.setFingerprint ⟨1, "credits", 1200, 600, 1, []⟩ (1, 1)])
    have hlt := hfingerprint ⟨1, 2, 1000, []⟩ (by decide) ⟨6, (1, 1), (1, 1)⟩ (by decide)
      ⟨1, "credits", 1200, 600, 1, []⟩ (by decide) (.inl rfl) ⟨7, 7, (1, 1)⟩ (by decide)
    revert hlt
    decide

/-- **Cached season matches belong to the files as they are**: after any run, the rows of the caches were
stored with their files' current identities, and a pair after the intro fingerprints that both files
have, after those of every other window they had one of when it was stored, and after their frame rates came to be
what they are. -/
theorem seasonCaches_fresh (ops : List Op) : Fresh (run .empty ops) (track ops).2 := by
  have hfold : ∀ s : Db × Stamps, Fresh s.1 s.2 →
      Fresh (ops.foldl (fun s op => (step s.1 op, s.2.step s.1 op)) s).1
        (ops.foldl (fun s op => (step s.1 op, s.2.step s.1 op)) s).2 := by
    induction ops with
    | nil => exact fun s h => h
    | cons op ops ih => exact fun s h => ih _ (fresh_step h op)
  rw [← track_fst]
  exact hfold _ fresh_empty

end MediaPreview.Store
