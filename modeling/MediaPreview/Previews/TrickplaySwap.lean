import MediaPreview.Previews.Trickplay

/-!
# The swap of trickplay sheets

A publish in which no rename fails keeps the old sheets in the folder or aside until the new ones are in place, whatever
step it raises at or dies at (`swaps`). One that returns leaves the new sheets; where it wrote in place, an old sheet that
could not be removed and has no new one of its number stays. One that raises leaves the old sheets where no rename
failed, and where they were put back and the fallback came to nothing (`publish_spec`).
-/

namespace MediaPreview.Trickplay

open Stages

variable {φ τ : Type} {render : List φ → τ} {faults : Faults τ} {frames : List φ} {f : Folders τ}

/-! ### Sheets -/

theorem lookup_unlink (k j : ℕ) (d : Sheets τ) : (unlink k d).lookup j = if j = k then none else d.lookup j := by
  induction d with
  | nil => simp [unlink]
  | cons file d ih =>
    obtain ⟨i, t⟩ := file
    unfold unlink at ih ⊢
    by_cases hik : i = k
    · rw [List.filter_cons_of_neg (by simpa using hik), ih, List.lookup_cons]
      split_ifs with hj
      · rfl
      · have hji : (j == i) = false := beq_eq_false_iff_ne.2 (hik ▸ hj)
        rw [hji]
    · rw [List.filter_cons_of_pos (by simpa using hik), List.lookup_cons, List.lookup_cons, ih]
      cases hji : j == i with
      | false => rfl
      | true =>
        have hjk : j ≠ k := (beq_iff_eq.1 hji).trans_ne hik
        simp only [if_neg hjk]

theorem lookup_write (k j : ℕ) (t : τ) (d : Sheets τ) : (write k t d).lookup j = if j = k then some t else d.lookup j := by
  have hunlink := lookup_unlink k j d
  unfold unlink at hunlink
  rw [write, List.lookup_cons, hunlink]
  cases hjk : j == k with
  | true => simp only [if_pos (beq_iff_eq.1 hjk)]
  | false =>
    have hne := beq_eq_false_iff_ne.1 hjk
    simp only [if_neg hne]

/-- **Packing that is done has written every sheet** and nothing else. -/
theorem lookup_packSheets {fails : ℕ → Option (Option τ)} {tile : ℕ → τ} {count k : ℕ} {d : Sheets τ}
    (h : (packSheets fails tile count k d).done = true) (j : ℕ) :
    (packSheets fails tile count k d).last.lookup j =
      if k ≤ j ∧ j < k + count then some (tile j) else d.lookup j := by
  induction count generalizing k d with
  | zero =>
    rw [if_neg (by omega)]
    rfl
  | succ count ih =>
    unfold packSheets at h ⊢
    cases hfails : fails k with
    | some broken =>
      rw [hfails] at h
      cases broken <;> cases h
    | none =>
      rw [hfails] at h
      show (packSheets fails tile count (k + 1) (write k (tile k) d)).last.lookup j = _
      rw [ih h, lookup_write]
      by_cases hj : j = k
      · rw [if_neg (by omega), if_pos hj, if_pos (by omega), hj]
      · rw [if_neg hj]
        exact if_congr (by omega) rfl rfl

/-- Removing stale sheets leaves those that cannot be removed. -/
theorem unlinkStale_spec (fails : ℕ → Bool) (numbers : List ℕ) (d : Sheets τ) :
    (unlinkStale fails numbers d).done = true ∧ ∀ j, (unlinkStale fails numbers d).last.lookup j =
      if j ∈ numbers ∧ fails j = false then none else d.lookup j := by
  induction numbers generalizing d with
  | nil => exact ⟨rfl, fun j => by simp [unlinkStale, skip]⟩
  | cons k numbers ih =>
    unfold unlinkStale
    cases hk : fails k with
    | true =>
      obtain ⟨hdone, hlookup⟩ := ih d
      refine ⟨hdone, fun j => ?_⟩
      rw [if_pos rfl, hlookup]
      refine if_congr ?_ rfl rfl
      rw [List.mem_cons]
      constructor
      · exact fun h => ⟨.inr h.1, h.2⟩
      · rintro ⟨rfl | hmem, hfalse⟩
        · rw [hk] at hfalse
          cases hfalse
        · exact ⟨hmem, hfalse⟩
    | false =>
      obtain ⟨hdone, hlookup⟩ := ih (unlink k d)
      refine ⟨hdone, fun j => ?_⟩
      rw [if_neg Bool.false_ne_true]
      show (unlinkStale fails numbers (unlink k d)).last.lookup j = _
      rw [hlookup, lookup_unlink]
      by_cases hj : j = k
      · simp [hj, hk]
      · simp [hj]

/-! ### Staging -/

/-- The folder holds the new set, and nothing else. -/
def HoldsNew (render : List φ → τ) (frames : List φ) (d : Option (Sheets τ)) : Prop :=
  ∃ sheets, d = some sheets ∧ ∀ k, sheets.lookup k = newTile render frames k

theorem packSheets_new {fails : ℕ → Option (Option τ)}
    (h : (packSheets fails (sheet render frames) (sheetCount frames) 0 []).done = true) :
    HoldsNew render frames (some (packSheets fails (sheet render frames) (sheetCount frames) 0 []).last) := by
  refine ⟨_, rfl, fun k => ?_⟩
  rw [lookup_packSheets h, newTile, List.lookup_nil]
  exact if_congr (by omega) rfl rfl

/-- The tile folder is as it was. -/
def Kept (f g : Folders τ) : Prop := g.final = f.final

theorem always_act_kept {fails : Bool} {change : Folders τ → Folders τ} {g : Folders τ} (hg : Kept f g)
    (h : (change g).final = g.final) : (act fails change g).Always (Kept f) :=
  always_act hg fun _ => h.trans hg

theorem packStaging_kept {g : Folders τ} (hg : Kept f g) : (packStaging render faults frames g).Always (Kept f) :=
  (always_act_kept hg rfl).bind fun _ hg => Always.map fun _ _ => hg

/-- **Staging leaves the tile folder alone.** -/
theorem stage_kept (render : List φ → τ) (faults : Faults τ) (frames : List φ) (f : Folders τ) :
    (stage render faults frames f).Always (Kept f) := by
  refine (always_act_kept rfl rfl).bind fun g hg => ?_
  refine (always_act_kept hg rfl).bind fun g hg => ?_
  refine (always_act_kept hg rfl).bind fun g hg => ?_
  have hpacked : (packStaging render faults frames g).Always (Kept f) := packStaging_kept hg
  refine hpacked.handle (fun _ => always_skip hpacked.last) fun _ => ?_
  exact (always_act_kept hpacked.last rfl).bind fun _ hg => always_raise hg

theorem packStaging_done {g : Folders τ} (h : (packStaging render faults frames g).done = true) :
    (packStaging render faults frames g).last.old = g.old ∧
      HoldsNew render frames (packStaging render faults frames g).last.staging := by
  obtain ⟨hmeasure, hpack, hlast⟩ := andThen_done h
  rw [packStaging, hlast]
  rw [(act_done hmeasure).2] at hpack ⊢
  exact ⟨rfl, packSheets_new hpack⟩

/-- **When staging is done the new set is staged** and nothing is aside. -/
theorem stage_done (h : (stage render faults frames f).done = true) :
    (stage render faults frames f).last.old = none ∧ HoldsNew render frames (stage render faults frames f).last.staging := by
  obtain ⟨-, h, hlast⟩ := andThen_done h
  rw [stage, hlast]
  obtain ⟨-, h, hlast⟩ := andThen_done h
  rw [hlast]
  obtain ⟨hmkdir, h, hlast⟩ := andThen_done h
  rw [hlast]
  rw [(act_done hmkdir).2] at h ⊢
  generalize hg : ({ (act false dropOld (act false dropStaging f).last).last with staging := some [] } : Folders τ) = g
    at h ⊢
  have hold : g.old = none := by
    rw [← hg]
    rfl
  cases hpacked : (packStaging render faults frames g).done with
  | true =>
    rw [(handle_of_done hpacked).1, ← hold]
    exact packStaging_done hpacked
  | false =>
    rw [(handle_of_raised hpacked).2] at h
    cases h

/-! ### Without a failing rename -/

/-- A rename is tried and fails. -/
def RenameFails (faults : Faults τ) (f : Folders τ) : Prop :=
  faults.swap = true ∨ faults.rename = true ∧ f.sheets.isSome = true

/-- The sheets of `f` are in the folder, or aside while there is none, or the new ones are in it. -/
def Replaces (render : List φ → τ) (frames : List φ) (f g : Folders τ) : Prop :=
  g.sheets = f.sheets ∨ g.sheets = none ∧ g.old = f.sheets ∨ HoldsNew render frames g.sheets

theorem Kept.sheets {g : Folders τ} (h : Kept f g) : g.sheets = f.sheets := congrArg Option.join h

/-- The renames go from the old sheets to the new ones. -/
theorem swap_spec (hf : ¬RenameFails faults f) (hnew : HoldsNew render frames f.staging) :
    (swap faults f).done = true ∧ HoldsNew render frames (swap faults f).last.sheets ∧
      (swap faults f).Always (Replaces render frames f) := by
  obtain ⟨hswap, hrename⟩ := not_or.1 hf
  rw [Bool.not_eq_true] at hswap
  unfold swap
  cases hsheets : f.sheets with
  | none =>
    simp only [hswap]
    refine ⟨rfl, hnew, always_act (.inl rfl) fun _ => .inr (.inr hnew)⟩
  | some d =>
    have hfalse : faults.rename = false := by
      rw [← Bool.not_eq_true]
      exact fun h => hrename ⟨h, hsheets ▸ rfl⟩
    simp only [hswap, hfalse]
    refine ⟨rfl, hnew, Always.andThen (always_act (.inl rfl) fun _ => .inr (.inl ⟨rfl, hsheets.symm⟩)) fun _ => ?_⟩
    exact always_act (.inr (.inl ⟨rfl, hsheets.symm⟩)) fun _ => .inr (.inr hnew)

/-- The new sheets are in place before the old ones go. -/
theorem replaceSheets_spec (hf : ¬RenameFails faults f) (hnew : HoldsNew render frames f.staging) :
    (replaceSheets render faults frames f).done = true ∧
      HoldsNew render frames (replaceSheets render faults frames f).last.sheets ∧
      (replaceSheets render faults frames f).Always (Replaces render frames f) := by
  obtain ⟨hdone, hholds, halways⟩ := swap_spec hf hnew
  have hend : (replaceSheets render faults frames f).last = dropStaging (dropOld (swap faults f).last) ∧
      (replaceSheets render faults frames f).done = true := handle_of_done hdone
  refine ⟨hend.2, ?_, halways.handle (fun _ => ?_) fun h => ?_⟩
  · rw [hend.1]
    exact hholds
  · have hkeep : ∀ {g : Folders τ}, HoldsNew render frames g.sheets → Replaces render frames f g := fun h => .inr (.inr h)
    exact (always_act (hkeep hholds) fun _ => hkeep hholds).andThen fun _ => always_act (hkeep hholds) fun _ => hkeep hholds
  · rw [hdone] at h
    cases h

/-- **A publish in which no rename fails**: whatever step it is at, the old sheets are there or the new ones; if it raises,
the tile folder is as it was, and if it returns, it holds the new sheets. -/
theorem publish_swaps (frames : List φ) (hf : ¬RenameFails faults f) :
    (publish render faults frames f).Always (Replaces render frames f) ∧
      ((publish render faults frames f).done = false → (publish render faults frames f).last.final = f.final) ∧
      ((publish render faults frames f).done = true → HoldsNew render frames (publish render faults frames f).last.sheets) := by
  unfold publish
  split_ifs with hframes
  · exact ⟨always_raise (.inl rfl), fun _ => rfl, fun h => (by cases h)⟩
  · have hkept := stage_kept render faults frames f
    have hsame : (stage render faults frames f).Always (Replaces render frames f) := hkept.mono fun _ hg => .inl hg.sheets
    cases hstage : (stage render faults frames f).done with
    | false =>
      obtain ⟨hlast, hdone⟩ : ((stage render faults frames f).andThen (replaceSheets render faults frames)).last =
          (stage render faults frames f).last ∧
          ((stage render faults frames f).andThen (replaceSheets render faults frames)).done = false :=
        handle_of_raised hstage
      rw [hlast, hdone]
      refine ⟨hsame.andThen fun h => ?_, fun _ => hkept.last, fun h => (by cases h)⟩
      rw [hstage] at h
      cases h
    | true =>
      have hsheets : (stage render faults frames f).last.sheets = f.sheets := hkept.last.sheets
      have hf' : ¬RenameFails faults (stage render faults frames f).last := by rwa [RenameFails, hsheets]
      obtain ⟨hreplaced, hholds, halways⟩ := replaceSheets_spec hf' (stage_done hstage).2
      obtain ⟨hlast, hdone⟩ : ((stage render faults frames f).andThen (replaceSheets render faults frames)).last =
          (replaceSheets render faults frames (stage render faults frames f).last).last ∧
          ((stage render faults frames f).andThen (replaceSheets render faults frames)).done =
            (replaceSheets render faults frames (stage render faults frames f).last).done := handle_of_done hstage
      rw [hlast, hdone, hreplaced]
      refine ⟨hsame.andThen fun _ => halways.mono fun g hg => ?_, fun h => (by cases h), fun _ => hholds⟩
      rwa [Replaces, hsheets] at hg

/-! ### Writing in place -/

/-- What is in the folder is what was in it. -/
def FromOld (f g : Folders τ) : Prop :=
  ∀ k t, (g.sheets.getD []).lookup k = some t → (f.sheets.getD []).lookup k = some t

theorem fromOld_of_sheets {g : Folders τ} (h : g.sheets = f.sheets) : FromOld f g := fun k t ht => by rwa [h] at ht

theorem fromOld_of_none {g : Folders τ} (h : g.sheets = none) : FromOld f g := fun k t ht => by
  rw [h] at ht
  cases ht

/-- **Written in place**, the folder holds the new sheets, and those of the old ones that could not be removed and have no
new one of their number. -/
theorem inplace_spec {g : Folders τ} (h : (inplaceFallbackWrite render faults frames g).done = true) :
    ∃ d, (inplaceFallbackWrite render faults frames g).last.sheets = some d ∧ ∀ k, d.lookup k = newTile render frames k ∨
      newTile render frames k = none ∧ faults.unlink k = true ∧ d.lookup k = (g.sheets.getD []).lookup k := by
  obtain ⟨hmkdir, hwritten, hlast⟩ := andThen_done h
  rw [inplaceFallbackWrite, hlast]
  rw [(act_done hmkdir).2] at hwritten ⊢
  obtain ⟨-, hpacked, hpack⟩ := andThen_done hwritten
  refine ⟨_, rfl, fun k => ?_⟩
  rw [hpack, lookup_packSheets hpacked, newTile, (unlinkStale_spec _ _ _).2]
  by_cases hk : k < sheetCount frames
  · rw [if_pos (by omega), if_pos hk]
    exact .inl rfl
  · rw [if_neg (by omega), if_neg hk]
    by_cases hgone : k ∈ ((g.sheets.getD []).map Prod.fst) ∧ faults.unlink k = false
    · exact .inl (if_pos hgone)
    · cases hstays : faults.unlink k with
      | true => exact .inr ⟨rfl, rfl, if_neg fun h => (by cases h.2)⟩
      | false =>
        -- A file that is not listed is not there.
        have hnot : k ∉ (g.sheets.getD []).map Prod.fst := fun h => hgone ⟨h, hstays⟩
        have hnone : (g.sheets.getD []).lookup k = none := by
          rw [List.lookup_eq_none_iff]
          intro file hfile
          rw [bne_iff_ne]
          rintro rfl
          exact hnot (List.mem_map.2 ⟨_, hfile, rfl⟩)
        refine .inl ?_
        show (if _ then none else (g.sheets.getD []).lookup k) = none
        rw [hnone, ite_self]

/-- Renames that raise leave the old sheets in the folder, or aside and no folder. -/
theorem swap_raised (h : (swap faults f).done = false) : RenameFails faults f ∧
    ((swap faults f).last = f ∨ (swap faults f).last.sheets = none ∧ (swap faults f).last.old = f.sheets) := by
  unfold swap at h ⊢
  cases hsheets : f.sheets with
  | none =>
    rw [hsheets] at h
    cases hswap : faults.swap with
    | true => exact ⟨.inl hswap, .inl rfl⟩
    | false =>
      rw [hswap] at h
      cases h
  | some d =>
    rw [hsheets] at h
    cases hrename : faults.rename with
    | true => exact ⟨.inr ⟨hrename, hsheets ▸ rfl⟩, .inl rfl⟩
    | false =>
      rw [hrename] at h
      cases hswap : faults.swap with
      | true => exact ⟨.inl hswap, .inr ⟨rfl, rfl⟩⟩
      | false =>
        rw [hswap] at h
        cases h

theorem swap_fails (hf : RenameFails faults f) : (swap faults f).done = false := by
  unfold swap
  cases hsheets : f.sheets with
  | none =>
    obtain hswap | ⟨-, hsome⟩ := hf
    · rw [hswap]
      rfl
    · rw [hsheets] at hsome
      cases hsome
  | some d =>
    obtain hswap | ⟨hrename, -⟩ := hf
    · rw [hswap]
      cases faults.rename <;> rfl
    · rw [hrename]
      rfl

/-- The fallback writes in place, whether the old sheets were put back or not. -/
theorem fallback_written (render : List φ → τ) (faults : Faults τ) (frames : List φ) (g : Folders τ) :
    ((restoreOld faults g).handle (inplaceFallbackWrite render faults frames)
        (inplaceFallbackWrite render faults frames)).last =
      (inplaceFallbackWrite render faults frames (restoreOld faults g).last).last ∧
    ((restoreOld faults g).handle (inplaceFallbackWrite render faults frames)
        (inplaceFallbackWrite render faults frames)).done =
      (inplaceFallbackWrite render faults frames (restoreOld faults g).last).done := by
  cases hdone : (restoreOld faults g).done with
  | true => exact handle_of_done hdone
  | false => exact handle_of_raised hdone

theorem restoreOld_fromOld {g : Folders τ} (hg : FromOld f g)
    (hold : g.sheets = none → ∀ d, g.old = some d → f.sheets = some d) : FromOld f (restoreOld faults g).last := by
  unfold restoreOld
  split_ifs with haside
  · rw [Bool.and_eq_true, Option.isNone_iff_eq_none] at haside
    cases faults.restore with
    | true => exact hg
    | false =>
      intro k t ht
      obtain ⟨d, hd⟩ := Option.isSome_iff_exists.1 haside.1
      have hback : ((act false (fun f => { f with final := some f.old, old := none }) g).last).sheets = some d := hd
      rw [hback] at ht
      rwa [hold haside.2 d hd]
  · exact hg

/-- **The restoring rename** brings the old sheets back. -/
theorem restoreOld_sheets {g : Folders τ} (hrestore : faults.restore = false)
    (hg : g.sheets = f.sheets ∧ g.old = none ∨ g.sheets = none ∧ g.old = f.sheets) :
    (restoreOld faults g).last.sheets = f.sheets := by
  unfold restoreOld
  obtain ⟨hsheets, hold⟩ | ⟨hsheets, hold⟩ := hg
  · rw [hold]
    exact hsheets
  · split_ifs with haside
    · rw [hrestore]
      exact hold
    · cases hf : f.sheets with
      | none => exact hsheets
      | some d =>
        rw [hold, hsheets, hf] at haside
        exact absurd rfl haside

/-- A fallback that has no folder to write in leaves what was put back. -/
theorem fallback_unwritten {g : Folders τ} (hmkdir : faults.mkdirInPlace = true) :
    (fallback render faults frames g).last.sheets = (restoreOld faults g).last.sheets := by
  have hlast : (inplaceFallbackWrite render faults frames (restoreOld faults g).last).last = (restoreOld faults g).last := by
    rw [inplaceFallbackWrite, hmkdir]
    rfl
  have hdone : (inplaceFallbackWrite render faults frames (restoreOld faults g).last).done = false := by
    rw [inplaceFallbackWrite, hmkdir]
    rfl
  obtain ⟨hwritten, hraised⟩ := fallback_written render faults frames g
  have hboth : (fallback render faults frames g).last = _ ∧ _ := handle_of_raised (hraised.trans hdone)
  rw [hboth.1]
  exact congrArg Folders.sheets (hwritten.trans hlast)

/-- **The fallback that returns** leaves the new sheets, and old ones that could not be removed. -/
theorem fallback_spec {g : Folders τ} (hg : FromOld f g) (hold : g.sheets = none → ∀ d, g.old = some d → f.sheets = some d)
    (h : (fallback render faults frames g).done = true) :
    ∃ d, (fallback render faults frames g).last.sheets = some d ∧ ∀ k, d.lookup k = newTile render frames k ∨
      newTile render frames k = none ∧ faults.unlink k = true ∧ d.lookup k = (f.sheets.getD []).lookup k := by
  unfold fallback at h ⊢
  have hrestored : FromOld f (restoreOld faults g).last := restoreOld_fromOld hg hold
  obtain ⟨hwritten, -, hlast⟩ := andThen_done h
  rw [hlast]
  obtain ⟨hsame, hdone⟩ := fallback_written render faults frames g
  rw [hdone] at hwritten
  obtain ⟨d, hd, hlookup⟩ := inplace_spec hwritten
  refine ⟨d, ?_, fun k => ?_⟩
  · rw [← hd, ← hsame]
    rfl
  · obtain hnew | ⟨hnone, hunlink, hstale⟩ := hlookup k
    · exact .inl hnew
    · cases hk : ((restoreOld faults g).last.sheets.getD []).lookup k with
      | none => exact .inl (by rw [hstale, hk, hnone])
      | some t => exact .inr ⟨hnone, hunlink, by rw [hstale, hk, hrestored k t hk]⟩

/-- **What a publish that returns leaves.** -/
theorem publish_returned (h : (publish render faults frames f).done = true) :
    ∃ d, (publish render faults frames f).last.sheets = some d ∧ ∀ k, d.lookup k = newTile render frames k ∨
      RenameFails faults f ∧ newTile render frames k = none ∧ faults.unlink k = true ∧
        d.lookup k = (f.sheets.getD []).lookup k := by
  by_cases hf : RenameFails faults f
  · unfold publish at h ⊢
    split_ifs at h ⊢ with hframes
    · cases h
    · obtain ⟨hstage, hreplaced, hlast⟩ := andThen_done h
      rw [hlast]
      have hsheets : (stage render faults frames f).last.sheets = f.sheets :=
        Kept.sheets (stage_kept render faults frames f).last
      have hnone : (stage render faults frames f).last.old = none := (stage_done hstage).1
      generalize (stage render faults frames f).last = g at hreplaced hsheets hnone ⊢
      have hf' : RenameFails faults g := by rwa [RenameFails, hsheets]
      have hraised := swap_fails hf'
      obtain ⟨hlast, hdone⟩ : (replaceSheets render faults frames g).last =
          (fallback render faults frames (swap faults g).last).last ∧ (replaceSheets render faults frames g).done =
            (fallback render faults frames (swap faults g).last).done := handle_of_raised hraised
      rw [hdone] at hreplaced
      rw [hlast]
      obtain ⟨-, hswapped⟩ := swap_raised hraised
      have hold : FromOld f (swap faults g).last := by
        obtain heq | ⟨hmissing, -⟩ := hswapped
        · rw [heq]
          exact fromOld_of_sheets hsheets
        · exact fromOld_of_none hmissing
      have haside : (swap faults g).last.sheets = none → ∀ d, (swap faults g).last.old = some d → f.sheets = some d := by
        intro _ d hd
        obtain heq | ⟨-, haside⟩ := hswapped
        · rw [heq, hnone] at hd
          cases hd
        · rw [← hsheets, ← haside, hd]
      obtain ⟨d, hd, hlookup⟩ := fallback_spec hold haside hreplaced
      exact ⟨d, hd, fun k => (hlookup k).imp_right fun hstale => ⟨hf, hstale⟩⟩
  · obtain ⟨d, hd, hnew⟩ := (publish_swaps frames hf).2.2 h
    exact ⟨d, hd, fun k => .inl (hnew k)⟩

/-- **A publish whose rename fails**, and whose fallback has no folder to write in, leaves the old sheets where they could
be put back. -/
theorem publish_restored (frames : List φ) (hf : RenameFails faults f) (hrestore : faults.restore = false)
    (hmkdir : faults.mkdirInPlace = true) : (publish render faults frames f).last.sheets = f.sheets := by
  unfold publish
  split_ifs with hframes
  · rfl
  · have hkept : Kept f (stage render faults frames f).last := (stage_kept render faults frames f).last
    cases hstage : (stage render faults frames f).done with
    | false =>
      have hboth : ((stage render faults frames f).andThen (replaceSheets render faults frames)).last = _ ∧ _ :=
        handle_of_raised hstage
      rw [hboth.1]
      exact hkept.sheets
    | true =>
      have hboth : ((stage render faults frames f).andThen (replaceSheets render faults frames)).last = _ ∧ _ :=
        handle_of_done hstage
      rw [hboth.1]
      have hsheets : (stage render faults frames f).last.sheets = f.sheets := hkept.sheets
      have hnone : (stage render faults frames f).last.old = none := (stage_done hstage).1
      generalize (stage render faults frames f).last = g at hsheets hnone ⊢
      have hraised : (swap faults g).done = false := swap_fails (by rwa [RenameFails, hsheets])
      have hreplaced : (replaceSheets render faults frames g).last = _ ∧ _ := handle_of_raised hraised
      rw [hreplaced.1, fallback_unwritten hmkdir]
      refine restoreOld_sheets hrestore ?_
      obtain heq | ⟨hmissing, haside⟩ := (swap_raised hraised).2
      · rw [heq]
        exact .inl ⟨hsheets, hnone⟩
      · exact .inr ⟨hmissing, haside.trans hsheets⟩

/-- **Replacing a trickplay set**: what is left where it returns, and where it raises and no rename failed, or the
fallback came to nothing; and a process that dies at any point, then a publish in which no rename fails. -/
theorem publish_spec (render : List φ → τ) (faults : Faults τ) (frames : List φ) (f : Folders τ) :
    ((publish render faults frames f).done = true → ∃ d, (publish render faults frames f).last.sheets = some d ∧
      ∀ k, d.lookup k = newTile render frames k ∨ RenameFails faults f ∧ newTile render frames k = none ∧
        faults.unlink k = true ∧ d.lookup k = (f.sheets.getD []).lookup k) ∧
    ((publish render faults frames f).done = false →
      (RenameFails faults f → faults.restore = false ∧ faults.mkdirInPlace = true) →
      (publish render faults frames f).last.sheets = f.sheets) ∧
    ∀ found ∈ (publish render faults frames f).all, ∀ d, found.sheets = some d →
      ∀ (faults' : Faults τ) (frames' : List φ), ¬RenameFails faults' found →
        ∀ g ∈ (publish render faults' frames' found).all,
          g.sheets = some d ∨ g.sheets = none ∧ g.old = some d ∨ HoldsNew render frames' g.sheets := by
  refine ⟨publish_returned, fun hraised hput => ?_, ?_⟩
  · by_cases hf : RenameFails faults f
    · exact publish_restored frames hf (hput hf).1 (hput hf).2
    · exact Kept.sheets ((publish_swaps frames hf).2.1 hraised)
  · intro found _ d hd faults' frames' hf g hg
    have halways : (publish render faults' frames' found).Always (Replaces render frames' found) :=
      (publish_swaps frames' hf).1
    have hreplaces := halways g hg
    rwa [Replaces, hd] at hreplaces

/-! ### Where a rename fails, and between the renames -/

/-- No step fails. -/
def noFaults : Faults (List ℕ) where
  mkdir := false
  measure := false
  pack _ := none
  rename := false
  swap := false
  restore := false
  mkdirInPlace := false
  unlink _ := false
  packInPlace _ := none

/-- A video with two sheets. -/
def twoSheets : Folders (List ℕ) := ⟨some (some [(0, [1]), (1, [2])]), none, none⟩

/-- A publish that returns, one whose rename fails and whose fallback finds no folder, and one that follows on the first
one's sheets. -/
theorem publish_spec_twoSheets :
    (∃ d, (publish id noFaults [7] twoSheets).last.sheets = some d ∧ ∀ k, d.lookup k = newTile id [7] k ∨
      RenameFails noFaults twoSheets ∧ newTile id [7] k = none ∧ noFaults.unlink k = true ∧
        d.lookup k = (twoSheets.sheets.getD []).lookup k) ∧
    (publish id { noFaults with rename := true, mkdirInPlace := true } [7] twoSheets).last.sheets = twoSheets.sheets ∧
    ∀ g ∈ (publish id noFaults [8] (publish id noFaults [7] twoSheets).last).all,
      g.sheets = some [(0, [7])] ∨ g.sheets = none ∧ g.old = some [(0, [7])] ∨ HoldsNew id [8] g.sheets := by
  obtain ⟨hreturned, -, hfound⟩ := publish_spec id noFaults [7] twoSheets
  refine ⟨hreturned rfl, ?_, ?_⟩
  · exact (publish_spec id { noFaults with rename := true, mkdirInPlace := true } [7] twoSheets).2.1 rfl fun _ => ⟨rfl, rfl⟩
  · refine hfound _ (List.mem_append_right _ (List.mem_singleton_self _)) _ rfl noFaults [8] ?_
    rintro (h | ⟨h, -⟩) <;> cases h

/-- The old sheets are renamed aside, and the process dies. -/
def betweenRenames : Folders (List ℕ) := ⟨some none, some [(0, [1]), (1, [2])], some [(0, [7])]⟩

/-- Written in place, an old sheet stays that cannot be removed, and the old ones are lost if a new one cannot be written;
and what is aside when the process dies between the renames is removed before there is a new set. -/
theorem publish_twoSheets :
    ((publish id { noFaults with rename := true, unlink := fun k => k = 1 } [7] twoSheets).done = true ∧
      (publish id { noFaults with rename := true, unlink := fun k => k = 1 } [7] twoSheets).last.sheets =
        some [(0, [7]), (1, [2])]) ∧
    ((publish id { noFaults with rename := true, packInPlace := fun _ => some none } [7] twoSheets).done = false ∧
      (publish id { noFaults with rename := true, packInPlace := fun _ => some none } [7] twoSheets).last.sheets =
        some []) ∧
    betweenRenames ∈ (publish id noFaults [7] twoSheets).all ∧
      ∃ g ∈ (publish id noFaults [8] betweenRenames).all, g.sheets = none ∧ g.old = none := by
  refine ⟨⟨rfl, rfl⟩, ⟨rfl, rfl⟩, ?_, ⟨some none, none, none⟩, ?_, rfl, rfl⟩
  · decide
  · decide

end MediaPreview.Trickplay
