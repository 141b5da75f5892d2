import MediaPreview.Nodes.Suggestions

/-!
# A suggested row fixes its library

Two paths name the same folder if they have the same pieces between slashes of either kind, and both or neither start with
one (`SameFolder`): of several slashes one after another all but one are noise. With that, what the moved row makes of the
library's root is the folder seen in the listing (`suggestRow_spec`), for the row is moved only if the folders below it lead
there (`pieces_mapped`).

The row is found by its folder's length, and used by the length of its text. Where a row has no more than one slash at its
end and no two rows have the same folder, these agree (`coveringRow_eq_pickedRow`).
-/

namespace MediaPreview.Nodes

open Pieces Separators Servers

/-! ### The best row -/

/-- What the loop keeps is a row that covers. -/
theorem mem_of_foldl_best {covers : PathMapping → Bool} {better : PathMapping → PathMapping → Bool}
    {l : List (PathMapping × ℕ)} {best : Option (PathMapping × ℕ)} {e : PathMapping × ℕ}
    (h : l.foldl (fun best row => if covers row.1 && best.all fun b => better row.1 b.1 then some row else best) best = some e) :
    best = some e ∨ (e ∈ l ∧ covers e.1 = true) := by
  induction l generalizing best with
  | nil => exact .inl h
  | cons row l ih =>
    obtain hkept | ⟨hmem, hcovers⟩ := ih h
    · dsimp only at hkept
      split_ifs at hkept with htakes
      · obtain rfl := Option.some.inj hkept
        exact .inr ⟨.head _, (Bool.and_eq_true_iff.1 htakes).1⟩
      · exact .inl hkept
    · exact .inr ⟨.tail _ hmem, hcovers⟩

theorem bestRow_spec {covers : PathMapping → Bool} {better : PathMapping → PathMapping → Bool}
    {mappings : List PathMapping} {row : PathMapping} {i : ℕ} (h : bestRow covers better mappings = some (row, i)) :
    mappings[i]? = some row ∧ covers row = true := by
  obtain hnone | ⟨hmem, hcovers⟩ := mem_of_foldl_best h
  · cases hnone
  · exact ⟨List.mk_mem_zipIdx_iff_getElem?.1 hmem, hcovers⟩

/-- Two loops keep the same rows if they agree on the rows that cover. -/
theorem bestRow_congr {covers covers' : PathMapping → Bool} {better better' : PathMapping → PathMapping → Bool}
    {mappings : List PathMapping} (hcovers : ∀ row ∈ mappings, covers row = covers' row)
    (hbetter : mappings.Pairwise fun best row =>
      covers best = true → covers row = true → better row best = better' row best) :
    bestRow covers better mappings = bestRow covers' better' mappings := by
  have hloop : ∀ (l : List (PathMapping × ℕ)) (best : Option (PathMapping × ℕ)),
      (∀ e ∈ l, covers e.1 = covers' e.1) →
      (l.map Prod.fst).Pairwise (fun best row => covers best = true → covers row = true → better row best = better' row best) →
      (∀ b ∈ best, ∀ e ∈ l, covers e.1 = true → better e.1 b.1 = better' e.1 b.1) →
      l.foldl (fun best row => if covers row.1 && best.all fun b => better row.1 b.1 then some row else best) best =
        l.foldl (fun best row => if covers' row.1 && best.all fun b => better' row.1 b.1 then some row else best) best := by
    intro l
    induction l with
    | nil => intros; rfl
    | cons row l ih =>
      intro best hcovers hpair hbest
      rw [List.map_cons, List.pairwise_cons] at hpair
      rw [List.foldl_cons, List.foldl_cons, ← hcovers row (.head _)]
      have hsame : (covers row.1 && best.all fun b => better row.1 b.1) =
          (covers row.1 && best.all fun b => better' row.1 b.1) := by
        cases hrow : covers row.1 with
        | false => rfl
        | true =>
          cases best with
          | none => rfl
          | some b => exact hbest b rfl row (.head _) hrow
      rw [← hsame]
      refine ih _ (fun e he => hcovers e (.tail _ he)) hpair.2 fun b hb e he hcover => ?_
      split_ifs at hb with htakes
      · obtain rfl := Option.some.inj hb
        exact hpair.1 e.1 (List.mem_map_of_mem he) (Bool.and_eq_true_iff.1 htakes).1 hcover
      · exact hbest b hb e (.tail _ he) hcover
  refine hloop _ none (fun e he => ?_) ?_ fun b hb => by cases hb
  · exact hcovers e.1 (List.fst_mem_of_mem_zipIdx he)
  · rwa [List.zipIdx_map_fst]

/-- Another row in a row's place is kept where that one is, if it covers the same. -/
theorem bestRow_set {covers : Path → Bool} {better : Path → Path → Bool} {mappings : List PathMapping} {i : ℕ}
    {row row' : PathMapping} (hrow : mappings[i]? = some row) (hstarts : row'.appPrefix = row.appPrefix)
    (h : bestRow (fun r => covers r.appPrefix) (fun r b => better r.appPrefix b.appPrefix) mappings = some (row, i)) :
    bestRow (fun r => covers r.appPrefix) (fun r b => better r.appPrefix b.appPrefix) (mappings.set i row') =
      some (row', i) := by
  have hset : (mappings.set i row').zipIdx = mappings.zipIdx.map fun e => if e.2 = i then (row', i) else e := by
    refine List.ext_getElem? fun n => ?_
    rw [List.getElem?_map, List.getElem?_zipIdx, List.getElem?_zipIdx, List.getElem?_set]
    by_cases hn : i = n
    · subst hn
      simp [(List.getElem?_eq_some_iff.1 hrow).1]
    · have hn' : ¬ n = i := fun h => hn h.symm
      rw [if_neg hn]
      cases mappings[n]? <;> simp [hn']
  -- The loop goes on alike after each row, the one that differs taken or not for the same text.
  have hloop : ∀ (l : List (PathMapping × ℕ)) (best : Option (PathMapping × ℕ)),
      (∀ e ∈ l, e.2 = i → e.1.appPrefix = row.appPrefix) → (∀ e ∈ best, e.2 = i → e.1.appPrefix = row.appPrefix) →
      (l.map fun e => if e.2 = i then (row', i) else e).foldl (fun best r => if covers r.1.appPrefix &&
        best.all (fun b => better r.1.appPrefix b.1.appPrefix) then some r else best)
        (best.map fun e => if e.2 = i then (row', i) else e) =
      (l.foldl (fun best r => if covers r.1.appPrefix && best.all (fun b => better r.1.appPrefix b.1.appPrefix) then some r
        else best) best).map fun e => if e.2 = i then (row', i) else e := by
    have hprefixes : ∀ e : PathMapping × ℕ, (e.2 = i → e.1.appPrefix = row.appPrefix) →
        (if e.2 = i then (row', i) else e).1.appPrefix = e.1.appPrefix := by
      intro e he
      split_ifs with hi
      · exact hstarts.trans (he hi).symm
      · rfl
    intro l
    induction l with
    | nil => intros; rfl
    | cons r l ih =>
      intro best hl hbest
      rw [List.map_cons, List.foldl_cons, List.foldl_cons, hprefixes r (hl r (.head _))]
      have hall : ((best.map fun e => if e.2 = i then (row', i) else e).all
          fun b => better r.1.appPrefix b.1.appPrefix) = best.all fun b => better r.1.appPrefix b.1.appPrefix := by
        cases best with
        | none => rfl
        | some b => exact congrArg (better r.1.appPrefix) (hprefixes b (hbest b rfl))
      rw [hall]
      have hrest : ∀ e ∈ l, e.2 = i → e.1.appPrefix = row.appPrefix := fun e he => hl e (.tail _ he)
      by_cases htakes : (covers r.1.appPrefix && best.all fun b => better r.1.appPrefix b.1.appPrefix) = true
      · rw [if_pos htakes, if_pos htakes]
        refine ih (some r) hrest fun e he => ?_
        obtain rfl := Option.some.inj he
        exact hl r (.head _)
      · rw [if_neg htakes, if_neg htakes]
        exact ih best hrest hbest
  have hall : ∀ e ∈ mappings.zipIdx, e.2 = i → e.1.appPrefix = row.appPrefix := by
    rintro ⟨r, n⟩ hmem rfl
    have hget := List.mk_mem_zipIdx_iff_getElem?.1 hmem
    rw [hrow] at hget
    rw [Option.some.inj hget]
  have hresult := hloop mappings.zipIdx none hall fun e he => by cases he
  rw [bestRow] at h ⊢
  rw [hset]
  refine hresult.trans ?_
  rw [h]
  simp

/-! ### Rows with at most one slash at their ends -/

/-- The text of a row's folder has no backslash at its end, and one slash at the most: `/` alone, or something before it. -/
def Plain (row : PathMapping) : Prop :=
  row.appPrefix = ['/'] ∨ (rstrip '/' row.appPrefix ≠ [] ∧ (rstrip '/' row.appPrefix).getLast? ≠ some '\\' ∧
    row.appPrefix.length ≤ (rstrip '/' row.appPrefix).length + 1)

/-- A row covers a root: it is the row's folder, or below it. -/
def Covers (appRoot : Path) (row : PathMapping) : Prop :=
  appRoot = folderOf row ∨ (rstrip '/' (folderOf row) ++ ['/']) <+: appRoot

variable {appRoot : Path} {row : PathMapping}

theorem getLast?_rstrip (s : Path) : (rstrip '/' s).getLast? ≠ some '/' := by
  intro h
  obtain ⟨a, ha⟩ := List.getLast?_eq_some_iff.1 h
  have hstrip : rstrip '/' (rstrip '/' s) = rstrip '/' s := rstrip_rstrip s
  rw [ha, rstrip_concat, if_pos rfl] at hstrip
  have hle := congrArg List.length hstrip
  have hstarts := (List.rdropWhile_prefix (p := (· = '/')) a).length_le
  rw [List.length_append, List.length_singleton] at hle
  unfold rstrip at hle
  omega

/-- The text of a folder but the topmost ends in a name. -/
theorem exists_last_of_plain (h : Plain row) (hne : rstrip '/' row.appPrefix ≠ []) :
    ∃ a c, rstrip '/' row.appPrefix = a ++ [c] ∧ isSlash c = false := by
  obtain hroot | ⟨-, hback, -⟩ := h
  · exact absurd (by rw [hroot]; rfl) hne
  · obtain ⟨a, c, hac⟩ := (List.eq_nil_or_concat (rstrip '/' row.appPrefix)).resolve_left hne
    refine ⟨a, c, by simpa using hac, ?_⟩
    have hc : (rstrip '/' row.appPrefix).getLast? = some c := by simp [hac]
    have hslash : c ≠ '/' := fun h => getLast?_rstrip row.appPrefix (h ▸ hc)
    have hbackslash : c ≠ '\\' := fun h => hback (h ▸ hc)
    simp [isSlash, hslash, hbackslash]

/-- The folder's text without slashes is what is trimmed. -/
theorem trimmed_of_plain (h : Plain row) (hne : row.appPrefix ≠ ['/']) :
    trimmed row.appPrefix = rstrip '/' row.appPrefix := by
  by_cases hsome : rstrip '/' row.appPrefix = []
  · exact absurd (h.resolve_right fun hplain => hplain.1 hsome) hne
  · obtain ⟨k, hk⟩ := rstrip_append_run '/' row.appPrefix
    obtain ⟨a, c, hac, hc⟩ := exists_last_of_plain h hsome
    have htrim : row.appPrefix.rdropWhile isSlash = rstrip '/' row.appPrefix := by
      conv_lhs => rw [hk, hac]
      clear hk
      induction k with
      | zero =>
        rw [List.replicate_zero, List.append_nil, hac]
        exact List.rdropWhile_concat_neg isSlash a c (by simp [hc])
      | succ k ih =>
        rw [List.replicate_succ', ← List.append_assoc, List.rdropWhile_concat_pos isSlash _ _ (by decide)]
        exact ih
    rw [trimmed, htrim, if_neg hsome]

/-- Both rules find that a row covers, or not. -/
theorem prefixMatches_eq (h : Plain row) : prefixMatches appRoot row.appPrefix '/' =
    (appRoot = folderOf row || (rstrip '/' (folderOf row) ++ ['/']).isPrefixOf appRoot) := by
  by_cases hroot : row.appPrefix = ['/']
  · have hfolder : folderOf row = ['/'] := by rw [folderOf, hroot]; rfl
    rw [prefixMatches, hfolder, hroot]
    have htrim : trimmed ['/'] = ['/'] := rfl
    rw [htrim, Bool.eq_iff_iff]
    simp only [Bool.or_eq_true, decide_eq_true_eq, List.isPrefixOf_iff_prefix, Bool.and_eq_true]
    have hstrip : rstrip '/' ['/'] ++ ['/'] = ['/'] := rfl
    rw [hstrip]
    constructor
    · rintro ((h | h) | ⟨-, h⟩)
      · exact .inl h
      · exact .inr ((List.prefix_append ['/'] ['/']).trans h)
      · exact .inr h
    · rintro (h | h)
      · exact .inl (.inl h)
      · exact .inr ⟨rfl, h⟩
  · have hsome : rstrip '/' row.appPrefix ≠ [] := (h.resolve_left hroot).1
    have hfolder : folderOf row = rstrip '/' row.appPrefix := by rw [folderOf, if_neg hsome]
    rw [prefixMatches, trimmed_of_plain h hroot, hfolder, rstrip_rstrip]
    have hlast := getLast?_rstrip row.appPrefix
    simp [hlast]

/-- What is longer than a folder over the root, and ends in no slash, is longer by a name. -/
theorem length_add_two_le {a c : Path} (ha : appRoot = a ∨ (a ++ ['/']) <+: appRoot) (hc : c <+: appRoot)
    (hlast : c.getLast? ≠ some '/') (h : a.length < c.length) : a.length + 2 ≤ c.length := by
  obtain rfl | ha := ha
  · have hle := hc.length_le
    omega
  · have hstarts : (a ++ ['/']) <+: c := List.prefix_of_prefix_length_le ha hc (by
      rw [List.length_append, List.length_singleton]
      omega)
    by_contra hlt
    have hsame : a ++ ['/'] = c := hstarts.eq_of_length (by
      rw [List.length_append, List.length_singleton]
      omega)
    exact hlast (by rw [← hsame, List.getLast?_concat])

/-- **Both rules find the same of two rows better**, if both cover a root and their folders differ. -/
theorem longer_eq {best : PathMapping} (hplain : Plain row) (hbest : Plain best) (hcovers : Covers appRoot row)
    (hcovers' : Covers appRoot best) (hne : folderOf best ≠ folderOf row) :
    decide ((folderOf row).length > (rstrip '/' best.appPrefix).length) =
      decide (row.appPrefix.length > best.appPrefix.length) := by
  have hroot : ∀ {r : PathMapping}, r.appPrefix = ['/'] → folderOf r = ['/'] ∧ rstrip '/' r.appPrefix = [] := by
    intro r hr
    rw [folderOf, hr]
    exact ⟨rfl, rfl⟩
  have hfolder : ∀ {r : PathMapping}, rstrip '/' r.appPrefix ≠ [] → folderOf r = rstrip '/' r.appPrefix := fun h => if_neg h
  have hlength : ∀ r : PathMapping, (rstrip '/' r.appPrefix).length ≤ r.appPrefix.length := fun r =>
    (List.rdropWhile_prefix _ _).length_le
  have hover : ∀ {r : PathMapping}, rstrip '/' r.appPrefix ≠ [] → Covers appRoot r →
      appRoot = rstrip '/' r.appPrefix ∨ (rstrip '/' r.appPrefix ++ ['/']) <+: appRoot := by
    intro r hr hc
    rw [Covers, hfolder hr, rstrip_rstrip] at hc
    exact hc
  have hstarts : ∀ {r : PathMapping}, rstrip '/' r.appPrefix ≠ [] → Covers appRoot r → rstrip '/' r.appPrefix <+: appRoot := by
    intro r hr hc
    obtain h | h := hover hr hc
    · exact h ▸ List.prefix_rfl
    · exact (List.prefix_append _ _).trans h
  rw [decide_eq_decide]
  obtain hrow | ⟨hrow, -, hrowle⟩ := hplain
  · obtain hbest | ⟨hbest, -, -⟩ := hbest
    · exact absurd ((hroot hbest).1.trans (hroot hrow).1.symm) hne
    · rw [(hroot hrow).1, hrow]
      have hpos := List.length_pos_of_ne_nil hbest
      have hle := hlength best
      simp only [List.length_singleton]
      omega
  · have hpos := List.length_pos_of_ne_nil hrow
    have hle := hlength row
    rw [hfolder hrow]
    obtain hbest | ⟨hbest, -, hbestle⟩ := hbest
    · -- below the root a folder has a slash and a name
      have hslash : appRoot = [] ∨ ([] ++ ['/']) <+: appRoot := by
        obtain h | h := hcovers'
        · rw [h, (hroot hbest).1]
          exact .inr List.prefix_rfl
        · rw [(hroot hbest).1] at h
          exact .inr h
      have htwo := length_add_two_le hslash (hstarts hrow hcovers) (getLast?_rstrip _) (by simpa using hpos)
      rw [(hroot hbest).2, hbest]
      simp only [List.length_nil, List.length_singleton] at htwo ⊢
      omega
    · have hle' := hlength best
      have hdiffer : (rstrip '/' row.appPrefix).length ≠ (rstrip '/' best.appPrefix).length := by
        intro hsame
        refine hne ?_
        rw [hfolder hrow, hfolder hbest]
        exact (List.prefix_of_prefix_length_le (hstarts hbest hcovers') (hstarts hrow hcovers) hsame.ge).eq_of_length
          hsame.symm
      obtain hlt | hlt := Nat.lt_or_gt_of_ne hdiffer
      · have htwo := length_add_two_le (hover hrow hcovers) (hstarts hbest hcovers') (getLast?_rstrip _) hlt
        omega
      · have htwo := length_add_two_le (hover hbest hcovers') (hstarts hrow hcovers) (getLast?_rstrip _) hlt
        omega

/-- **The row that is found is the one that is used.** -/
theorem coveringRow_eq_pickedRow {mappings : List PathMapping} (hplain : ∀ row ∈ mappings, Plain row)
    (hdistinct : mappings.Pairwise fun row other => folderOf row ≠ folderOf other) (appRoot : Path) :
    coveringRow appRoot mappings = pickedRow appRoot mappings := by
  refine bestRow_congr (fun row hrow => (prefixMatches_eq (hplain row hrow)).symm) ?_
  refine hdistinct.imp_of_mem fun {best row} hbest hrow hne hcovers hcovers' => ?_
  have hcover : ∀ {r : PathMapping},
      (appRoot = folderOf r || (rstrip '/' (folderOf r) ++ ['/']).isPrefixOf appRoot) = true → Covers appRoot r := by
    intro r h
    simpa [Covers] using h
  exact longer_eq (hplain row hrow) (hplain best hbest) (hcover hcovers') (hcover hcovers) hne

/-! ### Pieces of node paths -/

/-- What a path names, from the start or from wherever one is. -/
def components (path : Path) : List Path := pieces isSlash path

/-- A path starts with a slash. -/
def rooted (path : Path) : Bool := path.head?.any isSlash

theorem isSlash_nodeSep (path : Path) : isSlash (nodeSep path) = true := by
  rw [nodeSep]
  split_ifs <;> decide

/-- What is put behind a slash, whether it stood there or not. -/
theorem components_glue {sep : Char} (hsep : isSlash sep = true) (a b : Path) :
    components ((if a.getLast? = some sep then a else a ++ [sep]) ++ b) = components a ++ components b := by
  unfold components
  split_ifs with hlast
  · obtain ⟨s, rfl⟩ := List.getLast?_eq_some_iff.1 hlast
    rw [List.append_assoc, List.singleton_append, pieces_append_cons hsep, pieces_concat hsep]
  · rw [List.append_assoc, List.singleton_append, pieces_append_cons hsep]

theorem joinNode_nil (folder : Path) : joinNode folder [] = folder := by
  rw [joinNode, if_pos (.inl rfl), List.append_nil]

theorem joinNode_of_ne_nil (folder : Path) {name : Path} (h : name ≠ []) : joinNode folder name =
    (if folder.getLast? = some (nodeSep folder) then folder else folder ++ [nodeSep folder]) ++ name := by
  rw [joinNode]
  simp only [h, false_or]

/-- **A name goes behind the others.** -/
theorem components_joinNode (folder name : Path) :
    components (joinNode folder name) = components folder ++ components name := by
  by_cases hname : name = []
  · rw [hname, joinNode_nil, components, components, pieces_nil, List.append_nil]
  · rw [joinNode_of_ne_nil folder hname, components_glue (isSlash_nodeSep folder)]

theorem components_foldl_joinNode (parts : List Path) (folder : Path) :
    components (parts.foldl joinNode folder) = components folder ++ parts.flatMap components := by
  induction parts generalizing folder with
  | nil => simp
  | cons part parts ih =>
    rw [List.foldl_cons, ih, components_joinNode, List.append_assoc]
    rfl

@[simp] theorem components_trimmed (path : Path) : components (trimmed path) = components path := by
  rw [trimmed]
  split_ifs
  · rfl
  · exact pieces_rdropWhile (fun _ h => h) path

variable (R : CaseRules)

theorem components_fold (path : Path) : components (R.fold path) = (components path).map R.fold :=
  pieces_flatMap R.casefold_slash R.casefold_keeps path

theorem rooted_fold (path : Path) : rooted (R.fold path) = rooted path := by
  cases path with
  | nil => rfl
  | cons c path =>
    rw [CaseRules.fold, List.flatMap_cons, rooted, rooted]
    cases hc : isSlash c with
    | true => simp [R.casefold_slash c hc]
    | false =>
      obtain ⟨hne, hkeep⟩ := R.casefold_keeps c hc
      obtain ⟨d, ds, hds⟩ := List.exists_cons_of_ne_nil hne
      simp [hds, hc, hkeep d (hds ▸ .head _)]

theorem rooted_trimmed (path : Path) : rooted (trimmed path) = rooted path := by
  rw [trimmed]
  split_ifs with hnil
  · rfl
  · obtain ⟨c, s, hcs⟩ := List.exists_cons_of_ne_nil hnil
    obtain ⟨t, ht⟩ := List.rdropWhile_prefix isSlash path
    rw [hcs] at ht
    rw [hcs, ← ht]
    rfl

/-- Two paths name the same folder of a node: they start alike and have the same components, case aside on Windows. -/
def SameFolder (a b : Path) : Prop :=
  rooted a = rooted b ∧
    (components a = components b ∨ (nodeSep a = '\\' ∧ (components a).map R.fold = (components b).map R.fold))

/-- What the code takes for the same does name the same. -/
theorem sameFolder_of_sameNodePath {a b : Path} (h : sameNodePath R a b = true) : SameFolder R a b := by
  rw [sameNodePath] at h
  split_ifs at h with hsep
  · have h := of_decide_eq_true h
    refine ⟨?_, .inr ⟨hsep, ?_⟩⟩
    · rw [← rooted_trimmed a, ← rooted_trimmed b, ← rooted_fold R, h, rooted_fold]
    · rw [← components_trimmed a, ← components_trimmed b, ← components_fold, h, components_fold]
  · have h := of_decide_eq_true h
    refine ⟨?_, .inl ?_⟩
    · rw [← rooted_trimmed a, ← rooted_trimmed b, h]
    · rw [← components_trimmed a, ← components_trimmed b, h]

/-! ### Where the moved row puts the root -/

/-- The rest of a root in pieces, as both cut it. -/
theorem restOf_eq (hcovers : Covers appRoot row) : restOf appRoot row = pieces (· == '/') (restText appRoot row) := by
  have hslash : ∀ c : Char, decide (c = '/') = true → (c == '/') = true := fun c h => by simpa using h
  rw [restText, pieces_dropWhile hslash]
  by_cases hroot : rstrip '/' row.appPrefix = []
  · -- at the root the one cuts behind the slash and the other in front of it
    have hfolder : folderOf row = ['/'] := if_pos hroot
    rw [hroot, List.length_nil, List.drop_zero, restOf, hfolder]
    rw [Covers, hfolder] at hcovers
    have hstarts : ['/'] <+: appRoot := by
      obtain h | h := hcovers
      · exact h ▸ List.prefix_rfl
      · exact h
    obtain ⟨t, rfl⟩ := hstarts
    exact (pieces_cons (by decide) t).symm
  · rw [restOf, folderOf, if_neg hroot]
    rfl

/-- What is left starts with a name, and so does the first of its pieces. -/
theorem exists_restOf_cons (hcovers : Covers appRoot row) (h : restText appRoot row ≠ []) :
    ∃ c rest piece more, restText appRoot row = c :: rest ∧ restOf appRoot row = (c :: piece) :: more := by
  obtain ⟨c, rest, hcons⟩ := List.exists_cons_of_ne_nil h
  have hhead := List.head?_dropWhile_not (fun c : Char => decide (c = '/')) (appRoot.drop (rstrip '/' row.appPrefix).length)
  rw [restText] at hcons
  rw [hcons] at hhead
  obtain ⟨piece, more, hpieces⟩ := exists_pieces_cons (p := (· == '/')) (d := c) (by simpa using hhead) rest
  exact ⟨c, rest, piece, more, hcons, by rw [restOf_eq hcovers, restText, hcons, hpieces]⟩

theorem restOf_eq_nil_iff (hcovers : Covers appRoot row) : restOf appRoot row = [] ↔ restText appRoot row = [] := by
  constructor
  · intro hnil
    by_contra hne
    obtain ⟨c, rest, piece, more, -, hpieces⟩ := exists_restOf_cons hcovers hne
    rw [hnil] at hpieces
    cases hpieces
  · intro hnil
    rw [restOf_eq hcovers, hnil, pieces_nil]

@[simp] theorem restText_mk (path : Path) (row : PathMapping) (to' : Path) :
    restText path ⟨row.appPrefix, to'⟩ = restText path row := rfl

theorem components_baseText (row : PathMapping) : components (baseText row) = components row.nodePrefix := by
  rw [baseText]
  split_ifs
  · exact pieces_rdropWhile (fun _ h => h) _
  · rfl

/-- **The components of where a row puts the root**: those of the node's folder, and those below the row's. -/
theorem components_putOnNode (hcovers : Covers appRoot row) {sep : Char} (hsep : isSlash sep = true) :
    components (putOnNode appRoot row sep) = components row.nodePrefix ++ (restOf appRoot row).flatMap components := by
  have hrest : (restOf appRoot row).flatMap components = components (restText appRoot row) := by
    rw [restOf_eq hcovers]
    exact pieces_flatMap_pieces (fun c hc => by simp [isSlash, beq_iff_eq.1 hc]) _
  have hreplace : components ((restText appRoot row).map fun c => if c = '/' then sep else c) =
      components (restText appRoot row) := by
    refine pieces_map_sep (fun c hc => ?_) (fun c hc => ?_) _
    · split_ifs
      · exact hsep
      · exact hc
    · refine if_neg ?_
      rintro rfl
      cases hc
  rw [putOnNode, hrest, ← components_baseText]
  by_cases hnil : restText appRoot row = []
  · rw [if_pos hnil, hnil, components, components, pieces_nil, List.append_nil]
  · rw [if_neg hnil, components_glue hsep, hreplace]

theorem rooted_glue {sep : Char} (hsep : isSlash sep = true) (a b : Path) :
    rooted ((if a.getLast? = some sep then a else a ++ [sep]) ++ b) = (rooted a || a.isEmpty) := by
  cases a with
  | nil => simp [rooted, hsep]
  | cons c a => split_ifs <;> simp [rooted]

theorem rooted_foldl_joinNode {parts : List Path} (hparts : ∀ part ∈ parts, part ≠ []) (folder : Path) :
    rooted (parts.foldl joinNode folder) = (rooted folder || (folder.isEmpty && !parts.isEmpty)) := by
  induction parts generalizing folder with
  | nil => simp
  | cons part parts ih =>
    have hpart := hparts part (.head _)
    have hne : (joinNode folder part).isEmpty = false := by
      rw [joinNode]
      simp [hpart]
    rw [List.foldl_cons, ih fun x hx => hparts x (.tail _ hx), hne, joinNode_of_ne_nil folder hpart,
      rooted_glue (isSlash_nodeSep folder)]
    simp

/-- What is left of a folder's text when its slashes are taken off starts as it does, if something is. -/
theorem rooted_baseText (h : row.nodePrefix.all isSlash = false) : rooted (baseText row) = rooted row.nodePrefix ∧
    (baseText row).isEmpty = row.nodePrefix.isEmpty := by
  have hne : row.nodePrefix.rdropWhile isSlash ≠ [] := fun hnil => by
    rw [List.rdropWhile_eq_nil_iff] at hnil
    rw [List.all_eq_true.2 hnil] at h
    cases h
  have htrim : trimmed row.nodePrefix = row.nodePrefix.rdropWhile isSlash := if_neg hne
  have hnil : row.nodePrefix ≠ [] := by
    intro hnil
    rw [hnil] at h
    cases h
  rw [baseText]
  split_ifs
  · rw [← htrim, rooted_trimmed, htrim, List.isEmpty_eq_false_iff.2 hne, List.isEmpty_eq_false_iff.2 hnil]
    exact ⟨rfl, rfl⟩
  · exact ⟨rfl, rfl⟩

/-- **Where a row puts the root starts** as the folders below the row's put behind the node's do. -/
theorem rooted_putOnNode (hcovers : Covers appRoot row) {sep : Char} (hsep : isSlash sep = true)
    (hsome : restOf appRoot row = [] → row.nodePrefix.all isSlash = false) :
    rooted (putOnNode appRoot row sep) =
      (rooted row.nodePrefix || (row.nodePrefix.isEmpty && !(restOf appRoot row).isEmpty)) := by
  rw [putOnNode]
  by_cases hnil : restText appRoot row = []
  · have hrest := (restOf_eq_nil_iff hcovers).2 hnil
    rw [if_pos hnil, hrest, (rooted_baseText (hsome hrest)).1]
    simp
  · have hrest : (restOf appRoot row).isEmpty = false := by
      rw [List.isEmpty_eq_false_iff]
      exact fun h => hnil ((restOf_eq_nil_iff hcovers).1 h)
    rw [if_neg hnil, rooted_glue hsep, hrest]
    cases hall : row.nodePrefix.all isSlash with
    | false => rw [(rooted_baseText hall).1, (rooted_baseText hall).2]; simp
    | true =>
      -- Of nothing but slashes nothing is left, and a slash is put there; one slash alone stays.
      rw [baseText]
      split_ifs with hlength
      · have hall := List.all_eq_true.1 hall
        rw [List.rdropWhile_eq_nil_iff.2 hall]
        obtain ⟨c, s, hcs⟩ := List.exists_cons_of_length_pos (Nat.zero_lt_of_lt hlength)
        have hc : isSlash c = true := hall c (hcs ▸ .head _)
        simp [hcs, rooted, hc]
      · simp

/-! ### Windows paths -/

/-- A path is one of Windows: it has a backslash, or a drive. -/
def Windows (path : Path) : Prop := '\\' ∈ path ∨ path[1]? = some ':'

theorem nodeSep_of_windows {path : Path} (h : Windows path) : nodeSep path = '\\' := if_pos h

theorem nodeSep_of_not_windows {path : Path} (h : ¬ Windows path) : nodeSep path = '/' := if_neg h

theorem windows_of_nodeSep {path : Path} (h : nodeSep path = '\\') : Windows path := by
  by_contra hnot
  rw [nodeSep_of_not_windows hnot] at h
  revert h
  decide

/-- How a name makes a path one of Windows. -/
theorem windows_glue {folder name : Path} (hfolder : ¬ Windows folder)
    (h : Windows ((if folder.getLast? = some '/' then folder else folder ++ ['/']) ++ name)) :
    '\\' ∈ name ∨ ((folder = [] ∨ folder = ['/']) ∧ name.head? = some ':') := by
  have hback : '\\' ∉ folder := fun hmem => hfolder (.inl hmem)
  have hdrive : folder[1]? ≠ some ':' := fun hd => hfolder (.inr hd)
  obtain hmem | hcolon := h
  · obtain hmem | hmem := List.mem_append.1 hmem
    · split_ifs at hmem
      · exact absurd hmem hback
      · obtain hmem | hmem := List.mem_append.1 hmem
        · exact absurd hmem hback
        · exact absurd (List.mem_singleton.1 hmem) (by decide)
    · exact .inl hmem
  · refine .inr ?_
    cases folder with
    | nil =>
      rw [List.head?_eq_getElem?]
      exact ⟨.inl rfl, by simpa using hcolon⟩
    | cons c folder =>
      cases folder with
      | nil =>
        by_cases hc : c = '/'
        · subst hc
          rw [List.head?_eq_getElem?]
          exact ⟨.inr rfl, by simpa using hcolon⟩
        · simp [hc] at hcolon
      | cons d folder =>
        refine absurd ?_ hdrive
        split_ifs at hcolon <;> simpa using hcolon

/-- How folders make a path one of Windows. -/
theorem windows_foldl_joinNode {parts : List Path} (hparts : ∀ part ∈ parts, part ≠ []) {folder : Path}
    (h : Windows (parts.foldl joinNode folder)) : Windows folder ∨ (∃ part ∈ parts, '\\' ∈ part) ∨
      ((folder = [] ∨ folder = ['/']) ∧ ∃ part rest, parts = part :: rest ∧ part.head? = some ':') := by
  induction parts generalizing folder with
  | nil => exact .inl h
  | cons part parts ih =>
    by_cases hfolder : Windows folder
    · exact .inl hfolder
    · have hpart := hparts part (.head _)
      have hjoin : joinNode folder part =
          (if folder.getLast? = some '/' then folder else folder ++ ['/']) ++ part := by
        rw [joinNode_of_ne_nil folder hpart, nodeSep_of_not_windows hfolder]
      obtain hwindows | ⟨x, hx, hback⟩ | ⟨hshort, -⟩ := ih (fun x hx => hparts x (.tail _ hx)) h
      · rw [hjoin] at hwindows
        obtain hback | ⟨hshort, hcolon⟩ := windows_glue hfolder hwindows
        · exact .inr (.inl ⟨part, .head _, hback⟩)
        · exact .inr (.inr ⟨hshort, part, parts, rfl, hcolon⟩)
      · exact .inr (.inl ⟨x, .tail _ hx, hback⟩)
      · -- a folder with a name behind it is longer than a slash
        have hlength : 2 ≤ (joinNode folder part).length := by
          have hpos := List.length_pos_of_ne_nil hpart
          rw [hjoin]
          cases folder with
          | nil =>
            simp
            omega
          | cons c folder =>
            split_ifs <;> simp <;> omega
        obtain hshort | hshort := hshort <;> rw [hshort] at hlength <;> simp at hlength

/-- **A row puts the root on Windows** where the folders behind the node's make a path of Windows. -/
theorem windows_putOnNode (hcovers : Covers appRoot row) (hsome : restOf appRoot row ≠ [])
    (h : Windows ((restOf appRoot row).foldl joinNode row.nodePrefix)) :
    Windows (putOnNode appRoot row (nodeSep row.nodePrefix)) := by
  have hparts : ∀ part ∈ restOf appRoot row, part ≠ [] := by
    rw [restOf_eq hcovers]
    exact fun part hpart => ne_nil_of_mem_pieces hpart
  have hrest : restText appRoot row ≠ [] := fun hnil => hsome ((restOf_eq_nil_iff hcovers).2 hnil)
  rw [putOnNode, if_neg hrest]
  obtain hwindows | ⟨part, hpart, hback⟩ | ⟨hshort, part, parts, hfirst, hcolon⟩ := windows_foldl_joinNode hparts h
  · rw [nodeSep_of_windows hwindows]
    refine .inl (List.mem_append_left _ ?_)
    split_ifs with hlast
    · exact List.mem_of_getLast? hlast
    · exact List.mem_append_right _ (List.mem_singleton_self _)
  · have hmem : '\\' ∈ restText appRoot row := by
      rw [restOf_eq hcovers] at hpart
      exact mem_of_mem_piece hpart hback
    exact .inl (List.mem_append_right _ (List.mem_map.2 ⟨_, hmem, if_neg (by decide)⟩))
  · have hslash : nodeSep row.nodePrefix = '/' ∧ baseText row = row.nodePrefix := by
      rw [baseText]
      obtain hshort | hshort := hshort <;> rw [hshort] <;> exact ⟨rfl, rfl⟩
    obtain ⟨c, rest, piece, more, hcons, hpieces⟩ := exists_restOf_cons hcovers hrest
    rw [hfirst] at hpieces
    rw [(List.cons.inj hpieces).1] at hcolon
    obtain rfl : c = ':' := Option.some.inj hcolon
    rw [hslash.1, hslash.2, hcons]
    refine .inr ?_
    obtain hshort | hshort := hshort <;> rw [hshort] <;> simp

/-! ### The suggestion -/

variable {R}

/-- **The moved row puts the root where it was seen**, if it is moved to where the folders below it lead there. -/
theorem sameFolder_putOnNode {seenRoot : Path} (hcovers : Covers appRoot row)
    (hself : restOf appRoot row = [] → row.nodePrefix = seenRoot ∧ seenRoot.all isSlash = false)
    (h : sameNodePath R ((restOf appRoot row).foldl joinNode row.nodePrefix) seenRoot = true) :
    SameFolder R (putOnNode appRoot row (nodeSep row.nodePrefix)) seenRoot := by
  have hparts : ∀ part ∈ restOf appRoot row, part ≠ [] := by
    rw [restOf_eq hcovers]
    exact fun part hpart => ne_nil_of_mem_pieces hpart
  have hsep := isSlash_nodeSep row.nodePrefix
  have hcomponents : components (putOnNode appRoot row (nodeSep row.nodePrefix)) =
      components ((restOf appRoot row).foldl joinNode row.nodePrefix) := by
    rw [components_putOnNode hcovers hsep, components_foldl_joinNode]
  have hrooted : rooted (putOnNode appRoot row (nodeSep row.nodePrefix)) =
      rooted ((restOf appRoot row).foldl joinNode row.nodePrefix) := by
    rw [rooted_putOnNode hcovers hsep fun hnil => (hself hnil).1 ▸ (hself hnil).2, rooted_foldl_joinNode hparts]
  obtain ⟨hstart, hsame⟩ := sameFolder_of_sameNodePath R h
  refine ⟨hrooted.trans hstart, ?_⟩
  rw [hcomponents]
  by_cases hnil : restOf appRoot row = []
  · rw [hnil, List.foldl_nil, (hself hnil).1]
    exact .inl rfl
  · exact hsame.imp_right fun hfold =>
      ⟨nodeSep_of_windows (windows_putOnNode hcovers hnil (windows_of_nodeSep hfold.1)), hfold.2⟩

/-- A listed name is the name wanted, case and Unicode form aside. -/
def SameName (R : CaseRules) (name wanted : Path) : Prop :=
  name = wanted ∨ R.fold name = R.fold wanted ∨ R.caseless name = R.caseless wanted

theorem closestName_spec {wanted name : Path} {names : List (Option Path)} (h : closestName R wanted names = some name) :
    some name ∈ names ∧ SameName R name wanted := by
  obtain ⟨key, hkey, hfind⟩ := List.exists_of_findSome?_eq_some h
  have hname := List.mem_of_find?_eq_some hfind
  obtain ⟨o, ho, rfl⟩ := List.mem_filterMap.1 hname
  refine ⟨ho, ?_⟩
  have hsame : key name = key wanted := by simpa using List.find?_some hfind
  simp only [List.mem_cons, List.not_mem_nil, or_false] at hkey
  obtain rfl | rfl | rfl := hkey
  · exact .inl hsame
  · exact .inr (.inl hsame)
  · exact .inr (.inr hsame)

theorem all_fold (name : Path) : (R.fold name).all isSlash = name.all isSlash := by
  have hnil : ∀ path : Path, path.all isSlash = true ↔ components path = [] := fun path => by
    rw [components, pieces_eq_nil_iff, List.all_eq_true]
  rw [Bool.eq_iff_iff, hnil, hnil, components_fold, List.map_eq_nil_iff]

/-- What is the name wanted is not all slashes, where that is not. -/
theorem SameName.all_eq {name wanted : Path} (h : SameName R name wanted) : name.all isSlash = wanted.all isSlash := by
  obtain rfl | h | h := h
  · rfl
  · rw [← all_fold (R := R), h, all_fold]
  · have hcaseless : ∀ path, (R.caseless path).all isSlash = path.all isSlash := fun path => by
      rw [CaseRules.caseless, R.nfd_slashes, all_fold, R.nfd_slashes]
    rw [← hcaseless, h, hcaseless]

/-- A root is the text of its row's folder, slashes, and what is left; without slashes nothing is. -/
theorem exists_split_of_covers (hcovers : Covers appRoot row) :
    ∃ k, appRoot = rstrip '/' row.appPrefix ++ List.replicate k '/' ++ restText appRoot row ∧
      (k = 0 → restText appRoot row = []) := by
  have hstarts : ∃ t, appRoot = rstrip '/' row.appPrefix ++ t ∧ (t = [] ∨ t.head? = some '/') := by
    by_cases hnil : rstrip '/' row.appPrefix = []
    · refine ⟨appRoot, by rw [hnil, List.nil_append], ?_⟩
      have hfolder : folderOf row = ['/'] := if_pos hnil
      rw [Covers, hfolder] at hcovers
      obtain rfl | ⟨t, rfl⟩ := hcovers
      · exact .inr rfl
      · exact .inr rfl
    · have hfolder : folderOf row = rstrip '/' row.appPrefix := if_neg hnil
      rw [Covers, hfolder, rstrip_rstrip] at hcovers
      obtain h | ⟨t, h⟩ := hcovers
      · exact ⟨[], by rw [List.append_nil]; exact h, .inl rfl⟩
      · exact ⟨'/' :: t, by rw [← h, List.append_assoc]; rfl, .inr rfl⟩
  obtain ⟨t, ht, hhead⟩ := hstarts
  have hrest : restText appRoot row = t.dropWhile (· = '/') := by
    rw [restText, ht, List.drop_left]
  obtain ⟨k, hk⟩ : ∃ k, t.takeWhile (· = '/') = List.replicate k '/' :=
    ⟨_, List.eq_replicate_of_mem fun c hc => by simpa using List.mem_takeWhile_imp hc⟩
  refine ⟨k, ?_, fun hzero => ?_⟩
  · rw [hrest, List.append_assoc, ← hk, List.takeWhile_append_dropWhile]
    exact ht
  · rw [hzero, List.replicate_zero] at hk
    rw [hrest]
    obtain rfl | hhead := hhead
    · rfl
    · cases t with
      | nil => rfl
      | cons c t =>
        obtain rfl := Option.some.inj hhead
        cases hk

/-- The last component of a root. -/
def lastName (appRoot : Path) : Path := (pieces (· == '/') appRoot).getLast?.getD []

/-- The last component is what stands behind the last slash that is not at the end. -/
theorem lastName_eq (path : Path) : lastName path = (rstrip '/' path).rtakeWhile (· ≠ '/') := by
  have hpieces : pieces (· == '/') path = pieces (· == '/') (rstrip '/' path) :=
    (pieces_rdropWhile (fun c hc => by simpa using hc) path).symm
  have hlast := getLast?_rstrip path
  rw [lastName, hpieces]
  generalize rstrip '/' path = s at hlast ⊢
  by_cases hmem : '/' ∈ s
  · obtain ⟨a, b, rfl, hb⟩ := exists_last_split hmem
    have hne : b ≠ [] := by
      rintro rfl
      exact hlast (by simp)
    have hfree : ∀ c ∈ b, (c == '/') = false := fun c hc => by
      simp only [beq_eq_false_iff_ne]
      rintro rfl
      exact hb hc
    have htake : (a ++ '/' :: b).rtakeWhile (· ≠ '/') = b := by
      have hall : ∀ c ∈ b.reverse, decide (c ≠ '/') = true := fun c hc => by
        simpa using hfree c (List.mem_reverse.1 hc)
      rw [List.rtakeWhile, List.reverse_append, List.reverse_cons, List.append_assoc, List.takeWhile_append_of_pos hall]
      simp
    rw [pieces_append_cons (by decide), pieces_of_free hfree, if_neg hne, htake]
    simp
  · have hfree : ∀ c ∈ s, (c == '/') = false := fun c hc => by
      simp only [beq_eq_false_iff_ne]
      rintro rfl
      exact hmem hc
    have hself : s.rtakeWhile (· ≠ '/') = s := List.rtakeWhile_eq_self_iff.2 fun c hc => by simpa using hfree c hc
    rw [pieces_of_free hfree, hself]
    split_ifs with hnil
    · exact hnil.symm
    · rfl

/-- **The name that is looked for is the root's last.** -/
theorem lastOf_eq (hcovers : Covers appRoot row) : lastOf appRoot row = lastName appRoot := by
  by_cases hrest : restText appRoot row = []
  · rw [lastOf, (restOf_eq_nil_iff hcovers).2 hrest, lastName_eq]
    rfl
  · obtain ⟨k, hroot, hk⟩ := exists_split_of_covers hcovers
    obtain ⟨k, rfl⟩ := Nat.exists_eq_succ_of_ne_zero fun hzero => hrest (hk hzero)
    have hpieces : pieces (· == '/') appRoot =
        pieces (· == '/') (rstrip '/' row.appPrefix ++ List.replicate k '/') ++ restOf appRoot row := by
      conv_lhs => rw [hroot]
      rw [List.replicate_succ', ← List.append_assoc, List.append_assoc, List.singleton_append,
        pieces_append_cons (by decide), restOf_eq hcovers]
    obtain ⟨c, rest, piece, more, -, hcons⟩ := exists_restOf_cons hcovers hrest
    rw [lastOf, lastName, hpieces, hcons, List.getLast?_append_of_ne_nil _ (List.cons_ne_nil _ _)]
    simp [List.getLast?_cons]

/-- The name of a folder itself is not all slashes. -/
theorem all_lastOf (hplain : Plain row) (hcovers : Covers appRoot row) (hnil : restOf appRoot row = [])
    (hlast : lastOf appRoot row ≠ []) : (lastOf appRoot row).all isSlash = false := by
  obtain ⟨k, hroot, -⟩ := exists_split_of_covers hcovers
  have hstrip : rstrip '/' appRoot = rstrip '/' row.appPrefix := by
    rw [hroot, (restOf_eq_nil_iff hcovers).1 hnil, List.append_nil, rstrip_append_replicate, rstrip_rstrip]
  rw [lastOf_eq hcovers, lastName_eq, hstrip] at hlast ⊢
  have hne : rstrip '/' row.appPrefix ≠ [] := fun h => hlast (by rw [h]; rfl)
  obtain ⟨a, c, hac, hc⟩ := exists_last_of_plain hplain hne
  have hslash : decide (c ≠ '/') = true := by
    rw [decide_eq_true_eq]
    rintro rfl
    cases hc
  rw [hac, List.rtakeWhile_concat_pos (fun x => decide (x ≠ '/')) a c hslash, List.all_append]
  simp [hc]

theorem all_joinNode {folder name : Path} (h : name.all isSlash = false) : (joinNode folder name).all isSlash = false := by
  rw [joinNode, List.all_append, h, Bool.and_false]

theorem suggestIn_spec {taken : List Path} {nodeDir to' : Path} {names : List (Option Path)}
    (h : suggestIn R appRoot row taken nodeDir names = some to') :
    ∃ name, some name ∈ names ∧ SameName R name (lastOf appRoot row) ∧
      (∀ other ∈ taken, sameNodePath R (joinNode nodeDir name) other = false) ∧
      (restOf appRoot row = [] → to' = joinNode nodeDir name) ∧
      sameNodePath R ((restOf appRoot row).foldl joinNode to') (joinNode nodeDir name) = true := by
  rw [suggestIn] at h
  cases hname : closestName R (lastOf appRoot row) names with
  | none =>
    rw [hname] at h
    cases h
  | some name =>
    rw [hname] at h
    dsimp only at h
    obtain ⟨hlisted, hsame⟩ := closestName_spec hname
    split_ifs at h with htaken hself hmapped hmoved hmapped hmoved
    · obtain rfl := Option.some.inj h
      refine ⟨name, hlisted, hsame, fun other hother => ?_, fun _ => rfl, by simpa using hmapped⟩
      by_contra hfree
      exact htaken (List.any_eq_true.2 ⟨other, hother, by simpa using hfree⟩)
    · obtain rfl := Option.some.inj h
      refine ⟨name, hlisted, hsame, fun other hother => ?_, fun hnil => absurd hnil hself, by simpa using hmapped⟩
      by_contra hfree
      exact htaken (List.any_eq_true.2 ⟨other, hother, by simpa using hfree⟩)

/-- What a suggestion is for: the row that `map_app_path` picks for the root is changed, and then puts the root on a listed
folder with the root's name that no other library has. -/
def FixesLibrary (R : CaseRules) (Same : Path → Path → Prop) (appRoot : Path) (mappings : List PathMapping)
    (nearby : Listings) (taken : List Path) (from' to' : Path) : Prop :=
  ∃ i row, mappings[i]? = some row ∧ row.nodePrefix = from' ∧ pickedRow appRoot mappings = some (row, i) ∧
    ∃ nodeDir names name, (some nodeDir, some names) ∈ nearby.getD [] ∧ some name ∈ names ∧
      SameName R name (lastName appRoot) ∧ (∀ other ∈ taken, sameNodePath R (joinNode nodeDir name) other = false) ∧
      ∃ path, mapAppPath appRoot (mappings.set i ⟨row.appPrefix, to'⟩) (nodeSep to') = some path ∧
        Same path (joinNode nodeDir name)

/-- **A suggested row fixes its library.** -/
theorem suggestRow_spec (R : CaseRules) (appRoot : Path) (mappings : List PathMapping) (nearby : Listings)
    (taken : List Path) (hplain : ∀ row ∈ mappings, Plain row)
    (hdistinct : mappings.Pairwise fun row other => folderOf row ≠ folderOf other) {from' to' : Path}
    (h : suggestRow R appRoot mappings nearby taken = some (from', to')) :
    FixesLibrary R (SameFolder R) appRoot mappings nearby taken from' to' := by
  unfold suggestRow at h
  rw [coveringRow_eq_pickedRow hplain hdistinct] at h
  cases hpicked : pickedRow appRoot mappings with
  | none =>
    rw [hpicked] at h
    cases h
  | some picked =>
    obtain ⟨row, i⟩ := picked
    cases nearby with
    | none =>
      rw [hpicked] at h
      cases h
    | some entries =>
      rw [hpicked] at h
      dsimp only at h
      split_ifs at h with hlast
      obtain ⟨newPrefix, hfound, hpair⟩ := Option.map_eq_some_iff.1 h
      obtain ⟨hfrom, rfl⟩ := Prod.mk.inj hpair
      obtain ⟨⟨key, value⟩, hentry, hsuggest⟩ := List.exists_of_findSome?_eq_some hfound
      obtain ⟨hget, hmatches⟩ := bestRow_spec hpicked
      have hrow := hplain row (List.mem_of_getElem? hget)
      have hcovers : Covers appRoot row := by
        rw [prefixMatches_eq hrow] at hmatches
        simpa [Covers] using hmatches
      cases key with
      | none => cases hsuggest
      | some nodeDir =>
        cases value with
        | none => cases hsuggest
        | some names =>
          obtain ⟨name, hlisted, hsame, hfree, hself, hmapped⟩ := suggestIn_spec hsuggest
          refine ⟨i, row, hget, hfrom, hpicked, nodeDir, names, name, hentry, hlisted, lastOf_eq hcovers ▸ hsame, hfree,
            ?_⟩
          have hset : pickedRow appRoot (mappings.set i ⟨row.appPrefix, newPrefix⟩) =
              some (⟨row.appPrefix, newPrefix⟩, i) :=
            @bestRow_set (fun pre => prefixMatches appRoot pre '/') (fun pre best => decide (pre.length > best.length))
              mappings i row _ hget rfl hpicked
          refine ⟨putOnNode appRoot ⟨row.appPrefix, newPrefix⟩ (nodeSep newPrefix), by rw [mapAppPath, hset]; rfl, ?_⟩
          have hcovers' : Covers appRoot ⟨row.appPrefix, newPrefix⟩ := hcovers
          refine sameFolder_putOnNode hcovers' (fun hnil => ⟨hself hnil, ?_⟩) hmapped
          have hname : name.all isSlash = false := hsame.all_eq.trans (all_lastOf hrow hcovers hnil hlast)
          exact all_joinNode hname

/-- The letters of ASCII, and no others. -/
def asciiRules : CaseRules where
  casefold c := if 65 ≤ c.toNat ∧ c.toNat ≤ 90 then [Char.ofNat (c.toNat + 32)] else [c]
  nfd := id
  casefold_slash := by
    intro c hc
    rw [isSlash, Bool.or_eq_true, decide_eq_true_eq, decide_eq_true_eq] at hc
    obtain rfl | rfl := hc <;> rfl
  casefold_keeps := by
    have hletters : ∀ n < 91, 65 ≤ n → isSlash (Char.ofNat (n + 32)) = false := by decide
    intro c hc
    split_ifs with hupper
    · refine ⟨List.cons_ne_nil _ _, fun d hd => ?_⟩
      rw [List.mem_singleton.1 hd]
      exact hletters c.toNat (by omega) hupper.1
    · refine ⟨List.cons_ne_nil _ _, fun d hd => ?_⟩
      rw [List.mem_singleton.1 hd]
      exact hc
  nfd_slashes := fun _ => rfl

/-- A Windows node has the films under `E:\Media`, not `E:\Media\Old`. -/
theorem suggestion_for_movies :
    FixesLibrary asciiRules (SameFolder asciiRules) "/data/movies".toList
      [⟨"/data".toList, "E:\\Media\\Old".toList⟩]
      (some [(some "E:\\Media".toList, some [some "Movies".toList, some "TV".toList])]) []
      "E:\\Media\\Old".toList "E:\\Media".toList :=
  suggestRow_spec asciiRules "/data/movies".toList [⟨"/data".toList, "E:\\Media\\Old".toList⟩]
    (some [(some "E:\\Media".toList, some [some "Movies".toList, some "TV".toList])]) []
    (by
      intro row hrow
      obtain rfl := List.mem_singleton.1 hrow
      exact .inr (by decide +kernel))
    (List.pairwise_singleton _ _) (by decide +kernel)

/-- Two slashes in a root stay two on the node, and the listed folder has one. A row with many slashes at its end is used for
a root that a row with more folders was changed for. -/
theorem not_fixesLibrary :
    (suggestRow asciiRules "/media/a//Movies".toList [⟨"/media".toList, "/old".toList⟩]
        (some [(some "/mnt/a".toList, some [some "Movies".toList])]) [] = some ("/old".toList, "/mnt".toList) ∧
      ¬ FixesLibrary asciiRules (fun a b => sameNodePath asciiRules a b = true) "/media/a//Movies".toList
        [⟨"/media".toList, "/old".toList⟩] (some [(some "/mnt/a".toList, some [some "Movies".toList])]) []
        "/old".toList "/mnt".toList) ∧
    (suggestRow asciiRules "/media/films".toList [⟨"/media///////".toList, "/a".toList⟩, ⟨"/media/films".toList, "/b".toList⟩]
        (some [(some "/mnt".toList, some [some "films".toList])]) [] = some ("/b".toList, "/mnt/films".toList) ∧
      ¬ FixesLibrary asciiRules (fun a b => sameNodePath asciiRules a b = true) "/media/films".toList
        [⟨"/media///////".toList, "/a".toList⟩, ⟨"/media/films".toList, "/b".toList⟩]
        (some [(some "/mnt".toList, some [some "films".toList])]) [] "/b".toList "/mnt/films".toList) := by
  refine ⟨⟨by decide +kernel, ?_⟩, by decide +kernel, ?_⟩
  · rintro ⟨i, row, -, -, hpicked, nodeDir, names, name, hentry, hname, -, -, path, hpath, hsame⟩
    have hrow : pickedRow "/media/a//Movies".toList [⟨"/media".toList, "/old".toList⟩] =
        some (⟨"/media".toList, "/old".toList⟩, 0) := by decide +kernel
    obtain ⟨rfl, rfl⟩ := Prod.mk.inj (Option.some.inj (hrow.symm.trans hpicked))
    obtain ⟨hdir, hnames⟩ := Prod.mk.inj (List.mem_singleton.1 hentry)
    obtain rfl := Option.some.inj hdir
    obtain rfl := Option.some.inj hnames
    obtain rfl := Option.some.inj (List.mem_singleton.1 hname)
    have hmapped : mapAppPath "/media/a//Movies".toList
        (List.set [⟨"/media".toList, "/old".toList⟩] 0 ⟨"/media".toList, "/mnt".toList⟩) (nodeSep "/mnt".toList) =
          some "/mnt/a//Movies".toList := by decide +kernel
    obtain rfl := Option.some.inj (hmapped.symm.trans hpath)
    revert hsame
    decide +kernel
  · rintro ⟨i, row, -, hfrom, hpicked, -⟩
    have hrow : pickedRow "/media/films".toList
        [⟨"/media///////".toList, "/a".toList⟩, ⟨"/media/films".toList, "/b".toList⟩] =
          some (⟨"/media///////".toList, "/a".toList⟩, 0) := by decide +kernel
    obtain ⟨rfl, -⟩ := Prod.mk.inj (Option.some.inj (hrow.symm.trans hpicked))
    revert hfrom
    decide +kernel

end MediaPreview.Nodes
