import MediaPreview.Previews.Bif

/-!
# BIF files round trip

What `generate_bif` writes of a folder's images is read back by `bif_reader.py` as it was, and unpacked and packed again
it is the same file. A `generate_bif` that raises leaves the target as it was.
-/

namespace MediaPreview.Previews

open LittleEndian Binary64

/-! ### What is written -/

/-- The bytes of writes that are all made. -/
def wrote : List (Option Bytes) → Option Bytes
  | [] => some []
  | none :: _ => none
  | some bytes :: writes => (wrote writes).map (bytes ++ ·)

theorem wrote_append (writes writes' : List (Option Bytes)) :
    wrote (writes ++ writes') = (wrote writes).bind fun bytes => (wrote writes').map (bytes ++ ·) := by
  induction writes with
  | nil => simp [wrote]
  | cons write writes ih =>
    cases write with
    | none => rfl
    | some bytes =>
      rw [List.cons_append, wrote, ih, wrote]
      cases wrote writes <;> cases wrote writes' <;> simp

theorem writeAll_of_wrote {fails : ℕ → Bool} (hf : ∀ k, fails k = false) {writes : List (Option Bytes)} {bytes : Bytes}
    (h : wrote writes = some bytes) (k : ℕ) (written : Bytes) :
    writeAll fails k writes written = (written ++ bytes, true) := by
  induction writes generalizing bytes k written with
  | nil =>
    obtain rfl := Option.some.inj h
    rw [writeAll, List.append_nil]
  | cons write writes ih =>
    cases write with
    | none => cases h
    | some first =>
      obtain ⟨rest, hrest, rfl⟩ := Option.map_eq_some_iff.1 h
      rw [writeAll, hf k, if_neg Bool.false_ne_true, ih hrest, List.append_assoc]

theorem wrote_of_writeAll {fails : ℕ → Bool} {writes : List (Option Bytes)} {k : ℕ} {written out : Bytes}
    (h : writeAll fails k writes written = (out, true)) : ∃ bytes, wrote writes = some bytes ∧ out = written ++ bytes := by
  induction writes generalizing k written with
  | nil =>
    obtain ⟨rfl, -⟩ := Prod.mk.inj h
    exact ⟨[], rfl, (List.append_nil _).symm⟩
  | cons write writes ih =>
    cases write with
    | none => cases h
    | some first =>
      rw [writeAll] at h
      split_ifs at h with hk
      · cases h
      · obtain ⟨bytes, hbytes, rfl⟩ := ih h
        exact ⟨first ++ bytes, by rw [wrote, hbytes, Option.map_some], List.append_assoc ..⟩

/-- The index's bytes. -/
def indexBytes : List ℕ → ℕ → ℕ → Bytes
  | [], _, imageIndex => u32 sentinelTimestamp ++ u32 imageIndex
  | size :: sizes, timestamp, imageIndex =>
    u32 timestamp ++ u32 imageIndex ++ indexBytes sizes (timestamp + 1) (imageIndex + size)

/-- A BIF. -/
def bifBytes (images : List Bytes) (interval : ℕ) : Bytes :=
  bifMagic ++ u32 0 ++ u32 images.length ++ u32 (1000 * interval) ++ List.replicate 44 0 ++
    indexBytes (images.map List.length) 0 (64 + (8 + 8 * images.length)) ++ images.flatten

theorem packU32_eq {n : ℕ} (h : n < 4294967296) : packU32 n = some (u32 n) := if_pos h

theorem wrote_index {sizes : List ℕ} {timestamp imageIndex : ℕ} (ht : timestamp + sizes.length < 4294967296)
    (hi : imageIndex + sizes.sum < 4294967296) :
    wrote (indexWrites sizes timestamp imageIndex) = some (indexBytes sizes timestamp imageIndex) := by
  induction sizes generalizing timestamp imageIndex with
  | nil =>
    rw [List.sum_nil, Nat.add_zero] at hi
    rw [indexWrites, packU32_eq hi, packU32_eq (by decide)]
    simp [wrote, indexBytes]
  | cons size sizes ih =>
    rw [List.sum_cons] at hi
    rw [List.length_cons] at ht
    have hrest : wrote (indexWrites sizes (timestamp + 1) (imageIndex + size)) =
        some (indexBytes sizes (timestamp + 1) (imageIndex + size)) := ih (by omega) (by omega)
    rw [indexWrites, packU32_eq (by omega), packU32_eq (by omega)]
    simp [wrote, hrest, indexBytes]

theorem wrote_data (images : List Bytes) :
    wrote (images.flatMap fun image => [some [], some image]) = some images.flatten := by
  induction images with
  | nil => rfl
  | cons image images ih => simp [wrote, ih]

/-- **What the writes make is a BIF**, where every number fits its field. -/
theorem wrote_bif {images : List Bytes} {interval : ℕ} (hi : 1000 * interval < 4294967296)
    (hsize : 64 + (8 + 8 * images.length) + images.flatten.length < 4294967296) :
    wrote (bifWrites images interval) = some (bifBytes images interval) := by
  have hsum : (images.map List.length).sum = images.flatten.length := List.length_flatten.symm
  have hindex : wrote (indexWrites (images.map List.length) 0 (64 + (8 + 8 * images.length))) =
      some (indexBytes (images.map List.length) 0 (64 + (8 + 8 * images.length))) := by
    apply wrote_index
    · rw [List.length_map]
      omega
    · omega
  unfold bifWrites
  rw [wrote_append, wrote_append, wrote_append, hindex, wrote_data, packU32_eq hi, packU32_eq (by omega),
    packU32_eq (by omega)]
  simp [wrote, bifBytes]

/-- Numbers that do not fit raise. -/
theorem interval_of_wrote {images : List Bytes} {interval : ℕ} {bytes : Bytes}
    (h : wrote (bifWrites images interval) = some bytes) : 1000 * interval < 4294967296 := by
  by_contra hi
  have hnone : packU32 (1000 * interval) = none := if_neg hi
  unfold bifWrites at h
  rw [hnone] at h
  cases h0 : packU32 0 <;> cases hn : packU32 images.length <;> simp [wrote, h0, hn] at h

/-! ### What is read -/

/-- The entries of an index. -/
def indexEntries : List ℕ → ℕ → ℕ → List (ℕ × ℕ)
  | [], _, _ => []
  | size :: sizes, timestamp, imageIndex =>
    (timestamp, imageIndex) :: indexEntries sizes (timestamp + 1) (imageIndex + size)

theorem map_fst_indexEntries (sizes : List ℕ) (timestamp imageIndex : ℕ) :
    (indexEntries sizes timestamp imageIndex).map Prod.fst = List.range' timestamp sizes.length := by
  induction sizes generalizing timestamp imageIndex with
  | nil => rfl
  | cons size sizes ih => rw [indexEntries, List.map_cons, ih, List.length_cons, List.range'_succ]

/-- The frame after the last one begins where the frames end. -/
theorem offsets_eq_cons (sizes : List ℕ) (timestamp imageIndex : ℕ) :
    (indexEntries sizes timestamp imageIndex).map Prod.snd ++ [imageIndex + sizes.sum] =
      imageIndex :: ((indexEntries sizes timestamp imageIndex).map Prod.snd ++ [imageIndex + sizes.sum]).tail := by
  cases sizes with
  | nil => simp [indexEntries]
  | cons size sizes => simp [indexEntries]

/-- **Sizes are read as differences of offsets.** -/
theorem sizes_of_offsets (sizes : List ℕ) (timestamp imageIndex : ℕ) :
    (((indexEntries sizes timestamp imageIndex).map Prod.snd ++ [imageIndex + sizes.sum]).zip
      ((indexEntries sizes timestamp imageIndex).map Prod.snd ++ [imageIndex + sizes.sum]).tail).map
        (fun pair => (pair.2 : ℤ) - pair.1) = sizes.map fun size : ℕ => (size : ℤ) := by
  induction sizes generalizing timestamp imageIndex with
  | nil => rfl
  | cons size sizes ih =>
    have hrest := ih (timestamp + 1) (imageIndex + size)
    have hcons := offsets_eq_cons sizes (timestamp + 1) (imageIndex + size)
    rw [List.sum_cons, ← Nat.add_assoc]
    simp only [indexEntries, List.map_cons, List.cons_append, List.tail_cons]
    generalize ((indexEntries sizes (timestamp + 1) (imageIndex + size)).map Prod.snd ++
      [imageIndex + size + sizes.sum]) = offsets at hrest hcons ⊢
    rw [hcons, List.zip_cons_cons, ← hcons, List.map_cons, hrest]
    congr 1
    push_cast
    omega

/-- A frame begins after those before it. -/
theorem offset_getD {sizes : List ℕ} {i : ℕ} (hi : i < sizes.length) (timestamp imageIndex : ℕ) :
    ((indexEntries sizes timestamp imageIndex).map Prod.snd).getD i 0 = imageIndex + (sizes.take i).sum := by
  induction sizes generalizing timestamp imageIndex i with
  | nil => cases hi
  | cons size sizes ih =>
    cases i with
    | zero => rfl
    | succ i =>
      rw [indexEntries, List.map_cons, List.getD_cons_succ, ih (Nat.lt_of_succ_lt_succ hi), List.take_succ_cons,
        List.sum_cons, Nat.add_assoc]

theorem readIndex_indexBytes {sizes : List ℕ} {timestamp imageIndex : ℕ} (ht : timestamp + sizes.length < 4294967296)
    (hi : imageIndex + sizes.sum < 4294967296) (rest : Bytes) :
    readIndex sizes.length (indexBytes sizes timestamp imageIndex ++ rest) =
      some (indexEntries sizes timestamp imageIndex, u32 sentinelTimestamp ++ (u32 (imageIndex + sizes.sum) ++ rest)) := by
  induction sizes generalizing timestamp imageIndex with
  | nil => simp [readIndex, indexBytes, indexEntries]
  | cons size sizes ih =>
    rw [List.sum_cons] at hi
    rw [List.length_cons] at ht
    have hrest : readIndex sizes.length (indexBytes sizes (timestamp + 1) (imageIndex + size) ++ rest) =
        some (indexEntries sizes (timestamp + 1) (imageIndex + size),
          u32 sentinelTimestamp ++ (u32 (imageIndex + size + sizes.sum) ++ rest)) := ih (by omega) (by omega)
    rw [List.length_cons, readIndex, indexBytes, List.append_assoc, List.append_assoc, readU32_u32 (by omega)]
    simp only [Option.bind_eq_bind, Option.bind_some]
    rw [readU32_u32 (by omega)]
    simp only [Option.bind_some]
    rw [hrest]
    simp [indexEntries, Nat.add_assoc]

/-! ### The interval -/

/-- Timestamps one apart. -/
theorem steps_range (start count : ℕ) :
    (((List.range' start count).zip (List.range' start count).tail).filter fun step => step.1 < step.2).map
      (fun step => step.2 - step.1) = List.replicate (count - 1) 1 := by
  induction count generalizing start with
  | zero => rfl
  | succ count ih =>
    cases count with
    | zero => rfl
    | succ count =>
      have hrest := ih (start + 1)
      rw [List.range'_succ, List.tail_cons] at hrest
      rw [List.range'_succ, List.tail_cons, List.range'_succ, List.zip_cons_cons, List.filter_cons_of_pos (by simp),
        List.map_cons, hrest, Nat.add_sub_cancel, Nat.add_sub_cancel]
      simp [List.replicate_succ]

/-- **The interval is the header's own** where the timestamps are one apart. -/
theorem intervalFromIndex_range {multiplierMs : ℕ} (hpos : 0 < multiplierMs) (hlt : multiplierMs < 4294967296)
    (count : ℕ) : intervalFromIndex multiplierMs (List.range' 0 count) = multiplierMs := by
  have hsorted : (List.replicate (count - 1) 1).mergeSort (fun a b => a ≤ b) = List.replicate (count - 1) 1 :=
    List.perm_replicate.1 (List.mergeSort_perm _ _)
  unfold intervalFromIndex
  simp only [steps_range, if_neg hpos.ne']
  split_ifs with hnone
  · rfl
  · have hcount : 0 < count - 1 := by
      refine Nat.pos_of_ne_zero fun hzero => hnone ?_
      rw [hzero]
      rfl
    unfold medianTimes
    simp only [hsorted, List.length_replicate]
    have hget : ∀ i, i < count - 1 → (List.replicate (count - 1) 1).getD i 0 = 1 := fun i hi => by
      simp [List.getD_eq_getElem?_getD, hi]
    split_ifs with hodd
    · rw [hget _ (by omega), Nat.cast_one, one_mul]
    -- the mean of the two in the middle, as a float
    · have hmean : fl (((1 + 1 : ℕ) : ℚ) / 2) = 1 := by
        have hone : fl ((1 : ℤ) : ℚ) = ((1 : ℤ) : ℚ) := fl_intCast (by norm_num)
        norm_num at hone ⊢
        exact hone
      have hunit : fl (multiplierMs : ℚ) = multiplierMs := by
        have hcast : fl ((multiplierMs : ℤ) : ℚ) = ((multiplierMs : ℤ) : ℚ) := by
          apply fl_intCast
          rw [abs_of_nonneg (Int.natCast_nonneg _)]
          omega
        exact_mod_cast hcast
      rw [hget _ (by omega), hget _ (by omega), hmean, one_mul, hunit]
      exact_mod_cast roundEven_intCast multiplierMs

/-! ### Reading a BIF -/

theorem length_indexBytes (sizes : List ℕ) (timestamp imageIndex : ℕ) :
    (indexBytes sizes timestamp imageIndex).length = 8 + 8 * sizes.length := by
  induction sizes generalizing timestamp imageIndex with
  | nil => simp [indexBytes]
  | cons size sizes ih =>
    simp only [indexBytes, List.length_append, ih, length_u32, List.length_cons]
    omega

/-- The metadata of a BIF. -/
def bifMetadata (images : List Bytes) (interval : ℕ) : BifMetadata where
  version := 0
  frameCount := images.length
  frameIntervalMs := (1000 * interval : ℕ)
  fileSize := (bifBytes images interval).length
  frameOffsets := (indexEntries (images.map List.length) 0 (64 + (8 + 8 * images.length))).map Prod.snd
  frameSizes := images.map fun image => (image.length : ℤ)
  headerIntervalMs := 1000 * interval

variable {images : List Bytes} {interval : ℕ}

/-- **The metadata is read as it was written.** -/
theorem readBifMetadata_bifBytes (hpos : 0 < interval) (hi : 1000 * interval < 4294967296)
    (hsize : 64 + (8 + 8 * images.length) + images.flatten.length < 4294967296) :
    readBifMetadata (bifBytes images interval) = .ok (bifMetadata images interval) := by
  have hsum : (images.map List.length).sum = images.flatten.length := List.length_flatten.symm
  have hmagic : (bifBytes images interval).take 8 = bifMagic := by simp [bifBytes, bifMagic]
  have hheader : (bifBytes images interval).drop 8 = u32 0 ++ (u32 images.length ++ (u32 (1000 * interval) ++
      (List.replicate 44 0 ++ (indexBytes (images.map List.length) 0 (64 + (8 + 8 * images.length)) ++
        images.flatten)))) := by
    simp [bifBytes, bifMagic]
  have hindex : (bifBytes images interval).drop 64 =
      indexBytes (images.map List.length) 0 (64 + (8 + 8 * images.length)) ++ images.flatten := by
    have hsplit : bifBytes images interval = (bifMagic ++ u32 0 ++ u32 images.length ++ u32 (1000 * interval) ++
        List.replicate 44 0) ++ (indexBytes (images.map List.length) 0 (64 + (8 + 8 * images.length)) ++
          images.flatten) := by
      simp only [bifBytes, List.append_assoc]
    rw [hsplit]
    exact List.drop_left' (by simp [bifMagic])
  have hread : readIndex (images.map List.length).length
      (indexBytes (images.map List.length) 0 (64 + (8 + 8 * images.length)) ++ images.flatten) =
      some (indexEntries (images.map List.length) 0 (64 + (8 + 8 * images.length)),
        u32 sentinelTimestamp ++ (u32 (64 + (8 + 8 * images.length) + (images.map List.length).sum) ++
          images.flatten)) := by
    apply readIndex_indexBytes
    · rw [List.length_map]
      omega
    · omega
  rw [List.length_map] at hread
  unfold readBifMetadata
  rw [if_neg (not_not.2 hmagic), hheader, readU32_u32 (by decide)]
  simp only [orShort, bind, Except.bind]
  rw [readU32_u32 (by omega)]
  simp only
  rw [readU32_u32 hi]
  simp only
  rw [hindex, hread]
  simp only
  rw [readU32_u32 (by decide)]
  simp only
  rw [readU32_u32 (by omega)]
  simp only [if_neg (not_not.2 rfl)]
  unfold BifMetadata.ofIndex
  simp only [sizes_of_offsets, map_fst_indexEntries, intervalFromIndex_range (by omega : 0 < 1000 * interval) hi,
    List.map_map]
  rfl

/-- **A frame is read as it was written.** -/
theorem frame_bifBytes {i : ℕ} (h : i < images.length) :
    (bifMetadata images interval).frame (bifBytes images interval) i = .ok images[i] := by
  have hi : i < (images.map List.length).length := by rwa [List.length_map]
  have hoffset := offset_getD hi 0 (64 + (8 + 8 * images.length))
  obtain ⟨head, hlength, hfile⟩ : ∃ head : Bytes, head.length = 64 + (8 + 8 * images.length) ∧
      bifBytes images interval = head ++ images.flatten := by
    refine ⟨_, ?_, rfl⟩
    simp only [List.length_append, length_u32, List.length_replicate, length_indexBytes, List.length_map]
    rfl
  have hsizes : ((images.map fun image => (image.length : ℤ)).getD i 0) = (images[i].length : ℤ) := by
    simp [List.getD_eq_getElem?_getD, h]
  show readAt _ _ _ = _
  unfold readAt bifMetadata
  simp only [hoffset, hsizes]
  rw [if_neg (by omega), if_neg (by omega), Int.toNat_natCast, hfile, ← hlength, List.drop_append,
    List.drop_of_length_le (Nat.le_add_right _ _), List.nil_append, Nat.add_sub_cancel_left, List.drop_sum_flatten,
    List.drop_eq_getElem_cons h, List.flatten_cons, List.take_left]

/-- **Offsets and sizes are as many as frames**, in whatever is read. -/
theorem length_of_readBifMetadata {file : Bytes} {m : BifMetadata} (h : readBifMetadata file = .ok m) :
    m.frameOffsets.length = m.frameCount ∧ m.frameSizes.length = m.frameCount := by
  have hcount : ∀ {count : ℕ} {bytes rest : Bytes} {entries : List (ℕ × ℕ)},
      readIndex count bytes = some (entries, rest) → entries.length = count := by
    intro count
    induction count with
    | zero =>
      intro bytes rest entries h
      obtain ⟨rfl, -⟩ := Prod.mk.inj (Option.some.inj h)
      rfl
    | succ count ih =>
      intro bytes rest entries h
      simp only [readIndex, Option.bind_eq_bind, Option.bind_eq_some_iff] at h
      obtain ⟨⟨_, _⟩, -, ⟨_, _⟩, -, ⟨entries', rest'⟩, hentries, hread⟩ := h
      obtain ⟨rfl, -⟩ := Prod.mk.inj (Option.some.inj hread)
      rw [List.length_cons, ih hentries]
  have hok : ∀ {α : Type} {o : Option α} {β : Type} {f : α → Except BifError β} {b : β},
      (orShort o >>= f) = .ok b → ∃ a, o = some a ∧ f a = .ok b := by
    intro α o β f b h
    cases o with
    | none => cases h
    | some a => exact ⟨a, rfl, h⟩
  unfold readBifMetadata at h
  split_ifs at h with hmagic
  obtain ⟨_, -, h⟩ := hok h
  obtain ⟨⟨frameCount, _⟩, -, h⟩ := hok h
  obtain ⟨_, -, h⟩ := hok h
  obtain ⟨⟨entries, _⟩, hentries, h⟩ := hok h
  obtain ⟨_, -, h⟩ := hok h
  obtain ⟨_, -, h⟩ := hok h
  dsimp only at h
  split_ifs at h with hsentinel
  obtain rfl := Except.ok.inj h
  have hlength := hcount hentries
  simp [BifMetadata.ofIndex, hlength]

/-! ### Unpacking -/

theorem pad_five {n : ℕ} (hn : n < 10 ^ 5) : frameName n = String.ofList (Digits.pad 5 n ++ ['.', 'j', 'p', 'g']) := by
  have hlog : Nat.log 10 n < 5 := Nat.log_lt_of_lt_pow' (by decide) hn
  rw [frameName, max_eq_left (by omega)]

/-- Names of frames are those of images. -/
theorem isImage_frameName {n : ℕ} (hn : n < 10 ^ 5) : isImage (frameName n) = true := by
  have hdigit : ∀ d < 10, Digits.digit d ≠ '.' := by decide
  have hlast := hdigit (n % 10) (Nat.mod_lt _ (by decide))
  rw [isImage, splitextExt, pad_five hn, Digits.pad]
  simp [hlast]

/-- **Names of frames compare as their numbers.** -/
theorem frameName_lt {m n : ℕ} (hm : m < 10 ^ 5) (hn : n < 10 ^ 5) (h : m < n) : frameName m < frameName n := by
  rw [pad_five hm, pad_five hn, String.lt_iff_toList_lt, String.toList_ofList, String.toList_ofList,
    Digits.pad_append_lt hm hn]
  exact .inl h

/-- The names of all frames. -/
def frameNames (count : ℕ) : List String := (List.range count).map fun index => frameName (index + 1)

theorem pairwise_frameNames {count : ℕ} (h : count ≤ 99999) : (frameNames count).Pairwise (· < ·) := by
  rw [frameNames, List.pairwise_map]
  refine List.pairwise_lt_range.imp_of_mem fun {a b} ha hb hlt => ?_
  rw [List.mem_range] at ha hb
  exact frameName_lt (by omega) (by omega) (by omega)

/-- **However a folder of frames is listed**, its images are sorted by number. -/
theorem imageNames_of_perm {folder : List (String × Bytes)} {count : ℕ} (h : count ≤ 99999)
    (hnames : (folder.map Prod.fst).Perm (frameNames count)) : imageNames folder = frameNames count := by
  have hsorted := pairwise_frameNames h
  have hall : (folder.map Prod.fst).filter isImage = folder.map Prod.fst := by
    rw [List.filter_eq_self]
    intro name hname
    rw [hnames.mem_iff, frameNames, List.mem_map] at hname
    obtain ⟨index, hindex, rfl⟩ := hname
    rw [List.mem_range] at hindex
    exact isImage_frameName (by omega)
  have hpairwise : (imageNames folder).Pairwise (· ≤ ·) := by
    refine (List.pairwise_mergeSort ?_ ?_ _).imp fun hle => of_decide_eq_true hle
    · intro a b c hab hbc
      exact decide_eq_true ((of_decide_eq_true hab).trans (of_decide_eq_true hbc))
    · intro a b
      rw [Bool.or_eq_true, decide_eq_true_eq, decide_eq_true_eq]
      exact le_total a b
  have hperm : (imageNames folder).Perm (frameNames count) := by
    rw [imageNames, hall]
    exact (List.mergeSort_perm _ _).trans hnames
  exact hperm.eq_of_pairwise (fun a b _ _ => le_antisymm) hpairwise (hsorted.imp le_of_lt)

/-- A file is found by its name, if no other has it. -/
theorem lookup_of_mem {folder : List (String × Bytes)} (hn : (folder.map Prod.fst).Nodup) {name : String}
    {bytes : Bytes} (h : (name, bytes) ∈ folder) : folder.lookup name = some bytes := by
  induction folder with
  | nil => cases h
  | cons file folder ih =>
    obtain ⟨hnot, hn⟩ := List.nodup_cons.1 hn
    obtain rfl | h := List.mem_cons.1 h
    · exact List.lookup_cons_self
    · have hne : (name == file.1) = false := by
        rw [beq_eq_false_iff_ne]
        rintro rfl
        exact hnot (List.mem_map.2 ⟨_, h, rfl⟩)
      rw [List.lookup_cons, hne]
      exact ih hn h

/-- What is written of the images, each under its number. -/
def numbered (images : List Bytes) : List (String × Bytes) :=
  (List.range images.length).map fun index => (frameName (index + 1), images.getD index [])

theorem getD_of_lt {i : ℕ} (h : i < images.length) : images.getD i [] = images[i] := by
  rw [List.getD_eq_getElem?_getD, List.getElem?_eq_getElem h, Option.getD_some]

/-- What goes well for each index goes well for all. -/
theorem mapM_ok {α β : Type} {f : α → Except BifError β} {g : α → β} : ∀ {l : List α}, (∀ a ∈ l, f a = .ok (g a)) →
    l.mapM f = .ok (l.map g)
  | [], _ => rfl
  | a :: l, h => by
    rw [List.mapM_cons, h a (.head _), mapM_ok fun a' ha' => h a' (.tail _ ha')]
    rfl

/-- **An unpacked BIF is the folder of its images.** -/
theorem images_unpacked {folder : List (String × Bytes)} (hcount : images.length ≤ 99999)
    (h : folder.Perm (numbered images)) :
    Previews.images folder = images := by
  have hnames : (folder.map Prod.fst).Perm (frameNames images.length) := by
    have hmap := h.map Prod.fst
    rwa [numbered, List.map_map] at hmap
  have hn : (folder.map Prod.fst).Nodup := by
    rw [hnames.nodup_iff]
    exact (pairwise_frameNames hcount).imp ne_of_lt
  rw [Previews.images, imageNames_of_perm hcount hnames, frameNames, List.map_map]
  refine List.ext_getElem (by simp) fun i hi hi' => ?_
  rw [List.getElem_map, List.getElem_range, Function.comp]
  have hmem : (frameName (i + 1), images[i]) ∈ folder := by
    rw [h.mem_iff, numbered, List.mem_map]
    exact ⟨i, List.mem_range.2 hi', by rw [getD_of_lt hi']⟩
  rw [content, lookup_of_mem hn hmem]
  rfl

/-! ### The round trip -/

/-- Whether `generate_bif` gets as far as its staging file. -/
theorem generateBif_eq (fails : BifStep → Bool) (refused : Bool) (folder : List (String × Bytes)) (interval : ℕ)
    (files : BifFiles) :
    ∃ legacy, generateBif fails refused folder interval files = ({ files with legacy := legacy }, false) ∨
      files.temp = none ∧
        let written := writeAll (fun k => fails (.write k)) 0 (bifWrites (Previews.images folder) interval) []
        generateBif fails refused folder interval files =
          if written.2 && !fails .keepOwner && !fails .beforePublish && !fails .replace then
            (⟨some written.1, legacy, none⟩, true)
          else (⟨files.target, legacy, if fails .removeTemp then some written.1 else none⟩, false) := by
  cases hstart : fails .list || Previews.images folder = [] || fails .dropLegacy with
  | true => exact ⟨files.legacy, .inl (if_pos hstart)⟩
  | false =>
    refine ⟨if refused then files.legacy else none, ?_⟩
    have hlegacy : (if refused then files else { files with legacy := none }) =
        { files with legacy := if refused then files.legacy else none } := by cases refused <;> rfl
    unfold generateBif
    rw [if_neg (by rw [hstart]; exact Bool.false_ne_true), hlegacy]
    dsimp only
    cases hcreate : fails .create || files.temp.isSome with
    | true => exact .inl (if_pos rfl)
    | false =>
      refine .inr ⟨?_, if_neg Bool.false_ne_true⟩
      rw [Bool.or_eq_false_iff, Option.isSome_eq_false_iff, Option.isNone_iff_eq_none] at hcreate
      exact hcreate.2

/-- **What a run leaves**: a BIF at the target if it returned, and otherwise the target as it was. -/
theorem generateBif_spec (fails : BifStep → Bool) (refused : Bool) (folder : List (String × Bytes)) (interval : ℕ)
    (files : BifFiles) :
    let made := generateBif fails refused folder interval files
    (made.2 = true → ∃ bytes, wrote (bifWrites (Previews.images folder) interval) = some bytes ∧
      made.1.target = some bytes ∧ made.1.temp = none) ∧
    (made.2 = false → made.1.target = files.target ∧ (fails .removeTemp = false → made.1.temp = files.temp)) := by
  obtain ⟨legacy, hmade | ⟨htemp, hmade⟩⟩ := generateBif_eq fails refused folder interval files
  · simp [hmade]
  · dsimp only at hmade ⊢
    rw [hmade, htemp]
    split
    · rename_i hdone
      simp only [Bool.and_eq_true] at hdone
      refine ⟨fun _ => ?_, fun h => by cases h⟩
      obtain ⟨bytes, hwrote, hout⟩ := wrote_of_writeAll (Prod.ext rfl hdone.1.1.1)
      exact ⟨bytes, hwrote, congrArg some hout, rfl⟩
    · refine ⟨fun h => (by cases h), fun _ => ⟨rfl, fun hremove => ?_⟩⟩
      simp [hremove]

/-- A run none of whose steps fails returns, if there is something to write and every number fits. -/
theorem returns_of_wrote {fails : BifStep → Bool} (hf : ∀ step, fails step = false) {refused : Bool}
    {folder : List (String × Bytes)} {bytes : Bytes} (hne : Previews.images folder ≠ [])
    (h : wrote (bifWrites (Previews.images folder) interval) = some bytes) {files : BifFiles} (ht : files.temp = none) :
    (generateBif fails refused folder interval files).2 = true := by
  have hall := writeAll_of_wrote (fun _ => rfl : ∀ k, (fun _ => false) k = false) h 0 []
  unfold generateBif
  cases refused <;> simp [hf, hne, ht, hall]

/-- Packing the folder makes this BIF: no run that returns leaves another, and one whose steps do not fail returns. -/
def Packs (folder : List (String × Bytes)) (interval : ℕ) (file : Bytes) : Prop :=
  ∀ (fails : BifStep → Bool) (refused : Bool) (files : BifFiles),
    let made := generateBif fails refused folder interval files
    (made.2 = true → made.1.target = some file ∧ made.1.temp = none) ∧
    ((∀ step, fails step = false) → files.temp = none → made.2 = true)

theorem packs_of_wrote {folder : List (String × Bytes)} {bytes : Bytes} (hne : Previews.images folder ≠ [])
    (h : wrote (bifWrites (Previews.images folder) interval) = some bytes) : Packs folder interval bytes := by
  intro fails refused files
  refine ⟨fun hmade => ?_, fun hf ht => returns_of_wrote hf hne h ht⟩
  obtain ⟨bytes', hwrote, htarget, htemp⟩ := (generateBif_spec fails refused folder interval files).1 hmade
  rw [h] at hwrote
  obtain rfl := Option.some.inj hwrote
  exact ⟨htarget, htemp⟩

/-- The readers find these images in a BIF. -/
structure Reads (images : List Bytes) (interval : ℕ) (file : Bytes) : Prop where
  /-- `read_bif_metadata`. -/
  metadata : ∃ m, readBifMetadata file = .ok m ∧ m.version = 0 ∧ m.frameCount = images.length ∧
    m.headerIntervalMs = 1000 * interval ∧ m.frameIntervalMs = (1000 * interval : ℕ)
  /-- `read_bif_frame`. -/
  frame : ∀ (i : ℕ) (h : i < images.length), readBifFrame file i = .ok images[i]
  /-- `unpack_bif_to_jpegs`, and packing what it wrote, in whatever order that is listed. -/
  repack : ∃ unpacked, unpackBifToJpegs file = .ok unpacked ∧
    ∀ folder : List (String × Bytes), folder.Perm unpacked → Packs folder interval file

/-- **A BIF is read as it was written.** -/
theorem reads_bifBytes (hne : images ≠ []) (hcount : images.length ≤ 99999) (hpos : 0 < interval)
    (hi : 1000 * interval < 4294967296)
    (hsize : 64 + (8 + 8 * images.length) + images.flatten.length < 4294967296) :
    Reads images interval (bifBytes images interval) := by
  have hread := readBifMetadata_bifBytes hpos hi hsize
  have hunpack : unpackBifToJpegs (bifBytes images interval) = .ok (numbered images) := by
    rw [unpackBifToJpegs, hread]
    refine mapM_ok fun index hindex => ?_
    have hlt : index < images.length := List.mem_range.1 hindex
    rw [frame_bifBytes hlt, getD_of_lt hlt]
    rfl
  refine ⟨⟨_, hread, rfl, rfl, rfl, rfl⟩, fun i h => ?_, ⟨_, hunpack, fun folder hperm => ?_⟩⟩
  · have hin : ¬((i : ℤ) < 0 ∨ ((bifMetadata images interval).frameCount : ℤ) ≤ i) := by
      show ¬((i : ℤ) < 0 ∨ (images.length : ℤ) ≤ i)
      omega
    rw [readBifFrame, hread]
    show (if _ then _ else _) = _
    rw [if_neg hin, Int.toNat_natCast, frame_bifBytes h]
  · have himages : Previews.images folder = images := images_unpacked hcount hperm
    apply packs_of_wrote
    · rwa [himages]
    · rw [himages]
      exact wrote_bif hi hsize

/-- **BIFs round trip**, offsets and sizes are always as many as frames, and a run that raises keeps the target and
leaves nothing beside it unless its staging file could not be removed. -/
theorem generateBif_round_trip {folder : List (String × Bytes)} (hne : Previews.images folder ≠ [])
    (hcount : (Previews.images folder).length ≤ 99999) (hpos : 0 < interval) (hi : 1000 * interval < 4294967296)
    (hsize : 64 + (8 + 8 * (Previews.images folder).length) + (Previews.images folder).flatten.length < 4294967296) :
    (∃ file, Packs folder interval file ∧ Reads (Previews.images folder) interval file) ∧
    (∀ (file : Bytes) (m : BifMetadata), readBifMetadata file = .ok m →
      m.frameOffsets.length = m.frameCount ∧ m.frameSizes.length = m.frameCount) ∧
    ∀ (fails : BifStep → Bool) (refused : Bool) (folder' : List (String × Bytes)) (interval' : ℕ) (files : BifFiles),
      (generateBif fails refused folder' interval' files).2 = false →
      (generateBif fails refused folder' interval' files).1.target = files.target ∧
      (fails .removeTemp = false → (generateBif fails refused folder' interval' files).1.temp = files.temp) :=
  ⟨⟨_, packs_of_wrote hne (wrote_bif hi hsize), reads_bifBytes hne hcount hpos hi hsize⟩,
    fun _ _ h => length_of_readBifMetadata h,
    fun fails refused folder' interval' files => (generateBif_spec fails refused folder' interval' files).2⟩

/-- A folder of one image. -/
def oneFrame : List (String × Bytes) := [("00001.jpg", [0xFF, 0xD8])]

theorem images_oneFrame : Previews.images oneFrame = [[0xFF, 0xD8]] := by
  have hnames : (oneFrame.map Prod.fst).filter isImage = ["00001.jpg"] := by decide
  rw [Previews.images, imageNames, hnames, List.mergeSort_singleton]
  decide

theorem generateBif_round_trip_oneFrame :
    ∃ file, Packs oneFrame 2 file ∧ Reads (Previews.images oneFrame) 2 file :=
  (generateBif_round_trip (by rw [images_oneFrame]; decide) (by rw [images_oneFrame]; decide) (by decide) (by decide)
    (by rw [images_oneFrame]; decide)).1

/-- The interval has 32 bits in the header, and a staging file that cannot be removed stays. -/
theorem generateBif_oneFrame :
    (∀ file, ¬Packs oneFrame 4294968 file) ∧
    ∃ fails : BifStep → Bool, (generateBif fails false oneFrame 2 ⟨none, none, none⟩).2 = false ∧
      (generateBif fails false oneFrame 2 ⟨none, none, none⟩).1.temp ≠ none := by
  constructor
  · intro file h
    have hmade := (h (fun _ => false) false ⟨none, none, none⟩).2 (fun _ => rfl) rfl
    obtain ⟨bytes, hwrote, -⟩ := (generateBif_spec _ _ _ _ _).1 hmade
    exact absurd (interval_of_wrote hwrote) (by decide)
  · refine ⟨fun step => match step with | .replace | .removeTemp => true | _ => false, ?_⟩
    simp [generateBif, images_oneFrame]

end MediaPreview.Previews
