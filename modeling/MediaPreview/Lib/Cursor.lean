import Mathlib.Data.List.DropRight
import Mathlib.Data.Nat.Notation

/-!
# Reading a log that keeps its last entries

A writer numbers its entries from 0 and keeps the last `cap` of them (`List.rtake`). A reader asks for the entries from
a number on (`since`), takes down what it is given, and asks from the writer's next number the next time. However far
apart its readings are, it takes down no entry twice and none out of order, and has the last `cap` entries there were at
its last reading (`Reads.read`); when no reading is more than `cap` entries behind it has them all (`read_whole`).
-/

namespace MediaPreview.Cursor

variable {α : Type*} {number : α → ℕ} {cap cursor i : ℕ} {all seen : List α} {a : α}

/-- The entries are numbered from 0 in their order. -/
def Numbered (number : α → ℕ) (all : List α) : Prop := all.map number = List.range all.length

/-- What is kept of the entries numbered `i` and on. -/
def since (number : α → ℕ) (i : ℕ) (kept : List α) : List α := kept.filter fun a => i ≤ number a

/-- The next entry has the next number. -/
theorem Numbered.add (h : Numbered number all) (ha : number a = all.length) : Numbered number (all ++ [a]) := by
  rw [Numbered, List.map_append, h, List.map_singleton, ha, List.length_append, List.length_singleton,
    List.range_succ]

theorem Numbered.take (h : Numbered number all) (n : ℕ) : Numbered number (all.take n) := by
  rw [Numbered, List.map_take, h, List.take_range, List.length_take]

/-- The last entries kept, once there is one more. -/
theorem rtake_concat : (all.rtake cap ++ [a]).rtake cap = (all ++ [a]).rtake cap := by
  cases cap with
  | zero => rw [List.rtake_zero, List.rtake_zero]
  | succ n =>
    rw [List.rtake_concat_succ, List.rtake_concat_succ, List.append_cancel_right_eq, List.rtake, List.rtake, List.rtake,
      List.drop_drop, List.length_drop]
    exact congrArg (List.drop · all) (by omega)

/-- The entries from a number on are those left when the ones before are dropped. -/
theorem Numbered.since_drop (h : Numbered number all) (n : ℕ) : since number i (all.drop n) = all.drop (max i n) := by
  have hnumber : ∀ k (hk : k < all.length), number all[k] = k := by
    intro k hk
    have hmap : (all.map number)[k]? = some k := by
      rw [h, List.getElem?_range hk]
    rw [List.getElem?_map, List.getElem?_eq_getElem hk] at hmap
    exact Option.some.inj hmap
  have hsplit : all.drop n = (all.drop n).take (i - n) ++ all.drop (max i n) := by
    conv_lhs => rw [← List.take_append_drop (i - n) (all.drop n), List.drop_drop]
    exact congrArg (_ ++ List.drop · all) (by omega)
  have hbefore : ((all.drop n).take (i - n)).filter (fun a => i ≤ number a) = [] := by
    refine List.filter_eq_nil_iff.mpr fun a ha => ?_
    obtain ⟨k, hk, rfl⟩ := List.getElem_of_mem ha
    rw [List.length_take, List.length_drop] at hk
    rw [List.getElem_take, List.getElem_drop, hnumber _ (by omega), decide_eq_true_eq]
    omega
  have hafter : (all.drop (max i n)).filter (fun a => i ≤ number a) = all.drop (max i n) := by
    refine List.filter_eq_self.mpr fun a ha => ?_
    obtain ⟨k, hk, rfl⟩ := List.getElem_of_mem ha
    rw [List.length_drop] at hk
    rw [List.getElem_drop, hnumber _ (by omega), decide_eq_true_eq]
    omega
  rw [since, hsplit, List.filter_append, hbefore, hafter, List.nil_append]

/-- What a reading from `i` gives. -/
theorem Numbered.since_rtake (h : Numbered number all) :
    since number i (all.rtake cap) = all.drop (max i (all.length - cap)) := by
  rw [List.rtake]
  exact h.since_drop _

/-- What a reader has taken down of the entries, reading up to `cursor`. -/
structure Reads (cap : ℕ) (all : List α) (cursor : ℕ) (seen : List α) : Prop where
  /-- The entries read are there. -/
  le : cursor ≤ all.length
  /-- Each is taken down once at most, in order. -/
  sublist : seen.Sublist (all.take cursor)
  /-- The last ones are. -/
  recent : (all.take cursor).rtake cap <:+ seen

theorem reads_nil : Reads cap all 0 [] :=
  ⟨Nat.zero_le _, List.nil_sublist _, ⟨[], by rw [List.take_zero, List.rtake_nil]; rfl⟩⟩

/-- One more entry is nothing to a reader that has not asked. -/
theorem Reads.add (h : Reads cap all cursor seen) : Reads cap (all ++ [a]) cursor seen := by
  have htake : (all ++ [a]).take cursor = all.take cursor := List.take_append_of_le_length h.le
  refine ⟨h.le.trans (by rw [List.length_append]; exact Nat.le_add_right _ _), ?_, ?_⟩
  · rw [htake]
    exact h.sublist
  · rw [htake]
    exact h.recent

/-- **A reading**: what it gives follows what was taken down, and with it the last entries are there. -/
theorem Reads.read (h : Reads cap all cursor seen) (hn : Numbered number all) :
    Reads cap all all.length (seen ++ since number cursor (all.rtake cap)) := by
  rw [hn.since_rtake]
  refine ⟨le_rfl, ?_, ?_⟩
  · rw [List.take_length]
    conv_rhs => rw [← List.take_append_drop cursor all]
    exact h.sublist.append (List.drop_sublist_drop_left all (Nat.le_max_left _ _))
  · rw [List.take_length, List.rtake]
    rcases Nat.le_total cursor (all.length - cap) with hle | hle
    · rw [Nat.max_eq_right hle]
      exact List.suffix_append _ _
    · -- the last entries begin among those taken down before
      rw [Nat.max_eq_left hle]
      obtain ⟨before, hbefore⟩ := h.recent
      have hlength : (all.take cursor).length = cursor := List.length_take_of_le h.le
      have hrecent : (all.take cursor).drop (all.length - cap) <:+ seen := by
        rw [List.rtake, hlength] at hbefore
        have hsuffix : (all.take cursor).drop (all.length - cap) <:+ (all.take cursor).drop (cursor - cap) := by
          have hle' : cursor - cap ≤ all.length - cap := Nat.sub_le_sub_right h.le cap
          obtain ⟨k, hk⟩ := Nat.exists_eq_add_of_le hle'
          rw [hk, ← List.drop_drop]
          exact List.drop_suffix _ _
        exact hsuffix.trans ⟨before, hbefore⟩
      have hdrop : all.drop (all.length - cap) = (all.take cursor).drop (all.length - cap) ++ all.drop cursor := by
        rw [← List.drop_append_of_le_length (by rw [hlength]; exact hle), List.take_append_drop]
      rw [hdrop]
      obtain ⟨first, hfirst⟩ := hrecent
      exact ⟨first, by rw [← List.append_assoc, hfirst]⟩

theorem reads_take {n : ℕ} (hle : cursor ≤ n) (hn : n ≤ all.length) :
    Reads cap (all.take n) cursor seen ↔ Reads cap all cursor seen := by
  have htake : (all.take n).take cursor = all.take cursor := by rw [List.take_take, Nat.min_eq_left hle]
  constructor
  · exact fun h => ⟨hle.trans hn, htake ▸ h.sublist, htake ▸ h.recent⟩
  · exact fun h => ⟨by rw [List.length_take_of_le hn]; exact hle, htake.symm ▸ h.sublist, htake.symm ▸ h.recent⟩

/-- A reading given when there were `n` entries, taken down later. -/
theorem Reads.read_take {n : ℕ} (h : Reads cap all cursor seen) (hn : Numbered number all) (hle : cursor ≤ n)
    (hlength : n ≤ all.length) : Reads cap all n (seen ++ since number cursor ((all.take n).rtake cap)) := by
  have hread := ((reads_take hle hlength).mpr h).read (hn.take n)
  rw [List.length_take_of_le hlength] at hread
  exact (reads_take le_rfl hlength).mp hread

/-- **A reading that is not too far behind misses nothing.** -/
theorem read_whole {n : ℕ} (hn : Numbered number all) (hle : cursor ≤ n) (hlength : n ≤ all.length)
    (hcap : n ≤ cursor + cap) :
    all.take cursor ++ since number cursor ((all.take n).rtake cap) = all.take n := by
  have hcursor : all.take cursor = (all.take n).take cursor := by rw [List.take_take, Nat.min_eq_left hle]
  rw [(hn.take n).since_rtake, List.length_take_of_le hlength, Nat.max_eq_left (by omega), hcursor,
    List.take_append_drop]

end MediaPreview.Cursor
