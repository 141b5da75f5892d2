import Mathlib.Data.List.Basic

/-!
# Dictionaries that keep the order of their keys

A dictionary as the list of its entries: a key set again stays where it is, a new one goes last.
-/

namespace MediaPreview.Dict

variable {κ α : Type*} [DecidableEq κ]

/-- `d.get(key)`. -/
def get? : List (κ × α) → κ → Option α
  | [], _ => none
  | (k, v) :: d, key => if k = key then some v else get? d key

/-- `d[key] = value`. -/
def set : List (κ × α) → κ → α → List (κ × α)
  | [], key, value => [(key, value)]
  | (k, v) :: d, key, value => if k = key then (k, value) :: d else (k, v) :: set d key value

/-- `d.update(e)`. -/
def update (d e : List (κ × α)) : List (κ × α) := e.foldl (fun d entry => set d entry.1 entry.2) d

/-- `d.pop(key, None)`. -/
def erase (d : List (κ × α)) (key : κ) : List (κ × α) := d.filter fun entry => entry.1 ≠ key

/-- **What is set is found**, and the rest as before. -/
theorem get?_set (d : List (κ × α)) (key : κ) (value : α) (key' : κ) :
    get? (set d key value) key' = if key = key' then some value else get? d key' := by
  induction d with
  | nil => rfl
  | cons entry d ih =>
    obtain ⟨k, v⟩ := entry
    rw [set]
    by_cases hk : k = key
    · rw [if_pos hk, get?, get?, hk]
      split_ifs <;> rfl
    · rw [if_neg hk, get?, get?, ih]
      by_cases hk' : k = key'
      · rw [if_pos hk', if_pos hk', if_neg fun h => hk (hk'.trans h.symm)]
      · rw [if_neg hk', if_neg hk']

/-- An update leaves the keys it does not have. -/
theorem get?_update (e : List (κ × α)) (d : List (κ × α)) {key : κ} (h : key ∉ e.map Prod.fst) :
    get? (update d e) key = get? d key := by
  induction e generalizing d with
  | nil => rfl
  | cons entry e ih =>
    rw [List.map_cons, List.mem_cons, not_or] at h
    show get? (update (set d entry.1 entry.2) e) key = _
    rw [ih _ h.2, get?_set, if_neg fun hk => h.1 hk.symm]

/-- A removal leaves the other keys. -/
theorem get?_erase (d : List (κ × α)) {key key' : κ} (h : key ≠ key') : get? (erase d key) key' = get? d key' := by
  induction d with
  | nil => rfl
  | cons entry d ih =>
    obtain ⟨k, v⟩ := entry
    unfold erase at ih ⊢
    by_cases hk : k = key
    · rw [List.filter_cons_of_neg (by simpa using hk), ih, get?, if_neg fun hk' => h (hk.symm.trans hk')]
    · rw [List.filter_cons_of_pos (by simpa using hk), get?, get?, ih]

theorem get?_erase_self (d : List (κ × α)) (key : κ) : get? (erase d key) key = none := by
  induction d with
  | nil => rfl
  | cons entry d ih =>
    obtain ⟨k, v⟩ := entry
    unfold erase at ih ⊢
    by_cases hk : k = key
    · rw [List.filter_cons_of_neg (by simpa using hk), ih]
    · rw [List.filter_cons_of_pos (by simpa using hk), get?, if_neg hk, ih]

theorem mem_of_get? {d : List (κ × α)} {key : κ} {value : α} (h : get? d key = some value) : (key, value) ∈ d := by
  induction d with
  | nil => cases h
  | cons entry d ih =>
    obtain ⟨k, v⟩ := entry
    rw [get?] at h
    split_ifs at h with hk
    · rw [hk, Option.some.inj h]
      exact .head _
    · exact .tail _ (ih h)

/-- A key set that is there is not there again. -/
theorem nodup_set {d : List (κ × α)} (h : (d.map Prod.fst).Nodup) (key : κ) (value : α) :
    ((set d key value).map Prod.fst).Nodup ∧ ∀ k ∈ (set d key value).map Prod.fst, k = key ∨ k ∈ d.map Prod.fst := by
  induction d with
  | nil => exact ⟨List.pairwise_singleton _ key, fun k hk => .inl (List.mem_singleton.1 hk)⟩
  | cons entry d ih =>
    obtain ⟨k, v⟩ := entry
    rw [List.map_cons, List.nodup_cons] at h
    rw [set]
    by_cases hk : k = key
    · rw [if_pos hk]
      exact ⟨List.nodup_cons.2 h, fun _ hk' => .inr hk'⟩
    · obtain ⟨hnodup, hkeys⟩ := ih h.2
      rw [if_neg hk, List.map_cons, List.nodup_cons]
      refine ⟨⟨fun hmem => (hkeys k hmem).elim hk h.1, hnodup⟩, fun k' hk' => ?_⟩
      obtain rfl | hk' := List.mem_cons.1 hk'
      · exact .inr (.head _)
      · exact (hkeys k' hk').imp_right (List.mem_cons_of_mem _)

theorem nodup_update (e : List (κ × α)) {d : List (κ × α)} (h : (d.map Prod.fst).Nodup) :
    ((update d e).map Prod.fst).Nodup := by
  induction e generalizing d with
  | nil => exact h
  | cons entry e ih => exact ih (nodup_set h entry.1 entry.2).1

theorem get?_eq_none_iff {d : List (κ × α)} {key : κ} : get? d key = none ↔ key ∉ d.map Prod.fst := by
  induction d with
  | nil => simp [get?]
  | cons entry d ih =>
    obtain ⟨k, v⟩ := entry
    rw [get?, List.map_cons, List.mem_cons]
    by_cases hk : k = key
    · simp [hk]
    · rw [if_neg hk, ih]
      simp [Ne.symm hk]

/-- **After an update** a key has the last value it was given, or the one from before. -/
theorem get?_update_eq (e d : List (κ × α)) (key : κ) :
    get? (update d e) key = ((e.reverse.find? fun entry => entry.1 = key).map Prod.snd).or (get? d key) := by
  induction e generalizing d with
  | nil => rfl
  | cons entry e ih =>
    show get? (update (set d entry.1 entry.2) e) key = _
    rw [ih, get?_set, List.reverse_cons, List.find?_append]
    cases e.reverse.find? fun entry => entry.1 = key with
    | some found => rfl
    | none => by_cases hkey : entry.1 = key <;> simp [hkey]

/-- The keys of an update are those before and those given. -/
theorem mem_keys_update {e d : List (κ × α)} {key : κ} :
    key ∈ (update d e).map Prod.fst ↔ key ∈ e.map Prod.fst ∨ key ∈ d.map Prod.fst := by
  have hnone : get? (update d e) key = none ↔ key ∉ e.map Prod.fst ∧ get? d key = none := by
    rw [get?_update_eq, Option.or_eq_none_iff, Option.map_eq_none_iff, List.find?_eq_none, List.mem_map]
    simp only [List.mem_reverse, decide_eq_true_eq, not_exists, not_and]
  rw [get?_eq_none_iff, get?_eq_none_iff, ← not_or] at hnone
  exact not_iff_not.1 hnone

/-- Under keys told apart what is found is what is there. -/
theorem get?_eq_some_iff {d : List (κ × α)} (h : (d.map Prod.fst).Nodup) {key : κ} {value : α} :
    get? d key = some value ↔ (key, value) ∈ d := by
  refine ⟨mem_of_get?, fun hmem => ?_⟩
  induction d with
  | nil => cases hmem
  | cons entry d ih =>
    obtain ⟨k, v⟩ := entry
    rw [List.map_cons, List.nodup_cons] at h
    rw [get?]
    obtain heq | hmem := List.mem_cons.1 hmem
    · obtain ⟨rfl, rfl⟩ := Prod.mk.inj heq
      exact if_pos rfl
    · have hne : k ≠ key := by
        rintro rfl
        exact h.1 (List.mem_map.2 ⟨_, hmem, rfl⟩)
      rw [if_neg hne]
      exact ih h.2 hmem

theorem get?_append_left {d : List (κ × α)} (e : List (κ × α)) {key : κ} (h : key ∉ e.map Prod.fst) :
    get? (d ++ e) key = get? d key := by
  induction d with
  | nil => exact get?_eq_none_iff.2 h
  | cons entry d ih =>
    obtain ⟨k, v⟩ := entry
    rw [List.cons_append, get?, get?, ih]

/-- Keeping entries by their keys. -/
theorem get?_filter (p : κ → Bool) (d : List (κ × α)) (key : κ) :
    get? (d.filter fun entry => p entry.1) key = if p key = true then get? d key else none := by
  induction d with
  | nil =>
    rw [List.filter_nil]
    split <;> rfl
  | cons entry d ih =>
    obtain ⟨k, v⟩ := entry
    rw [List.filter_cons]
    by_cases hp : p k = true
    · rw [if_pos hp, get?, get?, ih]
      by_cases hk : k = key
      · rw [if_pos hk, if_pos hk, if_pos (hk ▸ hp)]
      · rw [if_neg hk, if_neg hk]
    · rw [if_neg hp, ih, get?]
      by_cases hk : k = key
      · rw [if_neg (hk ▸ hp), if_neg (hk ▸ hp)]
      · rw [if_neg hk]

/-- An update by new keys goes last. -/
theorem update_eq_append {d e : List (κ × α)} (h : ((d ++ e).map Prod.fst).Nodup) : update d e = d ++ e := by
  induction e generalizing d with
  | nil => exact (List.append_nil d).symm
  | cons entry e ih =>
    obtain ⟨k, v⟩ := entry
    have hset : ∀ d : List (κ × α), k ∉ d.map Prod.fst → set d k v = d ++ [(k, v)] := by
      intro d hd
      induction d with
      | nil => rfl
      | cons entry d ihd =>
        rw [List.map_cons, List.mem_cons, not_or] at hd
        rw [set, if_neg (Ne.symm hd.1), ihd hd.2]
        rfl
    have hd : k ∉ d.map Prod.fst := by
      rw [List.map_append, List.map_cons, List.nodup_append] at h
      exact fun hmem => h.2.2 k hmem k (.head _) rfl
    show update (set d k v) e = _
    rw [hset d hd, ih (by rwa [List.append_assoc]), List.append_assoc]
    rfl

end MediaPreview.Dict
