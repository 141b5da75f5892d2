import Mathlib.Data.List.Nodup

/-!
# Tables with a primary key

A database table as the list of its rows, with a key no two rows share. The writes are those
of SQL statements: `DELETE … WHERE` (`delete`), `INSERT OR REPLACE` (`put`) and an `UPDATE`
that leaves the key alone (`update`). Each comes with the rows it leaves.
-/

namespace MediaPreview

/-- A table of rows `ρ` with primary key `key`. -/
structure Table (ρ : Type*) {κ : Type*} (key : ρ → κ) where
  /-- The rows. -/
  rows : List ρ
  /-- No two rows have one key. -/
  nodup : (rows.map key).Nodup

namespace Table

variable {ρ κ : Type*} {key : ρ → κ}

instance : Membership ρ (Table ρ key) := ⟨fun t r => r ∈ t.rows⟩

instance [DecidableEq ρ] (t : Table ρ key) (r : ρ) : Decidable (r ∈ t) := inferInstanceAs (Decidable (r ∈ t.rows))

theorem mem_def {t : Table ρ key} {r : ρ} : r ∈ t ↔ r ∈ t.rows := Iff.rfl

/-- The empty table. -/
def empty : Table ρ key := ⟨[], List.nodup_nil⟩

@[simp] theorem notMem_empty {r : ρ} : r ∉ (empty : Table ρ key) := List.not_mem_nil

/-- Two rows with one key are one row. -/
theorem eq_of_key {t : Table ρ key} {r s : ρ} (hr : r ∈ t) (hs : s ∈ t) (h : key r = key s) : r = s :=
  List.inj_on_of_nodup_map t.nodup hr hs h

/-! ### Reading -/

/-- `SELECT … WHERE p`. -/
def select (t : Table ρ key) (p : ρ → Bool) : List ρ := t.rows.filter p

/-- The first row of a `SELECT`, as `fetchone` returns it. -/
def get? (t : Table ρ key) (p : ρ → Bool) : Option ρ := t.rows.find? p

/-- Whether a `SELECT 1` finds a row. -/
def any (t : Table ρ key) (p : ρ → Bool) : Bool := t.rows.any p

@[simp] theorem mem_select {t : Table ρ key} {p : ρ → Bool} {r : ρ} : r ∈ t.select p ↔ r ∈ t ∧ p r = true :=
  List.mem_filter

@[simp] theorem any_eq_true {t : Table ρ key} {p : ρ → Bool} : t.any p = true ↔ ∃ r ∈ t, p r = true := List.any_eq_true

@[simp] theorem any_eq_false {t : Table ρ key} {p : ρ → Bool} : t.any p = false ↔ ∀ r ∈ t, p r = false := by
  simp only [any, List.any_eq_false, mem_def, Bool.not_eq_true]

theorem of_get? {t : Table ρ key} {p : ρ → Bool} {r : ρ} (h : t.get? p = some r) : r ∈ t ∧ p r = true :=
  ⟨List.mem_of_find?_eq_some h, List.find?_some h⟩

theorem get?_eq_none {t : Table ρ key} {p : ρ → Bool} : t.get? p = none ↔ ∀ r ∈ t, p r = false := by
  simp only [get?, List.find?_eq_none, mem_def, Bool.not_eq_true]

/-! ### Writing -/

/-- `DELETE … WHERE p`. -/
def delete (t : Table ρ key) (p : ρ → Bool) : Table ρ key :=
  ⟨t.rows.filter fun r => !p r, t.nodup.sublist (List.filter_sublist.map key)⟩

/-- `UPDATE … SET r = f r WHERE p`, of columns that are not in the key. -/
def update (t : Table ρ key) (p : ρ → Bool) (f : ρ → ρ) (hf : ∀ r, key (f r) = key r) : Table ρ key :=
  ⟨t.rows.map fun r => if p r then f r else r, by
    have hkeys : (t.rows.map fun r => if p r then f r else r).map key = t.rows.map key := by
      rw [List.map_map]
      refine List.map_congr_left fun r _ => ?_
      simp only [Function.comp]
      split_ifs
      · exact hf r
      · rfl
    rw [hkeys]
    exact t.nodup⟩

@[simp] theorem mem_delete {t : Table ρ key} {p : ρ → Bool} {r : ρ} : r ∈ t.delete p ↔ r ∈ t ∧ p r = false := by
  simp only [mem_def, delete, List.mem_filter, Bool.not_eq_true']

theorem mem_delete_of_not {t : Table ρ key} {p : ρ → Bool} {r : ρ} (h : p r = false) : r ∈ t.delete p ↔ r ∈ t := by
  rw [mem_delete, and_iff_left h]

theorem mem_update {t : Table ρ key} {p : ρ → Bool} {f : ρ → ρ} {hf : ∀ r, key (f r) = key r} {r : ρ} :
    r ∈ t.update p f hf ↔ ∃ s ∈ t, (if p s then f s else s) = r := by
  simp only [mem_def, update, List.mem_map]

/-- A delete leaves the rows it does not name. -/
theorem select_delete {t : Table ρ key} {p q : ρ → Bool} (h : ∀ r ∈ t, q r = true → p r = false) :
    (t.delete p).select q = t.select q := by
  simp only [select, delete, List.filter_filter]
  refine List.filter_congr fun r hr => ?_
  by_cases hq : q r = true
  · simp [hq, h r hr hq]
  · simp [hq]

variable [DecidableEq κ]

/-- `INSERT OR REPLACE`. -/
def put (t : Table ρ key) (x : ρ) : Table ρ key :=
  ⟨(t.rows.filter fun r => key r ≠ key x) ++ [x], by
    rw [List.map_append, List.map_singleton]
    refine (t.nodup.sublist (List.filter_sublist.map key)).append (List.nodup_singleton _) ?_
    intro k hk hx
    obtain ⟨r, hr, rfl⟩ := List.mem_map.mp hk
    exact of_decide_eq_true (List.mem_filter.mp hr).2 (List.mem_singleton.mp hx)⟩

@[simp] theorem mem_put {t : Table ρ key} {x r : ρ} : r ∈ t.put x ↔ r = x ∨ (r ∈ t ∧ key r ≠ key x) := by
  simp only [mem_def, put, List.mem_append, List.mem_filter, List.mem_singleton, decide_eq_true_eq, or_comm]

theorem mem_put_of_ne {t : Table ρ key} {x r : ρ} (h : key r ≠ key x) : r ∈ t.put x ↔ r ∈ t := by
  rw [mem_put, and_iff_left h, or_iff_right fun hr => h (congrArg key hr)]

/-- The row at the key is the one put there. -/
theorem eq_of_mem_put {t : Table ρ key} {x r : ρ} (hr : r ∈ t.put x) (h : key r = key x) : r = x :=
  (mem_put.mp hr).resolve_right fun hold => hold.2 h

theorem mem_put_self (t : Table ρ key) (x : ρ) : x ∈ t.put x := mem_put.mpr (.inl rfl)

/-- A replacing insert leaves what is not at its key. -/
theorem select_put {t : Table ρ key} {x : ρ} {q : ρ → Bool} (hx : q x = false)
    (h : ∀ r ∈ t, key r = key x → q r = false) : (t.put x).select q = t.select q := by
  simp only [select, put, List.filter_append, List.filter_filter, List.filter_singleton, hx, cond_false,
    List.append_nil]
  refine List.filter_congr fun r hr => ?_
  by_cases hk : key r = key x
  · simp [hk, h r hr hk]
  · simp [hk]

end Table

end MediaPreview
