import Mathlib.Data.List.Nodup

/-!
# Ledgers

A log, newest entry first, in which things are opened and closed; marks begin a new page. `openSince` is what was opened
since the last mark and not closed since: opening adds one (`openSince_open`), closing takes one away
(`length_openSince_close`), and a thing of an earlier page does not count on this one
(`openSince_close_of_notMem`).
-/

namespace MediaPreview

/-- How a log's entries are read. -/
structure Ledger (ν ι : Type*) where
  /-- The thing an entry opens. -/
  opens : ν → Option ι
  /-- The thing an entry closes. -/
  closes : ν → Option ι

namespace Ledger

variable {ν ι : Type*} [DecidableEq ι] (L : Ledger ν ι) (mark : ν → Bool)

/-- What was opened since the last mark and not closed since. -/
def openSince : List ν → List ι
  | [] => []
  | n :: log =>
    if mark n then []
    else
      match L.opens n, L.closes n with
      | some i, _ => i :: openSince log
      | none, some i => (openSince log).erase i
      | none, none => openSince log

variable {L mark} {n : ν} {log : List ν} {i j : ι}

theorem openSince_mark (h : mark n = true) : L.openSince mark (n :: log) = [] := by
  rw [openSince, if_pos h]

theorem openSince_open (hm : mark n = false) (h : L.opens n = some i) :
    L.openSince mark (n :: log) = i :: L.openSince mark log := by
  rw [openSince, if_neg (by rw [hm]; decide), h]

theorem openSince_close (hm : mark n = false) (ho : L.opens n = none) (h : L.closes n = some i) :
    L.openSince mark (n :: log) = (L.openSince mark log).erase i := by
  rw [openSince, if_neg (by rw [hm]; decide), ho, h]

theorem openSince_skip (hm : mark n = false) (ho : L.opens n = none) (hc : L.closes n = none) :
    L.openSince mark (n :: log) = L.openSince mark log := by
  rw [openSince, if_neg (by rw [hm]; decide), ho, hc]

/-- Closing takes one away. -/
theorem length_openSince_close (hm : mark n = false) (ho : L.opens n = none) (h : L.closes n = some i)
    (hi : i ∈ L.openSince mark log) :
    (L.openSince mark (n :: log)).length + 1 = (L.openSince mark log).length := by
  rw [openSince_close hm ho h, List.length_erase_of_mem hi]
  exact Nat.sub_add_cancel (List.length_pos_of_mem hi)

/-- What is of an earlier page is not closed on this one. -/
theorem openSince_close_of_notMem (hm : mark n = false) (ho : L.opens n = none) (h : L.closes n = some i)
    (hi : i ∉ L.openSince mark log) : L.openSince mark (n :: log) = L.openSince mark log := by
  rw [openSince_close hm ho h, List.erase_of_not_mem hi]

/-- Closing one leaves the others. -/
theorem mem_openSince_close (hm : mark n = false) (ho : L.opens n = none) (h : L.closes n = some i) (hij : j ≠ i) :
    j ∈ L.openSince mark (n :: log) ↔ j ∈ L.openSince mark log := by
  rw [openSince_close hm ho h, List.mem_erase_of_ne hij]

end Ledger

end MediaPreview
