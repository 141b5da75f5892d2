import Mathlib.Data.List.Basic

/-!
# Little-endian words

Unsigned 32-bit words in bytes, least byte first, and reading them off the front of some bytes.
-/

namespace MediaPreview.LittleEndian

/-- The four bytes of a word. -/
def u32 (n : ℕ) : List UInt8 := [.ofNat n, .ofNat (n / 256), .ofNat (n / 65536), .ofNat (n / 16777216)]

/-- The word in front, and the rest. -/
def readU32 : List UInt8 → Option (ℕ × List UInt8)
  | a :: b :: c :: d :: rest => some (a.toNat + 256 * b.toNat + 65536 * c.toNat + 16777216 * d.toNat, rest)
  | _ => none

@[simp] theorem length_u32 (n : ℕ) : (u32 n).length = 4 := rfl

/-- **A word is read as it was written.** -/
theorem readU32_u32 {n : ℕ} (h : n < 4294967296) (rest : List UInt8) : readU32 (u32 n ++ rest) = some (n, rest) := by
  simp only [u32, List.cons_append, List.nil_append, readU32, UInt8.toNat_ofNat', Option.some.injEq, Prod.mk.injEq,
    and_true]
  omega

end MediaPreview.LittleEndian
