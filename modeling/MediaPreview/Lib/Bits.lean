import Mathlib.Data.Nat.Bitwise
import Mathlib.Data.Nat.Notation
import Mathlib.Data.Nat.Log

/-!
# Bit masks

A natural number as the set of the positions of its bits, with the arithmetic that takes it apart: its lowest bit, and
the runs of ones it is made of (`runs`). The runs lie apart and cover what the mask has, no more (`countP_runs`).
-/

namespace MediaPreview.Bits

/-- `n.bit_length()`. -/
def bitLength (n : ℕ) : ℕ := if n = 0 then 0 else n.log2 + 1

/-- `n & -n`, in two's complement. -/
def lowestBit (n : ℕ) : ℕ := n &&& (1 <<< bitLength n - n)

/-- Where the lowest bit is. -/
def lowest (n : ℕ) : ℕ := bitLength (lowestBit n) - 1

/-- How many ones the number ends with. -/
def ones (n : ℕ) : ℕ := bitLength (n ^^^ (n + 1)) - 1

/-- `n & ~m`. -/
def clear (n m : ℕ) : ℕ := n ^^^ (n &&& m)

/-- The runs of ones, the lowest first: where each starts and ends. -/
def runs : ℕ → ℕ → List (ℕ × ℕ)
  | 0, _ => []
  | fuel + 1, mask =>
    if mask = 0 then []
    else
      let start := lowest mask
      let length := ones (mask >>> start)
      (start, start + length) :: runs fuel (clear mask ((1 <<< length - 1) <<< start))

/-! ### Lengths -/

theorem lt_two_pow_bitLength (n : ℕ) : n < 2 ^ bitLength n := by
  unfold bitLength
  split_ifs with h
  · rw [h]
    exact Nat.two_pow_pos 0
  · exact Nat.lt_log2_self

theorem bitLength_two_pow (k : ℕ) : bitLength (2 ^ k) = k + 1 := by
  rw [bitLength, if_neg (Nat.two_pow_pos k).ne', Nat.log2_two_pow]

theorem bitLength_two_pow_sub_one (k : ℕ) : bitLength (2 ^ (k + 1) - 1) = k + 1 := by
  have hpos := Nat.two_pow_pos k
  have hsucc : 2 ^ (k + 1) = 2 * 2 ^ k := by rw [Nat.pow_succ, Nat.mul_comm]
  have hne : 2 ^ (k + 1) - 1 ≠ 0 := by omega
  have hlog : (2 ^ (k + 1) - 1).log2 = k := (Nat.log2_eq_iff hne).2 ⟨by omega, by omega⟩
  rw [bitLength, if_neg hne, hlog]

@[simp] theorem testBit_clear (n m i : ℕ) : (clear n m).testBit i = (n.testBit i && !m.testBit i) := by
  rw [clear, Nat.testBit_xor, Nat.testBit_and]
  cases n.testBit i <;> cases m.testBit i <;> rfl

theorem testBit_segment (length start i : ℕ) :
    ((1 <<< length - 1) <<< start).testBit i = decide (start ≤ i ∧ i < start + length) := by
  rw [Nat.testBit_shiftLeft, Nat.one_shiftLeft, Nat.testBit_two_pow_sub_one, ← Bool.decide_and]
  refine decide_eq_decide.2 ⟨fun h => ⟨h.1, ?_⟩, fun h => ⟨h.1, ?_⟩⟩
  · have := h.1
    have := h.2
    omega
  · have := h.2
    omega

/-! ### The lowest bit -/

/-- A number that is not zero is a power of two times an odd one. -/
theorem exists_odd {n : ℕ} (h : n ≠ 0) : ∃ a b, n = 2 ^ a * (2 * b + 1) := by
  induction n using Nat.strongRecOn with
  | ind n ih =>
    obtain ⟨m, hm | hm⟩ := n.even_or_odd'
    · obtain ⟨a, b, hab⟩ := ih m (by omega) (by omega)
      refine ⟨a + 1, b, ?_⟩
      rw [hm, hab, Nat.pow_succ, Nat.mul_comm (2 ^ a) 2, Nat.mul_assoc]
    · exact ⟨0, m, by rw [hm, Nat.pow_zero, Nat.one_mul]⟩

theorem testBit_two_pow_mul_add_one (a b i : ℕ) :
    (2 ^ a * (2 * b + 1)).testBit i = if i < a then false else (2 * b + 1).testBit (i - a) := by
  have h := Nat.testBit_two_pow_mul_add (2 * b + 1) (Nat.two_pow_pos a) i
  rw [Nat.add_zero, Nat.zero_testBit] at h
  exact h

theorem lowestBit_two_pow_mul (a b : ℕ) : lowestBit (2 ^ a * (2 * b + 1)) = 2 ^ a := by
  have hpos := Nat.two_pow_pos a
  have hpred : 2 ^ a * (2 * b + 1) = 2 ^ a * (2 * b) + (2 ^ a - 1) + 1 := by
    rw [Nat.mul_add, Nat.mul_one]
    omega
  have hlt := lt_two_pow_bitLength (2 ^ a * (2 * b + 1))
  refine Nat.eq_of_testBit_eq fun i => ?_
  rw [lowestBit, Nat.testBit_and, Nat.one_shiftLeft]
  have hbit : (2 ^ bitLength (2 ^ a * (2 * b + 1)) - 2 ^ a * (2 * b + 1)).testBit i =
      (decide (i < bitLength (2 ^ a * (2 * b + 1))) && !(2 ^ a * (2 * b) + (2 ^ a - 1)).testBit i) := by
    generalize bitLength (2 ^ a * (2 * b + 1)) = s at hlt ⊢
    rw [hpred] at hlt ⊢
    exact Nat.testBit_two_pow_sub_succ (by omega) i
  rw [hbit, Nat.testBit_two_pow_mul_add _ (by omega), testBit_two_pow_mul_add_one, Nat.testBit_two_pow_sub_one,
    Nat.testBit_two_pow]
  by_cases hi : i < a
  · simp [hi]
    omega
  · rw [if_neg hi, if_neg hi]
    obtain rfl | hne := eq_or_ne i a
    · have hlt' : i < bitLength (2 ^ i * (2 * b + 1)) := by
        refine (Nat.pow_lt_pow_iff_right (by omega : 1 < 2)).1 (lt_of_le_of_lt ?_ hlt)
        exact Nat.le_mul_of_pos_right _ (by omega)
      simp [hlt']
    · obtain ⟨j, hj⟩ : ∃ j, i - a = j + 1 := ⟨i - a - 1, by omega⟩
      have hodd : (2 * b + 1).testBit (j + 1) = b.testBit j := by
        rw [Nat.testBit_add_one]
        congr 1
        omega
      have heven : (2 * b).testBit (j + 1) = b.testBit j := by
        rw [Nat.testBit_add_one]
        congr 1
        omega
      rw [hj, hodd, heven]
      cases b.testBit j <;> simp [Ne.symm hne]

/-- **The lowest bit is a bit, and none is below it.** -/
theorem lowest_spec {n : ℕ} (h : n ≠ 0) :
    n.testBit (lowest n) = true ∧ ∀ i < lowest n, n.testBit i = false := by
  obtain ⟨a, b, rfl⟩ := exists_odd h
  have hlowest : lowest (2 ^ a * (2 * b + 1)) = a := by
    rw [lowest, lowestBit_two_pow_mul, bitLength_two_pow, Nat.add_sub_cancel]
  rw [hlowest]
  refine ⟨?_, fun i hi => ?_⟩
  · rw [testBit_two_pow_mul_add_one, if_neg (Nat.lt_irrefl a), Nat.sub_self, Nat.testBit_zero]
    exact decide_eq_true (by omega)
  · rw [testBit_two_pow_mul_add_one, if_pos hi]

/-! ### The ones at the end -/

theorem ones_eq (b k : ℕ) : ones (2 ^ (k + 1) * b + (2 ^ k - 1)) = k := by
  have hpos := Nat.two_pow_pos k
  have hpow : 2 ^ (k + 1) = 2 * 2 ^ k := by rw [Nat.pow_succ, Nat.mul_comm]
  have hxor : (2 ^ (k + 1) * b + (2 ^ k - 1)) ^^^ (2 ^ (k + 1) * b + (2 ^ k - 1) + 1) = 2 ^ (k + 1) - 1 := by
    have hsucc : 2 ^ (k + 1) * b + (2 ^ k - 1) + 1 = 2 ^ (k + 1) * b + 2 ^ k := by omega
    refine Nat.eq_of_testBit_eq fun i => ?_
    rw [hsucc, Nat.testBit_xor, Nat.testBit_two_pow_mul_add _ (by omega), Nat.testBit_two_pow_mul_add _ (by omega),
      Nat.testBit_two_pow_sub_one, Nat.testBit_two_pow_sub_one, Nat.testBit_two_pow]
    by_cases hi : i < k + 1
    · rw [if_pos hi, if_pos hi, decide_eq_true hi]
      by_cases hk : i < k
      · simp [hk, (Nat.ne_of_lt hk).symm]
      · simp [(by omega : k = i)]
    · rw [if_neg hi, if_neg hi, decide_eq_false hi, Bool.xor_self]
  rw [ones, hxor, bitLength_two_pow_sub_one, Nat.add_sub_cancel]

/-- A number as the ones it ends with, a zero and the rest. -/
theorem exists_ones (n : ℕ) : ∃ b k, n = 2 ^ (k + 1) * b + (2 ^ k - 1) := by
  obtain ⟨k, b, hkb⟩ := exists_odd (Nat.succ_ne_zero n)
  have hpos := Nat.two_pow_pos k
  refine ⟨b, k, ?_⟩
  have : 2 ^ k * (2 * b + 1) = 2 ^ (k + 1) * b + 2 ^ k := by
    rw [Nat.mul_add, Nat.mul_one, Nat.pow_succ, Nat.mul_assoc]
  omega

/-- **The number ends with as many ones, and not with more.** -/
theorem ones_spec (n : ℕ) : (∀ i < ones n, n.testBit i = true) ∧ n.testBit (ones n) = false := by
  obtain ⟨b, k, rfl⟩ := exists_ones n
  have hpos := Nat.two_pow_pos k
  have hpow : 2 ^ (k + 1) = 2 * 2 ^ k := by rw [Nat.pow_succ, Nat.mul_comm]
  rw [ones_eq]
  refine ⟨fun i hi => ?_, ?_⟩
  · rw [Nat.testBit_two_pow_mul_add _ (by omega), if_pos (by omega), Nat.testBit_two_pow_sub_one]
    exact decide_eq_true hi
  · rw [Nat.testBit_two_pow_mul_add _ (by omega), if_pos (by omega), Nat.testBit_two_pow_sub_one]
    exact decide_eq_false (Nat.lt_irrefl k)

/-! ### Runs -/

/-- The first run: its bits are set, and neither the bits below it nor the next one is. -/
structure FirstRun (mask start stop : ℕ) : Prop where
  lt : start < stop
  inside : ∀ i, start ≤ i → i < stop → mask.testBit i = true
  below : ∀ i < start, mask.testBit i = false
  next : mask.testBit stop = false

theorem firstRun {mask : ℕ} (h : mask ≠ 0) : FirstRun mask (lowest mask) (lowest mask + ones (mask >>> lowest mask)) := by
  obtain ⟨hbit, hbelow⟩ := lowest_spec h
  obtain ⟨hones, hnext⟩ := ones_spec (mask >>> lowest mask)
  have hshift : ∀ i, (mask >>> lowest mask).testBit i = mask.testBit (lowest mask + i) := fun i =>
    Nat.testBit_shiftRight ..
  have hpos : 0 < ones (mask >>> lowest mask) := by
    refine Nat.pos_of_ne_zero fun h0 => ?_
    rw [h0, hshift, Nat.add_zero, hbit] at hnext
    cases hnext
  refine ⟨by omega, fun i hle hlt => ?_, hbelow, ?_⟩
  · have hi := hones (i - lowest mask) (by omega)
    rw [hshift, Nat.add_sub_cancel' hle] at hi
    exact hi
  · rw [← hshift]
    exact hnext

theorem testBit_lt_bitLength {mask i : ℕ} (h : mask.testBit i = true) : i < bitLength mask := by
  by_contra hle
  have hlt : mask < 2 ^ i :=
    lt_of_lt_of_le (lt_two_pow_bitLength mask) (Nat.pow_le_pow_right (by omega) (Nat.le_of_not_lt hle))
  rw [Nat.testBit_lt_two_pow hlt] at h
  cases h

/-- **The runs cover the bits of the mask once each and no other**, and none is empty. -/
theorem countP_runs (fuel mask k s : ℕ) (hk : ∀ i < k, mask.testBit i = false) (hs : ∀ i, mask.testBit i = true → i < s)
    (hfuel : s ≤ k + fuel) :
    (∀ run ∈ runs fuel mask, run.1 < run.2) ∧
      ∀ i, (runs fuel mask).countP (fun run => run.1 ≤ i ∧ i < run.2) = (mask.testBit i).toNat := by
  induction fuel generalizing mask k with
  | zero =>
    refine ⟨fun run hrun => (by cases hrun), fun i => ?_⟩
    cases hbit : mask.testBit i with
    | false => rfl
    | true =>
      have := hs i hbit
      rw [hk i (by omega)] at hbit
      cases hbit
  | succ fuel ih =>
    rw [runs]
    by_cases hzero : mask = 0
    · rw [if_pos hzero, hzero]
      exact ⟨fun run hrun => (by cases hrun), fun i => by simp⟩
    · rw [if_neg hzero]
      dsimp only
      have hrun := firstRun hzero
      generalize lowest mask = start at hrun ⊢
      generalize ones (mask >>> start) = length at hrun ⊢
      have hlt := hrun.lt
      have hstart : k ≤ start := by
        by_contra hle
        have hbit := hrun.inside start (Nat.le_refl _) hrun.lt
        rw [hk start (by omega)] at hbit
        cases hbit
      have hbits : ∀ i, (clear mask ((1 <<< length - 1) <<< start)).testBit i =
          (mask.testBit i && !decide (start ≤ i ∧ i < start + length)) := fun i => by
        rw [testBit_clear, testBit_segment]
      obtain ⟨hpos, hcount⟩ := ih (clear mask ((1 <<< length - 1) <<< start)) (start + length)
        (fun i hi => by
          rw [hbits]
          by_cases hi' : start ≤ i
          · rw [decide_eq_true ⟨hi', hi⟩, Bool.not_true, Bool.and_false]
          · rw [hrun.below i (by omega), Bool.false_and])
        (fun i hi => by
          rw [hbits, Bool.and_eq_true] at hi
          exact hs i hi.1)
        (by omega)
      refine ⟨List.forall_mem_cons.2 ⟨hlt, hpos⟩, fun i => ?_⟩
      rw [List.countP_cons, hcount, hbits]
      by_cases hin : start ≤ i ∧ i < start + length
      · rw [hrun.inside i hin.1 hin.2, decide_eq_true hin]
        rfl
      · rw [decide_eq_false hin]
        cases mask.testBit i <;> rfl

end MediaPreview.Bits
