import Mathlib.Data.Nat.Bitwise
import Mathlib.Tactic.Common

/-! Shifts and masks of machine words, read as arithmetic on natural numbers. -/

namespace Word

/-- Clearing the low bits rounds a word down to a multiple of a power of two. -/
theorem and_not_low_toNat {w : Nat} (x : BitVec w) (k : Nat) (fits : k ≤ w) :
    (x &&& ~~~(BitVec.ofNat w (2 ^ k - 1))).toNat = x.toNat / 2 ^ k * 2 ^ k := by
  -- Both sides keep exactly the bits at position `k` and above.
  apply Nat.eq_of_testBit_eq
  intro i
  rw [← Nat.shiftLeft_eq, ← Nat.shiftRight_eq_div_pow]
  simp only [BitVec.testBit_toNat, BitVec.getLsbD_and, BitVec.getLsbD_not, BitVec.getLsbD_ofNat,
    Nat.testBit_two_pow_sub_one, Nat.testBit_shiftLeft, Nat.testBit_shiftRight]
  by_cases inside : i < w
  · by_cases low : i < k
    · simp [low, inside, Nat.not_le.mpr low]
    · simp [low, inside, Nat.not_lt.mp low]
  · have high : x.getLsbD i = false := BitVec.getLsbD_of_ge x i (by omega)
    by_cases low : i < k
    · omega
    · simp [high, Nat.not_lt.mp low]

/-- Keeping the low bits is reduction modulo a power of two. -/
theorem and_low_toNat {w : Nat} (x : BitVec w) (k : Nat) (fits : k ≤ w) :
    (x &&& BitVec.ofNat w (2 ^ k - 1)).toNat = x.toNat % 2 ^ k := by
  -- The mask itself fits the word, so it is the number it spells.
  have small : 2 ^ k - 1 < 2 ^ w := by
    have := Nat.pow_le_pow_right (show 0 < 2 by decide) fits
    have := Nat.two_pow_pos k
    omega
  rw [BitVec.toNat_and, BitVec.toNat_ofNat, Nat.mod_eq_of_lt small,
    Nat.and_two_pow_sub_one_eq_mod]

/-- A logical right shift divides by a power of two. -/
theorem ushiftRight_toNat {w : Nat} (x : BitVec w) (k : Nat) :
    (x >>> k).toNat = x.toNat / 2 ^ k := by
  rw [BitVec.toNat_ushiftRight, Nat.shiftRight_eq_div_pow]

end Word
