import Mathlib.Tactic.Common
import Mathlib.Tactic.Ring

/-!
Naturally aligned regions of a power-of-two size, each coded in one number: below the number of the
region stand as many ones as its size asks for, and a zero between the two.
-/

namespace Napot

/-- How many of the lowest `width` bits are one before the first that is not. -/
def trailingOnes : (width code : Nat) → Nat
  | 0, _ => 0
  | width + 1, code => if code % 2 = 1 then trailingOnes width (code / 2) + 1 else 0

/-- The code of a region, from its number among the regions of its size. -/
def encode (ones number : Nat) : Nat := number * 2 ^ (ones + 1) + (2 ^ ones - 1)

/-- Whether a unit lies in the region with this code. -/
def Region (width code unit : Nat) : Prop :=
  unit / 2 ^ (trailingOnes width code + 1) = code / 2 ^ (trailingOnes width code + 1)

instance (width code unit : Nat) : Decidable (Region width code unit) :=
  inferInstanceAs (Decidable (_ = _))

/-- A longer code is the code of half the size, and one more one. -/
theorem encode_succ (ones number : Nat) :
    encode (ones + 1) number = 2 * encode ones number + 1 := by
  have positive := Nat.two_pow_pos ones
  have grown : 2 ^ (ones + 1) = 2 * 2 ^ ones := by ring
  have scaled : number * 2 ^ (ones + 1 + 1) = 2 * (number * 2 ^ (ones + 1)) := by ring
  -- One more one at the end doubles what was there.
  rw [encode, encode, scaled]
  omega

/-- The ones of a code are those that its size asked for. -/
theorem trailingOnes_encode {width ones : Nat} (short : ones < width) (number : Nat) :
    trailingOnes width (encode ones number) = ones := by
  -- Each one is the lowest bit in turn, and the bit above them all is zero.
  induction ones generalizing width with
  | zero =>
    obtain ⟨width, rfl⟩ := Nat.exists_eq_add_of_le' short
    rw [trailingOnes, encode]
    exact if_neg (by omega)
  | succ ones ih =>
    obtain ⟨width, rfl⟩ := Nat.exists_eq_add_of_le' (Nat.lt_of_le_of_lt (Nat.zero_le _) short)
    have half : (2 * encode ones number + 1) / 2 = encode ones number := by omega
    rw [encode_succ, trailingOnes, if_pos (by omega), half, ih (by omega)]

/-- A number with nothing but ones has as many as there are bits. -/
theorem trailingOnes_full (width : Nat) : trailingOnes width (2 ^ width - 1) = width := by
  induction width with
  | zero => rfl
  | succ width ih =>
    have positive := Nat.two_pow_pos width
    have grown : 2 ^ (width + 1) = 2 * 2 ^ width := by ring
    -- Half of a word of ones is a word with one less.
    have half : (2 ^ (width + 1) - 1) / 2 = 2 ^ width - 1 := by omega
    rw [trailingOnes, if_pos (by omega), half, ih]

/-- The number of a region comes back from its code. -/
theorem encode_div (ones number : Nat) : encode ones number / 2 ^ (ones + 1) = number := by
  have positive := Nat.two_pow_pos ones
  have grown : 2 ^ (ones + 1) = 2 * 2 ^ ones := by ring
  -- The ones are less than a whole region.
  rw [encode, Nat.mul_comm, Nat.mul_add_div (Nat.two_pow_pos _), Nat.div_eq_of_lt (by omega)]
  rfl

/-- What is decoded is the region that was encoded. -/
theorem region_encode {width ones : Nat} (short : ones < width) (number unit : Nat) :
    Region width (encode ones number) unit ↔ unit / 2 ^ (ones + 1) = number := by
  rw [Region, trailingOnes_encode short, encode_div]

/-- A number with nothing but ones codes the region of all units. -/
theorem region_full {width unit : Nat} (inside : unit < 2 ^ (width + 1)) :
    Region width (2 ^ width - 1) unit := by
  have positive := Nat.two_pow_pos width
  have grown : 2 ^ (width + 1) = 2 * 2 ^ width := by ring
  rw [Region, trailingOnes_full, Nat.div_eq_of_lt inside, Nat.div_eq_of_lt (by omega)]

/-- A naturally aligned region is an interval. -/
theorem div_eq_iff_interval {base order : Nat} (aligned : 2 ^ order ∣ base) (address : Nat) :
    address / 2 ^ order = base / 2 ^ order ↔ base ≤ address ∧ address < base + 2 ^ order := by
  obtain ⟨number, rfl⟩ := aligned
  have positive := Nat.two_pow_pos order
  -- Equal quotients say that both lie between the same two multiples.
  rw [Nat.mul_div_cancel_left _ positive, Nat.div_eq_iff positive]
  have whole : number * 2 ^ order = 2 ^ order * number := Nat.mul_comm _ _
  omega

end Napot
