import Mathlib.Logic.Function.Basic

/-! Machine words and the physical memory they are stored in. -/

namespace Benos

/-- `unsigned long` on the 64-bit target. -/
abbrev U64 := BitVec 64

/-- Comparing words decides their equality, under one name for every definition that asks. -/
instance : LawfulBEq U64 := inferInstance

/-- Physical memory as the eight-byte words at naturally aligned addresses. -/
abbrev Memory := U64 → U64

/-- `memset(base, 0, bytes)`. -/
def Memory.clear (mem : Memory) (base : U64) (bytes : Nat) : Memory :=
  fun addr => if (addr - base).toNat < bytes then 0 else mem addr

/-- Two slots of one record are different words. -/
theorem slot_ne {base a b : U64} (other : a ≠ b) : base + a ≠ base + b :=
  fun same => other ((BitVec.add_right_inj base).mp same)

end Benos
