import Benos.Lib.Word
import Benos.Machine.Memory

/-! Page arithmetic of `mm.h` and the memory layout of `asm/memory.h`. -/

namespace Benos

/-- `PAGE_SHIFT`. -/
def pageShift : Nat := 12

/-- `PAGE_SIZE`, the `int` four thousand and ninety-six widened to `unsigned long`. -/
def pageSize : U64 := 1#64 <<< pageShift

/-- `PAGE_MASK`. -/
def pageMask : U64 := ~~~(pageSize - 1)

/-- `PAGE_ALIGN`, also named `PAGE_ALIGN_UP`. -/
def pageAlignUp (addr : U64) : U64 := (addr + pageSize - 1) &&& pageMask

/-- `PAGE_ALIGN_DOWN`. -/
def pageAlignDown (addr : U64) : U64 := addr &&& pageMask

/-- `PFN_DOWN`. -/
def pfnDown (x : U64) : U64 := x >>> pageShift

/-- `DDR_BASE`. -/
def ddrBase : U64 := 0x80000000

/-- `TOTAL_MEMORY`. -/
def totalMemory : U64 := 16 * 0x100000

/-- `DDR_END`. -/
def ddrEnd : U64 := ddrBase + totalMemory

@[simp] theorem pageSize_toNat : pageSize.toNat = 4096 := rfl

@[simp] theorem totalMemory_toNat : totalMemory.toNat = 16777216 := rfl

/-- Rounding down keeps the page number and drops the offset. -/
theorem pageAlignDown_toNat (addr : U64) :
    (pageAlignDown addr).toNat = addr.toNat / 4096 * 4096 :=
  Word.and_not_low_toNat addr 12 (by decide)

/-- Rounding up is rounding down the last byte of the page, modulo the word size. -/
theorem pageAlignUp_toNat (addr : U64) :
    (pageAlignUp addr).toNat = (addr.toNat + 4095) % 2 ^ 64 / 4096 * 4096 := by
  -- The mask rounds down, and the two constants around the address combine to 4095.
  have combined : addr + pageSize - 1 = addr + 4095#64 := by
    unfold pageSize pageShift
    bv_omega
  have masked : ((addr + 4095#64) &&& pageMask).toNat = _ :=
    Word.and_not_low_toNat (addr + 4095#64) 12 (by decide)
  rw [pageAlignUp, combined, masked, BitVec.toNat_add, BitVec.toNat_ofNat]
  rfl

/-- A page frame number is the address divided by the page size. -/
theorem pfnDown_toNat (x : U64) : (pfnDown x).toNat = x.toNat / 4096 :=
  Word.ushiftRight_toNat x 12

end Benos
