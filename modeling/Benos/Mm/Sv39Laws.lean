import Benos.Mm.Mapping
import Benos.Mm.Sv39

/-! The software's entry macros compute the addresses and pages the hardware walk reads. -/

namespace Benos.Sv39

/-- An entry address is its page number and index, each at its own scale. -/
theorem entryAddr_toNat (page : Ppn) (index : Index) :
    (entryAddr page index).toNat = page.toNat * 4096 + index.toNat * 8 := by
  have pageBound := page.isLt
  have indexBound := index.isLt
  -- Appending bit vectors places the high part above the width of the low one.
  have appended : (page ++ index ++ 0#3).toNat = page.toNat * 4096 + index.toNat * 8 := by
    rw [BitVec.toNat_append, BitVec.toNat_append, BitVec.toNat_ofNat,
      ← Nat.shiftLeft_add_eq_or_of_lt indexBound, Nat.shiftLeft_eq, Nat.shiftLeft_eq]
    simp only [Nat.zero_mod, Nat.or_zero]
    omega
  rw [entryAddr, BitVec.toNat_setWidth, appended]
  omega

/-- The base of a table page is a multiple of the page size. -/
theorem frameAddr_toNat (page : Ppn) : (frameAddr page).toNat = page.toNat * 4096 := by
  have first : (0 : Index).toNat = 0 := rfl
  rw [frameAddr, entryAddr_toNat, first, Nat.zero_mul, Nat.add_zero]

/-- Different entries have different addresses. -/
theorem entryAddr_injective {page other : Ppn} {index slot : Index}
    (same : entryAddr page index = entryAddr other slot) : page = other ∧ index = slot := by
  have addresses := congrArg BitVec.toNat same
  rw [entryAddr_toNat, entryAddr_toNat] at addresses
  -- The offset in the page is below its size.
  have indexBound := index.isLt
  have slotBound := slot.isLt
  exact ⟨BitVec.eq_of_toNat_eq (by omega), BitVec.eq_of_toNat_eq (by omega)⟩

/-- Frames are told apart by their addresses. -/
theorem frameAddr_injective {page other : Ppn} (same : frameAddr page = frameAddr other) :
    page = other :=
  (entryAddr_injective same).1

/-- An entry pointer advanced by one names the next entry, up to the end of the table. -/
theorem entryAddr_next {page : Ppn} {index next : Index} (step : next.toNat = index.toNat + 1) :
    entryAddr page index + entrySize = entryAddr page next := by
  apply BitVec.eq_of_toNat_eq
  -- The address of an entry is bounded by those of page and index, so nothing wraps.
  have pageBound := page.isLt
  have indexBound := index.isLt
  have size : entrySize.toNat = 8 := rfl
  rw [BitVec.toNat_add, entryAddr_toNat, entryAddr_toNat, size]
  omega

/-- A store through an entry pointer replaces that entry of that table. -/
theorem tables_update (mem : Memory) (page : Ppn) (index : Index) (value : U64) :
    tables (Function.update mem (entryAddr page index) value) =
      Radix.set (tables mem) page index value := by
  funext at_ slot
  -- Entries of distinct places have distinct addresses.
  by_cases here : at_ = page ∧ slot = index
  · obtain ⟨rfl, rfl⟩ := here
    simp [tables]
  · have elsewhere : entryAddr at_ slot ≠ entryAddr page index :=
      fun same => here (entryAddr_injective same)
    rw [Radix.set_other _ _ here, tables, tables, Function.update_of_ne elsewhere]

/-- Clearing a page empties that table and no other. -/
theorem tables_clearPage (mem : Memory) (page : Ppn) :
    tables (clearPage mem (frameAddr page)) = Radix.fill (tables mem) page 0 := by
  funext at_ slot
  have distance : (entryAddr at_ slot - frameAddr page).toNat =
      (2 ^ 64 - page.toNat * 4096 + (at_.toNat * 4096 + slot.toNat * 8)) % 2 ^ 64 := by
    rw [BitVec.toNat_sub, entryAddr_toNat, frameAddr_toNat]
  have pageBound := page.isLt
  have atBound := at_.isLt
  have slotBound := slot.isLt
  rw [tables, clearPage, Memory.clear, distance, pageSize_toNat]
  by_cases here : at_ = page
  · subst here
    rw [Radix.fill_self, if_pos (by omega)]
  · -- Another page lies at least one page away, in either direction.
    have apart : at_.toNat ≠ page.toNat := fun same => here (BitVec.eq_of_toNat_eq same)
    rw [Radix.fill_other _ _ here, if_neg (by omega), tables]

/-! ### Entries -/

/-- An empty entry points nowhere. -/
@[simp] theorem child_zero : child 0 = none := by decide

/-- What a pointer entry satisfies. -/
theorem child_some {entry : U64} {page : Ppn} (points : child entry = some page) :
    ppn entry = page ∧ entry.toNat < 2 ^ 54 := by
  unfold child at points
  split at points
  · rename_i pointer
    simp only [Bool.and_eq_true, beq_iff_eq] at pointer
    -- The bits above the page number are checked to be zero.
    have high := congrArg BitVec.toNat pointer.2
    rw [Word.ushiftRight_toNat] at high
    change _ = 0 at high
    exact ⟨Option.some.inj points, by omega⟩
  · cases points

/-- A pointer entry is not an empty one. -/
theorem child_ne_zero {entry : U64} {page : Ppn} (points : child entry = some page) :
    entry ≠ 0 := by
  rintro rfl
  cases points

/-- The page number of an entry is its bits above the tenth. -/
theorem ppn_toNat (entry : U64) : (ppn entry).toNat = entry.toNat / 1024 % 2 ^ 44 := by
  rw [ppn, BitVec.extractLsb'_toNat, Nat.shiftRight_eq_div_pow]

/-- The software decodes a pointer entry to the page the hardware follows. -/
theorem entryPagePaddr_of_child {entry : U64} {page : Ppn} (points : child entry = some page) :
    entryPagePaddr entry = frameAddr page := by
  obtain ⟨named, small⟩ := child_some points
  apply BitVec.eq_of_toNat_eq
  -- With no bits above, shifting the flags out leaves the page number.
  have number := ppn_toNat entry
  rw [named] at number
  rw [frameAddr_toNat, number, entryPagePaddr, BitVec.toNat_shiftLeft, Word.ushiftRight_toNat,
    Nat.shiftLeft_eq]
  simp only [_PAGE_PFN_SHIFT, pteShift]
  omega

/-- The page number and the attributes of a written entry occupy different bits. -/
theorem pfnEntry_toNat {pfn prot : U64} (number : pfn.toNat < 2 ^ 54) (low : prot.toNat < 2 ^ 10) :
    (pfnEntry pfn prot).toNat = 2 ^ 10 * pfn.toNat + prot.toNat := by
  -- The shifted number and the flags have no bit in common.
  have shifted : (pfn <<< _PAGE_PFN_SHIFT).toNat = pfn.toNat <<< 10 := by
    rw [BitVec.toNat_shiftLeft, _PAGE_PFN_SHIFT, Nat.mod_eq_of_lt]
    rw [Nat.shiftLeft_eq]
    omega
  rw [pfnEntry, BitVec.toNat_or, shifted, ← Nat.shiftLeft_add_eq_or_of_lt low, Nat.shiftLeft_eq,
    Nat.mul_comm]

/-- The low bits of a written entry are its attributes. -/
theorem pfnEntry_getLsbD {pfn prot : U64} (number : pfn.toNat < 2 ^ 54)
    (low : prot.toNat < 2 ^ 10) {i : Nat} (within : i < 10) :
    (pfnEntry pfn prot).getLsbD i = prot.getLsbD i := by
  rw [← BitVec.testBit_toNat, pfnEntry_toNat number low, Nat.testBit_two_pow_mul_add _ low,
    if_pos within, BitVec.testBit_toNat]

/-- A written entry names the page it was written for. -/
theorem ppn_pfnEntry {pfn prot : U64} (number : pfn.toNat < 2 ^ 44) (low : prot.toNat < 2 ^ 10) :
    (ppn (pfnEntry pfn prot)).toNat = pfn.toNat := by
  rw [ppn_toNat, pfnEntry_toNat (by omega) low]
  omega

/-- The entry written for a table page is a pointer to it. -/
theorem child_pfnEntry (page : Ppn) :
    child (pfnEntry (pfnDown (frameAddr page)) pageTable) = some page := by
  have bound := page.isLt
  have pfn : (pfnDown (frameAddr page)).toNat = page.toNat := by
    rw [pfnDown_toNat, frameAddr_toNat]
    omega
  have low : pageTable.toNat < 2 ^ 10 := by decide
  have number : (pfnDown (frameAddr page)).toNat < 2 ^ 54 := by omega
  -- A frame number of 44 bits leaves the bits above it clear.
  have top : pfnEntry (pfnDown (frameAddr page)) pageTable >>> 54 = 0#64 := by
    apply BitVec.eq_of_toNat_eq
    rw [Word.ushiftRight_toNat, pfnEntry_toNat number low, pfn]
    change _ = 0
    omega
  have named : ppn (pfnEntry (pfnDown (frameAddr page)) pageTable) = page := by
    apply BitVec.eq_of_toNat_eq
    rw [ppn_pfnEntry (by omega) low, pfn]
  -- Of the attributes only the first is set.
  have zero := pfnEntry_getLsbD number low (show 0 < 10 by decide)
  have one := pfnEntry_getLsbD number low (show 1 < 10 by decide)
  have two := pfnEntry_getLsbD number low (show 2 < 10 by decide)
  have three := pfnEntry_getLsbD number low (show 3 < 10 by decide)
  simp only [child, isValid, isReadable, isWritable, isExecutable, zero, one, two, three, top,
    named]
  rfl

/-- A permission for the last level: a leaf, with nothing above the attribute bits. -/
structure LeafProt (prot : U64) : Prop where
  low : prot.toNat < 2 ^ 10
  leaf : isLeaf prot = true

namespace LeafProt

variable {prot pfn : U64} (permission : LeafProt prot) (number : pfn.toNat < 2 ^ 54)

include permission number

/-- An entry written with such a permission is a leaf. -/
theorem isLeaf_entry : isLeaf (pfnEntry pfn prot) = true := by
  -- The low ten bits of the entry are those of the permission.
  have bits : ∀ i < 10, (pfnEntry pfn prot).getLsbD i = prot.getLsbD i := fun i within =>
    pfnEntry_getLsbD number permission.low within
  rw [← permission.leaf]
  simp only [isLeaf, isValid, isReadable, isExecutable, isWritable, bits 0 (by decide),
    bits 1 (by decide), bits 2 (by decide), bits 3 (by decide)]

/-- So it leads to no table. -/
theorem child_entry : child (pfnEntry pfn prot) = none := by
  have leaf := permission.isLeaf_entry number
  simp only [isLeaf, Bool.and_eq_true, Bool.or_eq_true] at leaf
  rw [child, if_neg]
  simp only [Bool.and_eq_true, Bool.not_eq_true', not_and]
  rintro ⟨⟨⟨-, notReadable⟩, -⟩, notExecutable⟩
  -- A leaf is readable or executable, and a pointer is neither.
  rcases leaf.2 with readable | ⟨executable, -⟩
  · rw [notReadable] at readable
    cases readable
  · rw [notExecutable] at executable
    cases executable

end LeafProt

/-! ### Indices and boundaries -/

/-- The table index of a page number, or of a number of larger pages. -/
def slot (n : Nat) : Index := BitVec.ofNat 9 n

@[simp] theorem slot_toNat (n : Nat) : (slot n).toNat = n % 512 :=
  BitVec.toNat_ofNat n 9

/-- Indices agree exactly when their numbers do modulo the table size. -/
theorem slot_eq_iff {n m : Nat} : slot n = slot m ↔ n % 512 = m % 512 := by
  -- The index is the number modulo the table size.
  constructor
  · intro same
    simpa using congrArg BitVec.toNat same
  · intro same
    exact BitVec.eq_of_toNat_eq (by simpa using same)

/-- The hardware cuts the index of each level out of the virtual address. -/
theorem vpn_eq (level : Nat) (va : U64) : vpn level va = slot (va.toNat / 2 ^ (12 + 9 * level)) := by
  apply BitVec.eq_of_toNat_eq
  rw [vpn, BitVec.extractLsb'_toNat, Nat.shiftRight_eq_div_pow, slot_toNat]

/-- The index macros compute the same indices as the hardware. -/
theorem index_toNat {addr mask : U64} {shift : Nat} (nine : mask = BitVec.ofNat 64 (2 ^ 9 - 1)) :
    ((addr >>> shift) &&& mask).toNat = (slot (addr.toNat / 2 ^ shift)).toNat := by
  rw [nine, Word.and_low_toNat _ 9 (by decide), Word.ushiftRight_toNat, slot_toNat]
  rfl

/-- Adding a scaled index to the base of a table gives the entry at that index. -/
theorem frameAddr_add {page : Ppn} {index : Index} {offset : U64}
    (same : offset.toNat = index.toNat) :
    frameAddr page + offset * entrySize = entryAddr page index := by
  apply BitVec.eq_of_toNat_eq
  -- Again nothing wraps.
  have pageBound := page.isLt
  have indexBound := index.isLt
  have size : entrySize.toNat = 8 := rfl
  rw [BitVec.toNat_add, BitVec.toNat_mul, frameAddr_toNat, entryAddr_toNat, same, size]
  omega

/-- `pgd_offset_raw` points to the entry the first step of the walk reads. -/
theorem pgdOffsetRaw_eq (root : Ppn) (va : U64) :
    pgdOffsetRaw (frameAddr root) va = entryAddr root (slot (va.toNat / 2 ^ 30)) :=
  frameAddr_add (index_toNat rfl)

/-- `get_pmdp_from_pgdp` points to the entry the second step of the walk reads. -/
theorem getPmdpFromPgdp_eq {mem : Memory} {pgdp : U64} {page : Ppn} (va : U64)
    (points : child (mem pgdp) = some page) :
    getPmdpFromPgdp mem pgdp va = entryAddr page (slot (va.toNat / 2 ^ 21)) := by
  rw [getPmdpFromPgdp, pgdPagePaddr, entryPagePaddr_of_child points]
  exact frameAddr_add (index_toNat rfl)

/-- `get_ptep_from_pmdp` points to the entry the last step of the walk reads. -/
theorem getPtepFromPmdp_eq {mem : Memory} {pmdp : U64} {page : Ppn} (va : U64)
    (points : child (mem pmdp) = some page) :
    getPtepFromPmdp mem pmdp va = entryAddr page (slot (va.toNat / 2 ^ 12)) := by
  rw [getPtepFromPmdp, pmdPagePaddr, entryPagePaddr_of_child points]
  exact frameAddr_add (index_toNat rfl)

/-- The end of a range as a natural number, with zero standing for the top of the space. -/
def endNat (end_ : U64) : Nat := (end_ - 1).toNat + 1

/-- An end other than zero is itself. -/
theorem endNat_eq (end_ : U64) :
    endNat end_ = if end_.toNat = 0 then 2 ^ 64 else end_.toNat := by
  have one : (1 : U64).toNat = 1 := rfl
  have bound := end_.isLt
  rw [endNat, BitVec.toNat_sub, one]
  -- Only zero wraps when one is subtracted.
  split <;> omega

/-- Two ends are the same number exactly when they are the same word. -/
theorem endNat_inj {first second : U64} : endNat first = endNat second ↔ first = second := by
  refine ⟨fun same => ?_, fun same => same ▸ rfl⟩
  have firstBound := first.isLt
  have secondBound := second.isLt
  rw [endNat_eq, endNat_eq] at same
  apply BitVec.eq_of_toNat_eq
  -- Zero stands for the end of the address space, which no other value stands for.
  split at same <;> split at same <;> omega

/-- The address after a page is the end of that page. -/
theorem endNat_next {addr : U64} {n : Nat} (at_ : addr.toNat = n * 4096) :
    endNat (addr + pageSize) = (n + 1) * 4096 := by
  have bound := addr.isLt
  rw [endNat_eq, BitVec.toNat_add, pageSize_toNat]
  split <;> omega

/-- `pgd_addr_end` and `pmd_addr_end` stop at the boundary or at the end, whichever is first. -/
theorem endNat_addrEnd {size mask addr end_ : U64} {k : Nat} (width : k < 64)
    (scaled : size.toNat = 2 ^ k) (masked : mask = ~~~(BitVec.ofNat 64 (2 ^ k - 1))) :
    endNat (addrEnd size mask addr end_) =
      min ((addr.toNat / 2 ^ k + 1) * 2 ^ k) (endNat end_) := by
  -- The boundary is the next multiple of the size, or zero at the top of the address space.
  have boundary : endNat ((addr + size) &&& mask) = (addr.toNat / 2 ^ k + 1) * 2 ^ k := by
    have bound := addr.isLt
    have split : 2 ^ 64 = 2 ^ (64 - k) * 2 ^ k := by rw [← Nat.pow_add]; congr 1; omega
    have positive := Nat.two_pow_pos k
    have quotient : addr.toNat / 2 ^ k < 2 ^ (64 - k) :=
      Nat.div_lt_of_lt_mul (by rw [Nat.mul_comm]; omega)
    have value : ((addr + size) &&& mask).toNat =
        (addr.toNat / 2 ^ k + 1) * 2 ^ k % 2 ^ 64 := by
      rw [masked, Word.and_not_low_toNat _ k (by omega), BitVec.toNat_add, scaled, split,
        Nat.mul_mod_mul_right, Nat.mod_mul_left_div_self, Nat.add_div_right _ positive]
    rw [endNat_eq, value]
    -- Only the last block of the address space ends at zero.
    rcases Nat.lt_or_ge (addr.toNat / 2 ^ k + 1) (2 ^ (64 - k)) with below | top
    · have small : (addr.toNat / 2 ^ k + 1) * 2 ^ k < 2 ^ 64 := by
        rw [split]
        exact Nat.mul_lt_mul_of_pos_right below positive
      rw [Nat.mod_eq_of_lt small, if_neg (Nat.mul_ne_zero (Nat.succ_ne_zero _) (by omega))]
    · have last : addr.toNat / 2 ^ k + 1 = 2 ^ (64 - k) := by omega
      rw [last, ← split, Nat.mod_self, if_pos rfl]
  -- Subtracting one turns zero into the largest value, as the macro wants it.
  have compared : (((addr + size) &&& mask) - 1 < end_ - 1) ↔
      endNat ((addr + size) &&& mask) < endNat end_ := by
    rw [BitVec.lt_def, endNat, endNat]
    omega
  unfold addrEnd
  dsimp only
  split
  · rename_i less
    rw [compared] at less
    rw [Nat.min_eq_left (by omega), boundary]
  · rename_i more
    rw [compared] at more
    rw [Nat.min_eq_right (by omega)]

/-- `pmd_addr_end` cuts at 2 MiB. -/
theorem endNat_pmdAddrEnd (addr end_ : U64) :
    endNat (pmdAddrEnd addr end_) = min ((addr.toNat / 2 ^ 21 + 1) * 2 ^ 21) (endNat end_) :=
  endNat_addrEnd (by decide) rfl rfl

/-- `pgd_addr_end` cuts at 1 GiB. -/
theorem endNat_pgdAddrEnd (addr end_ : U64) :
    endNat (pgdAddrEnd addr end_) = min ((addr.toNat / 2 ^ 30 + 1) * 2 ^ 30) (endNat end_) :=
  endNat_addrEnd (by decide) rfl rfl

end Benos.Sv39
