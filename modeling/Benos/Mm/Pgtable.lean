import Benos.Mm.Page

/-! Page-table entries, index macros and entry pointers of `asm/pgtable.h`. -/

namespace Benos

/-- `PGDIR_SHIFT`. -/
def pgdirShift : Nat := 30

/-- `PGDIR_SIZE`. -/
def pgdirSize : U64 := 1#64 <<< pgdirShift

/-- `PGDIR_MASK`. -/
def pgdirMask : U64 := ~~~(pgdirSize - 1)

/-- `PMD_SHIFT`. -/
def pmdShift : Nat := 21

/-- `PMD_SIZE`. -/
def pmdSize : U64 := 1#64 <<< pmdShift

/-- `PMD_MASK`. -/
def pmdMask : U64 := ~~~(pmdSize - 1)

/-- `PTE_SHIFT`. -/
def pteShift : Nat := 12

/-- `sizeof(pgd_t)`, also the size of `pmd_t` and `pte_t`. -/
def entrySize : U64 := 8

/-- `PTRS_PER_PGD`. -/
def ptrsPerPgd : U64 := pageSize / entrySize

/-- `PTRS_PER_PMD`. -/
def ptrsPerPmd : U64 := 1#64 <<< (pgdirShift - pmdShift)

/-- `PTRS_PER_PTE`. -/
def ptrsPerPte : U64 := pageSize / entrySize

/-! ### Protection bits -/

def _PAGE_PRESENT : U64 := 1 <<< 0
def _PAGE_READ : U64 := 1 <<< 1
def _PAGE_WRITE : U64 := 1 <<< 2
def _PAGE_EXEC : U64 := 1 <<< 3
def _PAGE_USER : U64 := 1 <<< 4
def _PAGE_GLOBAL : U64 := 1 <<< 5
def _PAGE_ACCESSED : U64 := 1 <<< 6
def _PAGE_DIRTY : U64 := 1 <<< 7

/-- `_PAGE_PFN_SHIFT`. -/
def _PAGE_PFN_SHIFT : Nat := 10

/-- `PAGE_TABLE`. -/
def pageTable : U64 := _PAGE_PRESENT

/-- `_PAGE_BASE`. -/
def _PAGE_BASE : U64 := _PAGE_PRESENT ||| _PAGE_ACCESSED ||| _PAGE_USER

/-- `PAGE_READ_EXEC`. -/
def pageReadExec : U64 := _PAGE_BASE ||| _PAGE_READ ||| _PAGE_EXEC

/-- `PAGE_WRITE_EXEC`. -/
def pageWriteExec : U64 := _PAGE_BASE ||| _PAGE_READ ||| _PAGE_EXEC ||| _PAGE_WRITE

/-- `_PAGE_KERNEL`. -/
def _PAGE_KERNEL : U64 :=
  _PAGE_READ ||| _PAGE_WRITE ||| _PAGE_PRESENT ||| _PAGE_ACCESSED ||| _PAGE_DIRTY ||| _PAGE_GLOBAL

/-- `PAGE_KERNEL`. -/
def pageKernel : U64 := _PAGE_KERNEL

/-! ### Indices and boundaries -/

/-- `pgd_index`. -/
def pgdIndex (addr : U64) : U64 := (addr >>> pgdirShift) &&& (ptrsPerPgd - 1)

/-- `pmd_index`. -/
def pmdIndex (addr : U64) : U64 := (addr >>> pmdShift) &&& (ptrsPerPmd - 1)

/-- `pte_index`. -/
def pteIndex (addr : U64) : U64 := (addr >>> pageShift) &&& (ptrsPerPte - 1)

/-- The shared body of `pgd_addr_end` and `pmd_addr_end`. -/
def addrEnd (size mask addr end_ : U64) : U64 :=
  let boundary := (addr + size) &&& mask
  -- Subtracting one makes an end of zero, the top of the address space, the largest end.
  if boundary - 1 < end_ - 1 then boundary else end_

/-- `pgd_addr_end`. -/
def pgdAddrEnd (addr end_ : U64) : U64 := addrEnd pgdirSize pgdirMask addr end_

/-- `pmd_addr_end`. -/
def pmdAddrEnd (addr end_ : U64) : U64 := addrEnd pmdSize pmdMask addr end_

/-! ### Entries -/

/-- `pgd_none`. -/
def pgdNone (pgd : U64) : Bool := pgd == 0

/-- `pmd_none`. -/
def pmdNone (pmd : U64) : Bool := pmd == 0

/-- The shared body of `pfn_pgd`, `pfn_pmd` and `pfn_pte`. -/
def pfnEntry (pfn prot : U64) : U64 := (pfn <<< _PAGE_PFN_SHIFT) ||| prot

/-- `pfn_pgd`. -/
def pfnPgd (pfn prot : U64) : U64 := pfnEntry pfn prot

/-- `pfn_pmd`. -/
def pfnPmd (pfn prot : U64) : U64 := pfnEntry pfn prot

/-- `pfn_pte`. -/
def pfnPte (pfn prot : U64) : U64 := pfnEntry pfn prot

/-- The shared body of `pgd_page_paddr` and `pmd_page_paddr`. -/
def entryPagePaddr (entry : U64) : U64 := (entry >>> _PAGE_PFN_SHIFT) <<< pteShift

/-- `pgd_page_paddr`. -/
def pgdPagePaddr (pgd : U64) : U64 := entryPagePaddr pgd

/-- `pmd_page_paddr`. -/
def pmdPagePaddr (pmd : U64) : U64 := entryPagePaddr pmd

/-- `pgd_offset_raw`. -/
def pgdOffsetRaw (pgd addr : U64) : U64 := pgd + pgdIndex addr * entrySize

/-- `get_pmdp_from_pgdp`. -/
def getPmdpFromPgdp (mem : Memory) (pgdp va : U64) : U64 :=
  pgdPagePaddr (mem pgdp) + pmdIndex va * entrySize

/-- `get_ptep_from_pmdp`. -/
def getPtepFromPmdp (mem : Memory) (pmdp va : U64) : U64 :=
  pmdPagePaddr (mem pmdp) + pteIndex va * entrySize

end Benos
