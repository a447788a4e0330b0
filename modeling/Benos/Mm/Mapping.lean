import Benos.Mm.PageAlloc
import Benos.Mm.Pgtable

/-!
The page-table builder of `mmu.c`, which `vs_mmu.c` repeats for the guest's own tables.

A `do`–`while` loop that need not end is a recursion on fuel, and running out of fuel is `none`.
Every dereference of an entry pointer is recorded together with the table the pointer walks.
-/

namespace Benos

/-- One dereference of an entry pointer, and the base of the table it was computed from. -/
structure Access where
  table : U64
  entry : U64
  deriving DecidableEq

/-- The memory a mapping works on, the state behind `alloc_pgtable`, and the entries touched. -/
structure Mm (σ : Type) where
  mem : Memory
  pool : σ
  touched : List Access

/-- `unsigned long (*alloc_pgtable)(void)`. -/
def AllocPgtable (σ : Type) : Type := Memory → σ → U64 × Memory × σ

/-- `memset(base, 0, PAGE_SIZE)`. -/
def clearPage (mem : Memory) (base : U64) : Memory := mem.clear base pageSize.toNat

/-- `early_pgtable_alloc`, which clears the page it got without checking that it got one. -/
def earlyPgtableAlloc : AllocPgtable PageAlloc := fun mem pages =>
  let (phys, pages) := pages.getFreePage
  (phys, clearPage mem phys, pages)

namespace Mm

variable {σ : Type}

/-- Reading `*entry`. -/
def touch (s : Mm σ) (table entry : U64) : Mm σ :=
  { s with touched := ⟨table, entry⟩ :: s.touched }

/-- `set_pgd`, `set_pmd` and `set_pte`. -/
def store (s : Mm σ) (table entry value : U64) : Mm σ :=
  { s with mem := Function.update s.mem entry value, touched := ⟨table, entry⟩ :: s.touched }

/-- Calling the allocation function, then `set_pgd` or `set_pmd` with the page it returned. -/
def allocTable (alloc : AllocPgtable σ) (s : Mm σ) (table entry : U64) : Mm σ :=
  let (phys, mem, pool) := alloc s.mem s.pool
  { s with mem, pool }.store table entry (pfnEntry (pfnDown phys) pageTable)

/-- The head of `alloc_init_pte` and `alloc_init_pmd`: an empty entry is given a table. -/
def openEntry (alloc : AllocPgtable σ) (entryNone : U64 → Bool) (s : Mm σ) (table entry : U64) :
    Mm σ :=
  -- The page is entered without a look at whether there was one.
  let s := s.touch table entry
  if entryNone (s.mem entry) then s.allocTable alloc table entry else s

end Mm

/-- The loop of `alloc_init_pmd` and of `__create_pgd_mapping`, cut at the ends of entries. -/
def splitLoop {σ : Type} (levelAddrEnd : U64 → U64 → U64)
    (allocInit : (table entryp addr next phys : U64) → Mm σ → Option (Mm σ)) :
    Nat → (table entryp addr end_ phys : U64) → Mm σ → Option (Mm σ)
  | 0, _, _, _, _, _, _ => none
  | fuel + 1, table, entryp, addr, end_, phys, s =>
    let next := levelAddrEnd addr end_
    match allocInit table entryp addr next phys s with
    | none => none
    | some s =>
      let phys := phys + (next - addr)
      let entryp := entryp + entrySize
      let addr := next
      -- The condition stands behind the body, so the first part is always mapped.
      if addr != end_ then splitLoop levelAddrEnd allocInit fuel table entryp addr end_ phys s
      else some s

section Builder

variable {σ : Type} (alloc : AllocPgtable σ) (prot : U64)

/-- The loop of `alloc_init_pte`. -/
def allocInitPteLoop : Nat → (table ptep addr end_ phys : U64) → Mm σ → Option (Mm σ)
  | 0, _, _, _, _, _, _ => none
  | fuel + 1, table, ptep, addr, end_, phys, s =>
    let s := s.store table ptep (pfnPte (pfnDown phys) prot)
    let phys := phys + pageSize
    let ptep := ptep + entrySize
    let addr := addr + pageSize
    -- Here too the first page is written before the end is looked at.
    if addr != end_ then allocInitPteLoop fuel table ptep addr end_ phys s else some s

/-- `alloc_init_pte`. -/
def allocInitPte (fuel : Nat) (table pmdp addr end_ phys : U64) (s : Mm σ) : Option (Mm σ) :=
  let s := s.openEntry alloc pmdNone table pmdp
  allocInitPteLoop prot fuel (pmdPagePaddr (s.mem pmdp)) (getPtepFromPmdp s.mem pmdp addr)
    addr end_ phys s

/-- `alloc_init_pmd`. -/
def allocInitPmd (fuel : Nat) (table pgdp addr end_ phys : U64) (s : Mm σ) : Option (Mm σ) :=
  let s := s.openEntry alloc pgdNone table pgdp
  splitLoop pmdAddrEnd (allocInitPte alloc prot fuel) fuel (pgdPagePaddr (s.mem pgdp))
    (getPmdpFromPgdp s.mem pgdp addr) addr end_ phys s

/-- `__create_pgd_mapping`, whose `flags` argument is never read. -/
def createPgdMapping (fuel : Nat) (pgdir phys virt size : U64) (s : Mm σ) : Option (Mm σ) :=
  splitLoop pgdAddrEnd (allocInitPmd alloc prot fuel) fuel pgdir (pgdOffsetRaw pgdir virt)
    (pageAlignDown virt) (pageAlignUp (virt + size)) (pageAlignDown phys) s

/-- `__create_vs_pgd_mapping`, the same text over the guest's directory. -/
def createVsPgdMapping (fuel : Nat) (pgdir phys virt size : U64) (s : Mm σ) : Option (Mm σ) :=
  createPgdMapping alloc prot fuel pgdir phys virt size s

end Builder

end Benos
