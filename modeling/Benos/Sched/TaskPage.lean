import Benos.Mm.PageHistory
import Benos.Sched.Fork

/-! The page of a task, with the task at its bottom and its stack above. -/

namespace Benos

/-- A page the allocator has handed out. -/
def PageAlloc.Taken (alloc : PageAlloc) (p : U64) : Prop :=
  ∃ i, p = alloc.pageAddr i ∧ alloc.memMap i ≠ 0

/-- Stack pages are ordinary addresses, apart from the image with its first task. -/
structure Apart (image : Image) (alloc : PageAlloc) : Prop where
  placed : Placed alloc.phyStartAddress
  nonzero : image.initTask ≠ 0
  below : image.initTask.toNat < alloc.phyStartAddress.toNat

namespace PageAlloc

/-- What a successful `get_free_page` does to the pages handed out. -/
theorem getFreePage_taken {alloc : PageAlloc} (nonzero : alloc.getFreePage.1 ≠ 0) :
    ¬ alloc.Taken alloc.getFreePage.1 ∧ alloc.getFreePage.2.Taken alloc.getFreePage.1 := by
  -- The page is the first whose flag is clear, and its flag is set.
  cases found : alloc.firstFree with
  | none =>
    rw [getFreePage_none found] at nonzero
    exact absurd rfl nonzero
  | some i =>
    rw [getFreePage_some found]
    refine ⟨?_, i, rfl, ?_⟩
    · rintro ⟨j, same, taken⟩
      obtain rfl := pageAddr_injective alloc same
      exact taken (firstFree_some found).1
    · rw [setMap_self]
      decide

/-- No call of `get_free_page` gives a page back or moves the range. -/
theorem getFreePage_keeps (alloc : PageAlloc) :
    alloc.getFreePage.2.phyStartAddress = alloc.phyStartAddress ∧
      ∀ p, alloc.Taken p → alloc.getFreePage.2.Taken p := by
  -- No other flag is touched.
  cases found : alloc.firstFree with
  | none =>
    rw [getFreePage_none found]
    exact ⟨rfl, fun _ taken => taken⟩
  | some i =>
    rw [getFreePage_some found]
    refine ⟨rfl, ?_⟩
    rintro p ⟨j, same, taken⟩
    have other : j ≠ i := fun equal => taken (equal ▸ (firstFree_some found).1)
    exact ⟨j, same, by rw [setMap_other alloc 1 other]; exact taken⟩

/-- The allocator has a page to hand out just when one is free. -/
theorem getFreePage_ne_zero_iff {alloc : PageAlloc}
    (placed : Placed alloc.phyStartAddress) :
    alloc.getFreePage.1 ≠ 0 ↔ ∃ i, alloc.memMap i = 0 := by
  -- No page of the memory has the address zero.
  cases found : alloc.firstFree with
  | none =>
    rw [getFreePage_none found]
    refine ⟨fun nonzero => absurd rfl nonzero, fun ⟨i, free⟩ => ?_⟩
    exact absurd free (firstFree_none.mp found i)
  | some i =>
    rw [getFreePage_some found]
    exact ⟨fun _ => ⟨i, (firstFree_some found).1⟩, fun _ => pageAddr_ne_zero placed i⟩

end PageAlloc

/-- A page handed out is not the first task. -/
theorem Apart.ne_initTask {image : Image} {alloc : PageAlloc} (apart : Apart image alloc) {p : U64}
    (taken : alloc.Taken p) : p ≠ image.initTask ∧ p ≠ 0 := by
  obtain ⟨i, rfl, _⟩ := taken
  refine ⟨fun same => ?_, PageAlloc.pageAddr_ne_zero apart.placed i⟩
  -- The first task lies below all pages that are handed out.
  have address := PageAlloc.pageAddr_toNat apart.placed i
  have below := apart.below
  rw [same] at address
  omega

/-- The linker and `mem_init` put every task at the start of a page of its own. -/
structure Homes (image : Image) (alloc : PageAlloc) : Prop extends Apart image alloc where
  whole : image.initTask.toNat + 4096 ≤ alloc.phyStartAddress.toNat
  initAligned : image.initTask.toNat % 4096 = 0
  aligned : alloc.phyStartAddress.toNat % 4096 = 0

/-- An address of the page that starts at `p`. -/
def InPage (p addr : U64) : Prop := (addr - p).toNat < 4096

/-- Two pages without a common address. -/
structure PagesApart (p q : U64) : Prop where
  inP : p.toNat + 4096 ≤ 2 ^ 64
  inQ : q.toNat + 4096 ≤ 2 ^ 64
  apart : p.toNat + 4096 ≤ q.toNat ∨ q.toNat + 4096 ≤ p.toNat

namespace PagesApart

variable {p q : U64}

theorem symm (pages : PagesApart p q) : PagesApart q p :=
  ⟨pages.inQ, pages.inP, pages.apart.symm⟩

/-- An offset within one page does not lead into the other. -/
theorem not_inPage (pages : PagesApart p q) {offset : U64} (within : offset.toNat < 4096) :
    ¬ InPage q (p + offset) := by
  obtain ⟨inP, inQ, apart⟩ := pages
  -- The distance is taken modulo the address space.
  have wrapped : (p + offset - q).toNat = (2 ^ 64 - q.toNat + (p.toNat + offset.toNat)) % 2 ^ 64 := by
    rw [BitVec.toNat_sub, BitVec.toNat_add]
    omega
  rw [InPage, wrapped]
  omega

end PagesApart

/-- An offset within a page leads into the page. -/
theorem inPage_add {p offset : U64} (within : offset.toNat < 4096) : InPage p (p + offset) := by
  rw [InPage, BitVec.add_comm, BitVec.add_sub_cancel]
  exact within

namespace Homes

variable {image : Image} {alloc : PageAlloc}

/-- A page handed out starts inside the range. -/
theorem taken_toNat (homes : Homes image alloc) {p : U64} (taken : alloc.Taken p) :
    alloc.phyStartAddress.toNat ≤ p.toNat ∧ p.toNat + 4096 ≤ 2 ^ 64 ∧ p.toNat % 4096 = 0 := by
  obtain ⟨i, rfl, _⟩ := taken
  have address := PageAlloc.pageAddr_toNat homes.placed i
  -- The page is one of those tracked, which end below the end of the address space.
  have bound : i.val < 4096 := i.isLt
  have fits := homes.placed.fits
  have aligned := homes.aligned
  rw [totalMemory_toNat] at fits
  omega

/-- The homes depend on where the pages start, not on which of them are taken. -/
theorem congr (homes : Homes image alloc) {alloc' : PageAlloc}
    (start : alloc'.phyStartAddress = alloc.phyStartAddress) : Homes image alloc' :=
  { placed := start.symm ▸ homes.placed
    nonzero := homes.nonzero
    below := start.symm ▸ homes.below
    whole := start.symm ▸ homes.whole
    initAligned := homes.initAligned
    aligned := start.symm ▸ homes.aligned }

/-- The pages of two different tasks have no address in common. -/
theorem pagesApart (homes : Homes image alloc) {p q : U64} (different : p ≠ q)
    (pageP : p = image.initTask ∨ alloc.Taken p) (pageQ : q = image.initTask ∨ alloc.Taken q) :
    PagesApart p q := by
  have below := homes.whole
  have startBound := alloc.phyStartAddress.isLt
  rcases pageP with rfl | takenP
  · rcases pageQ with rfl | takenQ
    · exact absurd rfl different
    · obtain ⟨from_, fits, _⟩ := homes.taken_toNat takenQ
      exact ⟨by omega, fits, Or.inl (by omega)⟩
  · obtain ⟨fromP, fitsP, alignedP⟩ := homes.taken_toNat takenP
    rcases pageQ with rfl | takenQ
    · exact ⟨fitsP, by omega, Or.inr (by omega)⟩
    · -- Two starts of pages differ by at least a page.
      obtain ⟨_, fitsQ, alignedQ⟩ := homes.taken_toNat takenQ
      have values : p.toNat ≠ q.toNat := fun same => different (BitVec.eq_of_toNat_eq same)
      exact ⟨fitsP, fitsQ, by omega⟩

end Homes

/-- The addresses of a kernel linked at two mebibytes into the memory. -/
def exampleImage : Image :=
  { initTask := 0x80201000, retFromKernelThread := 0x80200400, retFromFork := 0x80200500 }

/-- A loaded kernel with all its memory free. -/
def exampleKernel : Kernel :=
  { mem := fun _ => 0
    pages := PageAlloc.boot.memInit 0x80300000 ddrEnd
    gTask := fun i => if i.val = 0 then exampleImage.initTask else 0
    totalForks := 0
    preemptCount := fun _ => 0
    needResched := fun _ => 0
    state := fun _ => 0
    pid := fun _ => 0
    counter := fun _ => defCounter
    priority := fun _ => 10
    nextTask := fun _ => exampleImage.initTask
    prevTask := fun _ => exampleImage.initTask
    next := fun _ => .null
    prev := fun _ => .null
    nrRunning := 0
    nrSwitches := 0
    rqCurr := 0
    current := exampleImage.initTask
    gp := 0x80202000 }

/-- The example kernel has its pages where `Homes` wants them. -/
theorem exampleKernel_homes : Homes exampleImage exampleKernel.pages := by
  have start : exampleKernel.pages.phyStartAddress = 0x80300000 := by decide
  refine ⟨⟨⟨?_, ?_⟩, by decide, ?_⟩, ?_, by decide, ?_⟩ <;>
  · rw [start]
    decide

/-- All pages are free, so the first one is handed out. -/
theorem exampleKernel_firstFree : exampleKernel.pages.firstFree = some ⟨0, by decide⟩ := by
  have free : exampleKernel.pages.memMap ⟨0, by decide⟩ = 0 := rfl
  obtain ⟨i, below, found⟩ := PageAlloc.firstFree_exists free
  have zero : i = ⟨0, by decide⟩ := Fin.ext (Nat.le_zero.mp below)
  rw [found, zero]

/-- The first page is the one the range starts with. -/
theorem exampleKernel_page : exampleKernel.pages.getFreePage.1 = 0x80300000 := by
  rw [PageAlloc.getFreePage_some exampleKernel_firstFree]
  decide

end Benos
