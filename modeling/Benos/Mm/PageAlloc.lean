import Mathlib.Data.List.Basic
import Mathlib.Data.Fintype.Basic
import Mathlib.Logic.Function.Basic
import Benos.Lib.Transition
import Benos.Mm.Page

/-! The page allocator of `page_alloc.c`: one flag per page, counted from where the image ends. -/

namespace Benos

/-- `NR_PAGES`, the number of flags `mem_map` holds. -/
def nrPages : Nat := (totalMemory / pageSize).toNat

theorem nrPages_eq : nrPages = 4096 := rfl

/-- The two file-scope variables of the allocator. -/
structure PageAlloc where
  /-- `mem_map`, zero for a free page. -/
  memMap : Fin nrPages → BitVec 16
  /-- `phy_start_address`. -/
  phyStartAddress : U64

namespace PageAlloc

/-- `mem_init`, whose message about the free memory has no effect on later calls. -/
def memInit (alloc : PageAlloc) (startMem _endMem : U64) : PageAlloc :=
  { alloc with phyStartAddress := pageAlignUp startMem }

/-- The state before any call, with `mem_map` statically zero. -/
def boot : PageAlloc := { memMap := fun _ => 0, phyStartAddress := 0 }

/-- `phy_start_address + i * PAGE_SIZE`. -/
def pageAddr (alloc : PageAlloc) (i : Fin nrPages) : U64 :=
  alloc.phyStartAddress + BitVec.ofNat 64 (i.val * 4096)

/-- The assignment `mem_map[i] = flag`. -/
def setMap (alloc : PageAlloc) (i : Fin nrPages) (flag : BitVec 16) : PageAlloc :=
  { alloc with memMap := Function.update alloc.memMap i flag }

@[simp] theorem setMap_start (alloc : PageAlloc) (i : Fin nrPages) (flag : BitVec 16) :
    (alloc.setMap i flag).phyStartAddress = alloc.phyStartAddress := rfl

@[simp] theorem setMap_pageAddr (alloc : PageAlloc) (i j : Fin nrPages) (flag : BitVec 16) :
    (alloc.setMap i flag).pageAddr j = alloc.pageAddr j := rfl

@[simp] theorem setMap_self (alloc : PageAlloc) (i : Fin nrPages) (flag : BitVec 16) :
    (alloc.setMap i flag).memMap i = flag :=
  by simp [setMap]

theorem setMap_other (alloc : PageAlloc) {i j : Fin nrPages} (flag : BitVec 16) (other : j ≠ i) :
    (alloc.setMap i flag).memMap j = alloc.memMap j :=
  by simp [setMap, other]

/-- The index at which the loop of `get_free_page` returns, if it does. -/
def firstFree (alloc : PageAlloc) : Option (Fin nrPages) :=
  (List.finRange nrPages).find? fun i => alloc.memMap i == 0

/-- `get_free_page`. -/
def getFreePage (alloc : PageAlloc) : U64 × PageAlloc :=
  match alloc.firstFree with
  | some i => (alloc.pageAddr i, alloc.setMap i 1)
  | none => (0, alloc)

/-- `free_page`, undefined when its index lies outside `mem_map`. -/
def freePage (alloc : PageAlloc) (p : U64) : Option PageAlloc :=
  let index := ((p - alloc.phyStartAddress) / pageSize).toNat
  if within : index < nrPages then
    some (alloc.setMap ⟨index, within⟩ 0)
  else none

/-- The scan returns a free page, and every page before it is taken. -/
theorem firstFree_some {alloc : PageAlloc} {i : Fin nrPages} (found : alloc.firstFree = some i) :
    alloc.memMap i = 0 ∧ ∀ j < i, alloc.memMap j ≠ 0 := by
  -- The indices are scanned in increasing order, so the skipped ones are the smaller ones.
  obtain ⟨free, front, back, split, taken⟩ := List.find?_eq_some_iff_append.mp found
  refine ⟨by simpa using free, fun j below => ?_⟩
  have member : j ∈ front ++ i :: back := split ▸ List.mem_finRange j
  have sorted : (front ++ i :: back).Pairwise (· < ·) := split ▸ List.pairwise_lt_finRange nrPages
  rcases List.mem_append.mp member with before | after
  · simpa using taken j before
  · -- A page at or after the one found cannot be below it.
    have ordered := (List.pairwise_append.mp sorted).2.1
    rcases List.mem_cons.mp after with same | later
    · omega
    · have := (List.pairwise_cons.mp ordered).1 j later
      omega

/-- The scan fails exactly when every page is taken. -/
theorem firstFree_none {alloc : PageAlloc} :
    alloc.firstFree = none ↔ ∀ i, alloc.memMap i ≠ 0 := by
  simp [firstFree, List.find?_eq_none]

/-- A free page makes the scan succeed at or before it. -/
theorem firstFree_exists {alloc : PageAlloc} {i : Fin nrPages} (free : alloc.memMap i = 0) :
    ∃ j ≤ i, alloc.firstFree = some j := by
  cases found : alloc.firstFree with
  | none => exact absurd free (firstFree_none.mp found i)
  | some j =>
    refine ⟨j, ?_, rfl⟩
    -- The first free page does not come after a free one.
    by_contra above
    exact (firstFree_some found).2 i (by omega) free

/-- The page handed out is the lowest free one, and only its flag changes. -/
theorem getFreePage_some {alloc : PageAlloc} {i : Fin nrPages} (found : alloc.firstFree = some i) :
    alloc.getFreePage = (alloc.pageAddr i, alloc.setMap i 1) := by
  unfold getFreePage
  generalize alloc.firstFree = scan at found
  subst found
  rfl

/-- With every page taken nothing is handed out and nothing changes. -/
theorem getFreePage_none {alloc : PageAlloc} (full : alloc.firstFree = none) :
    alloc.getFreePage = (0, alloc) := by
  unfold getFreePage
  generalize alloc.firstFree = scan at full
  subst full
  rfl

-- The scan is over thousands of pages, so it is only ever reasoned about through the lemmas above.
attribute [irreducible] firstFree

end PageAlloc

end Benos
