import Benos.Mm.PageHistory

/-! Whether the page allocator stays inside the memory range it was given. -/

namespace Benos

/-- A page lying wholly inside `[PAGE_ALIGN_UP(start_mem), PAGE_ALIGN_DOWN(end_mem))`. -/
def Inside (startMem endMem p : U64) : Prop :=
  (pageAlignUp startMem).toNat ≤ p.toNat ∧ p.toNat + 4096 ≤ (pageAlignDown endMem).toNat

/-- Every page of the range has been handed out. -/
def RangeTaken (startMem endMem : U64) (alloc : PageAlloc) : Prop :=
  ∀ p : U64, Inside startMem endMem p → p.toNat % 4096 = 0 →
    ∃ i, alloc.pageAddr i = p ∧ alloc.memMap i ≠ 0

/-- What the next `get_free_page` owes to its caller. -/
structure StaysInside (startMem endMem : U64) (alloc : PageAlloc) : Prop where
  inside : alloc.getFreePage.1 ≠ 0 → Inside startMem endMem alloc.getFreePage.1
  exhausted : RangeTaken startMem endMem alloc → alloc.getFreePage.1 = 0

namespace Ledger

/-- No call moves the first tracked page. -/
theorem start_run {startMem endMem : U64} {ops : List PageOp} {ledger : Ledger}
    (ran : Transition.run step ops (init startMem endMem) = some ledger) :
    ledger.alloc.phyStartAddress = pageAlignUp startMem := by
  have keeps : ∀ op before after, before.alloc.phyStartAddress = pageAlignUp startMem →
      step op before = some after → after.alloc.phyStartAddress = pageAlignUp startMem := by
    intro op before after start taken
    cases op with
    | get =>
      -- Both outcomes of the scan leave the start address alone.
      simp only [step, Option.some.injEq] at taken
      subst taken
      cases found : before.alloc.firstFree with
      | none => simpa only [PageAlloc.getFreePage_none found] using start
      | some i =>
        simpa only [PageAlloc.getFreePage_some found, PageAlloc.setMap_start] using start
    | free p =>
      -- A call outside `mem_map` has no successor, and one inside writes a flag.
      simp only [step, PageAlloc.freePage, Option.bind_eq_bind, Option.pure_def] at taken
      split at taken
      · simp only [Option.bind_some, Option.some.injEq] at taken
        exact taken ▸ start
      · cases taken
  exact Transition.run_invariant keeps rfl ran

/-- The range holds every page that `mem_map` tracks. -/
def Covered (startMem endMem : U64) : Prop :=
  (pageAlignUp startMem).toNat + totalMemory.toNat ≤ (pageAlignDown endMem).toNat

/-- In a range that holds every tracked page the addresses do not wrap. -/
theorem covered_pageAddr {startMem endMem : U64} (covered : Covered startMem endMem)
    {alloc : PageAlloc} (start : alloc.phyStartAddress = pageAlignUp startMem) (i : Fin nrPages) :
    (alloc.pageAddr i).toNat = (pageAlignUp startMem).toNat + i.val * 4096 := by
  have bound : i.val < 4096 := i.isLt
  have top := (pageAlignDown endMem).isLt
  rw [Covered, totalMemory_toNat] at covered
  rw [PageAlloc.pageAddr, BitVec.toNat_add, BitVec.toNat_ofNat, start]
  omega

/-- A range that holds every tracked page is never left. -/
theorem staysInside_of_covered {startMem endMem : U64} (covered : Covered startMem endMem)
    {alloc : PageAlloc} (start : alloc.phyStartAddress = pageAlignUp startMem) :
    StaysInside startMem endMem alloc := by
  -- Every tracked page is in the range.
  have inside : ∀ i, Inside startMem endMem (alloc.pageAddr i) := by
    intro i
    have bound : i.val < 4096 := i.isLt
    have address := covered_pageAddr covered start i
    rw [Covered, totalMemory_toNat] at covered
    exact ⟨by omega, by omega⟩
  cases found : alloc.firstFree with
  | none =>
    have failed : alloc.getFreePage.1 = 0 := by rw [PageAlloc.getFreePage_none found]
    exact ⟨fun nonzero => absurd failed nonzero, fun _ => failed⟩
  | some i =>
    have got : alloc.getFreePage.1 = alloc.pageAddr i := by
      rw [PageAlloc.getFreePage_some found]
    refine ⟨fun _ => got ▸ inside i, fun taken => ?_⟩
    -- The free page lies in the range, so the range was not taken after all.
    have aligned : (alloc.pageAddr i).toNat % 4096 = 0 := by
      rw [covered_pageAddr covered start i, pageAlignUp_toNat]
      omega
    obtain ⟨j, same, busy⟩ := taken (alloc.pageAddr i) (inside i) aligned
    rw [PageAlloc.pageAddr_injective alloc same] at busy
    exact absurd (PageAlloc.firstFree_some found).1 busy

/-- After as many calls as a page's index the allocator hands out that page. -/
theorem gets_then (startMem endMem : U64) (i : Fin nrPages) :
    ∃ ledger, Transition.run step (List.replicate i.val .get) (init startMem endMem) =
        some ledger ∧
      ledger.alloc.phyStartAddress = pageAlignUp startMem ∧
      ledger.alloc.getFreePage.1 =
        pageAlignUp startMem + BitVec.ofNat 64 (i.val * 4096) := by
  obtain ⟨ledger, ran, start, taken⟩ := run_gets startMem endMem i.val (Nat.le_of_lt i.isLt)
  -- A history of calls on held pages is a history of calls.
  have wide : ∀ op before after, stepHeld op before = some after → step op before = some after := by
    intro op before after narrow
    cases op with
    | get => exact narrow
    | free p =>
      simp only [stepHeld] at narrow
      split at narrow
      · exact narrow
      · cases narrow
  refine ⟨ledger, Transition.run_mono wide ran, start, ?_⟩
  -- After `i` calls the first `i` pages are taken and page `i` is not.
  have free : ledger.alloc.memMap i = 0 := by
    by_contra busy
    exact absurd ((taken i).mp busy) (Nat.lt_irrefl _)
  obtain ⟨j, below, found⟩ := PageAlloc.firstFree_exists free
  have lowest : j = i := by
    have empty : ¬ j.val < i.val :=
      fun less => (taken j).mpr less (PageAlloc.firstFree_some found).1
    exact Fin.ext (by simp only [Fin.le_def] at below; omega)
  rw [PageAlloc.getFreePage_some found, lowest, PageAlloc.pageAddr, start]

/--
The allocator stays inside its range in every history exactly when the range holds every
tracked page.

`mem_map` tracks as many pages as the whole memory has, but counts them from the end of the image.
-/
theorem staysInside_iff (startMem endMem : U64) :
    (∀ ops ledger, Transition.run step ops (init startMem endMem) = some ledger →
      StaysInside startMem endMem ledger.alloc) ↔
    Covered startMem endMem := by
  constructor
  · intro stays
    -- The call after `k` others returns page `k`, whatever that is.
    have visited : ∀ k < 4096, ((pageAlignUp startMem).toNat + k * 4096) % 2 ^ 64 ≠ 0 →
        (pageAlignUp startMem).toNat ≤ ((pageAlignUp startMem).toNat + k * 4096) % 2 ^ 64 ∧
        ((pageAlignUp startMem).toNat + k * 4096) % 2 ^ 64 + 4096 ≤
          (pageAlignDown endMem).toNat := by
      intro k within nonzero
      obtain ⟨ledger, ran, -, got⟩ := gets_then startMem endMem ⟨k, nrPages_eq ▸ within⟩
      have address : ledger.alloc.getFreePage.1.toNat =
          ((pageAlignUp startMem).toNat + k * 4096) % 2 ^ 64 := by
        rw [got, BitVec.toNat_add, BitVec.toNat_ofNat]
        dsimp only
        omega
      have inside := (stays _ ledger ran).inside fun zero => nonzero (by rw [← address, zero]; rfl)
      rwa [Inside, address] at inside
    -- The last tracked page, and the one before it when the last one wraps to address zero.
    have last := visited 4095 (by omega)
    have before := visited 4094 (by omega)
    have top := (pageAlignDown endMem).isLt
    rw [Covered, totalMemory_toNat]
    omega
  · intro covered ops ledger ran
    exact staysInside_of_covered covered (start_run ran)

/-- With the image ending at `0x80300000`, the page after the last one in the DDR is handed out. -/
theorem staysInside_fails :
    (ddrEnd - 0x80300000).toNat ≤ totalMemory.toNat ∧
    ∃ ops ledger, Transition.run step ops (init 0x80300000 ddrEnd) = some ledger ∧
      ledger.alloc.getFreePage.1 = ddrEnd ∧ ¬ StaysInside 0x80300000 ddrEnd ledger.alloc := by
  refine ⟨by decide, ?_⟩
  -- The range has 3328 pages, and page number 3328 is behind them.
  obtain ⟨ledger, ran, -, got⟩ := gets_then 0x80300000 ddrEnd ⟨3328, by decide⟩
  have address : ledger.alloc.getFreePage.1 = ddrEnd := got.trans (by decide)
  refine ⟨_, ledger, ran, address, fun stays => ?_⟩
  have inside := stays.inside (by rw [address]; decide)
  rw [address] at inside
  exact absurd inside.2 (by decide)

end Ledger

end Benos
