import Benos.Mm.PageAlloc

/-! Histories of the page allocator: which pages are held, and where they lie. -/

namespace Benos

/-- One call of a history. -/
inductive PageOp where
  | get
  | free (p : U64)
  deriving DecidableEq

/-- The allocator together with the pages handed out and not yet given back. -/
structure Ledger where
  alloc : PageAlloc
  held : List U64

namespace Ledger

/-- The history begins after `mem_init`, with nothing handed out. -/
def init (startMem endMem : U64) : Ledger :=
  { alloc := PageAlloc.boot.memInit startMem endMem, held := [] }

/-- One call, undefined for a `free_page` outside `mem_map`. -/
def step : PageOp → Ledger → Option Ledger
  | .get, ledger =>
    let result := ledger.alloc.getFreePage
    -- A zero result reports failure and hands nothing out.
    some { alloc := result.2
           held := if result.1 = 0 then ledger.held else result.1 :: ledger.held }
  | .free p, ledger => do
    let alloc ← ledger.alloc.freePage p
    return { alloc, held := ledger.held.erase p }

/-- A call that respects the contract of `free_page`: only held pages are given back. -/
def stepHeld (op : PageOp) (ledger : Ledger) : Option Ledger :=
  match op with
  | .get => ledger.step .get
  | .free p => if p ∈ ledger.held then ledger.step (.free p) else none

end Ledger

/-- The tracked pages form an ordinary range of addresses, above zero and without wrapping. -/
structure Placed (base : U64) : Prop where
  above : 0 < base.toNat
  fits : base.toNat + totalMemory.toNat ≤ 2 ^ 64

namespace PageAlloc

/-- Inside an ordinary range the page address is computed without wrapping. -/
theorem pageAddr_toNat {alloc : PageAlloc} (placed : Placed alloc.phyStartAddress)
    (i : Fin nrPages) :
    (alloc.pageAddr i).toNat = alloc.phyStartAddress.toNat + i.val * 4096 := by
  have bound : i.val < 4096 := i.isLt
  have fits := placed.fits
  rw [totalMemory_toNat] at fits
  rw [pageAddr, BitVec.toNat_add, BitVec.toNat_ofNat]
  omega

/-- No tracked page is mistaken for the failure value. -/
theorem pageAddr_ne_zero {alloc : PageAlloc} (placed : Placed alloc.phyStartAddress)
    (i : Fin nrPages) : alloc.pageAddr i ≠ 0 := by
  intro zero
  -- The pages begin above zero and do not wrap.
  have address := pageAddr_toNat placed i
  have above := placed.above
  rw [zero] at address
  change 0 = _ at address
  omega

/-- Different pages have different addresses, wherever the range starts. -/
theorem pageAddr_injective (alloc : PageAlloc) {i j : Fin nrPages}
    (same : alloc.pageAddr i = alloc.pageAddr j) : i = j := by
  -- The offsets stay below sixteen mebibytes, so they agree as numbers.
  have offsets : BitVec.ofNat 64 (i.val * 4096) = BitVec.ofNat 64 (j.val * 4096) :=
    (BitVec.add_right_inj _).mp same
  have numbers := congrArg BitVec.toNat offsets
  simp only [BitVec.toNat_ofNat] at numbers
  have boundI : i.val < 4096 := i.isLt
  have boundJ : j.val < 4096 := j.isLt
  exact Fin.ext (by omega)

theorem pageAddr_ne (alloc : PageAlloc) {i j : Fin nrPages} (other : i ≠ j) :
    alloc.pageAddr i ≠ alloc.pageAddr j :=
  fun same => other (pageAddr_injective alloc same)

/-- The address-to-index division of `free_page` inverts the index-to-address map. -/
theorem freePage_pageAddr (alloc : PageAlloc) (i : Fin nrPages) :
    alloc.freePage (alloc.pageAddr i) =
      some (alloc.setMap i 0) := by
  have bound : i.val < 4096 := i.isLt
  -- Subtracting the base leaves the offset, and the division drops the page size again.
  have index : ((alloc.pageAddr i - alloc.phyStartAddress) / pageSize).toNat = i.val := by
    have offset : alloc.pageAddr i - alloc.phyStartAddress = BitVec.ofNat 64 (i.val * 4096) := by
      rw [pageAddr]
      bv_omega
    rw [offset, BitVec.toNat_udiv, BitVec.toNat_ofNat, pageSize_toNat]
    omega
  simp only [freePage, index, i.isLt, dite_true, Fin.eta]

end PageAlloc

namespace Ledger

/-- What every history keeps: `mem_map` records exactly the pages that are held. -/
structure Balanced (base : U64) (ledger : Ledger) : Prop where
  start : ledger.alloc.phyStartAddress = base
  distinct : ledger.held.Nodup
  tracked : ∀ p ∈ ledger.held, ∃ i, p = ledger.alloc.pageAddr i
  recorded : ∀ i, ledger.alloc.memMap i ≠ 0 ↔ ledger.alloc.pageAddr i ∈ ledger.held

/-- The empty history is balanced. -/
theorem balanced_init (startMem endMem : U64) :
    Balanced (pageAlignUp startMem) (init startMem endMem) := by
  constructor <;> simp [init, PageAlloc.memInit, PageAlloc.boot]

/-- A successful `get_free_page` sets one flag and hands out one address. -/
theorem step_get {ledger : Ledger} {i : Fin nrPages} (found : ledger.alloc.firstFree = some i) :
    ledger.step .get = some
      { alloc := ledger.alloc.setMap i 1
        held := if ledger.alloc.pageAddr i = 0 then ledger.held
          else ledger.alloc.pageAddr i :: ledger.held } := by
  simp only [step, PageAlloc.getFreePage_some found]

/-- Handing out a page keeps the record. -/
theorem balanced_get {base : U64} (placed : Placed base) {ledger next : Ledger}
    (balanced : Balanced base ledger) (taken : ledger.step .get = some next) :
    Balanced base next := by
  have placed : Placed ledger.alloc.phyStartAddress := balanced.start ▸ placed
  cases found : ledger.alloc.firstFree with
  | none =>
    -- A full allocator leaves the ledger as it was.
    simp only [step, PageAlloc.getFreePage_none found, if_true, Option.some.injEq] at taken
    exact taken ▸ balanced
  | some i =>
    have nonzero := PageAlloc.pageAddr_ne_zero placed i
    have free := (PageAlloc.firstFree_some found).1
    have fresh : ledger.alloc.pageAddr i ∉ ledger.held :=
      fun member => (balanced.recorded i).mpr member free
    simp only [step_get found, if_neg nonzero, Option.some.injEq] at taken
    subst taken
    refine ⟨balanced.start, List.nodup_cons.mpr ⟨fresh, balanced.distinct⟩, ?_, ?_⟩
    · intro p member
      rcases List.mem_cons.mp member with same | older
      · exact ⟨i, same⟩
      · exact balanced.tracked p older
    · -- One flag is set, and one page is added to the list; the others stay.
      intro j
      by_cases same : j = i
      · subst same
        simp
      · have elsewhere : ledger.alloc.pageAddr j ≠ ledger.alloc.pageAddr i :=
          PageAlloc.pageAddr_ne _ same
        simpa [PageAlloc.setMap_other _ _ same, elsewhere] using balanced.recorded j

/-- Giving back a held page keeps the record. -/
theorem balanced_free {base p : U64} {ledger next : Ledger} (balanced : Balanced base ledger)
    (member : p ∈ ledger.held) (taken : ledger.step (.free p) = some next) :
    Balanced base next := by
  -- A held page is one of those that are tracked.
  obtain ⟨i, same⟩ := balanced.tracked p member
  subst same
  simp only [step, PageAlloc.freePage_pageAddr, Option.bind_eq_bind, Option.bind_some,
    Option.pure_def, Option.some.injEq] at taken
  subst taken
  refine ⟨balanced.start, balanced.distinct.erase _, ?_, ?_⟩
  · intro q inside
    exact balanced.tracked q (List.mem_of_mem_erase inside)
  · -- The flag of the freed page is cleared, and it leaves the list; the others stay.
    intro j
    rw [PageAlloc.setMap_pageAddr, balanced.distinct.mem_erase_iff]
    by_cases same : j = i
    · subst same
      simp
    · have elsewhere : ledger.alloc.pageAddr j ≠ ledger.alloc.pageAddr i :=
        PageAlloc.pageAddr_ne _ same
      simpa [PageAlloc.setMap_other _ _ same, elsewhere] using balanced.recorded j

/-- Every history that frees only held pages keeps the record. -/
theorem balanced_run {startMem endMem : U64} (placed : Placed (pageAlignUp startMem))
    {ops : List PageOp} {ledger : Ledger}
    (ran : Transition.run stepHeld ops (init startMem endMem) = some ledger) :
    Balanced (pageAlignUp startMem) ledger := by
  refine Transition.run_invariant ?_ (balanced_init startMem endMem) ran
  intro op before after balanced taken
  -- Frees of pages that are not held are not part of such a history.
  cases op with
  | get => exact balanced_get placed balanced taken
  | free p =>
    simp only [stepHeld] at taken
    split at taken
    · exact balanced_free balanced ‹_› taken
    · cases taken

/-- The allocator fails exactly when every tracked page is held. -/
theorem getFreePage_zero {base : U64} (placed : Placed base) {ledger : Ledger}
    (balanced : Balanced base ledger) :
    ledger.alloc.getFreePage.1 = 0 ↔ ∀ i, ledger.alloc.pageAddr i ∈ ledger.held := by
  have placed : Placed ledger.alloc.phyStartAddress := balanced.start ▸ placed
  cases found : ledger.alloc.firstFree with
  | none =>
    have taken := PageAlloc.firstFree_none.mp found
    simp only [PageAlloc.getFreePage_none found, true_iff]
    exact fun i => (balanced.recorded i).mp (taken i)
  | some i =>
    -- A free page has a non-zero address and is not held.
    have free := (PageAlloc.firstFree_some found).1
    simp only [PageAlloc.getFreePage_some found, PageAlloc.pageAddr_ne_zero placed, false_iff,
      not_forall]
    exact ⟨i, fun member => (balanced.recorded i).mpr member free⟩

/-- A page that is handed out is the lowest one not held. -/
theorem getFreePage_lowest {base : U64} {ledger : Ledger} (balanced : Balanced base ledger)
    (nonzero : ledger.alloc.getFreePage.1 ≠ 0) :
    ∃ i, ledger.alloc.getFreePage.1 = ledger.alloc.pageAddr i ∧
      ledger.alloc.pageAddr i ∉ ledger.held ∧
      ∀ j < i, ledger.alloc.pageAddr j ∈ ledger.held := by
  -- The scan stops at the first flag that is clear.
  cases found : ledger.alloc.firstFree with
  | none => exact absurd (by rw [PageAlloc.getFreePage_none found]) nonzero
  | some i =>
    obtain ⟨free, before⟩ := PageAlloc.firstFree_some found
    refine ⟨i, by rw [PageAlloc.getFreePage_some found], ?_, ?_⟩
    · exact fun member => (balanced.recorded i).mpr member free
    · exact fun j below => (balanced.recorded j).mp (before j below)

/-- Giving back a held page clears its flag and no other. -/
theorem freePage_exact {base p : U64} {ledger : Ledger} (balanced : Balanced base ledger)
    (member : p ∈ ledger.held) :
    ∃ freed, ledger.alloc.freePage p = some freed ∧
      freed.phyStartAddress = ledger.alloc.phyStartAddress ∧
      ∀ i, freed.memMap i =
        if ledger.alloc.pageAddr i = p then 0 else ledger.alloc.memMap i := by
  obtain ⟨i, same⟩ := balanced.tracked p member
  subst same
  refine ⟨_, PageAlloc.freePage_pageAddr ledger.alloc i, rfl, fun j => ?_⟩
  -- Distinct pages have distinct addresses, so no other flag is meant.
  by_cases same : j = i
  · subst same
    simp
  · have elsewhere : ledger.alloc.pageAddr j ≠ ledger.alloc.pageAddr i :=
      PageAlloc.pageAddr_ne _ same
    rw [if_neg elsewhere, PageAlloc.setMap_other _ _ same]

/-- Held pages are aligned to the page size. -/
theorem held_aligned {base p : U64} (placed : Placed base) (aligned : base.toNat % 4096 = 0)
    {ledger : Ledger} (balanced : Balanced base ledger) (member : p ∈ ledger.held) :
    p.toNat % 4096 = 0 := by
  obtain ⟨i, same⟩ := balanced.tracked p member
  have address := PageAlloc.pageAddr_toNat (balanced.start ▸ placed) i
  rw [same, address, balanced.start]
  omega

/-- The range of `kernel_main`, whose image ends somewhere in the DDR, is an ordinary one. -/
theorem placed_ddr {imageEnd : U64} (low : ddrBase.toNat ≤ imageEnd.toNat)
    (high : imageEnd.toNat ≤ ddrEnd.toNat) : Placed (pageAlignUp imageEnd) := by
  have base : ddrBase.toNat = 2147483648 := rfl
  have top : ddrEnd.toNat = 2164260864 := rfl
  -- The whole range is far from both ends of the address space.
  constructor <;> rw [pageAlignUp_toNat]
  · omega
  · rw [totalMemory_toNat]
    omega

/-- What holds between any two calls: the allocator doubles no page and loses none. -/
structure NeitherDoubledNorLost (startMem : U64) (ledger : Ledger) : Prop where
  /-- The held pages are pairwise distinct. -/
  distinct : ledger.held.Nodup
  /-- Each is aligned and is one of the tracked pages above `phy_start_address`. -/
  tracked : ∀ p ∈ ledger.held, p.toNat % 4096 = 0 ∧
    ∃ i : Fin nrPages, p = pageAlignUp startMem + BitVec.ofNat 64 (i.val * 4096)
  /-- A flag of `mem_map` is set for the held pages and no others. -/
  recorded : ∀ i, ledger.alloc.memMap i ≠ 0 ↔ ledger.alloc.pageAddr i ∈ ledger.held
  /-- `free_page` releases the page it is given and leaves every other flag alone. -/
  released : ∀ p ∈ ledger.held, ∃ freed, ledger.alloc.freePage p = some freed ∧
    freed.phyStartAddress = ledger.alloc.phyStartAddress ∧
    ∀ i, freed.memMap i = if ledger.alloc.pageAddr i = p then 0 else ledger.alloc.memMap i
  /-- `get_free_page` fails exactly when every tracked page is held. -/
  exhausted : ledger.alloc.getFreePage.1 = 0 ↔ ∀ i, ledger.alloc.pageAddr i ∈ ledger.held
  /-- Otherwise it returns the lowest page that is not held. -/
  lowest : ledger.alloc.getFreePage.1 ≠ 0 →
    ∃ i, ledger.alloc.getFreePage.1 = ledger.alloc.pageAddr i ∧
      ledger.alloc.pageAddr i ∉ ledger.held ∧ ∀ j < i, ledger.alloc.pageAddr j ∈ ledger.held

/--
No page is handed out twice and none is lost.

The range that `mem_init` sets up must not contain page zero, whose address means failure.
-/
theorem pages_neither_doubled_nor_lost {startMem endMem : U64}
    (placed : Placed (pageAlignUp startMem)) {ops : List PageOp} {ledger : Ledger}
    (ran : Transition.run stepHeld ops (init startMem endMem) = some ledger) :
    NeitherDoubledNorLost startMem ledger := by
  have balanced := balanced_run placed ran
  -- What remains is that held pages are whole pages of the range.
  have aligned : (pageAlignUp startMem).toNat % 4096 = 0 := by
    rw [pageAlignUp_toNat]
    omega
  refine ⟨balanced.distinct, fun p member => ⟨held_aligned placed aligned balanced member, ?_⟩,
    balanced.recorded, fun p member => freePage_exact balanced member,
    getFreePage_zero placed balanced, getFreePage_lowest balanced⟩
  obtain ⟨i, same⟩ := balanced.tracked p member
  exact ⟨i, by rw [same, PageAlloc.pageAddr, balanced.start]⟩

/-- A run of calls to `get_free_page` alone takes the pages from the bottom up. -/
theorem run_gets (startMem endMem : U64) (count : Nat) (within : count ≤ nrPages) :
    ∃ ledger, Transition.run stepHeld (List.replicate count .get) (init startMem endMem) =
        some ledger ∧
      ledger.alloc.phyStartAddress = pageAlignUp startMem ∧
      ∀ i, ledger.alloc.memMap i ≠ 0 ↔ i.val < count := by
  induction count with
  | zero => exact ⟨_, rfl, rfl, by simp [init, PageAlloc.memInit, PageAlloc.boot]⟩
  | succ count ih =>
    obtain ⟨before, ran, start, taken⟩ := ih (by omega)
    -- The lowest free page is the first one not yet taken.
    have found : before.alloc.firstFree = some ⟨count, by omega⟩ := by
      have free : before.alloc.memMap ⟨count, by omega⟩ = 0 := by
        by_contra nonzero
        exact absurd ((taken _).mp nonzero) (Nat.lt_irrefl count)
      obtain ⟨j, below, found⟩ := PageAlloc.firstFree_exists free
      have empty : ¬ j.val < count :=
        fun less => (taken j).mpr less (PageAlloc.firstFree_some found).1
      have lowest : j = ⟨count, by omega⟩ :=
        Fin.ext (by simp only [Fin.le_def] at below ⊢; omega)
      exact lowest ▸ found
    obtain ⟨held, last⟩ : ∃ held, before.step .get =
        some ⟨before.alloc.setMap ⟨count, by omega⟩ 1, held⟩ := ⟨_, step_get found⟩
    refine ⟨⟨before.alloc.setMap ⟨count, by omega⟩ 1, held⟩, ?_, start, ?_⟩
    · simp only [List.replicate_succ', Transition.run_append, ran, Option.bind_some,
        Transition.run_cons, stepHeld, last, Transition.run_nil]
    · -- The flags that are set are those up to and with this page.
      intro i
      by_cases same : i = ⟨count, by omega⟩
      · subst same
        simp
      · have other : i.val ≠ count := fun equal => same (Fin.ext equal)
        rw [PageAlloc.setMap_other _ _ same, taken i]
        omega

/-- Three pages taken with an image that ends at `0x80300010`. -/
theorem pages_neither_doubled_nor_lost_boot :
    ∃ ledger, Transition.run stepHeld (List.replicate 3 .get) (init 0x80300010 ddrEnd) =
        some ledger ∧ NeitherDoubledNorLost 0x80300010 ledger := by
  obtain ⟨ledger, ran, -⟩ := run_gets 0x80300010 ddrEnd 3 (by decide)
  have placed : Placed (pageAlignUp 0x80300010) := placed_ddr (by decide) (by decide)
  exact ⟨ledger, ran, pages_neither_doubled_nor_lost placed ran⟩

end Ledger

end Benos
