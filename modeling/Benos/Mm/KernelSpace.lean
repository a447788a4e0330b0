import Benos.Mm.AddressSpace

/-! The address space of the kernel: what the boot code and `paging_init` map, and nothing else. -/

namespace Benos

open Sv39

/-! ### The devices -/

/-- `PLIC_BASE`. -/
def plicBase : U64 := 0xc000000

/-- `PLIC_END`. -/
def plicEnd : U64 := 0x10000000

/-- `VIRT_CLINT_ADDR`. -/
def virtClintAddr : U64 := 0x2000000

/-- `VIRT_CLINT_SIZE`. -/
def virtClintSize : U64 := 0x10000

/-- `UART`. -/
def uart : U64 := 0x10000000

/-- `UART_SIZE`. -/
def uartSize : U64 := 4096

section Paging

variable {σ : Type} (alloc : AllocPgtable σ) (fuel : Nat) (idmapPgDir : U64)

/-- `create_mmio_mapping` of a board with a PLIC. -/
def createMmioMapping (s : Mm σ) : Option (Mm σ) := do
  let s ← createPgdMapping alloc pageKernel fuel idmapPgDir plicBase plicBase (plicEnd - plicBase) s
  let s ← createPgdMapping alloc pageKernel fuel idmapPgDir virtClintAddr virtClintAddr
    virtClintSize s
  createPgdMapping alloc pageKernel fuel idmapPgDir uart uart uartSize s

/-- `paging_init`. -/
def pagingInit (s : Mm σ) : Option (Mm σ) := createMmioMapping alloc fuel idmapPgDir s

end Paging

/-- The mappings that `create_mmio_mapping` makes. -/
def mmioCalls : List MapCall :=
  [.direct plicBase plicBase (plicEnd - plicBase) pageKernel,
    .direct virtClintAddr virtClintAddr virtClintSize pageKernel,
    .direct uart uart uartSize pageKernel]

/-- `paging_init` is the run of them. -/
theorem pagingInit_run {σ : Type} (alloc : AllocPgtable σ) (fuel : Nat) (root : Ppn) (s : Mm σ) :
    pagingInit alloc fuel (frameAddr root) s =
      Transition.run (mapStep alloc fuel root) mmioCalls s := by
  simp only [pagingInit, createMmioMapping, mmioCalls, Transition.run_cons, mapStep, MapCall.run]
  -- The last call ends the run.
  refine congrArg _ (funext fun s => congrArg _ (funext fun s => ?_))
  exact (Option.bind_fun_some _).symm

/-! ### What is mapped -/

/-- An address that leads to itself, of which 39 bits count. -/
def identity (prot va : U64) : Mapped := ⟨va.toNat % 2 ^ 39, prot.setWidth 10⟩

/-- A region of the low 512 GiB. -/
structure Region where
  base : Nat
  bytes : Nat

/-- An address in a region, of which 39 bits count. -/
def Region.has (region : Region) (va : U64) : Bool :=
  region.base ≤ va.toNat % 2 ^ 39 && va.toNat % 2 ^ 39 < region.base + region.bytes

/-- That is at less than its size from its base. -/
theorem Region.has_iff (region : Region) (va : U64) :
    region.has va = true ↔ region.base ≤ va.toNat % 2 ^ 39 ∧
      va.toNat % 2 ^ 39 - region.base < region.bytes := by
  simp only [Region.has, Bool.and_eq_true, decide_eq_true_eq]
  omega

/-- The registers of the interrupt controller, the timer and the serial port. -/
def mmioRegions : List Region := [⟨0xc000000, 0x4000000⟩, ⟨0x2000000, 0x10000⟩, ⟨0x10000000, 4096⟩]

/-- The kernel's address space: its memory with every permission, the devices without execution. -/
def kernelSpace (start : U64) (va : U64) : Option Mapped :=
  if canonical va then
    if InSections start ddrEnd va then some (identity sectionKernelRwx va)
    else if mmioRegions.any (Region.has · va) then some (identity pageKernel va)
    else none
  else none

/-- A range mapped to itself gives its part the places of a region. -/
theorem rangePart_identity {base size : U64} (region : Region)
    (aligned : pageAlignDown base = base) (same : base.toNat = region.base)
    (low : region.base < 2 ^ 39) (bytes : rangeBytes base size = region.bytes) (prot va : U64) :
    rangePart base base size prot va =
      if region.has va then some (identity prot va) else none := by
  rw [rangePart, aligned, bytes, same, Nat.mod_eq_of_lt low]
  have covers := region.has_iff va
  by_cases inside : region.has va = true
  · have total : region.base + (va.toNat % 2 ^ 39 - region.base) = va.toNat % 2 ^ 39 := by
      have above := (covers.mp inside).1
      omega
    rw [if_pos inside, if_pos (covers.mp inside), total, identity]
  · rw [if_neg inside, if_neg (mt covers.mpr inside)]

/-- Regions that are mapped to themselves make the address space of all of them. -/
theorem overlay_identity (regions : List Region) {parts : List (U64 → Option Mapped)} (prot : U64)
    (covers : parts = regions.map fun region va =>
      if region.has va then some (identity prot va) else none) (base : U64 → Option Mapped)
    (va : U64) :
    Overlay.overlay parts base va =
      if regions.any (Region.has · va) then some (identity prot va) else base va := by
  subst covers
  induction regions generalizing base with
  | nil => rfl
  | cons region rest ih =>
    rw [List.map_cons, Overlay.overlay_cons, ih, List.any_cons]
    -- A region on top of another has the same places.
    by_cases later : rest.any (Region.has · va) = true
    · rw [later, Bool.or_true]
      rfl
    · rw [Bool.eq_false_of_not_eq_true later, Bool.or_false]
      by_cases here : region.has va = true
      · rw [here]
        rfl
      · rw [Bool.eq_false_of_not_eq_true here]
        rfl

/-- The address space behind `create_page_table` is that of the sections. -/
theorem Sectioned.addressSpace {text : BootText} {h : Hart} {root : Ppn} {mem : Memory}
    (request : SectionRequest h root) (a1 : h.get .a1 = text.start) (a2 : h.get .a2 = text.start)
    (a3 : h.get .a3 = ddrEnd) (a4 : h.get .a4 = sectionKernelRwx)
    (sectioned : Sectioned mem root (text.start.toNat / 2 ^ 21)
      ((ddrEnd.toNat + (2 ^ 21 - 1)) / 2 ^ 21)
      (sectionPmd text.start sectionKernelRwx (text.start.toNat / 2 ^ 21))) (va : U64) :
    Benos.addressSpace mem root va =
      if InSections text.start ddrEnd va then some (identity sectionKernelRwx va) else none := by
  have call := request.call
  have ended := request.ended
  have aligned := request.virtAligned
  have within := @SectionRequest.within _ _ request
  have permission := request.permission
  simp only [a1, a2, a3, a4] at call ended aligned within permission
  have here : InSections text.start ddrEnd va ↔ _ := inSections_iff aligned
  -- Only the slots that the sections fill lead anywhere.
  by_cases inside : InSlots (text.start.toNat / 2 ^ 21) ((ddrEnd.toNat + (2 ^ 21 - 1)) / 2 ^ 21)
      (va.toNat / 4096)
  · rw [if_pos (here.mpr inside), Benos.addressSpace, Sv39.translate, walk_eq_pageWalk,
      sectioned.walk_inside ended call.region inside]
    have physical := within inside.2
    have place := sectionPmd_target aligned physical permission
      (show va.toNat % 2 ^ 39 / 2 ^ 21 = va.toNat / 4096 % 2 ^ 27 / 2 ^ 9 by omega) inside.1
    have attributes : (sectionPmd text.start sectionKernelRwx (text.start.toNat / 2 ^ 21)
        (va.toNat / 4096 % 2 ^ 27 / 2 ^ 9)).setWidth 10 = sectionKernelRwx.setWidth 10 := by
      apply BitVec.eq_of_getLsbD_eq
      intro i low
      rw [BitVec.getLsbD_setWidth, BitVec.getLsbD_setWidth, sectionPmd_prot physical permission low]
    rw [sectionPmd_leaf aligned physical permission]
    dsimp only [Option.map_some]
    rw [place, attributes, identity]
    refine congrArg some (congrArg (Mapped.mk · _) ?_)
    have lower := inside.1
    omega
  · rw [if_neg fun member => inside (here.mp member), Benos.addressSpace, Sv39.translate,
      walk_eq_pageWalk,
      leaf_of_empty (sectioned.walk_outside ended call.region call.low inside)]
    rfl

/-- No region of a device is among the sections. -/
theorem mmio_apart {text : BootText} (inMemory : ddrBase.toNat ≤ text.textBoot.toNat) :
    ∀ call ∈ mmioCalls, ∀ va, InRange call.virt call.size va → ¬ InSections text.start ddrEnd va := by
  have start := text.start_toNat
  have base : ddrBase.toNat = 0x80000000 := by decide
  -- The devices lie below the memory.
  have low : ∀ call ∈ mmioCalls, endNat (pageAlignUp (call.virt + call.size)) ≤ 0x10001000 := by
    decide
  intro call member va inside mapped
  have bound := low call member
  have upper := inside.2
  have lower := mapped.1
  omega

/-- The parts of the devices, each mapped to itself. -/
theorem mmioCalls_parts :
    mmioCalls.map MapCall.part = mmioRegions.map fun region va =>
      if region.has va then some (identity pageKernel va) else none := by
  have part (base size : U64) (region : Region) (aligned : pageAlignDown base = base)
      (same : base.toNat = region.base) (low : region.base < 2 ^ 39)
      (bytes : rangeBytes base size = region.bytes) :
      MapCall.part (.direct base base size pageKernel) = fun va =>
        if region.has va then some (identity pageKernel va) else none :=
    funext fun va => rangePart_identity region aligned same low bytes pageKernel va
  simp only [mmioCalls, mmioRegions, List.map_cons, List.map_nil]
  rw [part plicBase (plicEnd - plicBase) ⟨0xc000000, 0x4000000⟩ (by decide) (by decide) (by decide)
      (by decide),
    part virtClintAddr virtClintSize ⟨0x2000000, 0x10000⟩ (by decide) (by decide) (by decide)
      (by decide),
    part uart uartSize ⟨0x10000000, 4096⟩ (by decide) (by decide) (by decide) (by decide)]

/--
`create_page_table` and then `paging_init`, with 37 free pages for tables, map the memory of the
kernel and its devices to themselves. No other address leads anywhere, an alias of one of these
included, and no entry is touched outside its table.
-/
theorem pagingInit_space {text : BootText} {h : Hart} {root : Ppn} {fuel : Nat}
    (layout : BootLayout text h root) (fueled : 1024 ≤ fuel) :
    ∃ h', createPageTable text fuel h = some h' ∧
      ∀ s : Mm PageAlloc, TakesOver h'.mem root s → 37 ≤ s.pool.freePages.length →
        ∃ s', pagingInit earlyPgtableAlloc fuel (frameAddr root) s = some s' ∧
          (∀ va, hartSpace s'.mem root va = kernelSpace text.start va) ∧
          ∀ access ∈ s'.touched, InTable access := by
  obtain ⟨h', atCall, built, -, -, request, a1, a2, a3, a4, sectioned⟩ :=
    createPageTable_sections layout fueled
  have call := request.call
  have ended := request.ended
  have aligned := request.virtAligned
  simp only [a1, a2, a3, a4] at call ended aligned
  refine ⟨h', built, fun s takes enough => ?_⟩
  have held := sectioned.congr takes.directory
  have divided := held.divided layout.fits ended call.region call.low takes.distinct takes.fresh
  -- Beside the sections nothing blocks a mapping.
  have clear : ∀ call ∈ mmioCalls, ∀ va, InRange call.virt call.size va →
      Unblocked s.mem root va := by
    intro call member va inside
    rw [Unblocked, walk_eq_pageWalk]
    exact divided.clear _
      (mt (inSections_iff aligned).mpr (mmio_apart layout.inMemory.1 call member va inside))
  have mappable : ∀ call ∈ mmioCalls, Mappable call.phys call.virt call.size call.prot := by
    simp only [mmioCalls, List.forall_mem_cons]
    exact ⟨⟨⟨by decide, by decide⟩, leafProt_pageKernel, by decide⟩,
      ⟨⟨by decide, by decide⟩, leafProt_pageKernel, by decide⟩,
      ⟨⟨by decide, by decide⟩, leafProt_pageKernel, by decide⟩,
      fun _ none_ => absurd none_ List.not_mem_nil⟩
  have tables_ : callTables mmioCalls = 37 := by decide
  obtain ⟨s', ran, laid⟩ := mapCalls_run earlyPgtableAlloc_supplies
    (Nat.le_trans (by decide) fueled) divided.sound mappable clear (tables_ ▸ enough)
  refine ⟨s', (pagingInit_run _ _ _ _).trans ran, fun va => ?_, fun access member => ?_⟩
  · rw [hartSpace, laid.space, overlay_identity mmioRegions pageKernel mmioCalls_parts,
      held.addressSpace request a1 a2 a3 a4, kernelSpace]
    refine if_congr Iff.rfl ?_ rfl
    -- The sections and the devices have no address in common.
    by_cases memory : InSections text.start ddrEnd va
    · have start := text.start_toNat
      have base : ddrBase.toNat = 0x80000000 := by decide
      have inMemory := layout.inMemory.1
      have lower := memory.1
      have none_ : mmioRegions.any (Region.has · va) = false := by
        simp only [mmioRegions, List.any_cons, List.any_nil, Region.has, Bool.or_eq_false_iff,
          Bool.and_eq_false_iff, decide_eq_false_iff_not, and_true]
        omega
      rw [none_, if_pos memory, if_pos memory]
      rfl
    · rw [if_neg memory, if_neg memory]
  · rcases laid.touched access member with before | now
    · rw [takes.untouched] at before
      exact absurd before List.not_mem_nil
    · exact now

/-- The kernel at the load address, with every page free; an alias of the serial port is a fault. -/
theorem pagingInit_space_boot :
    ∃ h' s', createPageTable bootText 1024 bootHart = some h' ∧
      pagingInit earlyPgtableAlloc 1024 (frameAddr idmapPgDir) (bootedWith h'.mem) = some s' ∧
      hartSpace s'.mem idmapPgDir 0x10000005 = some ⟨0x10000005, 0xE7⟩ ∧
      hartSpace s'.mem idmapPgDir 0x80212345 = some ⟨0x80212345, 0xCF⟩ ∧
      hartSpace s'.mem idmapPgDir 0x8010000005 = none := by
  obtain ⟨h', built, maps⟩ := pagingInit_space bootLayout (Nat.le_refl 1024)
  have free : (bootedWith h'.mem).pool.freePages.length = 4096 := poolWith_zero_length
  obtain ⟨s', ran, space, _⟩ := maps (bootedWith h'.mem) (bootedWith_takesOver h'.mem)
    (by rw [free]; decide)
  exact ⟨h', s', built, ran, (space _).trans (by decide), (space _).trans (by decide),
    (space _).trans (by decide)⟩

end Benos
