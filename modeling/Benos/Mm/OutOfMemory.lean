import Benos.Mm.PageHistory
import Benos.Mm.Stage2

/-! Mapping with an allocator that runs out of pages, which no caller of it looks at. -/

namespace Benos

open Sv39

variable {σ : Type}

/-- `set_vs_mapping_page`, up to its fence. -/
def setVsMappingPage (alloc : AllocPgtable σ) (fuel : Nat) (vsPageTableDir gva gpa : U64)
    (s : Mm σ) : Option (Mm σ) :=
  createVsPgdMapping alloc pageKernel fuel vsPageTableDir gpa gva pageSize s

/-- The ways the builder is called: directly, for a fault of a guest, or for a page of a guest. -/
inductive MapCall where
  | direct (phys virt size prot : U64)
  | stage2 (htval stval scause : U64)
  | vs (gva gpa : U64)

namespace MapCall

/-- The call, with the directory it works on. -/
def run (alloc : AllocPgtable σ) (fuel : Nat) (pgdir : U64) : MapCall → Mm σ → Option (Mm σ)
  | direct phys virt size prot, s => createPgdMapping alloc prot fuel pgdir phys virt size s
  | stage2 htval stval scause, s => stage2PageFault alloc fuel pgdir htval stval scause s
  | vs gva gpa, s => setVsMappingPage alloc fuel pgdir gva gpa s

/-- The address a mapping starts from. -/
def virt : MapCall → U64
  | direct _ virt _ _ => virt
  | stage2 htval stval _ => ((htval <<< 2) ||| (stval &&& 0x3)) &&& pageMask
  | vs gva _ => gva

/-- The physical address it is mapped to. -/
def phys : MapCall → U64
  | direct phys _ _ _ => phys
  | stage2 htval stval _ => ((htval <<< 2) ||| (stval &&& 0x3)) &&& pageMask
  | vs _ gpa => gpa

/-- The size of the mapping. -/
def size : MapCall → U64
  | direct _ _ size _ => size
  | stage2 _ _ _ => pageSize
  | vs _ _ => pageSize

/-- The attributes of its entries. -/
def prot : MapCall → U64
  | direct _ _ _ prot => prot
  | stage2 _ _ scause =>
    if scause == causeStoreGuestPageFault then pageWriteExec else pageReadExec
  | vs _ _ => pageKernel

/-- Every call is one of the builder. -/
theorem run_eq (alloc : AllocPgtable σ) (fuel : Nat) (pgdir : U64) (call : MapCall) (s : Mm σ) :
    call.run alloc fuel pgdir s =
      createPgdMapping alloc call.prot fuel pgdir call.phys call.virt call.size s := by
  cases call <;> rfl

end MapCall

/-! ### A note of every page that is cleared -/

/-- An allocation function with a note of every page it returned, all of which it has cleared. -/
def noted (alloc : AllocPgtable σ) : AllocPgtable (σ × List U64) := fun mem (pool, cleared) =>
  let (phys, mem, pool) := alloc mem pool
  (phys, mem, pool, phys :: cleared)

/-- A state with nothing noted. -/
def Mm.noting (s : Mm σ) : Mm (σ × List U64) :=
  { mem := s.mem, pool := (s.pool, []), touched := s.touched }

/-- A state without its notes. -/
def Mm.forget (s : Mm (σ × List U64)) : Mm σ :=
  { mem := s.mem, pool := s.pool.1, touched := s.touched }

section Forget

variable (alloc : AllocPgtable σ)

/-- Opening an entry does not depend on the notes. -/
theorem openEntry_forget (entryNone : U64 → Bool) (table entry : U64) (s : Mm (σ × List U64)) :
    (s.openEntry (noted alloc) entryNone table entry).forget =
      s.forget.openEntry alloc entryNone table entry := by
  -- Both see the same entry, and either call the allocation function or do not.
  cases empty : entryNone (s.mem entry) <;>
    simp only [Mm.openEntry, Mm.touch, Mm.forget, empty] <;> rfl

/-- A loop does not depend on the notes when its body does not. -/
theorem splitLoop_forget {levelAddrEnd : U64 → U64 → U64}
    {body : (table entryp addr next phys : U64) → Mm (σ × List U64) → Option (Mm (σ × List U64))}
    {plain : (table entryp addr next phys : U64) → Mm σ → Option (Mm σ)}
    (agree : ∀ table entryp addr next phys s,
      (body table entryp addr next phys s).map Mm.forget =
        plain table entryp addr next phys s.forget)
    (fuel : Nat) (table entryp addr end_ phys : U64) (s : Mm (σ × List U64)) :
    (splitLoop levelAddrEnd body fuel table entryp addr end_ phys s).map Mm.forget =
      splitLoop levelAddrEnd plain fuel table entryp addr end_ phys s.forget := by
  induction fuel generalizing entryp addr phys s with
  | zero => rfl
  | succ fuel ih =>
    rw [splitLoop, splitLoop, ← agree]
    -- The two bodies end in the same way, and the loops go on alike.
    cases body table entryp addr (levelAddrEnd addr end_) phys s with
    | none => rfl
    | some s' =>
      simp only [Option.map_some]
      split
      · exact ih _ _ _ s'
      · rfl

/-- Neither does `alloc_init_pte` depend on the notes. -/
theorem allocInitPte_forget (prot : U64) (fuel : Nat) (table pmdp addr end_ phys : U64)
    (s : Mm (σ × List U64)) :
    (allocInitPte (noted alloc) prot fuel table pmdp addr end_ phys s).map Mm.forget =
      allocInitPte alloc prot fuel table pmdp addr end_ phys s.forget := by
  simp only [allocInitPte, allocInitPteLoop_eq, ← openEntry_forget alloc pmdNone table pmdp s]
  exact splitLoop_forget (fun _ _ _ _ _ _ => rfl) _ _ _ _ _ _ _

/-- Nor `alloc_init_pmd`. -/
theorem allocInitPmd_forget (prot : U64) (fuel : Nat) (table pgdp addr end_ phys : U64)
    (s : Mm (σ × List U64)) :
    (allocInitPmd (noted alloc) prot fuel table pgdp addr end_ phys s).map Mm.forget =
      allocInitPmd alloc prot fuel table pgdp addr end_ phys s.forget := by
  simp only [allocInitPmd, ← openEntry_forget alloc pgdNone table pgdp s]
  exact splitLoop_forget (allocInitPte_forget alloc prot fuel) _ _ _ _ _ _ _

/-- The builder does with the notes what it does without. -/
theorem createPgdMapping_forget (prot : U64) (fuel : Nat) (pgdir phys virt size : U64)
    (s : Mm (σ × List U64)) :
    (createPgdMapping (noted alloc) prot fuel pgdir phys virt size s).map Mm.forget =
      createPgdMapping alloc prot fuel pgdir phys virt size s.forget :=
  splitLoop_forget (allocInitPmd_forget alloc prot fuel) _ _ _ _ _ _ s

end Forget

/-- The notes hold pages of the supply, until the supply has run out and page 0 is noted. -/
theorem noted_provision {alloc : AllocPgtable σ} {pages : σ → List U64}
    (supplies : Supplies alloc pages)
    (fails : ∀ mem pool, pages pool = [] → (alloc mem pool).1 = 0) (supply : List U64) :
    Provision (noted alloc) (fun pool => pages pool.1)
      (fun pool => (∀ p ∈ pool.2, p ∈ supply) ∧ ∀ p ∈ pages pool.1, p ∈ supply)
      (fun pool => 0 ∈ pool.2) where
  next mem pool p rest supply := supplies.next mem pool.1 p rest supply
  fine := by
    rintro mem ⟨pool, cleared⟩ some_ ⟨old, left⟩
    obtain ⟨p, rest, here⟩ := List.exists_cons_of_ne_nil some_
    obtain ⟨returned, -, remaining⟩ := supplies.next mem pool p rest here
    -- The page that is handed out was in the supply, and so were those that are left.
    refine ⟨fun q member => ?_, fun q member => left q ?_⟩
    · rcases List.mem_cons.mp member with rfl | older
      · exact left _ (by rw [here, returned]; exact List.mem_cons_self)
      · exact old q older
    · have member : q ∈ pages (alloc mem pool).2.2 := member
      rw [remaining] at member
      rw [here]
      exact List.mem_cons_of_mem p member
  fails mem pool none_ := List.mem_cons.mpr (Or.inl (fails mem pool.1 none_).symm)
  sticky mem pool failed := List.mem_cons_of_mem _ failed

/-- With no page left `early_pgtable_alloc` returns 0, which `get_free_page` returned to it. -/
theorem earlyPgtableAlloc_fails (mem : Memory) (pool : PageAlloc) (none_ : pool.freePages = []) :
    (earlyPgtableAlloc mem pool).1 = 0 := by
  have taken : pool.firstFree = none := by
    rw [PageAlloc.firstFree_none]
    intro i free
    -- A free page would be in the list.
    have member : pool.pageAddr i ∈ pool.freePages :=
      List.mem_map_of_mem (List.mem_filter.mpr ⟨List.mem_finRange i, by simp [free]⟩)
    rw [none_] at member
    cases member
  simp only [earlyPgtableAlloc, PageAlloc.getFreePage_none taken]

/-! ### Containment -/

/-- The bytes of physical page 0. -/
def InPageZero (addr : U64) : Prop := addr.toNat < pageSize.toNat

instance (addr : U64) : Decidable (InPageZero addr) := inferInstanceAs (Decidable (_ < _))

/-- What a mapping leaves alone: page 0, and the translations outside of its range. -/
structure Contained (root : Ppn) (virt size : U64) (s s' : Mm (σ × List U64)) : Prop where
  /-- No entry of a directory points to page frame 0. -/
  entries : ∀ P, 0 < P.length → P.length ≤ 2 →
    Radix.descend child (tables s'.mem) root P ≠ some 0
  /-- No byte of page 0 is cleared. -/
  cleared : ∀ p ∈ s'.pool.2, p ∈ s.pool.2 ∨
    ∀ addr, InPageZero addr → pageSize.toNat ≤ (addr - p).toNat
  /-- No entry in page 0 is read or written, and no table there is walked. -/
  touched : ∀ access ∈ s'.touched, access ∈ s.touched ∨
    ¬ InPageZero access.table ∧ ¬ InPageZero access.entry
  /-- Addresses that no address of the range shares its indices with translate as before. -/
  others : ∀ va, (∀ other, InRange virt size other → ¬ SameIndices va other) →
    translate s'.mem root va = translate s.mem root va

/-- A page frame other than the first one does not meet it. -/
theorem frameAddr_apart {page : Ppn} (other : page ≠ 0) {addr : U64} (zero : InPageZero addr) :
    pageSize.toNat ≤ (addr - frameAddr page).toNat := by
  have positive : page.toNat ≠ 0 := fun same => other (BitVec.eq_of_toNat_eq same)
  have bound := page.isLt
  -- The frame starts at the end of page 0 or later.
  rw [InPageZero, pageSize_toNat] at zero
  rw [pageSize_toNat, BitVec.toNat_sub, frameAddr_toNat]
  omega

/-- Nor do its entries. -/
theorem entryAddr_apart {page : Ppn} (other : page ≠ 0) (index : Index) :
    ¬ InPageZero (entryAddr page index) := by
  have positive : page.toNat ≠ 0 := fun same => other (BitVec.eq_of_toNat_eq same)
  rw [InPageZero, entryAddr_toNat, pageSize_toNat]
  omega

section OutOfMemory

variable {root : Ppn} {s : Mm PageAlloc} {fuel : Nat}

/-- The allocator hands out no page 0. -/
theorem freePages_ne_zero {pool : PageAlloc} (placed : Placed pool.phyStartAddress) :
    ∀ p ∈ pool.freePages, p ≠ 0 := by
  intro p member
  obtain ⟨i, -, rfl⟩ := List.mem_map.mp member
  exact PageAlloc.pageAddr_ne_zero placed i

/-- A state in which nothing has been noted is as sound as it was. -/
theorem Sound.noting {pages : σ → List U64} {s : Mm σ} (sound : Sound pages root s) :
    Sound (fun pool => pages pool.1) root s.noting :=
  ⟨sound.unshared, sound.distinct, sound.fresh⟩

/-- A mapping that gets its tables is contained. -/
theorem Traced.contained {pte : Nat → U64} {paths : Finset (List Index)}
    {virt size : U64} {s' : Mm (PageAlloc × List U64)}
    (traced : Traced (fun pool => PageAlloc.freePages pool.1)
      (fun pool => (∀ p ∈ pool.2, p ∈ s.pool.freePages) ∧
        ∀ p ∈ pool.1.freePages, p ∈ s.pool.freePages)
      root ((pageAlignDown virt).toNat / 4096) (endNat (pageAlignUp (virt + size)) / 4096) pte paths
      s.noting s')
    (sound : Sound PageAlloc.freePages root s) (placed : Placed s.pool.phyStartAddress)
    (unused : Radix.Unreached child (tables s.mem) root 2 0) :
    Contained root virt size s.noting s' := by
  -- Every table was there before or is on a page of the supply, so none is on page 0.
  have above : ∀ P page, P.length ≤ 2 →
      Radix.descend child (tables s'.mem) root P = some page → page ≠ 0 := by
    rintro P page within located rfl
    rcases traced.made P 0 within located with before | ⟨-, fresh⟩
    · exact unused P within before
    · exact freePages_ne_zero placed _ fresh (by decide)
  refine ⟨fun P _ within located => above P 0 within located rfl, ?_, ?_, ?_⟩
  · -- What was handed out is on a page of the supply, so not on page 0.
    intro p member
    have taken := (traced.fine ⟨by simp [Mm.noting], fun _ => id⟩).1 p member
    obtain ⟨page, rfl, -⟩ := sound.fresh p taken
    refine Or.inr fun addr zero => frameAddr_apart ?_ zero
    rintro rfl
    exact freePages_ne_zero placed _ taken (by decide)
  · -- What was touched was so before, or is in a table.
    intro access member
    rcases traced.visited access member with before | ⟨P, page, index, within, located, at_, entry⟩
    · exact Or.inl before
    · have other := above P page within located
      rw [at_, entry]
      exact Or.inr ⟨entryAddr_apart other 0, entryAddr_apart other index⟩
  · intro va apart
    exact (translate_of_kept (traced.toExtends.walk_outside apart)).2

/-- Every call ends, with notes as without, and finds its tables or runs out of pages. -/
theorem mapCall_outcome (sound : Sound PageAlloc.freePages root s) (call : MapCall)
    (window : Window call.virt call.size)
    (clear : ∀ va, InRange call.virt call.size va → Unblocked s.mem root va)
    (fueled : 512 ≤ fuel) :
    ∃ s', call.run (noted earlyPgtableAlloc) fuel (frameAddr root) s.noting = some s' ∧
      call.run earlyPgtableAlloc fuel (frameAddr root) s = some s'.forget ∧
      Outcome (fun pool => PageAlloc.freePages pool.1)
        (fun pool => (∀ p ∈ pool.2, p ∈ s.pool.freePages) ∧
          ∀ p ∈ pool.1.freePages, p ∈ s.pool.freePages)
        (fun pool => 0 ∈ pool.2) root ((pageAlignDown call.virt).toNat / 4096)
        (endNat (pageAlignUp (call.virt + call.size)) / 4096)
        (pagePte call.phys call.virt call.prot) (rangePaths call.virt call.size) s.noting s' := by
  obtain ⟨s', ran, outcome⟩ := createPgdMapping_range call.phys call.prot
    (noted_provision earlyPgtableAlloc_supplies earlyPgtableAlloc_fails s.pool.freePages)
    sound.noting window clear fueled
  refine ⟨s', by rw [MapCall.run_eq, ran], ?_, outcome⟩
  -- Without the notes it is the same run.
  have plain := createPgdMapping_forget earlyPgtableAlloc call.prot fuel (frameAddr root) call.phys
    call.virt call.size s.noting
  rw [ran] at plain
  rw [MapCall.run_eq]
  exact plain.symm

/--
A mapping ends for every number of free pages. Page 0 and the translations outside of its range
are left alone exactly when there is a free page for each of the tables that the range lacks.
-/
theorem mapCall_contained_iff (sound : Sound PageAlloc.freePages root s)
    (placed : Placed s.pool.phyStartAddress)
    (unused : Radix.Unreached child (tables s.mem) root 2 0) (call : MapCall)
    (window : Window call.virt call.size)
    (clear : ∀ va, InRange call.virt call.size va → Unblocked s.mem root va)
    (fueled : 512 ≤ fuel) :
    ∃ s', call.run (noted earlyPgtableAlloc) fuel (frameAddr root) s.noting = some s' ∧
      call.run earlyPgtableAlloc fuel (frameAddr root) s = some s'.forget ∧
      (Contained root call.virt call.size s.noting s' ↔
        (lacking s.mem root (rangePaths call.virt call.size)).card ≤ s.pool.freePages.length) := by
  obtain ⟨s', ran, plain, outcome⟩ := mapCall_outcome sound call window clear fueled
  refine ⟨s', ran, plain, ?_, fun enough => (outcome.traced enough).contained sound placed unused⟩
  intro contained
  rcases outcome with traced | ⟨few, failed⟩
  · exact traced.enough
  · -- The page that was cleared instead is page 0.
    rcases contained.cleared 0 failed with before | apart
    · cases before
    · exact absurd (apart 0 (by decide)) (by decide)

end OutOfMemory

/-! ### A directory that starts empty -/

/-- The free pages are different ones. -/
theorem freePages_nodup {pool : PageAlloc} (placed : Placed pool.phyStartAddress) :
    pool.freePages.Nodup := by
  refine ((List.nodup_finRange nrPages).filter _).map fun i j same => ?_
  -- Pages with one address have one index.
  have addresses := congrArg BitVec.toNat same
  rw [PageAlloc.pageAddr_toNat placed, PageAlloc.pageAddr_toNat placed] at addresses
  exact Fin.ext (by omega)

/-- They are frames from the first tracked page on. -/
theorem freePages_frame {pool : PageAlloc} (placed : Placed pool.phyStartAddress)
    (aligned : pool.phyStartAddress.toNat % 4096 = 0)
    (physical : pool.phyStartAddress.toNat + totalMemory.toNat ≤ 2 ^ 56) :
    ∀ p ∈ pool.freePages, ∃ page : Ppn, p = frameAddr page ∧
      pool.phyStartAddress.toNat / 4096 ≤ page.toNat := by
  intro p member
  obtain ⟨i, -, rfl⟩ := List.mem_map.mp member
  have bound : i.val < 4096 := i.isLt
  have address := PageAlloc.pageAddr_toNat placed i
  rw [totalMemory_toNat] at physical
  -- The page number is small enough for a frame.
  have number : (BitVec.ofNat 44 ((pool.pageAddr i).toNat / 4096)).toNat =
      (pool.pageAddr i).toNat / 4096 := by
    rw [BitVec.toNat_ofNat]
    omega
  refine ⟨BitVec.ofNat 44 ((pool.pageAddr i).toNat / 4096), ?_, ?_⟩
  · apply BitVec.eq_of_toNat_eq
    rw [frameAddr_toNat, number]
    omega
  · rw [number]
    omega

/-- The pages behind the kernel image, with one flag for all of them. -/
def poolWith (flag : BitVec 16) : PageAlloc :=
  { memMap := fun _ => flag, phyStartAddress := 0x80210000 }

/-- An empty memory with these pages. -/
def unmappedWith (flag : BitVec 16) : Mm PageAlloc :=
  { mem := fun _ => 0, pool := poolWith flag, touched := [] }

theorem poolWith_placed (flag : BitVec 16) : Placed (poolWith flag).phyStartAddress :=
  ⟨show 0 < (0x80210000 : U64).toNat by decide,
    show (0x80210000 : U64).toNat + totalMemory.toNat ≤ 2 ^ 64 by decide⟩

/-- They lie behind the directory. -/
theorem poolWith_fresh (flag : BitVec 16) :
    ∀ p ∈ (poolWith flag).freePages, ∃ page : Ppn, p = frameAddr page ∧ 0x80210 ≤ page.toNat := by
  have start : (poolWith flag).phyStartAddress.toNat / 4096 = 0x80210 :=
    show (0x80210000 : U64).toNat / 4096 = 0x80210 by decide
  -- The pages start right behind the kernel image.
  rw [← start]
  exact freePages_frame (poolWith_placed flag)
    (show (0x80210000 : U64).toNat % 4096 = 0 by decide)
    (show (0x80210000 : U64).toNat + totalMemory.toNat ≤ 2 ^ 56 by decide)

/-- With no flag set all of them are free. -/
theorem poolWith_zero_length : (poolWith 0).freePages.length = 4096 := by
  have free : ∀ i ∈ List.finRange nrPages, ((poolWith 0).memMap i == 0) = true := fun _ _ => rfl
  rw [PageAlloc.freePages, List.length_map, List.filter_eq_self.mpr free, List.length_finRange,
    nrPages_eq]

theorem unmappedWith_sound (flag : BitVec 16) :
    Sound PageAlloc.freePages idmapPgDir (unmappedWith flag) := by
  refine Sound.empty (fun _ => rfl) (freePages_nodup (poolWith_placed flag)) fun p member => ?_
  obtain ⟨page, frame, above⟩ := poolWith_fresh flag p member
  refine ⟨page, frame, ?_⟩
  -- The directory lies in front of the pages.
  rintro rfl
  exact absurd above (by decide)

theorem unmappedWith_unused (flag : BitVec 16) :
    Radix.Unreached child (tables (unmappedWith flag).mem) idmapPgDir 2 0 := by
  intro P _ located
  exact absurd (descend_of_blank (fun _ => rfl) located).2 (by decide)

theorem unmappedWith_unblocked (flag : BitVec 16) (va : U64) :
    Unblocked (unmappedWith flag).mem idmapPgDir va :=
  Or.inr (congrArg Prod.snd (walk_of_blank (fun _ => rfl) va))

/-- The mapping of the serial port. -/
def uartCall : MapCall := .direct 0x10000000 0x10000000 0x1000 pageKernel

theorem uartCall_window : Window uartCall.virt uartCall.size := ⟨by decide, by decide⟩

/-- With every page free the serial port is mapped as it should be. -/
theorem mapCall_contained_iff_uart :
    ∃ s', uartCall.run earlyPgtableAlloc 512 (frameAddr idmapPgDir) (unmappedWith 0) =
        some s'.forget ∧
      Contained idmapPgDir 0x10000000 0x1000 (unmappedWith 0).noting s' := by
  obtain ⟨s', -, ran, contained⟩ := mapCall_contained_iff (unmappedWith_sound 0) (poolWith_placed 0)
    (unmappedWith_unused 0) uartCall uartCall_window (fun va _ => unmappedWith_unblocked 0 va)
    (Nat.le_refl 512)
  refine ⟨s', ran, contained.mpr ?_⟩
  -- Every page is free, and two tables are needed at most.
  have all : (unmappedWith 0).pool.freePages.length = 4096 := poolWith_zero_length
  rw [all]
  exact (lacking_le_tablesNeeded _ _ _ _).trans (by decide)

/-- With no page free page 0 is cleared and used as both of the tables. -/
theorem mapCall_not_contained :
    ¬ ∀ (root : Ppn) (s : Mm PageAlloc) (call : MapCall) (s' : Mm (PageAlloc × List U64)),
      Sound PageAlloc.freePages root s → Placed s.pool.phyStartAddress →
      Radix.Unreached child (tables s.mem) root 2 0 → Window call.virt call.size →
      (∀ va, InRange call.virt call.size va → Unblocked s.mem root va) →
      call.run (noted earlyPgtableAlloc) 512 (frameAddr root) s.noting = some s' →
      Contained root call.virt call.size s.noting s' := by
  intro claimed
  have none_ : (unmappedWith 1).pool.freePages = [] := by
    simp [PageAlloc.freePages, unmappedWith, poolWith]
  obtain ⟨s', ran, -, outcome⟩ := mapCall_outcome (unmappedWith_sound 1) uartCall uartCall_window
    (fun va _ => unmappedWith_unblocked 1 va) (Nat.le_refl 512)
  have contained := claimed idmapPgDir _ uartCall s' (unmappedWith_sound 1) (poolWith_placed 1)
    (unmappedWith_unused 1) uartCall_window (fun va _ => unmappedWith_unblocked 1 va) ran
  rcases outcome with traced | ⟨-, failed⟩
  · -- The page of the device needs a table that is not there.
    have needed : [slot (0x10000 / 2 ^ 18)] ∈ rangePaths uartCall.virt uartCall.size :=
      mem_tablePaths.mpr ⟨0x10000, by decide, by decide, Or.inl rfl⟩
    have nowhere : Radix.descend child (tables (unmappedWith 1).mem) idmapPgDir
        [slot (0x10000 / 2 ^ 18)] = none := by decide
    have some_ := Finset.card_pos.mpr ⟨_, mem_lacking.mpr ⟨needed, nowhere⟩⟩
    have enough : (lacking (unmappedWith 1).mem idmapPgDir _).card ≤
        (unmappedWith 1).pool.freePages.length := traced.enough
    rw [none_] at enough
    exact absurd some_ (Nat.not_lt.mpr enough)
  · rcases contained.cleared 0 failed with before | apart
    · cases before
    · exact absurd (apart 0 (by decide)) (by decide)

end Benos
