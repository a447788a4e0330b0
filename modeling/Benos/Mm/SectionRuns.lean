import Benos.Mm.OutOfMemory
import Benos.Mm.SectionBoot

/-! The mapper on the directory of the boot code: where it stores, and what it takes for a table. -/

namespace Benos

open Sv39

variable {σ : Type}

/-! ### One page inside a section -/

/-- A loop whose first block reaches the end has one round. -/
theorem splitLoop_once {levelAddrEnd : U64 → U64 → U64}
    {body : (table entryp addr next phys : U64) → Mm σ → Option (Mm σ)} {fuel : Nat}
    {addr end_ : U64} (fueled : 0 < fuel) (last : levelAddrEnd addr end_ = end_)
    (table entryp phys : U64) (s : Mm σ) :
    splitLoop levelAddrEnd body fuel table entryp addr end_ phys s =
      body table entryp addr end_ phys s := by
  obtain ⟨rest, rfl⟩ := Nat.exists_eq_succ_of_ne_zero (Nat.ne_of_gt fueled)
  rw [splitLoop, last]
  -- After the round the address is the end.
  cases body table entryp addr end_ phys s with
  | none => rfl
  | some s' => simp

/-- Reading an entry leaves memory alone. -/
@[simp] theorem Mm.touch_mem (s : Mm σ) (table entry : U64) : (s.touch table entry).mem = s.mem :=
  rfl

/-- An entry that is not empty is only read. -/
theorem openEntry_used {alloc : AllocPgtable σ} {entryNone : U64 → Bool} {s : Mm σ}
    {table entry : U64} (used : entryNone (s.mem entry) = false) :
    s.openEntry alloc entryNone table entry = s.touch table entry := by
  simp only [Mm.openEntry, Mm.touch_mem, used, Bool.false_eq_true, if_false]

/-- The entry in mapped memory that the mapper takes for the one of a page in a section. -/
def followedEntry (pmd va : U64) : U64 := pmdPagePaddr pmd + pteIndex va * entrySize

/--
Mapping one page inside a section follows the section as if it were a table, and stores the entry
of the page in the memory that the section maps.
-/
theorem Sectioned.mapping_follows {alloc : AllocPgtable σ} {s : Mm σ} {root : Ppn}
    {first last fuel : Nat} {entry : Nat → U64} (sectioned : Sectioned s.mem root first last entry)
    (used : ∀ n, first ≤ n → n < last → entry n ≠ 0) (region : (last - 1) / 512 = first / 512)
    {va : U64} (aligned : va.toNat % 4096 = 0) (inside : InSlots first last (va.toNat / 4096))
    (phys prot : U64) (fueled : 0 < fuel) :
    createPgdMapping alloc prot fuel (frameAddr root) phys va pageSize s =
      some (((s.touch (frameAddr root) (entryAddr root (slot (first / 512)))).touch
        (frameAddr (root + 1)) (entryAddr (root + 1) (slot (va.toNat / 2 ^ 21)))).store
        (pmdPagePaddr (entry (va.toNat / 4096 % 2 ^ 27 / 2 ^ 9)))
        (followedEntry (entry (va.toNat / 4096 % 2 ^ 27 / 2 ^ 9)) va)
        (pfnPte (pfnDown (pageAlignDown phys)) prot)) := by
  have start : pageAlignDown va = va := by
    apply BitVec.eq_of_toNat_eq
    rw [pageAlignDown_toNat]
    omega
  -- One page is in one block of every level.
  have page := endNat_onePage aligned
  have pgdEnd : pgdAddrEnd va (pageAlignUp (va + pageSize)) = pageAlignUp (va + pageSize) := by
    refine endNat_inj.mp ?_
    rw [endNat_pgdAddrEnd, page]
    omega
  have pmdEnd : pmdAddrEnd va (pageAlignUp (va + pageSize)) = pageAlignUp (va + pageSize) := by
    refine endNat_inj.mp ?_
    rw [endNat_pmdAddrEnd, page]
    omega
  have pageEnd : va + pageSize = pageAlignUp (va + pageSize) := by
    refine endNat_inj.mp ?_
    rw [endNat_next (n := va.toNat / 4096) (by omega), page]
  obtain ⟨lower, upper⟩ := inside
  -- The two directory entries are those of the section.
  have top : pgdOffsetRaw (frameAddr root) va = entryAddr root (slot (first / 512)) := by
    have same : slot (va.toNat / 2 ^ 30) = slot (first / 512) := by
      rw [slot_eq_iff]
      omega
    rw [pgdOffsetRaw_eq, same]
  have points := sectioned.child_top
  have pgd : pgdNone (s.mem (entryAddr root (slot (first / 512)))) = false := by
    rw [pgdNone, beq_eq_false_iff_ne]
    exact child_ne_zero points
  have next : pgdPagePaddr (s.mem (entryAddr root (slot (first / 512)))) = frameAddr (root + 1) :=
    entryPagePaddr_of_child points
  have pmdp := getPmdpFromPgdp_eq va points
  -- The entry of the address is that of its section.
  have here : s.mem (entryAddr (root + 1) (slot (va.toNat / 2 ^ 21))) =
      entry (va.toNat / 4096 % 2 ^ 27 / 2 ^ 9) := by
    have same : slot (va.toNat / 2 ^ 21) = slot (va.toNat / 4096 % 2 ^ 27 / 2 ^ 9) := by
      rw [slot_eq_iff]
      omega
    rw [same, sectioned.sections _ lower upper]
  have pmd : pmdNone (s.mem (entryAddr (root + 1) (slot (va.toNat / 2 ^ 21)))) = false := by
    rw [pmdNone, beq_eq_false_iff_ne, here]
    exact used _ lower upper
  -- Each loop has one round, and neither directory entry is empty.
  rw [createPgdMapping, start, splitLoop_once fueled pgdEnd, top, allocInitPmd,
    openEntry_used pgd]
  simp only [Mm.touch_mem]
  rw [next, pmdp, splitLoop_once fueled pmdEnd, allocInitPte,
    @openEntry_used σ alloc pmdNone (s.touch _ _) (frameAddr (root + 1)) _ pmd]
  simp only [Mm.touch_mem]
  rw [allocInitPteLoop_eq, splitLoop_once fueled pageEnd, getPtepFromPmdp, here]
  rfl

/-! ### Runs of the mapper -/

/-- The mapper clears pages of its supply only, and touches entries of tables only. -/
structure TablesOnly (root : Ppn) (supply : List U64) (s : Mm (σ × List U64)) : Prop where
  cleared : ∀ p ∈ s.pool.2, p ∈ supply
  /-- Each one is in the root or in a table that is pointed to, which no leaf does. -/
  touched : ∀ access ∈ s.touched, InTree s.mem root access

/-- One call of the builder on a directory. -/
def mapStep (alloc : AllocPgtable σ) (fuel : Nat) (root : Ppn) (call : MapCall) (s : Mm σ) :
    Option (Mm σ) :=
  call.run alloc fuel (frameAddr root) s

/-- A call whose range keeps off the sections, with a page for each table that the range lacks. -/
structure Beside (root : Ppn) (start end_ : U64) (call : MapCall) (s : Mm (PageAlloc × List U64)) :
    Prop where
  window : Window call.virt call.size
  apart : ∀ va, InRange call.virt call.size va → ¬ InSections start end_ va
  enough : (lacking s.mem root (rangePaths call.virt call.size)).card ≤
    s.pool.1.freePages.length

/-- The state the mapper starts from: the directory as the boot code left it, and free pages. -/
structure TakesOver (mem : Memory) (root : Ppn) (s : Mm PageAlloc) : Prop where
  directory : ∀ page index, page = root ∨ page = root + 1 →
    s.mem (entryAddr page index) = mem (entryAddr page index)
  untouched : s.touched = []
  distinct : s.pool.freePages.Nodup
  fresh : ∀ p ∈ s.pool.freePages, ∃ page, p = frameAddr page ∧ page ≠ root ∧ page ≠ root + 1

/-- What every call beside the sections keeps. -/
structure BesideInv (root : Ppn) (first last : Nat) (entry : Nat → U64) (supply : List U64)
    (s : Mm (PageAlloc × List U64)) : Prop
    extends Divided (fun pool => PageAlloc.freePages pool.1) root first last entry s,
      TablesOnly root supply s where
  left : ∀ p ∈ s.pool.1.freePages, p ∈ supply

/-- Runs with notes are the runs without. -/
theorem run_forget (alloc : AllocPgtable σ) (fuel : Nat) (root : Ppn) (calls : List MapCall)
    {s s' : Mm (σ × List U64)}
    (ran : Transition.run (mapStep (noted alloc) fuel root) calls s = some s') :
    Transition.run (mapStep alloc fuel root) calls s.forget = some s'.forget := by
  -- Every call does with the notes what it does without.
  induction calls generalizing s with
  | nil =>
    cases ran
    rfl
  | cons call rest ih =>
    simp only [Transition.run_cons, Option.bind_eq_some_iff] at ran ⊢
    obtain ⟨next, taken, ran⟩ := ran
    refine ⟨next.forget, ?_, ih ran⟩
    rw [mapStep, MapCall.run_eq] at taken ⊢
    rw [← createPgdMapping_forget, taken, Option.map_some]

section Runs

variable {root : Ppn} {start end_ : U64} {fuel : Nat} {entry : Nat → U64} {supply : List U64}
  (aligned : start.toNat % 2 ^ 21 = 0)
  (used : ∀ n, start.toNat / 2 ^ 21 ≤ n → n < (end_.toNat + (2 ^ 21 - 1)) / 2 ^ 21 → entry n ≠ 0)
  (fueled : 512 ≤ fuel)

include aligned used fueled

/-- A call beside the sections ends, and keeps to tables. -/
theorem BesideInv.step {s : Mm (PageAlloc × List U64)} {call : MapCall}
    (inv : BesideInv root (start.toNat / 2 ^ 21) ((end_.toNat + (2 ^ 21 - 1)) / 2 ^ 21) entry
      supply s) (beside : Beside root start end_ call s) :
    ∃ s', mapStep (noted earlyPgtableAlloc) fuel root call s = some s' ∧
      BesideInv root (start.toNat / 2 ^ 21) ((end_.toNat + (2 ^ 21 - 1)) / 2 ^ 21) entry supply
        s' := by
  obtain ⟨s', ran, traced, divided⟩ := inv.toDivided.mapping
    (noted_provision earlyPgtableAlloc_supplies earlyPgtableAlloc_fails supply) used call.phys
    call.prot beside.window
    (fun va within => mt (inSections_iff aligned).mpr (beside.apart va within)) beside.enough fueled
  obtain ⟨cleared, left⟩ := traced.fine ⟨inv.cleared, inv.left⟩
  refine ⟨s', by rw [mapStep, MapCall.run_eq, ran], divided, ⟨cleared, ?_⟩, left⟩
  intro access member
  -- Tables stay tables, so what was touched earlier is in one still.
  rcases traced.visited access member with before | now
  · exact traced.inTree (inv.touched access before)
  · exact now

/-- So does every run of such calls. -/
theorem BesideInv.run {s s' : Mm (PageAlloc × List U64)} {calls : List MapCall}
    (inv : BesideInv root (start.toNat / 2 ^ 21) ((end_.toNat + (2 ^ 21 - 1)) / 2 ^ 21) entry
      supply s)
    (ran : Transition.run (mapStep (noted earlyPgtableAlloc) fuel root) calls s = some s')
    (beside : ∀ earlier call later mid, calls = earlier ++ call :: later →
      Transition.run (mapStep (noted earlyPgtableAlloc) fuel root) earlier s = some mid →
      Beside root start end_ call mid) :
    BesideInv root (start.toNat / 2 ^ 21) ((end_.toNat + (2 ^ 21 - 1)) / 2 ^ 21) entry supply
      s' := by
  refine Transition.run_invariant_on (fun call mid next holds allowed taken => ?_) inv ran beside
  obtain ⟨after, stepped, kept⟩ := BesideInv.step aligned used fueled holds allowed
  -- The step has one result.
  obtain rfl : after = next := Option.some.inj (stepped.symm.trans taken)
  exact kept

end Runs

/--
On a directory built by `create_page_table`, every run of calls that keep off the sections, each
with a page for every table that its range lacks, stores only into the directory, into tables it
allocated and into tables that are pointed to. No leaf is followed, and no such call gets stuck.
-/
theorem mapper_keepsToTables {text : BootText} {h : Hart} {root : Ppn} {fuel : Nat}
    (layout : BootLayout text h root) (fueled : 1024 ≤ fuel) :
    ∃ h', createPageTable text fuel h = some h' ∧
      ∀ (s : Mm PageAlloc) (calls : List MapCall) (s' : Mm (PageAlloc × List U64)),
        TakesOver h'.mem root s →
        Transition.run (mapStep (noted earlyPgtableAlloc) fuel root) calls s.noting = some s' →
        (∀ earlier call later mid, calls = earlier ++ call :: later →
          Transition.run (mapStep (noted earlyPgtableAlloc) fuel root) earlier s.noting =
            some mid → Beside root text.start ddrEnd call mid) →
        TablesOnly root s.pool.freePages s' ∧
          Transition.run (mapStep earlyPgtableAlloc fuel root) calls s = some s'.forget ∧
          ∀ call, Beside root text.start ddrEnd call s' →
            ∃ s'', mapStep (noted earlyPgtableAlloc) fuel root call s' = some s'' := by
  obtain ⟨h', atCall, built, -, -, request, a1, a2, a3, a4, sectioned⟩ :=
    createPageTable_sections layout fueled
  have call := request.call
  have ended := request.ended
  have used := request.used
  have aligned := request.virtAligned
  simp only [a1, a2, a3, a4] at call ended used aligned
  refine ⟨h', built, fun s calls s' takes ran beside => ?_⟩
  have divided := (sectioned.congr takes.directory).divided layout.fits ended call.region call.low
    takes.distinct takes.fresh
  -- At the start nothing has been cleared or touched.
  have untouched : ∀ access ∈ s.noting.touched, InTree s.noting.mem root access := by
    intro access member
    have none_ : access ∈ s.touched := member
    rw [takes.untouched] at none_
    cases none_
  have initial : BesideInv root _ _ _ s.pool.freePages s.noting :=
    ⟨⟨divided.sound.noting, divided.sections, divided.clear⟩,
      ⟨fun p member => absurd member List.not_mem_nil, untouched⟩, fun _ => id⟩
  have short : 512 ≤ fuel := Nat.le_trans (by decide) fueled
  have final := BesideInv.run aligned used short initial ran beside
  refine ⟨final.toTablesOnly, run_forget earlyPgtableAlloc fuel root calls ran,
    fun next allowed => ?_⟩
  obtain ⟨s'', taken, -⟩ := BesideInv.step aligned used short final allowed
  exact ⟨s'', taken⟩

/-! ### The kernel as it is linked -/

/-- The kernel at the load address, with the directory behind its data. -/
def bootText : BootText where
  idmapPgDir := frameAddr idmapPgDir
  idmapPgEnd := 0x80205000
  textBoot := 0x80200000
  sectionsDone := 0x80200090

/-- The hart in front of `create_page_table`. -/
def bootHart : Hart := sectionHart 0 0

theorem bootLayout : BootLayout bootText bootHart idmapPgDir := by
  refine ⟨rfl, by decide, by decide, ⟨by decide, by decide⟩, by decide, fun offset member => ?_⟩
  -- Both return addresses are saved in front of the directory.
  have outer : ((0x80203000 : U64) - 8).toNat < 0x80203000 := by decide
  have inner : ((0x80203000 : U64) - 24).toNat < 0x80203000 := by decide
  rcases List.mem_cons.mp member with rfl | rest
  · exact stack_apart outer
  · obtain rfl := List.mem_singleton.mp rest
    exact stack_apart inner

/-- The state after the boot code, with every page free. -/
def bootedWith (mem : Memory) : Mm PageAlloc := { mem, pool := poolWith 0, touched := [] }

theorem bootedWith_takesOver (mem : Memory) : TakesOver mem idmapPgDir (bootedWith mem) := by
  refine ⟨fun _ _ _ => rfl, rfl, freePages_nodup (poolWith_placed 0), fun p member => ?_⟩
  obtain ⟨page, frame, above⟩ := poolWith_fresh 0 p member
  -- The pages lie behind the directory.
  refine ⟨page, frame, ?_, ?_⟩
  all_goals
    rintro rfl
    exact absurd above (by decide)

/-- The serial port is mapped beside the sections. -/
theorem mapper_keepsToTables_uart :
    ∃ h' s', createPageTable bootText 1024 bootHart = some h' ∧
      Transition.run (mapStep earlyPgtableAlloc 1024 idmapPgDir) [uartCall] (bootedWith h'.mem) =
        some s'.forget ∧
      TablesOnly idmapPgDir (poolWith 0).freePages s' := by
  obtain ⟨h', built, runs⟩ := mapper_keepsToTables bootLayout (Nat.le_refl 1024)
  have takes := bootedWith_takesOver h'.mem
  have apart : ∀ va, InRange uartCall.virt uartCall.size va →
      ¬ InSections bootText.start ddrEnd va := by
    rintro va ⟨lower, upper⟩ ⟨above, -⟩
    have stop : endNat (pageAlignUp (uartCall.virt + uartCall.size)) = 0x10001000 := by decide
    have start : bootText.start.toNat = 0x80200000 := by decide
    omega
  have free : (bootedWith h'.mem).noting.pool.1.freePages.length = 4096 := poolWith_zero_length
  have beside : Beside idmapPgDir bootText.start ddrEnd uartCall (bootedWith h'.mem).noting :=
    ⟨uartCall_window, apart, (lacking_le_tablesNeeded _ _ _ _).trans (by rw [free]; decide)⟩
  -- The empty run is one, so the call can be made.
  obtain ⟨-, -, next⟩ := runs (bootedWith h'.mem) [] _ takes (Transition.run_nil _ _)
    fun earlier call later mid split => absurd split (by simp)
  obtain ⟨s', taken⟩ := next uartCall beside
  have ran : Transition.run (mapStep (noted earlyPgtableAlloc) 1024 idmapPgDir) [uartCall]
      (bootedWith h'.mem).noting = some s' := by
    rw [Transition.run_cons, taken]
    rfl
  obtain ⟨tables_, plain, -⟩ := runs (bootedWith h'.mem) [uartCall] s' takes ran
    (Transition.allowed_cons beside taken fun earlier call later mid split =>
      absurd split (by simp))
  exact ⟨h', s', built, plain, tables_⟩

/-- The first page of the kernel, mapped to itself. -/
def textCall : MapCall := .direct 0x80200000 0x80200000 0x1000 pageKernel

/-- It lies in a section, which is taken for a table: the entry overwrites the first instruction. -/
theorem mapper_followsSection :
    ¬ ∀ (text : BootText) (h h' : Hart) (root : Ppn) (s : Mm PageAlloc) (calls : List MapCall)
      (s' : Mm (PageAlloc × List U64)), BootLayout text h root →
      createPageTable text 1024 h = some h' → TakesOver h'.mem root s →
      Transition.run (mapStep (noted earlyPgtableAlloc) 1024 root) calls s.noting = some s' →
      ∀ access ∈ s'.touched, InTree s'.mem root access ∨ access.table ∈ s'.pool.2 := by
  intro claimed
  obtain ⟨h', atCall, built, -, -, request, a1, a2, a3, a4, sectioned⟩ :=
    createPageTable_sections bootLayout (Nat.le_refl 1024)
  have ended := request.ended
  have used := request.used
  have region := request.call.region
  simp only [a1, a2, a3, a4] at ended used region
  -- The page is the first one of the first section.
  have inside : InSlots (bootText.start.toNat / 2 ^ 21) ((ddrEnd.toNat + (2 ^ 21 - 1)) / 2 ^ 21)
      ((0x80200000 : U64).toNat / 4096) := ⟨by decide, by decide⟩
  have named : pmdPagePaddr (sectionPmd bootText.start sectionKernelRwx
      (bootText.start.toNat / 2 ^ 21) ((0x80200000 : U64).toNat / 4096 % 2 ^ 27 / 2 ^ 9)) =
      frameAddr 0x80200 := by decide
  have place : followedEntry (sectionPmd bootText.start sectionKernelRwx
      (bootText.start.toNat / 2 ^ 21) ((0x80200000 : U64).toNat / 4096 % 2 ^ 27 / 2 ^ 9))
      0x80200000 = entryAddr 0x80200 0 := by decide
  have followed := @Sectioned.mapping_follows _ (noted earlyPgtableAlloc) (bootedWith h'.mem).noting
    _ _ _ 1024 _ sectioned used region 0x80200000 (by decide) inside 0x80200000 pageKernel (by decide)
  rw [named, place] at followed
  have ran : Transition.run (mapStep (noted earlyPgtableAlloc) 1024 idmapPgDir) [textCall]
      (bootedWith h'.mem).noting = _ := (Transition.run_cons _ _ _ _).trans
        (congrArg (fun ended : Option _ => ended.bind _) followed)
  have owned := claimed _ _ _ _ _ _ _ bootLayout built (bootedWith_takesOver h'.mem) ran
    ⟨frameAddr 0x80200, entryAddr 0x80200 0⟩ List.mem_cons_self
  rcases owned with ⟨P, page, index, -, located, table, -⟩ | allocated
  · -- The store has left the directory alone, whose tables are its two pages.
    have apart : ∀ page index, page = idmapPgDir ∨ page = idmapPgDir + 1 →
        Function.update h'.mem (entryAddr 0x80200 0)
          (pfnPte (pfnDown (pageAlignDown 0x80200000)) pageKernel) (entryAddr page index) =
          h'.mem (entryAddr page index) := by
      intro page index inside
      refine Function.update_of_ne (fun same => ?_) _ _
      obtain rfl := (entryAddr_injective same).1
      revert inside
      decide
    obtain rfl := frameAddr_injective table
    rcases (sectioned.congr apart).descend_cases ended located with ⟨-, same⟩ | ⟨-, same⟩
    · exact absurd same (by decide)
    · exact absurd same (by decide)
  · cases allocated

end Benos
