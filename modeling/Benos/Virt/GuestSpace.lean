import Benos.Mm.KernelSpace
import Benos.Virt.TwoStage

/-!
The guest of `vs_main`: the tables that it makes for itself, and what its accesses then get through
both stages.
-/

namespace Benos

open Sv39

/-- `PAGE_KERNEL_READ_EXEC`. -/
def pageKernelReadExec : U64 := (_PAGE_KERNEL &&& ~~~_PAGE_WRITE) ||| _PAGE_EXEC

/-- `VS_MEM`. -/
def vsMem : U64 := 0x30000000

section Paging

variable {σ : Type} (alloc : AllocPgtable σ) (fuel : Nat) (vsPageTableDir : U64)

/-- `vs_paging_init`, up to the write of `satp`. -/
def vsPagingInit (textBoot etext : U64) (s : Mm σ) : Option (Mm σ) := do
  -- Text.
  let s ← createVsPgdMapping alloc pageKernelReadExec fuel vsPageTableDir textBoot textBoot
    (etext - textBoot) s
  -- The rest of the memory.
  let start := pageAlignUp etext
  let s ← createVsPgdMapping alloc pageKernel fuel vsPageTableDir start start (ddrEnd - start) s
  let s ← createVsPgdMapping alloc pageKernel fuel vsPageTableDir uart uart uartSize s
  createVsPgdMapping alloc pageKernel fuel vsPageTableDir virtClintAddr virtClintAddr
    virtClintSize s

/-- The tables of the guest in `vs_main`: all of its memory, and one page elsewhere. -/
def vsMainTables (textBoot etext gpa : U64) (s : Mm σ) : Option (Mm σ) :=
  (vsPagingInit alloc fuel vsPageTableDir textBoot etext s).bind
    (setVsMappingPage alloc fuel vsPageTableDir vsMem gpa)

end Paging

/-- The mappings that the guest makes. -/
def guestCalls (textBoot etext gpa : U64) : List MapCall :=
  [.direct textBoot textBoot (etext - textBoot) pageKernelReadExec,
    .direct (pageAlignUp etext) (pageAlignUp etext) (ddrEnd - pageAlignUp etext) pageKernel,
    .direct uart uart uartSize pageKernel,
    .direct virtClintAddr virtClintAddr virtClintSize pageKernel,
    .vs vsMem gpa]

/-- `vs_main` runs them. -/
theorem vsMainTables_run {σ : Type} (alloc : AllocPgtable σ) (fuel : Nat) (vroot : Ppn)
    (textBoot etext gpa : U64) (s : Mm σ) :
    vsMainTables alloc fuel (frameAddr vroot) textBoot etext gpa s =
      Transition.run (mapStep alloc fuel vroot) (guestCalls textBoot etext gpa) s := by
  simp only [vsMainTables, vsPagingInit, guestCalls, Transition.run_cons, mapStep, MapCall.run,
    bind, Option.bind_assoc]
  -- The call for the guest's tables is the same text, and the last one ends the run.
  refine congrArg _ (funext fun s => congrArg _ (funext fun s => congrArg _ (funext fun s =>
    congrArg _ (funext fun s => ?_))))
  exact (Option.bind_fun_some _).symm

/-! ### What the guest's tables say -/

/-- Where the linker puts the kernel, and the page that the guest is given elsewhere. -/
structure GuestLayout (textBoot etext gpa : U64) : Prop where
  aligned : textBoot.toNat % 4096 = 0
  inMemory : ddrBase.toNat ≤ textBoot.toNat
  nonempty : textBoot.toNat < etext.toNat
  room : etext.toNat + 4096 ≤ ddrEnd.toNat
  page : gpa.toNat % 4096 = 0
  low : gpa.toNat + 4096 ≤ 2 ^ 39

/-- The instructions of the guest, which is the kernel itself. -/
def textRegion (textBoot etext : U64) : Region :=
  ⟨textBoot.toNat, (pageAlignUp etext).toNat - textBoot.toNat⟩

/-- Its memory behind them, and its devices. -/
def dataRegions (etext : U64) : List Region :=
  [⟨(pageAlignUp etext).toNat, 0x81000000 - (pageAlignUp etext).toNat⟩, ⟨0x10000000, 4096⟩,
    ⟨0x2000000, 0x10000⟩]

/-- The page of `VS_MEM`. -/
def vsRegion : Region := ⟨0x30000000, 4096⟩

/--
The address space of the guest: its instructions and its memory where they are, and the page that it
is given at `VS_MEM`.
-/
def guestSpace (textBoot etext gpa va : U64) : Option Mapped :=
  if vsRegion.has va then some ⟨gpa.toNat + va.toNat % 4096, pageKernel.setWidth 10⟩
  else if (dataRegions etext).any (Region.has · va) then some (identity pageKernel va)
  else if (textRegion textBoot etext).has va then some (identity pageKernelReadExec va)
  else none

/-- A range from a page boundary to some end of it in the memory. -/
theorem range_mappable {virt stop prot : U64} (aligned : virt.toNat % 4096 = 0)
    (below : virt.toNat < stop.toNat) (room : stop.toNat ≤ ddrEnd.toNat)
    (permission : LeafProt prot) :
    Mappable virt virt (stop - virt) prot ∧ pageAlignDown virt = virt ∧
      rangeBytes virt (stop - virt) = (stop.toNat + 4095) / 4096 * 4096 - virt.toNat := by
  have end_ : ddrEnd.toNat = 0x81000000 := by decide
  have down : pageAlignDown virt = virt := by
    apply BitVec.eq_of_toNat_eq
    rw [pageAlignDown_toNat]
    omega
  have sum : virt + (stop - virt) = stop := by rw [BitVec.add_comm, BitVec.sub_add_cancel]
  -- The end is below the top of the address space.
  have last : endNat (pageAlignUp stop) = (stop.toNat + 4095) / 4096 * 4096 := by
    have up := pageAlignUp_toNat stop
    have top := endNat_eq (pageAlignUp stop)
    split at top <;> omega
  have bytes : rangeBytes virt (stop - virt) =
      (stop.toNat + 4095) / 4096 * 4096 - virt.toNat := by
    rw [rangeBytes, sum, last, down]
  refine ⟨⟨⟨?_, ?_⟩, permission, ?_⟩, down, bytes⟩
  · rw [sum, last, down]
    omega
  · rw [sum, last, down]
    omega
  · rw [bytes, down]
    omega

section Layout

variable {textBoot etext gpa : U64}

/-- The end of the instructions, rounded to a page, is no further than it is. -/
theorem GuestLayout.dataStart (layout : GuestLayout textBoot etext gpa) :
    (pageAlignUp etext).toNat = (etext.toNat + 4095) / 4096 * 4096 ∧
      (pageAlignUp etext).toNat < ddrEnd.toNat := by
  have room := layout.room
  have end_ : ddrEnd.toNat = 0x81000000 := by decide
  have up := pageAlignUp_toNat etext
  omega

/-- The page at `VS_MEM`. -/
theorem vsCall_mappable (low : gpa.toNat + 4096 ≤ 2 ^ 39) :
    Mappable gpa vsMem pageSize pageKernel := by
  have bytes : rangeBytes vsMem pageSize = 4096 := by decide
  refine ⟨⟨by decide, by decide⟩, leafProt_pageKernel, ?_⟩
  rw [bytes, pageAlignDown_toNat]
  omega

variable (layout : GuestLayout textBoot etext gpa)

include layout

/-- Each mapping of the guest can be made. -/
theorem GuestLayout.mappable :
    ∀ call ∈ guestCalls textBoot etext gpa,
      Mappable call.phys call.virt call.size call.prot := by
  obtain ⟨start, below⟩ := layout.dataStart
  have room := layout.room
  have text : Mappable textBoot textBoot (etext - textBoot) pageKernelReadExec :=
    (range_mappable layout.aligned layout.nonempty (by omega) ⟨by decide, by decide⟩).1
  have data : Mappable (pageAlignUp etext) (pageAlignUp etext) (ddrEnd - pageAlignUp etext)
      pageKernel :=
    (range_mappable (by omega) below (Nat.le_refl _) leafProt_pageKernel).1
  have serial : Mappable uart uart uartSize pageKernel :=
    ⟨⟨by decide, by decide⟩, leafProt_pageKernel, by decide⟩
  have timer : Mappable virtClintAddr virtClintAddr virtClintSize pageKernel :=
    ⟨⟨by decide, by decide⟩, leafProt_pageKernel, by decide⟩
  simp only [guestCalls, List.forall_mem_cons]
  exact ⟨text, data, serial, timer, vsCall_mappable layout.low,
    fun _ none_ => absurd none_ List.not_mem_nil⟩

/-- They need 24 tables at most. -/
theorem GuestLayout.tables : callTables (guestCalls textBoot etext gpa) ≤ 24 := by
  obtain ⟨start, below⟩ := layout.dataStart
  have room := layout.room
  have inMemory := layout.inMemory
  have nonempty := layout.nonempty
  have base : ddrBase.toNat = 0x80000000 := by decide
  have end_ : ddrEnd.toNat = 0x81000000 := by decide
  obtain ⟨_, textDown, textBytes⟩ := range_mappable layout.aligned layout.nonempty (by omega)
    leafProt_pageKernel
  obtain ⟨_, dataDown, dataBytes⟩ := range_mappable
    (show (pageAlignUp etext).toNat % 4096 = 0 by omega) below (Nat.le_refl _) leafProt_pageKernel
  have fixed : rangeTables uart uartSize = 2 ∧ rangeTables virtClintAddr virtClintSize = 2 ∧
      rangeTables vsMem pageSize = 2 := by decide
  -- A range of the memory lies in one region of 1 GiB and in eight of 2 MiB.
  have inMemory_ {virt size : U64} (down : pageAlignDown virt = virt)
      (lower : ddrBase.toNat ≤ virt.toNat) (upper : virt.toNat + rangeBytes virt size ≤ 0x81000000)
      (some_ : 0 < rangeBytes virt size) : rangeTables virt size ≤ 9 := by
    rw [rangeBytes, down] at upper some_
    rw [rangeTables, tablesNeeded, blocks, blocks, down]
    omega
  have text : rangeTables textBoot (etext - textBoot) ≤ 9 :=
    inMemory_ textDown inMemory (by omega) (by omega)
  have data : rangeTables (pageAlignUp etext) (ddrEnd - pageAlignUp etext) ≤ 9 :=
    inMemory_ dataDown (by omega) (by omega) (by omega)
  obtain ⟨serial, timer, page⟩ := fixed
  have sum {counts : List Nat} {a b c d e : Nat} (all : counts = [a, b, c, d, e]) (large : a ≤ 9)
      (rest : b ≤ 9) (small : c = 2 ∧ d = 2 ∧ e = 2) : counts.sum ≤ 24 := by
    subst all
    simp only [List.sum_cons, List.sum_nil]
    omega
  rw [callTables]
  exact sum rfl text data ⟨serial, timer, page⟩

/-- The part of the instructions, and that of the memory behind them and the devices. -/
theorem GuestLayout.parts :
    (guestCalls textBoot etext gpa).map MapCall.part =
      ([textRegion textBoot etext].map fun region va =>
          if region.has va then some (identity pageKernelReadExec va) else none) ++
        ((dataRegions etext).map fun region va =>
          if region.has va then some (identity pageKernel va) else none) ++
        [fun va => if vsRegion.has va then some ⟨gpa.toNat + va.toNat % 4096, pageKernel.setWidth 10⟩
          else none] := by
  obtain ⟨start, below⟩ := layout.dataStart
  have room := layout.room
  have inMemory := layout.inMemory
  have nonempty := layout.nonempty
  have end_ : ddrEnd.toNat = 0x81000000 := by decide
  obtain ⟨_, textDown, textBytes⟩ := range_mappable layout.aligned layout.nonempty (by omega)
    leafProt_pageKernel
  obtain ⟨_, dataDown, dataBytes⟩ := range_mappable
    (show (pageAlignUp etext).toNat % 4096 = 0 by omega) below (Nat.le_refl _) leafProt_pageKernel
  have text : rangePart textBoot textBoot (etext - textBoot) pageKernelReadExec = fun va =>
      if (textRegion textBoot etext).has va then some (identity pageKernelReadExec va) else none :=
    funext fun va => rangePart_identity (textRegion textBoot etext) textDown rfl
      (show textBoot.toNat < 2 ^ 39 by omega) (by rw [textBytes, textRegion, start]) _ va
  have data : rangePart (pageAlignUp etext) (pageAlignUp etext) (ddrEnd - pageAlignUp etext)
      pageKernel = fun va =>
      if Region.has ⟨(pageAlignUp etext).toNat, 0x81000000 - (pageAlignUp etext).toNat⟩ va then
        some (identity pageKernel va) else none :=
    funext fun va => rangePart_identity
      ⟨(pageAlignUp etext).toNat, 0x81000000 - (pageAlignUp etext).toNat⟩ dataDown rfl
      (show (pageAlignUp etext).toNat < 2 ^ 39 by omega) (by rw [dataBytes, end_]) _ va
  have serial : rangePart uart uart uartSize pageKernel = fun va =>
      if Region.has ⟨0x10000000, 4096⟩ va then some (identity pageKernel va) else none :=
    funext fun va => rangePart_identity ⟨0x10000000, 4096⟩ (by decide) (by decide) (by decide)
      (by decide) _ va
  have timer : rangePart virtClintAddr virtClintAddr virtClintSize pageKernel = fun va =>
      if Region.has ⟨0x2000000, 0x10000⟩ va then some (identity pageKernel va) else none :=
    funext fun va => rangePart_identity ⟨0x2000000, 0x10000⟩ (by decide) (by decide) (by decide)
      (by decide) _ va
  -- The page at `VS_MEM` leads elsewhere.
  have page : rangePart gpa vsMem pageSize pageKernel = fun va =>
      if vsRegion.has va then some ⟨gpa.toNat + va.toNat % 4096, pageKernel.setWidth 10⟩
      else none := by
    funext va
    have bytes : rangeBytes vsMem pageSize = 4096 := by decide
    have base : (pageAlignDown vsMem).toNat % 2 ^ 39 = 0x30000000 := by decide
    have target_ := pageAlignDown_toNat gpa
    have aligned := layout.page
    rw [rangePart, bytes, base]
    have covers : vsRegion.has va = true ↔ 0x30000000 ≤ va.toNat % 2 ^ 39 ∧
        va.toNat % 2 ^ 39 - 0x30000000 < 4096 := vsRegion.has_iff va
    by_cases inside : vsRegion.has va = true
    · have place : (pageAlignDown gpa).toNat + (va.toNat % 2 ^ 39 - 0x30000000) =
          gpa.toNat + va.toNat % 4096 := by
        have near := covers.mp inside
        omega
      rw [if_pos inside, if_pos (covers.mp inside), place]
    · rw [if_neg inside, if_neg (mt covers.mpr inside)]
  simp only [guestCalls, List.map_cons, List.map_nil, MapCall.part, MapCall.phys, MapCall.virt,
    MapCall.size, MapCall.prot, dataRegions, List.cons_append, List.nil_append]
  rw [text, data, serial, timer, page]

/-- What the mappings of the guest make of an empty directory. -/
theorem GuestLayout.space (va : U64) :
    Overlay.overlay ((guestCalls textBoot etext gpa).map MapCall.part) (fun _ => none) va =
      guestSpace textBoot etext gpa va := by
  rw [layout.parts, Overlay.overlay_append, Overlay.overlay_append, Overlay.overlay_cons,
    Overlay.overlay_nil, overlay_identity _ _ rfl, overlay_identity _ _ rfl, guestSpace,
    List.any_cons, List.any_nil, Bool.or_false]
  -- The last mapping is on top.
  by_cases inside : vsRegion.has va = true
  · rw [if_pos inside, if_pos inside, Option.some_or]
  · rw [if_neg inside, if_neg inside, Option.none_or]

end Layout

/-! ### Through both stages -/

/-- What the guest should get of an access: where its address leads, if it may go there. -/
def guestAnswer (textBoot etext gpa gva : U64) (kind : AccessKind) : Option U64 :=
  if canonical gva then
    (guestSpace textBoot etext gpa gva).bind fun place =>
      if supervisorPermits kind (place.attributes.setWidth 64) then
        some (BitVec.ofNat 64 place.physical)
      else none
  else none

/-- What a leaf permits is in its low ten bits. -/
theorem supervisorPermits_attributes (kind : AccessKind) (entry : U64) :
    supervisorPermits kind ((entry.setWidth 10).setWidth 64) = supervisorPermits kind entry := by
  have bits : ∀ i < 10, ((entry.setWidth 10).setWidth 64 : U64).getLsbD i = entry.getLsbD i := by
    intro i low
    rw [BitVec.getLsbD_setWidth, BitVec.getLsbD_setWidth, decide_eq_true low,
      decide_eq_true (Nat.lt_trans low (by decide)), Bool.true_and, Bool.true_and]
  simp only [supervisorPermits, isUser, isAccessed, isReadable, isExecutable, isWritable, isDirty,
    bits 1 (by decide), bits 2 (by decide), bits 3 (by decide), bits 4 (by decide),
    bits 6 (by decide), bits 7 (by decide)]

/-- What the guest's tables say is in its address space. -/
theorem firstStage_addressSpace (mem : Memory) (vroot : Ppn) (gva : U64) (kind : AccessKind) :
    firstStage (some vroot) mem gva kind =
      if canonical gva then
        (addressSpace mem vroot gva).bind fun place =>
          if supervisorPermits kind (place.attributes.setWidth 64) then
            some (BitVec.ofNat 64 place.physical)
          else none
      else none := by
  rw [firstStage]
  split
  · rw [guestLeaf, addressSpace, Sv39.translate]
    cases leaf (walk mem vroot gva) with
    | none => rfl
    | some found => simp only [Option.map_some, Option.bind_some, supervisorPermits_attributes,
        guestTarget]
  · rfl

/-- A tree beside the one that was updated is sound as before. -/
theorem Sound.beside {σ : Type} {pages : σ → List U64} {root other : Ppn} {s s' : Mm σ}
    (sound : Sound pages root s)
    (spares : Radix.Spares child (tables s.mem) (tables s'.mem) other 2 (Unused pages s))
    (beside : Radix.Beside child (tables s.mem) other 2 (Unused pages s) root)
    (updated : Sound pages other s')
    (unused : ∀ page, Unused pages s' page → Unused pages s page) : Sound pages root s' := by
  refine ⟨fun P Q page shortP shortQ locatedP locatedQ => ?_, updated.distinct, fun p left => ?_⟩
  · rw [spares.descend beside shortP] at locatedP
    rw [spares.descend beside shortQ] at locatedQ
    exact sound.unshared P Q page shortP shortQ locatedP locatedQ
  · obtain ⟨page, rfl, _⟩ := updated.fresh p left
    obtain ⟨fresh, frame, outside⟩ := sound.fresh _ (unused page left)
    obtain rfl := frameAddr_injective frame
    refine ⟨page, rfl, fun P within located => ?_⟩
    rw [spares.descend beside within] at located
    exact outside P within located

/-- The guest starts with an empty directory beside the tables of the hypervisor. -/
structure GuestBoot {σ : Type} (pages : σ → List U64) (root vroot : Ppn) (s : Mm σ) : Prop where
  demand : Demand pages root s
  blank : ∀ index, tables s.mem vroot index = 0
  apart : Radix.Unreached child (tables s.mem) root 2 vroot
  taken : ¬ Unused pages s vroot
  low : vroot.toNat < 2 ^ 27
  supply : ∀ page, Unused pages s page → page.toNat < 2 ^ 27

section Boot

variable {σ : Type} {pages : σ → List U64} {root vroot : Ppn} {s s' : Mm σ}

namespace GuestBoot

variable (boot : GuestBoot pages root vroot s)

include boot

/-- The directory of the guest is a sound place to start. -/
theorem sound : Sound pages vroot s := by
  refine Sound.empty boot.blank boot.demand.sound.distinct fun p left => ?_
  obtain ⟨page, rfl, _⟩ := boot.demand.sound.fresh p left
  exact ⟨page, rfl, fun same => boot.taken (same ▸ left)⟩

/-- The tables of the hypervisor are beside it. -/
theorem beside : Radix.Beside child (tables s.mem) vroot 2 (Unused pages s) root := by
  intro P page within located
  refine ⟨fun Q _ reached => ?_, fun left => ?_⟩
  · have same := (descend_of_blank boot.blank reached).2
    exact boot.apart P within (same ▸ located)
  · obtain ⟨fresh, frame, outside⟩ := boot.demand.sound.fresh _ left
    obtain rfl := frameAddr_injective frame
    exact outside P within located

/-- With its tables made the guest can run. -/
theorem guest {calls : List MapCall} (laid : Laid pages vroot calls s s') :
    Guest pages root (some vroot) s' := by
  have same {P : List Index} (within : P.length ≤ 2) :=
    laid.spares.descend boot.beside (Q := P) within
  -- A table of the guest is its directory, or was unused.
  have owned {P : List Index} {page : Ppn} (within : P.length ≤ 2)
      (located : Radix.descend child (tables s'.mem) vroot P = some page) :
      page = vroot ∨ Unused pages s page :=
    (laid.made P page within located).imp_left fun before =>
      (descend_of_blank boot.blank before).2
  refine ⟨⟨boot.demand.sound.beside laid.spares boot.beside laid.sound laid.unused,
    fun n inside => ?_⟩, ?_, ?_⟩
  · have kept : pageWalk s'.mem root n = pageWalk s.mem root n :=
      laid.spares.walk boot.beside (Nat.le_refl 2)
    rw [PageState, kept]
    exact boot.demand.state n inside
  · rintro _ ⟨⟩ P page within located
    refine ⟨fun Q short reached => ?_, fun left => ?_⟩
    · rw [same short] at reached
      rcases owned within located with rfl | unused
      · exact boot.apart Q short reached
      · obtain ⟨fresh, frame, outside⟩ := boot.demand.sound.fresh _ unused
        obtain rfl := frameAddr_injective frame
        exact outside Q short reached
    · obtain ⟨fresh, frame, outside⟩ := laid.sound.fresh _ left
      obtain rfl := frameAddr_injective frame
      exact outside P within located
  · rintro _ ⟨⟩ P page within located
    rcases owned within located with rfl | unused
    · exact boot.low
    · exact boot.supply page unused

end GuestBoot

/-- Every address of the guest's space is below 512 GiB. -/
theorem guestAnswer_low {textBoot etext gpa gva answer : U64} {kind : AccessKind}
    (layout : GuestLayout textBoot etext gpa)
    (found : guestAnswer textBoot etext gpa gva kind = some answer) : answer.toNat < 2 ^ 39 := by
  have low := layout.low
  rw [guestAnswer] at found
  split at found
  · obtain ⟨place, leads, allowed⟩ := Option.bind_eq_some_iff.mp found
    -- The page of `VS_MEM` is low, and the other addresses lead to themselves.
    have bound : place.physical < 2 ^ 39 := by
      rw [guestSpace] at leads
      split at leads
      · rw [← Option.some_inj.mp leads]
        dsimp only
        omega
      · split at leads
        · rw [← Option.some_inj.mp leads, identity]
          dsimp only
          omega
        · split at leads
          · rw [← Option.some_inj.mp leads, identity]
            dsimp only
            omega
          · cases leads
    split at allowed
    · rw [← Option.some_inj.mp allowed, BitVec.toNat_ofNat]
      omega
    · cases allowed
  · cases found

variable {alloc : AllocPgtable σ} {fuel : Nat} {textBoot etext gpa : U64}

/-- The tables of the guest are made with 24 pages, and say what its address space does. -/
theorem vsMainTables_made (supplies : Supplies alloc pages) (fueled : 512 ≤ fuel)
    (boot : GuestBoot pages root vroot s) (layout : GuestLayout textBoot etext gpa)
    (enough : 24 ≤ (pages s.pool).length) :
    ∃ s₁, vsMainTables alloc fuel (frameAddr vroot) textBoot etext gpa s = some s₁ ∧
      Laid pages vroot (guestCalls textBoot etext gpa) s s₁ ∧
      Guest pages root (some vroot) s₁ ∧
      ∀ gva kind, firstStage (some vroot) s₁.mem gva kind =
        guestAnswer textBoot etext gpa gva kind := by
  have tables_ := layout.tables
  obtain ⟨s₁, made, laid⟩ := mapCalls_run supplies fueled boot.sound layout.mappable
    (fun _ _ va _ => Or.inr (congrArg Prod.snd (walk_of_blank boot.blank va))) (by omega)
  -- The empty directory leads nowhere, so the space is that of the mappings.
  have nowhere : addressSpace s.mem vroot = fun _ => none := by
    funext va
    rw [addressSpace, Sv39.translate, walk_of_blank boot.blank, leaf_of_empty rfl]
    rfl
  refine ⟨s₁, (vsMainTables_run _ _ _ _ _ _ _).trans made, laid, boot.guest laid,
    fun gva kind => ?_⟩
  rw [firstStage_addressSpace, laid.space, nowhere, layout.space, guestAnswer]

/--
The guest of `vs_main` with its tables made: whatever it accesses afterwards, one access after the
other, goes where its address space leads, with at most four guest-page faults for each, as long as
each fault finds pages for its tables. What is no table and was not free keeps its content, so at
`VS_MEM` the guest finds what the hypervisor left.
-/
theorem vsMain_twoStages (supplies : Supplies alloc pages) (fueled : 512 ≤ fuel)
    (boot : GuestBoot pages root vroot s) (layout : GuestLayout textBoot etext gpa)
    (enough : 24 ≤ (pages s.pool).length) (accesses : List (U64 × AccessKind))
    (supplied : ∀ s₁, vsMainTables alloc fuel (frameAddr vroot) textBoot etext gpa s = some s₁ →
      AccessesSupplied alloc fuel root (some vroot) pages 5 accesses s₁) :
    ∃ s₁ results s₂, vsMainTables alloc fuel (frameAddr vroot) textBoot etext gpa s = some s₁ ∧
      guestAccesses alloc fuel root (some vroot) 5 accesses s₁ = some (results, s₂) ∧
      results.map Prod.snd =
        accesses.map (fun access => guestAnswer textBoot etext gpa access.1 access.2) ∧
      (∀ result ∈ results, result.1 ≤ 4) ∧
      ∀ page, Radix.Unreached child (tables s.mem) root 2 page → page ≠ vroot →
        ¬ Unused pages s page → tables s₂.mem page = tables s.mem page := by
  obtain ⟨s₁, made, laid, guest, answers⟩ := vsMainTables_made supplies fueled boot layout enough
  obtain ⟨results, s₂, ran, same, most, _, _, _, kept⟩ := guestAccesses_transparent supplies
    fueled guest accesses
    (fun access _ gpa' found => guestAnswer_low layout ((answers _ _).symm.trans found))
    (supplied s₁ made)
  refine ⟨s₁, results, s₂, made, ran, ?_, most, ?_⟩
  · simp only [same, answers]
  · intro page outside other unused
    -- The page is in neither of the two trees, and no table was made of it.
    have beyond : Radix.Unreached child (tables s.mem) vroot 2 page := fun P _ located =>
      other (descend_of_blank boot.blank located).2
    have hidden : Radix.Unreached child (tables s₁.mem) root 2 page := by
      intro P within located
      rw [laid.spares.descend boot.beside within] at located
      exact outside P within located
    rw [kept page hidden fun now => unused (laid.unused page now),
      (laid.spares page beyond unused).1]

/-- Eight pages more for each access are always enough. -/
theorem vsMain_supplied (supplies : Supplies alloc pages) (fueled : 512 ≤ fuel)
    (boot : GuestBoot pages root vroot s) (layout : GuestLayout textBoot etext gpa)
    (accesses : List (U64 × AccessKind))
    (many : 24 + 8 * accesses.length ≤ (pages s.pool).length) :
    ∀ s₁, vsMainTables alloc fuel (frameAddr vroot) textBoot etext gpa s = some s₁ →
      AccessesSupplied alloc fuel root (some vroot) pages 5 accesses s₁ := by
  intro s₁ run
  obtain ⟨s₁', made, laid, guest, answers⟩ :=
    vsMainTables_made supplies fueled boot layout (by omega)
  cases run.symm.trans made
  obtain ⟨spent, few, left⟩ := laid.supply
  have tables_ := layout.tables
  exact accessesSupplied_of_many supplies fueled guest (Later.refl guest.demand) accesses
    (fun access _ gpa' found => guestAnswer_low layout ((answers _ _).symm.trans found))
    (by rw [left, List.length_drop]; omega)

end Boot

/-! ### The guest as it is linked -/

/-- The page that holds what the hypervisor wrote. -/
def vsPage : U64 := 0x80500000

/-- An empty memory with what the hypervisor wrote, and pages for tables. -/
def vsStart : Mm (List U64) where
  mem := Function.update (fun _ => 0) vsPage 0x12345678
  pool := (List.range 48).map fun i => frameAddr (0x80600 + BitVec.ofNat 44 i)
  touched := []

theorem vsStart_blank {page : Ppn} (other : page ≠ 0x80500) (index : Index) :
    tables vsStart.mem page index = 0 := by
  rw [tables, vsStart]
  dsimp only
  have place : vsPage = entryAddr 0x80500 0 := by decide
  rw [place, Function.update_of_ne fun same => other (entryAddr_injective same).1]

/-- The pages of the supply. -/
theorem vsStart_unused {page : Ppn} (unused : Unused id vsStart page) :
    0x80600 ≤ page.toNat ∧ page.toNat < 0x80630 := by
  obtain ⟨i, inside, frame⟩ := List.mem_map.mp unused
  obtain rfl := frameAddr_injective frame
  have all : ∀ i ∈ List.range 48, 0x80600 ≤ ((0x80600 : Ppn) + BitVec.ofNat 44 i).toNat ∧
      ((0x80600 : Ppn) + BitVec.ofNat 44 i).toNat < 0x80630 := by decide
  exact all i inside

theorem vsStart_boot : GuestBoot id hsPgDir guestRoot vsStart := by
  have blank : ∀ index, tables vsStart.mem hsPgDir index = 0 := vsStart_blank (by decide)
  refine ⟨Demand.empty blank (by decide) fun p member => ?_, vsStart_blank (by decide),
    fun P _ located => absurd (descend_of_blank blank located).2 (by decide), fun unused => ?_,
    by decide, fun page unused => ?_⟩
  · obtain ⟨i, inside, rfl⟩ := List.mem_map.mp member
    refine ⟨_, rfl, ?_⟩
    have all : ∀ i ∈ List.range 48, (0x80600 : Ppn) + BitVec.ofNat 44 i ≠ hsPgDir := by decide
    exact all i inside
  · exact absurd (vsStart_unused unused).1 (by decide)
  · exact Nat.lt_trans (vsStart_unused unused).2 (by decide)

theorem vsStart_layout : GuestLayout 0x80200000 0x80212000 vsPage :=
  ⟨by decide, by decide, by decide, by decide, by decide, by decide⟩

/-- The guest loads what the hypervisor wrote, and may not write its own instructions. -/
theorem vsMain_twoStages_reads :
    ∃ s₁ results s₂,
      vsMainTables listed 512 (frameAddr guestRoot) 0x80200000 0x80212000 vsPage vsStart =
        some s₁ ∧
      guestAccesses listed 512 hsPgDir (some guestRoot) 5
        [(0x30000000, .load), (0x80200000, .fetch), (0x80200000, .store)] s₁ =
          some (results, s₂) ∧
      results.map Prod.snd = [some vsPage, some 0x80200000, none] ∧
      s₂.mem vsPage = 0x12345678 := by
  obtain ⟨s₁, results, s₂, made, ran, same, _, kept⟩ := vsMain_twoStages listed_supplies
    (Nat.le_refl 512) vsStart_boot vsStart_layout (by decide)
    [(0x30000000, .load), (0x80200000, .fetch), (0x80200000, .store)]
    (vsMain_supplied listed_supplies (Nat.le_refl 512) vsStart_boot vsStart_layout _ (by decide))
  refine ⟨s₁, results, s₂, made, ran, same.trans (by decide), ?_⟩
  have blank : ∀ index, tables vsStart.mem hsPgDir index = 0 := vsStart_blank (by decide)
  have place : vsPage = entryAddr 0x80500 0 := by decide
  have content := kept 0x80500
    (fun P _ located => absurd (descend_of_blank blank located).2 (by decide)) (by decide)
    (fun unused => absurd (vsStart_unused unused).1 (by decide))
  rw [place]
  exact (congrFun content 0).trans (by decide)

end Benos
