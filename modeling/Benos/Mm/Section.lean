import Benos.Machine.Hart
import Benos.Mm.Pgtable

/-! The first page table of the kernel, which the assembly of `boot.S` fills with sections of 2 MiB. -/

namespace Benos

/-- `SECTION_SIZE`. -/
def sectionSize : U64 := 1#64 <<< pmdShift

/-- `SECTION_MASK`. -/
def sectionMask : U64 := ~~~(sectionSize - 1)

/-- `SECTION_KERNEL_RWX`. -/
def sectionKernelRwx : U64 :=
  _PAGE_PRESENT ||| _PAGE_ACCESSED ||| _PAGE_READ ||| _PAGE_EXEC ||| _PAGE_WRITE ||| _PAGE_DIRTY

/-! ### The instructions -/

/-- One straight-line instruction of the boot code. -/
inductive BootInstr where
  | plain (instr : Instr)
  | srli (rd rs : Reg) (shift : Nat)
  | slli (rd rs : Reg) (shift : Nat)
  | ori (rd rs : Reg) (imm : U64)
  | or (rd rs1 rs2 : Reg)
  | and (rd rs1 rs2 : Reg)
  | sub (rd rs1 rs2 : Reg)

namespace Hart

/-- One instruction of the boot code. -/
def bootExec : BootInstr → Hart → Option Hart
  | .plain instr, h => exec instr h
  | .srli rd rs shift, h => some (h.set rd (h.get rs >>> shift))
  | .slli rd rs shift, h => some (h.set rd (h.get rs <<< shift))
  | .ori rd rs imm, h => some (h.set rd (h.get rs ||| imm))
  | .or rd rs1 rs2, h => some (h.set rd (h.get rs1 ||| h.get rs2))
  | .and rd rs1 rs2, h => some (h.set rd (h.get rs1 &&& h.get rs2))
  | .sub rd rs1 rs2, h => some (h.set rd (h.get rs1 - h.get rs2))

/-- The instructions of a block in order. -/
def bootExecs : List BootInstr → Hart → Option Hart := Transition.run bootExec

/-- Whether `blt` branches, which compares its registers as signed numbers. -/
def blt (h : Hart) (rs1 rs2 : Reg) : Bool := (h.get rs1).slt (h.get rs2)

/-- A block that is run again as long as the `blt` behind it branches. -/
def bltLoop (block : List BootInstr) (rs1 rs2 : Reg) : Nat → Hart → Option Hart
  | 0, _ => none
  | fuel + 1, h =>
    match bootExecs block h with
    | none => none
    | some h => if h.blt rs1 rs2 then bltLoop block rs1 rs2 fuel h else some h

end Hart

/-! ### The code -/

/-- The body of `.loop1`. -/
def loop1 : List BootInstr := [.plain (.sd .zero 0 .a0), .plain (.addi .a0 .a0 8)]

/-- The body of `.loop2`: the index of a section, its entry, and the step to the next one. -/
def loop2 : List BootInstr :=
  [.srli .t0 .a2 pmdShift, .plain (.li .t1 (ptrsPerPmd - 1)), .and .t0 .t0 .t1, .slli .a7 .t0 3,
    .srli .t1 .a1 pageShift, .slli .t1 .t1 _PAGE_PFN_SHIFT, .or .t1 .t1 .a4,
    .plain (.add .t2 .a6 .a7), .plain (.sd .t1 0 .t2),
    .plain (.li .t1 sectionSize), .plain (.add .a2 .a2 .t1), .plain (.add .a1 .a1 .t1)]

/-- The head of `__create_section_mapping`, which fills one entry of the directory. -/
def sectionHead : List BootInstr :=
  [.plain (.addi .sp .sp (-16)), .plain (.sd .ra 8 .sp),
    .srli .t0 .a2 pgdirShift, .slli .a5 .t0 3,
    .plain (.li .t0 pageSize), .plain (.add .a6 .a0 .t0),
    .srli .t1 .a6 pageShift, .slli .t1 .t1 _PAGE_PFN_SHIFT, .ori .t1 .t1 pageTable,
    .plain (.add .t2 .a0 .a5), .plain (.sd .t1 0 .t2)]

/-- The end of a function that has stored its return address. -/
def sectionTail : List BootInstr := [.plain (.ld .ra 8 .sp), .plain (.addi .sp .sp 16)]

/-- `__create_section_mapping`. -/
def createSectionMapping (fuel : Nat) (h : Hart) : Option Hart := do
  let h ← Hart.bootExecs sectionHead h
  let h ← Hart.bltLoop loop2 .a2 .a3 fuel h
  let h ← Hart.bootExecs sectionTail h
  -- `ret`
  some { h with pc := h.get .ra }

/-- The addresses the boot code is linked at. -/
structure BootText where
  idmapPgDir : U64
  idmapPgEnd : U64
  textBoot : U64
  /-- The instruction behind the call of `__create_section_mapping`. -/
  sectionsDone : U64

/-- The part of `create_page_table` before `.loop1`. -/
def BootText.clearing (text : BootText) : List BootInstr :=
  [.plain (.addi .sp .sp (-16)), .plain (.sd .ra 8 .sp),
    .plain (.li .a0 text.idmapPgDir), .plain (.li .a1 text.idmapPgEnd)]

/-- The arguments of the call, up to the call itself. -/
def BootText.arguments (text : BootText) : List BootInstr :=
  [.plain (.li .t0 sectionMask), .plain (.li .t1 sectionSize), .plain (.li .t2 1),
    .plain (.li .a0 text.idmapPgDir),
    .plain (.li .a1 text.textBoot), .and .a1 .a1 .t0, .plain (.mv .a2 .a1),
    .plain (.li .a3 ddrEnd), .plain (.add .a3 .a3 .t1), .sub .a3 .a3 .t2, .and .a3 .a3 .t0,
    .plain (.li .a4 sectionKernelRwx), .plain (.li .ra text.sectionsDone)]

/-- `create_page_table`. -/
def createPageTable (text : BootText) (fuel : Nat) (h : Hart) : Option Hart := do
  let h ← Hart.bootExecs text.clearing h
  let h ← Hart.bltLoop loop1 .a0 .a1 fuel h
  let h ← Hart.bootExecs text.arguments h
  let h ← createSectionMapping fuel h
  let h ← Hart.bootExecs sectionTail h
  -- `ret`
  some { h with pc := h.get .ra }

end Benos
