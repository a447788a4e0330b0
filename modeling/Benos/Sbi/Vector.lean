import Benos.Sbi.Trap
import Benos.Trap.Frame

/-!
The M-mode trap vector of `sbi_entry.S`, on a hart with the control registers it drives.

The bits of `mstatus` that the supervisor sees as `sstatus` are written by no code here.
-/

namespace Benos

/-! ### The hart in M mode -/

/-- The control registers of M mode that are read or written. -/
inductive MCsr where
  | mstatus | mepc | mcause | mscratch
  deriving DecidableEq

/-- A hart together with its M-mode state. -/
structure MHart where
  hart : Hart
  mcsr : MCsr → U64
  /-- Whether the privilege mode is M, whatever `hart` says. -/
  machine : Bool

/-- One straight-line instruction of M-mode code. -/
inductive MInstr where
  | lower (instr : Instr)
  | csrr (rd : Reg) (csr : MCsr)
  | csrw (csr : MCsr) (rs : Reg)
  | csrrw (rd : Reg) (csr : MCsr) (rs : Reg)

namespace MHart

/-- Writing a control register of M mode. -/
def setCsr (h : MHart) (c : MCsr) (value : U64) : MHart :=
  { h with mcsr := Function.update h.mcsr c value }

/-- One instruction. -/
def exec : MInstr → MHart → Option MHart
  | .lower instr, h => (h.hart.exec instr).map fun hart => { h with hart }
  | .csrr rd c, h => some { h with hart := h.hart.set rd (h.mcsr c) }
  | .csrw c rs, h => some (h.setCsr c (h.hart.get rs))
  | .csrrw rd c rs, h =>
    some { h.setCsr c (h.hart.get rs) with hart := h.hart.set rd (h.mcsr c) }

/-- The instructions of a block in order. -/
def execs : List MInstr → MHart → Option MHart := Transition.run exec

/-- A block without instructions of M mode. -/
def lower (block : List Instr) : List MInstr := block.map .lower

/-- The positions of the bits of `mstatus` a trap moves; `MPP` has two. -/
def mieBit : Nat := 3
def mpieBit : Nat := 7
def mppBit : Nat := 11
def mpvBit : Nat := 39

/-- `mstatus` after a trap into M mode. -/
def trapStatus (h : MHart) : U64 :=
  let status := h.mcsr .mstatus
  let status := Hart.putBit status mppBit (h.machine || h.hart.supervisor)
  let status := Hart.putBit status (mppBit + 1) h.machine
  let status := Hart.putBit status mpieBit ((h.mcsr .mstatus).getLsbD mieBit)
  let status := Hart.putBit status mpvBit h.hart.virt
  Hart.putBit status mieBit false

/-- What the hart does when a trap is taken into M mode. -/
def mtrap (h : MHart) (cause mtvec : U64) : MHart :=
  let entered := ((h.setCsr .mstatus h.trapStatus).setCsr .mepc h.hart.pc).setCsr .mcause cause
  { entered with machine := true, hart := { h.hart with virt := false, pc := mtvec } }

/-- `mret`. -/
def mret (h : MHart) : MHart :=
  let status := h.mcsr .mstatus
  let machine := status.getLsbD (mppBit + 1)
  let supervisor := status.getLsbD mppBit
  let virt := !machine && status.getLsbD mpvBit
  let status := Hart.putBit status mieBit (status.getLsbD mpieBit)
  let status := Hart.putBit status mpieBit true
  let status := Hart.putBit (Hart.putBit status mppBit false) (mppBit + 1) false
  let status := if machine then status else Hart.putBit status mpvBit false
  { h.setCsr .mstatus status with
    machine, hart := { h.hart with supervisor, virt, pc := h.mcsr .mepc } }

end MHart

/-! ### The vector -/

/-- `PT_SIZE` of `sbi_asm_offsets.h`, which has the offsets of `struct pt_regs` otherwise. -/
def sbiPtSize : U64 := 264

/-- `PT_MEPC`. -/
def ptMepc : U64 := 0

/-- `PT_MSTATUS`. -/
def ptMstatus : U64 := 256

/-- `PT_A7`. -/
def sbiPtA7 : U64 := 136

/-- The addresses the M-mode trap code is linked at. -/
structure SbiText where
  sbiExceptionVector : U64
  sbiTrapHandler : U64
  /-- The instruction behind the call of `sbi_trap_handler`. -/
  saveContext : U64

/-- `sbi_exception_vector`, up to the first instruction of `sbi_trap_handler`. -/
def sbiExceptionVector (text : SbiText) (h : MHart) : Option MHart := do
  let h ← h.exec (.csrrw .sp .mscratch .sp)
  let h ← h.exec (.lower (.addi .sp .sp (-sbiPtSize)))
  let h ← MHart.execs (MHart.lower (stores .sp savedSlots)) h
  let h ← MHart.execs [.csrr .t0 .mepc, .lower (.sd .t0 ptMepc .sp)] h
  let h ← MHart.execs [.csrr .t0 .mstatus, .lower (.sd .t0 ptMstatus .sp)] h
  let h ← MHart.execs [.lower (.addi .t0 .sp sbiPtSize), .csrrw .t0 .mscratch .t0,
    .lower (.sd .t0 ptSp .sp)] h
  -- `call sbi_trap_handler`
  let h ← MHart.execs (MHart.lower [.mv .a0 .sp, .li .ra text.saveContext]) h
  some { h with hart := { h.hart with pc := text.sbiTrapHandler } }

/-- The rest of `sbi_exception_vector`, up to `mret`, which restores what was stored. -/
def sbiSaveContext (h : MHart) : Option MHart := do
  let h ← MHart.execs [.lower (.ld .t0 ptMstatus .sp), .csrw .mstatus .t0] h
  let h ← MHart.execs [.lower (.ld .t0 ptMepc .sp), .csrw .mepc .t0] h
  let h ← MHart.execs (MHart.lower (loads .sp savedSlots)) h
  h.exec (.lower (.ld .sp ptSp .sp))

/-! ### The handler -/

/-- The fields of the frame that the handler reads or writes. -/
def sbiFrameRegs (mem : Memory) (frame : U64) : SbiTrapRegs :=
  { mepc := mem (frame + ptMepc), a0 := mem (frame + ptA0), a7 := mem (frame + sbiPtA7) }

/-- A frame of M mode, from its lowest address. -/
def OnSbiFrame (frame addr : U64) : Prop := (addr - frame).toNat < sbiPtSize.toNat

/--
A call of `sbi_trap_handler` that returns.

It does to the frame it was given what the C code does, and obeys the calling convention: the
stack pointer comes back, the frame is written in no other place, and `tp` is not written at all.
-/
structure SbiHandles (board : Board) (entered : MHart) (board' : Board) (left : MHart) : Prop where
  handled : sbiTrapHandler (entered.mcsr .mcause)
      (sbiFrameRegs entered.hart.mem (entered.hart.get .a0)) board =
    some (sbiFrameRegs left.hart.mem (entered.hart.get .a0), board')
  mem : ∀ addr, OnSbiFrame (entered.hart.get .a0) addr →
    addr ≠ entered.hart.get .a0 + ptMepc → addr ≠ entered.hart.get .a0 + ptA0 →
    left.hart.mem addr = entered.hart.mem addr
  sp : left.hart.get .sp = entered.hart.get .sp
  tp : left.hart.get .tp = entered.hart.get .tp
  mscratch : left.mcsr .mscratch = entered.mcsr .mscratch

/-- `_start` of `sbi_boot.S`: what it leaves in `mscratch`, the stack being 4 KB. -/
def sbiStackTop (stacksStart : U64) : U64 := stacksStart + 4096

end Benos
