import Benos.Machine.Hart
import Benos.Sched.Fork

/-! The trap vector of `entry.S`: `kernel_entry`, `ret_from_exception` and `kernel_exit`. -/

namespace Benos

/-! ### Offsets -/

/-- `TASK_TI_PREEMPT_COUNT`. -/
def taskTiPreemptCount : U64 := 112

/-- `TASK_TI_NEED_RESCHED`. -/
def taskTiNeedResched : U64 := 116

/-- `_TIF_NEED_RESCHED`. -/
def tifNeedResched : U64 := 1

/-- `HSTATUS_SPV`. -/
def hstatusSpv : U64 := 1 <<< 7

def ptTp : U64 := 32
def ptSbadaddr : U64 := 264
def ptScause : U64 := 272
def ptHstatus : U64 := 280

/-- The registers `kernel_entry` stores as it finds them, with their fields of `struct pt_regs`. -/
def savedSlots : List (Reg × U64) :=
  [(.ra, 8), (.gp, ptGp), (.t0, 40), (.t1, 48), (.t2, 56), (.s0, 64), (.s1, 72), (.a0, ptA0),
    (.a1, 88), (.a2, 96), (.a3, 104), (.a4, 112), (.a5, 120), (.a6, 128), (.a7, 136), (.s2, 144),
    (.s3, 152), (.s4, 160), (.s5, 168), (.s6, 176), (.s7, 184), (.s8, 192), (.s9, 200),
    (.s10, 208), (.s11, 216), (.t3, 224), (.t4, 232), (.t5, 240), (.t6, 248)]

/-- The stores of `kernel_entry` that come last, of values collected in other registers. -/
def collectedSlots : List (Reg × U64) :=
  [(.s6, ptSp), (.s1, ptSstatus), (.s2, ptSepc), (.s3, ptSbadaddr), (.s4, ptScause), (.s5, ptTp),
    (.s7, ptHstatus)]

/-- The registers `kernel_exit` loads before the stack pointer. -/
def restoredSlots : List (Reg × U64) :=
  [(.ra, 8), (.gp, ptGp), (.tp, ptTp), (.t0, 40), (.t1, 48), (.t2, 56), (.s0, 64), (.s1, 72),
    (.a0, ptA0), (.a1, 88), (.a2, 96), (.a3, 104), (.a4, 112), (.a5, 120), (.a6, 128), (.a7, 136),
    (.s2, 144), (.s3, 152), (.s4, 160), (.s5, 168), (.s6, 176), (.s7, 184), (.s8, 192),
    (.s9, 200), (.s10, 208), (.s11, 216), (.t3, 224), (.t4, 232), (.t5, 240), (.t6, 248)]

/-! ### Entry -/

/-- The addresses the trap code is linked at. -/
structure TrapText where
  doExceptionVector : U64
  doException : U64
  retFromException : U64

/-- `_save_kernel_sp`, which `bnez tp, _save_user_sp` jumps over. -/
def saveKernelSp (h : Hart) : Option Hart :=
  if h.get .tp ≠ 0 then some h else Hart.execs [.csrr .tp .sscratch, .sd .sp taskTiKernelSp .tp] h

/-- `kernel_entry`. -/
def kernelEntry (h : Hart) : Option Hart := do
  let h ← h.exec (.csrrw .tp .sscratch .tp)
  let h ← saveKernelSp h
  let h ← Hart.execs
    [.sd .sp taskTiUserSp .tp, .ld .sp taskTiKernelSp .tp, .addi .sp .sp (-ptSize)] h
  let h ← Hart.execs (stores .sp savedSlots) h
  let h ← Hart.execs
    [.ld .s6 taskTiUserSp .tp, .csrr .s1 .sstatus, .csrr .s2 .sepc, .csrr .s3 .stval,
      .csrr .s4 .scause, .csrr .s5 .sscratch, .csrr .s7 .hstatus] h
  Hart.execs (stores .sp collectedSlots) h

/-- `do_exception_vector`, up to the first instruction of `do_exception`. -/
def doExceptionVector (text : TrapText) (h : Hart) : Option Hart := do
  let h ← kernelEntry h
  let h ← Hart.execs
    [.csrw .sscratch .zero, .li .ra text.retFromException, .mv .a0 .sp, .mv .a1 .s4] h
  -- `tail do_exception`
  some { h with pc := text.doException }

/-! ### Exit -/

/-- `kernel_exit`. -/
def kernelExit (h : Hart) : Option Hart := do
  let h ← Hart.execs (loads .sp [(.a0, ptSstatus), (.a2, ptSepc), (.a3, ptHstatus)]) h
  let h ← Hart.execs [.csrw .sstatus .a0, .csrw .sepc .a2, .csrw .hstatus .a3] h
  let h ← Hart.execs (loads .sp restoredSlots) h
  h.exec (.ld .sp ptSp .sp)

/-- `work_resched`, which is jumped to by `bnez s1, work_resched` and jumps back. -/
def workResched (schedule : Hart → Option Hart) (h : Hart) : Option Hart :=
  if h.get .s1 ≠ 0 then schedule h else some h

/-- `ret_to_user`, up to `sret`, where `schedule` is what a call of that function does. -/
def retToUser (schedule : Hart → Option Hart) (h : Hart) : Option Hart := do
  let h ← Hart.execs [.lw .s1 taskTiNeedResched .tp, .andi .s1 .s1 tifNeedResched] h
  let h ← workResched schedule h
  let h ← Hart.execs [.addi .s1 .sp ptSize, .sd .s1 taskTiKernelSp .tp, .csrw .sscratch .tp] h
  kernelExit h

/-- The loop `need_resched`, up to `sret`. -/
def needReschedLoop (preemptScheduleIrq : Hart → Option Hart) : Nat → Hart → Option Hart
  | 0, _ => none
  | fuel + 1, h => do
    let h ← Hart.execs [.lw .s1 taskTiNeedResched .tp, .andi .s1 .s1 tifNeedResched] h
    if h.get .s1 = 0 then kernelExit h
    else
      let h ← preemptScheduleIrq h
      needReschedLoop preemptScheduleIrq fuel h

/-- `ret_to_kernel`, up to `sret`. -/
def retToKernel (preemptScheduleIrq : Hart → Option Hart) (fuel : Nat) (h : Hart) :
    Option Hart := do
  let h ← h.exec (.lw .s1 taskTiPreemptCount .tp)
  -- `bnez s1, restore_all`
  if h.get .s1 ≠ 0 then kernelExit h else needReschedLoop preemptScheduleIrq fuel h

/-- `ret_from_exception`, up to `sret`. -/
def retFromException (schedule preemptScheduleIrq : Hart → Option Hart) (fuel : Nat) (h : Hart) :
    Option Hart := do
  let h ← Hart.execs [.ld .s1 ptHstatus .sp, .ld .s2 ptSstatus .sp, .csrc .sstatus srSie,
    .andi .s1 .s1 hstatusSpv] h
  -- `bnez s1, ret_to_user`
  if h.get .s1 ≠ 0 then retToUser schedule h
  else
    let h ← h.exec (.andi .s2 .s2 srSpp)
    -- `bnez s2, ret_to_kernel`
    if h.get .s2 ≠ 0 then retToKernel preemptScheduleIrq fuel h else retToUser schedule h

end Benos
