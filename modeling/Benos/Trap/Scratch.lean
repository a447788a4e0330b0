import Benos.Lib.Transition
import Benos.Sched.Preempt

/-!
The registers by which the trap code finds its task, one instruction after the other.

Stack pointers are integers, and of a frame only the words are kept that decide where it goes back
to. What C code does in between is left open, except for the calls by which it comes back.
-/

namespace Benos

/-- Where a CPU is; a place of the assembly is named after the instruction it is at. -/
inductive TrapPlace where
  /-- A program in user or guest mode. -/
  | program
  /-- `csrrw tp, sscratch, tp`, the first instruction of `kernel_entry`. -/
  | swapTp
  /-- `bnez tp, _save_user_sp` -/
  | testTp
  /-- `csrr tp, sscratch` -/
  | readTp
  /-- `sd sp, TASK_TI_KERNEL_SP(tp)` -/
  | saveKernelSp
  /-- `sd sp, TASK_TI_USER_SP(tp)` -/
  | saveUserSp
  /-- `ld sp, TASK_TI_KERNEL_SP(tp)` -/
  | loadKernelSp
  /-- `addi sp, sp, -(PT_SIZE)` and the stores that fill the frame. -/
  | pushFrame
  /-- `csrw sscratch, x0`, behind which `do_exception` is called. -/
  | clearScratch
  /-- C code of a handler, or of the function of a kernel thread. -/
  | code
  /-- The loads of `hstatus` and `sstatus` at the start of `ret_from_exception`. -/
  | loadStatus
  /-- `csrc sstatus, SR_SIE`, with `SPP` and `SPV` as loaded. -/
  | clearSie (spp spv : Bool)
  /-- `bnez s1, ret_to_user` and `bnez s2, ret_to_kernel`. -/
  | testStatus (spp spv : Bool)
  /-- `bnez s1, work_resched` -/
  | testResched
  /-- `sd s1, TASK_TI_KERNEL_SP(tp)` in `no_work_pending`. -/
  | noWorkPending
  /-- `csrw sscratch, tp` -/
  | setScratch
  /-- `bnez s1, restore_all` in `ret_to_kernel`. -/
  | testCount
  /-- `beqz s1, restore_all` in the loop `need_resched`. -/
  | needResched
  /-- `csrw sstatus, a0` in `kernel_exit`. -/
  | writeSstatus
  /-- `csrw sepc, a2` -/
  | writeSepc
  /-- `csrw CSR_HSTATUS, a3` -/
  | writeHstatus
  /-- `ld x4, PT_TP(sp)`, and the loads around it. -/
  | loadTp
  /-- `ld x2, PT_SP(sp)` -/
  | loadSp
  | sret
  /-- `raw_local_irq_enable` at the start of `preempt_schedule_irq`. -/
  | preemptScheduleIrq
  /-- `raw_local_irq_disable` in `__schedule`. -/
  | schedule (caller : Caller)
  /-- `pick_next_task` and `cpu_switch_to`. -/
  | switchTo (caller : Caller)
  /-- `raw_local_irq_enable` at the end of `__schedule`, on either branch. -/
  | scheduleTail (caller : Caller)
  /-- The way back out of `__schedule`. -/
  | scheduleReturn (caller : Caller)
  /-- `schedule_tail` of a new clone. -/
  | retFromFork
  /-- `schedule_tail` of a new kernel thread. -/
  | retFromKernelThread
  /-- `sd sp, TASK_TI_KERNEL_SP(tp)`, the first instruction of `jump_to_vs_mode`. -/
  | saveSp
  /-- `csrw sscratch, tp` in `jump_to_vs_mode`. -/
  | setScratchVs
  /-- `csrw sepc, t0` in `jump_to_vs_mode`. -/
  | writeSepcVs
  deriving DecidableEq

/-- C code that is free to move the stack pointer and to set the fields of its task. -/
def TrapPlace.isCode : TrapPlace → Bool
  | code | schedule _ | scheduleTail _ | scheduleReturn _ => true
  | _ => false

/-- What a `struct pt_regs` says about where it goes back to. -/
structure TrapFrame where
  /-- Its lowest address. -/
  base : Int
  spp : Bool
  spv : Bool
  sie : Bool
  spie : Bool
  tp : U64
  sp : Int
  sepc : TrapPlace
  deriving DecidableEq

/-- A frame that goes back to the kernel. -/
def TrapFrame.FromKernel (f : TrapFrame) : Prop := f.spp = true ∧ f.spv = false

instance (f : TrapFrame) : Decidable f.FromKernel := inferInstanceAs (Decidable (_ ∧ _))

/-- `PT_SIZE`, as an integer. -/
def frameSize : Int := 296

/-- A CPU with the tasks it runs. -/
structure TrapCpu where
  place : TrapPlace
  supervisor : Bool
  virt : Bool
  sie : Bool
  spp : Bool
  spv : Bool
  spie : Bool
  sepc : TrapPlace
  sscratch : U64
  tp : U64
  sp : Int
  /-- The task the scheduler has switched to. -/
  current : U64
  kernelSp : U64 → Int
  userSp : U64 → Int
  /-- Whether `need_resched` of a task is set. -/
  needResched : U64 → Bool
  /-- Whether `preempt_count` of a task is not zero. -/
  atomic : U64 → Bool
  /-- The frames on the kernel stack of a task that are still to be restored, the innermost first. -/
  frames : U64 → List TrapFrame
  /-- Where a task that is switched out goes on, and with which stack pointer. -/
  waiting : U64 → Option (TrapPlace × Int)

namespace TrapCpu

variable (cpu : TrapCpu)

/-- Whether the CPU is in HS mode. -/
def InKernel : Prop := cpu.supervisor = true ∧ cpu.virt = false

instance : Decidable cpu.InKernel := inferInstanceAs (Decidable (_ ∧ _))

/-- Whether `SPP` and `SPV` name HS mode. -/
def FromKernel : Prop := cpu.spp = true ∧ cpu.spv = false

instance : Decidable cpu.FromKernel := inferInstanceAs (Decidable (_ ∧ _))

/-- What the hardware does when a trap is taken. -/
def trap : TrapCpu :=
  { cpu with
    place := .swapTp, supervisor := true, virt := false, sie := false
    spp := cpu.supervisor, spv := cpu.virt, spie := cpu.sie, sepc := cpu.place }

/-- The frame that `kernel_entry` fills, whose field `tp` comes from `sscratch`. -/
def filled : TrapFrame :=
  { base := cpu.sp - frameSize, spp := cpu.spp, spv := cpu.spv, sie := cpu.sie, spie := cpu.spie
    tp := cpu.sscratch, sp := cpu.userSp cpu.tp, sepc := cpu.sepc }

/-- The frame at the stack pointer. -/
def frame : Option TrapFrame :=
  match cpu.frames cpu.current with
  | f :: _ => if f.base = cpu.sp then some f else none
  | [] => none

/-- The return of `schedule` or `preempt_schedule_irq` to the trap code, by the calling convention. -/
def backTo (place : TrapPlace) : Option TrapCpu :=
  match cpu.frames cpu.current with
  | f :: _ => some { cpu with place := place, sp := f.base }
  | [] => none

/-- The next instruction, where there is no choice. -/
def next : Option TrapCpu :=
  match cpu.place with
  | .program => none
  | .swapTp => some { cpu with place := .testTp, tp := cpu.sscratch, sscratch := cpu.tp }
  | .testTp => some { cpu with place := if cpu.tp ≠ 0 then .saveUserSp else .readTp }
  | .readTp => some { cpu with place := .saveKernelSp, tp := cpu.sscratch }
  | .saveKernelSp =>
    some { cpu with
           place := .saveUserSp, kernelSp := Function.update cpu.kernelSp cpu.tp cpu.sp }
  | .saveUserSp =>
    some { cpu with place := .loadKernelSp, userSp := Function.update cpu.userSp cpu.tp cpu.sp }
  | .loadKernelSp => some { cpu with place := .pushFrame, sp := cpu.kernelSp cpu.tp }
  | .pushFrame =>
    some { cpu with
           place := .clearScratch, sp := cpu.sp - frameSize
           frames := Function.update cpu.frames cpu.tp (cpu.filled :: cpu.frames cpu.tp) }
  | .clearScratch => some { cpu with place := .code, sscratch := 0 }
  | .code => none
  | .loadStatus => cpu.frame.map fun f => { cpu with place := .clearSie f.spp f.spv }
  | .clearSie spp spv => some { cpu with place := .testStatus spp spv, sie := false }
  | .testStatus spp spv =>
    some { cpu with place := if spv then .testResched else if spp then .testCount else .testResched }
  | .testResched =>
    some { cpu with
           place := if cpu.needResched cpu.tp then .schedule .workResched else .noWorkPending }
  | .noWorkPending =>
    some { cpu with
           place := .setScratch
           kernelSp := Function.update cpu.kernelSp cpu.tp (cpu.sp + frameSize) }
  | .setScratch => some { cpu with place := .writeSstatus, sscratch := cpu.tp }
  | .testCount =>
    some { cpu with place := if cpu.atomic cpu.tp then .writeSstatus else .needResched }
  | .needResched =>
    some { cpu with
           place := if cpu.needResched cpu.tp then .preemptScheduleIrq else .writeSstatus }
  | .writeSstatus =>
    cpu.frame.map fun f =>
      { cpu with place := .writeSepc, spp := f.spp, sie := f.sie, spie := f.spie }
  | .writeSepc => cpu.frame.map fun f => { cpu with place := .writeHstatus, sepc := f.sepc }
  | .writeHstatus => cpu.frame.map fun f => { cpu with place := .loadTp, spv := f.spv }
  | .loadTp => cpu.frame.map fun f => { cpu with place := .loadSp, tp := f.tp }
  | .loadSp =>
    -- With its stack pointer loaded the frame is restored.
    cpu.frame.map fun f =>
      { cpu with
        place := .sret, sp := f.sp
        frames := Function.update cpu.frames cpu.current (cpu.frames cpu.current).tail }
  | .sret =>
    some { cpu with
           place := cpu.sepc, supervisor := cpu.spp, virt := cpu.spv, sie := cpu.spie
           spie := true, spp := false, spv := false }
  | .preemptScheduleIrq =>
    some { cpu with place := .schedule .preemptScheduleIrq, sie := true }
  | .schedule caller => some { cpu with place := .switchTo caller, sie := false }
  | .switchTo _ => none
  | .scheduleTail caller => some { cpu with place := .scheduleReturn caller, sie := true }
  | .scheduleReturn .kernelCode => some { cpu with place := .code }
  | .scheduleReturn .workResched => cpu.backTo .noWorkPending
  | .scheduleReturn .preemptScheduleIrq =>
    -- `preempt_schedule_irq` disables interrupts before it returns.
    { cpu with sie := false }.backTo .needResched
  | .retFromFork => some { cpu with place := .loadStatus, sie := true }
  | .retFromKernelThread => some { cpu with place := .code, sie := true }
  | .saveSp =>
    some { cpu with
           place := .setScratchVs, kernelSp := Function.update cpu.kernelSp cpu.tp cpu.sp }
  | .setScratchVs => some { cpu with place := .writeSepcVs, sscratch := cpu.tp }
  | .writeSepcVs => some { cpu with place := .sret, sepc := .program }

/-- `cpu_switch_to`, which saves where the current task goes on. -/
def switch (caller : Caller) (task : U64) : Option TrapCpu :=
  if task = cpu.current then some { cpu with place := .scheduleTail caller }
  else
    (cpu.waiting task).map fun (place, sp) =>
      { cpu with
        place := place, sp := sp, tp := task, current := task
        waiting := Function.update
          (Function.update cpu.waiting cpu.current (some (.scheduleTail caller, cpu.sp))) task none }

/-- The frame of a new clone: that of its parent's system call, on the stack of the child. -/
def cloned (top : U64 → Int) (child : U64) (f : TrapFrame) : TrapFrame :=
  { f with base := top child - frameSize }

/-- The frame that `start_user_thread` fills, with `SIE` as `sstatus` has it. -/
def started (top : U64 → Int) (spie : Bool) (sp : Int) : TrapFrame :=
  { base := top cpu.current - frameSize, spp := false, spv := false, sie := cpu.sie, spie := spie
    tp := 0, sp := sp, sepc := .program }

end TrapCpu

/-- What can happen. -/
inductive TrapEvent where
  /-- The next instruction, where there is no choice. -/
  | next
  | interrupt
  /-- An exception of a program or of C code. -/
  | exception
  /-- A program runs on its own. -/
  | run (tp : U64) (sp : Int)
  /-- C code runs on its own. -/
  | work (sp : Int) (needResched atomic : Bool)
  /-- C code sets or clears `SIE`. -/
  | irq (on : Bool)
  /-- C code calls `schedule`. -/
  | schedule
  | switch (task : U64)
  /-- C code returns to `ret_from_exception`. -/
  | leave
  /-- `do_fork` for a kernel thread. -/
  | forkThread (child : U64)
  /-- `do_fork` for the system call `clone`. -/
  | forkClone (child : U64)
  | moveToUserSpace (spie : Bool) (sp : Int)
  /-- `vs_main` sets `SPP` and `SPV` and calls `jump_to_vs_mode`. -/
  | enterGuest

/-- One event, undefined where it cannot happen; `top` is the upper end of each kernel stack. -/
def TrapEvent.step (top : U64 → Int) (event : TrapEvent) (cpu : TrapCpu) : Option TrapCpu :=
  match event with
  | .next => cpu.next
  | .interrupt => if cpu.InKernel → cpu.sie = true then some cpu.trap else none
  | .exception => if cpu.place = .program ∨ cpu.place = .code then some cpu.trap else none
  | .run tp sp => if cpu.place = .program then some { cpu with tp := tp, sp := sp } else none
  | .work sp needResched atomic =>
    -- The stack grows downwards, from the innermost frame on.
    if cpu.place.isCode ∧ ∀ f ∈ cpu.frames cpu.current, sp ≤ f.base then
      some { cpu with
             sp := sp
             needResched := Function.update cpu.needResched cpu.current needResched
             atomic := Function.update cpu.atomic cpu.current atomic }
    else none
  | .irq on => if cpu.place = .code then some { cpu with sie := on } else none
  | .schedule =>
    if cpu.place = .code then some { cpu with place := .schedule .kernelCode } else none
  | .switch task =>
    match cpu.place with
    | .switchTo caller => cpu.switch caller task
    | _ => none
  | .leave => if cpu.place = .code then cpu.backTo .loadStatus else none
  | .forkThread child =>
    if cpu.place = .code ∧ child ≠ 0 ∧ child ≠ cpu.current ∧ cpu.waiting child = none then
      some { cpu with
             frames := Function.update cpu.frames child []
             waiting := Function.update cpu.waiting child
               (some (.retFromKernelThread, top child - frameSize)) }
    else none
  | .forkClone child =>
    match cpu.frames cpu.current with
    | [f] =>
      -- A system call comes from user mode.
      if cpu.place = .code ∧ ¬ f.FromKernel ∧ child ≠ 0 ∧ child ≠ cpu.current ∧
          cpu.waiting child = none then
        some { cpu with
               frames := Function.update cpu.frames child [TrapCpu.cloned top child f]
               waiting := Function.update cpu.waiting child
                 (some (.retFromFork, top child - frameSize)) }
      else none
    | _ => none
  | .moveToUserSpace spie sp =>
    if cpu.place = .code ∧ cpu.frames cpu.current = [] ∧ cpu.sp ≤ top cpu.current - frameSize then
      some { cpu with
             frames := Function.update cpu.frames cpu.current [cpu.started top spie sp] }
    else none
  | .enterGuest =>
    if cpu.place = .code ∧ cpu.frames cpu.current = [] then
      some { cpu with place := .saveSp, spp := true, spv := true }
    else none

/-- The CPU once `trap_init` is done, in `kernel_main` with interrupts off. -/
def TrapCpu.boot (top : U64 → Int) (task : U64) : TrapCpu :=
  { place := .code, supervisor := true, virt := false, sie := false, spp := false, spv := false
    spie := false, sepc := .code, sscratch := 0, tp := task, sp := top task, current := task
    kernelSp := fun _ => 0, userSp := fun _ => 0, needResched := fun _ => false
    atomic := fun _ => false, frames := fun _ => [], waiting := fun _ => none }

end Benos
