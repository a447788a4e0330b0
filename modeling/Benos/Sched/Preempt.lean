import Benos.Sched.ProcessTable

/-!
The kernel code around `schedule`, one access to shared data after the other.

A trap is taken to save the interrupted code and to give it back when its handler returns.
-/

namespace Benos

/-- Who calls `__schedule`. -/
inductive Caller where
  /-- `schedule`, called by kernel code. -/
  | kernelCode
  /-- `schedule`, called by `work_resched`. -/
  | workResched
  | preemptScheduleIrq
  deriving DecidableEq

/-- Where a piece of kernel code is. -/
inductive Place where
  /-- A new clone before `schedule_tail`. -/
  | retFromFork
  /-- A new kernel thread before `schedule_tail`. -/
  | retFromKernelThread
  /-- Code outside of what follows: of a thread, a system call or an interrupt handler. -/
  | kernel
  | retFromException
  | retToUser
  | noWorkPending
  | retToKernel
  | needResched
  | restoreAll
  /-- The test at the start of `preempt_schedule_irq`. -/
  | checkCount
  /-- `preempt_disable`, before and after it has loaded the count. -/
  | preemptDisable (caller : Caller)
  | preemptDisableStore (caller : Caller) (loaded : BitVec 32)
  /-- `raw_local_irq_enable` in `preempt_schedule_irq`. -/
  | irqEnable
  /-- `__schedule`, from its test of the count. -/
  | scheduleDebug (caller : Caller)
  | irqDisable (caller : Caller)
  | pickNextTask (caller : Caller)
  /-- Switched out in `cpu_switch_to`, or just switched back to. -/
  | switchTo (caller : Caller)
  /-- `raw_local_irq_enable` at the end of `__schedule`, on either branch. -/
  | scheduleTail (caller : Caller)
  /-- `raw_local_irq_disable` in `preempt_schedule_irq`. -/
  | irqDisableAgain
  /-- `preempt_enable`, before and after it has loaded the count. -/
  | preemptEnable (caller : Caller)
  | preemptEnableStore (caller : Caller) (loaded : BitVec 32)
  deriving DecidableEq

/-- A piece of kernel code that has begun and not ended, with the frame it returns to. -/
structure Activation where
  place : Place
  /-- Whether the frame goes back to user or guest mode. -/
  toUser : Bool
  /-- `SPIE` in the frame. -/
  spie : Bool
  deriving DecidableEq

/-- A CPU with its tasks, each with its kernel code from the innermost piece outward. -/
structure Cpu where
  roster : Roster
  /-- `SIE`. -/
  sie : Bool
  /-- No code is the state of user mode. -/
  code : U64 → List Activation
  /-- Whether `schedule_debug` has reported scheduling while atomic. -/
  whileAtomic : Bool
  /-- Whether `preempt_schedule_irq` has reported an incorrect count. -/
  incorrectCount : Bool

/-- What kernel code outside of `schedule` does. -/
inductive KernelAct where
  /-- An exception in the kernel itself. -/
  | exception
  | tick
  | fork (cloneFlags fn arg : U64)
  /-- Setting `SIE`. -/
  | irq (on : Bool)
  /-- A call of `schedule`. -/
  | schedule
  /-- The return to `ret_from_exception`. -/
  | leave
  /-- `move_to_user_space`, with `SPIE` of the frame it makes. -/
  | moveToUserSpace (spie : Bool)
  /-- `jump_to_vs_mode`, with `SPIE` as it is. -/
  | enterGuest (spie : Bool)

/-- What happens next. -/
inductive CpuEvent where
  | interrupt
  /-- An exception of user or guest code. -/
  | userTrap
  /-- The next access of code that has no choice. -/
  | instr
  | act (act : KernelAct)

namespace Cpu

variable (cpu : Cpu)

def current : U64 := cpu.roster.kernel.current

/-- `preempt_count()`. -/
def count : BitVec 32 := cpu.roster.kernel.preemptCount cpu.current

/-- Replacing the code of the current task. -/
def run (stack : List Activation) : Cpu :=
  { cpu with code := Function.update cpu.code cpu.current stack }

/-- Replacing the count of the current task. -/
def setCount (value : BitVec 32) : Cpu :=
  let kernel := { cpu.roster.kernel with
    preemptCount := Function.update cpu.roster.kernel.preemptCount cpu.current value }
  { cpu with roster := { cpu.roster with kernel } }

/-- The entry of a trap, down to the call of its handler. -/
def trap (toUser : Bool) : Cpu :=
  { cpu.run ({ place := .kernel, toUser, spie := cpu.sie } :: cpu.code cpu.current) with
    sie := false }

/-- The next access of the innermost code `a` of the current task. -/
def instr (image : Image) (fuel : Nat) (a : Activation) (rest : List Activation) : Option Cpu :=
  let goTo (place : Place) : Cpu := cpu.run ({ a with place } :: rest)
  match a.place with
  | .retFromFork => some { goTo .retFromException with sie := true }
  | .retFromKernelThread => some { goTo .kernel with sie := true }
  | .kernel => none
  | .retFromException =>
    some { goTo (if a.toUser then .retToUser else .retToKernel) with sie := false }
  | .retToUser =>
    some (goTo (if cpu.roster.kernel.needResched cpu.current &&& 1 ≠ 0 then
      .preemptDisable .workResched else .noWorkPending))
  | .noWorkPending => some (goTo .restoreAll)
  | .retToKernel => some (goTo (if cpu.count ≠ 0 then .restoreAll else .needResched))
  | .needResched =>
    some (goTo (if cpu.roster.kernel.needResched cpu.current &&& 1 = 0 then .restoreAll
      else .checkCount))
  | .restoreAll =>
    -- The frame of a thread that was not moved to user space leads nowhere.
    if rest = [] ∧ a.toUser = false then none else some { cpu.run rest with sie := a.spie }
  | .checkCount =>
    some { goTo (.preemptDisable .preemptScheduleIrq) with
      incorrectCount := cpu.incorrectCount || cpu.count != 0 }
  | .preemptDisable caller => some (goTo (.preemptDisableStore caller cpu.count))
  | .preemptDisableStore caller loaded =>
    some ((goTo (if caller = .preemptScheduleIrq then .irqEnable
      else .scheduleDebug caller)).setCount (loaded + 1))
  | .irqEnable => some { goTo (.scheduleDebug .preemptScheduleIrq) with sie := true }
  | .scheduleDebug caller =>
    some { goTo (.irqDisable caller) with whileAtomic := cpu.whileAtomic || cpu.count != 1 }
  | .irqDisable caller => some { goTo (.pickNextTask caller) with sie := false }
  | .pickNextTask caller =>
    -- Interrupts are off up to `schedule_tail`.
    match Roster.step image fuel .schedule cpu.roster with
    | none => none
    | some roster =>
      let place := if roster.kernel.current = cpu.current then .scheduleTail caller
        else .switchTo caller
      some { goTo place with roster }
  | .switchTo caller =>
    let roster := { cpu.roster with kernel := cpu.roster.kernel.scheduleFinish }
    some { goTo (.scheduleTail caller) with roster }
  | .scheduleTail caller =>
    some { goTo (if caller = .preemptScheduleIrq then .irqDisableAgain
      else .preemptEnable caller) with sie := true }
  | .irqDisableAgain => some { goTo (.preemptEnable .preemptScheduleIrq) with sie := false }
  | .preemptEnable caller => some (goTo (.preemptEnableStore caller cpu.count))
  | .preemptEnableStore caller loaded =>
    some ((goTo (match caller with
      | .kernelCode => .kernel
      | .workResched => .noWorkPending
      | .preemptScheduleIrq => .needResched)).setCount (loaded - 1))

/-- `do_fork`, which is called with interrupts off, whether from `kernel_main` or `sys_clone`. -/
def fork (image : Image) (a : Activation) (cloneFlags fn arg : U64) : Option Cpu :=
  if cpu.sie then none
  else
    match cpu.roster.kernel.doFork image cloneFlags fn arg with
    | (none, kernel) => some { cpu with roster := { cpu.roster with kernel } }
    | (some pid, kernel) =>
      let child := kernel.gTask pid
      let roster := { kernel, forked := cpu.roster.forked ++ [child]
                      queued := child :: cpu.roster.queued }
      -- A clone gets the frame of its parent, a kernel thread one that leads nowhere yet.
      let start := if cloneFlags &&& pfKthread = 0 then { a with place := .retFromFork }
        else { place := .retFromKernelThread, toUser := false, spie := true }
      some { cpu with roster, code := Function.update cpu.code child [start] }

/-- What kernel code `a` of the current task may do outside of `schedule`. -/
def act (image : Image) (fuel : Nat) (a : Activation) (rest : List Activation) :
    KernelAct → Option Cpu
  | .exception => some (cpu.trap false)
  | .tick => (Roster.step image fuel .tick cpu.roster).map fun roster => { cpu with roster }
  | .fork cloneFlags fn arg => cpu.fork image a cloneFlags fn arg
  | .irq on => some { cpu with sie := on }
  -- Interrupt handlers do not call `schedule`, and only the outermost frame is on top of the stack.
  | .schedule =>
    if rest = [] then some (cpu.run [{ a with place := .preemptDisable .kernelCode }]) else none
  | .leave => some (cpu.run ({ a with place := .retFromException } :: rest))
  | .moveToUserSpace spie =>
    if rest = [] then some (cpu.run [{ a with toUser := true, spie }]) else none
  | .enterGuest spie => if rest = [] then some { cpu.run [] with sie := spie } else none

/-- One event, undefined where it cannot happen. -/
def step (image : Image) (fuel : Nat) (event : CpuEvent) (cpu : Cpu) : Option Cpu :=
  match cpu.code cpu.current with
  | [] =>
    -- In user and guest mode the supervisor's interrupts are always on.
    match event with
    | .interrupt => some (cpu.trap true)
    | .userTrap => some (cpu.trap true)
    | _ => none
  | a :: rest =>
    match event with
    | .interrupt => if cpu.sie then some (cpu.trap false) else none
    | .userTrap => none
    | .instr => cpu.instr image fuel a rest
    | .act act => if a.place = .kernel then cpu.act image fuel a rest act else none

/-- The CPU in `kernel_main` once `sched_init` is done. -/
def boot (image : Image) (k : Kernel) : Cpu :=
  { roster := Roster.boot k
    sie := false
    code := fun t =>
      if t = image.initTask then [{ place := .kernel, toUser := false, spie := false }] else []
    whileAtomic := false
    incorrectCount := false }

end Cpu

end Benos
