import Benos.Sched.ContextSwitch
import Benos.Trap.Nested
import Benos.Trap.Syscall

/-! The life of a user task: however it goes on, its next trap frame is on top of its stack. -/

namespace Benos

open Relation (ReflTransGen)

/-- Code of the kernel running for a task, with traps nested in it to some depth. -/
def KernelRun (text : TrapText) (live : Live) (h h' : Hart) : Prop :=
  ∃ depth, ReflTransGen (HandlerStep (NestedTrap text depth) live) h h'

/-- A task in kernel code of its own. -/
structure InTask (task : U64) (h : Hart) : Prop where
  kernel : h.InKernel
  sscratch : h.csr .sscratch = 0
  tp : h.get .tp = task

/-- A user task in user mode. -/
structure InUser (task : U64) (h : Hart) : Prop where
  user : h.supervisor = false
  host : h.virt = false
  sscratch : h.csr .sscratch = task
  kernelSp : h.mem (task + taskTiKernelSp) = task + threadSize

/-- The two words of a frame that say which mode it goes back to. -/
def ModeWords (frame : U64) : Live := fun addr =>
  addr = frame + ptSstatus ∨ addr = frame + ptHstatus

/-- A frame that goes back to user mode. -/
def FrameToUser (mem : Memory) (frame : U64) : Prop :=
  (mem (frame + ptSstatus)).getLsbD Hart.sppBit = false ∧
    (mem (frame + ptHstatus)).getLsbD Hart.spvBit = false

/-- From `ret_from_exception` to `sret`, through a `schedule` that keeps to its convention. -/
def Exits (left h' : Hart) : Prop :=
  ∃ schedule preemptScheduleIrq fuel ready,
    (∀ h, ∃ h', schedule h = some h' ∧ Reschedules (OnFrame (left.get .sp)) h h') ∧
    retFromException schedule preemptScheduleIrq fuel left = some ready ∧ h' = ready.sret

/-- The states of a user task in user mode, from its first one on. -/
inductive UserLife (text : TrapText) (task : U64) : Hart → Prop
  /-- A kernel thread calls `move_to_user_space` and returns to `ret_from_exception`. -/
  | moved {first before left h : Hart} {k k' : Kernel} {pc : U64} (starts : InTask task first)
    (sp : first.get .sp = taskPtRegs task) (thread : KernelRun text (fun _ => False) first before)
    (moves : (k.on before).moveToUserSpace (before.csr .sstatus) pc = (true, k'))
    (after : KernelRun text (ModeWords (taskPtRegs task)) { before with mem := k'.mem } left)
    (returned : left.get .sp = first.get .sp) (exits : Exits left h) : UserLife text task h
  /-- A clone runs for the first time, on the frame copied for it. -/
  | cloned {first left h : Hart} (starts : InTask task first)
    (sp : first.get .sp = taskPtRegs task) (frame : FrameToUser first.mem (taskPtRegs task))
    (run : KernelRun text (ModeWords (taskPtRegs task)) first left)
    (returned : left.get .sp = first.get .sp) (exits : Exits left h) : UserLife text task h
  /-- Its own code, which has no access to the control registers and leaves the task alone. -/
  | runs {h h' : Hart} (life : UserLife text task h) (user : h'.supervisor = false)
    (host : h'.virt = false) (sscratch : h'.csr .sscratch = h.csr .sscratch)
    (kernelSp : h'.mem (task + taskTiKernelSp) = h.mem (task + taskTiKernelSp)) :
    UserLife text task h'
  /-- A trap, whose handler may change the frame but not the mode it goes back to. -/
  | traps {h entered left h' : Hart} {cause tval : U64} (life : UserLife text task h)
    (entry : doExceptionVector text (h.trap cause tval text.doExceptionVector) = some entered)
    (handler : KernelRun text (ModeWords (entered.get .sp)) entered left)
    (returned : left.get .sp = entered.get .sp) (exits : Exits left h') : UserLife text task h'

/-- A stack page that does not end at the last address. -/
structure StackPage (task : U64) : Prop where
  nonzero : task ≠ 0
  aligned : Aligned task
  ends : task.toNat + 4096 < 2 ^ 64

namespace StackPage

variable {task : U64}

/-- The whole stack has room for a frame. -/
theorem room (page : StackPage task) : Room task (task + threadSize) := by
  have size : threadSize.toNat = 4096 := rfl
  have frame : ptSize.toNat = 296 := rfl
  have fields : taskTiSize = 136 := rfl
  have ends := page.ends
  -- The stack grows down from the end of the page, and the task lies at its start.
  have top : (task + threadSize).toNat = task.toNat + 4096 := by
    rw [BitVec.toNat_add, size]
    omega
  have aligned := page.aligned
  refine ⟨aligned, ?_, ?_⟩
  · unfold Aligned at *
    rw [top]
    omega
  · rw [top]
    omega

/-- The frame on top of the stack, and the top again above it. -/
theorem top (task : U64) : taskPtRegs task + ptSize = task + threadSize := by
  rw [taskPtRegs]
  bv_omega

/-- The frame on top of the stack holds no field of the task. -/
theorem field_ne (page : StackPage task) {field addr : U64} (inside : OnFrame (taskPtRegs task) addr)
    (within : field.toNat < taskTiSize) : addr ≠ task + field :=
  page.room.field_ne inside within

end StackPage

variable {text : TrapText} {task : U64}

/-- Code that keeps more is code that keeps less. -/
theorem KernelRun.mono {live live' : Live} {h h' : Hart} (ran : KernelRun text live h h')
    (less : ∀ addr, live' addr → live addr) : KernelRun text live' h h' := by
  obtain ⟨depth, ran⟩ := ran
  exact ⟨depth, ran.lift id fun _ _ took =>
    HandlerStep.mono less (NestedTrap.mono (Nat.le_refl _) less) took⟩

/-- Two pieces of code run one after the other. -/
theorem KernelRun.trans {live : Live} {h h' h'' : Hart} (first : KernelRun text live h h')
    (second : KernelRun text live h' h'') : KernelRun text live h h'' := by
  obtain ⟨depth, first⟩ := first
  obtain ⟨depth', second⟩ := second
  -- The deeper of the two depths is enough for both.
  refine ⟨max depth depth', ReflTransGen.trans (first.lift id fun _ _ took => ?_)
    (second.lift id fun _ _ took => ?_)⟩
  · exact HandlerStep.mono (fun _ => id) (NestedTrap.mono (Nat.le_max_left _ _) fun _ => id) took
  · exact HandlerStep.mono (fun _ => id) (NestedTrap.mono (Nat.le_max_right _ _) fun _ => id) took

/-- One step of its own. -/
theorem KernelRun.own {live : Live} {h h' : Hart} (own : OwnStep live h h') :
    KernelRun text live h h' := ⟨0, ReflTransGen.single (Or.inl own)⟩

/-- Kernel code stays in the kernel, with the task it runs for. -/
theorem KernelRun.handling {live : Live} {h h' : Hart} (ran : KernelRun text live h h')
    (start : InTask task h) : Handling task live h h' := by
  obtain ⟨depth, ran⟩ := ran
  have respects : Respects task h :=
    ⟨fun user => absurd start.kernel user, fun _ => ⟨start.sscratch, start.tp⟩⟩
  have begin_ : Handling task live h h := ⟨start.kernel, respects, fun _ _ => rfl⟩
  exact begin_.run (NestedTrap.givesBack text task depth live) ran

theorem Handling.inTask {live : Live} {h h' : Hart} (handling : Handling task live h h') :
    InTask task h' :=
  ⟨handling.kernel, (handling.respects.inside handling.kernel).1,
    (handling.respects.inside handling.kernel).2⟩

theorem Called.inTask {h entered : Hart} {cause tval : U64}
    (called : Called text task h cause tval entered) : InTask task entered :=
  ⟨called.kernel, called.sscratch, called.tp⟩

/-- A frame keeps its mode with its two mode words. -/
theorem FrameToUser.congr {mem mem' : Memory} {frame : U64} (user : FrameToUser mem frame)
    (same : ∀ addr, ModeWords frame addr → mem' addr = mem addr) : FrameToUser mem' frame := by
  unfold FrameToUser
  rw [same _ (Or.inl rfl), same _ (Or.inr rfl)]
  exact user

/-- A frame that goes to user mode was not taken in the kernel. -/
theorem FrameToUser.notKernel {mem : Memory} {frame : U64} (user : FrameToUser mem frame) :
    ¬ FrameInKernel mem frame := by
  rintro ⟨supervisor, _⟩
  rw [user.1] at supervisor
  exact absurd supervisor (by decide)

/-- The frame `start_user_thread` makes goes to user mode. -/
theorem startUserThread_toUser (mem : Memory) (regs pc sp sstatus : U64) :
    FrameToUser (startUserThread mem regs pc sp sstatus) regs := by
  constructor
  · have mask : srSpp = BitVec.twoPow 64 Hart.sppBit := by decide
    rw [startUserThread, Function.update_self, mask, BitVec.getLsbD_and, BitVec.getLsbD_not,
      BitVec.getLsbD_twoPow]
    simp [Hart.sppBit]
  · -- `hstatus` keeps the zero of the `memset`.
    have inside : (regs + ptHstatus - regs).toNat < ptSize.toNat := onFrame_add (by decide)
    rw [startUserThread, Function.update_of_ne (slot_ne (by decide)),
      Function.update_of_ne (slot_ne (by decide)), Function.update_of_ne (slot_ne (by decide)),
      Memory.clear, if_pos inside]
    rfl

/-- A successful `move_to_user_space` leaves such a frame on top of the stack. -/
theorem moveToUserSpace_toUser {k k' : Kernel} {sstatus pc : U64}
    (moves : k.moveToUserSpace sstatus pc = (true, k')) :
    FrameToUser k'.mem (taskPtRegs k.current) := by
  have frame := startUserThread_toUser (k.mem.clear k.pages.getFreePage.1 pageSize.toNat)
    (taskPtRegs k.current) pc (k.pages.getFreePage.1 + pageSize) sstatus
  -- Without a page for the stack the call fails.
  by_cases failed : k.pages.getFreePage.1 = 0
  · simp only [Kernel.moveToUserSpace, failed, if_true, Prod.mk.injEq, Bool.false_eq_true,
      false_and] at moves
  · simp only [Kernel.moveToUserSpace, failed, if_false, Prod.mk.injEq, true_and] at moves
    rw [← moves]
    exact frame

/-- What an exit to user mode leaves behind. -/
theorem InTask.exits {left : Hart} (page : StackPage task) (inTask : InTask task left)
    (sp : left.get .sp = taskPtRegs task) (user : FrameToUser left.mem (taskPtRegs task))
    {schedule : Hart → Option Hart}
    (keeps : ∀ h, ∃ h', schedule h = some h' ∧ Reschedules (OnFrame (left.get .sp)) h h')
    (preemptScheduleIrq : Hart → Option Hart) (fuel : Nat) :
    ∃ mid ready, retFromException schedule preemptScheduleIrq fuel left = some ready ∧
      Restored mid ready ∧ mid.get .sp = taskPtRegs task ∧
      (∀ addr, OnFrame (taskPtRegs task) addr → mid.mem addr = left.mem addr) ∧
      InUser task ready.sret := by
  have frame : Aligned (taskPtRegs task) := page.room.aligned
  obtain ⟨mid, ready, returned, goes, restored⟩ := retFromException_toUser preemptScheduleIrq fuel
    (inTask.tp.symm ▸ page.aligned) (sp.symm ▸ frame) (sp.symm ▸ user.notKernel) keeps
  have midSp : mid.get .sp = taskPtRegs task := goes.sp.trans sp
  -- What is written on the way back is a field of the task, and not on the frame.
  have kept : ∀ addr, OnFrame (taskPtRegs task) addr → mid.mem addr = left.mem addr := by
    intro addr on
    refine goes.mem addr (sp.symm ▸ on) ?_
    rw [inTask.tp]
    exact page.field_ne on (by decide)
  -- `sret` takes mode and virtualisation from the frame, and the rest from the task.
  refine ⟨mid, ready, returned, restored, midSp, kept, ?_, ?_, ?_, ?_⟩
  · rw [Hart.supervisor_sret, restored.sstatus, midSp, kept _ (onFrame_add (by decide))]
    exact user.1
  · rw [Hart.virt_sret, restored.hstatus, midSp, kept _ (onFrame_add (by decide))]
    exact user.2
  · rw [Hart.sscratch_sret, restored.sscratch, goes.sscratch, inTask.tp]
  · have field := goes.kernelSp
    rw [inTask.tp, sp, StackPage.top] at field
    rw [Hart.mem_sret, restored.mem, field]

theorem InTask.inUser {left h : Hart} (page : StackPage task) (inTask : InTask task left)
    (sp : left.get .sp = taskPtRegs task) (user : FrameToUser left.mem (taskPtRegs task))
    (exits : Exits left h) : InUser task h := by
  obtain ⟨schedule, preempt, fuel, ready, keeps, returned, rfl⟩ := exits
  obtain ⟨_, ready', returned', _, _, _, inUser⟩ :=
    inTask.exits page sp user keeps preempt fuel
  -- The way back is a function, so it is the one of the lemma.
  rw [returned] at returned'
  cases returned'
  exact inUser

/-- By the convention a trap from user mode is taken on top of the stack. -/
theorem InUser.called {h : Hart} (text : TrapText) (page : StackPage task) (inUser : InUser task h)
    (cause tval : U64) :
    ∃ entered, doExceptionVector text (h.trap cause tval text.doExceptionVector) = some entered ∧
      Called text task h cause tval entered ∧ entered.get .sp = taskPtRegs task ∧
      kernelStack task h - ptSize = taskPtRegs task := by
  -- The trap comes from user mode, so the kernel stack starts at its top.
  have outside : ¬ h.InKernel := by
    rintro ⟨supervisor, _⟩
    rw [inUser.user] at supervisor
    exact absurd supervisor (by decide)
  have respects : Respects task h :=
    ⟨fun _ => ⟨inUser.sscratch, page.nonzero⟩, fun kernel => absurd kernel outside⟩
  have stack : kernelStack task h = task + threadSize := (if_neg outside).trans inUser.kernelSp
  obtain ⟨entered, entry, called⟩ :=
    doExceptionVector_called text respects (stack.symm ▸ page.room) cause tval
  have frame : kernelStack task h - ptSize = taskPtRegs task := by rw [stack, taskPtRegs]
  exact ⟨entered, entry, called, called.sp.trans frame, frame⟩

/-- A frame taken in user mode goes back to user mode. -/
theorem Captured.toUser {mem : Memory} {frame : U64} {h : Hart} {cause tval stvec : U64}
    (captured : Captured mem frame (h.trap cause tval stvec)) (user : h.supervisor = false)
    (host : h.virt = false) : FrameToUser mem frame := by
  unfold FrameToUser
  rw [captured.sstatus, captured.hstatus, Hart.spp_trap, Hart.spv_trap]
  exact ⟨user, host⟩

/-- Whatever a user task and the traps on it do, the convention holds in user mode. -/
theorem UserLife.inUser {h : Hart} (page : StackPage task) (life : UserLife text task h) :
    InUser task h := by
  -- Each way to user mode goes through a frame that was made for it.
  induction life with
  | @moved first before left h k k' pc starts sp thread moves after returned exits =>
    have inTask := (thread.handling starts).inTask
    have handling := after.handling ⟨inTask.kernel, inTask.sscratch, inTask.tp⟩
    have made := moveToUserSpace_toUser moves
    have current : (k.on before).current = task := inTask.tp
    rw [current] at made
    have user : FrameToUser left.mem (taskPtRegs task) := made.congr handling.mem
    exact handling.inTask.inUser page (returned.trans sp) user exits
  -- A child returns by the frame that was copied for it.
  | cloned starts sp frame run returned exits =>
    have handling := run.handling starts
    exact handling.inTask.inUser page (returned.trans sp) (frame.congr handling.mem) exits
  -- A user program can write neither `sscratch` nor the memory of the kernel.
  | runs _ user host sscratch kernelSp ih =>
    exact ⟨user, host, sscratch.trans ih.sscratch, kernelSp.trans ih.kernelSp⟩
  -- The handler returns by the frame that its trap has filled.
  | traps _ entry handler returned exits ih =>
    obtain ⟨entered, entry', called, sp, frame⟩ := ih.called text page _ _
    rw [entry] at entry'
    cases entry'
    have handling := handler.handling called.inTask
    have user : FrameToUser _ (taskPtRegs task) :=
      (frame ▸ called.captured).toUser ih.user ih.host
    exact handling.inTask.inUser page (returned.trans sp)
      (user.congr (sp ▸ handling.mem)) exits

end Benos
