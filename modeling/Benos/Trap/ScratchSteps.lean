import Benos.Trap.ScratchProtocol

/-! What each instruction does to the protocol of `sscratch`. -/

namespace Benos

namespace TrapCpu

variable {cpu cpu' : TrapCpu}

/-- A step that leaves the tasks alone only has to say what holds where it arrives. -/
theorem Inv.keep (inv : cpu.Inv) (current : cpu'.current = cpu.current)
    (frames : cpu'.frames = cpu.frames) (waiting : cpu'.waiting = cpu.waiting)
    (here : cpu'.Here) : cpu'.Inv where
  nonzero := by
    rw [current]
    exact inv.nonzero
  chains task := by
    rw [frames]
    exact inv.chains task
  running := by
    rw [waiting, current]
    exact inv.running
  waiting task place sp := by
    rw [waiting, frames]
    exact inv.waiting task place sp
  here := here

/-- A step that changes only the frames of the current task. -/
theorem Inv.reframe (inv : cpu.Inv) {frames : List TrapFrame} (chain : Chain cpu.current frames)
    (current : cpu'.current = cpu.current)
    (changed : cpu'.frames = Function.update cpu.frames cpu.current frames)
    (waiting : cpu'.waiting = cpu.waiting) (here : cpu'.Here) : cpu'.Inv where
  nonzero := by
    rw [current]
    exact inv.nonzero
  chains task := by
    rw [changed]
    by_cases same : task = cpu.current
    · rw [same, Function.update_self]
      exact chain
    · rw [Function.update_of_ne same]
      exact inv.chains task
  running := by
    rw [waiting, current]
    exact inv.running
  waiting task place sp := by
    rw [waiting, changed]
    intro found
    -- A task that is switched out is not the current one.
    have other : task ≠ cpu.current := by
      intro same
      rw [same, inv.running] at found
      cases found
    rw [Function.update_of_ne other]
    exact inv.waiting task place sp found
  here := here

/-! ### The entry of a trap -/

section Entry

/-- `csrrw tp, sscratch, tp` -/
theorem Inv.swapTp (inv : cpu.Inv) (place : cpu.place = .swapTp) (taken : cpu.next = some cpu') :
    cpu'.Inv := by
  obtain ⟨masked, inside, outside⟩ := inv.at place
  simp only [next, place, Option.some.injEq] at taken
  subst taken
  -- The two registers change places, whichever of them is zero.
  refine inv.keep rfl rfl rfl ⟨masked, fun from_ => ?_, fun from_ => ?_⟩
  · obtain ⟨zero, tp, quiet⟩ := inside from_
    exact ⟨zero, tp, quiet⟩
  · obtain ⟨program, scratch, empty⟩ := outside from_
    exact ⟨program, scratch, empty⟩

/-- `bnez tp, _save_user_sp` tells a trap of the kernel from one of a program. -/
theorem Inv.testTp (inv : cpu.Inv) (place : cpu.place = .testTp) (taken : cpu.next = some cpu') :
    cpu'.Inv := by
  obtain ⟨masked, inside, outside⟩ := inv.at place
  simp only [next, place, Option.some.injEq] at taken
  by_cases from_ : cpu.FromKernel
  · obtain ⟨zero, scratch, quiet⟩ := inside from_
    rw [if_neg (not_not.mpr zero)] at taken
    subst taken
    exact inv.keep rfl rfl rfl ⟨masked, from_, scratch, quiet⟩
  · obtain ⟨program, tp, empty⟩ := outside from_
    -- The task of a program is never zero.
    rw [if_pos (inv.tp_ne_zero tp)] at taken
    subst taken
    exact inv.keep rfl rfl rfl
      ⟨masked, tp, fun kernel => absurd kernel from_, fun _ => ⟨program, empty⟩⟩

/-- `csrr tp, sscratch` -/
theorem Inv.readTp (inv : cpu.Inv) (place : cpu.place = .readTp) (taken : cpu.next = some cpu') :
    cpu'.Inv := by
  obtain ⟨masked, from_, scratch, quiet⟩ := inv.at place
  simp only [next, place, Option.some.injEq] at taken
  subst taken
  -- Now both registers are the task.
  exact inv.keep rfl rfl rfl ⟨masked, from_, scratch, scratch, quiet⟩

/-- `sd sp, TASK_TI_KERNEL_SP(tp)` -/
theorem Inv.saveKernelSp (inv : cpu.Inv) (place : cpu.place = .saveKernelSp)
    (taken : cpu.next = some cpu') : cpu'.Inv := by
  obtain ⟨masked, from_, scratch, tp, quiet⟩ := inv.at place
  simp only [next, place, Option.some.injEq] at taken
  subst taken
  -- It is the field of the current task that is written.
  have saved : Function.update cpu.kernelSp cpu.tp cpu.sp cpu.current = cpu.sp := by
    rw [tp, Function.update_self]
  exact inv.keep rfl rfl rfl
    ⟨masked, tp, fun _ => ⟨scratch, saved, quiet⟩, fun not_ => absurd from_ not_⟩

/-- `sd sp, TASK_TI_USER_SP(tp)` -/
theorem Inv.saveUserSp (inv : cpu.Inv) (place : cpu.place = .saveUserSp)
    (taken : cpu.next = some cpu') : cpu'.Inv := by
  obtain ⟨masked, tp, inside, outside⟩ := inv.at place
  simp only [next, place, Option.some.injEq] at taken
  subst taken
  -- It is the field of the current task that is written.
  have saved : Function.update cpu.userSp cpu.tp cpu.sp cpu.current = cpu.sp := by
    rw [tp, Function.update_self]
  refine inv.keep rfl rfl rfl ⟨masked, tp, fun from_ => ?_, outside⟩
  obtain ⟨scratch, kernel, quiet⟩ := inside from_
  refine ⟨scratch, kernel.trans saved.symm, ?_⟩
  show cpu.sepc.Quiet (Function.update cpu.userSp cpu.tp cpu.sp cpu.current) cpu.live
  rw [saved]
  exact quiet

/-- `ld sp, TASK_TI_KERNEL_SP(tp)` -/
theorem Inv.loadKernelSp (inv : cpu.Inv) (place : cpu.place = .loadKernelSp)
    (taken : cpu.next = some cpu') : cpu'.Inv := by
  obtain ⟨masked, tp, inside, outside⟩ := inv.at place
  simp only [next, place, Option.some.injEq] at taken
  subst taken
  refine inv.keep rfl rfl rfl ⟨masked, tp, fun from_ => ?_, outside⟩
  obtain ⟨scratch, kernel, quiet⟩ := inside from_
  -- In the kernel this gives back the stack pointer that was just saved.
  have loaded : cpu.kernelSp cpu.tp = cpu.userSp cpu.current := by
    rw [tp]
    exact kernel
  refine ⟨scratch, loaded, ?_⟩
  show cpu.sepc.Quiet (cpu.kernelSp cpu.tp) cpu.live
  rw [loaded]
  exact quiet

/-- `csrw sscratch, x0` -/
theorem Inv.clearScratch (inv : cpu.Inv) (place : cpu.place = .clearScratch)
    (taken : cpu.next = some cpu') : cpu'.Inv := by
  obtain ⟨masked, tp, at_⟩ := inv.at place
  simp only [next, place, Option.some.injEq] at taken
  subst taken
  -- From here on it is C code, below the new frame.
  have below : Below cpu.sp cpu.live := (inv.chains cpu.current).below at_
  exact inv.keep rfl rfl rfl ⟨masked.1, rfl, tp, below⟩

/-- The frame of a trap goes back to where the trap was taken. -/
theorem chain_filled (inv : cpu.Inv) (place : cpu.place = .pushFrame) :
    Chain cpu.current (cpu.filled :: cpu.live) := by
  obtain ⟨masked, tp, inside, outside⟩ := inv.at place
  have sized : cpu.sp - frameSize ≤ cpu.sp := by
    unfold frameSize
    omega
  refine ⟨inv.chains cpu.current, masked.2, ?_, fun from_ => ?_, fun from_ => ?_⟩
  · -- The frame lies below those that were there.
    intro f member
    exact sized.trans ((inv.protocol.below place).2 f member)
  · obtain ⟨scratch, sp, quiet⟩ := inside from_
    refine ⟨scratch, ?_⟩
    show cpu.sepc.Quiet (cpu.userSp cpu.tp) cpu.live
    rw [tp, ← sp]
    exact quiet
  · obtain ⟨program, empty⟩ := outside from_
    exact ⟨empty, program⟩

/-- `addi sp, sp, -(PT_SIZE)`, and the stores that fill the frame. -/
theorem Inv.pushFrame (inv : cpu.Inv) (place : cpu.place = .pushFrame)
    (taken : cpu.next = some cpu') : cpu'.Inv := by
  have chain := chain_filled inv place
  obtain ⟨masked, tp, -⟩ := inv.at place
  simp only [next, place, tp, Option.some.injEq] at taken
  subst taken
  -- The stack pointer is at the new frame.
  refine inv.reframe chain rfl rfl rfl ⟨masked, rfl, ?_⟩
  show Innermost _ (Function.update cpu.frames cpu.current _ cpu.current)
  rw [Function.update_self]
  exact rfl

end Entry

/-! ### The way back to a frame -/

section Return

/-- The frame at the stack pointer is the innermost one. -/
theorem frame_eq_some {f : TrapFrame} (found : cpu.frame = some f) :
    ∃ rest, cpu.live = f :: rest ∧ f.base = cpu.sp := by
  unfold frame at found
  cases frames : cpu.frames cpu.current with
  | nil =>
    rw [frames] at found
    cases found
  | cons g rest =>
    simp only [frames] at found
    -- A frame anywhere else would not be read.
    by_cases at_ : g.base = cpu.sp
    · rw [if_pos at_] at found
      obtain rfl := Option.some.inj found
      exact ⟨rest, frames, at_⟩
    · rw [if_neg at_] at found
      cases found

/-- A step through the frame at the stack pointer. -/
theorem frame_map {change : TrapFrame → TrapCpu} (taken : cpu.frame.map change = some cpu') :
    ∃ f rest, cpu.live = f :: rest ∧ f.base = cpu.sp ∧ cpu' = change f := by
  obtain ⟨f, found, rfl⟩ := Option.map_eq_some_iff.mp taken
  obtain ⟨rest, frames, at_⟩ := frame_eq_some found
  exact ⟨f, rest, frames, at_, rfl⟩

/-- The loads of `hstatus` and `sstatus` in `ret_from_exception`. -/
theorem Inv.loadStatus (inv : cpu.Inv) (place : cpu.place = .loadStatus)
    (taken : cpu.next = some cpu') : cpu'.Inv := by
  obtain ⟨kernel, zero, tp, -⟩ := inv.at place
  simp only [next, place] at taken
  -- The two bits are those of the frame.
  obtain ⟨f, rest, frames, at_, rfl⟩ := frame_map taken
  exact inv.keep rfl rfl rfl ⟨kernel, zero, tp, .of_cons frames ⟨at_, rfl, rfl⟩⟩

/-- `csrc sstatus, SR_SIE` -/
theorem Inv.clearSie {spp spv : Bool} (inv : cpu.Inv) (place : cpu.place = .clearSie spp spv)
    (taken : cpu.next = some cpu') : cpu'.Inv := by
  obtain ⟨kernel, zero, tp, at_⟩ := inv.at place
  simp only [next, place, Option.some.injEq] at taken
  subst taken
  -- From here on interrupts are off.
  exact inv.keep rfl rfl rfl ⟨⟨⟨kernel, rfl⟩, zero, tp⟩, at_⟩

/-- `bnez s1, ret_to_user` and `bnez s2, ret_to_kernel` go by the frame. -/
theorem Inv.testStatus {spp spv : Bool} (inv : cpu.Inv)
    (place : cpu.place = .testStatus spp spv) (taken : cpu.next = some cpu') : cpu'.Inv := by
  obtain ⟨back, at_⟩ := inv.at place
  simp only [next, place, Option.some.injEq] at taken
  subst taken
  refine inv.keep rfl rfl rfl ?_
  -- The three branches are the values of the two bits.
  cases spv with
  | true =>
    refine ⟨back, at_.imp fun f same => ⟨same.1, fun from_ => ?_⟩⟩
    cases same.2.2.symm.trans from_.2
  | false =>
    cases spp with
    | true => exact ⟨back, at_.imp fun f same => same⟩
    | false =>
      refine ⟨back, at_.imp fun f same => ⟨same.1, fun from_ => ?_⟩⟩
      cases same.2.1.symm.trans from_.1

/-- `bnez s1, work_resched`, not taken. -/
theorem Inv.testResched (inv : cpu.Inv) (place : cpu.place = .testResched)
    (no : cpu.needResched cpu.tp = false) (taken : cpu.next = some cpu') : cpu'.Inv := by
  have here := inv.at place
  simp only [next, place, no, Bool.false_eq_true, if_false, Option.some.injEq] at taken
  subst taken
  exact inv.keep rfl rfl rfl here

/-- `sd s1, TASK_TI_KERNEL_SP(tp)` -/
theorem Inv.noWorkPending (inv : cpu.Inv) (place : cpu.place = .noWorkPending)
    (taken : cpu.next = some cpu') : cpu'.Inv := by
  have here := inv.at place
  simp only [next, place, Option.some.injEq] at taken
  subst taken
  exact inv.keep rfl rfl rfl here

/-- `csrw sscratch, tp` -/
theorem Inv.setScratch (inv : cpu.Inv) (place : cpu.place = .setScratch)
    (taken : cpu.next = some cpu') : cpu'.Inv := by
  obtain ⟨⟨masked, zero, tp⟩, at_⟩ := inv.at place
  simp only [next, place, Option.some.injEq] at taken
  subst taken
  refine inv.keep rfl rfl rfl ⟨masked, at_.imp fun f leaves => ?_⟩
  -- The frame is one to a program, for which the task is left behind.
  exact ⟨leaves.1, fun from_ => absurd from_ leaves.2, fun _ => tp⟩

/-- A way back to the kernel may begin, as nothing is left to be done. -/
theorem Leaves.of_kernel {f : TrapFrame} (back : cpu.Back)
    (leaves : f.base = cpu.sp ∧ f.FromKernel) : cpu.Leaves f :=
  ⟨leaves.1, fun _ => back.2, fun not_ => absurd leaves.2 not_⟩

/-- `bnez s1, restore_all` -/
theorem Inv.testCount (inv : cpu.Inv) (place : cpu.place = .testCount)
    (taken : cpu.next = some cpu') : cpu'.Inv := by
  have here := inv.at place
  simp only [next, place, Option.some.injEq] at taken
  subst taken
  refine inv.keep rfl rfl rfl ?_
  -- With the count held there is nothing to preempt.
  cases cpu.atomic cpu.tp with
  | true => exact ⟨here.1.1, here.2.imp fun f leaves => Leaves.of_kernel here.1 leaves⟩
  | false => exact here

/-- `beqz s1, restore_all` -/
theorem Inv.needResched (inv : cpu.Inv) (place : cpu.place = .needResched)
    (taken : cpu.next = some cpu') : cpu'.Inv := by
  have here := inv.at place
  simp only [next, place, Option.some.injEq] at taken
  subst taken
  refine inv.keep rfl rfl rfl ?_
  -- The loop goes on as long as a reschedule is asked for.
  cases cpu.needResched cpu.tp with
  | true => exact here
  | false => exact ⟨here.1.1, here.2.imp fun f leaves => Leaves.of_kernel here.1 leaves⟩

end Return

/-! ### `kernel_exit` -/

section Exit

/-- A step through the innermost frame, which is as far as the invariant says. -/
theorem frame_leaves {holds : TrapFrame → Prop} {change : TrapFrame → TrapCpu}
    (leaves : Innermost holds cpu.live) (taken : cpu.frame.map change = some cpu') :
    ∃ f rest, cpu.live = f :: rest ∧ holds f ∧ cpu' = change f := by
  obtain ⟨f, rest, frames, -, rfl⟩ := frame_map taken
  exact ⟨f, rest, frames, leaves.head frames, rfl⟩

/-- `csrw sstatus, a0` keeps interrupts off, as the frame has them off. -/
theorem Inv.writeSstatus (inv : cpu.Inv) (place : cpu.place = .writeSstatus)
    (taken : cpu.next = some cpu') : cpu'.Inv := by
  obtain ⟨masked, leaves⟩ := inv.at place
  simp only [next, place] at taken
  obtain ⟨f, rest, frames, leaves, rfl⟩ := frame_leaves leaves taken
  -- All frames have been pushed with interrupts off, or made so.
  obtain ⟨-, off, -⟩ := inv.chain_cons frames
  exact inv.keep rfl rfl rfl ⟨⟨masked.1, off⟩, .of_cons frames ⟨leaves, rfl⟩⟩

/-- `csrw sepc, a2` -/
theorem Inv.writeSepc (inv : cpu.Inv) (place : cpu.place = .writeSepc)
    (taken : cpu.next = some cpu') : cpu'.Inv := by
  obtain ⟨masked, leaves⟩ := inv.at place
  simp only [next, place] at taken
  obtain ⟨f, rest, frames, leaves, rfl⟩ := frame_leaves leaves taken
  exact inv.keep rfl rfl rfl ⟨masked, .of_cons frames ⟨leaves.1, leaves.2, rfl⟩⟩

/-- `csrw CSR_HSTATUS, a3` -/
theorem Inv.writeHstatus (inv : cpu.Inv) (place : cpu.place = .writeHstatus)
    (taken : cpu.next = some cpu') : cpu'.Inv := by
  obtain ⟨masked, leaves⟩ := inv.at place
  simp only [next, place] at taken
  obtain ⟨f, rest, frames, leaves, rfl⟩ := frame_leaves leaves taken
  exact inv.keep rfl rfl rfl ⟨masked, .of_cons frames ⟨leaves.1, leaves.2.1, leaves.2.2, rfl⟩⟩

/-- `ld x4, PT_TP(sp)` gives the kernel its task back. -/
theorem Inv.loadTp (inv : cpu.Inv) (place : cpu.place = .loadTp)
    (taken : cpu.next = some cpu') : cpu'.Inv := by
  obtain ⟨masked, leaves⟩ := inv.at place
  simp only [next, place] at taken
  obtain ⟨f, rest, frames, leaves, rfl⟩ := frame_leaves leaves taken
  -- A frame to the kernel holds the task it was pushed for.
  obtain ⟨-, -, -, inside, -⟩ := inv.chain_cons frames
  obtain ⟨⟨at_, toKernel, toProgram⟩, loaded⟩ := leaves
  have toTask : f.FromKernel → cpu.sscratch = 0 ∧ f.tp = cpu.current :=
    fun from_ => ⟨(toKernel from_).1, (inside from_).1⟩
  exact inv.keep rfl rfl rfl ⟨masked, .of_cons frames ⟨⟨at_, toTask, toProgram⟩, loaded⟩⟩

/-- `ld x2, PT_SP(sp)` leaves the registers as they were when the trap was taken. -/
theorem Inv.loadSp (inv : cpu.Inv) (place : cpu.place = .loadSp)
    (taken : cpu.next = some cpu') : cpu'.Inv := by
  obtain ⟨masked, leaves⟩ := inv.at place
  simp only [next, place] at taken
  obtain ⟨f, rest, frames, leaves, rfl⟩ := frame_leaves leaves taken
  obtain ⟨⟨at_, toKernel, toProgram⟩, spp, sepc, spv⟩ := leaves
  obtain ⟨outer, -, -, inside, outside⟩ := inv.chain_cons frames
  have tail : (cpu.frames cpu.current).tail = rest := by
    rw [show cpu.frames cpu.current = f :: rest from frames, List.tail_cons]
  -- The status registers say what the frame says.
  have same : cpu.FromKernel ↔ f.FromKernel := by
    unfold FromKernel TrapFrame.FromKernel
    rw [spp, spv]
  refine inv.reframe (tail ▸ outer) rfl rfl rfl ⟨masked, fun from_ => ?_, fun from_ => ?_⟩
  · have from_' : f.FromKernel := same.mp from_
    refine ⟨(toKernel from_').1, (toKernel from_').2, ?_⟩
    show cpu.sepc.Quiet f.sp (Function.update cpu.frames cpu.current _ cpu.current)
    rw [Function.update_self, tail, sepc]
    exact (inside from_').2
  · have from_' : ¬ f.FromKernel := fun kernel => from_ (same.mpr kernel)
    refine ⟨sepc.trans (outside from_').2, toProgram from_', ?_⟩
    show Function.update cpu.frames cpu.current _ cpu.current = []
    rw [Function.update_self, tail]
    exact (outside from_').1

/-- `sret` -/
theorem Inv.sret (inv : cpu.Inv) (place : cpu.place = .sret) (taken : cpu.next = some cpu') :
    cpu'.Inv := by
  obtain ⟨masked, inside, outside⟩ := inv.at place
  simp only [next, place, Option.some.injEq] at taken
  subst taken
  refine inv.keep rfl rfl rfl ?_
  -- Where the `sret` leads is what the status registers say.
  by_cases from_ : cpu.FromKernel
  · obtain ⟨zero, tp, quiet⟩ := inside from_
    exact here_of_quiet from_ zero tp quiet
  · obtain ⟨program, scratch, empty⟩ := outside from_
    simp only [Here, program]
    exact ⟨from_, scratch, empty⟩

end Exit

/-! ### The scheduler -/

section Scheduler

/-- `raw_local_irq_enable` at the start of `preempt_schedule_irq`. -/
theorem Inv.preemptScheduleIrq (inv : cpu.Inv) (place : cpu.place = .preemptScheduleIrq)
    (taken : cpu.next = some cpu') : cpu'.Inv := by
  obtain ⟨⟨masked, zero, tp⟩, at_⟩ := inv.at place
  simp only [next, place, Option.some.injEq] at taken
  subst taken
  -- The frame of the interrupt is the innermost one, with the stack pointer at it.
  have below : Below cpu.sp cpu.live :=
    (inv.chains cpu.current).below (at_.imp fun f leaves => leaves.1)
  exact inv.keep rfl rfl rfl
    ⟨masked.1, zero, tp, below, at_.imp fun f leaves => leaves.2⟩

/-- Inside of `__schedule` the same holds all the way. -/
theorem quiet_schedule {caller : Caller} {sp : Int} {frames : List TrapFrame} :
    ((TrapPlace.schedule caller).Quiet sp frames → (TrapPlace.switchTo caller).Quiet sp frames) ∧
    ((TrapPlace.switchTo caller).Quiet sp frames →
      (TrapPlace.scheduleTail caller).Quiet sp frames) ∧
    ((TrapPlace.scheduleTail caller).Quiet sp frames →
      (TrapPlace.scheduleReturn caller).Quiet sp frames) := by
  cases caller with
  | kernelCode | workResched | preemptScheduleIrq => exact ⟨id, id, id⟩

/-- `raw_local_irq_disable` in `__schedule`. -/
theorem Inv.schedule {caller : Caller} (inv : cpu.Inv) (place : cpu.place = .schedule caller)
    (taken : cpu.next = some cpu') : cpu'.Inv := by
  obtain ⟨kernel, zero, tp, quiet⟩ := inv.quiet (by rw [place, TrapPlace.isQuiet])
  rw [place] at quiet
  simp only [next, place, Option.some.injEq] at taken
  subst taken
  exact inv.keep rfl rfl rfl (here_of_quiet kernel zero tp (quiet_schedule.1 quiet))

/-- `raw_local_irq_enable` at the end of `__schedule`. -/
theorem Inv.scheduleTail {caller : Caller} (inv : cpu.Inv)
    (place : cpu.place = .scheduleTail caller) (taken : cpu.next = some cpu') : cpu'.Inv := by
  obtain ⟨kernel, zero, tp, quiet⟩ := inv.quiet (by rw [place, TrapPlace.isQuiet])
  rw [place] at quiet
  simp only [next, place, Option.some.injEq] at taken
  subst taken
  exact inv.keep rfl rfl rfl (here_of_quiet kernel zero tp (quiet_schedule.2.2 quiet))

/-- The return from C code to the innermost frame. -/
theorem backTo_eq_some {place : TrapPlace} (taken : cpu.backTo place = some cpu') :
    ∃ f rest, cpu.live = f :: rest ∧ cpu' = { cpu with place := place, sp := f.base } := by
  unfold backTo at taken
  cases frames : cpu.frames cpu.current with
  | nil =>
    rw [frames] at taken
    cases taken
  | cons f rest =>
    simp only [frames, Option.some.injEq] at taken
    exact ⟨f, rest, frames, taken.symm⟩

/-- The way back out of `__schedule`. -/
theorem Inv.scheduleReturn {caller : Caller} (inv : cpu.Inv)
    (place : cpu.place = .scheduleReturn caller) (taken : cpu.next = some cpu') : cpu'.Inv := by
  obtain ⟨kernel, zero, tp, quiet⟩ := inv.quiet (by rw [place, TrapPlace.isQuiet])
  rw [place] at quiet
  cases caller with
  | kernelCode =>
    simp only [next, place, Option.some.injEq] at taken
    subst taken
    exact inv.keep rfl rfl rfl ⟨kernel, zero, tp, quiet⟩
  | workResched => exact quiet.elim
  | preemptScheduleIrq =>
    -- Interrupts are off again, and the stack pointer is back at the frame.
    simp only [next, place] at taken
    obtain ⟨f, rest, frames, rfl⟩ := backTo_eq_some taken
    have frames' : cpu.live = f :: rest := frames
    obtain ⟨-, from_⟩ := quiet
    rw [frames'] at from_
    refine inv.keep rfl rfl rfl ⟨⟨⟨kernel, rfl⟩, zero, tp⟩, ?_⟩
    show Innermost _ cpu.live
    rw [frames']
    exact ⟨rfl, from_⟩

/-- `schedule_tail` of a new clone. -/
theorem Inv.retFromFork (inv : cpu.Inv) (place : cpu.place = .retFromFork)
    (taken : cpu.next = some cpu') : cpu'.Inv := by
  obtain ⟨kernel, zero, tp, quiet⟩ := inv.quiet (by rw [place, TrapPlace.isQuiet])
  rw [place] at quiet
  simp only [next, place, Option.some.injEq] at taken
  subst taken
  exact inv.keep rfl rfl rfl ⟨kernel, zero, tp, quiet⟩

/-- `schedule_tail` of a new kernel thread. -/
theorem Inv.retFromKernelThread (inv : cpu.Inv) (place : cpu.place = .retFromKernelThread)
    (taken : cpu.next = some cpu') : cpu'.Inv := by
  obtain ⟨kernel, zero, tp, quiet⟩ := inv.quiet (by rw [place, TrapPlace.isQuiet])
  rw [place] at quiet
  simp only [next, place, Option.some.injEq] at taken
  subst taken
  exact inv.keep rfl rfl rfl ⟨kernel, zero, tp, quiet⟩

/-- `cpu_switch_to`: the task that is switched out waits at a quiet place. -/
theorem Inv.switch {caller : Caller} {task : U64} (inv : cpu.Inv)
    (place : cpu.place = .switchTo caller) (taken : cpu.switch caller task = some cpu') :
    cpu'.Inv := by
  obtain ⟨kernel, zero, tp, quiet⟩ := inv.quiet (by rw [place, TrapPlace.isQuiet])
  rw [place] at quiet
  have tail : (TrapPlace.scheduleTail caller).Quiet cpu.sp cpu.live := quiet_schedule.2.1 quiet
  unfold TrapCpu.switch at taken
  by_cases same : task = cpu.current
  · -- The scheduler picks the task it is called by.
    rw [if_pos same] at taken
    obtain rfl := Option.some.inj taken
    exact inv.keep rfl rfl rfl (here_of_quiet kernel zero tp tail)
  · rw [if_neg same] at taken
    obtain ⟨⟨there, sp⟩, found, rfl⟩ := Option.map_eq_some_iff.mp taken
    obtain ⟨nonzero, quiet'⟩ := inv.waiting task there sp found
    refine ⟨nonzero, inv.chains, Function.update_self _ _ _, ?_,
      here_of_quiet kernel zero rfl quiet'⟩
    intro other there' sp' found'
    simp only at found'
    -- The new task no longer waits, the old one does, and the others are as they were.
    by_cases new : other = task
    · rw [new, Function.update_self] at found'
      cases found'
    · rw [Function.update_of_ne new] at found'
      by_cases old : other = cpu.current
      · rw [old, Function.update_self] at found'
        cases found'
        rw [old]
        exact ⟨inv.nonzero, tail⟩
      · rw [Function.update_of_ne old] at found'
        exact inv.waiting other there' sp' found'

end Scheduler

/-! ### Guests -/

section Guest

/-- `sd sp, TASK_TI_KERNEL_SP(tp)` in `jump_to_vs_mode`. -/
theorem Inv.saveSp (inv : cpu.Inv) (place : cpu.place = .saveSp) (taken : cpu.next = some cpu') :
    cpu'.Inv := by
  have here := inv.at place
  simp only [next, place, Option.some.injEq] at taken
  subst taken
  exact inv.keep rfl rfl rfl here

/-- `csrw sscratch, tp` in `jump_to_vs_mode`. -/
theorem Inv.setScratchVs (inv : cpu.Inv) (place : cpu.place = .setScratchVs)
    (taken : cpu.next = some cpu') : cpu'.Inv := by
  obtain ⟨⟨masked, zero, tp⟩, guest, empty⟩ := inv.at place
  simp only [next, place, Option.some.injEq] at taken
  subst taken
  -- The protocol is kept only because interrupts are off.
  exact inv.keep rfl rfl rfl ⟨masked, tp, guest, empty⟩

/-- `csrw sepc, t0` -/
theorem Inv.writeSepcVs (inv : cpu.Inv) (place : cpu.place = .writeSepcVs)
    (taken : cpu.next = some cpu') : cpu'.Inv := by
  obtain ⟨masked, scratch, guest, empty⟩ := inv.at place
  simp only [next, place, Option.some.injEq] at taken
  subst taken
  -- `SPV` is set, so the `sret` leads to a program.
  exact inv.keep rfl rfl rfl
    ⟨masked, fun kernel => absurd kernel guest, fun _ => ⟨rfl, scratch, empty⟩⟩

end Guest

end TrapCpu

end Benos
