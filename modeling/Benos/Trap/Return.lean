import Benos.Trap.Frame

/-! The way back from a trap when nothing asks for a reschedule. -/

namespace Benos

/-- Whether the hart runs in HS mode, as the kernel does. -/
def Hart.InKernel (h : Hart) : Prop := h.supervisor = true ∧ h.virt = false

instance (h : Hart) : Decidable h.InKernel := inferInstanceAs (Decidable (_ ∧ _))

/-- `need_resched` of a task is clear. -/
def ReschedClear (mem : Memory) (task : U64) : Prop :=
  mem.word (task + taskTiNeedResched) &&& tifNeedResched = 0

instance (mem : Memory) (task : U64) : Decidable (ReschedClear mem task) :=
  inferInstanceAs (Decidable (_ = _))

/-- The state `kernel_exit` starts from, when the trap came from a less privileged mode. -/
structure LeavesToUser (left mid : Hart) : Prop where
  sp : mid.get .sp = left.get .sp
  mem : mid.mem = Function.update left.mem (left.get .tp + taskTiKernelSp) (left.get .sp + ptSize)
  sscratch : mid.csr .sscratch = left.get .tp

/-- The state `kernel_exit` starts from, when the trap came from the kernel. -/
structure LeavesToKernel (left mid : Hart) : Prop where
  sp : mid.get .sp = left.get .sp
  mem : mid.mem = left.mem
  sscratch : mid.csr .sscratch = left.csr .sscratch

/-- Two harts that `kernel_exit` and the code before it cannot tell apart. -/
structure Alike (h h' : Hart) : Prop where
  sp : h'.get .sp = h.get .sp
  tp : h'.get .tp = h.get .tp
  mem : h'.mem = h.mem
  sscratch : h'.csr .sscratch = h.csr .sscratch

theorem Alike.trans {h h' h'' : Hart} (first : Alike h h') (second : Alike h' h'') :
    Alike h h'' :=
  ⟨second.sp.trans first.sp, second.tp.trans first.tp, second.mem.trans first.mem,
    second.sscratch.trans first.sscratch⟩

theorem LeavesToUser.of_alike {h h' mid : Hart} (alike : Alike h h')
    (leaves : LeavesToUser h' mid) : LeavesToUser h mid :=
  ⟨leaves.sp.trans alike.sp, by rw [leaves.mem, alike.mem, alike.tp, alike.sp],
    leaves.sscratch.trans alike.tp⟩

theorem LeavesToKernel.of_alike {h h' mid : Hart} (alike : Alike h h')
    (leaves : LeavesToKernel h' mid) : LeavesToKernel h mid :=
  ⟨leaves.sp.trans alike.sp, leaves.mem.trans alike.mem, leaves.sscratch.trans alike.sscratch⟩

/-- Testing `need_resched` of the task. -/
theorem testResched {h : Hart} (aligned : Aligned (h.get .tp)) :
    ∃ h', Hart.execs [.lw .s1 taskTiNeedResched .tp, .andi .s1 .s1 tifNeedResched] h = some h' ∧
      (h'.get .s1 = 0 ↔ ReschedClear h.mem (h.get .tp)) ∧ Alike h h' := by
  -- The field is a word of 32 bits, for which four bytes of alignment will do.
  have offset : (h.get .tp + taskTiNeedResched).toNat % 4 = 0 := by
    have shift : taskTiNeedResched.toNat = 116 := rfl
    unfold Aligned at aligned
    rw [BitVec.toNat_add]
    omega
  have loaded : Hart.exec (.lw .s1 taskTiNeedResched .tp) h =
      some (h.set .s1 (h.mem.word (h.get .tp + taskTiNeedResched))) := if_pos offset
  refine ⟨_, Hart.chain loaded rfl, ?_, ?_, ?_, ?_, ?_⟩
  · rw [Hart.get_set_self _ _ (by decide), Hart.get_set_self _ _ (by decide)]
    rfl
  · rw [Hart.get_set_of_ne _ _ (by decide), Hart.get_set_of_ne _ _ (by decide)]
  · rw [Hart.get_set_of_ne _ _ (by decide), Hart.get_set_of_ne _ _ (by decide)]
  · rw [Hart.mem_set, Hart.mem_set]
  · rw [Hart.csr_set, Hart.csr_set]

/-- `no_work_pending`, from the state in which the work is done. -/
theorem noWorkPending_leaves {h : Hart} (task : Aligned (h.get .tp)) (frame : Aligned (h.get .sp)) :
    ∃ mid ready, Hart.execs [.addi .s1 .sp ptSize, .sd .s1 taskTiKernelSp .tp,
        .csrw .sscratch .tp] h = some mid ∧
      kernelExit mid = some ready ∧ LeavesToUser h mid ∧ Restored mid ready := by
  -- The first instruction only computes where the stack ends.
  let pointed := h.set .s1 (h.get .sp + ptSize)
  have sp : pointed.get .sp = h.get .sp := Hart.get_set_of_ne h _ (by decide)
  have tp : pointed.get .tp = h.get .tp := Hart.get_set_of_ne h _ (by decide)
  have s1 : pointed.get .s1 = h.get .sp + ptSize := Hart.get_set_self h _ (by decide)
  have pointedMem : pointed.mem = h.mem := Hart.mem_set _ _ _
  have saved : Hart.exec (.sd .s1 taskTiKernelSp .tp) pointed = some
      { pointed with
        mem := Function.update h.mem (h.get .tp + taskTiKernelSp) (h.get .sp + ptSize) } := by
    have reachable : Aligned (pointed.get .tp + taskTiKernelSp) := by
      rw [tp]
      exact task.add (by decide)
    rw [Hart.exec_sd reachable, tp, s1, pointedMem]
  -- With `sscratch` set, all that is left is `kernel_exit`.
  let mid : Hart := Hart.setCsr
    { pointed with mem := Function.update h.mem (h.get .tp + taskTiKernelSp) (h.get .sp + ptSize) }
    .sscratch (pointed.get .tp)
  have leaves : LeavesToUser h mid :=
    ⟨sp, rfl, (Hart.csr_setCsr_self _ _ _).trans tp⟩
  obtain ⟨ready, exited, restored⟩ := kernelExit_restored (h := mid) (leaves.sp.symm ▸ frame)
  exact ⟨mid, ready, Hart.chain rfl (Hart.chain saved rfl), exited, leaves, restored⟩

/-- `ret_to_user` without a reschedule. -/
theorem retToUser_leaves {h : Hart} (schedule : Hart → Option Hart) (task : Aligned (h.get .tp))
    (frame : Aligned (h.get .sp)) (clear : ReschedClear h.mem (h.get .tp)) :
    ∃ mid ready, retToUser schedule h = some ready ∧ LeavesToUser h mid ∧ Restored mid ready := by
  obtain ⟨g, tested, zero, alike⟩ := testResched task
  -- With nothing to reschedule the branch falls through.
  have noWork : workResched schedule g = some g := if_neg (not_not.mpr (zero.mpr clear))
  obtain ⟨mid, ready, pointed, exited, leaves, restored⟩ := noWorkPending_leaves
    (alike.tp.symm ▸ task) (alike.sp.symm ▸ frame)
  exact ⟨mid, ready, Hart.chain tested (Hart.chain noWork (Hart.chain pointed exited)),
    leaves.of_alike alike, restored⟩

/-- `ret_to_kernel` without a reschedule. -/
theorem retToKernel_leaves {h : Hart} (preemptScheduleIrq : Hart → Option Hart) (fuel : Nat)
    (task : Aligned (h.get .tp)) (frame : Aligned (h.get .sp))
    (clear : ReschedClear h.mem (h.get .tp)) :
    ∃ mid ready, retToKernel preemptScheduleIrq (fuel + 1) h = some ready ∧
      LeavesToKernel h mid ∧ Restored mid ready := by
  have offset : (h.get .tp + taskTiPreemptCount).toNat % 4 = 0 := by
    have shift : taskTiPreemptCount.toNat = 112 := rfl
    unfold Aligned at task
    rw [BitVec.toNat_add]
    omega
  let g := h.set .s1 (h.mem.word (h.get .tp + taskTiPreemptCount))
  have counted : Hart.exec (.lw .s1 taskTiPreemptCount .tp) h = some g := if_pos offset
  have sp : g.get .sp = h.get .sp := Hart.get_set_of_ne _ _ (by decide)
  have tp : g.get .tp = h.get .tp := Hart.get_set_of_ne _ _ (by decide)
  have mem : g.mem = h.mem := Hart.mem_set _ _ _
  have csr : g.csr = h.csr := Hart.csr_set _ _ _
  by_cases atomic : g.get .s1 ≠ 0
  · -- With preemption off `need_resched` is not even looked at.
    obtain ⟨ready, exited, restored⟩ := kernelExit_restored (h := g) (sp.symm ▸ frame)
    refine ⟨g, ready, Hart.chain counted ?_, ⟨sp, mem, by rw [csr]⟩, restored⟩
    rw [if_pos atomic]
    exact exited
  · obtain ⟨g', tested, zero, alike⟩ := testResched (h := g) (tp.symm ▸ task)
    have sp' : g'.get .sp = h.get .sp := alike.sp.trans sp
    obtain ⟨ready, exited, restored⟩ := kernelExit_restored (h := g') (sp'.symm ▸ frame)
    refine ⟨g', ready, Hart.chain counted ?_,
      ⟨sp', alike.mem.trans mem, by rw [alike.sscratch, csr]⟩, restored⟩
    rw [if_neg atomic]
    refine Hart.chain tested ?_
    rw [if_pos (zero.mpr (by rw [mem, tp]; exact clear))]
    exact exited

/-- The instructions of `ret_from_exception` before the first branch. -/
theorem retFromException_begin {h : Hart} (frame : Aligned (h.get .sp)) :
    ∃ g, Hart.execs [.ld .s1 ptHstatus .sp, .ld .s2 ptSstatus .sp, .csrc .sstatus srSie,
        .andi .s1 .s1 hstatusSpv] h = some g ∧ Alike h g ∧
      g.get .s1 = h.mem (h.get .sp + ptHstatus) &&& hstatusSpv ∧
      g.get .s2 = h.mem (h.get .sp + ptSstatus) := by
  obtain ⟨g, loaded, same, filled, kept⟩ := Hart.execs_loads .sp
    [(.s1, ptHstatus), (.s2, ptSstatus)] h frame (by decide) (by decide) (by decide) (by decide)
  have split : [Instr.ld .s1 ptHstatus .sp, .ld .s2 ptSstatus .sp, .csrc .sstatus srSie,
      .andi .s1 .s1 hstatusSpv] = loads .sp [(.s1, ptHstatus), (.s2, ptSstatus)] ++
      [.csrc .sstatus srSie, .andi .s1 .s1 hstatusSpv] := rfl
  rw [split, Hart.execs_append, loaded]
  -- Besides the two loads, interrupts are turned off and one bit is cut out.
  let quiet := g.setCsr .sstatus (g.csr .sstatus &&& ~~~srSie)
  refine ⟨quiet.set .s1 (quiet.get .s1 &&& hstatusSpv), rfl, ⟨?_, ?_, ?_, ?_⟩, ?_, ?_⟩
  · rw [Hart.get_set_of_ne _ _ (by decide)]
    exact kept .sp (by decide)
  · rw [Hart.get_set_of_ne _ _ (by decide)]
    exact kept .tp (by decide)
  · rw [Hart.mem_set]
    exact same.mem
  · rw [Hart.csr_set, Hart.csr_setCsr_of_ne _ _ (by decide), same.csr]
  · rw [Hart.get_set_self _ _ (by decide)]
    exact congrArg (· &&& hstatusSpv) (filled (.s1, ptHstatus) (by decide))
  · rw [Hart.get_set_of_ne _ _ (by decide)]
    exact filled (.s2, ptSstatus) (by decide)

/-- Whether a frame was taken in HS mode. -/
def FrameInKernel (mem : Memory) (frame : U64) : Prop :=
  (mem (frame + ptSstatus)).getLsbD Hart.sppBit = true ∧
    (mem (frame + ptHstatus)).getLsbD Hart.spvBit = false

/-- The frame decides which way `ret_from_exception` goes. -/
theorem retFromException_branch {left : Hart} (schedule preemptScheduleIrq : Hart → Option Hart)
    (fuel : Nat) (frame : Aligned (left.get .sp)) :
    ∃ g, Alike left g ∧
      (FrameInKernel left.mem (left.get .sp) →
        retFromException schedule preemptScheduleIrq fuel left =
          retToKernel preemptScheduleIrq fuel g) ∧
      (¬ FrameInKernel left.mem (left.get .sp) →
        retFromException schedule preemptScheduleIrq fuel left = retToUser schedule g) := by
  obtain ⟨g, began, alike, s1, s2⟩ := retFromException_begin frame
  have virtual : g.get .s1 ≠ 0 ↔ (left.mem (left.get .sp + ptHstatus)).getLsbD Hart.spvBit = true := by
    rw [s1]
    exact Hart.and_bit_ne_zero (i := Hart.spvBit) _ (by decide)
  have first : ∀ rest : Hart → Option Hart, (Hart.execs [.ld .s1 ptHstatus .sp,
      .ld .s2 ptSstatus .sp, .csrc .sstatus srSie, .andi .s1 .s1 hstatusSpv] left).bind rest =
      rest g := fun rest => by rw [began, Option.bind_some]
  by_cases virt : g.get .s1 ≠ 0
  · -- `SPV` is set: back to the guest.
    have guest := virtual.mp virt
    refine ⟨g, alike, fun kernel => ?_, fun _ => ?_⟩
    · rw [kernel.2] at guest
      exact absurd guest (by decide)
    · exact (first _).trans (if_pos virt)
  · have host : (left.mem (left.get .sp + ptHstatus)).getLsbD Hart.spvBit = false := by
      cases bit : (left.mem (left.get .sp + ptHstatus)).getLsbD Hart.spvBit with
      | false => rfl
      | true => exact absurd (virtual.mpr bit) virt
    let g' := g.set .s2 (g.get .s2 &&& srSpp)
    have alike' : Alike left g' := alike.trans
      ⟨Hart.get_set_of_ne g _ (by decide), Hart.get_set_of_ne g _ (by decide), Hart.mem_set g _ _,
        by rw [Hart.csr_set]⟩
    have supervisor : g'.get .s2 ≠ 0 ↔
        (left.mem (left.get .sp + ptSstatus)).getLsbD Hart.sppBit = true := by
      rw [Hart.get_set_self _ _ (by decide), s2]
      exact Hart.and_bit_ne_zero (i := Hart.sppBit) _ (by decide)
    refine ⟨g', alike', fun kernel => ?_, fun user => ?_⟩
    · exact (first _).trans ((if_neg virt).trans (if_pos (supervisor.mpr kernel.1)))
    · have outside : ¬ g'.get .s2 ≠ 0 := fun set_ => user ⟨supervisor.mp set_, host⟩
      exact (first _).trans ((if_neg virt).trans (if_neg outside))

/-- Without a reschedule `ret_from_exception` gets to `sret`. -/
theorem retFromException_leaves {left h : Hart} {cause tval stvec : U64}
    (schedule preemptScheduleIrq : Hart → Option Hart) (fuel : Nat)
    (task : Aligned (left.get .tp)) (frame : Aligned (left.get .sp))
    (captured : Captured left.mem (left.get .sp) (h.trap cause tval stvec))
    (clear : ReschedClear left.mem (left.get .tp)) :
    ∃ mid ready, retFromException schedule preemptScheduleIrq (fuel + 1) left = some ready ∧
      Restored mid ready ∧
      (¬ h.InKernel → LeavesToUser left mid) ∧ (h.InKernel → LeavesToKernel left mid) := by
  obtain ⟨g, alike, toKernel, toUser⟩ :=
    retFromException_branch schedule preemptScheduleIrq (fuel + 1) frame
  -- The frame tells what the hart was.
  have origin : FrameInKernel left.mem (left.get .sp) ↔ h.InKernel := by
    rw [FrameInKernel, captured.sstatus, captured.hstatus, Hart.spp_trap, Hart.spv_trap]
    rfl
  have taskG : Aligned (g.get .tp) := alike.tp.symm ▸ task
  have frameG : Aligned (g.get .sp) := alike.sp.symm ▸ frame
  have clearG : ReschedClear g.mem (g.get .tp) := by
    rw [alike.mem, alike.tp]
    exact clear
  by_cases kernel : h.InKernel
  · obtain ⟨mid, ready, returned, leaves, restored⟩ :=
      retToKernel_leaves preemptScheduleIrq fuel taskG frameG clearG
    exact ⟨mid, ready, (toKernel (origin.mpr kernel)).trans returned, restored,
      fun user => absurd kernel user, fun _ => leaves.of_alike alike⟩
  · obtain ⟨mid, ready, returned, leaves, restored⟩ :=
      retToUser_leaves schedule taskG frameG clearG
    exact ⟨mid, ready, (toUser fun inside => kernel (origin.mp inside)).trans returned, restored,
      fun _ => leaves.of_alike alike, fun inside => absurd inside kernel⟩

/-- What the return path relies on when it calls `schedule`: the calling convention. -/
structure Reschedules (live : U64 → Prop) (h h' : Hart) : Prop where
  sp : h'.get .sp = h.get .sp
  tp : h'.get .tp = h.get .tp
  mem : ∀ addr, live addr → h'.mem addr = h.mem addr

/-- A way back to user mode, with or without a reschedule on it. -/
structure GoesToUser (left mid : Hart) : Prop where
  sp : mid.get .sp = left.get .sp
  mem : ∀ addr, OnFrame (left.get .sp) addr → addr ≠ left.get .tp + taskTiKernelSp →
    mid.mem addr = left.mem addr
  kernelSp : mid.mem (left.get .tp + taskTiKernelSp) = left.get .sp + ptSize
  sscratch : mid.csr .sscratch = left.get .tp

/-- With whatever work is pending `ret_from_exception` gets to `sret` on its way to user mode. -/
theorem retFromException_toUser {left : Hart} {schedule : Hart → Option Hart}
    (preemptScheduleIrq : Hart → Option Hart) (fuel : Nat) (task : Aligned (left.get .tp))
    (frame : Aligned (left.get .sp)) (user : ¬ FrameInKernel left.mem (left.get .sp))
    (keeps : ∀ h, ∃ h', schedule h = some h' ∧ Reschedules (OnFrame (left.get .sp)) h h') :
    ∃ mid ready, retFromException schedule preemptScheduleIrq fuel left = some ready ∧
      GoesToUser left mid ∧ Restored mid ready := by
  obtain ⟨g, alike, _, toUser⟩ := retFromException_branch schedule preemptScheduleIrq fuel frame
  obtain ⟨g', tested, _, alike'⟩ := testResched (h := g) (alike.tp.symm ▸ task)
  have both := alike.trans alike'
  -- The task is rescheduled or not, and comes back with its frame.
  obtain ⟨w, worked, kept⟩ : ∃ w, workResched schedule g' = some w ∧
      Reschedules (OnFrame (left.get .sp)) g' w := by
    unfold workResched
    split
    · exact keeps g'
    · exact ⟨g', rfl, rfl, rfl, fun _ _ => rfl⟩
  have sp : w.get .sp = left.get .sp := kept.sp.trans both.sp
  have tp : w.get .tp = left.get .tp := kept.tp.trans both.tp
  obtain ⟨mid, ready, pointed, exited, leaves, restored⟩ := noWorkPending_leaves
    (tp.symm ▸ task) (sp.symm ▸ frame)
  refine ⟨mid, ready, (toUser user).trans
    (Hart.chain tested (Hart.chain worked (Hart.chain pointed exited))), ⟨leaves.sp.trans sp,
    fun addr on other => ?_, ?_, leaves.sscratch.trans tp⟩, restored⟩
  · rw [leaves.mem, tp, Function.update_of_ne other, kept.mem addr on, both.mem]
  · rw [leaves.mem, tp, sp, Function.update_self]

end Benos
