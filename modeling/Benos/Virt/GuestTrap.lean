import Benos.Lib.Transition
import Benos.Virt.Vector

/-! Interrupts of the guest: what the vector saves, what it restores, and what it loses. -/

namespace Benos

/-! ### Status bits -/

namespace Hart

section VsTrap

variable (h : Hart) (cause tval stvec : U64)

@[simp] theorem get_vsTrap (r : Reg) : (h.vsTrap cause tval stvec).get r = h.get r := rfl

@[simp] theorem sscratch_vsTrap :
    (h.vsTrap cause tval stvec).csr .sscratch = h.csr .sscratch := by
  simp [vsTrap, setCsr]

@[simp] theorem sepc_vsTrap : (h.vsTrap cause tval stvec).csr .sepc = h.pc := by
  simp [vsTrap, setCsr]

@[simp] theorem scause_vsTrap : (h.vsTrap cause tval stvec).csr .scause = cause := by
  simp [vsTrap, setCsr]

/-- The status word after a trap into VS mode is that of any other trap. -/
theorem sstatus_vsTrap :
    (h.vsTrap cause tval stvec).csr .sstatus = (h.trap cause tval stvec).csr .sstatus := by
  simp [vsTrap, trap, setCsr]

end VsTrap

/-- The status word after `sret` in VS mode is that of any other `sret`. -/
theorem sstatus_vsSret (h : Hart) : h.vsSret.csr .sstatus = h.sret.csr .sstatus := by
  simp [vsSret, sret, setCsr]

@[simp] theorem sscratch_vsSret (h : Hart) : h.vsSret.csr .sscratch = h.csr .sscratch := by
  simp [vsSret, setCsr]

end Hart

/-! ### Entry -/

/-- What a trap frame of the guest holds; the field `tp` is filled from `sscratch`. -/
structure VsCaptured (mem : Memory) (frame : U64) (h : Hart) : Prop where
  regs : ∀ slot ∈ savedSlots, mem (frame + slot.2) = h.get slot.1
  sp : mem (frame + ptSp) = h.get .sp
  tp : mem (frame + ptTp) = h.csr .sscratch
  sstatus : mem (frame + ptSstatus) = h.csr .sstatus
  sepc : mem (frame + ptSepc) = h.csr .sepc

/-- A frame that keeps its words keeps what it captured. -/
theorem VsCaptured.congr {mem mem' : Memory} {frame : U64} {h : Hart}
    (captured : VsCaptured mem frame h)
    (same : ∀ addr, OnFrame frame addr → mem' addr = mem addr) : VsCaptured mem' frame h := by
  -- Every word of it lies on the frame.
  have word : ∀ slot : U64, slot.toNat < ptSize.toNat → mem' (frame + slot) = mem (frame + slot) :=
    fun _ within => same _ (onFrame_add within)
  refine ⟨fun slot member => ?_, ?_, ?_, ?_, ?_⟩
  · exact (word _ (savedSlots_within member)).trans (captured.regs slot member)
  · exact (word _ (by decide)).trans captured.sp
  · exact (word _ (by decide)).trans captured.tp
  · exact (word _ (by decide)).trans captured.sstatus
  · exact (word _ (by decide)).trans captured.sepc

/-- The hart at the end of the guest's `kernel_entry`. -/
structure VsEntered (h h' : Hart) : Prop where
  sp : h'.get .sp = h.get .sp - ptSize
  s4 : h'.get .s4 = h.csr .scause
  captured : VsCaptured h'.mem (h.get .sp - ptSize) h
  virt : h'.virt = h.virt

/-- A stack pointer keeps its alignment below a frame. -/
theorem aligned_frame {top : U64} (aligned : Aligned top) : Aligned (top - ptSize) := by
  rw [BitVec.sub_eq_add_neg]
  exact aligned.add (by decide)

/-- The guest's `kernel_entry` runs to its end. -/
theorem vsKernelEntry_entered {h : Hart} (aligned : Aligned (h.get .sp)) :
    ∃ h', vsKernelEntry h = some h' ∧ VsEntered h h' := by
  -- The frame is reserved below the interrupted stack pointer, with no other stack looked for.
  let reserved := h.set .sp (h.get .sp + -ptSize)
  have sp : reserved.get .sp = h.get .sp - ptSize := by
    rw [BitVec.sub_eq_add_neg]
    exact Hart.get_set_self h _ (by decide)
  have others : ∀ r, r ≠ .sp → reserved.get r = h.get r := fun r other =>
    Hart.get_set_of_ne h _ other
  have csr : reserved.csr = h.csr := Hart.csr_set _ _ _
  have frame : Aligned (h.get .sp - ptSize) := aligned_frame aligned
  -- The registers are stored first, then the control registers by way of some of them.
  obtain ⟨g, stored, same, written, -⟩ := Hart.execs_stores .sp savedSlots reserved
    (sp.symm ▸ frame) (by decide) (by decide)
  have spG : g.get .sp = h.get .sp - ptSize := (same.get .sp).trans sp
  obtain ⟨g', collected, ⟨-, -, -, virt⟩, filled, kept, regs⟩ :=
    Hart.execs_csrStores .sp vsCsrSlots g (spG.symm ▸ frame) (by decide) (by decide) (by decide)
      (by decide) (by decide)
  rw [spG] at filled kept
  have csrG : g.csr = h.csr := same.csr.trans csr
  have spG' : g'.get .sp = h.get .sp - ptSize := (regs .sp (by decide)).trans spG
  -- The interrupted stack pointer is recomputed from the frame, and stored last.
  let pointed := g'.set .s6 (g'.get .sp + ptSize)
  have spP : pointed.get .sp = h.get .sp - ptSize :=
    (Hart.get_set_of_ne g' _ (by decide)).trans spG'
  have s6 : pointed.get .s6 = h.get .sp := by
    have whole : h.get .sp - ptSize + ptSize = h.get .sp := BitVec.sub_add_cancel _ _
    rw [Hart.get_set_self g' _ (by decide), spG', whole]
  have memP : pointed.mem = g'.mem := Hart.mem_set _ _ _
  have last : Hart.exec (.sd .s6 ptSp .sp) pointed = some
      { pointed with mem := Function.update g'.mem (h.get .sp - ptSize + ptSp) (h.get .sp) } := by
    have slot : Aligned (pointed.get .sp + ptSp) := by
      rw [spP]
      exact frame.add (by decide)
    rw [Hart.exec_sd slot, spP, s6, memP]
  -- What an earlier block stored is in none of the slots a later block writes.
  have early : ∀ slot ∈ savedSlots, ∀ later ∈ vsCsrSlots, slot.2 ≠ later.2.2 := by decide
  have notSp : ∀ slot ∈ savedSlots, slot.1 ≠ .sp ∧ slot.2 ≠ ptSp := by decide
  -- The control registers are in slots of their own.
  have read : ∀ slot ∈ vsCsrSlots, slot.2.2 ≠ ptSp →
      Function.update g'.mem (h.get .sp - ptSize + ptSp) (h.get .sp)
        (h.get .sp - ptSize + slot.2.2) = h.csr slot.2.1 := by
    intro slot member other
    rw [Function.update_of_ne (slot_ne other), (filled slot member).1, csrG]
  refine ⟨_, Hart.chain rfl (Hart.chain stored (Hart.chain collected (Hart.chain rfl
    (Hart.chain last rfl)))), spP, ?_, ⟨?_, ?_, ?_, ?_, ?_⟩, ?_⟩
  · show pointed.get .s4 = _
    rw [Hart.get_set_of_ne g' _ (by decide), ← csrG]
    exact (filled (.s4, .scause, ptScause) (by decide)).2
  · -- A register is stored before anything else has changed it.
    intro slot member
    show Function.update g'.mem _ _ _ = _
    rw [Function.update_of_ne (slot_ne (notSp slot member).2),
      kept _ fun later inside => slot_ne (early slot member later inside), ← sp,
      written slot member, others _ (notSp slot member).1]
  · exact Function.update_self _ _ _
  · exact read (.s5, .sscratch, ptTp) (by decide) (by decide)
  · exact read (.s1, .sstatus, ptSstatus) (by decide) (by decide)
  · exact read (.s2, .sepc, ptSepc) (by decide) (by decide)
  · show pointed.virt = _
    rw [Hart.virt_set, virt, same.virt, Hart.virt_set]

/-! ### Exit -/

/-- The hart at the end of the guest's `kernel_exit`. -/
structure VsRestored (h h' : Hart) : Prop where
  regs : ∀ slot ∈ restoredSlots, h'.get slot.1 = h.mem (h.get .sp + slot.2)
  sp : h'.get .sp = h.mem (h.get .sp + ptSp)
  sstatus : h'.csr .sstatus = h.mem (h.get .sp + ptSstatus)
  sepc : h'.csr .sepc = h.mem (h.get .sp + ptSepc)
  sscratch : h'.csr .sscratch = h.csr .sscratch
  virt : h'.virt = h.virt

/-- A load followed by a write of a control register from what was loaded. -/
theorem loadCsr {h : Hart} (rd : Reg) {offset : U64} (c : Csr) (real : rd ≠ .zero)
    (other : rd ≠ .sp) (based : Aligned (h.get .sp)) (aligned : Aligned offset) :
    ∃ h', Hart.execs [.ld rd offset .sp, .csrw c rd] h = some h' ∧
      h'.get .sp = h.get .sp ∧ h'.mem = h.mem ∧ h'.virt = h.virt ∧
      h'.csr c = h.mem (h.get .sp + offset) ∧ ∀ d, d ≠ c → h'.csr d = h.csr d := by
  -- Between the two instructions the register holds the word.
  let loaded := h.set rd (h.mem (h.get .sp + offset))
  have read : Hart.exec (.ld rd offset .sp) h = some loaded :=
    Hart.exec_ld (based.add aligned)
  refine ⟨loaded.setCsr c (loaded.get rd), Hart.chain read rfl, ?_, ?_, ?_, ?_, fun d apart => ?_⟩
  · exact Hart.get_set_of_ne h _ (Ne.symm other)
  · exact Hart.mem_set _ _ _
  · exact Hart.virt_set _ _ _
  · rw [Hart.csr_setCsr_self]
    exact Hart.get_set_self h _ real
  · rw [Hart.csr_setCsr_of_ne _ _ apart]
    exact congrFun (Hart.csr_set _ _ _) d

/-- With its stack pointer at a frame the guest's `kernel_exit` runs to its end. -/
theorem vsKernelExit_restored {h : Hart} (aligned : Aligned (h.get .sp)) :
    ∃ h', vsKernelExit h = some h' ∧ VsRestored h h' := by
  -- The two control registers come first, through registers that are restored afterwards.
  obtain ⟨g, first, sp, mem, virt, status, csrs⟩ :=
    loadCsr .a0 .sstatus (by decide) (by decide) aligned (show Aligned ptSstatus by decide)
  obtain ⟨g', second, sp', mem', virt', pc, csrs'⟩ :=
    loadCsr .a2 .sepc (by decide) (by decide) (sp.symm ▸ aligned)
      (show Aligned ptSepc by decide)
  have base : g'.get .sp = h.get .sp := sp'.trans sp
  have memory : g'.mem = h.mem := mem'.trans mem
  -- Then all registers but the stack pointer, which is the base of the loads.
  obtain ⟨g'', third, same, filled, kept⟩ := Hart.execs_loads .sp restoredSlots g'
    (base.symm ▸ aligned) (by decide) (by decide) (by decide) (by decide)
  rw [base, memory] at filled
  have base' : g''.get .sp = h.get .sp := (kept .sp (by decide)).trans base
  have memory' : g''.mem = h.mem := same.mem.trans memory
  -- The stack pointer is loaded last.
  have last : Hart.exec (.ld .sp ptSp .sp) g'' =
      some (g''.set .sp (h.mem (h.get .sp + ptSp))) := by
    have slot : Aligned (g''.get .sp + ptSp) := by
      rw [base']
      exact aligned.add (by decide)
    rw [Hart.exec_ld slot, base', memory']
  have notSp : ∀ slot ∈ restoredSlots, slot.1 ≠ .sp := by decide
  refine ⟨_, Hart.chain first (Hart.chain second (Hart.chain third last)),
    fun slot member => ?_, Hart.get_set_self _ _ (by decide), ?_, ?_, ?_, ?_⟩
  · rw [Hart.get_set_of_ne _ _ (notSp slot member)]
    exact filled slot member
  · -- The loads of registers change no control register.
    rw [Hart.csr_set, same.csr, csrs' _ (by decide), status]
  · rw [Hart.csr_set, same.csr, pc, sp, mem]
  · rw [Hart.csr_set, same.csr, csrs' _ (by decide), csrs _ (by decide)]
  · rw [Hart.virt_set, same.virt, virt', virt]

/-! ### Whole traps -/

/-- What a call of the handler leaves alone, which the guest's C code does. -/
structure VsKeeps (entered left : Hart) : Prop where
  sp : left.get .sp = entered.get .sp
  virt : left.virt = entered.virt
  sscratch : left.csr .sscratch = entered.csr .sscratch
  mem : ∀ addr, OnFrame (entered.get .sp) addr → left.mem addr = entered.mem addr

/-- A `vs_handle_timer_irq` that leaves the frame as it is whenever it returns. -/
structure VsHandler where
  run : Hart → Option Hart
  keeps : ∀ {entered left : Hart}, run entered = some left → VsKeeps entered left

/-- What `do_vs_exception` is called with. -/
structure VsCalled (h : Hart) (cause tval stvec : U64) (entered : Hart) : Prop where
  sp : entered.get .sp = h.get .sp - ptSize
  a1 : entered.get .a1 = cause
  sscratch : entered.csr .sscratch = 0
  captured : VsCaptured entered.mem (h.get .sp - ptSize) (h.vsTrap cause tval stvec)
  virt : entered.virt = h.virt

/-- The vector gets to the handler. -/
theorem vsExceptionVector_called (text : VsTrapText) {h : Hart} (aligned : Aligned (h.get .sp))
    (cause tval : U64) :
    ∃ entered,
      vsExceptionVector text (h.vsTrap cause tval text.vsExceptionVector) = some entered ∧
        VsCalled h cause tval text.vsExceptionVector entered := by
  -- First `kernel_entry`, then the four instructions in front of the handler.
  obtain ⟨g, ran, entered⟩ :=
    vsKernelEntry_entered (h := h.vsTrap cause tval text.vsExceptionVector) aligned
  obtain ⟨g', set_, sp, a1, sscratch, mem, virt⟩ :
      ∃ g', Hart.execs [.csrw .sscratch .zero, .li .ra text.retFromException, .mv .a0 .sp,
          .mv .a1 .s4] g = some g' ∧
        g'.get .sp = g.get .sp ∧ g'.get .a1 = g.get .s4 ∧ g'.csr .sscratch = 0 ∧
        g'.mem = g.mem ∧ g'.virt = g.virt :=
    ⟨_, rfl, by simp⟩
  refine ⟨_, Hart.chain ran (Hart.chain set_ rfl), sp.trans entered.sp, ?_, sscratch, ?_,
    virt.trans entered.virt⟩
  · exact a1.trans (entered.s4.trans (Hart.scause_vsTrap _ _ _ _))
  · have captured := entered.captured
    rw [← mem] at captured
    exact captured

/-- What a whole trap of the guest makes of the hart it interrupts. -/
structure VsRound (h h' : Hart) : Prop where
  regs : ∀ r, r ≠ .tp → h'.get r = h.get r
  tp : h'.get .tp = h.csr .sscratch
  pc : h'.pc = h.pc
  supervisor : h'.supervisor = h.supervisor
  virt : h'.virt = h.virt
  sie : (h'.csr .sstatus).getLsbD Hart.sieBit = (h.csr .sstatus).getLsbD Hart.sieBit
  sscratch : h'.csr .sscratch = 0

/-- `kernel_exit` and `sret` from a frame resume the hart captured in it, but for `tp`. -/
theorem VsRestored.round {h left ready : Hart} {cause tval stvec : U64}
    (restored : VsRestored left ready)
    (captured : VsCaptured left.mem (left.get .sp) (h.vsTrap cause tval stvec))
    (sscratch : left.csr .sscratch = 0) (virt : left.virt = h.virt) : VsRound h ready.vsSret := by
  have status : ready.csr .sstatus = (h.trap cause tval stvec).csr .sstatus := by
    rw [restored.sstatus, captured.sstatus, Hart.sstatus_vsTrap]
  refine ⟨fun r other => ?_, ?_, ?_, ?_, ?_, ?_, ?_⟩
  · -- Every other register is loaded from where it was stored.
    show ready.get r = h.get r
    rcases restored_covers r with rfl | rfl | rfl | ⟨slot, saved, rfl, loaded⟩
    · rw [Hart.get_zero, Hart.get_zero]
    · exact restored.sp.trans captured.sp
    · exact absurd rfl other
    · exact (restored.regs slot loaded).trans (captured.regs slot saved)
  · -- The field `tp` was filled from `sscratch`, which a trap does not touch.
    show ready.get .tp = _
    rw [← Hart.sscratch_vsTrap h cause tval stvec]
    exact (restored.regs (.tp, ptTp) (by decide)).trans captured.tp
  · show ready.csr .sepc = h.pc
    rw [restored.sepc, captured.sepc, Hart.sepc_vsTrap]
  · show (ready.csr .sstatus).getLsbD Hart.sppBit = h.supervisor
    rw [status, Hart.spp_trap]
  · exact restored.virt.trans virt
  · rw [Hart.sstatus_vsSret, Hart.sie_sret, status, Hart.spie_trap]
  · rw [Hart.sscratch_vsSret, restored.sscratch, sscratch]

/-- From wherever the handler returns, the guest is resumed. -/
theorem VsCalled.round {h entered left : Hart} {cause tval stvec : U64}
    (called : VsCalled h cause tval stvec entered) (aligned : Aligned (h.get .sp))
    (keeps : VsKeeps entered left) :
    ∃ ready, vsKernelExit left = some ready ∧ VsRound h ready.vsSret := by
  have sp : left.get .sp = h.get .sp - ptSize := keeps.sp.trans called.sp
  have frame : Aligned (left.get .sp) := by
    rw [sp]
    exact aligned_frame aligned
  -- The frame is still what the vector made of it.
  have captured : VsCaptured left.mem (left.get .sp) (h.vsTrap cause tval stvec) := by
    rw [sp]
    refine called.captured.congr fun addr on => keeps.mem addr ?_
    rw [called.sp]
    exact on
  obtain ⟨ready, exited, restored⟩ := vsKernelExit_restored frame
  exact ⟨ready, exited, restored.round captured (keeps.sscratch.trans called.sscratch)
    (keeps.virt.trans called.virt)⟩

/-- A handler that returned was called for the timer, so it is `vs_handle_timer_irq` that did. -/
theorem doVsException_returned {timer : Hart → Option Hart} {scause : U64} {h h' : Hart}
    (returned : doVsException timer scause h = some h') : timer h = some h' := by
  rw [doVsException] at returned
  -- Every other cause is a panic.
  split at returned
  case isTrue =>
    split at returned
    case isTrue => exact returned
    case isFalse => cases returned
  case isFalse => cases returned

/-- A whole trap gives back everything but `tp`, which becomes what `sscratch` was. -/
theorem vsTrapRound_round {text : VsTrapText} {handler : VsHandler} {cause tval : U64}
    {h after : Hart} (aligned : Aligned (h.get .sp))
    (ran : vsTrapRound text handler.run cause tval h = some after) : VsRound h after := by
  obtain ⟨entered, entry, called⟩ := vsExceptionVector_called text aligned cause tval
  simp only [vsTrapRound, bind, entry, Option.bind_some, Option.bind_eq_some_iff] at ran
  -- The round is the entry, the handler and the exit, each of which came to its end.
  obtain ⟨left, handled, ready, exited, behind⟩ := ran
  cases behind
  obtain ⟨ready', exited', round⟩ :=
    called.round aligned (handler.keeps (doVsException_returned handled))
  rw [exited] at exited'
  cases exited'
  exact round

/-- The cause of a timer interrupt, as it arrives in VS mode. -/
def vsTimerCause : U64 := scauseInt ||| interruptCauseTimer

/-- A timer interrupt whose handler returns is a whole trap. -/
theorem vsTrapRound_returns (text : VsTrapText) (handler : VsHandler) {h : Hart} (tval : U64)
    (aligned : Aligned (h.get .sp)) (returns : ∀ entered, ∃ left, handler.run entered = some left) :
    ∃ after, vsTrapRound text handler.run vsTimerCause tval h = some after := by
  obtain ⟨entered, entry, called⟩ := vsExceptionVector_called text aligned vsTimerCause tval
  obtain ⟨left, handled⟩ := returns entered
  obtain ⟨ready, exited, -⟩ := called.round aligned (handler.keeps handled)
  -- The cause is that of a timer interrupt, which the handler is called for.
  have dispatched : doVsException handler.run (entered.get .a1) entered = some left := by
    have interrupt : vsTimerCause &&& scauseInt ≠ 0 := by decide
    have timer : vsTimerCause &&& ~~~scauseInt = interruptCauseTimer := by decide
    rw [called.a1, doVsException, if_pos interrupt, if_pos timer]
    exact handled
  exact ⟨_, Hart.chain entry (Hart.chain dispatched (Hart.chain exited rfl))⟩

/-! ### Runs of the guest -/

/-- What happens to the guest: it runs its own code, or it is interrupted. -/
inductive VsEvent where
  | code (next : Hart)
  | interrupt (cause tval : U64) (handler : VsHandler)

/-- One event; the guest's own code keeps the stack aligned and does not write `sscratch`. -/
def VsEvent.step (text : VsTrapText) : VsEvent → Hart → Option Hart
  | .code next, h =>
    if Aligned (next.get .sp) ∧ next.csr .sscratch = h.csr .sscratch ∧
        next.supervisor = true ∧ next.virt = true then some next
    else none
  | .interrupt cause tval handler, h =>
    if (h.csr .sstatus).getLsbD Hart.sieBit then vsTrapRound text handler.run cause tval h
    else none

/-- What `vs_trap_init` sets up and every event keeps. -/
structure VsReady (h : Hart) : Prop where
  aligned : Aligned (h.get .sp)
  sscratch : h.csr .sscratch = 0

/-- Every event keeps the guest ready for the next interrupt. -/
theorem VsReady.step {text : VsTrapText} (event : VsEvent) (h next : Hart)
    (ready : VsReady h) (taken : event.step text h = some next) : VsReady next := by
  -- Code of the guest keeps the stack aligned, and an interrupt gives everything back.
  cases event with
  | code next' =>
    simp only [VsEvent.step] at taken
    split at taken
    case isTrue kept =>
      cases taken
      exact ⟨kept.1, kept.2.1.trans ready.sscratch⟩
    case isFalse => cases taken
  | interrupt cause tval handler =>
    simp only [VsEvent.step] at taken
    split at taken
    case isTrue =>
      have round := vsTrapRound_round ready.aligned taken
      refine ⟨?_, round.sscratch⟩
      rw [round.regs .sp (by decide)]
      exact ready.aligned
    case isFalse => cases taken

/-- The state of the guest after the first events of a list. -/
def VsAt (text : VsTrapText) (events : List VsEvent) (start h : Hart) : Prop :=
  ∃ earlier, earlier <+: events ∧ Transition.run (VsEvent.step text) earlier start = some h

/-- An interrupt among the events, from the state it arrived in to the one it was left for. -/
def VsInterrupt (text : VsTrapText) (events : List VsEvent) (start before after : Hart) :
    Prop :=
  ∃ earlier cause tval handler, earlier ++ [.interrupt cause tval handler] <+: events ∧
    Transition.run (VsEvent.step text) earlier start = some before ∧
    (VsEvent.interrupt cause tval handler).step text before = some after

/-- From `vs_trap_init` on the guest is ready. -/
theorem vsAt_ready {text : VsTrapText} {events : List VsEvent} {boot h : Hart}
    (aligned : Aligned (boot.get .sp)) (reached : VsAt text events (vsTrapInit boot) h) :
    VsReady h := by
  obtain ⟨earlier, -, ran⟩ := reached
  have start : VsReady (vsTrapInit boot) := ⟨aligned, Hart.csr_setCsr_self boot .sscratch 0⟩
  exact Transition.run_invariant VsReady.step start ran

/-- An interrupt arrives in a state the guest was in. -/
theorem VsInterrupt.arrives {text : VsTrapText} {events : List VsEvent}
    {start before after : Hart} (interrupted : VsInterrupt text events start before after) :
    VsAt text events start before := by
  obtain ⟨earlier, cause, tval, handler, among, ran, -⟩ := interrupted
  exact ⟨earlier, (List.prefix_append _ _).trans among, ran⟩

/-- An interrupt of a run gives back everything but `tp`. -/
theorem VsInterrupt.round {text : VsTrapText} {events : List VsEvent}
    {boot before after : Hart} (aligned : Aligned (boot.get .sp))
    (interrupted : VsInterrupt text events (vsTrapInit boot) before after) :
    VsRound before after := by
  -- Where the interrupt arrives the stack is aligned.
  have ready := vsAt_ready aligned interrupted.arrives
  obtain ⟨earlier, cause, tval, handler, -, -, taken⟩ := interrupted
  simp only [VsEvent.step] at taken
  split at taken
  case isTrue => exact vsTrapRound_round ready.aligned taken
  case isFalse => cases taken

/--
In any run of the guest after `vs_trap_init` every timer interrupt whose handler returns gets back
to the guest, and all of them resume what they interrupted just when each arrives with zero in
`tp`.
-/
theorem vsInterrupts_resumed_iff (text : VsTrapText) (events : List VsEvent) {boot : Hart}
    (aligned : Aligned (boot.get .sp)) :
    (∀ h, VsAt text events (vsTrapInit boot) h → (h.csr .sstatus).getLsbD Hart.sieBit = true →
        ∀ (tval : U64) (handler : VsHandler),
          (∀ entered, ∃ left, handler.run entered = some left) →
          ∃ after, (VsEvent.interrupt vsTimerCause tval handler).step text h = some after) ∧
      ((∀ before after, VsInterrupt text events (vsTrapInit boot) before after →
          Resumed before after) ↔
        ∀ before after, VsInterrupt text events (vsTrapInit boot) before after →
          before.get .tp = 0) := by
  constructor
  · intro h reached enabled tval handler returns
    obtain ⟨after, ran⟩ :=
      vsTrapRound_returns text handler tval (vsAt_ready aligned reached).aligned returns
    exact ⟨after, (if_pos enabled).trans ran⟩
  · refine forall₂_congr fun before after => forall_congr' fun interrupted => ?_
    have round := interrupted.round aligned
    -- The guest's `sscratch` has been zero since `vs_trap_init`, and it is what `tp` becomes.
    have zero : after.get .tp = 0 :=
      round.tp.trans (vsAt_ready aligned interrupted.arrives).sscratch
    constructor
    · intro resumed
      rw [← resumed.regs .tp, zero]
    · intro same
      refine ⟨fun r => ?_, round.pc, round.supervisor, round.virt, round.sie⟩
      by_cases pointer : r = .tp
      · rw [pointer, zero, same]
      · exact round.regs r pointer

/-- A handler with nothing to do. -/
def idleHandler : VsHandler where
  run := some
  keeps := by
    rintro entered left ⟨⟩
    exact ⟨rfl, rfl, rfl, fun _ _ => rfl⟩

def exampleVsText : VsTrapText :=
  { vsExceptionVector := 0x80600000, doVsException := 0x80600400, retFromException := 0x80600200 }

/-- The guest, interrupts enabled, with a value of its own in `tp`. -/
def exampleGuest (tp : U64) : Hart :=
  { x := fun r => if r = .tp then tp else if r = .sp then 0x80700800 else 7
    csr := fun c => if c = .sstatus then 0x2 else 0
    pc := 0x80600c00
    mem := fun _ => 0
    supervisor := true
    virt := true }

/-- With zero in `tp` the timer interrupts the guest, and the guest goes on. -/
theorem vsInterrupts_resumed_zero :
    ∃ after, (VsEvent.interrupt vsTimerCause 0 idleHandler).step exampleVsText
        (vsTrapInit (exampleGuest 0)) = some after ∧
      Resumed (vsTrapInit (exampleGuest 0)) after := by
  have aligned : Aligned ((exampleGuest 0).get .sp) := by decide
  obtain ⟨returns, resumed⟩ := vsInterrupts_resumed_iff exampleVsText
    [.interrupt vsTimerCause 0 idleHandler] aligned
  obtain ⟨after, taken⟩ := returns _ ⟨[], List.nil_prefix, rfl⟩ (by decide) 0 idleHandler
    fun entered => ⟨entered, rfl⟩
  refine ⟨after, taken, resumed.mpr (fun before _ interrupted => ?_) _ _
    ⟨[], _, _, _, List.prefix_rfl, rfl, taken⟩⟩
  -- The only interrupt there is arrives in the state `vs_trap_init` left.
  obtain ⟨earlier, _, _, _, among, ran, -⟩ := interrupted
  have short := among.length_le
  rw [List.length_append, List.length_singleton, List.length_singleton] at short
  obtain rfl : earlier = [] := List.length_eq_zero_iff.mp (by omega)
  cases ran
  decide

/-- The guest is entered with the host's task in `tp`, and the first interrupt clears it. -/
theorem vsInterrupt_tp_lost :
    ¬ ∀ (text : VsTrapText) (events : List VsEvent) (boot before after : Hart),
      Aligned (boot.get .sp) → VsInterrupt text events (vsTrapInit boot) before after →
      Resumed before after := by
  intro always
  let start := vsTrapInit (exampleGuest 0x80300000)
  have aligned : Aligned (start.get .sp) := by decide
  obtain ⟨after, taken⟩ := vsTrapRound_returns exampleVsText idleHandler 0 aligned
    fun entered => ⟨entered, rfl⟩
  have interrupted : VsInterrupt exampleVsText [.interrupt vsTimerCause 0 idleHandler] start
      start after :=
    ⟨[], _, _, _, List.prefix_rfl, rfl, (if_pos (by decide)).trans taken⟩
  have resumed := always _ _ (exampleGuest 0x80300000) _ _ aligned interrupted
  -- The register comes back as `sscratch`, which is zero.
  have cleared : after.get .tp = start.csr .sscratch := (vsTrapRound_round aligned taken).tp
  exact absurd ((resumed.regs .tp).symm.trans cleared) (by decide)

end Benos
