import Benos.Lib.Transition
import Benos.Trap.Return

/-! Traps within traps: each one gives back what it interrupted. -/

namespace Benos

open Relation (ReflTransGen)

/-! ### Traps -/

/-- The convention: `sscratch` names the task outside the kernel and is zero inside it. -/
structure Respects (task : U64) (h : Hart) : Prop where
  outside : ¬ h.InKernel → h.csr .sscratch = task ∧ task ≠ 0
  inside : h.InKernel → h.csr .sscratch = 0 ∧ h.get .tp = task

/-- The kernel stack pointer a trap will find. -/
def kernelStack (task : U64) (h : Hart) : U64 :=
  if h.InKernel then h.get .sp else h.mem (task + taskTiKernelSp)

/-- The addresses that are still needed, such as the frames to be restored. -/
abbrev Live := U64 → Prop

/-- The addresses still needed once a frame is pushed. -/
def Live.push (live : Live) (frame : U64) : Live := fun addr => OnFrame frame addr ∨ live addr

/-- A stack pointer with room for one more frame, below everything still needed. -/
structure Stacked (task : U64) (live : Live) (top : U64) : Prop where
  room : Room task top
  below : ∀ addr, live addr → top.toNat ≤ addr.toNat

/-- Kernel code that touches neither what is still needed nor the convention. -/
structure OwnStep (live : Live) (h h' : Hart) : Prop where
  tp : h'.get .tp = h.get .tp
  sscratch : h'.csr .sscratch = h.csr .sscratch
  supervisor : h'.supervisor = h.supervisor
  virt : h'.virt = h.virt
  mem : ∀ addr, live addr → h'.mem addr = h.mem addr

/-- A step inside a handler: code of its own, or a whole trap on top of it. -/
def HandlerStep (nested : Live → Hart → Hart → Prop) (live : Live) (h h' : Hart) : Prop :=
  OwnStep live h h' ∨ (Stacked (h.get .tp) live (h.get .sp) ∧ nested live h h')

/-- The handler returns by the calling convention, with nothing to reschedule. -/
structure Returns (entered left : Hart) : Prop where
  sp : left.get .sp = entered.get .sp
  tp : left.get .tp = entered.get .tp
  clear : ReschedClear left.mem (left.get .tp)

/-- A whole trap, from the interrupted hart to the one resumed by `sret`. -/
def WholeTrap (text : TrapText) (nested : Live → Hart → Hart → Prop) (live : Live)
    (h h' : Hart) : Prop :=
  ∃ cause tval entered left schedule preemptScheduleIrq fuel ready,
    doExceptionVector text (h.trap cause tval text.doExceptionVector) = some entered ∧
    ReflTransGen (HandlerStep nested (live.push (entered.get .sp))) entered left ∧
    Returns entered left ∧
    retFromException schedule preemptScheduleIrq (fuel + 1) left = some ready ∧ h' = ready.sret

/-- Traps with at most so many others inside one another. -/
def NestedTrap (text : TrapText) : Nat → Live → Hart → Hart → Prop
  | 0 => fun _ _ _ => False
  | depth + 1 => WholeTrap text (NestedTrap text depth)

/-- A step that keeps more is a step that keeps less. -/
theorem HandlerStep.mono {nested nested' : Live → Hart → Hart → Prop} {live live' : Live}
    {h h' : Hart} (less : ∀ addr, live' addr → live addr)
    (deeper : nested live h h' → nested' live' h h') (took : HandlerStep nested live h h') :
    HandlerStep nested' live' h h' := by
  rcases took with own | ⟨stacked, trapped⟩
  · exact Or.inl ⟨own.tp, own.sscratch, own.supervisor, own.virt,
      fun addr needed => own.mem addr (less addr needed)⟩
  · exact Or.inr ⟨⟨stacked.room, fun addr needed => stacked.below addr (less addr needed)⟩,
      deeper trapped⟩

/-- So is a trap, which may also have been allowed fewer traps inside one another. -/
theorem NestedTrap.mono {text : TrapText} {depth : Nat} :
    ∀ {depth' : Nat} {live live' : Live} {h h' : Hart}, depth ≤ depth' →
      (∀ addr, live' addr → live addr) → NestedTrap text depth live h h' →
      NestedTrap text depth' live' h h' := by
  -- A deeper bound allows more, and so does it for the traps inside of the handler.
  induction depth with
  | zero => exact fun _ _ absent => absent.elim
  | succ depth ih =>
    rintro depth' live live' h h' deeper less
      ⟨cause, tval, entered, left, schedule, preempt, fuel, ready, entry, ran, rest⟩
    obtain ⟨depth', rfl⟩ : ∃ n, depth' = n + 1 := ⟨depth' - 1, by omega⟩
    have pushed : ∀ addr, live'.push (entered.get .sp) addr → live.push (entered.get .sp) addr :=
      fun addr => Or.imp_right (less addr)
    refine ⟨cause, tval, entered, left, schedule, preempt, fuel, ready, entry, ?_, rest⟩
    exact ran.lift id fun _ _ took =>
      HandlerStep.mono pushed (ih (Nat.le_of_succ_le_succ deeper) pushed) took

/-! ### Entry -/

/-- What the handler is called with. -/
structure Called (text : TrapText) (task : U64) (h : Hart) (cause tval : U64) (entered : Hart) :
    Prop where
  sp : entered.get .sp = kernelStack task h - ptSize
  tp : entered.get .tp = task
  a0 : entered.get .a0 = kernelStack task h - ptSize
  a1 : entered.get .a1 = cause
  ra : entered.get .ra = text.retFromException
  pc : entered.pc = text.doException
  sscratch : entered.csr .sscratch = 0
  kernel : entered.InKernel
  captured : Captured entered.mem (kernelStack task h - ptSize)
    (h.trap cause tval text.doExceptionVector)
  mem : ∀ addr, addr ≠ task + taskTiKernelSp → addr ≠ task + taskTiUserSp →
    ¬ OnFrame (kernelStack task h - ptSize) addr → entered.mem addr = h.mem addr

/-- By the convention `kernel_entry` finds the task and its kernel stack. -/
theorem Respects.entry {task : U64} {h : Hart} (respects : Respects task h)
    (cause tval stvec : U64) :
    entryTask (h.trap cause tval stvec) = task ∧
      entryStack (h.trap cause tval stvec) = kernelStack task h := by
  unfold entryTask entryStack kernelStack
  -- `sscratch` tells the two apart: zero in the kernel, and the task outside of it.
  by_cases kernel : h.InKernel
  · obtain ⟨zero, tp⟩ := respects.inside kernel
    rw [Hart.sscratch_trap, if_neg (not_not.mpr zero), if_neg (not_not.mpr zero), if_pos kernel]
    exact ⟨tp, rfl⟩
  · obtain ⟨same, nonzero⟩ := respects.outside kernel
    rw [Hart.sscratch_trap, same, if_pos nonzero, if_pos nonzero, if_neg kernel]
    exact ⟨rfl, rfl⟩

/-- With room on the stack the handler is called. -/
theorem doExceptionVector_called (text : TrapText) {task : U64} {h : Hart}
    (respects : Respects task h) (room : Room task (kernelStack task h)) (cause tval : U64) :
    ∃ entered, doExceptionVector text (h.trap cause tval text.doExceptionVector) = some entered ∧
      Called text task h cause tval entered := by
  obtain ⟨sameTask, sameStack⟩ := respects.entry cause tval text.doExceptionVector
  -- First `kernel_entry`, then the four instructions in front of the handler.
  obtain ⟨g, ran, sp, tp, s4, captured, mem, _, supervisor, virt⟩ :=
    kernelEntry_entered (h := h.trap cause tval text.doExceptionVector)
      (by rw [sameTask, sameStack]; exact room)
  rw [sameTask] at tp mem
  rw [sameStack] at sp captured mem
  -- They clear `sscratch` and pass the frame and the cause, and memory stays.
  obtain ⟨g', set_, sp', tp', a0, a1, ra, sscratch, mem', supervisor', virt'⟩ :
      ∃ g', Hart.execs [.csrw .sscratch .zero, .li .ra text.retFromException, .mv .a0 .sp,
          .mv .a1 .s4] g = some g' ∧
        g'.get .sp = g.get .sp ∧ g'.get .tp = g.get .tp ∧ g'.get .a0 = g.get .sp ∧
        g'.get .a1 = g.get .s4 ∧ g'.get .ra = text.retFromException ∧ g'.csr .sscratch = 0 ∧
        g'.mem = g.mem ∧ g'.supervisor = g.supervisor ∧ g'.virt = g.virt :=
    ⟨_, rfl, by simp⟩
  refine ⟨_, Hart.chain ran (Hart.chain set_ rfl), sp'.trans sp, tp'.trans tp, a0.trans sp,
    a1.trans (s4.trans (Hart.scause_trap _ _ _ _)), ra, rfl, sscratch, ⟨?_, ?_⟩, ?_, ?_⟩
  · exact supervisor'.trans supervisor
  · exact virt'.trans virt
  · rw [← mem'] at captured
    exact captured
  · intro addr notKernel notUser outside
    exact (congrFun mem' addr).trans (mem addr notKernel notUser outside)

/-! ### The handler -/

/-- What holds at every step of a handler. -/
structure Handling (task : U64) (live : Live) (entered h : Hart) : Prop where
  kernel : h.InKernel
  respects : Respects task h
  mem : ∀ addr, live addr → h.mem addr = entered.mem addr

/-- What a trap gives back to the kernel code it interrupts. -/
structure GivesBack (task : U64) (live : Live) (h h' : Hart) : Prop where
  resumed : Resumed h h'
  respects : Respects task h'
  mem : ∀ addr, live addr → h'.mem addr = h.mem addr

/-- A handler keeps what is needed, if the traps nested in it give back what they interrupt. -/
theorem Handling.run {task : U64} {live : Live} {nested : Live → Hart → Hart → Prop}
    (givesBack : ∀ h h', Respects task h → Stacked task live (kernelStack task h) →
      nested live h h' → GivesBack task live h h')
    {entered left : Hart} (start : Handling task live entered entered)
    (ran : ReflTransGen (HandlerStep nested live) entered left) :
    Handling task live entered left := by
  refine Transition.reachable_invariant (fun h h' handling took => ?_) start ran
  obtain ⟨kernel, respects, mem⟩ := handling
  obtain ⟨zero, tp⟩ := respects.inside kernel
  rcases took with own | ⟨stacked, trapped⟩
  · have kernel' : h'.InKernel := ⟨own.supervisor.trans kernel.1, own.virt.trans kernel.2⟩
    refine ⟨kernel', ⟨fun user => absurd kernel' user, fun _ => ?_⟩, fun addr needed => ?_⟩
    · exact ⟨own.sscratch.trans zero, own.tp.trans tp⟩
    · rw [own.mem addr needed, mem addr needed]
  · -- The nested trap finds the stack pointer of the handler it interrupts.
    have stack : kernelStack task h = h.get .sp := if_pos kernel
    rw [tp, ← stack] at stacked
    obtain ⟨resumed, respects', kept⟩ := givesBack h h' respects stacked trapped
    refine ⟨⟨resumed.supervisor.trans kernel.1, resumed.virt.trans kernel.2⟩, respects',
      fun addr needed => ?_⟩
    rw [kept addr needed, mem addr needed]

/-- A new frame is apart from what is still needed, and so are the fields of the task. -/
theorem Stacked.apart {task top : U64} {live : Live} (stacked : Stacked task live top) {addr : U64}
    (needed : live addr) :
    ¬ OnFrame (top - ptSize) addr ∧
      ∀ field : U64, field.toNat < taskTiSize → addr ≠ task + field := by
  -- What is needed lies at or above the old stack pointer, the new frame below it.
  have high := stacked.below addr needed
  have above := stacked.room.above
  have size : ptSize.toNat = 296 := rfl
  have struct : taskTiSize = 136 := rfl
  refine ⟨fun inside => ?_, fun field within => ?_⟩
  · have ends := stacked.room.frame_add_toNat inside
    omega
  · rintro rfl
    have bound := top.isLt
    rw [BitVec.toNat_add] at high
    omega

/-! ### The way back -/

/-- What `kernel_exit` has done just before `sret`. -/
structure GoesBack (task : U64) (live : Live) (h trapped ready : Hart) : Prop where
  sstatus : ready.csr .sstatus = trapped.csr .sstatus
  hstatus : ready.csr .hstatus = trapped.csr .hstatus
  sepc : ready.csr .sepc = trapped.csr .sepc
  givesBack : GivesBack task live h ready.sret
  kernelSp : ¬ h.InKernel → ready.mem (task + taskTiKernelSp) = kernelStack task h

/-- A handler that kept its frame goes back to what it interrupted. -/
theorem Called.goesBack {text : TrapText} {task : U64} {h entered left : Hart} {cause tval : U64}
    {live : Live} (called : Called text task h cause tval entered)
    (respects : Respects task h) (stacked : Stacked task live (kernelStack task h))
    (handling : Handling task (live.push (entered.get .sp)) entered left)
    (returns : Returns entered left) (schedule preemptScheduleIrq : Hart → Option Hart)
    (fuel : Nat) :
    ∃ ready, retFromException schedule preemptScheduleIrq (fuel + 1) left = some ready ∧
      GoesBack task live h (h.trap cause tval text.doExceptionVector) ready := by
  have sp : left.get .sp = kernelStack task h - ptSize := returns.sp.trans called.sp
  have tp : left.get .tp = task := returns.tp.trans called.tp
  have room := stacked.room
  -- The frame is one of the things that the handler keeps.
  have captured : Captured left.mem (left.get .sp) (h.trap cause tval text.doExceptionVector) := by
    rw [sp]
    refine called.captured.congr fun addr on => handling.mem addr (Or.inl ?_)
    rw [called.sp]
    exact on
  obtain ⟨mid, ready, returned, restored, toUser, toKernel⟩ := retFromException_leaves schedule
    preemptScheduleIrq fuel (tp.symm ▸ room.taskAligned) (sp.symm ▸ room.aligned) captured
    returns.clear
  -- On the way back at most the field `kernel_sp` is written.
  have midSp : mid.get .sp = left.get .sp := by
    by_cases kernel : h.InKernel
    · exact (toKernel kernel).sp
    · exact (toUser kernel).sp
  have midMem : ∀ addr, addr ≠ task + taskTiKernelSp → mid.mem addr = left.mem addr := by
    intro addr other
    by_cases kernel : h.InKernel
    · rw [(toKernel kernel).mem]
    · rw [(toUser kernel).mem, tp, Function.update_of_ne other]
  -- That field is not in the frame.
  have capturedMid : Captured mid.mem (mid.get .sp) (h.trap cause tval text.doExceptionVector) := by
    rw [midSp]
    refine captured.congr fun addr on => midMem addr (room.field_ne ?_ (by decide))
    rw [← sp]
    exact on
  have resumed := restored.resumed capturedMid
  refine ⟨ready, returned, ?_, ?_, ?_, ⟨resumed, ⟨fun user => ?_, fun kernel => ?_⟩,
    fun addr needed => ?_⟩, fun user => ?_⟩
  · exact restored.sstatus.trans capturedMid.sstatus
  · exact restored.hstatus.trans capturedMid.hstatus
  · exact restored.sepc.trans capturedMid.sepc
  · -- Back in a program `sscratch` names the task.
    have user : ¬ h.InKernel := fun kernel =>
      user ⟨resumed.supervisor.trans kernel.1, resumed.virt.trans kernel.2⟩
    refine ⟨?_, (respects.outside user).2⟩
    rw [Hart.sscratch_sret, restored.sscratch, (toUser user).sscratch, tp]
  · -- Back in the kernel `sscratch` is zero, as it was all the time.
    have kernel : h.InKernel :=
      ⟨resumed.supervisor.symm.trans kernel.1, resumed.virt.symm.trans kernel.2⟩
    refine ⟨?_, (resumed.regs .tp).trans (respects.inside kernel).2⟩
    rw [Hart.sscratch_sret, restored.sscratch, (toKernel kernel).sscratch]
    exact (handling.respects.inside handling.kernel).1
  · -- What is kept for the interrupted code is neither in the frame nor one of the fields.
    obtain ⟨outside, fields⟩ := stacked.apart needed
    rw [Hart.mem_sret, restored.mem, midMem addr (fields _ (by decide)),
      handling.mem addr (Or.inr needed)]
    exact called.mem addr (fields _ (by decide)) (fields _ (by decide)) outside
  · -- `kernel_sp` is the upper end of the frame again.
    have whole : kernelStack task h - ptSize + ptSize = kernelStack task h := by bv_omega
    rw [restored.mem, (toUser user).mem, tp, Function.update_self, sp, whole]

/-- The handler starts with its own frame kept. -/
theorem Called.handling {text : TrapText} {task : U64} {h entered : Hart} {cause tval : U64}
    (called : Called text task h cause tval entered) (live : Live) :
    Handling task live entered entered :=
  ⟨called.kernel, ⟨fun user => absurd called.kernel user, fun _ => ⟨called.sscratch, called.tp⟩⟩,
    fun _ _ => rfl⟩

/-- Whatever the depth, a nested trap gives back what it interrupts. -/
theorem NestedTrap.givesBack (text : TrapText) (task : U64) (depth : Nat) :
    ∀ (live : Live) (h h' : Hart), Respects task h →
      Stacked task live (kernelStack task h) → NestedTrap text depth live h h' →
      GivesBack task live h h' := by
  -- The traps nested in this one are less deep, so they give back what they interrupt.
  induction depth with
  | zero => exact fun _ _ _ _ _ absent => absent.elim
  | succ depth ih =>
    rintro live h h' respects stacked
      ⟨cause, tval, entered, left, schedule, preempt, fuel, ready, entry, ran, returns, back, rfl⟩
    obtain ⟨entered', entry', called⟩ :=
      doExceptionVector_called text respects stacked.room cause tval
    rw [entry] at entry'
    cases entry'
    have handling := (called.handling (live.push (entered.get .sp))).run (ih _) ran
    obtain ⟨ready', back', goesBack⟩ :=
      called.goesBack respects stacked handling returns schedule preempt fuel
    rw [back] at back'
    cases back'
    exact goesBack.givesBack

/--
A trap from any mode that finds room on the kernel stack calls the handler, and when the handler
returns, having kept its frame and with traps nested in it to any depth, the control registers
captured at the entry are written back and `sret` resumes what was interrupted, with the
convention in force again.
-/
theorem trap_givesBack (text : TrapText) (depth : Nat) {task : U64} {live : Live} {h : Hart}
    (respects : Respects task h) (stacked : Stacked task live (kernelStack task h))
    (cause tval : U64) :
    ∃ entered, doExceptionVector text (h.trap cause tval text.doExceptionVector) = some entered ∧
      Called text task h cause tval entered ∧
      ∀ left, ReflTransGen (HandlerStep (NestedTrap text depth) (live.push (entered.get .sp)))
          entered left →
        Returns entered left →
        ∀ (schedule preemptScheduleIrq : Hart → Option Hart) (fuel : Nat),
          ∃ ready, retFromException schedule preemptScheduleIrq (fuel + 1) left = some ready ∧
            GoesBack task live h (h.trap cause tval text.doExceptionVector) ready := by
  obtain ⟨entered, entry, called⟩ :=
    doExceptionVector_called text respects stacked.room cause tval
  refine ⟨entered, entry, called, fun left ran returns schedule preempt fuel => ?_⟩
  -- Nested traps give back what they find, so the whole handler does.
  have handling := (called.handling (live.push (entered.get .sp))).run
    (NestedTrap.givesBack text task depth _) ran
  exact called.goesBack respects stacked handling returns schedule preempt fuel

def exampleText : TrapText :=
  { doExceptionVector := 0x80200800, doException := 0x80200a00, retFromException := 0x80200900 }

/-- A user program of the task at `0x80201000`, interrupts enabled. -/
def exampleUser : Hart :=
  { x := fun r => if r = .sp then 0x40000 else 7
    csr := fun c => if c = .sscratch then 0x80201000 else if c = .sstatus then 0x2 else 0
    pc := 0x1000
    mem := fun addr => if addr = 0x80201078 then 0x80202000 else 0
    supervisor := false
    virt := false }

/-- Nothing asks for a reschedule of it, neither in the handler of a second trap nor behind it. -/
theorem exampleUser_clear {entered again : Hart}
    (entry : doExceptionVector exampleText
      (exampleUser.trap 0x8000000000000005 0 exampleText.doExceptionVector) = some entered)
    (entry' : doExceptionVector exampleText
      (entered.trap 0x8000000000000009 0 exampleText.doExceptionVector) = some again) :
    ReschedClear again.mem (again.get .tp) ∧
      ∀ inner, retFromException some some 1 again = some inner →
        ReschedClear inner.sret.mem (inner.sret.get .tp) := by
  -- Both words are read in one evaluation of the two traps.
  have reads : ((doExceptionVector exampleText (exampleUser.trap 0x8000000000000005 0
      exampleText.doExceptionVector)).bind fun entered =>
    (doExceptionVector exampleText (entered.trap 0x8000000000000009 0
      exampleText.doExceptionVector)).bind fun again =>
    (retFromException some some 1 again).map fun inner =>
      (decide (ReschedClear again.mem (again.get .tp)),
        decide (ReschedClear inner.sret.mem (inner.sret.get .tp)))) = some (true, true) := by
    decide +kernel
  rw [entry, Option.bind_some, entry', Option.bind_some] at reads
  obtain ⟨inner, returned, clear⟩ := Option.map_eq_some_iff.mp reads
  simp only [Prod.mk.injEq, decide_eq_true_eq] at clear
  refine ⟨clear.1, fun inner' returned' => ?_⟩
  obtain rfl : inner = inner' := Option.some.inj (returned.symm.trans returned')
  exact clear.2

/--
The timer interrupts the program, another interrupt comes right after the entry of its handler, and
both the handler and the program go on.
-/
theorem trap_givesBack_timer :
    ∃ entered again inner ready, doExceptionVector exampleText
        (exampleUser.trap 0x8000000000000005 0 exampleText.doExceptionVector) = some entered ∧
      doExceptionVector exampleText
        (entered.trap 0x8000000000000009 0 exampleText.doExceptionVector) = some again ∧
      retFromException some some 1 again = some inner ∧ Resumed entered inner.sret ∧
      retFromException some some 1 inner.sret = some ready ∧ Resumed exampleUser ready.sret := by
  have respects : Respects 0x80201000 exampleUser :=
    ⟨fun _ => ⟨rfl, by decide⟩, fun kernel => absurd kernel (by decide)⟩
  have stack : kernelStack 0x80201000 exampleUser = 0x80202000 := by decide
  have stacked : Stacked 0x80201000 (fun _ => False) (kernelStack 0x80201000 exampleUser) := by
    rw [stack]
    exact ⟨⟨by decide, by decide, by decide⟩, fun _ absent => absent.elim⟩
  obtain ⟨entered, entry, called, back⟩ :=
    trap_givesBack exampleText 1 respects stacked 0x8000000000000005 0
  -- The handler has its frame below the top of the stack, and room below that for another one.
  have frame : entered.get .sp = 0x80202000 - ptSize := called.sp.trans (by rw [stack])
  have respects' : Respects 0x80201000 entered := (called.handling (fun _ => False)).respects
  have stack' : kernelStack 0x80201000 entered = 0x80202000 - ptSize :=
    (if_pos called.kernel).trans frame
  have stacked' : Stacked 0x80201000 (Live.push (fun _ => False) (entered.get .sp))
      (0x80202000 - ptSize) := by
    refine ⟨⟨by decide, by decide, by decide⟩, fun addr needed => ?_⟩
    rcases needed with on | none
    · rw [OnFrame, frame, show ptSize = 296 from rfl] at on
      rw [show ptSize = 296 from rfl]
      bv_omega
    · exact none.elim
  obtain ⟨again, entry', -, back'⟩ :=
    trap_givesBack exampleText 0 respects' (stack'.symm ▸ stacked') 0x8000000000000009 0
  obtain ⟨clear, clear'⟩ := exampleUser_clear entry entry'
  obtain ⟨inner, returned', goesBack'⟩ :=
    back' again ReflTransGen.refl ⟨rfl, rfl, clear⟩ some some 0
  have resumed := goesBack'.givesBack.resumed
  -- The inner trap is one step of the outer handler.
  have nested : HandlerStep (NestedTrap exampleText 1)
      (Live.push (fun _ => False) (entered.get .sp)) entered inner.sret := by
    refine Or.inr ⟨?_, 0x8000000000000009, 0, again, again, some, some, 0, inner, entry',
      ReflTransGen.refl, ⟨rfl, rfl, clear⟩, returned', rfl⟩
    rw [called.tp, frame]
    rwa [frame] at stacked'
  obtain ⟨ready, returned, goesBack⟩ := back inner.sret (ReflTransGen.single nested)
    ⟨resumed.regs .sp, resumed.regs .tp, clear' inner returned'⟩ some some 0
  exact ⟨entered, again, inner, ready, entry, entry', returned', resumed, returned,
    goesBack.givesBack.resumed⟩

/-- The kernel, with its stack pointer 416 bytes above the task. -/
def exampleDeep : Hart :=
  { x := fun r => if r = .tp then 0x80201000 else if r = .sp then 0x802011a0 else 7
    csr := fun _ => 0
    pc := 0x80200c00
    mem := fun _ => 0
    supervisor := true
    virt := false }

/--
Without the room the stack pointer is lost: the frame covers the field `user_sp`, and `ra` is
stored over it before it is read back.
-/
theorem trap_without_room :
    ¬ ∀ (task : U64) (h entered left ready : Hart), Respects task h →
      doExceptionVector exampleText
        (h.trap 0x8000000000000005 0 exampleText.doExceptionVector) = some entered →
      ReflTransGen (HandlerStep (NestedTrap exampleText 0) (OnFrame (entered.get .sp))) entered left →
      Returns entered left → retFromException some some 1 left = some ready →
      Resumed h ready.sret := by
  intro always
  have respects : Respects 0x80201000 exampleDeep :=
    ⟨fun user => absurd (by decide) user, fun _ => ⟨rfl, rfl⟩⟩
  -- The frame is pushed over the words in which the stack pointer was saved.
  have resumed := always 0x80201000 exampleDeep _ _ _ respects rfl ReflTransGen.refl
    ⟨rfl, rfl, by decide⟩ rfl
  exact absurd (resumed.regs .sp) (by decide)

end Benos
