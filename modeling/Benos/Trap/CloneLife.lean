import Benos.Trap.CloneFork

/-! The two ways back from `clone`: the caller with its result, and the child on a first run. -/

namespace Benos

/-- With any `schedule` that keeps to its convention `ret_from_exception` gets to a goal. -/
def Leaves (left : Hart) (goal : Hart → Prop) : Prop :=
  ∀ (schedule preemptScheduleIrq : Hart → Option Hart) (fuel : Nat),
    (∀ h, ∃ h', schedule h = some h' ∧ Reschedules (OnFrame (left.get .sp)) h h') →
    ∃ ready, retFromException schedule preemptScheduleIrq fuel left = some ready ∧ goal ready.sret

/-- A user task that was let go as expected, and whose traps will be taken as ever. -/
structure GoesOn (text : TrapText) (task : U64) (expected h : Hart) : Prop where
  resumed : Resumed expected h
  inUser : InUser task h
  life : UserLife text task h

/-- The way back of the caller, from the state `x` behind the system call. -/
def CallerReturns (text : TrapText) (task : U64) (h : Hart) (value : U64) (x : Hart) : Prop :=
  ∀ left, KernelRun text (OnFrame (taskPtRegs task)) x left → left.get .sp = taskPtRegs task →
    Leaves left fun h' => GoesOn text task (h.syscallReturn value (h.get .sp)) h' ∧
      ∀ ret, cloneEpilogue ret h' = some { h' with pc := h'.get .ra }

/-- A call of `cpu_switch_to` for a child whose context and frame are what `do_fork` left. -/
structure FirstSwitch (mem : Memory) (child : U64) (s : Hart) : Prop where
  kernel : s.InKernel
  sscratch : s.csr .sscratch = 0
  prev : Aligned (s.get .a0)
  apart : PagesApart (s.get .a0) child
  next : s.get .a1 = child
  context : ∀ offset : U64, offset.toNat < cpuContextSize →
    s.mem (child + offset) = mem (child + offset)
  frame : ∀ addr, OnFrame (taskPtRegs child) addr → s.mem addr = mem addr

/-- The way of the child, from the switch through `ret_from_fork` to the function it is for. -/
def ChildStarts (image : Image) (text : TrapText) (mem : Memory) (child : U64) (h : Hart)
    (sp : U64) : Prop :=
  ∀ s, FirstSwitch mem child s → ∃ s', cpuSwitchTo s = some s' ∧ s'.pc = image.retFromFork ∧
    ∀ left, KernelRun text (OnFrame (taskPtRegs child)) (retFromFork text s') left →
      left.get .sp = taskPtRegs child →
      Leaves left fun h' => GoesOn text child (h.syscallReturn 0 sp) h' ∧
        (Aligned sp → ∀ ret, ∃ h'', cloneEpilogue ret h' = some h'' ∧
          h''.pc = h'.mem sp ∧ h''.get .a0 = h'.mem (sp + 8))

/-- Only the words of the frame on top of a stack are in its page. -/
theorem OnFrame.inPage {p addr : U64} (on : OnFrame (taskPtRegs p) addr) : InPage p addr := by
  have split : addr = taskPtRegs p + (addr - taskPtRegs p) := by bv_omega
  rw [split]
  exact inPage_frame on

/-- The first switch to a child loads its registers from its context. -/
theorem FirstSwitch.loads {mem : Memory} {child : U64} {s : Hart} (page : StackPage child)
    (first : FirstSwitch mem child s) :
    ∃ s', cpuSwitchTo s = some s' ∧ s'.pc = mem (child + contextRa) ∧ InTask child s' ∧
      (∀ slot ∈ contextSlots, s'.get slot.1 = mem (child + slot.2)) ∧
      ∀ addr, OnFrame (taskPtRegs child) addr → s'.mem addr = mem addr := by
  obtain ⟨s', ran, switched⟩ :=
    cpuSwitchTo_switched first.prev (first.next.symm ▸ page.aligned)
  -- The stores go into the page of the task that is left.
  have kept : ∀ addr, InPage child addr → s'.mem addr = s.mem addr := by
    intro addr inside
    apply switched.kept
    rintro slot member rfl
    have within := contextSlots_within member
    exact first.apart.not_inPage (within.trans (by decide)) inside
  -- What is loaded was in the page when the child was made.
  have loaded : ∀ slot ∈ contextSlots, s'.get slot.1 = mem (child + slot.2) := by
    intro slot member
    have within := contextSlots_within member
    rw [switched.loaded slot member, first.next, kept _ (inPage_add (within.trans (by decide))),
      first.context _ within]
  have ra := loaded (.ra, contextRa) (by decide)
  refine ⟨s', ran, switched.pc.trans ra, ⟨⟨?_, ?_⟩, ?_, ?_⟩, loaded,
    fun addr on => (kept addr on.inPage).trans (first.frame addr on)⟩
  · exact switched.supervisor.trans first.kernel.1
  · exact switched.virt.trans first.kernel.2
  · rw [switched.csr, first.sscratch]
  · exact switched.tp.trans first.next

/-- The first switch to a child goes to `ret_from_fork`, on the frame that was copied for it. -/
theorem FirstSwitch.starts {image : Image} {mem : Memory} {child : U64} {s : Hart}
    (page : StackPage child) (first : FirstSwitch mem child s)
    (entry : mem (child + contextRa) = image.retFromFork)
    (stack : mem (child + contextSp) = taskPtRegs child) :
    ∃ s', cpuSwitchTo s = some s' ∧ s'.pc = image.retFromFork ∧ InTask child s' ∧
      s'.get .sp = taskPtRegs child ∧
      ∀ addr, OnFrame (taskPtRegs child) addr → s'.mem addr = mem addr := by
  obtain ⟨s', ran, pc, inTask, loaded, same⟩ := first.loads page
  -- The switch loads what `copy_thread` has put into the context.
  have sp := loaded (.sp, contextSp) (by decide)
  exact ⟨s', ran, pc.trans entry, inTask, sp.trans stack, same⟩

/-- A task that leaves on a frame goes on with what the frame holds. -/
theorem InTask.resumes {task : U64} {left expected : Hart} {cause tval stvec : U64}
    (page : StackPage task) (inTask : InTask task left) (sp : left.get .sp = taskPtRegs task)
    (captured : Captured left.mem (taskPtRegs task) (expected.trap cause tval stvec))
    (user : expected.supervisor = false) (host : expected.virt = false) :
    Leaves left fun h' => Resumed expected h' ∧ InUser task h' ∧ Exits left h' := by
  intro schedule preemptScheduleIrq fuel keeps
  obtain ⟨mid, ready, returned, restored, midSp, kept, inUser⟩ :=
    inTask.exits page sp (captured.toUser user host) keeps preemptScheduleIrq fuel
  -- The way back does not write to the frame.
  have held : Captured mid.mem (mid.get .sp) (expected.trap cause tval stvec) := by
    rw [midSp]
    exact captured.congr kept
  exact ⟨ready, returned, restored.resumed held, inUser, schedule, preemptScheduleIrq, fuel, ready,
    keeps, returned, rfl⟩

/-- The mode words of a frame are words of it. -/
theorem ModeWords.onFrame {frame addr : U64} (mode : ModeWords frame addr) : OnFrame frame addr := by
  rcases mode with rfl | rfl
  · exact onFrame_add (by decide)
  · exact onFrame_add (by decide)

/-- Editing a frame leaves its mode alone. -/
theorem Edited.mode {mem mem' : Memory} {frame value sp pc addr : U64}
    (edited : Edited mem mem' frame frame value sp pc) (mode : ModeWords frame addr) :
    mem' addr = mem addr := by
  rcases mode with rfl | rfl
  · exact edited.others _ (by decide) (by decide) (by decide) (by decide) (by decide)
  · exact edited.others _ (by decide) (by decide) (by decide) (by decide) (by decide)

/-- Editing depends on the words of the frame it starts from only. -/
theorem Edited.congr {mem before mem' : Memory} {frame frame' value sp pc : U64}
    (edited : Edited mem mem' frame frame' value sp pc)
    (same : ∀ addr, OnFrame frame addr → mem addr = before addr) :
    Edited before mem' frame frame' value sp pc :=
  ⟨edited.a0, edited.sp, edited.sepc, fun slot within notA0 notSp notSepc notOrig =>
    (edited.others slot within notA0 notSp notSepc notOrig).trans (same _ (onFrame_add within))⟩

/-- A positive pid is a positive result. -/
theorem ofNat_pid_ne_zero {pid : Fin nrTask} (positive : 0 < pid.val) :
    (BitVec.ofNat 64 pid.val : U64) ≠ 0 := by
  have bound : pid.val < 128 := pid.isLt
  intro zero
  have value := congrArg BitVec.toNat zero
  rw [BitVec.toNat_ofNat, Nat.mod_eq_of_lt (by omega)] at value
  exact absurd value (Nat.ne_of_gt positive)

section Ways

variable {image : Image} {text : TrapText} {task : U64} {h entered x : Hart} {mem' : Memory}
  {value tval : U64}

/-- Until the handler edits it, the frame holds the user code at its `ecall`. -/
theorem Called.captures (called : Called text task h causeUserEcall tval entered)
    (top : kernelStack task h - ptSize = taskPtRegs task)
    (ran : KernelRun text (OnFrame (taskPtRegs task)) entered x) :
    InTask task x ∧ Captured x.mem (taskPtRegs task)
      (h.trap causeUserEcall tval text.doExceptionVector) := by
  have handling := ran.handling called.inTask
  have captured := called.captured
  rw [top] at captured
  exact ⟨handling.inTask, captured.congr handling.mem⟩

/-- With its frame edited the caller returns from the system call, and nothing but `a0` changes. -/
theorem callerReturns (page : StackPage task) (life : UserLife text task h)
    (entry : doExceptionVector text (h.trap causeUserEcall tval text.doExceptionVector) =
      some entered)
    (called : Called text task h causeUserEcall tval entered)
    (top : kernelStack task h - ptSize = taskPtRegs task)
    (ran : KernelRun text (OnFrame (taskPtRegs task)) entered x)
    (edited : Edited x.mem mem' (taskPtRegs task) (taskPtRegs task) value
      (x.mem (taskPtRegs task + ptSp)) (x.mem (taskPtRegs task + ptSepc) + 4))
    (nonzero : value ≠ 0) : CallerReturns text task h value { x with mem := mem' } := by
  intro left after sp
  have inUser := life.inUser page
  obtain ⟨inTask, captured⟩ := called.captures top ran
  have goes := edited
  rw [captured.sp, captured.sepc, Hart.get_trap, Hart.sepc_trap] at goes
  have resumes := after.handling ⟨inTask.kernel, inTask.sscratch, inTask.tp⟩
  -- The frame holds the caller as it was, with the result and the next instruction.
  have held : Captured left.mem (taskPtRegs task) ((h.syscallReturn value (h.get .sp)).trap
      causeUserEcall tval text.doExceptionVector) := (captured.edited goes).congr resumes.mem
  have leaves := resumes.inTask.resumes page sp held (by simp [inUser.user]) (by simp [inUser.host])
  -- The handler as a whole keeps the mode words, which the edit does not touch.
  have frame : entered.get .sp = taskPtRegs task := called.sp.trans top
  have whole : KernelRun text (ModeWords (entered.get .sp)) entered left := by
    rw [frame]
    refine (ran.mono fun _ mode => mode.onFrame).trans (KernelRun.trans (KernelRun.own ?_)
      (after.mono fun _ mode => mode.onFrame))
    exact ⟨rfl, rfl, rfl, rfl, fun _ mode => edited.mode mode⟩
  intro schedule preempt fuel keeps
  obtain ⟨ready, returned, resumed, inUser', exits⟩ := leaves schedule preempt fuel keeps
  refine ⟨ready, returned, ⟨resumed, inUser', ?_⟩, fun ret => ?_⟩
  · exact UserLife.traps life entry whole (sp.trans frame.symm) exits
  · -- A result that is not zero takes the branch back to the caller.
    refine cloneEpilogue_parent ret ?_
    rw [resumed.regs, Hart.syscallReturn_a0]
    exact nonzero

/-- On the frame copied for it the child calls the function it is for. -/
theorem childStarts {child childSp : U64} (page : StackPage child) (user : h.supervisor = false)
    (host : h.virt = false)
    (captured : Captured mem' (taskPtRegs child) ((h.syscallReturn 0 childSp).trap causeUserEcall
      tval text.doExceptionVector))
    (entry : mem' (child + contextRa) = image.retFromFork)
    (stack : mem' (child + contextSp) = taskPtRegs child) :
    ChildStarts image text mem' child h childSp := by
  intro s first
  obtain ⟨s', ran, pc, inTask, sp, mem⟩ := first.starts page entry stack
  refine ⟨s', ran, pc, fun left run returned => ?_⟩
  let begun := retFromFork text s'
  -- The call of `ret_from_fork` moves `ra` alone.
  have begunTask : InTask child begun := by
    obtain ⟨⟨supervisor, virt⟩, sscratch, tp⟩ := inTask
    refine ⟨⟨(Hart.supervisor_set _ _ _).trans supervisor, (Hart.virt_set _ _ _).trans virt⟩, ?_, ?_⟩
    · exact (congrFun (Hart.csr_set _ _ _) _).trans sscratch
    · exact (Hart.get_set_of_ne s' text.retFromException (by decide)).trans tp
  have begunSp : begun.get .sp = taskPtRegs child :=
    (Hart.get_set_of_ne s' text.retFromException (by decide)).trans sp
  -- The frame of the child is in its page, which the switch has not written.
  have held : Captured begun.mem (taskPtRegs child) ((h.syscallReturn 0 childSp).trap
      causeUserEcall tval text.doExceptionVector) :=
    captured.congr fun addr on => (congrFun (Hart.mem_set _ _ _) addr).trans (mem addr on)
  have handling := run.handling begunTask
  have toUser := held.toUser (by simp [user]) (by simp [host])
  have leaves := handling.inTask.resumes page returned (held.congr handling.mem) (by simp [user])
    (by simp [host])
  intro schedule preempt fuel keeps
  obtain ⟨ready, returned', resumed, inUser, exits⟩ := leaves schedule preempt fuel keeps
  refine ⟨ready, returned', ⟨resumed, inUser, ?_⟩, fun aligned ret => ?_⟩
  · exact UserLife.cloned begunTask begunSp toUser (run.mono fun _ mode => mode.onFrame)
      (returned.trans begunSp.symm) exits
  · -- Its result is zero, and its stack pointer is the one in the frame.
    have result : ready.sret.get .a0 = 0 := (resumed.regs .a0).trans (by simp)
    have pointer : ready.sret.get .sp = childSp := (resumed.regs .sp).trans (by simp)
    exact cloneEpilogue_child ret result pointer aligned

end Ways

/--
A user task with any history traps into a frame on top of its stack. The handler then fails, which
its caller is told, or makes a child whose frame is the one of the caller behind the `ecall`, with
a zero result and its own stack pointer; the caller goes on with the positive pid and nothing else
changed, and the first run of the child ends in the function on its stack.
-/
theorem clone_semantics (text : TrapText) {image : Image}
    (others : BitVec 32 → U64 → Kernel → U64 × Kernel) {roster : Roster}
    (reached : roster.Reached image) (homes : Stacks image roster.kernel.pages) {task : U64}
    (member : task ∈ roster.tasks image) {h : Hart} (life : UserLife text task h)
    {childStack : U64} (call : CloneCall childStack h) (tval : U64) :
    ∃ entered,
      doExceptionVector text (h.trap causeUserEcall tval text.doExceptionVector) = some entered ∧
      entered.get .a0 = taskPtRegs task ∧ entered.get .a1 = causeUserEcall ∧
      entered.get .tp = task ∧
      Captured entered.mem (taskPtRegs task) (h.trap causeUserEcall tval text.doExceptionVector) ∧
      ∀ x, KernelRun text (OnFrame (taskPtRegs task)) entered x →
        ∀ k', (roster.kernel.on x).doExceptionUserEcall image others (entered.get .a0) = k' →
          (CloneFails image (roster.on x) k' (taskPtRegs task) ∧
            CallerReturns text task h (-1) { x with mem := k'.mem }) ∨
          ∃ pid child,
            CloneMakes image (roster.on x) k' (taskPtRegs task)
              (childSp (childStack - 16) (h.get .sp)) pid child ∧
            Edited entered.mem k'.mem (taskPtRegs task) (taskPtRegs child) 0
              (childSp (childStack - 16) (h.get .sp)) (h.pc + 4) ∧
            CallerReturns text task h (BitVec.ofNat 64 pid.val) { x with mem := k'.mem } ∧
            ChildStarts image text k'.mem child h (childSp (childStack - 16) (h.get .sp)) := by
  have consistent := reached.consistent
  have page := consistent.stackPage homes member
  have inUser := life.inUser page
  -- First the trap: the frame of the caller is at the top of its stack.
  obtain ⟨entered, entry, called, sp, top⟩ := inUser.called text page causeUserEcall tval
  have a0 : entered.get .a0 = taskPtRegs task := called.a0.trans top
  have captured := called.captured
  rw [top] at captured
  refine ⟨entered, entry, a0, called.a1, called.tp, captured, fun x ran k' handled => ?_⟩
  -- The handler runs in the kernel of the same task, with the frame as it was.
  obtain ⟨inTask, held⟩ := called.captures top ran
  have current : (roster.on x).kernel.current = task := inTask.tp
  have table : Consistent image (roster.on x) := consistent.on (inTask.tp.symm ▸ member)
  have frame : CloneFrame (roster.on x).kernel.mem (taskPtRegs task) (childStack - 16) :=
    call.frame held
  rw [a0] at handled
  rcases doExceptionUserEcall_cases table homes (congrArg taskPtRegs current.symm) frame handled with
    fails | ⟨pid, child, makes⟩
  · -- No child was made, and the caller gets -1.
    exact Or.inl ⟨fails, callerReturns page life entry called top ran fails.parent (by decide)⟩
  · -- A child was made, and its frame is a copy but for three words.
    have stackWord : (roster.on x).kernel.mem (taskPtRegs task + ptSp) = h.get .sp := held.sp
    have sepcWord : (roster.on x).kernel.mem (taskPtRegs task + ptSepc) = h.pc :=
      held.sepc.trans (Hart.sepc_trap _ _ _ _)
    rw [stackWord] at makes
    have copied := makes.copied
    rw [sepcWord] at copied
    have positive : (BitVec.ofNat 64 pid.val : U64) ≠ 0 := ofNat_pid_ne_zero makes.positive
    refine Or.inr ⟨pid, child, makes, copied.congr (ran.handling called.inTask).mem,
      callerReturns page life entry called top ran ?_ positive,
      childStarts makes.page inUser.user inUser.host (held.edited copied) makes.entry makes.stack⟩
    exact makes.parent

/-- After the first fork there is a second page and a third slot. -/
theorem exampleRoster_reached :
    ∃ roster : Roster, Transition.run (Roster.step exampleImage 129) [.fork 0 0x40000 0]
        (Roster.boot exampleKernel) = some roster ∧
      roster.Reached exampleImage ∧ Stacks exampleImage roster.kernel.pages ∧
      (0x80300000 : U64) ∈ roster.tasks exampleImage ∧ roster.kernel.pages.getFreePage.1 ≠ 0 ∧
      ∃ pid, roster.kernel.gTask pid = 0 := by
  let boot := Roster.boot exampleKernel
  have page : boot.kernel.pages.getFreePage.1 = 0x80300000 := exampleKernel_page
  rcases boot.kernel.doFork_cases exampleImage 0 0x40000 0 with
    ⟨failed, _⟩ | ⟨_, full, _⟩ | ⟨pid, _, _, result⟩
  · rw [page] at failed
    exact absurd failed (by decide)
  · exact absurd rfl (Kernel.findEmptyTask_none full ⟨1, by decide⟩)
  · let kernel := boot.kernel.forkPage.forkTask exampleImage 0 0x40000 0
      boot.kernel.pages.getFreePage.1 pid
    -- The first fork took the first page and a free slot.
    have slots : kernel.gTask = Function.update boot.kernel.gTask pid 0x80300000 := by
      rw [← page]
      rfl
    have pages : kernel.pages = exampleKernel.pages.setMap ⟨0, by decide⟩ 1 := by
      have taken := congrArg Prod.snd (PageAlloc.getFreePage_some exampleKernel_firstFree)
      exact taken
    have ran : Transition.run (Roster.step exampleImage 129) [.fork 0 0x40000 0] boot =
        some { kernel, forked := [kernel.gTask pid], queued := [kernel.gTask pid] } := by
      rw [Transition.run_cons, Roster.step, result]
      rfl
    refine ⟨_, ran, ⟨exampleKernel, 129, _, exampleKernel_loaded, by decide, ran⟩, ?_, ?_, ?_, ?_⟩
    · have start : exampleKernel.pages.phyStartAddress = 0x80300000 := by decide
      have homes : Stacks exampleImage exampleKernel.pages :=
        { toHomes := exampleKernel_homes, ends := by rw [start]; decide }
      have same : kernel.pages.phyStartAddress = exampleKernel.pages.phyStartAddress := by
        rw [pages]
        rfl
      exact homes.congr same
    · refine List.mem_cons_of_mem _ (List.mem_singleton.mpr ?_)
      rw [slots, Function.update_self]
    · -- The second page is still free.
      have second : kernel.pages.memMap ⟨1, by decide⟩ = 0 := by
        rw [pages, PageAlloc.setMap_other _ _ (by decide)]
        rfl
      obtain ⟨i, _, found⟩ := PageAlloc.firstFree_exists second
      have placed : Placed kernel.pages.phyStartAddress := by
        rw [pages]
        exact exampleKernel_homes.placed
      show kernel.pages.getFreePage.1 ≠ 0
      rw [PageAlloc.getFreePage_some found]
      exact PageAlloc.pageAddr_ne_zero placed i
    · -- One of two free slots was taken.
      have free : ∀ i : Fin nrTask, i.val ≠ 0 → boot.kernel.gTask i = 0 := fun i other => if_neg other
      show ∃ pid, kernel.gTask pid = 0
      rw [slots]
      by_cases first : pid = ⟨1, by decide⟩
      · refine ⟨⟨2, by decide⟩, ?_⟩
        rw [first, Function.update_of_ne (by decide)]
        exact free _ (by decide)
      · refine ⟨⟨1, by decide⟩, ?_⟩
        rw [Function.update_of_ne (Ne.symm first)]
        exact free _ (by decide)

/-- A clone on its first run, on a frame of zeros. -/
def exampleFirst : Hart :=
  { x := fun r => if r = .tp then 0x80300000 else if r = .sp then taskPtRegs 0x80300000 else 0
    csr := fun _ => 0
    pc := exampleText.retFromException
    mem := fun _ => 0
    supervisor := true
    virt := false }

/-- A user program about to call `__clone`, with another stack for the child. -/
def exampleCaller : Hart :=
  { x := fun r => if r = .a0 then 0x10200 else if r = .a1 then 0x50000 else if r = .a3 then 7
      else if r = .sp then 0x40000 else 0
    csr := fun c => if c = .sscratch then 0x80300000 else 0
    pc := 0x10100
    mem := fun addr => if addr = 0x80300078 then 0x80301000 else 0
    supervisor := false
    virt := false }

/-- Every state in user mode is one of a life that began with the first run of a clone. -/
theorem exampleLife {h : Hart} (inUser : InUser 0x80300000 h) :
    UserLife exampleText 0x80300000 h := by
  have page : StackPage 0x80300000 := ⟨by decide, by decide, by decide⟩
  -- A life that begins as a clone and has just come to user mode.
  have inTask : InTask 0x80300000 exampleFirst := ⟨by decide, rfl, rfl⟩
  have user : FrameToUser exampleFirst.mem (taskPtRegs 0x80300000) := ⟨rfl, rfl⟩
  have keeps : ∀ h, ∃ h', some h = some h' ∧
      Reschedules (OnFrame (exampleFirst.get .sp)) h h' := fun h => ⟨h, rfl, rfl, rfl, fun _ _ => rfl⟩
  obtain ⟨_, ready, returned, _, _, _, first⟩ := inTask.exits page rfl user keeps some 0
  have begun : UserLife exampleText 0x80300000 ready.sret :=
    .cloned inTask rfl user ⟨0, .refl⟩ rfl ⟨some, some, 0, ready, keeps, returned, rfl⟩
  exact .runs begun inUser.user inUser.host (inUser.sscratch.trans first.sscratch.symm)
    (inUser.kernelSp.trans first.kernelSp.symm)

/-- The kernel in the task at `0x80300000`, about to switch to a child for the first time. -/
def exampleSwitch (child : U64) (mem : Memory) : Hart :=
  { x := fun r => if r = .a0 then 0x80300000 else if r = .a1 then child else 0
    csr := fun _ => 0
    pc := 0
    mem
    supervisor := true
    virt := false }

theorem exampleSwitch_first (mem : Memory) :
    FirstSwitch mem 0x80301000 (exampleSwitch 0x80301000 mem) := by
  have prev : (exampleSwitch 0x80301000 mem).get .a0 = 0x80300000 := rfl
  refine ⟨⟨rfl, rfl⟩, rfl, ?_, ?_, rfl, fun _ _ => rfl, fun _ _ => rfl⟩
  · rw [prev]
    decide
  · rw [prev]
    exact ⟨by decide, by decide, Or.inl (by decide)⟩

/-- The child of the program is made in the second page, under the second free pid. -/
theorem exampleCaller_child {roster : Roster} {h entered : Hart}
    (ran : Transition.run (Roster.step exampleImage 129) [.fork 0 0x40000 0]
      (Roster.boot exampleKernel) = some roster)
    (called : clonePrologue exampleCaller = some h)
    (entry : doExceptionVector exampleText
      (h.trap causeUserEcall 0 exampleText.doExceptionVector) = some entered) :
    roster.kernel.gTask ⟨2, by decide⟩ = 0 ∧
      ((roster.kernel.on entered).doExceptionUserEcall exampleImage (fun _ _ k => (0, k))
        (entered.get .a0)).gTask ⟨2, by decide⟩ = 0x80301000 := by
  have made : ((Transition.run (Roster.step exampleImage 129) [.fork 0 0x40000 0]
      (Roster.boot exampleKernel)).bind fun roster => (clonePrologue exampleCaller).bind fun h =>
        (doExceptionVector exampleText
          (h.trap causeUserEcall 0 exampleText.doExceptionVector)).map fun entered =>
        (roster.kernel.gTask ⟨2, by decide⟩,
          ((roster.kernel.on entered).doExceptionUserEcall exampleImage (fun _ _ k => (0, k))
            (entered.get .a0)).gTask ⟨2, by decide⟩)) = some (0, 0x80301000) := by
    decide +kernel
  rw [ran, Option.bind_some, called, Option.bind_some, entry, Option.map_some] at made
  exact Prod.mk.inj (Option.some.inj made)

/--
A program calls `__clone`. Its child has a frame with a zero result and the stack it was given, and
its first run gets to the function whose address is on that stack.
-/
theorem clone_semantics_first :
    ∃ (roster : Roster) (h entered first ready last : Hart) (k' : Kernel),
      roster.Reached exampleImage ∧ clonePrologue exampleCaller = some h ∧
      doExceptionVector exampleText (h.trap causeUserEcall 0 exampleText.doExceptionVector) =
        some entered ∧
      (roster.kernel.on entered).doExceptionUserEcall exampleImage (fun _ _ k => (0, k))
        (entered.get .a0) = k' ∧
      k'.mem (taskPtRegs 0x80301000 + ptA0) = 0 ∧
      k'.mem (taskPtRegs 0x80301000 + ptSp) = 0x50000 - 16 ∧
      cpuSwitchTo (exampleSwitch 0x80301000 k'.mem) = some first ∧
      first.pc = exampleImage.retFromFork ∧
      retFromException some some 0 (retFromFork exampleText first) = some ready ∧
      ready.sret.get .sp = 0x50000 - 16 ∧ ready.sret.pc = h.pc + 4 ∧
      cloneEpilogue 0 ready.sret = some last ∧ last.pc = ready.sret.mem (0x50000 - 16) := by
  obtain ⟨roster, ran, reached, homes, member, page, free⟩ := exampleRoster_reached
  have stack : exampleCaller.get .a1 = 0x50000 := rfl
  -- The library function puts the function and its argument on the new stack.
  obtain ⟨h, prologue, call, _, _⟩ := clonePrologue_calls (by decide) stack rfl
  have inUser : InUser 0x80300000 h := by
    cases prologue
    exact ⟨rfl, rfl, rfl, by decide⟩
  obtain ⟨entered, entry, _, _, _, _, outcome⟩ := clone_semantics exampleText
    (fun _ _ k => (0, k)) reached homes member (exampleLife inUser) call 0
  obtain ⟨empty, second⟩ := exampleCaller_child ran prologue entry
  -- The handler does nothing but the system call, which finds a page and a pid.
  rcases outcome entered ⟨0, .refl⟩ _ rfl with ⟨fails, -⟩ | ⟨pid, child, makes, -, -, starts⟩
  · obtain ⟨pid, free⟩ := free
    exact fails.full.elim (absurd · page) fun full => absurd free (full pid)
  have new : child = 0x80301000 := by
    rw [makes.slots] at second
    by_cases same : (⟨2, by decide⟩ : Fin nrTask) = pid
    · rwa [← same, Function.update_self] at second
    · rw [Function.update_of_ne same] at second
      exact absurd (empty.symm.trans second) (by decide)
  subst new
  have given : childSp (0x50000 - 16) (h.get .sp) = 0x50000 - 16 := if_pos (by decide)
  rw [given] at makes starts
  -- It is switched to from its parent, and nothing happens before it leaves the kernel.
  obtain ⟨first, switched, pc, goes⟩ := starts _ (exampleSwitch_first _)
  have sp : (retFromFork exampleText first).get .sp = taskPtRegs 0x80301000 := by
    obtain ⟨first', switched', -, -, pointer, -⟩ :=
      (exampleSwitch_first _).starts makes.page makes.entry makes.stack
    obtain rfl : first = first' := Option.some.inj (switched.symm.trans switched')
    exact (Hart.get_set_of_ne first exampleText.retFromException (by decide)).trans pointer
  obtain ⟨ready, returned, goesOn, starts⟩ := goes _ ⟨0, .refl⟩ sp some some 0
    fun h => ⟨h, rfl, rfl, rfl, fun _ _ => rfl⟩
  obtain ⟨last, epilogue, entered', -⟩ := starts (by decide) 0
  exact ⟨roster, h, entered, first, ready, last, _, reached, prologue, entry, rfl, makes.copied.a0,
    makes.copied.sp, switched, pc, returned, (goesOn.resumed.regs .sp).trans (by simp),
    goesOn.resumed.pc.trans rfl, epilogue, entered'⟩

/-- The state in which `__clone` is called with a stack that ends at address 16. -/
def exampleSixteen : Hart :=
  { exampleCaller with x := fun r => if r = .a7 then nrClone else if r = .sp then 0x40000 else 0 }

/--
A child stack of 16 is not zero, but what `__clone` makes of it is, and so the child keeps the stack
pointer of its parent.
-/
theorem clone_stack_of_sixteen :
    ¬ ∀ (others : BitVec 32 → U64 → Kernel → U64 × Kernel) (roster : Roster) (task : U64)
      (h entered : Hart) (childStack : U64) (pid : Fin nrTask) (k' : Kernel),
      roster.Reached exampleImage → Stacks exampleImage roster.kernel.pages →
      task ∈ roster.tasks exampleImage → UserLife exampleText task h → childStack ≠ 0 →
      CloneCall childStack h →
      doExceptionVector exampleText (h.trap causeUserEcall 0 exampleText.doExceptionVector) =
        some entered →
      (roster.kernel.on entered).doExceptionUserEcall exampleImage others (entered.get .a0) = k' →
      roster.kernel.gTask pid = 0 → k'.gTask pid ≠ 0 →
      k'.mem (taskPtRegs (k'.gTask pid) + ptSp) = childStack - 16 := by
  intro always
  obtain ⟨roster, -, reached, homes, member, page, slot⟩ := exampleRoster_reached
  have inUser : InUser 0x80300000 exampleSixteen := ⟨rfl, rfl, rfl, by decide⟩
  have stack : StackPage 0x80300000 := ⟨by decide, by decide, by decide⟩
  have call : CloneCall 16 exampleSixteen := ⟨rfl, rfl, rfl⟩
  obtain ⟨entered, entry, called, sp, top⟩ :=
    inUser.called exampleText stack causeUserEcall 0
  have captured := called.captured
  rw [top] at captured
  have table : Consistent exampleImage (roster.on entered) :=
    reached.consistent.on (called.tp.symm ▸ member)
  have current : (roster.on entered).kernel.current = 0x80300000 := called.tp
  let others : BitVec 32 → U64 → Kernel → U64 × Kernel := fun _ _ k => (0, k)
  obtain ⟨k', handled⟩ : ∃ k', (roster.on entered).kernel.doExceptionUserEcall exampleImage others
      (taskPtRegs 0x80300000) = k' := ⟨_, rfl⟩
  have frame : CloneFrame (roster.on entered).kernel.mem (taskPtRegs 0x80300000) (16 - 16) :=
    call.frame captured
  rcases doExceptionUserEcall_cases table homes (congrArg taskPtRegs current.symm) frame handled with
    fails | ⟨pid, child, makes⟩
  · -- The fork cannot fail, as there is a page and a slot.
    obtain ⟨pid, free⟩ := slot
    exact fails.full.elim page fun full => full pid free
  · have slot : k'.gTask pid = child := by rw [makes.slots, Function.update_self]
    -- The pointer that is passed on is zero, which the kernel takes for none at all.
    have pointer := always others roster 0x80300000 exampleSixteen entered 16 pid k' reached homes
      member (exampleLife inUser) (by decide) call entry (called.a0.trans top ▸ handled) makes.free
      (slot.symm ▸ makes.page.nonzero)
    have parent : (roster.on entered).kernel.mem (taskPtRegs 0x80300000 + ptSp) = 0x40000 :=
      captured.sp
    rw [slot, makes.copied.sp, parent] at pointer
    exact absurd pointer (by decide)

end Benos
