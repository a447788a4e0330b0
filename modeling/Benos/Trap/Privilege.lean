import Benos.Trap.CloneLife
import Mathlib.Data.Fintype.Pigeonhole
import Mathlib.Tactic.Push

/-! Which mode a task that a system call makes starts its caller's code in. -/

namespace Benos

/-! ### The table of system calls -/

/-- `__NR_malloc`. -/
def nrMalloc : BitVec 32 := 5

namespace Kernel

/-- `__riscv_sys_malloc`. -/
def sysMalloc (k : Kernel) : U64 × Kernel :=
  let (addr, pages) := k.pages.getFreePage
  (if addr = 0 then -1 else addr, { k with pages })

/--
`syscall_table` without clone.

A negative number is not refused, so it calls through a word in front of the table; the first
argument is what those words lead to.
-/
def syscallTable (front : BitVec 32 → U64 → Kernel → U64 × Kernel) (syscallNo : BitVec 32)
    (regs : U64) (k : Kernel) : U64 × Kernel :=
  if syscallNo.slt 0 then front syscallNo regs k
  else if syscallNo = nrMalloc then k.sysMalloc
  -- `sys_open`, `sys_close`, `sys_read` and `sys_write` print their names.
  else (0, k)

end Kernel

/-! ### The first run of a task -/

/-- `ret_from_kernel_thread`, from where `schedule_tail` returns. -/
def retFromKernelThread (text : TrapText) (h : Hart) : Hart :=
  { (h.set .ra text.retFromException).set .a0 (h.get .s2) with pc := h.get .s1 }

/-- A task that is there after a call and was not there before. -/
def NewTask (before after : Kernel) (task : U64) : Prop :=
  task ≠ 0 ∧ (∃ pid, after.gTask pid = task) ∧ ∀ pid, before.gTask pid ≠ task

/-- The first run of a task stays in the kernel until an `sret` with `SPP` clear. -/
def StartsByReturn (image : Image) (text : TrapText) (mem : Memory) (task : U64) : Prop :=
  ∀ s, FirstSwitch mem task s → ∃ s', cpuSwitchTo s = some s' ∧ s'.pc = image.retFromFork ∧
    ∀ left, KernelRun text (OnFrame (taskPtRegs task)) (retFromFork text s') left →
      left.get .sp = taskPtRegs task →
      ∀ (schedule preemptScheduleIrq : Hart → Option Hart) (fuel : Nat),
        (∀ h, ∃ h', schedule h = some h' ∧ Reschedules (OnFrame (left.get .sp)) h h') →
        ∃ ready, retFromException schedule preemptScheduleIrq fuel left = some ready ∧
          (ready.csr .sstatus).getLsbD Hart.sppBit = false ∧ ready.sret.supervisor = false

/-- The first run of a task jumps to an address while it is in HS mode. -/
def StartsByJump (image : Image) (text : TrapText) (mem : Memory) (task target : U64) : Prop :=
  ∀ s, FirstSwitch mem task s → ∃ s', cpuSwitchTo s = some s' ∧
    s'.pc = image.retFromKernelThread ∧
    ∀ left, KernelRun text (fun _ => False) s' left → left.get .s1 = s'.get .s1 →
      (retFromKernelThread text left).pc = target ∧ (retFromKernelThread text left).InKernel

/-- A task whose saved context starts it on a frame that goes to user mode. -/
theorem startsByReturn {image : Image} {mem : Memory} {task : U64} (text : TrapText)
    (page : StackPage task) (entry : mem (task + contextRa) = image.retFromFork)
    (stack : mem (task + contextSp) = taskPtRegs task)
    (user : FrameToUser mem (taskPtRegs task)) : StartsByReturn image text mem task := by
  intro s first
  obtain ⟨s', ran, pc, inTask, sp, same⟩ := first.starts page entry stack
  refine ⟨s', ran, pc, fun left run returned schedule preempt fuel keeps => ?_⟩
  have begun : InTask task (retFromFork text s') := by
    obtain ⟨⟨supervisor, virt⟩, sscratch, tp⟩ := inTask
    refine ⟨⟨(Hart.supervisor_set _ _ _).trans supervisor, (Hart.virt_set _ _ _).trans virt⟩, ?_, ?_⟩
    · exact (congrFun (Hart.csr_set _ _ _) _).trans sscratch
    · exact (Hart.get_set_of_ne s' text.retFromException (by decide)).trans tp
  -- The frame is what was left on top of the stack, whatever `schedule_tail` does.
  have handling := run.handling begun
  have frame : FrameToUser left.mem (taskPtRegs task) := user.congr fun addr mode => by
    rw [handling.mem addr mode.onFrame, retFromFork, Hart.mem_set]
    exact same addr mode.onFrame
  obtain ⟨mid, ready, returned', restored, midSp, kept, inUser⟩ :=
    handling.inTask.exits page returned frame keeps preempt fuel
  refine ⟨ready, returned', ?_, inUser.user⟩
  rw [restored.sstatus, midSp, kept _ (onFrame_add (by decide))]
  exact frame.1

/-- A task whose saved context starts it as a kernel thread. -/
theorem startsByJump {image : Image} {mem : Memory} {task target : U64} (text : TrapText)
    (page : StackPage task) (entry : mem (task + contextRa) = image.retFromKernelThread)
    (fn : mem (task + contextS 1) = target) : StartsByJump image text mem task target := by
  intro s first
  obtain ⟨s', ran, pc, inTask, loaded, -⟩ := first.loads page
  -- `schedule_tail` keeps the register that holds the function.
  have s1 := loaded (.s1, contextS 1) (by decide)
  refine ⟨s', ran, pc.trans entry, fun left run kept => ⟨?_, ?_, ?_⟩⟩
  · exact kept.trans (s1.trans fn)
  · exact (Hart.supervisor_set _ _ _).trans ((Hart.supervisor_set _ _ _).trans
      (run.handling inTask).kernel.1)
  · exact (Hart.virt_set _ _ _).trans ((Hart.virt_set _ _ _).trans (run.handling inTask).kernel.2)

/-- A task can be switched to from any other one. -/
theorem firstSwitch_exists {prev task : U64} (mem : Memory) (aligned : Aligned prev)
    (apart : PagesApart prev task) : ∃ s, FirstSwitch mem task s :=
  ⟨{ x := fun r => if r = .a0 then prev else task
     csr := fun _ => 0
     pc := 0
     mem
     supervisor := true
     virt := false },
    ⟨rfl, rfl⟩, rfl, aligned, apart, rfl, fun _ _ => rfl, fun _ _ => rfl⟩

/-- A task whose saved context does not name `ret_from_fork` starts otherwise. -/
theorem not_startsByReturn {image : Image} {text : TrapText} {mem : Memory} {prev task : U64}
    (aligned : Aligned prev) (apart : PagesApart prev task) (page : StackPage task)
    (other : mem (task + contextRa) ≠ image.retFromFork) :
    ¬ StartsByReturn image text mem task := by
  intro starts
  -- There is a first switch to the task, and it goes where its context says.
  obtain ⟨s, first⟩ := firstSwitch_exists mem aligned apart
  obtain ⟨s', ran, pc, -⟩ := starts s first
  obtain ⟨s'', ran', pc', -⟩ := first.loads page
  rw [ran] at ran'
  cases ran'
  exact other (pc'.symm.trans pc)

/-! ### The outcome of a system call -/

/-- A call of clone that asks for a kernel thread, with a page and a pid to make one of. -/
def ThreadCall (k : Kernel) (number flags : U64) : Prop :=
  number.setWidth 32 = nrClone.setWidth 32 ∧ flags &&& pfKthread ≠ 0 ∧
    (∃ i, k.pages.memMap i = 0) ∧ ∃ pid, k.gTask pid = 0

/-- A frame made of another one goes where that one goes. -/
theorem Edited.toUser {mem mem' : Memory} {frame frame' value sp pc : U64}
    (edited : Edited mem mem' frame frame' value sp pc) (user : FrameToUser mem frame) :
    FrameToUser mem' frame' := by
  unfold FrameToUser
  rw [edited.others _ (by decide) (by decide) (by decide) (by decide) (by decide),
    edited.others _ (by decide) (by decide) (by decide) (by decide) (by decide)]
  exact user

/-- What a successful clone leaves of the task it makes, whatever its flags. -/
structure TaskMade (image : Image) (k k' : Kernel) (flags fn : U64) (pid : Fin nrTask)
    (child : U64) : Prop where
  slots : k'.gTask = Function.update k.gTask pid child
  fresh : ∀ i, k.gTask i ≠ child
  page : StackPage child
  apart : PagesApart k.current child
  thread : flags &&& pfKthread ≠ 0 → k'.mem (child + contextRa) = image.retFromKernelThread ∧
    k'.mem (child + contextS 1) = fn
  clone : flags &&& pfKthread = 0 → k'.mem (child + contextRa) = image.retFromFork ∧
    k'.mem (child + contextSp) = taskPtRegs child ∧
    Edited k.mem k'.mem (taskPtRegs k.current) (taskPtRegs child) 0
      (childSp fn (k.mem (taskPtRegs k.current + ptSp)))
      (k.mem (taskPtRegs k.current + ptSepc) + 4)

section Outcome

variable {image : Image} {roster : Roster} {regs : U64}

/-- A clone finds no page or no pid, or it makes a task. -/
theorem clone_outcome (consistent : Consistent image roster)
    (homes : Stacks image roster.kernel.pages) (own : regs = taskPtRegs roster.kernel.current)
    {others : BitVec 32 → U64 → Kernel → U64 × Kernel} {k' : Kernel}
    (handled : (roster.kernel.syscallEntered regs).invokeSyscall image others regs
      (nrClone.setWidth 32) = k') :
    (k'.gTask = roster.kernel.gTask ∧
        ¬ ((∃ i, roster.kernel.pages.memMap i = 0) ∧ ∃ pid, roster.kernel.gTask pid = 0)) ∨
      ((∃ i, roster.kernel.pages.memMap i = 0) ∧ (∃ pid, roster.kernel.gTask pid = 0) ∧
        ∃ pid child, TaskMade image roster.kernel k' (roster.kernel.mem (regs + ptA0))
          (roster.kernel.mem (regs + ptA1)) pid child) := by
  -- When the call begins `sepc` and `orig_a0` of the frame have been written.
  let entered : Roster := { roster with kernel := roster.kernel.syscallEntered regs }
  have table : Consistent image entered := consistent.withMem _
  have stacks' : Stacks image entered.kernel.pages := homes
  have pageFree : entered.kernel.pages.getFreePage.1 ≠ 0 ↔
      ∃ i, roster.kernel.pages.memMap i = 0 :=
    PageAlloc.getFreePage_ne_zero_iff consistent.apart.placed
  have slotFree : (∃ pid, entered.kernel.forkPage.findEmptyTask = some pid) ↔
      ∃ pid, roster.kernel.gTask pid = 0 := Kernel.findEmptyTask_isSome_iff
  rw [Kernel.invokeSyscall_clone] at handled
  rcases entered.kernel.doFork_cases image (roster.kernel.mem (regs + ptA0))
    (roster.kernel.mem (regs + ptA1)) (roster.kernel.mem (regs + ptA2)) with
    ⟨failed, result⟩ | ⟨found, full, result⟩ | ⟨pid, found, empty, result⟩
  · -- Without a page no slot is touched.
    rw [result] at handled
    subst handled
    exact Or.inl ⟨rfl, fun free => pageFree.mpr free.1 failed⟩
  · -- Without a pid none is either.
    rw [result] at handled
    subst handled
    refine Or.inl ⟨rfl, fun free => ?_⟩
    obtain ⟨pid, some_⟩ := slotFree.mpr free.2
    rw [full] at some_
    cases some_
  · rw [result] at handled
    subst handled
    obtain ⟨page, apart⟩ := table.forkPage_apart stacks' found
    obtain ⟨fresh, -, -⟩ := table.forkPage found
    refine Or.inr ⟨pageFree.mp found, slotFree.mp ⟨pid, empty⟩, pid,
      entered.kernel.pages.getFreePage.1, rfl, fun i same => ?_, page, apart, fun thread => ?_,
      fun clone => ?_⟩
    · -- The page was in no slot, or its task would be in the table.
      have used : entered.kernel.gTask i ≠ 0 := same.symm ▸ page.nonzero
      exact fresh (same ▸ (table.used i used).1)
    all_goals
      -- The result goes into the frame of the caller, which is not in the page of the child.
      have kept : ∀ addr, InPage entered.kernel.pages.getFreePage.1 addr → addr ≠ regs + ptA0 := by
        rintro addr inside rfl
        rw [own] at inside
        exact apart.frame_not_inPage (by decide) inside
    · exact ⟨(Function.update_of_ne (kept _ (inPage_add (by decide))) _ _).trans
          (copyThread_thread thread).1,
        (Function.update_of_ne (kept _ (inPage_add (by decide))) _ _).trans
          (copyThread_thread thread).2.2.1⟩
    · refine ⟨(Function.update_of_ne (kept _ (inPage_add (by decide))) _ _).trans
          (copyThread_clone clone).1,
        (Function.update_of_ne (kept _ (inPage_add (by decide))) _ _).trans
          (copyThread_clone clone).2, ?_⟩
      rw [← own]
      exact copied_frame clone apart own kept Kernel.syscallMem_sepc
        fun slot notSepc notOrig => Kernel.syscallMem_field notSepc notOrig

/-- No entry of the table but clone makes a task. -/
theorem invokeSyscall_slots {k : Kernel} (front : BitVec 32 → U64 → Kernel → U64 × Kernel)
    {syscallNo : BitVec 32} (table : ¬ syscallNo.slt 0) (other : syscallNo ≠ nrClone.setWidth 32) :
    (k.invokeSyscall image (Kernel.syscallTable front) regs syscallNo).gTask = k.gTask := by
  simp only [Kernel.invokeSyscall, if_neg other, Kernel.syscallTable, if_neg table]
  -- A number out of range, `malloc`, or one of the calls that only print.
  split
  · split <;> rfl
  · rfl

/-- A task that was made is new. -/
theorem TaskMade.new {k k' : Kernel} {flags fn child : U64} {pid : Fin nrTask}
    (made : TaskMade image k k' flags fn pid child) : NewTask k k' child :=
  ⟨made.page.nonzero, ⟨pid, by rw [made.slots, Function.update_self]⟩, made.fresh⟩

/-- Only the task that was made is new. -/
theorem TaskMade.only {k k' : Kernel} {flags fn child task : U64} {pid : Fin nrTask}
    (made : TaskMade image k k' flags fn pid child) (new : NewTask k k' task) : task = child := by
  obtain ⟨-, ⟨other, named⟩, absent⟩ := new
  rw [made.slots] at named
  -- Only one slot of the table has changed.
  by_cases here : other = pid
  · rw [here, Function.update_self] at named
    exact named.symm
  · rw [Function.update_of_ne here] at named
    exact absurd named (absent other)

variable (text : TrapText)

/-- A system call from the table makes no task that starts otherwise, but for a kernel thread. -/
theorem newTask_startsByReturn (consistent : Consistent image roster)
    (homes : Stacks image roster.kernel.pages) (own : regs = taskPtRegs roster.kernel.current)
    (user : FrameToUser roster.kernel.mem regs)
    (table : ¬ ((roster.kernel.mem (regs + ptA7)).setWidth 32).slt 0)
    (noThread : ¬ ThreadCall roster.kernel (roster.kernel.mem (regs + ptA7))
      (roster.kernel.mem (regs + ptA0)))
    {front : BitVec 32 → U64 → Kernel → U64 × Kernel} {k' : Kernel} {child : U64}
    (handled : roster.kernel.doExceptionUserEcall image (Kernel.syscallTable front) regs = k')
    (new : NewTask roster.kernel k' child) : StartsByReturn image text k'.mem child := by
  have nothing : k'.gTask = roster.kernel.gTask → False := by
    intro same
    obtain ⟨-, ⟨pid, named⟩, absent⟩ := new
    exact absent pid (same ▸ named)
  rw [Kernel.doExceptionUserEcall_eq] at handled
  by_cases clone : (roster.kernel.mem (regs + ptA7)).setWidth 32 = nrClone.setWidth 32
  · rw [clone] at handled
    rcases clone_outcome consistent homes own handled with ⟨same, -⟩ | ⟨page, slot, pid, task, made⟩
    · exact (nothing same).elim
    · -- The new task is a clone on a copy of a frame that was taken in user mode.
      obtain rfl := made.only new
      have flags : roster.kernel.mem (regs + ptA0) &&& pfKthread = 0 := by
        by_contra thread
        exact noThread ⟨clone, thread, page, slot⟩
      obtain ⟨entry, stack, edited⟩ := made.clone flags
      exact startsByReturn text made.page entry stack (edited.toUser (own ▸ user))
  · refine (nothing ?_).elim
    rw [← handled]
    exact invokeSyscall_slots front table clone

/-- A clone that asks for a kernel thread makes a task that jumps to its caller's address. -/
theorem threadCall_startsByJump (consistent : Consistent image roster)
    (homes : Stacks image roster.kernel.pages) (own : regs = taskPtRegs roster.kernel.current)
    (thread : ThreadCall roster.kernel (roster.kernel.mem (regs + ptA7))
      (roster.kernel.mem (regs + ptA0)))
    (others : BitVec 32 → U64 → Kernel → U64 × Kernel) {k' : Kernel}
    (handled : roster.kernel.doExceptionUserEcall image others regs = k') :
    ∃ child, NewTask roster.kernel k' child ∧ StackPage child ∧
      PagesApart roster.kernel.current child ∧
      k'.mem (child + contextRa) = image.retFromKernelThread ∧
      StartsByJump image text k'.mem child (roster.kernel.mem (regs + ptA1)) := by
  obtain ⟨clone, flags, free⟩ := thread
  rw [Kernel.doExceptionUserEcall_eq, clone] at handled
  -- With a page and a slot free, the call makes a task.
  rcases clone_outcome consistent homes own handled with ⟨-, full⟩ | ⟨-, -, pid, child, made⟩
  · exact absurd free full
  · obtain ⟨entry, fn⟩ := made.thread flags
    exact ⟨child, made.new, made.page, made.apart, entry, startsByJump text made.page entry fn⟩

end Outcome

/-- The start of a low page. -/
def lowPage (i : Nat) : U64 := BitVec.ofNat 64 (4096 * (i + 1))

/-- There are more low pages than tasks. -/
theorem lowPage_free (gTask : Fin nrTask → U64) :
    ∃ i, i < 129 ∧ ∀ pid, gTask pid ≠ lowPage i := by
  by_contra full
  push Not at full
  -- Each of 129 pages would be named by one of 128 slots.
  choose slot named using fun i : Fin 129 => full i.val i.isLt
  obtain ⟨i, j, different, same⟩ := Fintype.exists_ne_map_eq_of_card_lt slot
    (by rw [Fintype.card_fin, Fintype.card_fin]; decide)
  have pages : lowPage i = lowPage j := by rw [← named i, ← named j, same]
  have values := congrArg BitVec.toNat pages
  have first := i.isLt
  have second := j.isLt
  simp only [lowPage, BitVec.toNat_ofNat] at values
  exact different (Fin.ext (by omega))

/-- A low page is a stack, and there is another page apart from it. -/
theorem lowPage_stack {i : Nat} (low : i < 129) :
    StackPage (lowPage i) ∧ Aligned (lowPage (i + 1)) ∧
      PagesApart (lowPage (i + 1)) (lowPage i) := by
  -- The pages lie one behind the other from 4096 on.
  have here : (lowPage i).toNat = 4096 * (i + 1) := by
    rw [lowPage, BitVec.toNat_ofNat]
    omega
  have next : (lowPage (i + 1)).toNat = 4096 * (i + 1 + 1) := by
    rw [lowPage, BitVec.toNat_ofNat]
    omega
  -- Page zero is left out, so none of the addresses is zero.
  refine ⟨⟨fun zero => ?_, ?_, by omega⟩, ?_, by omega, by omega, Or.inr (by omega)⟩
  · have value := congrArg BitVec.toNat zero
    rw [here] at value
    simp at value
  · unfold Aligned
    omega
  · unfold Aligned
    omega

/-- The words in front of the table may lead to anything, such as a task that starts elsewhere. -/
theorem front_not_startsByReturn (image : Image) (text : TrapText) (k : Kernel) {regs : U64}
    (negative : ((k.mem (regs + ptA7)).setWidth 32).slt 0 = true) :
    ∃ front child, NewTask k (k.doExceptionUserEcall image (Kernel.syscallTable front) regs) child ∧
      ¬ StartsByReturn image text
        (k.doExceptionUserEcall image (Kernel.syscallTable front) regs).mem child := by
  obtain ⟨i, low, free⟩ := lowPage_free k.gTask
  obtain ⟨page, aligned, apart⟩ := lowPage_stack low
  obtain ⟨elsewhere, moved⟩ : ∃ value : U64, value ≠ image.retFromFork :=
    ⟨image.retFromFork + 1, by bv_omega⟩
  -- The word in front of the table leads to a function that makes a task which starts there.
  let front : BitVec 32 → U64 → Kernel → U64 × Kernel := fun _ _ k =>
    (elsewhere, { k with
      gTask := Function.update k.gTask ⟨0, by decide⟩ (lowPage i)
      mem := Function.update k.mem (lowPage i + contextRa) elsewhere })
  -- A negative number is below the bound, so that function is called.
  have called : k.doExceptionUserEcall image (Kernel.syscallTable front) regs =
      { k.syscallEntered regs with
        gTask := Function.update k.gTask ⟨0, by decide⟩ (lowPage i)
        mem := Function.update (Function.update (k.syscallMem regs) (lowPage i + contextRa)
          elsewhere) (regs + ptA0) elsewhere } := by
    have small : ((k.mem (regs + ptA7)).setWidth 32).slt nrSyscalls = true := by
      rw [BitVec.slt_iff_toInt_lt] at negative ⊢
      exact lt_trans negative (by decide)
    have other : (k.mem (regs + ptA7)).setWidth 32 ≠ nrClone.setWidth 32 := by
      intro same
      rw [same] at negative
      exact absurd negative (by decide)
    rw [Kernel.doExceptionUserEcall_eq]
    simp only [Kernel.invokeSyscall, small, if_true, if_neg other, Kernel.syscallTable, negative]
    rfl
  have slots := congrArg Kernel.gTask called
  have words := congrArg Kernel.mem called
  dsimp only at slots words
  refine ⟨front, lowPage i, ⟨page.nonzero, ⟨⟨0, by decide⟩, ?_⟩, free⟩, ?_⟩
  · rw [slots, Function.update_self]
  · apply not_startsByReturn aligned apart page
    -- Whether or not the result is written over the context, it is the other address.
    rw [words]
    generalize lowPage i + contextRa = slot
    by_cases clash : slot = regs + ptA0
    · rw [clash, Function.update_self]
      exact moved
    · rw [Function.update_of_ne clash, Function.update_self]
      exact moved

/--
An `ecall` of a user task with any registers traps into a frame on top of its stack. Then, whatever
lies in front of the table, every task made by the system call starts the code its caller chose by
an `sret` to user mode, just when the number is not negative and is not that of a clone which asks
for a kernel thread and gets one. Such a clone makes a task that jumps to the caller's `a1` in HS
mode.
-/
theorem syscall_startsByReturn_iff (text : TrapText) {image : Image}
    (labels : image.retFromKernelThread ≠ image.retFromFork) {roster : Roster}
    (reached : roster.Reached image) (homes : Stacks image roster.kernel.pages) {task : U64}
    (member : task ∈ roster.tasks image) {h : Hart} (life : UserLife text task h) (tval : U64) :
    ∃ entered,
      doExceptionVector text (h.trap causeUserEcall tval text.doExceptionVector) = some entered ∧
      ∀ x, KernelRun text (OnFrame (taskPtRegs task)) entered x →
        ((∀ front k', (roster.kernel.on x).doExceptionUserEcall image (Kernel.syscallTable front)
              (entered.get .a0) = k' →
            ∀ child, NewTask (roster.kernel.on x) k' child →
              StartsByReturn image text k'.mem child) ↔
          ¬ ((h.get .a7).setWidth 32).slt 0 ∧
            ¬ ThreadCall roster.kernel (h.get .a7) (h.get .a0)) ∧
        (ThreadCall roster.kernel (h.get .a7) (h.get .a0) →
          ∀ front k', (roster.kernel.on x).doExceptionUserEcall image (Kernel.syscallTable front)
              (entered.get .a0) = k' →
            ∃ child, NewTask (roster.kernel.on x) k' child ∧
              StartsByJump image text k'.mem child (h.get .a1)) := by
  have consistent := reached.consistent
  have page := consistent.stackPage homes member
  have inUser := life.inUser page
  obtain ⟨entered, entry, called, sp, top⟩ := inUser.called text page causeUserEcall tval
  refine ⟨entered, entry, fun x ran => ?_⟩
  obtain ⟨inTask, held⟩ := called.captures top ran
  have own : entered.get .a0 = taskPtRegs (roster.on x).kernel.current := by
    rw [called.a0, top]
    exact congrArg taskPtRegs inTask.tp.symm
  have table : Consistent image (roster.on x) := consistent.on (inTask.tp.symm ▸ member)
  have caller : StackPage (roster.on x).kernel.current := table.stackPage homes table.current
  -- The frame holds the registers of the caller, and goes back to user mode.
  rw [← called.a0.trans top] at held
  have user := held.toUser inUser.user inUser.host
  have a0 : (roster.on x).kernel.mem (entered.get .a0 + ptA0) = h.get .a0 :=
    held.regs (.a0, ptA0) (by decide)
  have a1 : (roster.on x).kernel.mem (entered.get .a0 + ptA1) = h.get .a1 :=
    held.regs (.a1, ptA1) (by decide)
  have a7 : (roster.on x).kernel.mem (entered.get .a0 + ptA7) = h.get .a7 :=
    held.regs (.a7, ptA7) (by decide)
  refine ⟨⟨fun safe => ⟨fun negative => ?_, fun thread => ?_⟩, ?_⟩, fun thread front k' handled => ?_⟩
  · -- A word in front of the table may lead to code that makes another task.
    rw [← a7] at negative
    obtain ⟨front, child, new, otherwise⟩ :=
      front_not_startsByReturn image text (roster.on x).kernel negative
    exact otherwise (safe front _ rfl child new)
  · -- A kernel thread does not start in `ret_from_fork`.
    rw [← a0, ← a7] at thread
    obtain ⟨child, new, childPage, apart, entryWord, -⟩ := threadCall_startsByJump text table
      homes own thread (Kernel.syscallTable fun _ _ k => (0, k)) rfl
    exact not_startsByReturn caller.aligned apart childPage
      (fun same => labels (entryWord.symm.trans same)) (safe _ _ rfl child new)
  · rintro ⟨nonnegative, noThread⟩ front k' handled child new
    rw [← a0, ← a7] at noThread
    rw [← a7] at nonnegative
    exact newTask_startsByReturn text table homes own user nonnegative noThread handled new
  · rw [← a0, ← a7] at thread
    obtain ⟨child, new, -, -, -, jumps⟩ :=
      threadCall_startsByJump text table homes own thread _ handled
    rw [a1] at jumps
    exact ⟨child, new, jumps⟩

/-- A user program at an `ecall`, with the number of clone and an address of its own in `a1`. -/
def examplePlea (flags : U64) : Hart :=
  { exampleCaller with
    x := fun r => if r = .a7 then nrClone else if r = .a1 then 0x10200 else if r = .a0 then flags
      else if r = .sp then 0x40000 else 0 }

/-- A clone without flags makes no task that starts in the kernel. -/
theorem syscall_startsByReturn_clone :
    ∃ (roster : Roster) (entered : Hart), roster.Reached exampleImage ∧
      doExceptionVector exampleText
        ((examplePlea 0).trap causeUserEcall 0 exampleText.doExceptionVector) = some entered ∧
      ∀ child, NewTask (roster.kernel.on entered)
          ((roster.kernel.on entered).doExceptionUserEcall exampleImage
            (Kernel.syscallTable fun _ _ k => (0, k)) (entered.get .a0)) child →
        StartsByReturn exampleImage exampleText
          ((roster.kernel.on entered).doExceptionUserEcall exampleImage
            (Kernel.syscallTable fun _ _ k => (0, k)) (entered.get .a0)).mem child := by
  obtain ⟨roster, -, reached, homes, member, -, -⟩ := exampleRoster_reached
  have inUser : InUser 0x80300000 (examplePlea 0) := ⟨rfl, rfl, rfl, by decide⟩
  obtain ⟨entered, entry, called⟩ := syscall_startsByReturn_iff exampleText (by decide) reached homes
    member (exampleLife inUser) 0
  -- The flags of the call are zero.
  have safe := (called entered ⟨0, .refl⟩).1.mpr ⟨by decide, fun thread => thread.2.1 rfl⟩
  exact ⟨roster, entered, reached, entry, safe _ _ rfl⟩

/-- A clone with the flag of a kernel thread makes a task that jumps to the caller's address. -/
theorem clone_kernel_thread :
    ¬ ∀ (roster : Roster) (task : U64) (h entered : Hart)
      (front : BitVec 32 → U64 → Kernel → U64 × Kernel) (k' : Kernel) (child : U64),
      roster.Reached exampleImage → Stacks exampleImage roster.kernel.pages →
      task ∈ roster.tasks exampleImage → UserLife exampleText task h →
      doExceptionVector exampleText (h.trap causeUserEcall 0 exampleText.doExceptionVector) =
        some entered →
      (roster.kernel.on entered).doExceptionUserEcall exampleImage (Kernel.syscallTable front)
        (entered.get .a0) = k' →
      NewTask (roster.kernel.on entered) k' child →
      StartsByReturn exampleImage exampleText k'.mem child ∧
        ¬ StartsByJump exampleImage exampleText k'.mem child (h.get .a1) := by
  intro always
  obtain ⟨roster, -, reached, homes, member, pageFree, slot⟩ := exampleRoster_reached
  have inUser : InUser 0x80300000 (examplePlea 1) := ⟨rfl, rfl, rfl, by decide⟩
  have page : StackPage 0x80300000 := ⟨by decide, by decide, by decide⟩
  obtain ⟨entered, entry, called, sp, top⟩ := inUser.called exampleText page causeUserEcall 0
  have table : Consistent exampleImage (roster.on entered) :=
    reached.consistent.on (called.tp.symm ▸ member)
  have own : entered.get .a0 = taskPtRegs (roster.on entered).kernel.current := by
    rw [called.a0, top]
    exact congrArg taskPtRegs called.tp.symm
  -- The words that the system call reads are the registers of the caller.
  have captured := called.captured
  rw [← called.a0] at captured
  have a0 : (roster.on entered).kernel.mem (entered.get .a0 + ptA0) = 1 :=
    captured.regs (.a0, ptA0) (by decide)
  have a1 : (roster.on entered).kernel.mem (entered.get .a0 + ptA1) = 0x10200 :=
    captured.regs (.a1, ptA1) (by decide)
  have a7 : (roster.on entered).kernel.mem (entered.get .a0 + ptA7) = nrClone :=
    captured.regs (.a7, ptA7) (by decide)
  -- The call is a clone with the flag of a kernel thread.
  have thread : ThreadCall (roster.on entered).kernel
      ((roster.on entered).kernel.mem (entered.get .a0 + ptA7))
      ((roster.on entered).kernel.mem (entered.get .a0 + ptA0)) := by
    rw [a0, a7]
    exact ⟨rfl, by decide, (PageAlloc.getFreePage_ne_zero_iff table.apart.placed).mp pageFree, slot⟩
  obtain ⟨child, new, -, -, -, jumps⟩ := threadCall_startsByJump exampleText table homes own thread
    (Kernel.syscallTable fun _ _ k => (0, k)) rfl
  rw [a1] at jumps
  exact (always roster 0x80300000 (examplePlea 1) entered _ _ child reached homes member
    (exampleLife inUser) entry rfl new).2 jumps

end Benos
