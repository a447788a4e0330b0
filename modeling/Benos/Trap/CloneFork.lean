import Benos.Trap.Clone

/-! What the handler of `clone` leaves in the process table and in the two frames. -/

namespace Benos

/-- The linker and `mem_init` keep every stack below the last address. -/
structure Stacks (image : Image) (alloc : PageAlloc) : Prop extends Homes image alloc where
  ends : alloc.phyStartAddress.toNat + totalMemory.toNat < 2 ^ 64

namespace Stacks

variable {image : Image} {alloc : PageAlloc}

/-- The stack of the first task lies below the pages. -/
theorem first (homes : Stacks image alloc) : StackPage image.initTask := by
  -- The image ends with the page of the first task.
  have whole := homes.whole
  have ends := homes.ends
  have aligned := homes.initAligned
  refine ⟨homes.nonzero, ?_, by omega⟩
  unfold Aligned
  omega

/-- A page handed out is a stack. -/
theorem taken (homes : Stacks image alloc) {p : U64} (taken : alloc.Taken p) : StackPage p := by
  obtain ⟨_, _, aligned⟩ := homes.taken_toNat taken
  -- The pages that are tracked end below the end of the address space.
  have ends := homes.ends
  refine ⟨(homes.toApart.ne_initTask taken).2, ?_, ?_⟩
  · unfold Aligned
    omega
  · obtain ⟨i, rfl, _⟩ := taken
    have address := PageAlloc.pageAddr_toNat homes.placed i
    have bound : i.val < 4096 := i.isLt
    rw [totalMemory_toNat] at ends
    omega

/-- Another call of the allocator keeps the stacks where they are. -/
theorem congr (homes : Stacks image alloc) {alloc' : PageAlloc}
    (start : alloc'.phyStartAddress = alloc.phyStartAddress) : Stacks image alloc' :=
  { toHomes := homes.toHomes.congr start, ends := start.symm ▸ homes.ends }

end Stacks

/-- The process table with the words and the registers of the hart. -/
def Roster.on (roster : Roster) (h : Hart) : Roster :=
  { roster with kernel := roster.kernel.on h }

namespace Consistent

variable {image : Image} {roster : Roster}

/-- The table does not depend on the words in memory. -/
theorem withMem (consistent : Consistent image roster) (mem : Memory) :
    Consistent image { roster with kernel := { roster.kernel with mem } } :=
  { consistent with }

/-- The table is in order whichever of its tasks the hart runs. -/
theorem on (consistent : Consistent image roster) {h : Hart}
    (task : h.get .tp ∈ roster.tasks image) : Consistent image (roster.on h) :=
  { consistent with current := task }

/-- Every task has a stack of its own. -/
theorem stackPage (consistent : Consistent image roster)
    (homes : Stacks image roster.kernel.pages) {t : U64} (task : t ∈ roster.tasks image) :
    StackPage t := by
  rcases List.mem_cons.mp task with rfl | forked
  · exact homes.first
  · exact homes.taken (consistent.taken t forked)

end Consistent

/-! ### The handler -/

/-- A frame that holds the system call `clone`. -/
structure CloneFrame (mem : Memory) (frame sp : U64) : Prop where
  flags : mem (frame + ptA0) = 0
  stack : mem (frame + ptA1) = sp
  number : mem (frame + ptA7) = nrClone

/-- A frame taken at the `ecall` of `__clone` holds the system call. -/
theorem CloneCall.frame {h : Hart} {childStack frame cause tval stvec : U64} {mem : Memory}
    (call : CloneCall childStack h) (captured : Captured mem frame (h.trap cause tval stvec)) :
    CloneFrame mem frame (childStack - 16) :=
  ⟨(captured.regs (.a0, ptA0) (by decide)).trans call.flags,
    (captured.regs (.a1, ptA1) (by decide)).trans call.stack,
    (captured.regs (.a7, ptA7) (by decide)).trans call.number⟩

namespace Kernel

variable {image : Image} {others : BitVec 32 → U64 → Kernel → U64 × Kernel} {k : Kernel}
  {regs sp : U64}

/-- The memory in which a system call is looked up. -/
def syscallMem (k : Kernel) (regs : U64) : Memory :=
  Function.update (Function.update k.mem (regs + ptSepc) (k.mem (regs + ptSepc) + 4))
    (regs + ptOrigA0) (k.mem (regs + ptA0))

/-- The kernel in which a system call is looked up. -/
def syscallEntered (k : Kernel) (regs : U64) : Kernel := { k with mem := k.syscallMem regs }

/-- Every other field is as it was. -/
theorem syscallMem_field {slot : U64} (notSepc : slot ≠ ptSepc) (notOrig : slot ≠ ptOrigA0) :
    k.syscallMem regs (regs + slot) = k.mem (regs + slot) := by
  rw [syscallMem, Function.update_of_ne (slot_ne notOrig), Function.update_of_ne (slot_ne notSepc)]

/-- The counter is behind the `ecall`. -/
theorem syscallMem_sepc : k.syscallMem regs (regs + ptSepc) = k.mem (regs + ptSepc) + 4 := by
  rw [syscallMem, Function.update_of_ne (slot_ne (by decide)), Function.update_self]

/-- The counter moves and `a0` is kept aside, and then the system call is looked up. -/
theorem doExceptionUserEcall_eq :
    k.doExceptionUserEcall image others regs = (k.syscallEntered regs).invokeSyscall image others
      regs ((k.mem (regs + ptA7)).setWidth 32) := by
  -- Moving `sepc` on leaves the other words of the frame alone.
  have moved : ∀ slot : U64, slot ≠ ptSepc → Function.update k.mem (regs + ptSepc)
      (k.mem (regs + ptSepc) + 4) (regs + slot) = k.mem (regs + slot) :=
    fun slot other => Function.update_of_ne (slot_ne other) _ _
  have entered : { k with mem := Function.update (Function.update k.mem (regs + ptSepc)
      (k.mem (regs + ptSepc) + 4)) (regs + ptOrigA0) (Function.update k.mem (regs + ptSepc)
      (k.mem (regs + ptSepc) + 4) (regs + ptA0)) } = k.syscallEntered regs := by
    rw [moved ptA0 (by decide), syscallEntered, syscallMem]
  rw [doExceptionUserEcall, riscvSvcHandler]
  simp only [moved ptA7 (by decide), entered]

/-- The number of `clone` leads to `do_fork`, whose result goes into the frame. -/
theorem invokeSyscall_clone :
    (k.syscallEntered regs).invokeSyscall image others regs (nrClone.setWidth 32) =
      let (pid, k') := (k.syscallEntered regs).doFork image (k.mem (regs + ptA0))
        (k.mem (regs + ptA1)) (k.mem (regs + ptA2))
      { k' with mem := Function.update k'.mem (regs + ptA0) (forkResult pid) } := by
  -- The words that `__riscv_sys_clone` reads are those of the frame.
  have word : ∀ slot : U64, slot ≠ ptSepc → slot ≠ ptOrigA0 →
      (k.syscallEntered regs).mem (regs + slot) = k.mem (regs + slot) :=
    fun slot notSepc notOrig => syscallMem_field notSepc notOrig
  have known : (nrClone.setWidth 32).slt nrSyscalls = true := by decide
  simp only [invokeSyscall, known, if_true, sysClone, word ptA0 (by decide) (by decide),
    word ptA1 (by decide) (by decide), word ptA2 (by decide) (by decide)]

/-- The frame of `clone` leads to `do_fork`, whose result goes into the frame. -/
theorem doExceptionUserEcall_clone (frame : CloneFrame k.mem regs sp) :
    k.doExceptionUserEcall image others regs =
      let (pid, k) := (k.syscallEntered regs).doFork image 0 sp (k.mem (regs + ptA2))
      { k with mem := Function.update k.mem (regs + ptA0) (forkResult pid) } := by
  rw [doExceptionUserEcall_eq, frame.number, invokeSyscall_clone, frame.flags, frame.stack]

end Kernel

/-- The stack pointer of a child: the one asked for, or that of its parent if that is zero. -/
def childSp (sp parentSp : U64) : U64 := if sp ≠ 0 then sp else parentSp

/-! ### Failure and success -/

section Outcome

variable {image : Image} {others : BitVec 32 → U64 → Kernel → U64 × Kernel} {roster : Roster}
  {sp : U64}

/-- A failed `clone`: the table is what it was, and the frame says so. -/
structure CloneFails (image : Image) (roster : Roster) (k' : Kernel) (frame : U64) : Prop where
  full : roster.kernel.pages.getFreePage.1 = 0 ∨ ∀ pid, roster.kernel.gTask pid ≠ 0
  table : Consistent image { roster with kernel := k' }
  slots : k'.gTask = roster.kernel.gTask
  parent : Edited roster.kernel.mem k'.mem frame frame (-1) (roster.kernel.mem (frame + ptSp))
    (roster.kernel.mem (frame + ptSepc) + 4)

/-- A successful `clone`: one more task, which will run from a copy of the frame. -/
structure CloneMakes (image : Image) (roster : Roster) (k' : Kernel) (frame sp : U64)
    (pid : Fin nrTask) (child : U64) : Prop where
  table : Consistent image
    { kernel := k', forked := roster.forked ++ [child], queued := child :: roster.queued }
  slots : k'.gTask = Function.update roster.kernel.gTask pid child
  free : roster.kernel.gTask pid = 0
  positive : 0 < pid.val
  new : child ∉ roster.tasks image
  page : StackPage child
  parent : Edited roster.kernel.mem k'.mem frame frame (BitVec.ofNat 64 pid.val)
    (roster.kernel.mem (frame + ptSp)) (roster.kernel.mem (frame + ptSepc) + 4)
  copied : Edited roster.kernel.mem k'.mem frame (taskPtRegs child) 0 sp
    (roster.kernel.mem (frame + ptSepc) + 4)
  entry : k'.mem (child + contextRa) = image.retFromFork
  stack : k'.mem (child + contextSp) = taskPtRegs child

/-- Writing the result is the last step of editing the frame of the caller. -/
theorem edited_result {mem before after : Memory} {frame value sepc : U64}
    (sepcWord : before (frame + ptSepc) = sepc)
    (words : ∀ slot : U64, slot ≠ ptSepc → slot ≠ ptOrigA0 →
      before (frame + slot) = mem (frame + slot))
    (kept : ∀ slot : U64, slot.toNat < ptSize.toNat → after (frame + slot) = before (frame + slot)) :
    Edited mem (Function.update after (frame + ptA0) value) frame frame value (mem (frame + ptSp))
      sepc := by
  -- The result is the word that is written last, and the only one of that write.
  refine ⟨Function.update_self _ _ _, ?_, ?_, fun slot within notA0 _ notSepc notOrig => ?_⟩
  · rw [Function.update_of_ne (slot_ne (by decide)), kept _ (by decide),
      words _ (by decide) (by decide)]
  · rw [Function.update_of_ne (slot_ne (by decide)), kept _ (by decide), sepcWord]
  · rw [Function.update_of_ne (slot_ne notA0), kept _ within, words _ notSepc notOrig]

/-- The words of the frame on top of one stack are not in the page of another. -/
theorem PagesApart.frame_not_inPage {p q slot : U64} (pages : PagesApart p q)
    (within : slot.toNat < ptSize.toNat) : ¬ InPage q (taskPtRegs p + slot) := by
  have size : ptSize.toNat = 296 := rfl
  -- The frame lies at the end of its page.
  have start : (3800 : U64).toNat = 3800 := rfl
  rw [taskPtRegs_add]
  apply pages.not_inPage
  rw [BitVec.toNat_add]
  omega

/-- The page `do_fork` takes is a stack, apart from the stack of the caller. -/
theorem Consistent.forkPage_apart (consistent : Consistent image roster)
    (homes : Stacks image roster.kernel.pages) (found : roster.kernel.pages.getFreePage.1 ≠ 0) :
    StackPage roster.kernel.pages.getFreePage.1 ∧
      PagesApart roster.kernel.current roster.kernel.pages.getFreePage.1 := by
  obtain ⟨fresh, taken, cleared⟩ := consistent.forkPage found
  have homes' : Stacks image roster.kernel.forkPage.pages :=
    homes.congr (PageAlloc.getFreePage_keeps roster.kernel.pages).1
  have different : roster.kernel.current ≠ roster.kernel.pages.getFreePage.1 := fun same =>
    fresh (same ▸ consistent.current)
  -- The caller is the first task, or its page had been handed out before.
  have caller : roster.kernel.current = image.initTask ∨
      roster.kernel.forkPage.pages.Taken roster.kernel.current :=
    (List.mem_cons.mp cleared.current).imp_right (cleared.taken _)
  exact ⟨homes'.taken taken, homes'.pagesApart different caller (Or.inr taken)⟩

/-- The frame on top of a stack lies in the page of the stack. -/
theorem inPage_frame {p slot : U64} (within : slot.toNat < ptSize.toNat) :
    InPage p (taskPtRegs p + slot) := by
  have size : ptSize.toNat = 296 := rfl
  -- The frame lies at the end of its page.
  have start : (3800 : U64).toNat = 3800 := rfl
  rw [taskPtRegs_add]
  apply inPage_add
  rw [BitVec.toNat_add]
  omega

/-- The frame of the child is the one of the caller, as the system call was entered, edited. -/
theorem copied_frame {k : Kernel} {mem : Memory} {regs flags arg value sepc : U64}
    {pid : Fin nrTask} (clone : flags &&& pfKthread = 0)
    (apart : PagesApart k.current k.pages.getFreePage.1) (own : regs = taskPtRegs k.current)
    (kept : ∀ addr, InPage k.pages.getFreePage.1 addr → addr ≠ regs + ptA0)
    (sepcWord : k.mem (regs + ptSepc) = sepc)
    (words : ∀ slot : U64, slot ≠ ptSepc → slot ≠ ptOrigA0 →
      k.mem (regs + slot) = mem (regs + slot)) :
    Edited mem (Function.update
      (k.forkPage.forkTask image flags sp arg k.pages.getFreePage.1 pid).mem (regs + ptA0) value) regs
      (taskPtRegs k.pages.getFreePage.1) 0 (childSp sp (mem (regs + ptSp))) sepc := by
  -- `copy_thread` reads the frame of the caller, which clearing the new page has not changed.
  have word : ∀ slot : U64, slot.toNat < ptSize.toNat →
      Function.update (k.forkPage.forkTask image flags sp arg k.pages.getFreePage.1 pid).mem
          (regs + ptA0) value (taskPtRegs k.pages.getFreePage.1 + slot) =
        if slot = ptA0 then 0 else if sp ≠ 0 ∧ slot = ptSp then sp else k.mem (regs + slot) := by
    intro slot within
    have source : k.forkPage.mem (taskPtRegs k.current + slot) = k.mem (taskPtRegs k.current + slot) :=
      Kernel.forkPage_outside _ (apart.frame_not_inPage within)
    rw [Function.update_of_ne (kept _ (inPage_frame within)), Kernel.forkTask_mem,
      copyThread_frame clone apart within, source, own]
  refine ⟨?_, ?_, ?_, fun slot within notA0 notSp notSepc notOrig => ?_⟩
  · rw [word _ (by decide), if_pos rfl]
  · rw [word _ (by decide), if_neg (by decide), childSp]
    by_cases given : sp ≠ 0
    · rw [if_pos ⟨given, rfl⟩, if_pos given]
    · rw [if_neg fun both => given both.1, if_neg given, words _ (by decide) (by decide)]
  · rw [word _ (by decide), if_neg (by decide), if_neg fun both => absurd both.2 (by decide), sepcWord]
  · rw [word _ within, if_neg notA0, if_neg fun both => notSp both.2, words _ notSepc notOrig]

/-- The handler of `clone` fails and changes no task, or makes one. -/
theorem doExceptionUserEcall_cases {k' : Kernel} {regs : U64} (consistent : Consistent image roster)
    (homes : Stacks image roster.kernel.pages) (own : regs = taskPtRegs roster.kernel.current)
    (frame : CloneFrame roster.kernel.mem regs sp)
    (handled : roster.kernel.doExceptionUserEcall image others regs = k') :
    CloneFails image roster k' regs ∨ ∃ pid child, CloneMakes image roster k' regs
      (childSp sp (roster.kernel.mem (regs + ptSp))) pid child := by
  let entered : Roster := { roster with kernel := roster.kernel.syscallEntered regs }
  have table : Consistent image entered := consistent.withMem _
  have stacks' : Stacks image entered.kernel.pages := homes
  rw [Kernel.doExceptionUserEcall_clone frame] at handled
  -- Before the call `sepc` was moved, and nothing else that is captured.
  have sepcWord : entered.kernel.mem (regs + ptSepc) = roster.kernel.mem (regs + ptSepc) + 4 :=
    Kernel.syscallMem_sepc
  have words : ∀ slot : U64, slot ≠ ptSepc → slot ≠ ptOrigA0 →
      entered.kernel.mem (regs + slot) = roster.kernel.mem (regs + slot) :=
    fun slot notSepc notOrig => Kernel.syscallMem_field notSepc notOrig
  rcases entered.kernel.doFork_cases image 0 sp (roster.kernel.mem (regs + ptA2)) with
    ⟨failed, result⟩ | ⟨found, full, result⟩ | ⟨pid, found, empty, result⟩
  · -- No page: nothing but the frame is written.
    rw [result] at handled
    subst handled
    exact Or.inl ⟨Or.inl failed, table.payPage.withMem _, rfl,
      edited_result sepcWord words fun _ _ => rfl⟩
  · -- No pid: the page is lost, but it is not a page of a task.
    rw [result] at handled
    subst handled
    obtain ⟨_, apart⟩ := table.forkPage_apart stacks' found
    have slots : ∀ pid, roster.kernel.gTask pid ≠ 0 := Kernel.findEmptyTask_none full
    refine Or.inl ⟨Or.inr slots, (table.forkPage found).2.2.withMem _, rfl,
      edited_result sepcWord words fun slot within => ?_⟩
    apply Kernel.forkPage_outside
    rw [own]
    exact apart.frame_not_inPage within
  · rw [result] at handled
    subst handled
    obtain ⟨page, apart⟩ := table.forkPage_apart stacks' found
    obtain ⟨fresh, taken, cleared⟩ := table.forkPage found
    have free := Kernel.findEmptyTask_some empty
    -- The result goes into the frame of the caller, which is not in the page of the child.
    have kept : ∀ addr, InPage entered.kernel.pages.getFreePage.1 addr → addr ≠ regs + ptA0 := by
      rintro addr inside rfl
      rw [own] at inside
      exact apart.frame_not_inPage (by decide) inside
    refine Or.inr ⟨pid, entered.kernel.pages.getFreePage.1,
      (cleared.adopt 0 sp _ fresh taken free).withMem _, rfl, free, ?_, fresh, page,
      edited_result sepcWord words fun slot within => ?_, ?_, ?_, ?_⟩
    · -- The pid of the child is not zero, so the caller can tell the two apart.
      have other := cleared.pid_positive free
      exact Nat.pos_of_ne_zero fun zero => other (Fin.ext zero.symm)
    · apply Kernel.forkTask_outside
      rw [own]
      exact apart.frame_not_inPage within
    · exact copied_frame (by decide) apart own kept sepcWord words
    · exact (Function.update_of_ne (kept _ (inPage_add (by decide))) _ _).trans
        (copyThread_clone (by decide)).1
    · exact (Function.update_of_ne (kept _ (inPage_add (by decide))) _ _).trans
        (copyThread_clone (by decide)).2

end Outcome

end Benos
