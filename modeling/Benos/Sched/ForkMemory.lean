import Benos.Sched.TaskPage

/-! What `do_fork` leaves in the memory: the saved context and the frame of the new task. -/

namespace Benos

/-- The frame of a task as an offset from the task. -/
theorem taskPtRegs_eq (p : U64) : taskPtRegs p = p + 3800 := by
  have size : threadSize = 4096 := rfl
  rw [taskPtRegs, size, ptSize]
  bv_omega

/-- The words of the frame of a task lie in its page. -/
theorem taskPtRegs_add (p offset : U64) : taskPtRegs p + offset = p + (3800 + offset) := by
  rw [taskPtRegs_eq, BitVec.add_assoc]

/-- Two memories that differ in one page at most. -/
def AgreeOutside (p : U64) (before after : Memory) : Prop :=
  ∀ addr, ¬ InPage p addr → after addr = before addr

namespace AgreeOutside

variable {p base : U64} {bytes : Nat} {before after : Memory}

theorem refl (p : U64) (mem : Memory) : AgreeOutside p mem mem := fun _ _ => rfl

theorem trans {middle : Memory} (first : AgreeOutside p before middle)
    (second : AgreeOutside p middle after) : AgreeOutside p before after :=
  fun addr outside => (second addr outside).trans (first addr outside)

/-- No part of a page holds an address outside the page. -/
theorem not_inside {addr : U64} (outside : ¬ InPage p addr) (within : base.toNat + bytes ≤ 4096) :
    ¬ (addr - (p + base)).toNat < bytes := by
  intro inside
  apply outside
  -- An address in the part is the page, the base and a little more.
  have split : addr - p = addr - (p + base) + base := by bv_omega
  rw [InPage, split, BitVec.toNat_add]
  omega

/-- Clearing part of the page. -/
theorem clear (agree : AgreeOutside p before after) (within : base.toNat + bytes ≤ 4096) :
    AgreeOutside p before (after.clear (p + base) bytes) := by
  intro addr outside
  rw [Memory.clear, if_neg (not_inside outside within)]
  exact agree addr outside

/-- Copying into part of the page. -/
theorem copy (agree : AgreeOutside p before after) (source : U64)
    (within : base.toNat + bytes ≤ 4096) :
    AgreeOutside p before (after.copy (p + base) source bytes) := by
  intro addr outside
  rw [Memory.copy, if_neg (not_inside outside within)]
  exact agree addr outside

/-- Writing a word of the page. -/
theorem update (agree : AgreeOutside p before after) (value : U64) (within : base.toNat < 4096) :
    AgreeOutside p before (Function.update after (p + base) value) := by
  intro addr outside
  -- The address that is written lies on the page.
  have other : addr ≠ p + base := by
    rintro rfl
    exact outside (inPage_add within)
  rw [Function.update_of_ne other]
  exact agree addr outside

/-- Writing a word of the frame at the top of the page. -/
theorem updateFrame (agree : AgreeOutside p before after) {offset : U64} (value : U64)
    (within : (3800 + offset).toNat < 4096) :
    AgreeOutside p before (Function.update after (taskPtRegs p + offset) value) := by
  rw [taskPtRegs_add]
  exact agree.update value within

end AgreeOutside

variable {image : Image} {current gp cloneFlags p fn arg : U64} {mem : Memory}

/-- The part of `copy_thread` before it looks at the flags writes into the new page only. -/
theorem copyThread_cleared (p : U64) (mem : Memory) :
    AgreeOutside p mem
      ((mem.clear (taskPtRegs p) ptSize.toNat).clear (p + taskCpuContext) cpuContextSize) := by
  rw [taskPtRegs_eq]
  exact ((AgreeOutside.refl p mem).clear (by decide)).clear (by decide)

/-- `copy_thread` writes into the page of the new task only. -/
theorem copyThread_outside :
    AgreeOutside p mem (copyThread image current gp cloneFlags p fn arg mem) := by
  have cleared := copyThread_cleared p mem
  rw [copyThread]
  apply AgreeOutside.update _ _ (by decide)
  split
  · -- A kernel thread gets two words of its frame and three of its context.
    apply AgreeOutside.update _ _ (by decide)
    apply AgreeOutside.update _ _ (by decide)
    apply AgreeOutside.update _ _ (by decide)
    apply AgreeOutside.updateFrame _ _ (by decide)
    exact cleared.updateFrame _ (by decide)
  · -- A clone gets the frame of its parent, two words of it replaced.
    apply AgreeOutside.update _ _ (by decide)
    have copied : AgreeOutside p mem
        (((mem.clear (taskPtRegs p) ptSize.toNat).clear (p + taskCpuContext) cpuContextSize).copy
          (taskPtRegs p) (taskPtRegs current) ptSize.toNat) := by
      rw [taskPtRegs_eq p] at cleared ⊢
      exact cleared.copy _ (by decide)
    split
    · apply AgreeOutside.updateFrame _ _ (by decide)
      exact copied.updateFrame _ (by decide)
    · exact copied.updateFrame _ (by decide)

/-- A word of the saved context is not a word of the frame. -/
theorem context_ne_frame {offset slot : U64} (context : offset.toNat < cpuContextSize)
    (frame : slot.toNat < ptSize.toNat) : p + offset ≠ taskPtRegs p + slot := by
  rw [taskPtRegs_add]
  intro same
  have offsets : offset = 3800 + slot := by simpa using same
  -- The context lies in the first 112 bytes of the page, the frame in the last 296.
  have values := congrArg BitVec.toNat offsets
  have size : cpuContextSize = 112 := rfl
  have frameSize : ptSize.toNat = 296 := rfl
  rw [BitVec.toNat_add] at values
  have start : (3800 : U64).toNat = 3800 := rfl
  omega

/-- A new kernel thread starts in `ret_from_kernel_thread` with its function and argument. -/
theorem copyThread_thread (thread : cloneFlags &&& pfKthread ≠ 0) :
    let after := copyThread image current gp cloneFlags p fn arg mem
    after (p + contextRa) = image.retFromKernelThread ∧ after (p + contextSp) = taskPtRegs p ∧
      after (p + contextS 1) = fn ∧ after (p + contextS 2) = arg := by
  intro after
  simp only [after, copyThread, if_pos thread]
  -- The last five assignments go to different words.
  refine ⟨?_, Function.update_self _ _ _, ?_, ?_⟩
  · rw [Function.update_of_ne (slot_ne (by decide)), Function.update_self]
  · rw [Function.update_of_ne (slot_ne (by decide)), Function.update_of_ne (slot_ne (by decide)),
      Function.update_of_ne (slot_ne (by decide)), Function.update_self]
  · rw [Function.update_of_ne (slot_ne (by decide)), Function.update_of_ne (slot_ne (by decide)),
      Function.update_self]

/-- A new clone starts in `ret_from_fork`. -/
theorem copyThread_clone (clone : cloneFlags &&& pfKthread = 0) :
    let after := copyThread image current gp cloneFlags p fn arg mem
    after (p + contextRa) = image.retFromFork ∧ after (p + contextSp) = taskPtRegs p := by
  intro after
  simp only [after, copyThread, if_neg (not_not.mpr clone)]
  refine ⟨?_, Function.update_self _ _ _⟩
  -- The two words are those of distinct fields.
  rw [Function.update_of_ne (slot_ne (by decide)), Function.update_self]

/--
The frame of a new clone is its parent's frame, with a zero result and, where the argument names
one, with another stack pointer.
-/
theorem copyThread_frame (clone : cloneFlags &&& pfKthread = 0) (pages : PagesApart current p)
    {slot : U64} (frame : slot.toNat < ptSize.toNat) :
    copyThread image current gp cloneFlags p fn arg mem (taskPtRegs p + slot) =
      if slot = ptA0 then 0
      else if fn ≠ 0 ∧ slot = ptSp then fn
      else mem (taskPtRegs current + slot) := by
  have noContext : ∀ offset : U64, offset.toNat < cpuContextSize →
      taskPtRegs p + slot ≠ p + offset := fun offset context =>
    (context_ne_frame context frame).symm
  -- The parent's frame is not in the page that was cleared.
  have source : ((mem.clear (taskPtRegs p) ptSize.toNat).clear (p + taskCpuContext) cpuContextSize)
      (taskPtRegs current + slot) = mem (taskPtRegs current + slot) := by
    apply copyThread_cleared p mem
    rw [taskPtRegs_add]
    apply pages.not_inPage
    have frameSize : ptSize.toNat = 296 := rfl
    have start : (3800 : U64).toNat = 3800 := rfl
    rw [BitVec.toNat_add]
    omega
  -- The copy takes the parent's word of the same slot.
  have copied : (((mem.clear (taskPtRegs p) ptSize.toNat).clear (p + taskCpuContext)
      cpuContextSize).copy (taskPtRegs p) (taskPtRegs current) ptSize.toNat)
      (taskPtRegs p + slot) = mem (taskPtRegs current + slot) := by
    have same : taskPtRegs p + slot - taskPtRegs p = slot := by bv_omega
    rw [Memory.copy, same, if_pos frame]
    exact source
  simp only [copyThread, if_neg (not_not.mpr clone)]
  rw [Function.update_of_ne (noContext _ (by decide)), Function.update_of_ne (noContext _ (by decide))]
  -- The two stores behind the copy go to the result and to the stack pointer.
  by_cases result : slot = ptA0
  · subst result
    rw [if_pos rfl]
    split
    · rw [Function.update_of_ne (slot_ne (by decide)), Function.update_self]
    · rw [Function.update_self]
  · rw [if_neg result]
    by_cases stack : fn ≠ 0
    · rw [if_pos stack]
      by_cases pointer : slot = ptSp
      · rw [if_pos ⟨stack, pointer⟩, pointer, Function.update_self]
      · rw [if_neg fun both => pointer both.2, Function.update_of_ne (slot_ne pointer),
          Function.update_of_ne (slot_ne result)]
        exact copied
    · rw [if_neg stack, if_neg fun both => stack both.1, Function.update_of_ne (slot_ne result)]
      exact copied

namespace Kernel

variable {k : Kernel}

/-- The page is cleared at its bottom when `do_fork` looks for a pid. -/
theorem forkPage_outside : AgreeOutside k.pages.getFreePage.1 k.mem k.forkPage.mem := by
  intro addr outside
  have apart : ¬ (addr - k.pages.getFreePage.1).toNat < taskStructSize := fun inside =>
    outside (inside.trans_le (by decide))
  exact if_neg apart

/-- The memory of the new task is what `copy_thread` makes of its page. -/
theorem forkTask_mem (pid : Fin nrTask) :
    (k.forkPage.forkTask image cloneFlags fn arg p pid).mem =
      copyThread image k.current k.gp cloneFlags p fn arg k.forkPage.mem := rfl

/-- The whole of `do_fork` writes into the new page only. -/
theorem forkTask_outside (pid : Fin nrTask) :
    AgreeOutside k.pages.getFreePage.1 k.mem
      (k.forkPage.forkTask image cloneFlags fn arg k.pages.getFreePage.1 pid).mem :=
  forkPage_outside.trans copyThread_outside

end Kernel

end Benos
