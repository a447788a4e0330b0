import Benos.Sched.Task

/-! `do_fork` of `fork.c`, down to the words it writes into the stack page of the new task. -/

namespace Benos

/-! ### Offsets of `struct task_struct` and `struct pt_regs` -/

/-- `sizeof(struct task_struct)`. -/
def taskStructSize : Nat := 192

/-- `TASK_CPU_CONTEXT`. -/
def taskCpuContext : U64 := 0

/-- `sizeof(struct cpu_context)`. -/
def cpuContextSize : Nat := 112

/-- The offset of `cpu_context.ra`. -/
def contextRa : U64 := taskCpuContext

/-- The offset of `cpu_context.sp`. -/
def contextSp : U64 := taskCpuContext + 8

/-- The offset of `cpu_context.s[n]`. -/
def contextS (n : U64) : U64 := taskCpuContext + 16 + 8 * n

/-- `TASK_TI_KERNEL_SP`. -/
def taskTiKernelSp : U64 := 120

/-- `TASK_TI_USER_SP`. -/
def taskTiUserSp : U64 := 128

/-- `PT_SIZE`, which is `sizeof(struct pt_regs)`. -/
def ptSize : U64 := 296

def ptSepc : U64 := 0
def ptSp : U64 := 16
def ptGp : U64 := 24
def ptA0 : U64 := 80
def ptSstatus : U64 := 256

/-- `SR_SIE`. -/
def srSie : U64 := 0x2

/-- `SR_SPIE`. -/
def srSpie : U64 := 0x20

/-- `SR_SPP`. -/
def srSpp : U64 := 0x100

/-- `task_pt_regs`. -/
def taskPtRegs (tsk : U64) : U64 := tsk + threadSize - ptSize

/-- A structure assignment of the given number of bytes. -/
def Memory.copy (mem : Memory) (to_ from_ : U64) (bytes : Nat) : Memory :=
  fun addr => if (addr - to_).toNat < bytes then mem (from_ + (addr - to_)) else mem addr

/-- `copy_thread`, which cannot fail. -/
def copyThread (image : Image) (current gp cloneFlags p fn arg : U64) (mem : Memory) : Memory :=
  let childregs := taskPtRegs p
  let mem := mem.clear childregs ptSize.toNat
  let mem := mem.clear (p + taskCpuContext) cpuContextSize
  let mem :=
    if cloneFlags &&& pfKthread ≠ 0 then
      let mem := Function.update mem (childregs + ptGp) gp
      let mem := Function.update mem (childregs + ptSstatus) (srSpp ||| srSpie)
      let mem := Function.update mem (p + contextS 1) fn
      let mem := Function.update mem (p + contextS 2) arg
      Function.update mem (p + contextRa) image.retFromKernelThread
    else
      let mem := mem.copy childregs (taskPtRegs current) ptSize.toNat
      let mem := Function.update mem (childregs + ptA0) 0
      -- Without flags the argument `fn` is the top of the user stack, unless it is zero.
      let mem := if fn ≠ 0 then Function.update mem (childregs + ptSp) fn else mem
      Function.update mem (p + contextRa) image.retFromFork
  Function.update mem (p + contextSp) childregs

namespace Kernel

/-- `find_empty_task`. -/
def findEmptyTask (k : Kernel) : Option (Fin nrTask) :=
  (List.finRange nrTask).find? fun i => k.gTask i == 0

/-- `memset(p, 0, sizeof(*p))`. -/
def clearTask (k : Kernel) (p : U64) : Kernel :=
  { k with
    mem := k.mem.clear p taskStructSize
    preemptCount := Function.update k.preemptCount p 0
    needResched := Function.update k.needResched p 0
    state := Function.update k.state p 0
    pid := Function.update k.pid p 0
    counter := Function.update k.counter p 0
    priority := Function.update k.priority p 0
    nextTask := Function.update k.nextTask p 0
    prevTask := Function.update k.prevTask p 0
    next := Function.update k.next (.runList p) .null
    prev := Function.update k.prev (.runList p) .null }

/-- The assignments of `do_fork` between `copy_thread` and `SET_LINKS`. -/
def initTaskFields (k : Kernel) (p : U64) (pid : Fin nrTask) : Kernel :=
  { k with
    state := Function.update k.state p taskRunning
    pid := Function.update k.pid p (BitVec.ofNat 32 pid.val)
    counter := Function.update (Function.update k.counter p
      ((k.counter k.current + 1).sshiftRight 1)) k.current ((k.counter k.current).sshiftRight 1)
    needResched := Function.update k.needResched p 0
    preemptCount := Function.update k.preemptCount p 0
    priority := Function.update k.priority p 2
    totalForks := k.totalForks + 1
    gTask := Function.update k.gTask pid p }

/-- `do_fork`, where no pid stands for the result `-1`. -/
def doFork (image : Image) (k : Kernel) (cloneFlags fn arg : U64) : Option (Fin nrTask) × Kernel :=
  let (p, pages) := k.pages.getFreePage
  let k := { k with pages }
  if p = 0 then (none, k) else
    let k := k.clearTask p
    match k.findEmptyTask with
    -- The page is not given back.
    | none => (none, k)
    | some pid =>
      let k := { k with mem := copyThread image k.current k.gp cloneFlags p fn arg k.mem }
      let k := k.initTaskFields p pid
      let k := k.setLinks image p
      (some pid, k.wakeUpProcess p)

/-- The state in which `do_fork` looks for a pid: it has taken a page and cleared a task in it. -/
def forkPage (k : Kernel) : Kernel :=
  { k with pages := k.pages.getFreePage.2 }.clearTask k.pages.getFreePage.1

/-- The state after `do_fork` made a task of a page and a pid. -/
def forkTask (image : Image) (k : Kernel) (cloneFlags fn arg p : U64) (pid : Fin nrTask) : Kernel :=
  let k := { k with mem := copyThread image k.current k.gp cloneFlags p fn arg k.mem }
  ((k.initTaskFields p pid).setLinks image p).wakeUpProcess p

/-- A free slot is one without a task. -/
theorem findEmptyTask_some {k : Kernel} {pid : Fin nrTask} (found : k.findEmptyTask = some pid) :
    k.gTask pid = 0 := by
  simpa using List.find?_some found

/-- Without a free slot every slot holds a task. -/
theorem findEmptyTask_none {k : Kernel} (full : k.findEmptyTask = none) (pid : Fin nrTask) :
    k.gTask pid ≠ 0 := by
  simpa using List.find?_eq_none.mp full pid (List.mem_finRange pid)

/-- A pid is found just when a slot is free. -/
theorem findEmptyTask_isSome_iff {k : Kernel} :
    (∃ pid, k.findEmptyTask = some pid) ↔ ∃ pid, k.gTask pid = 0 := by
  -- The search goes over all slots.
  constructor
  · rintro ⟨pid, found⟩
    exact ⟨pid, findEmptyTask_some found⟩
  · rintro ⟨pid, free⟩
    cases found : k.findEmptyTask with
    | none => exact absurd free (findEmptyTask_none found pid)
    | some other => exact ⟨other, rfl⟩

/-- What `do_fork` can do: fail without a page, fail without a pid, or make a task. -/
theorem doFork_cases (image : Image) (k : Kernel) (cloneFlags fn arg : U64) :
    (k.pages.getFreePage.1 = 0 ∧
      k.doFork image cloneFlags fn arg = (none, { k with pages := k.pages.getFreePage.2 })) ∨
    (k.pages.getFreePage.1 ≠ 0 ∧ k.forkPage.findEmptyTask = none ∧
      k.doFork image cloneFlags fn arg = (none, k.forkPage)) ∨
    ∃ pid, k.pages.getFreePage.1 ≠ 0 ∧ k.forkPage.findEmptyTask = some pid ∧
      k.doFork image cloneFlags fn arg =
        (some pid, k.forkPage.forkTask image cloneFlags fn arg k.pages.getFreePage.1 pid) := by
  -- The page comes first; the slot is looked for with the page already taken.
  by_cases failed : k.pages.getFreePage.1 = 0
  · refine Or.inl ⟨failed, ?_⟩
    simp only [doFork, failed, if_true]
  · refine Or.inr ?_
    have cleared : { k with pages := k.pages.getFreePage.2 }.clearTask k.pages.getFreePage.1 =
        k.forkPage := rfl
    cases found : k.forkPage.findEmptyTask with
    | none =>
      refine Or.inl ⟨failed, rfl, ?_⟩
      simp only [doFork, failed, if_false, cleared, found]
    | some pid =>
      refine Or.inr ⟨pid, failed, rfl, ?_⟩
      simp only [doFork, failed, if_false, cleared, found, forkTask]

end Kernel

end Benos
