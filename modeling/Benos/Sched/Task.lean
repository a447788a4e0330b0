import Benos.Machine.Memory
import Benos.Mm.PageAlloc

/-!
The data of `sched.h` and `list.h`.

The fields that only C code touches are arrays indexed by the object they belong to. What assembly
reads as well, the saved contexts and the stack frames, stays in the physical memory.
-/

namespace Benos

/-- `NR_TASK`. -/
def nrTask : Nat := 128

/-- `THREAD_SIZE`. -/
def threadSize : U64 := 1 * pageSize

/-- `DEF_COUNTER`. -/
def defCounter : BitVec 32 := 10

/-- `PF_KTHREAD`. -/
def pfKthread : U64 := 1 <<< 0

/-- `TASK_RUNNING`. -/
def taskRunning : BitVec 32 := 0

/-- A pointer to a `struct list_head`, told by the object it is embedded in. -/
inductive ListNode where
  | null
  /-- `&g_rq.rq_head`. -/
  | rqHead
  /-- `&p->run_list`. -/
  | runList (p : U64)
  /-- `LIST_POISON1`. -/
  | poison1
  /-- `LIST_POISON2`. -/
  | poison2
  deriving DecidableEq

/-- The addresses the linker fixes. -/
structure Image where
  /-- `&init_task`. -/
  initTask : U64
  retFromKernelThread : U64
  retFromFork : U64

/-- The state of the scheduler, and the two registers its C code reads. -/
structure Kernel where
  mem : Memory
  pages : PageAlloc
  gTask : Fin nrTask → U64
  totalForks : U64
  preemptCount : U64 → BitVec 32
  needResched : U64 → BitVec 32
  state : U64 → BitVec 32
  pid : U64 → BitVec 32
  counter : U64 → BitVec 32
  priority : U64 → BitVec 32
  nextTask : U64 → U64
  prevTask : U64 → U64
  /-- The `next` fields of all list heads. -/
  next : ListNode → ListNode
  /-- The `prev` fields of all list heads. -/
  prev : ListNode → ListNode
  nrRunning : BitVec 32
  nrSwitches : U64
  rqCurr : U64
  /-- `current`, which is the register `tp`. -/
  current : U64
  gp : U64

namespace Kernel

/-- `__list_add`. -/
def listAddBetween (k : Kernel) (new prev next : ListNode) : Kernel :=
  { k with
    next := Function.update (Function.update k.next new next) prev new
    prev := Function.update (Function.update k.prev next new) new prev }

/-- `list_add`. -/
def listAdd (k : Kernel) (new head : ListNode) : Kernel :=
  k.listAddBetween new head (k.next head)

/-- `__list_del`. -/
def listDelBetween (k : Kernel) (prev next : ListNode) : Kernel :=
  { k with next := Function.update k.next prev next, prev := Function.update k.prev next prev }

/-- `list_del`. -/
def listDel (k : Kernel) (entry : ListNode) : Kernel :=
  let k := k.listDelBetween (k.prev entry) (k.next entry)
  -- The node that was taken out is poisoned.
  { k with
    next := Function.update k.next entry .poison1
    prev := Function.update k.prev entry .poison2 }

/-- `SET_LINKS`. -/
def setLinks (image : Image) (k : Kernel) (p : U64) : Kernel :=
  -- The new task goes between the last one and `init_task`.
  let k := { k with nextTask := Function.update k.nextTask p image.initTask }
  let k := { k with prevTask := Function.update k.prevTask p (k.prevTask image.initTask) }
  let k := { k with nextTask := Function.update k.nextTask (k.prevTask image.initTask) p }
  { k with prevTask := Function.update k.prevTask image.initTask p }

/-- `enqueue_task`, which is `enqueue_task_simple`. -/
def enqueueTask (k : Kernel) (p : U64) : Kernel :=
  -- The task becomes the first of the queue.
  let k := k.listAdd (.runList p) .rqHead
  { k with nrRunning := k.nrRunning + 1 }

/-- `dequeue_task`, which is `dequeue_task_simple`. -/
def dequeueTask (k : Kernel) (p : U64) : Kernel :=
  { k with nrRunning := k.nrRunning - 1 }.listDel (.runList p)

/-- `wake_up_process`. -/
def wakeUpProcess (k : Kernel) (p : U64) : Kernel :=
  { k with state := Function.update k.state p taskRunning }.enqueueTask p

/-- `sched_init`. -/
def schedInit (k : Kernel) : Kernel :=
  { k with
    next := Function.update k.next .rqHead .rqHead
    prev := Function.update k.prev .rqHead .rqHead
    nrRunning := 0
    nrSwitches := 0
    rqCurr := 0 }

end Kernel

end Benos
