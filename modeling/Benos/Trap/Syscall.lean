import Benos.Sched.Fork
import Benos.Trap.Vector

/-! System calls of `trap.c` and `syscall.c`, and the way to user space of `fork.c`. -/

namespace Benos

/-- `CAUSE_USER_ECALL`. -/
def causeUserEcall : U64 := 8

/-- `__NR_clone`. -/
def nrClone : U64 := 4

/-- `__NR_syscalls`. -/
def nrSyscalls : BitVec 32 := 6

def ptA1 : U64 := 88
def ptA2 : U64 := 96
def ptA7 : U64 := 136
def ptOrigA0 : U64 := 288

/-- `start_user_thread`, with the value `sstatus` is read as. -/
def startUserThread (mem : Memory) (regs pc sp sstatus : U64) : Memory :=
  let mem := mem.clear regs ptSize.toNat
  let mem := Function.update mem (regs + ptSepc) pc
  let mem := Function.update mem (regs + ptSp) sp
  Function.update mem (regs + ptSstatus) (sstatus &&& ~~~srSpp)

namespace Kernel

/-- `move_to_user_space`, which fails without a page for the user stack. -/
def moveToUserSpace (k : Kernel) (sstatus pc : U64) : Bool × Kernel :=
  let (stack, pages) := k.pages.getFreePage
  let k := { k with pages }
  if stack = 0 then (false, k)
  else
    let mem := k.mem.clear stack pageSize.toNat
    (true, { k with
      mem := startUserThread mem (taskPtRegs k.current) pc (stack + pageSize) sstatus })

/-- The result of `do_fork` as the `long` of a system call. -/
def forkResult : Option (Fin nrTask) → U64
  | some pid => BitVec.ofNat 64 pid.val
  | none => -1

/-- `__riscv_sys_clone`. -/
def sysClone (image : Image) (k : Kernel) (regs : U64) : U64 × Kernel :=
  let (pid, k) := k.doFork image (k.mem (regs + ptA0)) (k.mem (regs + ptA1)) (k.mem (regs + ptA2))
  (forkResult pid, k)

/-- `invoke_syscall`, where `others` are the entries of `syscall_table` besides clone. -/
def invokeSyscall (image : Image) (others : BitVec 32 → U64 → Kernel → U64 × Kernel) (k : Kernel)
    (regs : U64) (syscallNo : BitVec 32) : Kernel :=
  let (ret, k) :=
    if syscallNo.slt nrSyscalls then
      if syscallNo = nrClone.setWidth 32 then k.sysClone image regs else others syscallNo regs k
    else (-1, k)
  { k with mem := Function.update k.mem (regs + ptA0) ret }

/-- `riscv_svc_handler`, which is `riscv_syscall_common`. -/
def riscvSvcHandler (image : Image) (others : BitVec 32 → U64 → Kernel → U64 × Kernel) (k : Kernel)
    (regs : U64) : Kernel :=
  let syscallNo := (k.mem (regs + ptA7)).setWidth 32
  let k := { k with mem := Function.update k.mem (regs + ptOrigA0) (k.mem (regs + ptA0)) }
  k.invokeSyscall image others regs syscallNo

/-- `do_exception` in the case `CAUSE_USER_ECALL`. -/
def doExceptionUserEcall (image : Image) (others : BitVec 32 → U64 → Kernel → U64 × Kernel)
    (k : Kernel) (regs : U64) : Kernel :=
  -- The counter moves first, so that a child copies it moved.
  let k := { k with mem := Function.update k.mem (regs + ptSepc) (k.mem (regs + ptSepc) + 4) }
  k.riscvSvcHandler image others regs

end Kernel

end Benos
