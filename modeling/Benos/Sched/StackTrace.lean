import Benos.Sched.ForkMemory
import Mathlib.Data.List.TakeWhile

/-!
`walk_stackframe` of `stacktrace.c`, and what it finds on the stack of a kernel thread.

What it prints is left out, except for the addresses that it passes to its callback.
-/

namespace Benos

/-- `kernel_text`, from the two symbols of the linker. -/
def kernelText (text etext addr : U64) : Bool := text ≤ addr ∧ addr < etext

/-- The local variables of `walk_stackframe`, and the frame that they name. -/
structure Walk where
  pc : U64
  sp : U64
  fp : U64
deriving DecidableEq

namespace Walk

/-- The end of the loop: one frame up, where `struct stackframe` lies below the frame pointer. -/
def up (mem : Memory) (w : Walk) : Walk where
  pc := mem (w.fp - 16 + 8) - 0x4
  sp := w.fp
  fp := mem (w.fp - 16)

/-- The frame pointer is not taken for one. -/
def Invalid (w : Walk) : Prop := w.fp < w.sp + 16 ∨ w.fp &&& 0xf ≠ 0

instance (w : Walk) : Decidable w.Invalid := inferInstanceAs (Decidable (_ ∨ _))

end Walk

/-- The loop of `walk_stackframe`: the addresses that are passed to `fn`, in order. -/
def walkStackframe (text etext : U64) (fn : U64 → Bool) (mem : Memory) : Nat → Walk → Option (List U64)
  | 0, _ => none
  | fuel + 1, w =>
    if ¬ kernelText text etext w.pc then some []
    else if fn w.pc then some [w.pc]
    else if w.Invalid then some [w.pc]
    else (walkStackframe text etext fn mem fuel (w.up mem)).map (w.pc :: ·)

/-- `print_trace_address`, which never asks to stop. -/
def printTraceAddress (_ : U64) : Bool := false

/-! ### Chains of calls -/

/-- A call: its frame in units of sixteen bytes, and where it returns to. -/
structure Call where
  frame : Nat
  ra : U64

/--
A chain of calls, the innermost first, on a stack that is empty at `start` with the frame pointer
`outer`: above each frame pointer is the frame of the caller, below it what the call has saved.
-/
def CallChain (mem : Memory) (start outer : U64) : List Call → U64 → U64 → Prop
  | [], sp, fp => sp = start ∧ fp = outer
  | call :: callers, sp, fp =>
    0 < call.frame ∧ fp.toNat = sp.toNat + 16 * call.frame ∧ mem (fp - 8) = call.ra ∧
      CallChain mem start outer callers fp (mem (fp - 16))

section

variable {text etext : U64} {mem : Memory} {start outer : U64}

/-- Frames of multiples of sixteen bytes leave the alignment of the stack pointer as it was. -/
theorem CallChain.aligned {calls : List Call} {sp fp : U64}
    (chain : CallChain mem start outer calls sp fp) : sp.toNat % 16 = start.toNat % 16 := by
  induction calls generalizing sp fp with
  | nil => rw [chain.1]
  | cons call callers ih =>
    obtain ⟨_, above, _, callers⟩ := chain
    -- The frame pointer is the stack pointer of the caller.
    have := ih callers
    omega

/-- The mask asks for a multiple of sixteen. -/
theorem and_mask_eq_zero_iff (fp : U64) : fp &&& 0xf = 0 ↔ fp.toNat % 16 = 0 := by
  have low : (fp &&& 0xf).toNat = fp.toNat % 16 := Word.and_low_toNat fp 4 (by omega)
  -- The mask keeps the remainder.
  rw [← low]
  exact ⟨fun zero => by rw [zero]; rfl, fun zero => BitVec.eq_of_toNat_eq zero⟩

/-- The frame of a call is taken for one exactly if the stack began at a multiple of sixteen. -/
theorem CallChain.invalid_iff {call : Call} {callers : List Call} {pc sp fp : U64}
    (chain : CallChain mem start outer (call :: callers) sp fp) :
    (Walk.mk pc sp fp).Invalid ↔ start.toNat % 16 ≠ 0 := by
  obtain ⟨frame, above, _, callers⟩ := chain
  have same := callers.aligned
  -- A frame has a unit at least, so the frame pointer is far enough above.
  have room : ¬ fp < sp + 16 := by
    have := fp.isLt
    rw [BitVec.not_lt, BitVec.le_def, BitVec.toNat_add]
    show (sp.toNat + 16) % 2 ^ 64 ≤ fp.toNat
    omega
  show fp < sp + 16 ∨ fp &&& 0xf ≠ 0 ↔ _
  rw [or_iff_right room, ne_eq, and_mask_eq_zero_iff, same]

/-- Where the frame pointer is not taken for one, the walk passes its address if it is one. -/
theorem walkStackframe_invalid {w : Walk} (invalid : w.Invalid) (fuel : Nat) :
    walkStackframe text etext printTraceAddress mem (fuel + 1) w =
      some ([w.pc].takeWhile (kernelText text etext)) := by
  rw [walkStackframe, List.takeWhile_cons]
  -- An address outside of the kernel is not passed, and one in it is the last.
  by_cases inText : kernelText text etext w.pc = true
  · rw [if_neg (not_not_intro inText), if_neg (by simp [printTraceAddress]), if_pos invalid, inText]
    rfl
  · rw [if_pos inText, if_neg inText]

/-- The walk passes the addresses of a chain up to the first one outside of the kernel. -/
theorem walkStackframe_eq (aligned : start.toNat % 16 = 0) (ends : outer < start + 16)
    {calls : List Call} {pc sp fp : U64} (chain : CallChain mem start outer calls sp fp) {fuel : Nat}
    (enough : calls.length < fuel) :
    walkStackframe text etext printTraceAddress mem fuel ⟨pc, sp, fp⟩ =
      some ((pc :: calls.map fun call => call.ra - 4).takeWhile (kernelText text etext)) := by
  induction calls generalizing pc sp fp fuel with
  -- No call is left, and the outermost frame pointer is too low.
  | nil =>
    obtain ⟨fuel, rfl⟩ := Nat.exists_eq_add_of_le' enough
    obtain ⟨rfl, rfl⟩ := chain
    exact walkStackframe_invalid (Or.inl ends) fuel
  | cons call callers ih =>
    obtain ⟨fuel, rfl⟩ := Nat.exists_eq_add_of_le' (Nat.lt_of_le_of_lt (Nat.zero_le _) enough)
    have valid : ¬ (Walk.mk pc sp fp).Invalid := fun invalid => chain.invalid_iff.mp invalid aligned
    obtain ⟨_, _, ra, callers⟩ := chain
    rw [walkStackframe, List.takeWhile_cons]
    by_cases inText : kernelText text etext pc = true
    · -- The return address is the second word of the frame.
      have above : fp - 16 + 8 = fp - 8 := by bv_omega
      rw [if_neg (not_not_intro inText), if_neg (by simp [printTraceAddress]), if_neg valid, Walk.up]
      dsimp only
      rw [above, ra, ih callers (Nat.lt_of_succ_lt_succ enough), inText]
      rfl
    · rw [if_pos inText, if_neg inText]

/-- The walk ends, and it has passed the innermost address and every return address minus four. -/
def WalksAll (text etext : U64) (mem : Memory) (calls : List Call) (pc sp fp : U64) : Prop :=
  ∃ bound, ∀ fuel ≥ bound, walkStackframe text etext printTraceAddress mem fuel ⟨pc, sp, fp⟩ =
    some (pc :: calls.map fun call => call.ra - 4)

/--
The walk is complete exactly if there is no call, or the stack began at a multiple of sixteen and
all addresses are in the kernel.
-/
theorem walksAll_iff (ends : outer < start + 16) {calls : List Call} {pc sp fp : U64}
    (chain : CallChain mem start outer calls sp fp) (running : kernelText text etext pc = true) :
    WalksAll text etext mem calls pc sp fp ↔
      calls = [] ∨ start.toNat % 16 = 0 ∧ ∀ call ∈ calls, kernelText text etext (call.ra - 4) = true := by
  cases calls with
  | nil =>
    refine iff_of_true ⟨1, fun fuel enough => ?_⟩ (Or.inl rfl)
    obtain ⟨fuel, rfl⟩ := Nat.exists_eq_add_of_le' enough
    -- Without a call the frame pointer is the outermost one.
    have invalid : (Walk.mk pc sp fp).Invalid := by
      obtain ⟨rfl, rfl⟩ := chain
      exact Or.inl ends
    rw [walkStackframe_invalid invalid, List.takeWhile_cons, if_pos running]
    rfl
  | cons call callers =>
    rw [or_iff_right (List.cons_ne_nil _ _)]
    by_cases aligned : start.toNat % 16 = 0
    · -- The walk stops nowhere exactly if every address is in the kernel.
      have whole : (pc :: (call :: callers).map fun c => c.ra - 4).takeWhile (kernelText text etext) =
            (pc :: (call :: callers).map fun c => c.ra - 4) ↔
          ∀ c ∈ call :: callers, kernelText text etext (c.ra - 4) = true := by
        rw [List.takeWhile_eq_self_iff, List.forall_mem_cons, List.forall_mem_map]
        exact and_iff_right running
      rw [and_iff_right aligned, ← whole]
      constructor
      · rintro ⟨bound, all⟩
        have passed := all (max bound ((call :: callers).length + 1)) (Nat.le_max_left _ _)
        rw [walkStackframe_eq aligned ends chain (Nat.le_max_right bound _)] at passed
        exact Option.some_inj.mp passed
      · intro all
        refine ⟨(call :: callers).length + 1, fun fuel enough => ?_⟩
        rw [walkStackframe_eq aligned ends chain enough, all]
    · -- The first frame pointer is not a multiple of sixteen either, and the walk ends there.
      refine iff_of_false ?_ fun both => aligned both.1
      rintro ⟨bound, all⟩
      have stopped := all (bound + 1) (Nat.le_succ _)
      rw [walkStackframe_invalid (chain.invalid_iff.mpr aligned), List.takeWhile_cons, if_pos running]
        at stopped
      cases stopped

end

/-! ### Kernel threads -/

variable {image : Image} {current gp cloneFlags p fn arg : U64} {mem : Memory}

/-- The frame pointer of a new kernel thread is zero. -/
theorem copyThread_fp (thread : cloneFlags &&& pfKthread ≠ 0) :
    copyThread image current gp cloneFlags p fn arg mem (p + contextS 0) = 0 := by
  have frame {slot : U64} (inside : slot.toNat < ptSize.toNat) : p + contextS 0 ≠ taskPtRegs p + slot :=
    context_ne_frame (by decide) inside
  simp only [copyThread, if_pos thread]
  rw [Function.update_of_ne (slot_ne (by decide)), Function.update_of_ne (slot_ne (by decide)),
    Function.update_of_ne (slot_ne (by decide)), Function.update_of_ne (slot_ne (by decide)),
    Function.update_of_ne (frame (by decide)), Function.update_of_ne (frame (by decide))]
  -- The whole context was cleared, and nothing has set this word since.
  have inside : p + contextS 0 - (p + taskCpuContext) = 16 := by
    rw [contextS, taskCpuContext]
    bv_omega
  refine if_pos ?_
  rw [inside]
  decide

namespace Kernel

variable {k after : Kernel} {pid : Fin nrTask}

/-- What `do_fork` leaves for a kernel thread to begin with, on a page of its own. -/
theorem doFork_thread (homes : Homes image k.pages) (thread : cloneFlags &&& pfKthread ≠ 0)
    (forked : k.doFork image cloneFlags fn arg = (some pid, after)) :
    (after.gTask pid).toNat % 4096 = 0 ∧
      after.mem (after.gTask pid + contextSp) = taskPtRegs (after.gTask pid) ∧
      after.mem (after.gTask pid + contextS 0) = 0 := by
  rcases k.doFork_cases image cloneFlags fn arg with
    ⟨_, failed⟩ | ⟨_, _, failed⟩ | ⟨slot, page, _, made⟩
  · rw [failed] at forked
    cases forked
  · rw [failed] at forked
    cases forked
  · rw [made] at forked
    obtain ⟨same, rfl⟩ := Prod.mk.inj forked
    obtain rfl := Option.some_inj.mp same
    have task : (k.forkPage.forkTask image cloneFlags fn arg k.pages.getFreePage.1 slot).gTask slot =
        k.pages.getFreePage.1 := Function.update_self _ _ _
    have start := (k.pages.getFreePage_keeps).1
    -- The page was free, and free pages are whole ones.
    have aligned := ((homes.congr start).taken_toNat (PageAlloc.getFreePage_taken page).2).2.2
    rw [task, forkTask_mem]
    exact ⟨aligned, (copyThread_thread thread).2.1, copyThread_fp thread⟩

/--
The walk over the stack of a kernel thread is complete exactly if there is no call on it: the stack
begins eight bytes beside a multiple of sixteen, as `struct pt_regs` has an odd number of words.
-/
theorem walkStackframe_thread_iff (homes : Homes image k.pages)
    (thread : cloneFlags &&& pfKthread ≠ 0)
    (forked : k.doFork image cloneFlags fn arg = (some pid, after)) {text etext : U64} {mem : Memory}
    {calls : List Call} {pc sp fp : U64}
    (chain : CallChain mem (after.mem (after.gTask pid + contextSp))
      (after.mem (after.gTask pid + contextS 0)) calls sp fp)
    (running : kernelText text etext pc = true) :
    WalksAll text etext mem calls pc sp fp ↔ calls = [] := by
  obtain ⟨aligned, start, outer⟩ := doFork_thread homes thread forked
  rw [start, outer] at chain
  -- The registers take 296 bytes at the end of the page.
  have begins : (taskPtRegs (after.gTask pid)).toNat % 16 = 8 := by
    have := (after.gTask pid).isLt
    rw [taskPtRegs_eq, BitVec.toNat_add]
    show ((after.gTask pid).toNat + 3800) % 2 ^ 64 % 16 = 8
    omega
  -- A frame pointer of zero is below every stack.
  have ends : 0 < taskPtRegs (after.gTask pid) + 16 := by
    have := (after.gTask pid).isLt
    rw [taskPtRegs_eq, BitVec.lt_def, BitVec.toNat_add, BitVec.toNat_add]
    show 0 < (((after.gTask pid).toNat + 3800) % 2 ^ 64 + 16) % 2 ^ 64
    omega
  rw [walksAll_iff ends chain running, or_iff_left fun both => absurd both.1 (by omega)]

end Kernel

/-- The first kernel thread gets the first page. -/
theorem exampleKernel_doFork : ∃ pid after,
    exampleKernel.doFork exampleImage pfKthread 0x80200600 0 = (some pid, after) ∧
      after.gTask pid = 0x80300000 := by
  rcases exampleKernel.doFork_cases exampleImage pfKthread 0x80200600 0 with
    ⟨failed, _⟩ | ⟨_, full, _⟩ | ⟨pid, _, _, made⟩
  · rw [exampleKernel_page] at failed
    exact absurd failed (by decide)
  · -- Only the first slot is filled.
    exact absurd rfl (Kernel.findEmptyTask_none full ⟨1, by decide⟩)
  · exact ⟨pid, _, made, (Function.update_self _ _ _).trans exampleKernel_page⟩

/-- With no call on its stack the walk passes the address at which the thread is. -/
theorem walkStackframe_thread_start : ∃ pid after,
    exampleKernel.doFork exampleImage pfKthread 0x80200600 0 = (some pid, after) ∧
      WalksAll 0x80200000 0x80201000 (fun _ => 0) [] 0x80200600
        (after.mem (after.gTask pid + contextSp)) (after.mem (after.gTask pid + contextS 0)) := by
  obtain ⟨pid, after, forked, _⟩ := exampleKernel_doFork
  have chain : CallChain (fun _ => 0) (after.mem (after.gTask pid + contextSp))
      (after.mem (after.gTask pid + contextS 0)) [] _ _ := ⟨rfl, rfl⟩
  refine ⟨pid, after, forked, ?_⟩
  exact (Kernel.walkStackframe_thread_iff exampleKernel_homes (by decide) forked chain
    (by decide)).mpr rfl

/-- The stack of a thread whose function has called another one, with a frame of two units. -/
def exampleStack : Memory := Function.update (fun _ => 0) 0x80300ed0 0x80200604

/-- With one call on it the walk passes the address in the called function and nothing else. -/
theorem walkStackframe_thread_call :
    ¬ ∀ (image : Image) (k after : Kernel) (cloneFlags fn arg : U64) (pid : Fin nrTask)
      (text etext : U64) (mem : Memory) (calls : List Call) (pc sp fp : U64),
      Homes image k.pages → cloneFlags &&& pfKthread ≠ 0 →
      k.doFork image cloneFlags fn arg = (some pid, after) →
      CallChain mem (after.mem (after.gTask pid + contextSp))
        (after.mem (after.gTask pid + contextS 0)) calls sp fp →
      (after.gTask pid).toNat + taskStructSize ≤ sp.toNat →
      kernelText text etext pc = true → (∀ call ∈ calls, kernelText text etext call.ra = true) →
      WalksAll text etext mem calls pc sp fp := by
  intro complete
  obtain ⟨pid, after, forked, task⟩ := exampleKernel_doFork
  have homes := exampleKernel_homes
  obtain ⟨_, start, outer⟩ := Kernel.doFork_thread homes (by decide) forked
  have chain : CallChain exampleStack (after.mem (after.gTask pid + contextSp))
      (after.mem (after.gTask pid + contextS 0)) [⟨2, 0x80200604⟩] 0x80300eb8 0x80300ed8 := by
    rw [start, outer, task]
    exact ⟨by decide, by decide, by decide, by decide, by decide⟩
  have walked := complete exampleImage exampleKernel after pfKthread 0x80200600 0 pid 0x80200000
    0x80201000 exampleStack _ 0x80200700 0x80300eb8 0x80300ed8 homes (by decide) forked chain
    (by rw [task]; decide) (by decide) (by decide)
  obtain ⟨bound, all⟩ := walked
  -- The frame pointer is eight bytes beside a multiple of sixteen.
  have stopped := all (bound + 1) (Nat.le_succ _)
  have invalid : (Walk.mk 0x80200700 0x80300eb8 0x80300ed8).Invalid := by decide
  rw [walkStackframe_invalid invalid] at stopped
  exact absurd stopped (by decide)

end Benos
