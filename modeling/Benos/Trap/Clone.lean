import Benos.Sched.ProcessTable
import Benos.Trap.UserLife

/-! `clone` from the `ecall` of the parent to the first instructions of the child. -/

namespace Benos

/-! ### User code -/

/-- `__clone` up to its `ecall`. -/
def clonePrologue (h : Hart) : Option Hart :=
  Hart.execs [.addi .a1 .a1 (-16), .sd .a0 0 .a1, .sd .a3 8 .a1, .mv .a0 .a2, .li .a7 nrClone] h

/-- `thread_start` up to the call, which returns to the address `ret`. -/
def threadStart (ret : U64) (h : Hart) : Option Hart := do
  let h ← Hart.execs [.ld .a1 0 .sp, .ld .a0 8 .sp] h
  -- `jalr a1`
  some { h.set .ra ret with pc := h.get .a1 }

/-- `__clone` from its `ecall` on. -/
def cloneEpilogue (ret : U64) (h : Hart) : Option Hart :=
  -- `beqz a0, thread_start`
  if h.get .a0 = 0 then threadStart ret h else some { h with pc := h.get .ra }

/-- `ret_from_fork` up to its jump to `schedule_tail`. -/
def retFromFork (text : TrapText) (h : Hart) : Hart := h.set .ra text.retFromException

/-- The `ecall` of `__clone` without flags. -/
structure CloneCall (childStack : U64) (h : Hart) : Prop where
  flags : h.get .a0 = 0
  stack : h.get .a1 = childStack - 16
  number : h.get .a7 = nrClone

/-- `__clone` gets to its `ecall` with the function and its argument on the stack of the child. -/
theorem clonePrologue_calls {h : Hart} {childStack : U64} (aligned : Aligned childStack)
    (stack : h.get .a1 = childStack) (flags : h.get .a2 = 0) :
    ∃ h', clonePrologue h = some h' ∧ CloneCall childStack h' ∧
      h'.mem (childStack - 16) = h.get .a0 ∧ h'.mem (childStack - 8) = h.get .a3 := by
  have lower : childStack + -16 = childStack - 16 := (BitVec.sub_eq_add_neg _ _).symm
  have upper : childStack - 16 + 8 = childStack - 8 := by bv_omega
  -- The two words are below the stack that the caller gives.
  have based : Aligned (childStack - 16) := by
    rw [← lower]
    exact aligned.add (by decide)
  let lowered := h.set .a1 (childStack - 16)
  have pointer : lowered.get .a1 = childStack - 16 := Hart.get_set_self _ _ (by decide)
  have others : ∀ r, r ≠ .a1 → lowered.get r = h.get r := fun r other =>
    Hart.get_set_of_ne _ _ other
  -- The two stores go to the two words below the top of the stack.
  obtain ⟨h₁, stored, same, written, _⟩ := Hart.execs_stores .a1 [(.a0, 0), (.a3, 8)] lowered
    (pointer.symm ▸ based) (by decide) (by decide)
  rw [pointer] at written
  have fn : h₁.mem (childStack - 16) = h.get .a0 := by
    have word : h₁.mem (childStack - 16 + 0) = lowered.get .a0 := written (.a0, 0) (by decide)
    rw [show childStack - 16 + 0 = childStack - 16 by simp] at word
    exact word.trans (others .a0 (by decide))
  have arg : h₁.mem (childStack - 8) = h.get .a3 := by
    have word := written (.a3, 8) (by decide)
    rw [upper] at word
    exact word.trans (others .a3 (by decide))
  have first : Hart.exec (.addi .a1 .a1 (-16)) h = some lowered := by
    rw [Hart.exec, stack, lower]
  let called := (h₁.set .a0 (h₁.get .a2)).set .a7 nrClone
  have ran : clonePrologue h = some called := by
    have split : [Instr.addi .a1 .a1 (-16), .sd .a0 0 .a1, .sd .a3 8 .a1, .mv .a0 .a2,
        .li .a7 nrClone] = .addi .a1 .a1 (-16) :: (stores .a1 [(.a0, 0), (.a3, 8)] ++
        [.mv .a0 .a2, .li .a7 nrClone]) := rfl
    rw [clonePrologue, split, Hart.execs_cons, first, Option.bind_some, Hart.execs_append, stored]
    rfl
  have mem : called.mem = h₁.mem := (Hart.mem_set _ _ _).trans (Hart.mem_set _ _ _)
  refine ⟨called, ran, ⟨?_, ?_, Hart.get_set_self _ _ (by decide)⟩, mem ▸ fn, mem ▸ arg⟩
  · rw [Hart.get_set_of_ne _ _ (by decide), Hart.get_set_self _ _ (by decide), same.get,
      others .a2 (by decide), flags]
  · rw [Hart.get_set_of_ne _ _ (by decide), Hart.get_set_of_ne _ _ (by decide), same.get, pointer]

/-- With a zero result `__clone` goes on in `thread_start`, which calls the function. -/
theorem cloneEpilogue_child {h : Hart} {sp : U64} (ret : U64) (result : h.get .a0 = 0)
    (stack : h.get .sp = sp) (aligned : Aligned sp) :
    ∃ h', cloneEpilogue ret h = some h' ∧ h'.pc = h.mem sp ∧ h'.get .a0 = h.mem (sp + 8) := by
  -- The child gets zero, and finds the function and its argument on its stack.
  obtain ⟨g, loaded, same, filled, _⟩ := Hart.execs_loads .sp [(.a1, 0), (.a0, 8)] h
    (stack.symm ▸ aligned) (by decide) (by decide) (by decide) (by decide)
  rw [stack] at filled
  refine ⟨{ g.set .ra ret with pc := g.get .a1 }, ?_, ?_, ?_⟩
  · rw [cloneEpilogue, if_pos result]
    exact Hart.chain loaded rfl
  · have word : g.get .a1 = h.mem (sp + 0) := filled (.a1, 0) (by decide)
    rw [show sp + 0 = sp by simp] at word
    exact word
  · have other : Reg.a0 ≠ .ra := by decide
    exact (Hart.get_set_of_ne g ret other).trans (filled (.a0, 8) (by decide))

/-- With any other result `__clone` returns to its caller. -/
theorem cloneEpilogue_parent {h : Hart} (ret : U64) (result : h.get .a0 ≠ 0) :
    cloneEpilogue ret h = some { h with pc := h.get .ra } := if_neg result

/-! ### The two frames -/

/-- User code behind a system call, with its result and perhaps another stack pointer. -/
def Hart.syscallReturn (h : Hart) (value sp : U64) : Hart :=
  { (h.set .a0 value).set .sp sp with pc := h.pc + 4 }

section SyscallReturn

variable (h : Hart) (value sp : U64)

@[simp] theorem Hart.syscallReturn_a0 : (h.syscallReturn value sp).get .a0 = value := by
  have other : Reg.a0 ≠ .sp := by decide
  exact (Hart.get_set_of_ne _ sp other).trans (Hart.get_set_self h value (by decide))

@[simp] theorem Hart.syscallReturn_stack : (h.syscallReturn value sp).get .sp = sp :=
  Hart.get_set_self (h.set .a0 value) sp (by decide)

@[simp] theorem Hart.syscallReturn_of_ne {r : Reg} (notA0 : r ≠ .a0) (notSp : r ≠ .sp) :
    (h.syscallReturn value sp).get r = h.get r :=
  (Hart.get_set_of_ne _ _ notSp).trans (Hart.get_set_of_ne _ _ notA0)

@[simp] theorem Hart.syscallReturn_csr : (h.syscallReturn value sp).csr = h.csr :=
  (Hart.csr_set _ _ _).trans (Hart.csr_set _ _ _)

@[simp] theorem Hart.syscallReturn_supervisor :
    (h.syscallReturn value sp).supervisor = h.supervisor :=
  (Hart.supervisor_set _ _ _).trans (Hart.supervisor_set _ _ _)

@[simp] theorem Hart.syscallReturn_virt : (h.syscallReturn value sp).virt = h.virt :=
  (Hart.virt_set _ _ _).trans (Hart.virt_set _ _ _)

end SyscallReturn

/-- A frame made of another one: a result, a stack pointer and a counter of its own. -/
structure Edited (mem mem' : Memory) (frame frame' value sp pc : U64) : Prop where
  a0 : mem' (frame' + ptA0) = value
  sp : mem' (frame' + ptSp) = sp
  sepc : mem' (frame' + ptSepc) = pc
  others : ∀ slot : U64, slot.toNat < ptSize.toNat → slot ≠ ptA0 → slot ≠ ptSp → slot ≠ ptSepc →
    slot ≠ ptOrigA0 → mem' (frame' + slot) = mem (frame + slot)

/-- A frame that is edited as the system call wants it holds the code behind the system call. -/
theorem Captured.edited {mem mem' : Memory} {frame frame' value sp : U64} {h : Hart}
    {cause tval stvec : U64} (captured : Captured mem frame (h.trap cause tval stvec))
    (edited : Edited mem mem' frame frame' value sp (h.pc + 4)) :
    Captured mem' frame' ((h.syscallReturn value sp).trap cause tval stvec) := by
  refine ⟨fun slot member => ?_, ?_, ?_, ?_, ?_, ?_⟩
  · -- Only one of the registers stored as they are found is the result.
    have fields : ∀ slot ∈ savedSlots, slot.2.toNat < ptSize.toNat ∧ slot.1 ≠ .sp ∧
        slot.2 ≠ ptSp ∧ slot.2 ≠ ptSepc ∧ slot.2 ≠ ptOrigA0 ∧ (slot.1 = .a0 → slot.2 = ptA0) ∧
        (slot.2 = ptA0 → slot.1 = .a0) := by decide
    obtain ⟨within, notSp, notPtSp, notSepc, notOrig, result, other⟩ := fields slot member
    by_cases here : slot.1 = .a0
    · rw [result here, edited.a0, here]
      exact (h.syscallReturn_a0 value sp).symm
    · rw [edited.others _ within (fun same => here (other same)) notPtSp notSepc notOrig,
        captured.regs slot member]
      exact (h.syscallReturn_of_ne value sp here notSp).symm
  · exact edited.sp.trans (h.syscallReturn_stack value sp).symm
  · rw [edited.others _ (by decide) (by decide) (by decide) (by decide) (by decide), captured.tp]
    exact (h.syscallReturn_of_ne value sp (by decide) (by decide)).symm
  · rw [edited.others _ (by decide) (by decide) (by decide) (by decide) (by decide),
      captured.sstatus, Hart.sstatus_trap, Hart.sstatus_trap, Hart.syscallReturn_csr,
      Hart.syscallReturn_supervisor]
  · rw [edited.sepc, Hart.sepc_trap]
    rfl
  · rw [edited.others _ (by decide) (by decide) (by decide) (by decide) (by decide),
      captured.hstatus, Hart.hstatus_trap, Hart.hstatus_trap, Hart.syscallReturn_csr,
      Hart.syscallReturn_supervisor, Hart.syscallReturn_virt]

end Benos
