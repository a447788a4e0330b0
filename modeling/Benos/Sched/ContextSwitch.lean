import Benos.Machine.Hart
import Benos.Sched.ForkMemory
import Mathlib.Logic.Relation

/-! `cpu_switch_to` of `entry.S`, and what it means for tasks that call it in turn. -/

namespace Benos

/-- The scheduler's data, with the memory and the registers it reads taken from the hart. -/
def Kernel.on (k : Kernel) (h : Hart) : Kernel :=
  { k with mem := h.mem, current := h.get .tp, gp := h.get .gp }

/-- The words of `struct cpu_context`, in the order in which `cpu_switch_to` moves them. -/
def contextSlots : List (Reg × U64) :=
  [(.ra, 0), (.sp, 8), (.s0, 16), (.s1, 24), (.s2, 32), (.s3, 40), (.s4, 48), (.s5, 56), (.s6, 64),
    (.s7, 72), (.s8, 80), (.s9, 88), (.s10, 96), (.s11, 104)]

/-- `cpu_switch_to`. -/
def cpuSwitchTo (h : Hart) : Option Hart := do
  let h ← Hart.execs [.li .a4 taskCpuContext, .add .a3 .a0 .a4, .add .a4 .a1 .a4] h
  let h ← Hart.execs (stores .a3 contextSlots) h
  let h ← Hart.execs (loads .a4 contextSlots) h
  let h ← Hart.execs [.mv .tp .a1] h
  -- `ret`
  some { h with pc := h.get .ra }

/-- The registers a task keeps across a call of `cpu_switch_to`. -/
def switchedRegs : List Reg :=
  [.ra, .sp, .s0, .s1, .s2, .s3, .s4, .s5, .s6, .s7, .s8, .s9, .s10, .s11]

theorem contextSlots_regs : contextSlots.map Prod.fst = switchedRegs := rfl

/-- Every slot lies within `struct cpu_context`. -/
theorem contextSlots_within {slot : Reg × U64} (member : slot ∈ contextSlots) :
    slot.2.toNat < cpuContextSize := by
  have all : ∀ slot ∈ contextSlots, slot.2.toNat < cpuContextSize := by decide
  exact all slot member

/-- What `cpu_switch_to` does: save in the first context, load from the second, change `tp`. -/
structure Switched (before after : Hart) : Prop where
  saved : ∀ slot ∈ contextSlots, after.mem (before.get .a0 + slot.2) = before.get slot.1
  kept : ∀ addr, (∀ slot ∈ contextSlots, addr ≠ before.get .a0 + slot.2) →
    after.mem addr = before.mem addr
  loaded : ∀ slot ∈ contextSlots, after.get slot.1 = after.mem (before.get .a1 + slot.2)
  tp : after.get .tp = before.get .a1
  a0 : after.get .a0 = before.get .a0
  pc : after.pc = after.get .ra
  csr : after.csr = before.csr
  supervisor : after.supervisor = before.supervisor
  virt : after.virt = before.virt

/-- Between two aligned tasks `cpu_switch_to` runs to its end. -/
theorem cpuSwitchTo_switched {h : Hart} (prevAligned : Aligned (h.get .a0))
    (nextAligned : Aligned (h.get .a1)) : ∃ h', cpuSwitchTo h = some h' ∧ Switched h h' := by
  -- The context is the first field of the task, so the two pointers are the tasks themselves.
  obtain ⟨h₀, began, others, mem₀, a3, a4, csr₀, supervisor₀, virt₀⟩ : ∃ h₀, Hart.execs
      [.li .a4 taskCpuContext, .add .a3 .a0 .a4, .add .a4 .a1 .a4] h = some h₀ ∧
      (∀ r, r ≠ .a3 → r ≠ .a4 → h₀.get r = h.get r) ∧ h₀.mem = h.mem ∧
      h₀.get .a3 = h.get .a0 ∧ h₀.get .a4 = h.get .a1 ∧ h₀.csr = h.csr ∧
      h₀.supervisor = h.supervisor ∧ h₀.virt = h.virt := by
    refine ⟨_, rfl, ?_, ?_, ?_, ?_, ?_, ?_, ?_⟩
    · intro r notA3 notA4
      rw [Hart.get_set_of_ne _ _ notA4, Hart.get_set_of_ne _ _ notA3, Hart.get_set_of_ne _ _ notA4]
    · simp
    · simp [taskCpuContext]
    · simp [taskCpuContext]
    · simp
    · simp
    · simp
  obtain ⟨h₁, stored, same₁, saved, kept⟩ := Hart.execs_stores .a3 contextSlots h₀
    (a3.symm ▸ prevAligned) (by decide) (by decide)
  -- The loads go through `a4`, which the stores did not change.
  have a4₁ : h₁.get .a4 = h.get .a1 := (same₁.get _).trans a4
  obtain ⟨h₂, loaded, same₂, filled, untouched⟩ := Hart.execs_loads .a4 contextSlots h₁
    (a4₁.symm ▸ nextAligned) (by decide) (by decide) (by decide) (by decide)
  have argument : ∀ r, r ≠ .a3 → r ≠ .a4 → (∀ slot ∈ contextSlots, r ≠ slot.1) →
      h₂.get r = h.get r := fun r notA3 notA4 outside =>
    (untouched r outside).trans ((same₁.get r).trans (others r notA3 notA4))
  -- The argument registers are no slot of the context.
  have a0 : h₂.get .a0 = h.get .a0 := argument .a0 (by decide) (by decide) (by decide)
  have a1 : h₂.get .a1 = h.get .a1 := argument .a1 (by decide) (by decide) (by decide)
  -- At last the thread pointer moves to the next task, and `ret` jumps to its `ra`.
  have ran : cpuSwitchTo h =
      some { h₂.set .tp (h₂.get .a1) with pc := (h₂.set .tp (h₂.get .a1)).get .ra } := by
    simp only [cpuSwitchTo, began, stored, loaded, Option.bind_eq_bind, Option.bind_some]
    rfl
  have mem : (h₂.set .tp (h₂.get .a1)).mem = h₁.mem := (Hart.mem_set _ _ _).trans same₂.mem
  refine ⟨_, ran, ?_, ?_, ?_, ?_, ?_, rfl, ?_, ?_, ?_⟩
  · intro slot member
    -- The scratch registers are not saved, so the saved ones still hold the caller's values.
    have real : slot.1 ≠ .a3 ∧ slot.1 ≠ .a4 := by
      have all : ∀ slot ∈ contextSlots, slot.1 ≠ .a3 ∧ slot.1 ≠ .a4 := by decide
      exact all slot member
    have value := saved slot member
    rw [a3, others slot.1 real.1 real.2, ← mem] at value
    exact value
  · intro addr outside
    have value := kept addr (a3.symm ▸ outside)
    rw [mem₀, ← mem] at value
    exact value
  · intro slot member
    -- The thread pointer is no slot, and is moved after the loads.
    have real : slot.1 ≠ .tp := by
      have all : ∀ slot ∈ contextSlots, slot.1 ≠ .tp := by decide
      exact all slot member
    have value := filled slot member
    rw [a4₁, ← mem] at value
    exact (Hart.get_set_of_ne h₂ (h₂.get .a1) real).trans value
  · exact (Hart.get_set_self h₂ (h₂.get .a1) (by decide)).trans a1
  · have other : Reg.a0 ≠ .tp := by decide
    exact (Hart.get_set_of_ne h₂ (h₂.get .a1) other).trans a0
  · show (h₂.set .tp (h₂.get .a1)).csr = h.csr
    rw [Hart.csr_set, same₂.csr, same₁.csr, csr₀]
  · show (h₂.set .tp (h₂.get .a1)).supervisor = h.supervisor
    rw [Hart.supervisor_set, same₂.supervisor, same₁.supervisor, supervisor₀]
  · show (h₂.set .tp (h₂.get .a1)).virt = h.virt
    rw [Hart.virt_set, same₂.virt, same₁.virt, virt₀]

end Benos
