import Benos.Trap.Vector

/-! What `kernel_entry` leaves in a trap frame, and what `kernel_exit` makes of one. -/

namespace Benos

/-! ### Status bits -/

namespace Hart

/-- Replacing a bit changes that bit only. -/
theorem putBit_getLsbD (w : U64) {i : Nat} (fits : i < 64) (value : Bool) (j : Nat) :
    (putBit w i value).getLsbD j = if j = i then value else w.getLsbD j := by
  unfold putBit bit
  -- Setting a bit is an or, clearing it an and.
  cases value
  · simp only [Bool.false_eq_true, if_false, BitVec.getLsbD_and, BitVec.getLsbD_not,
      BitVec.getLsbD_twoPow]
    by_cases here : j = i
    · simp [here, fits]
    · by_cases inside : j < 64
      · simp [here, Ne.symm here, inside]
      · simp [here, Nat.not_lt.mp inside]
  · simp only [if_true, BitVec.getLsbD_or, BitVec.getLsbD_twoPow]
    by_cases here : j = i
    · simp [here, fits]
    · simp [here, Ne.symm here]

/-- The test of one bit by a mask. -/
theorem and_bit_ne_zero (w : U64) {i : Nat} (fits : i < 64) :
    w &&& bit i ≠ 0 ↔ w.getLsbD i = true := by
  unfold bit
  rw [BitVec.and_twoPow]
  -- What is left of the word is the bit or nothing.
  cases w.getLsbD i with
  | true =>
    have set : BitVec.twoPow 64 i ≠ 0 := by
      intro zero
      have clear := congrArg (BitVec.getLsbD · i) zero
      simp [fits] at clear
    simpa using set
  | false => simp

section Trap

variable (h : Hart) (cause tval stvec : U64)

@[simp] theorem get_trap (r : Reg) : (h.trap cause tval stvec).get r = h.get r := rfl

@[simp] theorem mem_trap : (h.trap cause tval stvec).mem = h.mem := rfl

@[simp] theorem sscratch_trap : (h.trap cause tval stvec).csr .sscratch = h.csr .sscratch := by
  simp [trap, setCsr]

@[simp] theorem sepc_trap : (h.trap cause tval stvec).csr .sepc = h.pc := by
  simp [trap, setCsr]

@[simp] theorem scause_trap : (h.trap cause tval stvec).csr .scause = cause := by
  simp [trap, setCsr]

/-- The status word after a trap. -/
theorem sstatus_trap : (h.trap cause tval stvec).csr .sstatus =
    putBit (putBit (putBit (h.csr .sstatus) sppBit h.supervisor) spieBit
      ((h.csr .sstatus).getLsbD sieBit)) sieBit false := by
  simp [trap, setCsr]

/-- A trap records the interrupted mode in `SPP`. -/
theorem spp_trap : ((h.trap cause tval stvec).csr .sstatus).getLsbD sppBit = h.supervisor := by
  rw [sstatus_trap, putBit_getLsbD _ (by decide), if_neg (by decide),
    putBit_getLsbD _ (by decide), if_neg (by decide), putBit_getLsbD _ (by decide), if_pos rfl]

/-- A trap records the interrupt enable in `SPIE`. -/
theorem spie_trap : ((h.trap cause tval stvec).csr .sstatus).getLsbD spieBit =
    (h.csr .sstatus).getLsbD sieBit := by
  rw [sstatus_trap, putBit_getLsbD _ (by decide), if_neg (by decide),
    putBit_getLsbD _ (by decide), if_pos rfl]

/-- The hypervisor's status word after a trap. -/
theorem hstatus_trap : (h.trap cause tval stvec).csr .hstatus =
    if h.virt then putBit (putBit (h.csr .hstatus) spvBit h.virt) spvpBit h.supervisor
    else putBit (h.csr .hstatus) spvBit h.virt := by
  simp [trap, setCsr]

/-- A trap records the interrupted virtualization mode in `SPV`. -/
theorem spv_trap : ((h.trap cause tval stvec).csr .hstatus).getLsbD spvBit = h.virt := by
  rw [hstatus_trap]
  split
  · rw [putBit_getLsbD _ (by decide), if_neg (by decide), putBit_getLsbD _ (by decide), if_pos rfl]
  · rw [putBit_getLsbD _ (by decide), if_pos rfl]

end Trap

section Sret

variable (h : Hart)

@[simp] theorem get_sret (r : Reg) : h.sret.get r = h.get r := rfl

@[simp] theorem mem_sret : h.sret.mem = h.mem := rfl

@[simp] theorem pc_sret : h.sret.pc = h.csr .sepc := rfl

@[simp] theorem supervisor_sret : h.sret.supervisor = (h.csr .sstatus).getLsbD sppBit := rfl

@[simp] theorem virt_sret : h.sret.virt = (h.csr .hstatus).getLsbD spvBit := rfl

@[simp] theorem sscratch_sret : h.sret.csr .sscratch = h.csr .sscratch := by
  simp [sret, setCsr]

/-- The status word after `sret`. -/
theorem sstatus_sret : h.sret.csr .sstatus =
    putBit (putBit (putBit (h.csr .sstatus) sieBit ((h.csr .sstatus).getLsbD spieBit)) spieBit
      true) sppBit false := by
  simp [sret, setCsr]

/-- `sret` takes the interrupt enable back from `SPIE`. -/
theorem sie_sret : (h.sret.csr .sstatus).getLsbD sieBit =
    (h.csr .sstatus).getLsbD spieBit := by
  rw [sstatus_sret, putBit_getLsbD _ (by decide), if_neg (by decide),
    putBit_getLsbD _ (by decide), if_neg (by decide), putBit_getLsbD _ (by decide), if_pos rfl]

/-- `sret` leaves user mode as the mode to return to. -/
theorem spp_sret : (h.sret.csr .sstatus).getLsbD sppBit = false := by
  rw [sstatus_sret, putBit_getLsbD _ (by decide), if_pos rfl]

end Sret

end Hart

/-! ### Room on the stack -/

/-- The bytes of `struct task_struct` that assembly uses, up to and including `user_sp`. -/
def taskTiSize : Nat := 136

/-- A kernel stack with room for one more frame between the task and the stack pointer. -/
structure Room (task top : U64) : Prop where
  taskAligned : Aligned task
  topAligned : Aligned top
  above : task.toNat + taskTiSize + ptSize.toNat ≤ top.toNat

/-- A trap frame, from its lowest address. -/
def OnFrame (frame addr : U64) : Prop := (addr - frame).toNat < ptSize.toNat

theorem onFrame_add {frame slot : U64} (inside : slot.toNat < ptSize.toNat) :
    OnFrame frame (frame + slot) := by
  rw [OnFrame, BitVec.add_comm, BitVec.add_sub_cancel]
  exact inside

namespace Room

variable {task top : U64}

/-- The frame ends where the stack pointer was. -/
theorem frame_toNat (room : Room task top) : (top - ptSize).toNat = top.toNat - 296 := by
  have above := room.above
  have size : ptSize.toNat = 296 := rfl
  have bound := top.isLt
  rw [BitVec.toNat_sub, size]
  omega

theorem aligned (room : Room task top) : Aligned (top - ptSize) := by
  have above := room.above
  -- The size of the frame is a multiple of eight.
  have size : ptSize.toNat = 296 := rfl
  have top := room.topAligned
  unfold Aligned at *
  rw [room.frame_toNat]
  omega

/-- An address of the frame is an address of the stack. -/
theorem frame_add_toNat (room : Room task top) {addr : U64} (inside : OnFrame (top - ptSize) addr) :
    top.toNat - 296 ≤ addr.toNat ∧ addr.toNat < top.toNat := by
  have above := room.above
  have size : ptSize.toNat = 296 := rfl
  -- The frame does not wrap, as the stack is larger.
  have start := room.frame_toNat
  have bound := top.isLt
  rw [OnFrame, BitVec.toNat_sub, start, size] at inside
  have own := addr.isLt
  omega

/-- No field of the task lies in the frame. -/
theorem field_ne (room : Room task top) {field addr : U64} (inside : OnFrame (top - ptSize) addr)
    (within : field.toNat < taskTiSize) : addr ≠ task + field := by
  rintro rfl
  -- The frame lies above the fields of the task, with room between.
  have ends := room.frame_add_toNat inside
  have above := room.above
  have size : ptSize.toNat = 296 := rfl
  have struct : taskTiSize = 136 := rfl
  have bound := top.isLt
  rw [BitVec.toNat_add] at ends
  omega

end Room

/-! ### Entry -/

/-- The task a trap is taken for: `sscratch` tells unless it is zero. -/
def entryTask (h : Hart) : U64 := if h.csr .sscratch ≠ 0 then h.csr .sscratch else h.get .tp

/-- The kernel stack pointer a trap is taken with. -/
def entryStack (h : Hart) : U64 :=
  if h.csr .sscratch ≠ 0 then h.mem (h.csr .sscratch + taskTiKernelSp) else h.get .sp

/-- The hart once `kernel_entry` has found the task. -/
structure Located (h h' : Hart) : Prop where
  tp : h'.get .tp = entryTask h
  others : ∀ r, r ≠ .tp → h'.get r = h.get r
  stack : h'.mem (entryTask h + taskTiKernelSp) = entryStack h
  mem : ∀ addr, addr ≠ entryTask h + taskTiKernelSp → h'.mem addr = h.mem addr
  sscratch : h'.csr .sscratch = h.get .tp
  csr : ∀ c, c ≠ .sscratch → h'.csr c = h.csr c
  supervisor : h'.supervisor = h.supervisor
  virt : h'.virt = h.virt

/-- The beginning of `kernel_entry`, which reads `sscratch` to tell where the trap came from. -/
theorem kernelEntry_located {h : Hart} (aligned : Aligned (entryTask h)) :
    ∃ g g', h.exec (.csrrw .tp .sscratch .tp) = some g ∧ saveKernelSp g = some g' ∧
      Located h g' := by
  have swapped : ((h.setCsr .sscratch (h.get .tp)).set .tp (h.csr .sscratch)).get .tp =
      h.csr .sscratch := Hart.get_set_self _ _ (by decide)
  refine ⟨(h.setCsr .sscratch (h.get .tp)).set .tp (h.csr .sscratch), ?_⟩
  by_cases user : h.csr .sscratch ≠ 0
  · -- From a less privileged mode the swap has already found the task.
    have task : entryTask h = h.csr .sscratch := if_pos user
    refine ⟨_, rfl, by rw [saveKernelSp, swapped, if_pos user], ?_⟩
    refine ⟨swapped.trans task.symm, fun r other => Hart.get_set_of_ne _ _ other, ?_,
      fun addr _ => ?_, ?_, fun c other => ?_, ?_, ?_⟩
    · rw [Hart.mem_set, entryStack, if_pos user, task]
      rfl
    · rw [Hart.mem_set]
      rfl
    · rw [Hart.csr_set, Hart.csr_setCsr_self]
    · rw [Hart.csr_set, Hart.csr_setCsr_of_ne _ _ other]
    · rw [Hart.supervisor_set]
      rfl
    · rw [Hart.virt_set]
      rfl
  · -- From the kernel itself the swap is undone, and the stack pointer goes through the task.
    have task : entryTask h = h.get .tp := if_neg user
    have stack : entryStack h = h.get .sp := if_neg user
    let g := ((h.setCsr .sscratch (h.get .tp)).set .tp (h.csr .sscratch)).set .tp (h.get .tp)
    have tp : g.get .tp = h.get .tp := Hart.get_set_self _ _ (by decide)
    -- Nothing but `tp` was moved, and it is back.
    have others : ∀ r, r ≠ .tp → g.get r = h.get r := by
      intro r other
      rw [Hart.get_set_of_ne _ _ other, Hart.get_set_of_ne _ _ other]
      rfl
    have mem : g.mem = h.mem := by
      rw [Hart.mem_set, Hart.mem_set]
      rfl
    have csr : g.csr = (h.setCsr .sscratch (h.get .tp)).csr := by
      rw [Hart.csr_set, Hart.csr_set]
    -- `sscratch` still holds the task, from the swap.
    have unswap : ((h.setCsr .sscratch (h.get .tp)).set .tp (h.csr .sscratch)).csr .sscratch =
        h.get .tp := by
      rw [Hart.csr_set, Hart.csr_setCsr_self]
    have reachable : Aligned (g.get .tp + taskTiKernelSp) := by
      rw [tp]
      exact (task ▸ aligned).add (by decide)
    -- What is stored is the stack pointer, in the field `kernel_sp` of the task.
    refine ⟨{ g with mem := Function.update g.mem (g.get .tp + taskTiKernelSp) (g.get .sp) }, rfl,
      ?_, ?_⟩
    · -- The two instructions behind the test.
      rw [saveKernelSp, swapped, if_neg user]
      have first : Hart.exec (.csrr .tp .sscratch)
          ((h.setCsr .sscratch (h.get .tp)).set .tp (h.csr .sscratch)) = some g := by
        rw [Hart.exec, unswap]
      rw [Hart.execs_cons, first, Option.bind_some, Hart.execs_cons, Hart.exec_sd reachable]
      rfl
    · -- Only the field has changed, and `sscratch`.
      refine ⟨tp.trans task.symm, others, ?_, fun addr other => ?_, ?_, fun c other => ?_, ?_, ?_⟩
      · show Function.update g.mem (g.get .tp + taskTiKernelSp) (g.get .sp)
          (entryTask h + taskTiKernelSp) = entryStack h
        rw [task, tp, Function.update_self, stack, others .sp (by decide)]
      · show Function.update g.mem (g.get .tp + taskTiKernelSp) (g.get .sp) addr = h.mem addr
        rw [task] at other
        rw [tp, Function.update_of_ne other, mem]
      · show g.csr .sscratch = _
        rw [csr, Hart.csr_setCsr_self]
      · show g.csr c = _
        rw [csr, Hart.csr_setCsr_of_ne _ _ other]
      · show g.supervisor = _
        rw [Hart.supervisor_set, Hart.supervisor_set]
        rfl
      · show g.virt = _
        rw [Hart.virt_set, Hart.virt_set]
        rfl

/-- The hart once `kernel_entry` has reserved a frame on the kernel stack. -/
structure Reserved (h h' : Hart) : Prop where
  sp : h'.get .sp = entryStack h - ptSize
  tp : h'.get .tp = entryTask h
  others : ∀ r, r ≠ .tp → r ≠ .sp → h'.get r = h.get r
  user : h'.mem (entryTask h + taskTiUserSp) = h.get .sp
  mem : ∀ addr, addr ≠ entryTask h + taskTiKernelSp → addr ≠ entryTask h + taskTiUserSp →
    h'.mem addr = h.mem addr
  sscratch : h'.csr .sscratch = h.get .tp
  csr : ∀ c, c ≠ .sscratch → h'.csr c = h.csr c
  supervisor : h'.supervisor = h.supervisor
  virt : h'.virt = h.virt

/-- The stack pointer travels through the two fields of the task. -/
theorem Located.reserve {h g : Hart} (located : Located h g) (aligned : Aligned (entryTask h)) :
    ∃ h', Hart.execs [.sd .sp taskTiUserSp .tp, .ld .sp taskTiKernelSp .tp,
      .addi .sp .sp (-ptSize)] g = some h' ∧ Reserved h h' := by
  obtain ⟨tp, others, stack, mem, sscratch, csr, supervisor, virt⟩ := located
  let stored : Hart :=
    { g with mem := Function.update g.mem (g.get .tp + taskTiUserSp) (g.get .sp) }
  -- The word that is loaded is not the one just stored.
  have fields : entryTask h + taskTiKernelSp ≠ entryTask h + taskTiUserSp := by
    intro same
    have offsets : taskTiKernelSp = taskTiUserSp := by simpa using same
    exact absurd offsets (by decide)
  have kernelSp : stored.mem (stored.get .tp + taskTiKernelSp) = entryStack h := by
    show Function.update g.mem (g.get .tp + taskTiUserSp) _ (g.get .tp + taskTiKernelSp) = _
    rw [tp, Function.update_of_ne fields, stack]
  -- The three instructions, one after the other.
  have first : Hart.exec (.sd .sp taskTiUserSp .tp) g = some stored :=
    Hart.exec_sd (by rw [tp]; exact aligned.add (by decide))
  have second : Hart.exec (.ld .sp taskTiKernelSp .tp) stored =
      some (stored.set .sp (entryStack h)) := by
    have reachable : Aligned (stored.get .tp + taskTiKernelSp) := by
      show Aligned (g.get .tp + taskTiKernelSp)
      rw [tp]
      exact aligned.add (by decide)
    rw [Hart.exec_ld reachable, kernelSp]
  -- What is loaded is the upper end of the frame.
  have loaded : (stored.set .sp (entryStack h)).get .sp = entryStack h :=
    Hart.get_set_self _ _ (by decide)
  refine ⟨(stored.set .sp (entryStack h)).set .sp (entryStack h - ptSize), ?_, ?_⟩
  · rw [Hart.execs_cons, first, Option.bind_some, Hart.execs_cons, second, Option.bind_some,
      Hart.execs_cons, Hart.exec, loaded, ← BitVec.sub_eq_add_neg]
    rfl
  · -- Besides the stack pointer only one word has changed.
    refine ⟨Hart.get_set_self _ _ (by decide), ?_, fun r notTp notSp => ?_, ?_,
      fun addr notKernel notUser => ?_, ?_, fun c other => ?_, ?_, ?_⟩
    · rw [Hart.get_set_of_ne _ _ (by decide), Hart.get_set_of_ne _ _ (by decide)]
      exact tp
    · -- Two of the instructions write the stack pointer, and none another register.
      rw [Hart.get_set_of_ne _ _ notSp, Hart.get_set_of_ne _ _ notSp]
      exact others r notTp
    · rw [Hart.mem_set, Hart.mem_set]
      show Function.update g.mem (g.get .tp + taskTiUserSp) (g.get .sp) _ = _
      rw [tp, Function.update_self, others .sp (by decide)]
    · rw [Hart.mem_set, Hart.mem_set]
      show Function.update g.mem (g.get .tp + taskTiUserSp) (g.get .sp) addr = _
      rw [tp, Function.update_of_ne notUser, mem addr notKernel]
    · rw [Hart.csr_set, Hart.csr_set]
      exact sscratch
    · rw [Hart.csr_set, Hart.csr_set]
      exact csr c other
    · rw [Hart.supervisor_set, Hart.supervisor_set]
      exact supervisor
    · rw [Hart.virt_set, Hart.virt_set]
      exact virt

/-- What a trap frame holds of the interrupted hart. -/
structure Captured (mem : Memory) (frame : U64) (h : Hart) : Prop where
  regs : ∀ slot ∈ savedSlots, mem (frame + slot.2) = h.get slot.1
  sp : mem (frame + ptSp) = h.get .sp
  tp : mem (frame + ptTp) = h.get .tp
  sstatus : mem (frame + ptSstatus) = h.csr .sstatus
  sepc : mem (frame + ptSepc) = h.csr .sepc
  hstatus : mem (frame + ptHstatus) = h.csr .hstatus

/-- A frame that keeps its words keeps what it captured. -/
theorem Captured.congr {mem mem' : Memory} {frame : U64} {h : Hart}
    (captured : Captured mem frame h) (same : ∀ addr, OnFrame frame addr → mem' addr = mem addr) :
    Captured mem' frame h := by
  -- Every word of it lies on the frame.
  have word : ∀ slot : U64, slot.toNat < ptSize.toNat → mem' (frame + slot) = mem (frame + slot) :=
    fun _ within => same _ (onFrame_add within)
  refine ⟨fun slot member => ?_, ?_, ?_, ?_, ?_, ?_⟩
  · have all : ∀ slot ∈ savedSlots, slot.2.toNat < ptSize.toNat := by decide
    exact (word _ (all slot member)).trans (captured.regs slot member)
  · exact (word _ (by decide)).trans captured.sp
  · exact (word _ (by decide)).trans captured.tp
  · exact (word _ (by decide)).trans captured.sstatus
  · exact (word _ (by decide)).trans captured.sepc
  · exact (word _ (by decide)).trans captured.hstatus

/-- The hart at the end of `kernel_entry`. -/
structure Entered (h h' : Hart) : Prop where
  sp : h'.get .sp = entryStack h - ptSize
  tp : h'.get .tp = entryTask h
  s4 : h'.get .s4 = h.csr .scause
  captured : Captured h'.mem (entryStack h - ptSize) h
  mem : ∀ addr, addr ≠ entryTask h + taskTiKernelSp → addr ≠ entryTask h + taskTiUserSp →
    ¬ OnFrame (entryStack h - ptSize) addr → h'.mem addr = h.mem addr
  csr : ∀ c, c ≠ .sscratch → h'.csr c = h.csr c
  supervisor : h'.supervisor = h.supervisor
  virt : h'.virt = h.virt

/-- The fields of `struct pt_regs` that are stored lie within it, at different offsets. -/
theorem savedSlots_within {slot : Reg × U64} (member : slot ∈ savedSlots) :
    slot.2.toNat < ptSize.toNat := by
  have all : ∀ slot ∈ savedSlots, slot.2.toNat < ptSize.toNat := by decide
  exact all slot member

theorem collectedSlots_within {slot : Reg × U64} (member : slot ∈ collectedSlots) :
    slot.2.toNat < ptSize.toNat := by
  have all : ∀ slot ∈ collectedSlots, slot.2.toNat < ptSize.toNat := by decide
  exact all slot member

/-- The two blocks of stores fill a frame with the interrupted hart. -/
theorem Reserved.fill {h g : Hart} (reserved : Reserved h g)
    (room : Room (entryTask h) (entryStack h)) :
    ∃ g₁ g₂ h', Hart.execs (stores .sp savedSlots) g = some g₁ ∧
      Hart.execs [.ld .s6 taskTiUserSp .tp, .csrr .s1 .sstatus, .csrr .s2 .sepc, .csrr .s3 .stval,
        .csrr .s4 .scause, .csrr .s5 .sscratch, .csrr .s7 .hstatus] g₁ = some g₂ ∧
      Hart.execs (stores .sp collectedSlots) g₂ = some h' ∧ Entered h h' := by
  obtain ⟨sp, tp, others, user, mem, sscratch, csr, supervisor, virt⟩ := reserved
  obtain ⟨g₁, stored, same₁, written₁, kept₁⟩ := Hart.execs_stores .sp savedSlots g
    (sp ▸ room.aligned) (by decide) (by decide)
  rw [sp] at written₁ kept₁
  -- Neither field of the task is in the frame, so `user_sp` is read back as it was written.
  have userSp : g₁.mem (g₁.get .tp + taskTiUserSp) = h.get .sp := by
    rw [same₁.get, tp, kept₁, user]
    intro slot member same
    exact room.field_ne (onFrame_add (savedSlots_within member)) (by decide) same.symm
  have reachable : Aligned (g₁.get .tp + taskTiUserSp) := by
    rw [same₁.get, tp]
    exact room.taskAligned.add (by decide)
  -- The other words are collected in registers that are stored by now.
  obtain ⟨g₂, collected, s6, s1, s2, s4, s5, s7, sp₂, tp₂, mem₂, csr₂, supervisor₂, virt₂⟩ :
      ∃ g₂, Hart.execs [.ld .s6 taskTiUserSp .tp, .csrr .s1 .sstatus, .csrr .s2 .sepc,
        .csrr .s3 .stval, .csrr .s4 .scause, .csrr .s5 .sscratch, .csrr .s7 .hstatus] g₁ = some g₂ ∧
      g₂.get .s6 = h.get .sp ∧ g₂.get .s1 = h.csr .sstatus ∧ g₂.get .s2 = h.csr .sepc ∧
      g₂.get .s4 = h.csr .scause ∧ g₂.get .s5 = h.get .tp ∧ g₂.get .s7 = h.csr .hstatus ∧
      g₂.get .sp = entryStack h - ptSize ∧ g₂.get .tp = entryTask h ∧ g₂.mem = g₁.mem ∧
      g₂.csr = g₁.csr ∧ g₂.supervisor = g₁.supervisor ∧ g₂.virt = g₁.virt := by
    refine ⟨_, by rw [Hart.execs_cons, Hart.exec_ld reachable, userSp]; rfl, ?_⟩
    simp [same₁.get, same₁.csr, sp, tp, csr, sscratch]
  obtain ⟨h', finished, same₃, written₃, kept₃⟩ := Hart.execs_stores .sp collectedSlots g₂
    (sp₂ ▸ room.aligned) (by decide) (by decide)
  rw [sp₂] at written₃ kept₃
  refine ⟨g₁, g₂, h', stored, collected, finished, ?_⟩
  -- The second block writes none of the words of the first.
  have different : ∀ slot ∈ savedSlots, ∀ later ∈ collectedSlots, slot.2 ≠ later.2 := by decide
  refine ⟨(same₃.get _).trans sp₂, (same₃.get _).trans tp₂, (same₃.get _).trans s4,
    ⟨?_, ?_, ?_, ?_, ?_, ?_⟩, ?_, ?_, ?_, ?_⟩
  · intro slot member
    have real : slot.1 ≠ .tp ∧ slot.1 ≠ .sp := by
      have all : ∀ slot ∈ savedSlots, slot.1 ≠ .tp ∧ slot.1 ≠ .sp := by decide
      exact all slot member
    rw [kept₃, mem₂, written₁ slot member, others _ real.1 real.2]
    intro later inside same
    have offsets : slot.2 = later.2 := by simpa using same
    exact different slot member later inside offsets
  · -- The words of the second block are in the registers that were just loaded.
    exact (written₃ (.s6, ptSp) (by decide)).trans s6
  · exact (written₃ (.s5, ptTp) (by decide)).trans s5
  · exact (written₃ (.s1, ptSstatus) (by decide)).trans s1
  · exact (written₃ (.s2, ptSepc) (by decide)).trans s2
  · exact (written₃ (.s7, ptHstatus) (by decide)).trans s7
  · -- Both blocks stay inside of the frame.
    intro addr notKernel notUser outside
    rw [kept₃, mem₂, kept₁, mem addr notKernel notUser]
    · rintro slot member rfl
      exact outside (onFrame_add (savedSlots_within member))
    · rintro slot member rfl
      exact outside (onFrame_add (collectedSlots_within member))
  · intro c other
    rw [same₃.csr, csr₂, same₁.csr, csr c other]
  · rw [same₃.supervisor, supervisor₂, same₁.supervisor, supervisor]
  · rw [same₃.virt, virt₂, same₁.virt, virt]

/-- With room on the stack `kernel_entry` runs to its end. -/
theorem kernelEntry_entered {h : Hart} (room : Room (entryTask h) (entryStack h)) :
    ∃ h', kernelEntry h = some h' ∧ Entered h h' := by
  obtain ⟨g, g₁, swapped, found, located⟩ := kernelEntry_located room.taskAligned
  obtain ⟨g₂, switched, reserved⟩ := located.reserve room.taskAligned
  obtain ⟨g₃, g₄, h', stored, collected, finished, entered⟩ := reserved.fill room
  exact ⟨h', Hart.chain swapped (Hart.chain found (Hart.chain switched (Hart.chain stored
    (Hart.chain collected finished)))), entered⟩

/-! ### Exit -/

/-- The hart at the end of `kernel_exit`, loaded from the frame its stack pointer was at. -/
structure Restored (h h' : Hart) : Prop where
  regs : ∀ slot ∈ restoredSlots, h'.get slot.1 = h.mem (h.get .sp + slot.2)
  sp : h'.get .sp = h.mem (h.get .sp + ptSp)
  sstatus : h'.csr .sstatus = h.mem (h.get .sp + ptSstatus)
  sepc : h'.csr .sepc = h.mem (h.get .sp + ptSepc)
  hstatus : h'.csr .hstatus = h.mem (h.get .sp + ptHstatus)
  sscratch : h'.csr .sscratch = h.csr .sscratch
  mem : h'.mem = h.mem

/-- With its stack pointer at a frame `kernel_exit` runs to its end. -/
theorem kernelExit_restored {h : Hart} (aligned : Aligned (h.get .sp)) :
    ∃ h', kernelExit h = some h' ∧ Restored h h' := by
  obtain ⟨g, first, same, filled, kept⟩ := Hart.execs_loads .sp
    [(.a0, ptSstatus), (.a2, ptSepc), (.a3, ptHstatus)] h aligned (by decide) (by decide)
    (by decide) (by decide)
  -- The control registers are written from the three registers just loaded.
  let written := ((g.setCsr .sstatus (g.get .a0)).setCsr .sepc (g.get .a2)).setCsr .hstatus
    (g.get .a3)
  have sp : written.get .sp = h.get .sp := kept .sp (by decide)
  obtain ⟨g', second, same', filled', kept'⟩ := Hart.execs_loads .sp restoredSlots written
    (sp.symm ▸ aligned) (by decide) (by decide) (by decide) (by decide)
  have sp' : g'.get .sp = h.get .sp := (kept' .sp (by decide)).trans sp
  have mem' : g'.mem = h.mem := same'.mem.trans same.mem
  -- The stack pointer is loaded last, from the frame that it is at.
  have last : Hart.exec (.ld .sp ptSp .sp) g' =
      some (g'.set .sp (h.mem (h.get .sp + ptSp))) := by
    have reachable : Aligned (g'.get .sp + ptSp) := by
      rw [sp']
      exact aligned.add (by decide)
    rw [Hart.exec_ld reachable, sp', mem']
  refine ⟨_, Hart.chain first (Hart.chain rfl (Hart.chain second last)), ?_⟩
  refine ⟨fun slot member => ?_, Hart.get_set_self _ _ (by decide), ?_, ?_, ?_, ?_, ?_⟩
  · -- The load of the stack pointer changes no other register.
    have other : slot.1 ≠ .sp := by
      have all : ∀ slot ∈ restoredSlots, slot.1 ≠ .sp := by decide
      exact all slot member
    rw [Hart.get_set_of_ne _ _ other, filled' slot member, sp]
    show g.mem _ = _
    rw [same.mem]
  · -- Each control register was written once, from the word of its slot.
    rw [Hart.csr_set, same'.csr, Hart.csr_setCsr_of_ne _ _ (by decide),
      Hart.csr_setCsr_of_ne _ _ (by decide), Hart.csr_setCsr_self]
    exact filled (.a0, ptSstatus) (by decide)
  · rw [Hart.csr_set, same'.csr, Hart.csr_setCsr_of_ne _ _ (by decide), Hart.csr_setCsr_self]
    exact filled (.a2, ptSepc) (by decide)
  · rw [Hart.csr_set, same'.csr, Hart.csr_setCsr_self]
    exact filled (.a3, ptHstatus) (by decide)
  · rw [Hart.csr_set, same'.csr, Hart.csr_setCsr_of_ne _ _ (by decide),
      Hart.csr_setCsr_of_ne _ _ (by decide), Hart.csr_setCsr_of_ne _ _ (by decide), same.csr]
  · rw [Hart.mem_set, mem']

/-- Every register is the constant one, or is loaded from where `kernel_entry` stored it. -/
theorem restored_covers (r : Reg) :
    r = .zero ∨ r = .sp ∨ r = .tp ∨ ∃ slot ∈ savedSlots, slot.1 = r ∧ slot ∈ restoredSlots := by
  cases r <;> decide

/-- What is interrupted and what is resumed. -/
structure Resumed (h h' : Hart) : Prop where
  regs : ∀ r, h'.get r = h.get r
  pc : h'.pc = h.pc
  supervisor : h'.supervisor = h.supervisor
  virt : h'.virt = h.virt
  sie : (h'.csr .sstatus).getLsbD Hart.sieBit = (h.csr .sstatus).getLsbD Hart.sieBit

/-- `kernel_exit` and `sret` from a frame resume the hart captured in it. -/
theorem Restored.resumed {h left ready : Hart} {cause tval stvec : U64}
    (restored : Restored left ready)
    (captured : Captured left.mem (left.get .sp) (h.trap cause tval stvec)) :
    Resumed h ready.sret := by
  refine ⟨fun r => ?_, ?_, ?_, ?_, ?_⟩
  · -- Each register is the constant one, in a slot of its own, or the stack or task pointer.
    rcases restored_covers r with rfl | rfl | rfl | ⟨slot, saved, rfl, loaded⟩
    · rw [Hart.get_zero, Hart.get_zero]
    · exact restored.sp.trans captured.sp
    · exact (restored.regs (.tp, ptTp) (by decide)).trans captured.tp
    · exact (restored.regs slot loaded).trans (captured.regs slot saved)
  · rw [Hart.pc_sret, restored.sepc, captured.sepc, Hart.sepc_trap]
  · rw [Hart.supervisor_sret, restored.sstatus, captured.sstatus, Hart.spp_trap]
  · rw [Hart.virt_sret, restored.hstatus, captured.hstatus, Hart.spv_trap]
  · rw [Hart.sie_sret, restored.sstatus, captured.sstatus, Hart.spie_trap]

end Benos
