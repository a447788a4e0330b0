import Benos.Lib.Transition
import Benos.Sbi.Vector

/-! Traps into M mode give back what they interrupt, and leave the M-mode stack as it was. -/

namespace Benos

open Relation (ReflTransGen)

/-! ### Blocks of M-mode code -/

namespace MHart

theorem execs_cons (instr : MInstr) (rest : List MInstr) (h : MHart) :
    execs (instr :: rest) h = (exec instr h).bind (execs rest) := rfl

/-- A block without instructions of M mode runs on the hart inside. -/
theorem execs_lower {block : List Instr} {h : MHart} {hart : Hart}
    (ran : Hart.execs block h.hart = some hart) :
    execs (lower block) h = some { h with hart } := by
  induction block generalizing h with
  | nil =>
    cases ran
    rfl
  | cons instr rest ih =>
    -- The first instruction runs inside, and the rest from where it ended.
    simp only [Hart.execs_cons, Option.bind_eq_some_iff] at ran
    obtain ⟨next, first, ran⟩ := ran
    have here : exec (.lower instr) h = some { h with hart := next } := by
      rw [exec, first, Option.map_some]
    show (exec (.lower instr) h).bind (execs (lower rest)) = _
    rw [here, Option.bind_some]
    exact ih ran

/-- A store inside. -/
theorem exec_sd {h : MHart} (rs : Reg) {base : Reg} {offset : U64}
    (aligned : Aligned (h.hart.get base + offset)) :
    exec (.lower (.sd rs offset base)) h = some { h with hart := { h.hart with
      mem := Function.update h.hart.mem (h.hart.get base + offset) (h.hart.get rs) } } := by
  rw [exec, Hart.exec_sd aligned, Option.map_some]

/-- Two parts of a block that run to their ends run one after the other. -/
theorem chain {first : Option MHart} {second : MHart → Option MHart} {middle final : MHart}
    (ran : first = some middle) (rest : second middle = some final) :
    first >>= second = some final := by
  rw [ran]
  exact rest

@[simp] theorem mcsr_setCsr_self (h : MHart) (c : MCsr) (value : U64) :
    (h.setCsr c value).mcsr c = value := by
  show Function.update h.mcsr c value c = value
  exact Function.update_self _ _ _

@[simp] theorem mcsr_setCsr_of_ne (h : MHart) {c d : MCsr} (value : U64) (other : d ≠ c) :
    (h.setCsr c value).mcsr d = h.mcsr d := by
  show Function.update h.mcsr c value d = h.mcsr d
  exact Function.update_of_ne other _ _

/-- `csrr` of a control register and `sd` of what was read. -/
theorem saveCsr {h : MHart} (c : MCsr) {offset : U64} (aligned : Aligned (h.hart.get .sp + offset)) :
    ∃ h', execs [.csrr .t0 c, .lower (.sd .t0 offset .sp)] h = some h' ∧
      h'.hart.mem = Function.update h.hart.mem (h.hart.get .sp + offset) (h.mcsr c) ∧
      h'.mcsr = h.mcsr ∧ ∀ r, r ≠ .t0 → h'.hart.get r = h.hart.get r := by
  -- Between the two instructions `t0` holds the register.
  let read := h.hart.set .t0 (h.mcsr c)
  have sp : read.get .sp = h.hart.get .sp := Hart.get_set_of_ne h.hart _ (by decide)
  have t0 : read.get .t0 = h.mcsr c := Hart.get_set_self h.hart _ (by decide)
  have mem : read.mem = h.hart.mem := Hart.mem_set _ _ _
  have slot : Aligned (read.get .sp + offset) := sp.symm ▸ aligned
  have stored : exec (.lower (.sd .t0 offset .sp)) { h with hart := read } = _ := exec_sd .t0 slot
  refine ⟨_, chain rfl (chain stored rfl), ?_, rfl, fun r other => ?_⟩
  · show Function.update read.mem (read.get .sp + offset) (read.get .t0) = _
    rw [sp, t0, mem]
  · exact Hart.get_set_of_ne h.hart _ other

/-- `ld` of a slot and `csrw` of what was loaded. -/
theorem loadCsr {h : MHart} (c : MCsr) {offset : U64} (aligned : Aligned (h.hart.get .sp + offset)) :
    ∃ h', execs [.lower (.ld .t0 offset .sp), .csrw c .t0] h = some h' ∧
      h'.hart.mem = h.hart.mem ∧ h'.mcsr c = h.hart.mem (h.hart.get .sp + offset) ∧
      (∀ d, d ≠ c → h'.mcsr d = h.mcsr d) ∧ ∀ r, r ≠ .t0 → h'.hart.get r = h.hart.get r := by
  -- Between the two instructions `t0` holds the word.
  let loaded : MHart := { h with hart := h.hart.set .t0 (h.hart.mem (h.hart.get .sp + offset)) }
  have load : exec (.lower (.ld .t0 offset .sp)) h = some loaded := by
    rw [exec, Hart.exec_ld aligned, Option.map_some]
  refine ⟨_, chain load rfl, ?_, ?_, fun d other => ?_, fun r other => ?_⟩
  · exact Hart.mem_set _ _ _
  · rw [mcsr_setCsr_self]
    exact Hart.get_set_self h.hart _ (by decide)
  · rw [mcsr_setCsr_of_ne _ _ other]
  · exact Hart.get_set_of_ne h.hart _ other

end MHart

/-! ### Entry -/

/-- What a frame of M mode holds of the interrupted hart, whose stack pointer is given apart. -/
structure SbiCaptured (mem : Memory) (frame : U64) (sp : U64) (h : MHart) : Prop where
  regs : ∀ slot ∈ savedSlots, mem (frame + slot.2) = h.hart.get slot.1
  sp : mem (frame + ptSp) = sp
  mepc : mem (frame + ptMepc) = h.mcsr .mepc
  mstatus : mem (frame + ptMstatus) = h.mcsr .mstatus

/-- What `sbi_trap_handler` is called with. -/
structure SbiCalled (h entered : MHart) : Prop where
  sp : entered.hart.get .sp = h.mcsr .mscratch - sbiPtSize
  a0 : entered.hart.get .a0 = h.mcsr .mscratch - sbiPtSize
  tp : entered.hart.get .tp = h.hart.get .tp
  mscratch : entered.mcsr .mscratch = h.mcsr .mscratch
  mcause : entered.mcsr .mcause = h.mcsr .mcause
  captured : SbiCaptured entered.hart.mem (h.mcsr .mscratch - sbiPtSize) (h.hart.get .sp) h

/-- The stack pointer and `mscratch` change places, and a frame is reserved. -/
theorem sbiReserve (h : MHart) :
    ∃ g g', h.exec (.csrrw .sp .mscratch .sp) = some g ∧
      g.exec (.lower (.addi .sp .sp (-sbiPtSize))) = some g' ∧
      g'.hart.get .sp = h.mcsr .mscratch - sbiPtSize ∧ g'.mcsr .mscratch = h.hart.get .sp ∧
      (∀ c, c ≠ .mscratch → g'.mcsr c = h.mcsr c) ∧
      ∀ r, r ≠ .sp → g'.hart.get r = h.hart.get r := by
  -- After the swap the stack pointer is the top of the stack, and `mscratch` the old one.
  let swapped := h.hart.set .sp (h.mcsr .mscratch)
  have top : swapped.get .sp = h.mcsr .mscratch := Hart.get_set_self h.hart _ (by decide)
  refine ⟨_, _, rfl, rfl, ?_, ?_, fun c other => ?_, fun r other => ?_⟩
  · show (swapped.set .sp (swapped.get .sp + -sbiPtSize)).get .sp = _
    rw [Hart.get_set_self _ _ (by decide), top, BitVec.sub_eq_add_neg]
  · exact MHart.mcsr_setCsr_self h .mscratch (h.hart.get .sp)
  · exact MHart.mcsr_setCsr_of_ne h (h.hart.get .sp) other
  · show (swapped.set .sp _).get r = _
    rw [Hart.get_set_of_ne _ _ other, Hart.get_set_of_ne _ _ other]

/-- The stack pointer of the interrupted code goes from `mscratch` to the frame, and back comes
the top of the stack. -/
theorem sbiSwapTop {h : MHart} (aligned : Aligned (h.hart.get .sp + ptSp)) :
    ∃ h', MHart.execs [.lower (.addi .t0 .sp sbiPtSize), .csrrw .t0 .mscratch .t0,
        .lower (.sd .t0 ptSp .sp)] h = some h' ∧
      h'.hart.mem = Function.update h.hart.mem (h.hart.get .sp + ptSp) (h.mcsr .mscratch) ∧
      h'.mcsr .mscratch = h.hart.get .sp + sbiPtSize ∧
      (∀ c, c ≠ .mscratch → h'.mcsr c = h.mcsr c) ∧
      ∀ r, r ≠ .t0 → h'.hart.get r = h.hart.get r := by
  let pointed := h.hart.set .t0 (h.hart.get .sp + sbiPtSize)
  have t0 : pointed.get .t0 = h.hart.get .sp + sbiPtSize :=
    Hart.get_set_self h.hart _ (by decide)
  -- After the swap `t0` holds the old stack pointer, and `mscratch` the top again.
  let swapped : MHart :=
    { h.setCsr .mscratch (pointed.get .t0) with hart := pointed.set .t0 (h.mcsr .mscratch) }
  have sp : swapped.hart.get .sp = h.hart.get .sp := by
    rw [Hart.get_set_of_ne _ _ (by decide), Hart.get_set_of_ne _ _ (by decide)]
  have old : swapped.hart.get .t0 = h.mcsr .mscratch := Hart.get_set_self pointed _ (by decide)
  have mem : swapped.hart.mem = h.hart.mem := (Hart.mem_set _ _ _).trans (Hart.mem_set _ _ _)
  -- The store is the last of the three, and `mscratch` is out of it.
  have slot : Aligned (swapped.hart.get .sp + ptSp) := sp.symm ▸ aligned
  have stored := MHart.exec_sd .t0 slot
  refine ⟨_, MHart.chain rfl (MHart.chain rfl (MHart.chain stored rfl)), ?_, ?_,
    fun c other => ?_, fun r other => ?_⟩
  · show Function.update swapped.hart.mem (swapped.hart.get .sp + ptSp) (swapped.hart.get .t0) = _
    rw [sp, old, mem]
  · exact (MHart.mcsr_setCsr_self h .mscratch (pointed.get .t0)).trans t0
  · exact MHart.mcsr_setCsr_of_ne h (pointed.get .t0) other
  · show (pointed.set .t0 _).get r = _
    rw [Hart.get_set_of_ne _ _ other, Hart.get_set_of_ne _ _ other]

/-- The vector gets to the handler, with a frame at the top of the M-mode stack. -/
theorem sbiExceptionVector_called (text : SbiText) {h : MHart}
    (aligned : Aligned (h.mcsr .mscratch)) :
    ∃ entered, sbiExceptionVector text h = some entered ∧ SbiCalled h entered := by
  have frame : Aligned (h.mcsr .mscratch - sbiPtSize) := by
    rw [BitVec.sub_eq_add_neg]
    exact aligned.add (by decide)
  obtain ⟨g, g₁, swapped, reserved, sp₁, scratch₁, csr₁, regs₁⟩ := sbiReserve h
  obtain ⟨stored, ran, same, written, -⟩ := Hart.execs_stores .sp savedSlots g₁.hart
    (sp₁.symm ▸ frame) (by decide) (by decide)
  rw [sp₁] at written
  -- The frame has the registers; the control registers and the stack pointer are added to it.
  let g₂ : MHart := { g₁ with hart := stored }
  have sp₂ : g₂.hart.get .sp = h.mcsr .mscratch - sbiPtSize := (same.get .sp).trans sp₁
  obtain ⟨g₃, savedPc, mem₃, csr₃, regs₃⟩ :=
    MHart.saveCsr .mepc (sp₂.symm ▸ frame.add (show Aligned ptMepc by decide))
  have sp₃ : g₃.hart.get .sp = h.mcsr .mscratch - sbiPtSize := (regs₃ .sp (by decide)).trans sp₂
  obtain ⟨g₄, savedStatus, mem₄, csr₄, regs₄⟩ :=
    MHart.saveCsr .mstatus (sp₃.symm ▸ frame.add (show Aligned ptMstatus by decide))
  have sp₄ : g₄.hart.get .sp = h.mcsr .mscratch - sbiPtSize := (regs₄ .sp (by decide)).trans sp₃
  obtain ⟨g₅, swappedBack, mem₅, scratch₅, csr₅, regs₅⟩ :=
    sbiSwapTop (sp₄.symm ▸ frame.add (show Aligned ptSp by decide))
  have sp₅ : g₅.hart.get .sp = h.mcsr .mscratch - sbiPtSize := (regs₅ .sp (by decide)).trans sp₄
  -- The stores move no control register but `mscratch`.
  have csr : ∀ c, c ≠ .mscratch → g₅.mcsr c = h.mcsr c := by
    intro c other
    rw [csr₅ c other, csr₄, csr₃]
    exact csr₁ c other
  have early : g₄.mcsr .mscratch = h.hart.get .sp := by
    rw [csr₄, csr₃]
    exact scratch₁
  -- The call passes the frame, and moves nothing else that matters.
  obtain ⟨called, callRan, sp₆, a0, tp₆, mem₆⟩ : ∃ called,
      Hart.execs [.mv .a0 .sp, .li .ra text.saveContext] g₅.hart = some called ∧
        called.get .sp = g₅.hart.get .sp ∧ called.get .a0 = g₅.hart.get .sp ∧
        called.get .tp = g₅.hart.get .tp ∧ called.mem = g₅.hart.mem :=
    ⟨_, rfl, by simp⟩
  -- Four writes to different slots of the frame, the last of them of the stack pointer.
  have filled : called.mem = Function.update (Function.update (Function.update stored.mem
      (h.mcsr .mscratch - sbiPtSize + ptMepc) (h.mcsr .mepc))
      (h.mcsr .mscratch - sbiPtSize + ptMstatus) (h.mcsr .mstatus))
      (h.mcsr .mscratch - sbiPtSize + ptSp) (h.hart.get .sp) := by
    have pc : g₂.mcsr .mepc = h.mcsr .mepc := csr₁ _ (by decide)
    have status : g₃.mcsr .mstatus = h.mcsr .mstatus := by
      rw [csr₃]
      exact csr₁ _ (by decide)
    rw [mem₆, mem₅, mem₄, mem₃, sp₄, sp₃, sp₂, early, status, pc]
  refine ⟨_, MHart.chain swapped (MHart.chain reserved (MHart.chain (MHart.execs_lower ran)
    (MHart.chain savedPc (MHart.chain savedStatus (MHart.chain swappedBack
    (MHart.chain (MHart.execs_lower callRan) rfl)))))), sp₆.trans sp₅, a0.trans sp₅, ?_, ?_,
    csr .mcause (by decide), ?_, ?_, ?_, ?_⟩
  · refine tp₆.trans ?_
    rw [regs₅ _ (by decide), regs₄ _ (by decide), regs₃ _ (by decide)]
    exact (same.get .tp).trans (regs₁ .tp (by decide))
  · have whole : h.mcsr .mscratch - sbiPtSize + sbiPtSize = h.mcsr .mscratch :=
      BitVec.sub_add_cancel _ _
    exact scratch₅.trans (by rw [sp₄, whole])
  · -- The registers are stored first, so the later words must be elsewhere.
    intro slot member
    have others : ∀ slot ∈ savedSlots,
        slot.1 ≠ .sp ∧ slot.2 ≠ ptSp ∧ slot.2 ≠ ptMstatus ∧ slot.2 ≠ ptMepc := by decide
    obtain ⟨notSp, apartSp, apartStatus, apartPc⟩ := others slot member
    show called.mem _ = _
    rw [filled, Function.update_of_ne (slot_ne apartSp), Function.update_of_ne (slot_ne apartStatus),
      Function.update_of_ne (slot_ne apartPc), written slot member, regs₁ _ notSp]
  · show called.mem _ = _
    rw [filled, Function.update_self]
  · show called.mem _ = _
    rw [filled, Function.update_of_ne (slot_ne (by decide)), Function.update_of_ne (slot_ne (by decide)),
      Function.update_self]
  · show called.mem _ = _
    rw [filled, Function.update_of_ne (slot_ne (by decide)), Function.update_self]

/-! ### Exit -/

/-- The hart just before `mret`. -/
structure SbiRestored (h h' : MHart) : Prop where
  regs : ∀ slot ∈ savedSlots, h'.hart.get slot.1 = h.hart.mem (h.hart.get .sp + slot.2)
  sp : h'.hart.get .sp = h.hart.mem (h.hart.get .sp + ptSp)
  tp : h'.hart.get .tp = h.hart.get .tp
  mstatus : h'.mcsr .mstatus = h.hart.mem (h.hart.get .sp + ptMstatus)
  mepc : h'.mcsr .mepc = h.hart.mem (h.hart.get .sp + ptMepc)
  mscratch : h'.mcsr .mscratch = h.mcsr .mscratch

/-- With its stack pointer at a frame the vector gets to `mret`. -/
theorem sbiSaveContext_restored {h : MHart} (aligned : Aligned (h.hart.get .sp)) :
    ∃ h', sbiSaveContext h = some h' ∧ SbiRestored h h' := by
  obtain ⟨g, first, mem, status, csrs, regs⟩ :=
    MHart.loadCsr .mstatus (aligned.add (show Aligned ptMstatus by decide))
  have sp : g.hart.get .sp = h.hart.get .sp := regs .sp (by decide)
  obtain ⟨g', second, mem', pc, csrs', regs'⟩ :=
    MHart.loadCsr .mepc (sp.symm ▸ aligned.add (show Aligned ptMepc by decide))
  have sp' : g'.hart.get .sp = h.hart.get .sp := (regs' .sp (by decide)).trans sp
  -- Loads change no memory, so the frame is read as it was handed over.
  have memory : g'.hart.mem = h.hart.mem := mem'.trans mem
  -- The registers are loaded but for `tp`, which was never stored, and the stack pointer last.
  obtain ⟨loaded, ran, same, filled, kept⟩ := Hart.execs_loads .sp savedSlots g'.hart
    (sp'.symm ▸ aligned) (by decide) (by decide) (by decide) (by decide)
  rw [sp', memory] at filled
  have base : loaded.get .sp = h.hart.get .sp := (kept .sp (by decide)).trans sp'
  have slot : Aligned (loaded.get .sp + ptSp) := by
    rw [base]
    exact aligned.add (by decide)
  let final := loaded.set .sp (loaded.mem (loaded.get .sp + ptSp))
  have last : MHart.exec (.lower (.ld .sp ptSp .sp)) { g' with hart := loaded } =
      some { g' with hart := final } := by
    rw [MHart.exec, Hart.exec_ld slot, Option.map_some]
  -- The stack pointer is loaded last, through itself.
  have notSp : ∀ slot ∈ savedSlots, slot.1 ≠ .sp := by decide
  refine ⟨_, MHart.chain first (MHart.chain second (MHart.chain (MHart.execs_lower ran) last)),
    fun slot member => ?_, ?_, ?_, ?_, ?_, ?_⟩
  · rw [Hart.get_set_of_ne loaded _ (notSp slot member)]
    exact filled slot member
  · rw [Hart.get_set_self loaded _ (by decide), base, same.mem, memory]
  · rw [Hart.get_set_of_ne loaded _ (by decide), kept .tp (by decide), regs' _ (by decide),
      regs _ (by decide)]
  · exact (csrs' _ (by decide)).trans status
  · exact pc.trans (by rw [sp, mem])
  · exact (csrs' _ (by decide)).trans (csrs _ (by decide))

/-! ### Whole traps -/

/-- Whether a trap is a call of `getchar`, whose answer the caller finds in `a0`. -/
def CallsGetchar (cause : U64) (h : MHart) : Prop :=
  cause = causeSupervisorEcall ∧ (h.hart.get .a7).setWidth 32 = sbiConsoleGetchar

instance (cause : U64) (h : MHart) : Decidable (CallsGetchar cause h) :=
  inferInstanceAs (Decidable (_ ∧ _))

/-- What the hart is just before `mret`, and what `mret` makes of it. -/
structure SbiGivesBack (h : MHart) (cause : U64) (board : Board) (ready : MHart) : Prop where
  mstatus : ready.mcsr .mstatus = h.trapStatus
  mepc : ready.mcsr .mepc =
    if cause = causeSupervisorEcall then h.hart.pc + 4 else h.hart.pc
  regs : ∀ r, r ≠ .a0 → ready.mret.hart.get r = h.hart.get r
  a0 : ready.mret.hart.get .a0 =
    if CallsGetchar cause h then board.uart.uartGet.1.setWidth 64 else h.hart.get .a0
  pc : ready.mret.hart.pc = ready.mcsr .mepc
  machine : ready.mret.machine = h.machine
  supervisor : ready.mret.hart.supervisor = h.hart.supervisor
  virt : ready.mret.hart.virt = h.hart.virt
  mscratch : ready.mret.mcsr .mscratch = h.mcsr .mscratch

section Mtrap

variable (h : MHart) (cause mtvec : U64)

@[simp] theorem mscratch_mtrap : (h.mtrap cause mtvec).mcsr .mscratch = h.mcsr .mscratch := by
  simp [MHart.mtrap, MHart.setCsr]

@[simp] theorem mcause_mtrap : (h.mtrap cause mtvec).mcsr .mcause = cause := by
  simp [MHart.mtrap, MHart.setCsr]

@[simp] theorem mepc_mtrap : (h.mtrap cause mtvec).mcsr .mepc = h.hart.pc := by
  simp [MHart.mtrap, MHart.setCsr]

@[simp] theorem mstatus_mtrap : (h.mtrap cause mtvec).mcsr .mstatus = h.trapStatus := by
  simp [MHart.mtrap, MHart.setCsr]

@[simp] theorem get_mtrap (r : Reg) : (h.mtrap cause mtvec).hart.get r = h.hart.get r := rfl

@[simp] theorem mscratch_mret : h.mret.mcsr .mscratch = h.mcsr .mscratch := by
  simp [MHart.mret, MHart.setCsr]

end Mtrap

/-- A trap from below records the interrupted mode in `MPP` and `MPV`. -/
theorem trapStatus_mode {h : MHart} (below : h.machine = false) :
    h.trapStatus.getLsbD (MHart.mppBit + 1) = false ∧
      h.trapStatus.getLsbD MHart.mppBit = h.hart.supervisor ∧
      h.trapStatus.getLsbD MHart.mpvBit = h.hart.virt := by
  have other : ∀ {w : U64} {i j : Nat} {value : Bool}, i < 64 → j ≠ i →
      (Hart.putBit w i value).getLsbD j = w.getLsbD j := by
    intro w i j value fits apart
    rw [Hart.putBit_getLsbD w fits, if_neg apart]
  have here : ∀ {w : U64} {i : Nat} {value : Bool}, i < 64 →
      (Hart.putBit w i value).getLsbD i = value := by
    intro w i value fits
    rw [Hart.putBit_getLsbD w fits, if_pos rfl]
  -- Each bit was written once, and the later writes are of other bits.
  rw [MHart.trapStatus]
  refine ⟨?_, ?_, ?_⟩
  · rw [other (by decide) (by decide), other (by decide) (by decide), other (by decide) (by decide),
      here (by decide), below]
  · rw [other (by decide) (by decide), other (by decide) (by decide), other (by decide) (by decide),
      other (by decide) (by decide), here (by decide), below, Bool.false_or]
  · rw [other (by decide) (by decide), here (by decide)]

/-- `mret` goes back to the mode a trap from below recorded. -/
theorem mret_mode {h ready : MHart} (below : h.machine = false)
    (status : ready.mcsr .mstatus = h.trapStatus) :
    ready.mret.machine = h.machine ∧ ready.mret.hart.supervisor = h.hart.supervisor ∧
      ready.mret.hart.virt = h.hart.virt := by
  -- The status word that the frame gives back is the one of the trap.
  obtain ⟨machine, supervisor, virt⟩ := trapStatus_mode below
  rw [← status] at machine supervisor virt
  refine ⟨?_, supervisor, ?_⟩
  · rw [below]
    exact machine
  · show (!(ready.mcsr .mstatus).getLsbD (MHart.mppBit + 1) &&
      (ready.mcsr .mstatus).getLsbD MHart.mpvBit) = _
    rw [machine, virt, Bool.not_false, Bool.true_and]

/-- The handler is given what was captured. -/
theorem SbiCalled.given {h entered : MHart} {cause mtvec : U64}
    (called : SbiCalled (h.mtrap cause mtvec) entered) :
    sbiFrameRegs entered.hart.mem (entered.hart.get .a0) =
      { mepc := h.hart.pc, a0 := h.hart.get .a0, a7 := h.hart.get .a7 } := by
  -- The handler reads what `kernel_entry` has stored.
  have captured := called.captured
  have pc := captured.mepc
  rw [mepc_mtrap] at pc
  have a0 : _ = h.hart.get .a0 := captured.regs (.a0, ptA0) (by decide)
  have a7 : _ = h.hart.get .a7 := captured.regs (.a7, sbiPtA7) (by decide)
  rw [called.a0, sbiFrameRegs, pc, a0, a7]

/-- What the handler makes of the two fields of the frame that it writes. -/
theorem SbiHandles.fields {h entered left : MHart} {board board' : Board} {cause mtvec : U64}
    (called : SbiCalled (h.mtrap cause mtvec) entered)
    (handles : SbiHandles board entered board' left) :
    left.hart.mem (h.mcsr .mscratch - sbiPtSize + ptMepc) =
        (if cause = causeSupervisorEcall then h.hart.pc + 4 else h.hart.pc) ∧
      left.hart.mem (h.mcsr .mscratch - sbiPtSize + ptA0) =
        if CallsGetchar cause h then board.uart.uartGet.1.setWidth 64 else h.hart.get .a0 := by
  have frame : entered.hart.get .a0 = h.mcsr .mscratch - sbiPtSize := called.a0.trans (by simp)
  have handled := handles.handled
  rw [called.given, called.mcause, mcause_mtrap, frame] at handled
  rcases sbiTrapHandler_cases handled with ⟨other, same, -⟩ | ⟨ecall, served⟩
  · -- A timer interrupt leaves the frame as it is.
    have noCall : ¬ CallsGetchar cause h := fun getchar => other getchar.1
    rw [if_neg other, if_neg noCall]
    exact ⟨congrArg SbiTrapRegs.mepc same, congrArg SbiTrapRegs.a0 same⟩
  · -- A call moves the counter behind it, and may be answered.
    obtain ⟨pc, -, kept, answered⟩ := sbiEcallHandle_regs ((h.hart.get .a7).setWidth 32)
      { mepc := h.hart.pc, a0 := h.hart.get .a0, a7 := h.hart.get .a7 } board
    have fields := congrArg Prod.fst served
    refine ⟨?_, ?_⟩
    · rw [if_pos ecall]
      exact (congrArg SbiTrapRegs.mepc fields).trans pc
    · refine (congrArg SbiTrapRegs.a0 fields).trans ?_
      by_cases getchar : (h.hart.get .a7).setWidth 32 = sbiConsoleGetchar
      · rw [if_pos ⟨ecall, getchar⟩]
        exact answered getchar
      · rw [if_neg fun call => getchar call.2]
        exact kept getchar

/-- From wherever the handler returns, the vector gives back what it interrupted. -/
theorem SbiCalled.givesBack {h entered left : MHart} {board board' : Board} {cause mtvec : U64}
    (aligned : Aligned (h.mcsr .mscratch)) (below : h.machine = false)
    (called : SbiCalled (h.mtrap cause mtvec) entered)
    (handles : SbiHandles board entered board' left) :
    ∃ ready, sbiSaveContext left = some ready ∧ SbiGivesBack h cause board ready := by
  obtain ⟨pc, a0⟩ := handles.fields called
  have captured := called.captured
  rw [mscratch_mtrap] at captured
  have frame : entered.hart.get .a0 = h.mcsr .mscratch - sbiPtSize := by
    rw [called.a0, mscratch_mtrap]
  have sp : left.hart.get .sp = h.mcsr .mscratch - sbiPtSize := by
    rw [handles.sp, called.sp, mscratch_mtrap]
  -- The frame is below an aligned top, and of an aligned size.
  have based : Aligned (left.hart.get .sp) := by
    rw [sp, BitVec.sub_eq_add_neg]
    exact aligned.add (by decide)
  -- The rest of the frame is as it was captured.
  have word : ∀ slot : U64, slot.toNat < sbiPtSize.toNat → slot ≠ ptMepc → slot ≠ ptA0 →
      left.hart.mem (h.mcsr .mscratch - sbiPtSize + slot) =
        entered.hart.mem (h.mcsr .mscratch - sbiPtSize + slot) := by
    intro slot within notPc notA0
    refine handles.mem _ ?_ ?_ ?_
    · rw [OnSbiFrame, frame, BitVec.add_comm, BitVec.add_sub_cancel]
      exact within
    · rw [frame]
      exact fun equal => notPc (by simpa using equal)
    · rw [frame]
      exact fun equal => notA0 (by simpa using equal)
  obtain ⟨ready, exited, restored⟩ := sbiSaveContext_restored based
  -- What `mret` reads is what the trap has pushed.
  have status : ready.mcsr .mstatus = h.trapStatus := by
    rw [restored.mstatus, sp, word _ (by decide) (by decide) (by decide), captured.mstatus,
      mstatus_mtrap]
  obtain ⟨machine, supervisor, virt⟩ := mret_mode below status
  refine ⟨ready, exited, status, ?_, fun r other => ?_, ?_, rfl, machine, supervisor, virt, ?_⟩
  · rw [restored.mepc, sp, pc]
  · show ready.hart.get r = h.hart.get r
    -- Every register is zero, the two pointers, or one of the frame's slots.
    rcases restored_covers r with rfl | rfl | rfl | ⟨slot, saved, rfl, -⟩
    · rw [Hart.get_zero, Hart.get_zero]
    · rw [restored.sp, sp, word _ (by decide) (by decide) (by decide), captured.sp, get_mtrap]
    · rw [restored.tp, handles.tp, called.tp, get_mtrap]
    · have slots : ∀ slot ∈ savedSlots, slot.2.toNat < sbiPtSize.toNat ∧ slot.2 ≠ ptMepc ∧
          (slot.1 ≠ .a0 → slot.2 ≠ ptA0) := by decide
      obtain ⟨within, notPc, notA0⟩ := slots slot saved
      rw [restored.regs slot saved, sp, word _ within notPc (notA0 other),
        captured.regs slot saved, get_mtrap]
  · show ready.hart.get .a0 = _
    rw [← a0, ← sp]
    exact restored.regs (.a0, ptA0) (by decide)
  · rw [mscratch_mret, restored.mscratch, handles.mscratch, called.mscratch, mscratch_mtrap]

/-! ### Runs -/

/-- Code below M mode, which cannot write `mscratch`, or a trap whose handler returns. -/
inductive SbiStep (text : SbiText) : Board × MHart → Board × MHart → Prop where
  | lower {board board' : Board} {h h' : MHart} (below : h.machine = false)
      (stays : h'.machine = false) (mscratch : h'.mcsr .mscratch = h.mcsr .mscratch) :
      SbiStep text (board, h) (board', h')
  | trap {board board' : Board} {h entered left ready : MHart} (cause : U64)
      (below : h.machine = false)
      (entry : sbiExceptionVector text (h.mtrap cause text.sbiExceptionVector) = some entered)
      (handles : SbiHandles board entered board' left)
      (exit : sbiSaveContext left = some ready) :
      SbiStep text (board, h) (board', ready.mret)

/-- What `_start` sets up and holds below M mode ever after. -/
structure SbiReady (stacksStart : U64) (h : MHart) : Prop where
  below : h.machine = false
  mscratch : h.mcsr .mscratch = sbiStackTop stacksStart

/-- The top of the M-mode stack is aligned, as the stack is. -/
theorem sbiStackTop_aligned {stacksStart : U64} (page : stacksStart.toNat % 4096 = 0) :
    Aligned (sbiStackTop stacksStart) := by
  have size : (4096 : U64).toNat = 4096 := rfl
  unfold Aligned sbiStackTop
  rw [BitVec.toNat_add, size]
  omega

/-- A trap leaves everything ready for the next one. -/
theorem SbiReady.step {text : SbiText} {stacksStart : U64} (page : stacksStart.toNat % 4096 = 0)
    (state next : Board × MHart) (ready : SbiReady stacksStart state.2)
    (taken : SbiStep text state next) : SbiReady stacksStart next.2 := by
  -- A step is one below machine mode, or a trap with its handler and its return.
  cases taken with
  | lower _ stays mscratch => exact ⟨stays, mscratch.trans ready.mscratch⟩
  | @trap board board' h entered left before cause below entry handles exit =>
    have aligned : Aligned (h.mcsr .mscratch) := by
      rw [ready.mscratch]
      exact sbiStackTop_aligned page
    obtain ⟨entered', entry', called⟩ := sbiExceptionVector_called text
      (h := h.mtrap cause text.sbiExceptionVector) (by rw [mscratch_mtrap]; exact aligned)
    rw [entry] at entry'
    cases entry'
    obtain ⟨before', exit', givesBack⟩ := called.givesBack aligned below handles
    rw [exit] at exit'
    cases exit'
    exact ⟨givesBack.machine.trans below, givesBack.mscratch.trans ready.mscratch⟩

/--
However many traps have been taken, `mscratch` holds the top of the M-mode stack, the next trap
calls the handler with a frame right below it, and when the handler returns the vector gets to
`mret`, which gives back every register and the mode: only a call moves `mepc`, and only `getchar`
changes `a0`.
-/
theorem sbiTrap_givesBack (text : SbiText) {stacksStart : U64} {start state : Board × MHart}
    (page : stacksStart.toNat % 4096 = 0) (boot : SbiReady stacksStart start.2)
    (reached : ReflTransGen (SbiStep text) start state) :
    SbiReady stacksStart state.2 ∧ ∀ cause, ∃ entered,
      sbiExceptionVector text (state.2.mtrap cause text.sbiExceptionVector) = some entered ∧
      SbiCalled (state.2.mtrap cause text.sbiExceptionVector) entered ∧
      entered.hart.get .sp = sbiStackTop stacksStart - sbiPtSize ∧
      ∀ board' left, SbiHandles state.1 entered board' left →
        ∃ ready, sbiSaveContext left = some ready ∧ SbiGivesBack state.2 cause state.1 ready := by
  -- Whenever a trap comes, `mscratch` is the top of the stack again.
  have ready : SbiReady stacksStart state.2 :=
    Transition.reachable_invariant (SbiReady.step page) boot reached
  have aligned : Aligned (state.2.mcsr .mscratch) := by
    rw [ready.mscratch]
    exact sbiStackTop_aligned page
  refine ⟨ready, fun cause => ?_⟩
  obtain ⟨entered, entry, called⟩ := sbiExceptionVector_called text
    (h := state.2.mtrap cause text.sbiExceptionVector) (by rw [mscratch_mtrap]; exact aligned)
  refine ⟨entered, entry, called, ?_, fun board' left handles =>
    called.givesBack aligned ready.below handles⟩
  rw [called.sp, mscratch_mtrap, ready.mscratch]

def exampleSbiText : SbiText :=
  { sbiExceptionVector := 0x80000100, sbiTrapHandler := 0x80000400, saveContext := 0x800001f0 }

/-- A board on which the letter `A` has been typed. -/
def exampleBoard : Board :=
  { timers :=
      { mie := 0, mip := 0, sie := 0, hvip := 0, timerVal := 0, timerCmp := 0, jiffies := 0
        vcpuTimeDelta := 0, vcpuNextCycle := 0, vcpuTimerInit := 0 }
    uart := { received := [0x41], sent := [] } }

/-- The supervisor about to call `getchar`, the M-mode stack being at `0x80001000`. -/
def exampleSupervisor : MHart :=
  { hart :=
      { x := fun r => if r = .a7 then 2 else if r = .sp then 0x80202000 else 7
        csr := fun _ => 0
        pc := 0x80200400
        mem := fun _ => 0
        supervisor := true
        virt := false }
    mcsr := fun c => if c = .mscratch then 0x80002000 else 0
    machine := false }

/-- The supervisor calls `getchar`, and finds the letter in `a0` behind its `ecall`. -/
theorem sbiTrap_givesBack_getchar :
    ∃ entered left ready, sbiExceptionVector exampleSbiText
        (exampleSupervisor.mtrap causeSupervisorEcall 0x80000100) = some entered ∧
      sbiSaveContext left = some ready ∧ ready.mret.hart.get .a0 = 0x41 ∧
      ready.mret.hart.pc = 0x80200404 ∧ ready.mret.mcsr .mscratch = 0x80002000 := by
  have boot : SbiReady 0x80001000 exampleSupervisor := ⟨rfl, rfl⟩
  have reached : ReflTransGen (SbiStep exampleSbiText) (exampleBoard, exampleSupervisor)
      (exampleBoard, exampleSupervisor) := ReflTransGen.refl
  obtain ⟨-, trapped⟩ := sbiTrap_givesBack exampleSbiText (by decide) boot reached
  obtain ⟨entered, entry, called, -, back⟩ := trapped causeSupervisorEcall
  let frame : U64 := 0x80002000 - sbiPtSize
  -- The handler moves the counter and puts the letter into the frame.
  obtain ⟨mem, written⟩ : ∃ mem, mem = Function.update
      (Function.update entered.hart.mem (frame + ptMepc) 0x80200404) (frame + ptA0) 0x41 := ⟨_, rfl⟩
  let left : MHart := { entered with hart := { entered.hart with mem } }
  have a0 : entered.hart.get .a0 = frame := called.a0
  have handles : SbiHandles exampleBoard entered
      { exampleBoard with uart := { received := [], sent := [] } } left := by
    refine ⟨?_, fun addr _ notPc notA0 => ?_, rfl, rfl, rfl⟩
    · -- The handler's answer is the frame that the dispatch computes.
      have fields : sbiFrameRegs mem frame = { mepc := 0x80200404, a0 := 0x41, a7 := 2 } := by
        have apart : frame + sbiPtA7 ≠ frame + ptA0 ∧ frame + sbiPtA7 ≠ frame + ptMepc ∧
            frame + ptMepc ≠ frame + ptA0 := by decide
        have number : entered.hart.mem (frame + sbiPtA7) = 2 :=
          called.captured.regs (.a7, sbiPtA7) (by decide)
        rw [sbiFrameRegs, written, Function.update_of_ne apart.2.2, Function.update_self,
          Function.update_self, Function.update_of_ne apart.1, Function.update_of_ne apart.2.1,
          number]
      rw [called.given, called.mcause, a0, fields]
      rfl
    · rw [a0] at notPc notA0
      show mem addr = _
      rw [written, Function.update_of_ne notA0, Function.update_of_ne notPc]
  obtain ⟨ready, exited, givesBack⟩ := back _ left handles
  have letter : CallsGetchar causeSupervisorEcall exampleSupervisor := by decide
  refine ⟨entered, left, ready, entry, exited, ?_, ?_, givesBack.mscratch⟩
  · rw [givesBack.a0, if_pos letter]
    decide
  · rw [givesBack.pc, givesBack.mepc, if_pos rfl]
    rfl

end Benos
