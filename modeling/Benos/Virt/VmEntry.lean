import Benos.Lib.Transition
import Benos.Trap.Nested
import Benos.Virt.Vector

/-! The entry into the guest, from `vs_main` to the `sret` of `jump_to_vs_mode`. -/

namespace Benos

/-! ### The code -/

/-- `SSTATUS_SPP`. -/
def sstatusSpp : U64 := 1 <<< 8

/-- `HSTATUS_SPVP`. -/
def hstatusSpvp : U64 := 1 <<< 8

/-- Where `vs_thread` is; each place is named after the instruction it is at. -/
inductive EntryPlace where
  /-- `val = read_csr(sstatus)` -/
  | readSstatus
  /-- `val |= SSTATUS_SPP` -/
  | orSpp
  /-- `write_csr(sstatus, val)` -/
  | writeSstatus
  /-- `val = read_csr(CSR_HSTATUS)` -/
  | readHstatus
  /-- `val |= HSTATUS_SPV | HSTATUS_SPVP` -/
  | orSpv
  /-- `write_csr(CSR_HSTATUS, val)` -/
  | writeHstatus
  /-- The rest of `vs_main`, up to the call of `jump_to_vs_mode`. -/
  | prepare
  /-- `sd sp, TASK_TI_KERNEL_SP(tp)`, the first instruction of `jump_to_vs_mode`. -/
  | saveSp
  | writeSscratch
  | loadLabel
  | writeSepc
  | sret
  /-- Behind `sret`. -/
  | entered
  deriving DecidableEq

/-- The instruction at a place and the place behind it; `val` lives in `a5`. -/
def EntryPlace.instr (label : U64) (h : Hart) : EntryPlace → Option (EntryPlace × Hart)
  | .readSstatus => (h.exec (.csrr .a5 .sstatus)).map (.orSpp, ·)
  | .orSpp => some (.writeSstatus, h.set .a5 (h.get .a5 ||| sstatusSpp))
  | .writeSstatus => (h.exec (.csrw .sstatus .a5)).map (.readHstatus, ·)
  | .readHstatus => (h.exec (.csrr .a5 .hstatus)).map (.orSpv, ·)
  | .orSpv => some (.writeHstatus, h.set .a5 (h.get .a5 ||| (hstatusSpv ||| hstatusSpvp)))
  | .writeHstatus => (h.exec (.csrw .hstatus .a5)).map (.prepare, ·)
  | .prepare => none
  | .saveSp => (h.exec (.sd .sp taskTiKernelSp .tp)).map (.writeSscratch, ·)
  | .writeSscratch => (h.exec (.csrw .sscratch .tp)).map (.loadLabel, ·)
  | .loadLabel => (h.exec (.li .t0 label)).map (.writeSepc, ·)
  | .writeSepc => (h.exec (.csrw .sepc .t0)).map (.sret, ·)
  | .sret => some (.entered, h.sret)
  | .entered => none

/-- What the C code of `vs_main` leaves alone, between its writes of the status and the call. -/
structure Prepares (h h' : Hart) : Prop where
  tp : h'.get .tp = h.get .tp
  supervisor : h'.supervisor = h.supervisor
  virt : h'.virt = h.virt
  sstatus : h'.csr .sstatus = h.csr .sstatus
  hstatus : h'.csr .hstatus = h.csr .hstatus
  sscratch : h'.csr .sscratch = h.csr .sscratch

instance (h h' : Hart) : Decidable (Prepares h h') :=
  decidable_of_iff (h'.get .tp = h.get .tp ∧ h'.supervisor = h.supervisor ∧ h'.virt = h.virt ∧
      h'.csr .sstatus = h.csr .sstatus ∧ h'.csr .hstatus = h.csr .hstatus ∧
      h'.csr .sscratch = h.csr .sscratch)
    ⟨fun ⟨tp, s, v, ss, hs, sc⟩ => ⟨tp, s, v, ss, hs, sc⟩,
      fun ⟨tp, s, v, ss, hs, sc⟩ => ⟨tp, s, v, ss, hs, sc⟩⟩

/-! ### Timer interrupts -/

/-- What a call made by the trap code keeps: the convention, and the frame its stack is at. -/
structure KeepsFrame (called left : Hart) : Prop where
  sp : left.get .sp = called.get .sp
  tp : left.get .tp = called.get .tp
  sscratch : left.csr .sscratch = called.csr .sscratch
  mem : ∀ addr, OnFrame (called.get .sp) addr → left.mem addr = called.mem addr

/-- A timer interrupt, with what the calls of the trap code do while it is handled. -/
structure TimerIrq where
  stval : U64
  doException : Hart → Option Hart
  schedule : Hart → Option Hart
  preemptScheduleIrq : Hart → Option Hart
  fuel : Nat
  handled : ∀ {called left : Hart}, doException called = some left → KeepsFrame called left
  preempted : ∀ {called left : Hart}, preemptScheduleIrq called = some left →
    KeepsFrame called left

/-- `scause` of a timer interrupt of HS mode. -/
def timerIrqCause : U64 := scauseInt ||| interruptCauseTimer

/-- The interrupt as a whole, from the interrupted hart to the one behind the `sret` of the trap code. -/
def TimerIrq.round (text : TrapText) (irq : TimerIrq) (h : Hart) : Option Hart := do
  let h ← doExceptionVector text (h.trap timerIrqCause irq.stval text.doExceptionVector)
  let h ← irq.doException h
  let h ← retFromException irq.schedule irq.preemptScheduleIrq irq.fuel h
  some h.sret

/-! ### Runs -/

/-- `vs_thread` on its way into the guest, with the arguments of `jump_to_vs_mode` once called. -/
structure VmEntry where
  place : EntryPlace
  hart : Hart
  newSp : U64
  addr : U64

/-- What can happen on the way. -/
inductive EntryEvent where
  /-- The next instruction. -/
  | next
  /-- A part of the C code in front of the call. -/
  | prepare (after : Hart)
  /-- `jump_to_vs_mode(new_sp, addr)` is called. -/
  | call (newSp addr : U64)
  | timer (irq : TimerIrq)

/-- One event; an interrupt is only taken while `SIE` is set. -/
def EntryEvent.step (text : TrapText) (label : U64) : EntryEvent → VmEntry → Option VmEntry
  | .next, e =>
    (e.place.instr label e.hart).map fun (place, hart) => { e with place := place, hart := hart }
  | .prepare after, e =>
    if e.place = .prepare ∧ Prepares e.hart after then some { e with hart := after } else none
  | .call newSp addr, e =>
    if e.place = .prepare then
      some { place := .saveSp, hart := (e.hart.set .a0 newSp).set .a1 addr,
             newSp := newSp, addr := addr }
    else none
  | .timer irq, e =>
    if e.place ≠ .entered ∧ (e.hart.csr .sstatus).getLsbD Hart.sieBit = true then
      (irq.round text e.hart).map fun hart => { e with hart := hart }
    else none

/-- The guest is entered: VS mode at the label, whose first two instructions set `sp` and `a0`. -/
def VmEntry.EntersGuest (label : U64) (e : VmEntry) : Prop :=
  e.hart.supervisor = true ∧ e.hart.virt = true ∧ e.hart.pc = label ∧
    ∃ h, Hart.execs [.mv .sp .a0, .mv .a0 .a1] e.hart = some h ∧
      h.get .sp = e.newSp ∧ h.get .a0 = e.addr

/-- The places up to the write of `sstatus`. -/
def EntryPlace.Early (place : EntryPlace) : Prop :=
  place = .readSstatus ∨ place = .orSpp ∨ place = .writeSstatus

instance (place : EntryPlace) : Decidable place.Early := inferInstanceAs (Decidable (_ ∨ _))

/-- An interrupt is harmless before `sstatus` is written; other events always are. -/
def EntryEvent.Harmless : EntryEvent → VmEntry → Prop
  | .timer _, e => e.place.Early
  | _, _ => True

/-! ### One interrupt -/

theorem KeepsFrame.trans {a b c : Hart} (first : KeepsFrame a b) (second : KeepsFrame b c) :
    KeepsFrame a c := by
  refine ⟨second.sp.trans first.sp, second.tp.trans first.tp,
    second.sscratch.trans first.sscratch, fun addr on => ?_⟩
  rw [second.mem addr (first.sp.symm ▸ on), first.mem addr on]

/-- What `kernel_exit` cannot tell apart has the same frame. -/
theorem Alike.keepsFrame {h h' : Hart} (alike : Alike h h') : KeepsFrame h h' :=
  ⟨alike.sp, alike.tp, alike.sscratch, fun addr _ => congrFun alike.mem addr⟩

/-- However often the task is preempted, its frame is what `kernel_exit` gets to see. -/
theorem needReschedLoop_exits {preempt : Hart → Option Hart}
    (keeps : ∀ {called left : Hart}, preempt called = some left → KeepsFrame called left)
    {fuel : Nat} {h ready : Hart} (task : Aligned (h.get .tp))
    (ran : needReschedLoop preempt fuel h = some ready) :
    ∃ mid, kernelExit mid = some ready ∧ KeepsFrame h mid := by
  induction fuel generalizing h with
  | zero => cases ran
  | succ fuel ih =>
    obtain ⟨g, tested, -, alike⟩ := testResched task
    rw [needReschedLoop, tested] at ran
    change (if g.get .s1 = 0 then kernelExit g else _) = _ at ran
    split at ran
    · exact ⟨g, ran, alike.keepsFrame⟩
    · -- `preempt_schedule_irq` returns to the loop with the frame as it was.
      obtain ⟨left, preempted, ran⟩ := Option.bind_eq_some_iff.mp ran
      have kept := alike.keepsFrame.trans (keeps preempted)
      obtain ⟨mid, exited, others⟩ := ih (kept.tp.symm ▸ task) ran
      exact ⟨mid, exited, kept.trans others⟩

/-- Whether or not preemption is off, `ret_to_kernel` gets to `kernel_exit` with its frame. -/
theorem retToKernel_exits {preempt : Hart → Option Hart}
    (keeps : ∀ {called left : Hart}, preempt called = some left → KeepsFrame called left)
    {fuel : Nat} {h ready : Hart} (task : Aligned (h.get .tp))
    (ran : retToKernel preempt fuel h = some ready) :
    ∃ mid, kernelExit mid = some ready ∧ KeepsFrame h mid := by
  obtain ⟨g, counted, ran⟩ := Option.bind_eq_some_iff.mp ran
  -- Loading the count changes only the register it is loaded to.
  have same : Alike h g := by
    rw [Hart.exec] at counted
    split at counted
    · cases counted
      exact ⟨Hart.get_set_of_ne _ _ (by decide), Hart.get_set_of_ne _ _ (by decide),
        Hart.mem_set _ _ _, by rw [Hart.csr_set]⟩
    · cases counted
  -- Either the task may not be preempted, or the loop has come to its end.
  split at ran
  · exact ⟨g, ran, same.keepsFrame⟩
  · obtain ⟨mid, exited, kept⟩ := needReschedLoop_exits keeps (same.tp.symm ▸ task) ran
    exact ⟨mid, exited, same.keepsFrame.trans kept⟩

/-- The kernel thread as an interrupt has to find it. -/
structure EntryReady (task : U64) (h : Hart) : Prop where
  kernel : h.InKernel
  tp : h.get .tp = task
  sscratch : h.csr .sscratch = 0
  room : Room task (h.get .sp)

/-- Such a thread is resumed, and can be interrupted again. -/
theorem TimerIrq.round_resumed {text : TrapText} {irq : TimerIrq} {task : U64} {h h' : Hart}
    (ready : EntryReady task h) (ran : irq.round text h = some h') :
    Resumed h h' ∧ EntryReady task h' := by
  obtain ⟨kernel, tp, sscratch, room⟩ := ready
  have stack : kernelStack task h = h.get .sp := if_pos kernel
  obtain ⟨entered, entry, called⟩ := doExceptionVector_called text
    ⟨fun user => absurd kernel user, fun _ => ⟨sscratch, tp⟩⟩ (stack.symm ▸ room) timerIrqCause
    irq.stval
  simp only [TimerIrq.round, entry, Option.bind_eq_bind, Option.bind_some] at ran
  obtain ⟨left, handled, ran⟩ := Option.bind_eq_some_iff.mp ran
  obtain ⟨exit, returned, ran⟩ := Option.bind_eq_some_iff.mp ran
  cases ran
  -- The handler returns with the frame in which `kernel_entry` captured the thread.
  have kept := irq.handled handled
  have frame : Aligned (left.get .sp) := by
    rw [kept.sp, called.sp, stack]
    exact room.aligned
  have taskLeft : Aligned (left.get .tp) := by
    rw [kept.tp, called.tp]
    exact room.taskAligned
  have captured : Captured left.mem (left.get .sp)
      (h.trap timerIrqCause irq.stval text.doExceptionVector) := by
    rw [kept.sp]
    refine Captured.congr ?_ kept.mem
    rw [called.sp]
    exact called.captured
  -- The frame says that it was taken in the kernel.
  have inKernel : FrameInKernel left.mem (left.get .sp) := by
    rw [FrameInKernel, captured.sstatus, captured.hstatus, Hart.spp_trap, Hart.spv_trap]
    exact kernel
  obtain ⟨g, alike, toKernel, -⟩ :=
    retFromException_branch irq.schedule irq.preemptScheduleIrq irq.fuel frame
  rw [toKernel inKernel] at returned
  -- So it leaves by `ret_to_kernel`, which keeps the frame.
  obtain ⟨mid, exited, others⟩ :=
    retToKernel_exits irq.preempted (alike.tp.symm ▸ taskLeft) returned
  have keptMid := alike.keepsFrame.trans others
  obtain ⟨exit', exited', restored⟩ := kernelExit_restored (h := mid) (keptMid.sp.symm ▸ frame)
  rw [exited] at exited'
  cases exited'
  have capturedMid : Captured mid.mem (mid.get .sp)
      (h.trap timerIrqCause irq.stval text.doExceptionVector) := by
    rw [keptMid.sp]
    exact captured.congr keptMid.mem
  -- What `kernel_exit` loads is what was captured.
  have resumed := restored.resumed capturedMid
  refine ⟨resumed, ⟨resumed.supervisor.trans kernel.1, resumed.virt.trans kernel.2⟩,
    (resumed.regs .tp).trans tp, ?_, (resumed.regs .sp).symm ▸ room⟩
  rw [Hart.sscratch_sret, restored.sscratch, keptMid.sscratch, kept.sscratch]
  exact called.sscratch

/-- Whatever was interrupted, the `sret` of the trap code clears `SPP`. -/
theorem TimerIrq.round_spp {text : TrapText} {irq : TimerIrq} {h h' : Hart}
    (ran : irq.round text h = some h') : (h'.csr .sstatus).getLsbD Hart.sppBit = false := by
  simp only [TimerIrq.round, Option.bind_eq_bind, Option.bind_eq_some_iff] at ran
  obtain ⟨entered, -, left, -, exit, -, ran⟩ := ran
  cases ran
  exact Hart.spp_sret exit

/-! ### The way in -/

/-- `SPP` and `SPV` are set, so that `sret` gets to VS mode. -/
def ArmedForGuest (h : Hart) : Prop :=
  (h.csr .sstatus).getLsbD Hart.sppBit = true ∧ (h.csr .hstatus).getLsbD Hart.spvBit = true

/-- The arguments of `jump_to_vs_mode` are in their registers. -/
def VmEntry.HasArguments (e : VmEntry) : Prop :=
  e.hart.get .a0 = e.newSp ∧ e.hart.get .a1 = e.addr

/-- What holds at each place of a way in on which no interrupt came too late. -/
def VmEntry.OnTrack (task label : U64) (e : VmEntry) : Prop :=
  match e.place with
  | .readSstatus | .orSpp => EntryReady task e.hart
  | .writeSstatus => EntryReady task e.hart ∧ (e.hart.get .a5).getLsbD Hart.sppBit = true
  | .readHstatus | .orSpv => (e.hart.csr .sstatus).getLsbD Hart.sppBit = true
  | .writeHstatus => (e.hart.csr .sstatus).getLsbD Hart.sppBit = true ∧
      (e.hart.get .a5).getLsbD Hart.spvBit = true
  | .prepare => ArmedForGuest e.hart
  | .saveSp | .writeSscratch | .loadLabel => ArmedForGuest e.hart ∧ e.HasArguments
  | .writeSepc => ArmedForGuest e.hart ∧ e.HasArguments ∧ e.hart.get .t0 = label
  | .sret => ArmedForGuest e.hart ∧ e.HasArguments ∧ e.hart.csr .sepc = label
  | .entered => e.HasArguments ∧ e.hart.supervisor = true ∧ e.hart.virt = true ∧ e.hart.pc = label

/-- An instruction that writes neither pointer leaves the thread interruptible. -/
theorem EntryReady.set {task : U64} {h : Hart} (ready : EntryReady task h) {r : Reg}
    (value : U64) (notTp : Reg.tp ≠ r) (notSp : Reg.sp ≠ r) :
    EntryReady task (h.set r value) := by
  -- The register is neither of the two that matter.
  refine ⟨⟨?_, ?_⟩, ?_, ?_, ?_⟩
  · exact (Hart.supervisor_set _ _ _).trans ready.kernel.1
  · exact (Hart.virt_set _ _ _).trans ready.kernel.2
  · exact (Hart.get_set_of_ne _ _ notTp).trans ready.tp
  · rw [Hart.csr_set]
    exact ready.sscratch
  · rw [Hart.get_set_of_ne _ _ notSp]
    exact ready.room

/-- A mask that has a bit sets it. -/
theorem or_getLsbD_of_mask (w : U64) {mask : U64} {i : Nat} (bit : mask.getLsbD i = true) :
    (w ||| mask).getLsbD i = true := by
  rw [BitVec.getLsbD_or, bit, Bool.or_true]

/-- An instruction takes what holds at its place to what holds at the place behind it. -/
theorem VmEntry.OnTrack.next {task label : U64} {e : VmEntry} {place : EntryPlace} {hart : Hart}
    (track : e.OnTrack task label) (ran : e.place.instr label e.hart = some (place, hart)) :
    VmEntry.OnTrack task label { e with place := place, hart := hart } := by
  obtain ⟨here, h, newSp, addr⟩ := e
  cases here <;>
    simp only [EntryPlace.instr, Hart.exec, Option.map_some, Option.some.injEq, Prod.mk.injEq,
      reduceCtorEq] at ran
  -- Up to the write of `sstatus` the bit is only in `a5`.
  case readSstatus =>
    obtain ⟨rfl, rfl⟩ := ran
    have ready : EntryReady task h := track
    exact ready.set (r := .a5) _ (by decide) (by decide)
  case orSpp =>
    obtain ⟨rfl, rfl⟩ := ran
    have ready : EntryReady task h := track
    refine ⟨ready.set (r := .a5) _ (by decide) (by decide), ?_⟩
    dsimp only
    rw [Hart.get_set_self _ _ (by decide)]
    exact or_getLsbD_of_mask _ (by decide)
  case writeSstatus =>
    -- From here on `SPP` is set, and only a trap would clear it.
    obtain ⟨rfl, rfl⟩ := ran
    have bit : (h.get .a5).getLsbD Hart.sppBit = true := track.2
    simpa [VmEntry.OnTrack] using bit
  case readHstatus =>
    obtain ⟨rfl, rfl⟩ := ran
    simpa [VmEntry.OnTrack] using track
  -- The same with `SPV`, on the way to `hstatus`.
  case orSpv =>
    obtain ⟨rfl, rfl⟩ := ran
    have spp : (h.csr .sstatus).getLsbD Hart.sppBit = true := track
    refine ⟨by simpa using spp, ?_⟩
    dsimp only
    rw [Hart.get_set_self _ _ (by decide)]
    exact or_getLsbD_of_mask _ (by decide)
  case writeHstatus =>
    obtain ⟨rfl, rfl⟩ := ran
    have both : (h.csr .sstatus).getLsbD Hart.sppBit = true ∧
        (h.get .a5).getLsbD Hart.spvBit = true := track
    simpa [VmEntry.OnTrack, ArmedForGuest] using both
  -- Nothing behind it touches `sstatus` or `hstatus`.
  case saveSp =>
    split at ran
    · cases ran
      exact track
    · cases ran
  case writeSscratch =>
    obtain ⟨rfl, rfl⟩ := ran
    simpa [VmEntry.OnTrack, ArmedForGuest, VmEntry.HasArguments] using track
  case loadLabel =>
    obtain ⟨rfl, rfl⟩ := ran
    simpa [VmEntry.OnTrack, ArmedForGuest, VmEntry.HasArguments] using track
  case writeSepc =>
    obtain ⟨rfl, rfl⟩ := ran
    simpa [VmEntry.OnTrack, ArmedForGuest, VmEntry.HasArguments] using track
  case sret =>
    -- `sret` takes the mode from the bits and the address from `sepc`.
    obtain ⟨rfl, rfl⟩ := ran
    obtain ⟨⟨spp, spv⟩, arguments, sepc⟩ := track
    exact ⟨arguments, spp, spv, sepc⟩

/-- A harmless event leaves the way in on track. -/
theorem EntryEvent.step_onTrack {text : TrapText} {label task : U64} {event : EntryEvent}
    {e e' : VmEntry} (track : e.OnTrack task label) (harmless : event.Harmless e)
    (taken : event.step text label e = some e') : e'.OnTrack task label := by
  cases event with
  | next =>
    obtain ⟨⟨place, hart⟩, ran, rfl⟩ := Option.map_eq_some_iff.mp taken
    exact track.next ran
  -- The code in between keeps both control registers.
  | prepare after =>
    simp only [EntryEvent.step] at taken
    split at taken
    case isTrue allowed =>
      obtain ⟨here, kept⟩ := allowed
      cases taken
      simp only [VmEntry.OnTrack, here] at track ⊢
      exact ⟨kept.sstatus ▸ track.1, kept.hstatus ▸ track.2⟩
    case isFalse => cases taken
  -- The call puts the arguments into their registers.
  | call newSp addr =>
    simp only [EntryEvent.step] at taken
    split at taken
    case isTrue here =>
      cases taken
      simp only [VmEntry.OnTrack, here] at track ⊢
      exact ⟨by simpa [ArmedForGuest] using track, by simp [VmEntry.HasArguments]⟩
    case isFalse => cases taken
  | timer irq =>
    simp only [EntryEvent.step] at taken
    split at taken
    case isFalse => cases taken
    case isTrue =>
      obtain ⟨hart, round, rfl⟩ := Option.map_eq_some_iff.mp taken
      obtain ⟨here, h, newSp, addr⟩ := e
      -- Before the write of `sstatus` all that counts is in registers, which are restored.
      rcases harmless with rfl | rfl | rfl
      · exact (TimerIrq.round_resumed track round).2
      · exact (TimerIrq.round_resumed track round).2
      · obtain ⟨ready, spp⟩ := track
        obtain ⟨resumed, ready'⟩ := TimerIrq.round_resumed ready round
        exact ⟨ready', (resumed.regs .a5).symm ▸ spp⟩

/-- `SPP` is lost: `sret` will not enter VS mode, or has not entered it. -/
def VmEntry.Spoiled (e : VmEntry) : Prop :=
  if e.place = .entered then e.hart.supervisor = false
  else ¬ e.place.Early ∧ (e.hart.csr .sstatus).getLsbD Hart.sppBit = false

/-- Past the write of `sstatus` no instruction sets `SPP`. -/
theorem VmEntry.Spoiled.next {label : U64} {e : VmEntry} {place : EntryPlace} {hart : Hart}
    (spoiled : e.Spoiled) (ran : e.place.instr label e.hart = some (place, hart)) :
    VmEntry.Spoiled { e with place := place, hart := hart } := by
  obtain ⟨here, h, newSp, addr⟩ := e
  cases here <;>
    simp only [EntryPlace.instr, Hart.exec, Option.map_some, Option.some.injEq, Prod.mk.injEq,
      reduceCtorEq] at ran
  case readSstatus => exact absurd (Or.inl rfl) spoiled.1
  case orSpp => exact absurd (Or.inr (Or.inl rfl)) spoiled.1
  case writeSstatus => exact absurd (Or.inr (Or.inr rfl)) spoiled.1
  case readHstatus | orSpv | writeHstatus | writeSscratch | loadLabel | writeSepc =>
    obtain ⟨rfl, rfl⟩ := ran
    simpa [VmEntry.Spoiled, EntryPlace.Early] using spoiled.2
  case saveSp =>
    split at ran
    · cases ran
      simpa [VmEntry.Spoiled, EntryPlace.Early] using spoiled.2
    · cases ran
  case sret =>
    -- `sret` goes to user mode.
    obtain ⟨rfl, rfl⟩ := ran
    exact spoiled.2

/-- No event makes up for a lost `SPP`. -/
theorem EntryEvent.step_spoiled {text : TrapText} {label : U64} {event : EntryEvent}
    {e e' : VmEntry} (spoiled : e.Spoiled) (taken : event.step text label e = some e') :
    e'.Spoiled := by
  -- Once `SPP` is lost, no event on the way sets it again.
  cases event with
  | next =>
    obtain ⟨⟨place, hart⟩, ran, rfl⟩ := Option.map_eq_some_iff.mp taken
    exact spoiled.next ran
  -- That code does not write `sstatus`.
  | prepare after =>
    simp only [EntryEvent.step] at taken
    split at taken
    case isTrue allowed =>
      obtain ⟨here, kept⟩ := allowed
      cases taken
      simpa [VmEntry.Spoiled, here, kept.sstatus] using spoiled
    case isFalse => cases taken
  | call newSp addr =>
    simp only [EntryEvent.step] at taken
    split at taken
    case isTrue here =>
      cases taken
      simpa [VmEntry.Spoiled, EntryPlace.Early, here] using spoiled
    case isFalse => cases taken
  -- Another interrupt clears it again.
  | timer irq =>
    simp only [EntryEvent.step] at taken
    split at taken
    case isTrue enabled =>
      obtain ⟨hart, round, rfl⟩ := Option.map_eq_some_iff.mp taken
      rw [VmEntry.Spoiled, if_neg enabled.1] at spoiled ⊢
      exact ⟨spoiled.1, TimerIrq.round_spp round⟩
    case isFalse => cases taken

/-- A timer interrupt past the write of `sstatus` loses `SPP`. -/
theorem EntryEvent.spoils {text : TrapText} {label : U64} {event : EntryEvent} {e e' : VmEntry}
    (late : ¬ event.Harmless e) (taken : event.step text label e = some e') : e'.Spoiled := by
  -- Only an interrupt can come late, and its `sret` clears `SPP`.
  cases event with
  | timer irq =>
    simp only [EntryEvent.step] at taken
    split at taken
    case isTrue enabled =>
      obtain ⟨hart, round, rfl⟩ := Option.map_eq_some_iff.mp taken
      rw [VmEntry.Spoiled, if_neg enabled.1]
      exact ⟨late, TimerIrq.round_spp round⟩
    case isFalse => cases taken
  | next | prepare after | call newSp addr => exact absurd trivial late

/-! ### The result -/

/-- `vs_thread` as it gets to `vs_main`. -/
structure VmEntry.Begins (task : U64) (e : VmEntry) : Prop where
  place : e.place = .readSstatus
  ready : EntryReady task e.hart

/--
A run of `vs_thread` up to the `sret` of `jump_to_vs_mode` enters the guest, with `sp` and `a0`
as that function was asked to set them, just when each timer interrupt of the run arrives before
`sstatus` is written.
-/
theorem vmEntry_entersGuest_iff (text : TrapText) (label : U64) {task : U64}
    {events : List EntryEvent} {start final : VmEntry} (begins : start.Begins task)
    (ran : Transition.run (EntryEvent.step text label) events start = some final)
    (done : final.place = .entered) :
    final.EntersGuest label ↔
      ∀ earlier event later mid, events = earlier ++ event :: later →
        Transition.run (EntryEvent.step text label) earlier start = some mid →
        event.Harmless mid := by
  constructor
  · rintro ⟨supervisor, -⟩ earlier event later mid rfl before
    by_contra late
    -- The interrupt loses `SPP` for good, so `sret` gets to user mode.
    rw [Transition.run_append, before, Option.bind_some, Transition.run_cons] at ran
    obtain ⟨next, taken, ran⟩ := Option.bind_eq_some_iff.mp ran
    have spoiled : final.Spoiled := Transition.run_invariant
      (fun _ _ _ => EntryEvent.step_spoiled) (EntryEvent.spoils late taken) ran
    rw [VmEntry.Spoiled, if_pos done, supervisor] at spoiled
    cases spoiled
  · intro harmless
    have initial : start.OnTrack task label := by
      rw [VmEntry.OnTrack, begins.place]
      exact begins.ready
    have track : final.OnTrack task label := Transition.run_invariant_on
      (fun _ _ _ => EntryEvent.step_onTrack) initial ran harmless
    rw [VmEntry.OnTrack, done] at track
    obtain ⟨⟨a0, a1⟩, supervisor, virt, pc⟩ := track
    refine ⟨supervisor, virt, pc, (final.hart.set .sp (final.hart.get .a0)).set .a0
      ((final.hart.set .sp (final.hart.get .a0)).get .a1), rfl, ?_, ?_⟩
    · simp [a0]
    · simp [a1]

/-- The events from the read of `hstatus` on when no interrupt comes in between. -/
def quietEntry (newSp addr : U64) : List EntryEvent :=
  [.next, .next, .next, .call newSp addr, .next, .next, .next, .next, .next]

/-- They get to the guest, or to wherever `sret` goes. -/
theorem quietEntry_enters (text : TrapText) (label newSp addr : U64) {e : VmEntry}
    (place : e.place = .readHstatus) (aligned : Aligned (e.hart.get .tp)) :
    ∃ final, Transition.run (EntryEvent.step text label) (quietEntry newSp addr) e = some final ∧
      final.place = .entered := by
  obtain ⟨here, h, sp, ad⟩ := e
  cases place
  let read := h.set .a5 (h.csr .hstatus)
  let set := read.set .a5 (read.get .a5 ||| (hstatusSpv ||| hstatusSpvp))
  let called := ((set.setCsr .hstatus (set.get .a5)).set .a0 newSp).set .a1 addr
  have tp : called.get .tp = h.get .tp := by simp [called, set, read]
  have slot : Aligned (called.get .tp + taskTiKernelSp) := by
    rw [tp]
    exact aligned.add (by decide)
  let stored : Hart :=
    { called with
      mem := Function.update called.mem (called.get .tp + taskTiKernelSp) (called.get .sp) }
  -- Only the store needs something, which is that the task is aligned.
  have saved : EntryEvent.step text label .next ⟨.saveSp, called, newSp, addr⟩ =
      some ⟨.writeSscratch, stored, newSp, addr⟩ := by
    rw [EntryEvent.step, EntryPlace.instr, Hart.exec_sd slot]
    rfl
  have rest : Transition.run (EntryEvent.step text label) [.next, .next, .next, .next, .next]
      ⟨.saveSp, called, newSp, addr⟩ =
      Transition.run (EntryEvent.step text label) [.next, .next, .next, .next]
        ⟨.writeSscratch, stored, newSp, addr⟩ := by
    rw [Transition.run_cons, saved, Option.bind_some]
  exact ⟨_, rest.trans rfl, rfl⟩

/-- An interrupt with nothing to do. -/
def idleIrq : TimerIrq where
  stval := 0
  doException := some
  schedule := some
  preemptScheduleIrq := some
  fuel := 1
  handled := by
    rintro called left ⟨⟩
    exact ⟨rfl, rfl, rfl, fun _ _ => rfl⟩
  preempted := by
    rintro called left ⟨⟩
    exact ⟨rfl, rfl, rfl, fun _ _ => rfl⟩

/-- `vs_thread` at the beginning of `vs_main`, interrupts enabled. -/
def exampleVsThread : VmEntry :=
  { place := .readSstatus
    hart :=
      { x := fun r => if r = .tp then 0x80201000 else if r = .sp then 0x80202000 else 7
        csr := fun c => if c = .sstatus then 0x2 else 0
        pc := 0x80200c00
        mem := fun _ => 0
        supervisor := true
        virt := false }
    newSp := 0
    addr := 0 }

theorem exampleVsThread_begins : exampleVsThread.Begins 0x80201000 :=
  ⟨rfl, by decide, rfl, rfl, ⟨by decide, by decide, by decide⟩⟩

/-- The timer interrupts the thread as it gets to `vs_main`, and the guest is entered. -/
theorem vmEntry_entersGuest_early :
    ∃ final, Transition.run (EntryEvent.step exampleText 0x80600100)
        (.timer idleIrq :: .next :: .next :: .next :: quietEntry 0x80701000 0x80300000)
        exampleVsThread = some final ∧ final.EntersGuest 0x80600100 := by
  obtain ⟨hart, round⟩ : ∃ hart, idleIrq.round exampleText exampleVsThread.hart = some hart :=
    Option.isSome_iff_exists.mp (by decide)
  have ready := (TimerIrq.round_resumed exampleVsThread_begins.ready round).2
  -- The three instructions behind the interrupt.
  let val := (hart.set .a5 (hart.csr .sstatus)).set .a5
    ((hart.set .a5 (hart.csr .sstatus)).get .a5 ||| sstatusSpp)
  let written : VmEntry :=
    { exampleVsThread with place := .readHstatus, hart := val.setCsr .sstatus (val.get .a5) }
  have tp : written.hart.get .tp = hart.get .tp := by simp [written, val]
  obtain ⟨final, ran, done⟩ := quietEntry_enters exampleText 0x80600100 0x80701000 0x80300000
    (e := written) rfl (tp.symm ▸ ready.tp.symm ▸ by decide)
  have interrupted : EntryEvent.step exampleText 0x80600100 (.timer idleIrq) exampleVsThread =
      some { exampleVsThread with hart := hart } := by
    rw [EntryEvent.step, if_pos (by decide), round]
    rfl
  have whole : Transition.run (EntryEvent.step exampleText 0x80600100)
      (.timer idleIrq :: .next :: .next :: .next :: quietEntry 0x80701000 0x80300000)
      exampleVsThread = some final := by
    rw [Transition.run_cons, interrupted]
    exact ran
  refine ⟨final, whole,
    (vmEntry_entersGuest_iff exampleText _ exampleVsThread_begins whole done).mpr ?_⟩
  intro earlier event later mid split before
  -- The one interrupt is the first event of all.
  cases earlier with
  | nil =>
    cases before
    cases split
    exact Or.inl rfl
  | cons first earlier =>
    have member : event ∈ EntryEvent.next :: .next :: .next :: quietEntry 0x80701000 0x80300000 := by
      rw [(List.cons.inj split).2]
      exact List.mem_append_right _ List.mem_cons_self
    simp only [quietEntry, List.mem_cons, List.not_mem_nil, or_false] at member
    rcases member with rfl | rfl | rfl | rfl | rfl | rfl | rfl | rfl | rfl | rfl | rfl | rfl <;>
      exact trivial

/-- The timer interrupts the thread behind the write of `sstatus`, and `sret` gets to user mode. -/
theorem vmEntry_interrupted :
    ¬ ∀ (text : TrapText) (label task : U64) (events : List EntryEvent) (start final : VmEntry),
      start.Begins task →
      Transition.run (EntryEvent.step text label) events start = some final →
      final.place = .entered → final.EntersGuest label := by
  intro always
  let step := EntryEvent.step exampleText 0x80600100
  -- The first three instructions set `SPP`, with interrupts on.
  obtain ⟨written, reached, place, enabled, ready, returns⟩ :
      ∃ written, Transition.run step [.next, .next, .next] exampleVsThread = some written ∧
        written.place = .readHstatus ∧
        (written.hart.csr .sstatus).getLsbD Hart.sieBit = true ∧
        EntryReady 0x80201000 written.hart ∧
        (idleIrq.round exampleText written.hart).isSome :=
    ⟨_, rfl, rfl, by decide, ⟨by decide, rfl, rfl, ⟨by decide, by decide, by decide⟩⟩, by decide⟩
  obtain ⟨hart, round⟩ := Option.isSome_iff_exists.mp returns
  -- Then a timer interrupt comes, whose handler does nothing.
  have interrupted : step (.timer idleIrq) written = some { written with hart := hart } := by
    have taken : written.place ≠ .entered := by
      rw [place]
      decide
    show EntryEvent.step exampleText 0x80600100 (.timer idleIrq) written = _
    rw [EntryEvent.step, if_pos ⟨taken, enabled⟩, round]
    rfl
  have ready' := (TimerIrq.round_resumed ready round).2
  -- The thread goes on as if it had not been there.
  obtain ⟨final, ran, done⟩ := quietEntry_enters exampleText 0x80600100 0x80701000 0x80300000
    (e := { written with hart := hart }) place (ready'.tp.symm ▸ by decide)
  have late : ¬ EntryEvent.Harmless (.timer idleIrq) written := by
    rw [EntryEvent.Harmless, place]
    decide
  have whole : Transition.run step ([.next, .next, .next] ++ .timer idleIrq ::
      quietEntry 0x80701000 0x80300000) exampleVsThread = some final := by
    rw [Transition.run_append, reached, Option.bind_some, Transition.run_cons, interrupted]
    exact ran
  have spoiled : final.Spoiled := Transition.run_invariant
    (fun _ _ _ => EntryEvent.step_spoiled) (EntryEvent.spoils late interrupted) ran
  have supervisor := (always _ _ _ _ _ _ exampleVsThread_begins whole done).1
  rw [VmEntry.Spoiled, if_pos done, supervisor] at spoiled
  cases spoiled

end Benos
