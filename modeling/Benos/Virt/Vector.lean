import Benos.Trap.Frame

/-!
The trap vector of the guest, from `vs_entry.S`, and its handler `do_vs_exception`.

In VS mode the names of the supervisor's control registers mean the guest's own copies of them.
-/

namespace Benos

/-! ### Traps into VS mode -/

namespace Hart

/-- What the hart does when a trap is taken into VS mode. -/
def vsTrap (h : Hart) (cause tval stvec : U64) : Hart :=
  let status := h.csr .sstatus
  let status := putBit status sppBit h.supervisor
  let status := putBit status spieBit ((h.csr .sstatus).getLsbD sieBit)
  let status := putBit status sieBit false
  let h := (h.setCsr .sstatus status).setCsr .sepc h.pc
  let h := (h.setCsr .scause cause).setCsr .stval tval
  { h with supervisor := true, pc := stvec }

/-- `sret` in VS mode, which stays in the guest. -/
def vsSret (h : Hart) : Hart :=
  let status := h.csr .sstatus
  let spie := status.getLsbD spieBit
  let spp := status.getLsbD sppBit
  let status := putBit status sieBit spie
  let status := putBit status spieBit true
  let status := putBit status sppBit false
  let h := h.setCsr .sstatus status
  { h with supervisor := spp, pc := h.csr .sepc }

end Hart

/-! ### The vector -/

/-- The addresses the guest's trap code is linked at. -/
structure VsTrapText where
  vsExceptionVector : U64
  doVsException : U64
  retFromException : U64

/-- The control registers the guest's `kernel_entry` stores, by way of the registers named. -/
def vsCsrSlots : List (Reg × Csr × U64) :=
  [(.s1, .sstatus, ptSstatus), (.s2, .sepc, ptSepc), (.s3, .stval, ptSbadaddr),
    (.s4, .scause, ptScause), (.s5, .sscratch, ptTp)]

/-- `kernel_entry` of the guest. -/
def vsKernelEntry (h : Hart) : Option Hart := do
  let h ← h.exec (.addi .sp .sp (-ptSize))
  let h ← Hart.execs (stores .sp savedSlots) h
  let h ← Hart.execs (csrStores .sp vsCsrSlots) h
  Hart.execs [.addi .s6 .sp ptSize, .sd .s6 ptSp .sp] h

/-- `vs_exception_vector`, up to the first instruction of `do_vs_exception`. -/
def vsExceptionVector (text : VsTrapText) (h : Hart) : Option Hart := do
  let h ← vsKernelEntry h
  let h ← Hart.execs
    [.csrw .sscratch .zero, .li .ra text.retFromException, .mv .a0 .sp, .mv .a1 .s4] h
  -- `tail do_vs_exception`
  some { h with pc := text.doVsException }

/-- `kernel_exit` of the guest. -/
def vsKernelExit (h : Hart) : Option Hart := do
  let h ← Hart.execs [.ld .a0 ptSstatus .sp, .csrw .sstatus .a0] h
  let h ← Hart.execs [.ld .a2 ptSepc .sp, .csrw .sepc .a2] h
  let h ← Hart.execs (loads .sp restoredSlots) h
  h.exec (.ld .sp ptSp .sp)

/-! ### The handler -/

/-- `SCAUSE_INT`. -/
def scauseInt : U64 := (1 : U64) <<< 63

/-- `INTERRUPT_CAUSE_TIMER`. -/
def interruptCauseTimer : U64 := 5

/--
`do_vs_exception`, where the argument is what a call of `vs_handle_timer_irq` does.

Any other interrupt ends in `panic`, and every exception in `vs_panic`, which do not return.
-/
def doVsException (vsHandleTimerIrq : Hart → Option Hart) (scause : U64) (h : Hart) :
    Option Hart :=
  if scause &&& scauseInt ≠ 0 then
    if scause &&& ~~~scauseInt = interruptCauseTimer then vsHandleTimerIrq h else none
  else none

/-- A whole trap of the guest, from the interrupted hart to the one behind `sret`. -/
def vsTrapRound (text : VsTrapText) (vsHandleTimerIrq : Hart → Option Hart) (cause tval : U64)
    (h : Hart) : Option Hart := do
  let h ← vsExceptionVector text (h.vsTrap cause tval text.vsExceptionVector)
  let h ← doVsException vsHandleTimerIrq (h.get .a1) h
  let h ← vsKernelExit h
  some h.vsSret

/-- `vs_trap_init`, as far as the registers followed here go. -/
def vsTrapInit (h : Hart) : Hart := h.setCsr .sscratch 0

end Benos
