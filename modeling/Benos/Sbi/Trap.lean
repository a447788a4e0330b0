import Benos.Timer.Timers

/-! The M-mode trap handler of `sbi_trap.c`, and the calls it serves. -/

namespace Benos

/-- The fields of `sbi_trap_regs` that the handler reads or writes. -/
structure SbiTrapRegs where
  mepc : U64
  a0 : U64
  a7 : U64

/-- The serial port: what has arrived and not been read, and what was sent. -/
structure Uart where
  received : List (BitVec 8)
  sent : List (BitVec 8)

/-- What the M-mode handler works on besides the frame. -/
structure Board where
  timers : Timers
  uart : Uart

/-- `SBI_SET_TIMER`. -/
def sbiSetTimerId : BitVec 32 := 0

/-- `SBI_CONSOLE_PUTCHAR`. -/
def sbiConsolePutchar : BitVec 32 := 1

/-- `SBI_CONSOLE_GETCHAR`. -/
def sbiConsoleGetchar : BitVec 32 := 2

/-- `MCAUSE_IRQ`. -/
def mcauseIrq : U64 := (1 : U64) <<< 63

/-- `IRQ_M_TIMER` as a cause. -/
def causeMTimer : U64 := 7

/-- `CAUSE_SUPERVISOR_ECALL`. -/
def causeSupervisorEcall : U64 := 9

namespace Uart

/-- `uart_get`, which answers `(char)-1` when nothing has arrived. -/
def uartGet (u : Uart) : BitVec 8 × Uart :=
  match u.received with
  | [] => (0xff, u)
  | c :: rest => (c, { u with received := rest })

/-- `uart_send`, once the port is ready. -/
def uartSend (c : BitVec 8) (u : Uart) : Uart := { u with sent := u.sent ++ [c] }

/-- `putchar`, which sends a carriage return before a newline. -/
def putchar (c : BitVec 8) (u : Uart) : Uart :=
  let u := if c = 10 then u.uartSend 13 else u
  u.uartSend c

end Uart

/-- `sbi_ecall_handle`, whose result is 0 for every call. -/
def sbiEcallHandle (id : BitVec 32) (regs : SbiTrapRegs) (board : Board) : SbiTrapRegs × Board :=
  let (regs, board) :=
    if id = sbiSetTimerId then
      (regs, { board with timers := board.timers.clintTimerEventStart regs.a0 })
    else if id = sbiConsolePutchar then
      (regs, { board with uart := board.uart.putchar (regs.a0.setWidth 8) })
    else if id = sbiConsoleGetchar then
      let (c, uart) := board.uart.uartGet
      ({ regs with a0 := c.setWidth 64 }, { board with uart })
    else (regs, board)
  ({ regs with mepc := regs.mepc + 4 }, board)

/-- `sbi_trap_handler`; any other trap ends in `sbi_panic`, which does not return. -/
def sbiTrapHandler (mcause : U64) (regs : SbiTrapRegs) (board : Board) :
    Option (SbiTrapRegs × Board) :=
  if mcause &&& mcauseIrq ≠ 0 then
    if mcause &&& ~~~mcauseIrq = causeMTimer then
      some (regs, { board with timers := board.timers.sbiTimerProcess })
    else none
  else if mcause = causeSupervisorEcall then
    some (sbiEcallHandle (regs.a7.setWidth 32) regs board)
  else none

/-- The handler returns from timer interrupts and from calls of the supervisor. -/
theorem sbiTrapHandler_cases {mcause : U64} {regs regs' : SbiTrapRegs} {board board' : Board}
    (handled : sbiTrapHandler mcause regs board = some (regs', board')) :
    (mcause ≠ causeSupervisorEcall ∧ regs' = regs ∧
        board' = { board with timers := board.timers.sbiTimerProcess }) ∨
      (mcause = causeSupervisorEcall ∧
        (regs', board') = sbiEcallHandle (regs.a7.setWidth 32) regs board) := by
  rw [sbiTrapHandler] at handled
  split at handled
  case isTrue interrupt =>
    split at handled
    case isTrue timer =>
      cases handled
      -- The cause of a call has no interrupt bit.
      refine .inl ⟨?_, rfl, rfl⟩
      rintro rfl
      exact interrupt (by decide)
    case isFalse => cases handled
  case isFalse =>
    split at handled
    case isTrue ecall => exact .inr ⟨ecall, (Option.some.inj handled).symm⟩
    case isFalse => cases handled

/-- A call is always served, and the caller goes on behind its `ecall`. -/
theorem sbiTrapHandler_ecall (regs : SbiTrapRegs) (board : Board) :
    sbiTrapHandler causeSupervisorEcall regs board =
      some (sbiEcallHandle (regs.a7.setWidth 32) regs board) := by
  have exception : ¬ causeSupervisorEcall &&& mcauseIrq ≠ 0 := by decide
  rw [sbiTrapHandler, if_neg exception, if_pos rfl]

/-- The registers that a call leaves: only `getchar` answers in one. -/
theorem sbiEcallHandle_regs (id : BitVec 32) (regs : SbiTrapRegs) (board : Board) :
    (sbiEcallHandle id regs board).1.mepc = regs.mepc + 4 ∧
      (sbiEcallHandle id regs board).1.a7 = regs.a7 ∧
      (id ≠ sbiConsoleGetchar → (sbiEcallHandle id regs board).1.a0 = regs.a0) ∧
      (id = sbiConsoleGetchar →
        (sbiEcallHandle id regs board).1.a0 = board.uart.uartGet.1.setWidth 64) := by
  simp only [sbiEcallHandle]
  -- Each call leaves the frame alone but for `getchar`, which comes third.
  by_cases timer : id = sbiSetTimerId
  · rw [if_pos timer]
    refine ⟨rfl, rfl, fun _ => rfl, ?_⟩
    rintro rfl
    cases timer
  · rw [if_neg timer]
    by_cases putchar : id = sbiConsolePutchar
    · rw [if_pos putchar]
      refine ⟨rfl, rfl, fun _ => rfl, ?_⟩
      rintro rfl
      cases putchar
    · rw [if_neg putchar]
      by_cases getchar : id = sbiConsoleGetchar
      · rw [if_pos getchar]
        exact ⟨rfl, rfl, fun other => absurd getchar other, fun _ => rfl⟩
      · rw [if_neg getchar]
        exact ⟨rfl, rfl, fun _ => rfl, fun same => absurd same getchar⟩

end Benos
