import Benos.Irq.Plic

/-!
`plic_handle_irq` and `handle_uart_irq` against devices that request interrupts at any time.

Every step of the handler, every request and every character that arrives is an event of its own.
-/

namespace Benos

/-- `SIE_SEIE`. -/
def sieSeie : U64 := 0x200

/-- Where the hart is in `plic_handle_irq`. -/
inductive IrqPlace where
  | outside
  /-- In front of the read of the claim register. -/
  | claim
  /-- Behind it, with the interrupt that it answered with. -/
  | dispatch (hwirq : U32)
  /-- In front of the write that completes this interrupt. -/
  | complete (hwirq : U32)
  deriving DecidableEq

/-- The interrupt that has been claimed and not been completed. -/
def IrqPlace.handles : IrqPlace → Nat → Bool
  | .dispatch hwirq, irq => hwirq.toNat == irq
  | .complete hwirq, irq => hwirq.toNat == irq
  | _, _ => false

/-- What external interrupts come from, go to and leave behind. -/
structure ExternalIrq where
  plic : Plic
  uart : Uart
  sie : U64
  /-- The lines that `handle_uart_irq` has printed. -/
  occurred : Nat
  place : IrqPlace

/-- What can happen next. -/
inductive IrqEvent where
  /-- A device requests an interrupt. -/
  | raise (irq : Nat)
  /-- A character arrives at the serial port. -/
  | receive (c : BitVec 8)
  /-- The kernel calls `plic_enable_irq`. -/
  | enable (irq : Nat) (on : U32)
  /-- The hart takes the external interrupt. -/
  | take
  /-- The handler goes on. -/
  | step
  deriving DecidableEq

/-- A step of the handler. -/
def IrqEvent.spent : IrqEvent → Nat
  | .step => 1
  | _ => 0

namespace ExternalIrq

/-! ### The handler -/

/-- `handle_uart_irq`. A `char` is unsigned here, so that `c < 0` never holds. -/
def handleUartIrq (s : ExternalIrq) : ExternalIrq :=
  if s.uart.uartGet.1 = 13 then
    { s with uart := s.uart.uartGet.2, occurred := s.occurred + 1 }
  else { s with uart := s.uart.uartGet.2 }

/-- `plic_handle_irq` from one access of the controller to the next. -/
def handlerStep (s : ExternalIrq) : Option ExternalIrq :=
  match s.place with
  | .outside => none
  | .claim =>
    let (hwirq, plic) := s.plic.readl (plicMclaim (cpuToHartS 0))
    if hwirq ≠ 0 then some { s with plic, place := .dispatch hwirq }
    else some { s with plic, sie := s.sie ||| sieSeie, place := .outside }
  | .dispatch hwirq =>
    let s := if hwirq = uart0Irq then s.handleUartIrq else s
    some { s with place := .complete hwirq }
  | .complete hwirq =>
    some { s with plic := s.plic.writel hwirq (plicMclaim (cpuToHartS 0)), place := .claim }

/-- An event, if it is possible. -/
def step : IrqEvent → ExternalIrq → Option ExternalIrq
  | .raise irq, s =>
    if 1 ≤ irq ∧ irq ≤ s.plic.sources then some { s with plic := s.plic.raise irq } else none
  | .receive c, s =>
    some { s with uart := { s.uart with received := s.uart.received ++ [c] } }
  | .enable irq on, s =>
    if s.place = .outside ∧ irq ≤ maxPlicIrqs then
      some { s with plic := s.plic.plicEnableIrq 0 (BitVec.ofNat 32 irq) on }
    else none
  | .take, s =>
    -- The first line of the handler masks the interrupt that it has been entered for.
    if s.place = .outside ∧ s.sie &&& sieSeie ≠ 0 ∧ s.plic.notifies (cpuToHartS 0) then
      some { s with sie := s.sie &&& ~~~sieSeie, place := .claim }
    else none
  | .step, s => s.handlerStep

/-- Behind `plic_init`, whose last line lets external interrupts through. -/
def start (plic : Plic) (uart : Uart) (sie : U64) : ExternalIrq :=
  { plic := plic.plicInit, uart, sie := sie ||| sieSeie, occurred := 0, place := .outside }

end ExternalIrq

/-! ### What an observer notes -/

/-- How often each interrupt was forwarded, claimed and completed, and what came and was read. -/
structure IrqLog where
  forwarded : Nat → Nat
  claimed : Nat → Nat
  completed : Nat → Nat
  arrived : List (BitVec 8)
  read : List (BitVec 8)

namespace IrqLog

/-- Nothing has happened. -/
def empty : IrqLog := ⟨fun _ => 0, fun _ => 0, fun _ => 0, [], []⟩

/-- One more of an interrupt. -/
def count (counts : Nat → Nat) (irq : Nat) : Nat → Nat :=
  Function.update counts irq (counts irq + 1)

/-- What the log says after an event, from what was there before and after it. -/
def note (event : IrqEvent) (before after : ExternalIrq) (log : IrqLog) : IrqLog :=
  match event with
  | .raise irq =>
    -- A gateway that holds a request does not forward another one.
    if before.plic.pending irq = after.plic.pending irq then log
    else { log with forwarded := count log.forwarded irq }
  | .receive c => { log with arrived := log.arrived ++ [c] }
  | .step =>
    match before.place, after.place with
    | .claim, .dispatch hwirq => { log with claimed := count log.claimed hwirq.toNat }
    | .dispatch _, _ =>
      { log with
        read := log.read ++ before.uart.received.take
          (before.uart.received.length - after.uart.received.length) }
    | .complete hwirq, _ => { log with completed := count log.completed hwirq.toNat }
    | _, _ => log
  | _ => log

end IrqLog

/-! ### What each step does -/

namespace Plic

/-- A request that a claim has taken. -/
def serve (irq : Nat) (p : Plic) : Plic :=
  { p with
    pending := Function.update p.pending irq false
    inService := Function.update p.inService irq true }

@[simp] theorem serve_pending (irq : Nat) (p : Plic) :
    (p.serve irq).pending = Function.update p.pending irq false := rfl

@[simp] theorem serve_inService (irq : Nat) (p : Plic) :
    (p.serve irq).inService = Function.update p.inService irq true := rfl

@[simp] theorem serve_sources (irq : Nat) (p : Plic) : (p.serve irq).sources = p.sources := rfl

/-- A request is forwarded unless an earlier one holds it back. -/
theorem raise_cases (p : Plic) (irq : Nat) :
    p.raise irq = p ∧ (p.pending irq = true ∨ p.inService irq = true) ∨
      p.pending irq = false ∧ p.inService irq = false ∧
        p.raise irq = { p with pending := Function.update p.pending irq true } := by
  rw [raise]
  split
  next held => exact .inl ⟨rfl, held⟩
  next free =>
    simp only [not_or, Bool.not_eq_true] at free
    exact .inr ⟨free.1, free.2, rfl⟩

/-- The claim register of S mode. -/
theorem claimContext_smode : claimContext (plicMclaim (cpuToHartS 0)) = some 1 := by decide

/-- Reading it claims the best request. -/
theorem readl_claim (p : Plic) : p.readl (plicMclaim (cpuToHartS 0)) =
    (BitVec.ofNat 32 (p.best 1), if p.best 1 = 0 then p else p.serve (p.best 1)) := by
  rw [readl, claimContext_smode]
  rfl

/-- An interrupt keeps its number in a register. -/
theorem ofNat_toNat {p : Plic} {irq : Nat} (high : irq ≤ p.sources) :
    (BitVec.ofNat 32 irq).toNat = irq := by
  have limited := p.limited
  rw [irqLimit] at limited
  rw [BitVec.toNat_ofNat]
  omega

end Plic

namespace ExternalIrq

variable {s next : ExternalIrq}

/-- The handler returns if there is nothing to claim, and otherwise claims some interrupt. -/
theorem handlerStep_claim (here : s.place = .claim) :
    s.plic.claimable 1 = [] ∧
        s.handlerStep = some { s with sie := s.sie ||| sieSeie, place := .outside } ∨
      ∃ irq ∈ s.plic.claimable 1, s.handlerStep =
        some { s with plic := s.plic.serve irq, place := .dispatch (BitVec.ofNat 32 irq) } := by
  rw [handlerStep, here]
  dsimp only
  rw [Plic.readl_claim]
  dsimp only
  -- Zero is the answer of a controller with nothing to claim.
  rcases s.plic.best_spec 1 with ⟨zero, nothing⟩ | member
  · left
    rw [zero]
    exact ⟨nothing, rfl⟩
  · right
    obtain ⟨low, high, -, -⟩ := Plic.mem_claimable member
    have nonzero : s.plic.best 1 ≠ 0 := Nat.one_le_iff_ne_zero.mp low
    have number : BitVec.ofNat 32 (s.plic.best 1) ≠ 0 := by
      intro zero
      have same := congrArg BitVec.toNat zero
      rw [Plic.ofNat_toNat high] at same
      exact nonzero same
    refine ⟨_, member, ?_⟩
    rw [if_pos number, if_neg nonzero]

/-- The claimed interrupt is dispatched. -/
theorem handlerStep_dispatch {hwirq : U32} (here : s.place = .dispatch hwirq) :
    s.handlerStep =
      some { (if hwirq = uart0Irq then s.handleUartIrq else s) with place := .complete hwirq } := by
  rw [handlerStep, here]

/-- It is completed, if it is still enabled. -/
theorem handlerStep_complete {hwirq : U32} (here : s.place = .complete hwirq) :
    s.handlerStep = some { s with plic := s.plic.complete 1 hwirq.toNat, place := .claim } := by
  rw [handlerStep, here]
  dsimp only
  rw [Plic.writel, Plic.claimContext_smode]

/-- `handle_uart_irq` takes the first character that has arrived, and prints for a return. -/
theorem handleUartIrq_spec (s : ExternalIrq) :
    s.handleUartIrq.plic = s.plic ∧ s.handleUartIrq.sie = s.sie ∧
      s.handleUartIrq.uart.received = s.uart.received.drop 1 ∧
      s.handleUartIrq.occurred = s.occurred + (s.uart.received.take 1).count 13 := by
  rw [handleUartIrq, Uart.uartGet]
  cases queue : s.uart.received with
  | nil =>
    dsimp only
    rw [if_neg (show ¬ (0xff : BitVec 8) = 13 by decide)]
    exact ⟨rfl, rfl, queue, rfl⟩
  | cons c rest =>
    dsimp only
    by_cases carriage : c = 13
    · rw [if_pos carriage, carriage]
      exact ⟨rfl, rfl, rfl, rfl⟩
    · rw [if_neg carriage]
      refine ⟨rfl, rfl, rfl, ?_⟩
      rw [List.take_succ_cons, List.take_zero, List.count_singleton]
      simpa using carriage

/-! ### What holds of every run -/

/--
Where a run stands that began with some requests waiting and some characters queued.

A forwarded request is claimed once and a claimed one completed once; what is claimed and not
completed is the one that the handler works on.
-/
structure Handling (waiting : Nat → Bool) (queued : List (BitVec 8)) (s : ExternalIrq)
    (log : IrqLog) : Prop where
  forwarded : ∀ irq, (waiting irq).toNat + log.forwarded irq =
    log.claimed irq + (s.plic.pending irq).toNat
  claimed : ∀ irq, log.claimed irq = log.completed irq + (s.place.handles irq).toNat
  inService : ∀ irq, s.plic.inService irq = s.place.handles irq
  current : ∀ irq, s.place.handles irq = true →
    irq ≤ s.plic.sources ∧ s.plic.enabled 1 irq = true
  characters : queued ++ log.arrived = log.read ++ s.uart.received
  occurred : s.occurred = log.read.count 13
  masked : s.sie &&& sieSeie ≠ 0 ↔ s.place = .outside
  threshold : s.plic.regs (plicMthreshold 1) = 0
  priorities : ∀ irq, 1 ≤ irq → irq ≤ s.plic.sources → s.plic.priority irq = 1

/-- Setting the bit of external interrupts lets them through. -/
theorem seie_set (sie : U64) : (sie ||| sieSeie) &&& sieSeie ≠ 0 := by
  intro zero
  have bit := congrArg (BitVec.getLsbD · 9) zero
  simp [sieSeie] at bit

/-- Clearing it holds them back. -/
theorem seie_cleared (sie : U64) : (sie &&& ~~~sieSeie) &&& sieSeie = 0 := by
  rw [BitVec.and_assoc, show ~~~sieSeie &&& sieSeie = 0 by decide]
  exact BitVec.and_zero

/-- Counting one more of an interrupt. -/
theorem count_apply (counts : Nat → Nat) (irq other : Nat) :
    IrqLog.count counts irq other = counts other + (decide (irq = other)).toNat := by
  rw [IrqLog.count]
  by_cases same : irq = other
  · rw [same, Function.update_self, decide_eq_true rfl]
    rfl
  · rw [Function.update_of_ne (Ne.symm same), decide_eq_false same]
    rfl

variable {waiting : Nat → Bool} {queued : List (BitVec 8)} {log : IrqLog}

/-- A request that a device makes is forwarded and waits, or is held back. -/
theorem Handling.raise (now : Handling waiting queued s log) (irq : Nat) :
    Handling waiting queued { s with plic := s.plic.raise irq }
      (log.note (.raise irq) s { s with plic := s.plic.raise irq }) := by
  rw [IrqLog.note]
  dsimp only
  -- A request that the gateway holds back is not counted as forwarded.
  rcases s.plic.raise_cases irq with ⟨held, -⟩ | ⟨free, -, taken⟩
  · rw [held, if_pos rfl]
    exact now
  · have set : ¬ s.plic.pending irq = Function.update s.plic.pending irq true irq := by
      rw [free, Function.update_self]
      decide
    rw [taken, if_neg set]
    refine { now with forwarded := fun other => ?_ }
    have before := now.forwarded other
    dsimp only
    rw [count_apply, Function.update_apply]
    by_cases same : irq = other
    · subst same
      rw [free] at before
      rw [if_pos rfl, decide_eq_true rfl]
      simp only [Bool.toNat_false, Bool.toNat_true] at before ⊢
      omega
    · rw [if_neg (Ne.symm same), decide_eq_false same]
      exact before

/-- A character that arrives is queued behind the others. -/
theorem Handling.receive (now : Handling waiting queued s log) (c : BitVec 8) :
    Handling waiting queued { s with uart := { s.uart with received := s.uart.received ++ [c] } }
      { log with arrived := log.arrived ++ [c] } :=
  { now with
    characters := by
      rw [← List.append_assoc, now.characters, List.append_assoc] }

/-- A call of `plic_enable_irq` changes no request, and no register but that of enable bits. -/
theorem Handling.enable (now : Handling waiting queued s log) (outside : s.place = .outside)
    {irq : Nat} (known : irq ≤ maxPlicIrqs) (on : U32) :
    Handling waiting queued { s with plic := s.plic.plicEnableIrq 0 (BitVec.ofNat 32 irq) on }
      log := by
  have small : irq < Plic.irqLimit := Nat.lt_of_le_of_lt known Plic.maxPlicIrqs_limited
  have threshold : (s.plic.plicEnableIrq 0 (BitVec.ofNat 32 irq) on).regs (plicMthreshold 1) =
      s.plic.regs (plicMthreshold 1) := s.plic.regs_plicEnableIrq small on (.inr (by decide))
  have sources : (s.plic.plicEnableIrq 0 (BitVec.ofNat 32 irq) on).sources = s.plic.sources := by
    rw [Plic.plicEnableIrq_eq _ small]
  -- The registers of the priorities and of the threshold are elsewhere.
  have priorities : ∀ other ≤ s.plic.sources,
      (s.plic.plicEnableIrq 0 (BitVec.ofNat 32 irq) on).priority other = s.plic.priority other := by
    intro other high
    have small' : other < Plic.irqLimit := Nat.lt_of_le_of_lt high s.plic.limited
    refine congrArg BitVec.toNat (s.plic.regs_plicEnableIrq small on (.inl ?_))
    rw [Plic.plicPriority_toNat small']
    rw [Plic.irqLimit] at small'
    omega
  have nothing (other : Nat) : s.place.handles other = false := by rw [outside]; rfl
  have pending : (s.plic.plicEnableIrq 0 (BitVec.ofNat 32 irq) on).pending = s.plic.pending := by
    rw [Plic.plicEnableIrq_eq _ small]
  have inService :
      (s.plic.plicEnableIrq 0 (BitVec.ofNat 32 irq) on).inService = s.plic.inService := by
    rw [Plic.plicEnableIrq_eq _ small]
  exact { now with
    forwarded := fun other => by rw [pending]; exact now.forwarded other
    inService := fun other => by rw [inService]; exact now.inService other
    current := fun other handled => by
      rw [nothing other] at handled
      cases handled
    threshold := threshold.trans now.threshold
    priorities := fun other low high =>
      (priorities other (sources ▸ high)).trans (now.priorities other low (sources ▸ high)) }

/-- The handler is entered with external interrupts held back. -/
theorem Handling.take (now : Handling waiting queued s log) (outside : s.place = .outside) :
    Handling waiting queued { s with sie := s.sie &&& ~~~sieSeie, place := .claim } log := by
  have nothing (irq : Nat) : s.place.handles irq = false := by rw [outside]; rfl
  exact { now with
    claimed := fun irq => by
      have before := now.claimed irq
      rw [nothing] at before
      exact before
    inService := fun irq => (now.inService irq).trans (nothing irq)
    current := fun _ handled => by cases handled
    masked := by
      dsimp only
      rw [seie_cleared]
      simp }

/-- It returns with external interrupts let through again. -/
theorem Handling.back (now : Handling waiting queued s log) (here : s.place = .claim) :
    Handling waiting queued { s with sie := s.sie ||| sieSeie, place := .outside } log := by
  have nothing (irq : Nat) : s.place.handles irq = false := by rw [here]; rfl
  exact { now with
    claimed := fun irq => by
      have before := now.claimed irq
      rw [nothing] at before
      exact before
    inService := fun irq => (now.inService irq).trans (nothing irq)
    current := fun _ handled => by cases handled
    masked := ⟨fun _ => rfl, fun _ => seie_set s.sie⟩ }

/-- A claimed request is in service, and no longer waits. -/
theorem Handling.claim (now : Handling waiting queued s log) (here : s.place = .claim) {irq : Nat}
    (member : irq ∈ s.plic.claimable 1) :
    Handling waiting queued
      { s with plic := s.plic.serve irq, place := .dispatch (BitVec.ofNat 32 irq) }
      { log with claimed := IrqLog.count log.claimed irq } := by
  obtain ⟨-, high, pending, enabled⟩ := Plic.mem_claimable member
  have nothing (other : Nat) : s.place.handles other = false := by rw [here]; rfl
  have handles (other : Nat) :
      (IrqPlace.dispatch (BitVec.ofNat 32 irq)).handles other = decide (irq = other) := by
    rw [IrqPlace.handles, Plic.ofNat_toNat high]
    rfl
  -- The request moves from the waiting ones to the one that is handled.
  exact { now with
    forwarded := fun other => by
      have before := now.forwarded other
      dsimp only
      rw [count_apply, Plic.serve_pending, Function.update_apply]
      by_cases same : irq = other
      · subst same
        rw [pending] at before
        rw [if_pos rfl, decide_eq_true rfl]
        simp only [Bool.toNat_false, Bool.toNat_true] at before ⊢
        omega
      · rw [if_neg (Ne.symm same), decide_eq_false same]
        exact before
    claimed := fun other => by
      have before := now.claimed other
      rw [nothing] at before
      dsimp only
      rw [count_apply, handles, before]
      rfl
    inService := fun other => by
      have before := now.inService other
      rw [nothing] at before
      dsimp only
      rw [handles, Plic.serve_inService, Function.update_apply, before]
      by_cases same : irq = other
      · simp [same]
      · simp [same, Ne.symm same]
    current := fun other handled => by
      rw [handles, decide_eq_true_eq] at handled
      subst handled
      exact ⟨high, enabled⟩
    masked := by
      have before := now.masked
      rw [here] at before
      simpa using before }

/-- The dispatch of an interrupt reads at most one character. -/
theorem Handling.dispatch (now : Handling waiting queued s log) {hwirq : U32}
    (here : s.place = .dispatch hwirq) :
    Handling waiting queued
      { (if hwirq = uart0Irq then s.handleUartIrq else s) with place := .complete hwirq }
      { log with
        read := log.read ++ s.uart.received.take (s.uart.received.length -
          (if hwirq = uart0Irq then s.handleUartIrq else s).uart.received.length) } := by
  have handles (irq : Nat) : (IrqPlace.complete hwirq).handles irq = s.place.handles irq := by
    rw [here]
    rfl
  have masked := now.masked
  rw [here] at masked
  have masked' : s.sie &&& sieSeie ≠ 0 ↔ IrqPlace.complete hwirq = .outside := by simpa using masked
  by_cases uart : hwirq = uart0Irq
  · obtain ⟨plic, sie, received, occurred⟩ := s.handleUartIrq_spec
    rw [if_pos uart, received]
    -- What is gone from the queue is its first character, if there is one.
    have gone : s.uart.received.take (s.uart.received.length - (s.uart.received.drop 1).length) =
        s.uart.received.take 1 := by
      cases s.uart.received with
      | nil => rfl
      | cons c rest => simp
    rw [gone]
    exact {
      forwarded := fun irq => by rw [plic]; exact now.forwarded irq
      claimed := fun irq => by rw [handles]; exact now.claimed irq
      inService := fun irq => by rw [plic, handles]; exact now.inService irq
      current := fun irq => by rw [plic, handles]; exact now.current irq
      characters := by
        dsimp only
        rw [received, List.append_assoc, List.take_append_drop]
        exact now.characters
      occurred := by
        dsimp only
        rw [occurred, now.occurred, List.count_append]
      masked := by
        dsimp only
        rw [sie]
        exact masked'
      threshold := by rw [plic]; exact now.threshold
      priorities := fun irq => by rw [plic]; exact now.priorities irq }
  · rw [if_neg uart, Nat.sub_self, List.take_zero, List.append_nil]
    exact { now with
      claimed := fun irq => by rw [handles]; exact now.claimed irq
      inService := fun irq => by rw [handles]; exact now.inService irq
      current := fun irq => by rw [handles]; exact now.current irq
      masked := masked' }

/-- Its completion frees the gateway, as nobody has disabled the interrupt since its claim. -/
theorem Handling.complete (now : Handling waiting queued s log) {hwirq : U32}
    (here : s.place = .complete hwirq) :
    Handling waiting queued { s with plic := s.plic.complete 1 hwirq.toNat, place := .claim }
      { log with completed := IrqLog.count log.completed hwirq.toNat } := by
  have handles (irq : Nat) : s.place.handles irq = decide (hwirq.toNat = irq) := by
    rw [here]
    rfl
  -- The controller ignores a completion for a source that the context has not enabled.
  have enabled := (now.current hwirq.toNat (by rw [handles, decide_eq_true rfl])).2
  have freed : s.plic.complete 1 hwirq.toNat =
      { s.plic with inService := Function.update s.plic.inService hwirq.toNat false } := by
    rw [Plic.complete, if_pos enabled]
  rw [freed]
  exact { now with
    claimed := fun irq => by
      have before := now.claimed irq
      rw [handles] at before
      dsimp only
      rw [count_apply, before]
      rfl
    inService := fun irq => by
      have before := now.inService irq
      rw [handles] at before
      dsimp only
      rw [Function.update_apply, before]
      by_cases same : hwirq.toNat = irq
      · simp [same, IrqPlace.handles]
      · simp [same, Ne.symm same, IrqPlace.handles]
    current := fun _ handled => by cases handled
    masked := by
      have before := now.masked
      rw [here] at before
      simpa using before }

/-! ### Every run -/

/-- What happened so far stays accounted for, whatever happens next. -/
theorem Handling.follows {event : IrqEvent} (now : Handling waiting queued s log)
    (taken : s.step event = some next) : Handling waiting queued next (log.note event s next) := by
  -- Each event, and each place of the handler, has its own lemma.
  cases event with
  | raise irq =>
    obtain ⟨-, ⟨⟩⟩ := Option.ite_none_right_eq_some.mp taken
    exact now.raise irq
  | receive c =>
    cases taken
    exact now.receive c
  | enable irq on =>
    obtain ⟨⟨outside, known⟩, ⟨⟩⟩ := Option.ite_none_right_eq_some.mp taken
    exact now.enable outside known on
  | take =>
    obtain ⟨⟨outside, -, -⟩, ⟨⟩⟩ := Option.ite_none_right_eq_some.mp taken
    exact now.take outside
  | step =>
    change s.handlerStep = some next at taken
    cases place : s.place with
    | outside =>
      rw [handlerStep, place] at taken
      cases taken
    | claim =>
      rcases s.handlerStep_claim place with ⟨-, back⟩ | ⟨irq, member, claimed⟩
      · cases taken.symm.trans back
        rw [IrqLog.note, place]
        exact now.back place
      · cases taken.symm.trans claimed
        rw [IrqLog.note, place]
        dsimp only
        rw [Plic.ofNat_toNat (Plic.mem_claimable member).2.1]
        exact now.claim place member
    | dispatch hwirq =>
      cases taken.symm.trans (s.handlerStep_dispatch place)
      rw [IrqLog.note, place]
      exact now.dispatch place
    | complete hwirq =>
      cases taken.symm.trans (s.handlerStep_complete place)
      rw [IrqLog.note, place]
      exact now.complete place

/-- The requests that wait, whether they are let through or not. -/
def waitingIrqs (p : Plic) : Nat := (List.range' 1 p.sources).countP p.pending

/-- The steps from a place to the next read of the claim register, and this read. -/
def phase : IrqPlace → Nat
  | .outside => 0
  | .claim => 1
  | .complete _ => 2
  | .dispatch _ => 3

/-- The steps that the handler can still make if nothing else happens. -/
def potential (s : ExternalIrq) : Nat := 3 * waitingIrqs s.plic + phase s.place

/-- A request fewer, in a list of interrupts. -/
theorem countP_update {flags : Nat → Bool} {irq : Nat} {irqs : List Nat} (nodup : irqs.Nodup)
    (member : irq ∈ irqs) (set : flags irq = true) :
    irqs.countP (Function.update flags irq false) + 1 = irqs.countP flags := by
  induction irqs with
  | nil => cases member
  | cons first rest ih =>
    obtain ⟨fresh, nodup'⟩ := List.nodup_cons.mp nodup
    rw [List.countP_cons, List.countP_cons, Function.update_apply]
    by_cases same : irq = first
    · -- It is the first one, and none of the others.
      subst same
      have others : rest.countP (Function.update flags irq false) = rest.countP flags := by
        refine List.countP_congr fun other among => ?_
        rw [Function.update_apply, if_neg fun equal : other = irq => fresh (equal ▸ among)]
      rw [others, set]
      simp
    · have among : irq ∈ rest := (List.mem_cons.mp member).resolve_left same
      rw [if_neg (Ne.symm same), ← ih nodup' among]
      omega

/-- Claiming a request takes it from those that wait. -/
theorem waitingIrqs_serve {p : Plic} {irq : Nat} (member : irq ∈ p.claimable 1) :
    waitingIrqs (p.serve irq) + 1 = waitingIrqs p := by
  obtain ⟨low, high, pending, -⟩ := Plic.mem_claimable member
  rw [waitingIrqs, waitingIrqs, Plic.serve_sources]
  exact countP_update List.nodup_range' (List.mem_range'_1.mpr ⟨low, by omega⟩) pending

/-- The handler stops outside alone, and each of its steps is paid from the potential. -/
theorem handlerStep_pays (inside : s.place ≠ .outside) :
    ∃ next, s.handlerStep = some next ∧ potential next + 1 ≤ potential s ∧
      (next.place = .outside → next.plic = s.plic ∧ s.plic.claimable 1 = []) := by
  -- The claim that finds nothing is the one step that no request pays for.
  cases place : s.place with
  | outside => exact absurd place inside
  | claim =>
    rcases s.handlerStep_claim place with ⟨nothing, back⟩ | ⟨irq, member, claimed⟩
    · refine ⟨_, back, ?_, fun _ => ⟨rfl, nothing⟩⟩
      rw [potential, potential, place]
      exact Nat.le_refl _
    · refine ⟨_, claimed, ?_, fun outside => by cases outside⟩
      have fewer := waitingIrqs_serve member
      rw [potential, potential, place]
      dsimp only [phase]
      omega
  | dispatch hwirq =>
    refine ⟨_, s.handlerStep_dispatch place, ?_, fun outside => by cases outside⟩
    have plic : (if hwirq = uart0Irq then s.handleUartIrq else s).plic = s.plic := by
      split
      · exact s.handleUartIrq_spec.1
      · rfl
    rw [potential, potential, place, plic]
    exact Nat.le_refl _
  | complete hwirq =>
    refine ⟨_, s.handlerStep_complete place, ?_, fun outside => by cases outside⟩
    have kept : waitingIrqs (s.plic.complete 1 hwirq.toNat) = waitingIrqs s.plic := by
      rw [Plic.complete]
      split <;> rfl
    rw [potential, potential, place, kept]
    exact Nat.le_refl _

/-- An interrupt that is requested and let through. -/
def Waits (p : Plic) (irq : Nat) : Prop :=
  1 ≤ irq ∧ irq ≤ p.sources ∧ p.pending irq = true ∧ p.enabled 1 irq = true

/-- They are what S mode can claim, as `plic_init` has given every interrupt a priority. -/
theorem Handling.mem_claimable (now : Handling waiting queued s log) (irq : Nat) :
    irq ∈ s.plic.claimable 1 ↔ Waits s.plic irq := by
  refine ⟨Plic.mem_claimable, fun ⟨low, high, pending, enabled⟩ => ?_⟩
  refine List.mem_filter.mpr ⟨List.mem_range'_1.mpr ⟨low, by omega⟩, ?_⟩
  rw [pending, enabled, now.priorities irq low high]
  rfl

/-- The handler returns by itself, and only when no interrupt waits. -/
theorem Handling.returns (now : Handling waiting queued s log) (inside : s.place ≠ .outside) :
    ∃ count ≤ potential s, ∃ after,
      Transition.run step (List.replicate count .step) s = some after ∧
        after.place = .outside ∧ ∀ irq, ¬ Waits after.plic irq := by
  -- Inside the handler every step is possible, keeps the account and lowers the potential.
  have goes (s : ExternalIrq)
      (holds : (∃ log, Handling waiting queued s log) ∧
        (s.place = .outside → s.plic.claimable 1 = [])) (inside : s.place ≠ .outside) :
      ∃ next, s.step .step = some next ∧ ((∃ log, Handling waiting queued next log) ∧
        (next.place = .outside → next.plic.claimable 1 = [])) ∧ potential next < potential s := by
    obtain ⟨⟨log, now⟩, -⟩ := holds
    obtain ⟨next, taken, pays, last⟩ := handlerStep_pays inside
    have stepped : s.step .step = some next := taken
    refine ⟨next, stepped, ⟨⟨_, now.follows stepped⟩, fun outside => ?_⟩, pays⟩
    rw [(last outside).1]
    exact (last outside).2
  obtain ⟨count, few, after, ran, ⟨⟨log', now'⟩, nothing⟩, outside⟩ :=
    Transition.run_stops goes ⟨⟨log, now⟩, fun outside => absurd outside inside⟩
  -- The last claim was answered with zero, so no request that is enabled waits.
  refine ⟨count, few, after, ran, outside, fun irq waits => ?_⟩
  have member := (now'.mem_claimable irq).mpr waits
  rw [nothing outside] at member
  cases member

/-- A controller and a port in which nothing has happened. -/
def quiet : Plic × Uart :=
  (⟨maxPlicIrqs, Plic.maxPlicIrqs_limited, fun _ => 0, fun _ => false, fun _ => false⟩, ⟨[], []⟩)

end ExternalIrq

end Benos
