import Benos.Lib.Transition
import Benos.Sbi.Trap
import Benos.Sched.Schedule

/-! The host tick, handed between the machine timer of M mode and the timer interrupt of HS mode. -/

namespace Benos

/-- The fields of `pt_regs` that `vs_sbi_ecall_handle` reads or writes. -/
structure VsEcallRegs where
  sepc : U64
  a0 : U64
  a7 : U64
  deriving DecidableEq

/-- `vs_sbi_ecall_handle`; of its calls `SBI_EXIT_VM_TEST` works on memory of the guest alone. -/
def vsSbiEcallHandle (id : BitVec 32) (regs : VsEcallRegs) (t : Timers) : VsEcallRegs × Timers :=
  let t := if id = sbiSetTimerId then t.riscvVcpuTimerEventStart regs.a0 else t
  ({ regs with sepc := regs.sepc + 4 }, t)

/-- `sbi_set_timer`, with its `ecall` at an address. -/
def sbiSetTimer (ecallPc stimeValue : U64) (board : Board) : Option Board :=
  (sbiTrapHandler causeSupervisorEcall ⟨ecallPc, stimeValue, sbiSetTimerId.setWidth 64⟩ board).map
    Prod.snd

/-- `reset_timer`. -/
def resetTimer (ecallPc : U64) (board : Board) : Option Board :=
  let timers := { board.timers with sie := board.timers.sie ||| sieStie }
  sbiSetTimer ecallPc (timers.getCycles + clintTimebaseFreq / hz) { board with timers }

/-- `timer_init`. -/
def timerInit (ecallPc : U64) (board : Board) : Option Board := resetTimer ecallPc board

/-- The next statement of HS mode that concerns the timers. -/
inductive TickPlace where
  /-- Neither handler is running. -/
  | outside
  /-- `handle_timer_irq`, up to its call of `reset_timer`. -/
  | clearStie | checkTimerExpired | countJiffy | tickHandlePeriodic
  /-- `reset_timer`, which holds the compare value when it makes its call. -/
  | setStie | getCycles | sbiSetTimer (stimeValue : U64)
  /-- `vs_sbi_ecall_handle`. -/
  | vsSbiEcallHandle (regs : VsEcallRegs)
  deriving DecidableEq

/-- The timers with the task that a tick is counted against. -/
structure TickChain where
  board : Board
  kernel : Kernel
  place : TickPlace

/-- What can happen next. -/
inductive TickEvent where
  /-- The clock moves on. -/
  | clock (now : U64)
  /-- The machine timer interrupts whatever runs below M mode. -/
  | mTimer (regs : SbiTrapRegs)
  /-- The supervisor timer interrupts the host or its guest. -/
  | hsTimer
  /-- Its handler takes its next step. -/
  | hsStep
  /-- The guest makes a call. -/
  | guestCall (regs : VsEcallRegs)
  /-- The call is served. -/
  | guestServed

/-- The events that are not the guest's. -/
def TickEvent.ofHost : TickEvent → Bool
  | guestCall _ | guestServed => false
  | _ => true

namespace TickChain

/-- The timers of a state. -/
def timers (c : TickChain) : Timers := c.board.timers

/-- A state with other timers. -/
def setTimers (c : TickChain) (timers : Timers) (place : TickPlace) : TickChain :=
  { c with board := { c.board with timers }, place }

@[simp] theorem timers_setTimers (c : TickChain) (t : Timers) (place : TickPlace) :
    (c.setTimers t place).timers = t := rfl

@[simp] theorem place_setTimers (c : TickChain) (t : Timers) (place : TickPlace) :
    (c.setTimers t place).place = place := rfl

/-- The next statement of the handler of the timer interrupt. -/
def hsStep (ecallPc : U64) (c : TickChain) : Option TickChain :=
  let t := c.timers
  match c.place with
  | .clearStie => some (c.setTimers { t with sie := t.sie &&& ~~~sieStie } .checkTimerExpired)
  | .checkTimerExpired => some (c.setTimers t.riscvVcpuCheckTimerExpired .countJiffy)
  | .countJiffy => some (c.setTimers { t with jiffies := t.jiffies + 1 } .tickHandlePeriodic)
  | .tickHandlePeriodic => some { c with kernel := c.kernel.tickHandlePeriodic, place := .setStie }
  | .setStie => some (c.setTimers { t with sie := t.sie ||| sieStie } .getCycles)
  | .getCycles => some { c with place := .sbiSetTimer (t.getCycles + clintTimebaseFreq / hz) }
  | .sbiSetTimer stimeValue =>
    (sbiSetTimer ecallPc stimeValue c.board).map fun board => { c with board, place := .outside }
  | .outside | .vsSbiEcallHandle _ => none

/-- One event. HS mode takes no timer interrupt in a handler, M mode takes its own anywhere. -/
def step (ecallPc : U64) : TickEvent → TickChain → Option TickChain
  | .clock now, c =>
    if c.timers.timerVal ≤ now then some (c.setTimers { c.timers with timerVal := now } c.place)
    else none
  | .mTimer regs, c =>
    if c.timers.mtie = true ∧ c.timers.timerCmp ≤ c.timers.timerVal then
      (sbiTrapHandler (mcauseIrq ||| causeMTimer) regs c.board).map fun (_, board) =>
        { c with board }
    else none
  | .hsTimer, c =>
    if c.place = .outside ∧ c.timers.stie = true ∧ c.timers.stip = true then
      some { c with place := .clearStie }
    else none
  | .hsStep, c => c.hsStep ecallPc
  | .guestCall regs, c =>
    if c.place = .outside then some { c with place := .vsSbiEcallHandle regs } else none
  | .guestServed, c =>
    match c.place with
    | .vsSbiEcallHandle regs =>
      some (c.setTimers (vsSbiEcallHandle (regs.a7.setWidth 32) regs c.timers).2 .outside)
    | _ => none

end TickChain

/-- What `sbi_set_timer` does, whatever the board. -/
theorem sbiSetTimer_eq (ecallPc stimeValue : U64) (board : Board) :
    sbiSetTimer ecallPc stimeValue board =
      some { board with timers := board.timers.clintTimerEventStart stimeValue } := by
  rw [sbiSetTimer, sbiTrapHandler_ecall]
  rfl

/-- The guest's calls change nothing on the host's side. -/
theorem sameHost_vsSbiEcallHandle (id : BitVec 32) (regs : VsEcallRegs) (t : Timers) :
    Timers.SameHost (vsSbiEcallHandle id regs t).2 t := by
  simp only [vsSbiEcallHandle]
  split
  · exact t.sameHost_eventStart regs.a0
  · exact .refl t

namespace TickChain

/-- A machine timer interrupt is always handled. -/
theorem step_mTimer (ecallPc : U64) (regs : SbiTrapRegs) (c : TickChain) :
    c.step ecallPc (.mTimer regs) =
      if c.timers.mtie = true ∧ c.timers.timerCmp ≤ c.timers.timerVal then
        some (c.setTimers c.timers.sbiTimerProcess c.place)
      else none := by
  have interrupt : (mcauseIrq ||| causeMTimer) &&& mcauseIrq ≠ 0 := by decide
  have timer : (mcauseIrq ||| causeMTimer) &&& ~~~mcauseIrq = causeMTimer := by decide
  rw [step, sbiTrapHandler, if_pos interrupt, if_pos timer]
  rfl

/-- The places of `handle_timer_irq` and `reset_timer` where the supervisor timer is masked. -/
def masked : TickPlace → Bool
  | .checkTimerExpired | .countJiffy | .tickHandlePeriodic | .setStie => true
  | _ => false

/-- A compare value as `reset_timer` computes it, from a cycle count the clock has shown. -/
def Programmed (t : Timers) (stimeValue : U64) : Prop :=
  ∃ cycles, cycles ≤ t.timerVal ∧ stimeValue = cycles + clintTimebaseFreq / hz

/-- A compare value stays one as the clock moves on. -/
theorem Programmed.later {t u : Timers} {stimeValue : U64} (programmed : Programmed t stimeValue)
    (later : t.timerVal ≤ u.timerVal) : Programmed u stimeValue := by
  obtain ⟨cycles, read, computed⟩ := programmed
  exact ⟨cycles, BitVec.le_trans read later, computed⟩

/-- The tick is in one place: armed in M mode or pending in HS mode. -/
structure Alive (c : TickChain) : Prop where
  one : c.timers.mtie ≠ c.timers.stip
  programmed : c.timers.mtie = true → Programmed c.timers c.timers.timerCmp
  enabled : masked c.place = false → c.timers.stie = true
  computed : ∀ stimeValue, c.place = .sbiSetTimer stimeValue → Programmed c.timers stimeValue

/-- The tick as `reset_timer` leaves it. -/
theorem alive_programmed {c : TickChain} {stimeValue : U64} (enabled : c.timers.stie = true)
    (programmed : Programmed c.timers stimeValue) :
    Alive (c.setTimers (c.timers.clintTimerEventStart stimeValue) .outside) where
  one := by
    rw [timers_setTimers, Timers.mtie_clintTimerEventStart, Timers.stip_clintTimerEventStart]
    decide
  programmed := fun _ => programmed
  enabled := fun _ => enabled
  computed := fun _ place => by cases place

/-- A step that moves neither bit nor the compare value keeps the tick alive. -/
theorem Alive.move {c c' : TickChain} (alive : c.Alive) (mtie : c'.timers.mtie = c.timers.mtie)
    (stip : c'.timers.stip = c.timers.stip) (cmp : c'.timers.timerCmp = c.timers.timerCmp)
    (later : c.timers.timerVal ≤ c'.timers.timerVal)
    (enabled : masked c'.place = false → c'.timers.stie = true)
    (computed : ∀ stimeValue, c'.place = .sbiSetTimer stimeValue →
      Programmed c'.timers stimeValue) : c'.Alive where
  one := by
    rw [mtie, stip]
    exact alive.one
  programmed := fun armed => by
    rw [cmp]
    exact (alive.programmed (mtie ▸ armed)).later later
  enabled := enabled
  computed := computed

/-- Every statement of the handler keeps the tick alive. -/
theorem Alive.hsStep {ecallPc : U64} {c next : TickChain} (alive : c.Alive)
    (taken : c.hsStep ecallPc = some next) : next.Alive := by
  have same : c.timers.timerVal ≤ c.timers.timerVal := BitVec.le_refl _
  have unmasked : masked c.place = false → c.timers.stie = true := alive.enabled
  cases place : c.place with
  | clearStie =>
    simp only [TickChain.hsStep, place] at taken
    cases taken
    exact alive.move rfl rfl rfl same (fun clear => by cases clear) fun _ at_call => by cases at_call
  | checkTimerExpired =>
    simp only [TickChain.hsStep, place] at taken
    cases taken
    -- The check is about the timer of the guest, and leaves the host's as it is.
    have host := c.timers.sameHost_check
    refine alive.move ?_ ?_ host.timerCmp ?_ (fun clear => by cases clear)
      fun _ at_call => by cases at_call
    · exact congrArg (BitVec.getLsbD · irqMTimer) host.mie
    · exact congrArg (BitVec.getLsbD · irqSTimer) host.mip
    · exact host.timerVal ▸ same
  | countJiffy =>
    simp only [TickChain.hsStep, place] at taken
    cases taken
    exact alive.move rfl rfl rfl same (fun clear => by cases clear) fun _ at_call => by cases at_call
  | tickHandlePeriodic =>
    simp only [TickChain.hsStep, place] at taken
    cases taken
    exact alive.move rfl rfl rfl same (fun clear => by cases clear) fun _ at_call => by cases at_call
  | setStie =>
    simp only [TickChain.hsStep, place] at taken
    cases taken
    -- From here on the supervisor timer is let through again.
    refine alive.move rfl rfl rfl same (fun _ => ?_) fun _ at_call => by cases at_call
    exact Timers.stie_set c.timers.sie
  | getCycles =>
    simp only [TickChain.hsStep, place] at taken
    cases taken
    refine alive.move rfl rfl rfl same (fun _ => unmasked (by rw [place]; rfl)) ?_
    intro stimeValue at_call
    have computed := TickPlace.sbiSetTimer.inj at_call
    exact ⟨c.timers.getCycles, same, computed.symm⟩
  | sbiSetTimer stimeValue =>
    simp only [TickChain.hsStep, place, sbiSetTimer_eq, Option.map_some] at taken
    cases taken
    -- The call arms the machine timer and takes back what is pending, in one trap.
    exact alive_programmed (unmasked (by rw [place]; rfl)) (alive.computed stimeValue place)
  | outside =>
    simp only [TickChain.hsStep, place] at taken
    cases taken
  | vsSbiEcallHandle regs =>
    simp only [TickChain.hsStep, place] at taken
    cases taken

/-- Every event keeps the tick alive. -/
theorem Alive.step {ecallPc : U64} {event : TickEvent} {c next : TickChain} (alive : c.Alive)
    (taken : c.step ecallPc event = some next) : next.Alive := by
  have same : c.timers.timerVal ≤ c.timers.timerVal := BitVec.le_refl _
  cases event with
  | clock now =>
    simp only [TickChain.step, Option.ite_none_right_eq_some] at taken
    obtain ⟨later, moved⟩ := taken
    cases moved
    exact alive.move rfl rfl rfl later alive.enabled fun stimeValue place =>
      (alive.computed stimeValue place).later later
  | mTimer regs =>
    rw [step_mTimer, Option.ite_none_right_eq_some] at taken
    obtain ⟨-, moved⟩ := taken
    cases moved
    -- The interrupt hands the tick over, from the machine timer to the pending bit.
    refine ⟨?_, ?_, alive.enabled, alive.computed⟩
    · rw [timers_setTimers, Timers.mtie_sbiTimerProcess, Timers.stip_sbiTimerProcess]
      decide
    · rw [timers_setTimers, Timers.mtie_sbiTimerProcess]
      rintro ⟨⟩
  | hsTimer =>
    simp only [TickChain.step, Option.ite_none_right_eq_some] at taken
    obtain ⟨⟨-, enabled, -⟩, moved⟩ := taken
    cases moved
    exact alive.move rfl rfl rfl same (fun _ => enabled) fun _ at_call => by cases at_call
  | hsStep => exact alive.hsStep taken
  | guestCall regs =>
    simp only [TickChain.step, Option.ite_none_right_eq_some] at taken
    obtain ⟨place, moved⟩ := taken
    cases moved
    have enabled := alive.enabled (by rw [place]; rfl)
    exact alive.move rfl rfl rfl same (fun _ => enabled) fun _ at_call => by cases at_call
  | guestServed =>
    cases place : c.place with
    | vsSbiEcallHandle regs =>
      simp only [TickChain.step, place] at taken
      cases taken
      -- Nor does the call of the guest reach a timer of the host.
      have host := sameHost_vsSbiEcallHandle (regs.a7.setWidth 32) regs c.timers
      have enabled := alive.enabled (by rw [place]; rfl)
      refine alive.move ?_ ?_ host.timerCmp ?_ (fun _ => ?_) fun _ at_call => by cases at_call
      · exact congrArg (BitVec.getLsbD · irqMTimer) host.mie
      · exact congrArg (BitVec.getLsbD · irqSTimer) host.mip
      · exact host.timerVal ▸ same
      · exact (congrArg (BitVec.getLsbD · irqSTimer) host.sie).trans enabled
    | _ =>
      simp only [TickChain.step, place] at taken
      cases taken

/-! ### The host without its guest -/

/-- Where the host would be if the guest had made no call. -/
def hostPlace : TickPlace → TickPlace
  | .vsSbiEcallHandle _ => .outside
  | place => place

/-- Two states that differ in the guest's timer alone, and in whether its call is being served. -/
structure SameHost (c d : TickChain) : Prop where
  timers : Timers.SameHost c.timers d.timers
  uart : c.board.uart = d.board.uart
  kernel : c.kernel = d.kernel
  place : d.place = hostPlace c.place

/-- A guest's event changes nothing the host can see. -/
theorem SameHost.hidden {ecallPc : U64} {event : TickEvent} {c d next : TickChain}
    (guest : event.ofHost = false) (same : SameHost c d)
    (taken : c.step ecallPc event = some next) : SameHost next d := by
  -- The guest has two events: its call, and the answer, which only touch what is its own.
  cases event with
  | guestCall regs =>
    simp only [step, Option.ite_none_right_eq_some] at taken
    obtain ⟨place, moved⟩ := taken
    cases moved
    exact ⟨same.timers, same.uart, same.kernel, by rw [same.place, place]; rfl⟩
  | guestServed =>
    cases place : c.place with
    | vsSbiEcallHandle regs =>
      simp only [step, place] at taken
      cases taken
      have served := sameHost_vsSbiEcallHandle (regs.a7.setWidth 32) regs c.timers
      exact ⟨served.trans same.timers, same.uart, same.kernel, by rw [same.place, place]; rfl⟩
    | _ =>
      simp only [step, place] at taken
      cases taken
  | _ => cases guest

/-- A statement of the handler does the same with or without the guest. -/
theorem SameHost.hsStep {ecallPc : U64} {c d next : TickChain} (same : SameHost c d)
    (taken : c.hsStep ecallPc = some next) :
    ∃ next', d.hsStep ecallPc = some next' ∧ SameHost next next' := by
  obtain ⟨mie, mip, sie, timerVal, timerCmp, jiffies⟩ := same.timers
  have place' := same.place
  cases place : c.place with
  | clearStie =>
    rw [place] at place'
    simp only [TickChain.hsStep, place, place', hostPlace] at taken ⊢
    cases taken
    exact ⟨_, rfl, ⟨mie, mip, congrArg (· &&& ~~~sieStie) sie, timerVal, timerCmp, jiffies⟩,
      same.uart, same.kernel, rfl⟩
  | checkTimerExpired =>
    rw [place] at place'
    simp only [TickChain.hsStep, place, place', hostPlace] at taken ⊢
    cases taken
    -- The check moves what the two states may differ in anyway.
    have here := c.timers.sameHost_check.trans same.timers
    exact ⟨_, rfl, here.trans d.timers.sameHost_check.symm, same.uart, same.kernel, rfl⟩
  | countJiffy =>
    rw [place] at place'
    simp only [TickChain.hsStep, place, place', hostPlace] at taken ⊢
    cases taken
    exact ⟨_, rfl, ⟨mie, mip, sie, timerVal, timerCmp, congrArg (· + 1) jiffies⟩,
      same.uart, same.kernel, rfl⟩
  | tickHandlePeriodic =>
    rw [place] at place'
    simp only [TickChain.hsStep, place, place', hostPlace] at taken ⊢
    cases taken
    exact ⟨_, rfl, same.timers, same.uart, congrArg Kernel.tickHandlePeriodic same.kernel, rfl⟩
  | setStie =>
    rw [place] at place'
    simp only [TickChain.hsStep, place, place', hostPlace] at taken ⊢
    cases taken
    exact ⟨_, rfl, ⟨mie, mip, congrArg (· ||| sieStie) sie, timerVal, timerCmp, jiffies⟩,
      same.uart, same.kernel, rfl⟩
  | getCycles =>
    rw [place] at place'
    simp only [TickChain.hsStep, place, place', hostPlace] at taken ⊢
    cases taken
    refine ⟨_, rfl, same.timers, same.uart, same.kernel, ?_⟩
    -- Both hosts read the same clock.
    have read : d.timers.getCycles = c.timers.getCycles := timerVal.symm
    rw [read]
    rfl
  | sbiSetTimer stimeValue =>
    rw [place] at place'
    simp only [TickChain.hsStep, place, place', hostPlace, sbiSetTimer_eq, Option.map_some]
      at taken ⊢
    cases taken
    exact ⟨_, rfl, ⟨congrArg (· ||| mipMtip) mie, congrArg (· &&& ~~~mipStip) mip, sie, timerVal,
      rfl, jiffies⟩, same.uart, same.kernel, rfl⟩
  | outside =>
    simp only [TickChain.hsStep, place] at taken
    cases taken
  | vsSbiEcallHandle regs =>
    simp only [TickChain.hsStep, place] at taken
    cases taken

/-- A host's event happens with or without the guest, and does the same. -/
theorem SameHost.seen {ecallPc : U64} {event : TickEvent} {c d next : TickChain}
    (host : event.ofHost = true) (same : SameHost c d)
    (taken : c.step ecallPc event = some next) :
    ∃ next', d.step ecallPc event = some next' ∧ SameHost next next' := by
  -- The two states agree on all that the conditions of a host event look at.
  obtain ⟨mie, mip, sie, timerVal, timerCmp, jiffies⟩ := same.timers
  cases event with
  | clock now =>
    simp only [step, Option.ite_none_right_eq_some] at taken ⊢
    obtain ⟨later, moved⟩ := taken
    cases moved
    exact ⟨_, ⟨timerVal ▸ later, rfl⟩, ⟨mie, mip, sie, rfl, timerCmp, jiffies⟩, same.uart,
      same.kernel, same.place⟩
  | mTimer regs =>
    simp only [step_mTimer, Option.ite_none_right_eq_some] at taken ⊢
    obtain ⟨⟨enabled, due⟩, moved⟩ := taken
    cases moved
    -- Both bits are read from registers that agree.
    have enabled' : d.timers.mtie = true :=
      (congrArg (BitVec.getLsbD · irqMTimer) mie).symm.trans enabled
    refine ⟨_, ⟨⟨enabled', timerCmp ▸ timerVal ▸ due⟩, rfl⟩, ?_, same.uart, same.kernel, same.place⟩
    exact ⟨congrArg (· &&& ~~~mipMtip) mie, congrArg (· ||| mipStip) mip, sie, timerVal, timerCmp,
      jiffies⟩
  | hsTimer =>
    simp only [step, Option.ite_none_right_eq_some] at taken ⊢
    obtain ⟨⟨place, enabled, pending⟩, moved⟩ := taken
    cases moved
    -- The interrupt is taken outside of a handler, which both hosts are.
    have place' : d.place = .outside := by rw [same.place, place]; rfl
    have enabled' : d.timers.stie = true :=
      (congrArg (BitVec.getLsbD · irqSTimer) sie).symm.trans enabled
    have pending' : d.timers.stip = true :=
      (congrArg (BitVec.getLsbD · irqSTimer) mip).symm.trans pending
    exact ⟨_, ⟨⟨place', enabled', pending'⟩, rfl⟩, same.timers, same.uart, same.kernel, rfl⟩
  | hsStep => exact same.hsStep taken
  | guestCall regs => cases host
  | guestServed => cases host

/-- What the host and its firmware share of the tick. -/
def hostView (c : TickChain) : U64 × Bool × Bool × U64 :=
  (c.timers.timerCmp, c.timers.mtie, c.timers.stip, c.timers.jiffies)

/-- Two such states show the host the same. -/
theorem SameHost.view {c d : TickChain} (same : SameHost c d) : c.hostView = d.hostView := by
  have mtie : c.timers.mtie = d.timers.mtie := congrArg (BitVec.getLsbD · irqMTimer) same.timers.mie
  have stip : c.timers.stip = d.timers.stip := congrArg (BitVec.getLsbD · irqSTimer) same.timers.mip
  rw [hostView, hostView, same.timers.timerCmp, mtie, stip, same.timers.jiffies]

/-- A run is also one of the host alone. -/
theorem run_host {ecallPc : U64} {events : List TickEvent} {start final : TickChain}
    (outside : start.place = .outside)
    (ran : Transition.run (step ecallPc) events start = some final) :
    ∃ alone, Transition.run (step ecallPc) (events.filter TickEvent.ofHost) start = some alone ∧
      SameHost final alone := by
  have initial : SameHost start start :=
    ⟨.refl _, rfl, rfl, by rw [outside]; rfl⟩
  exact Transition.run_erase (fun _ _ _ _ guest same taken => same.hidden guest taken)
    (fun _ _ _ _ host same taken => same.seen host taken) initial ran

/-- Outside the handlers a tick is pending, or will be as soon as the clock reaches its time. -/
theorem Alive.ticks {ecallPc : U64} {c : TickChain} (alive : c.Alive) (outside : c.place = .outside) :
    (c.step ecallPc .hsTimer).isSome = true ∨ ∀ regs now, c.timers.timerVal ≤ now →
      c.timers.timerCmp ≤ now →
      (Transition.run (TickChain.step ecallPc) [.clock now, .mTimer regs, .hsTimer] c).isSome = true := by
  have enabled := alive.enabled (by rw [outside]; rfl)
  cases pending : c.timers.stip with
  | true =>
    left
    simp only [TickChain.step]
    rw [if_pos ⟨outside, enabled, pending⟩]
    rfl
  | false =>
    right
    intro regs now later due
    -- Nothing is pending, so it is the machine timer that is armed.
    have armed : c.timers.mtie = true := by
      have one := alive.one
      rw [pending] at one
      exact Bool.eq_true_of_not_eq_false one
    -- The clock moves to the deadline, the machine timer comes, and then the interrupt is pending.
    have moved : c.step ecallPc (.clock now) =
        some (c.setTimers { c.timers with timerVal := now } c.place) := if_pos later
    rw [Transition.run_cons, moved, Option.bind_some, Transition.run_cons, step_mTimer,
      if_pos ⟨armed, due⟩, Option.bind_some, Transition.run_cons]
    simp only [TickChain.step]
    rw [if_pos ⟨outside, enabled, Timers.stip_sbiTimerProcess _⟩]
    rfl

/-- `timer_init` returns with the tick armed. -/
theorem timerInit_alive (ecallPc : U64) (board : Board) (kernel : Kernel) :
    ∃ board', timerInit ecallPc board = some board' ∧ Alive ⟨board', kernel, .outside⟩ := by
  rw [timerInit, resetTimer, sbiSetTimer_eq]
  refine ⟨_, rfl, ?_⟩
  -- The clock is read before the call, and the call programs what was computed from it.
  generalize read : Timers.getCycles _ + clintTimebaseFreq / hz = stimeValue
  have programmed : Programmed { board.timers with sie := board.timers.sie ||| sieStie } stimeValue :=
    ⟨board.timers.getCycles, BitVec.le_refl _, read.symm⟩
  exact alive_programmed
    (c := ⟨{ board with timers := { board.timers with sie := board.timers.sie ||| sieStie } }, kernel,
      .outside⟩) (Timers.stie_set board.timers.sie) programmed

end TickChain

/--
The tick of the host is always armed or pending, and no call of the guest moves it.

The first part is about every run from `timer_init`; the others compare runs that differ in the
guest's events alone.
-/
theorem tickChain_alive (ecallPc : U64) (board : Board) (kernel : Kernel) :
    ∃ board', timerInit ecallPc board = some board' ∧
      (∀ events c, Transition.run (TickChain.step ecallPc) events ⟨board', kernel, .outside⟩ = some c →
        (c.place = .outside → c.timers.stie = true ∧
          ((c.step ecallPc .hsTimer).isSome = true ∨ ∀ regs now, c.timers.timerVal ≤ now →
            c.timers.timerCmp ≤ now → (Transition.run (TickChain.step ecallPc)
              [.clock now, .mTimer regs, .hsTimer] c).isSome = true)) ∧
        (c.timers.mtie ^^ c.timers.stip) = true ∧
        (c.timers.mtie = true → ∃ cycles, cycles ≤ c.timers.timerVal ∧
          c.timers.timerCmp = cycles + clintTimebaseFreq / hz)) ∧
      (∀ events c, Transition.run (TickChain.step ecallPc) events ⟨board', kernel, .outside⟩ = some c →
        ∃ alone, Transition.run (TickChain.step ecallPc) (events.filter TickEvent.ofHost)
          ⟨board', kernel, .outside⟩ = some alone ∧ c.hostView = alone.hostView) ∧
      ∀ events events' c c',
        Transition.run (TickChain.step ecallPc) events ⟨board', kernel, .outside⟩ = some c →
        Transition.run (TickChain.step ecallPc) events' ⟨board', kernel, .outside⟩ = some c' →
        events.filter TickEvent.ofHost = events'.filter TickEvent.ofHost →
        c.hostView = c'.hostView := by
  -- `timer_init` leaves the tick armed, and every event keeps it alive.
  obtain ⟨board', inited, initial⟩ := TickChain.timerInit_alive ecallPc board kernel
  refine ⟨board', inited, ?_, ?_, ?_⟩
  · intro events c ran
    have alive := Transition.run_invariant (fun _ _ _ alive taken => alive.step taken) initial ran
    refine ⟨fun outside => ⟨alive.enabled (by rw [outside]; rfl), alive.ticks outside⟩, ?_,
      alive.programmed⟩
    exact Bool.xor_iff_ne.mpr alive.one
  · intro events c ran
    obtain ⟨alone, ran', same⟩ := TickChain.run_host rfl ran
    exact ⟨alone, ran', same.view⟩
  · intro events events' c c' ran ran' equal
    -- Both runs are the same run of the host alone.
    obtain ⟨alone, first, same⟩ := TickChain.run_host rfl ran
    obtain ⟨alone', second, same'⟩ := TickChain.run_host rfl ran'
    rw [equal, second] at first
    cases first
    exact same.view.trans same'.view.symm

end Benos
