import Benos.Sched.TaskPage
import Benos.Timer.TickChain

/-!
The two ticks together: that of the guest (`vs_timer.c`) is programmed through the host, whose own
tick looks at it and injects it.
-/

namespace Benos

/-- The next statement of the guest that concerns its timer. -/
inductive GuestPlace where
  /-- Neither handler nor `vs_timer_init` is running. -/
  | outside
  /-- `vs_handle_timer_irq`, up to its call of `reset_timer`. -/
  | clearStie | countJiffy
  /-- `reset_timer` of the guest, which holds the deadline when it makes its call. -/
  | setStie | getCycles | sbiSetTimer (stimeValue : U64)
  /-- Its call is being served by the host. -/
  | called (stimeValue : U64)
  deriving DecidableEq

/-- The host with its guest: the guest's own `sie`, its `vs_jiffies` and what it does next. -/
structure GuestTicks where
  host : TickChain
  sie : U64
  vsJiffies : U64
  place : GuestPlace

/-- What can happen next to the two of them. -/
inductive TicksEvent where
  /-- An event of the host, or its answer to a call. -/
  | host (event : TickEvent)
  /-- The injected interrupt is taken by the guest. -/
  | vsTimer
  /-- The guest takes its next step. -/
  | vsStep
  /-- The guest makes a call that is not about its timer. -/
  | otherCall (regs : VsEcallRegs)

/-- `VS_HZ`. -/
def vsHz : U64 := 50

/-- `vs_get_cycles`: the guest sees `htimedelta`, which is kept equal to `vcpu_time_delta`. -/
def vsGetCycles (t : Timers) : U64 := t.timerVal + t.vcpuTimeDelta

namespace GuestTicks

/-- `sie.STIE` of the guest. -/
def stie (g : GuestTicks) : Bool := g.sie.getLsbD irqSTimer

/-- The timers of a state. -/
def timers (g : GuestTicks) : Timers := g.host.timers

/-- The next statement of `vs_handle_timer_irq` or of `reset_timer`, without what it prints. -/
def vsStep (ecallPc vsEcallPc : U64) (g : GuestTicks) : Option GuestTicks :=
  match g.place with
  | .clearStie => some { g with sie := g.sie &&& ~~~sieStie, place := .countJiffy }
  | .countJiffy => some { g with vsJiffies := g.vsJiffies + 1, place := .setStie }
  | .setStie => some { g with sie := g.sie ||| sieStie, place := .getCycles }
  | .getCycles =>
    some { g with place := .sbiSetTimer (vsGetCycles g.timers + clintTimebaseFreq / vsHz) }
  | .sbiSetTimer stimeValue =>
    (g.host.step ecallPc (.guestCall ⟨vsEcallPc, stimeValue, sbiSetTimerId.setWidth 64⟩)).map
      fun host => { g with host, place := .called stimeValue }
  | .outside | .called _ => none

/-- One event. The guest only runs where no handler of the host does. -/
def step (ecallPc vsEcallPc : U64) : TicksEvent → GuestTicks → Option GuestTicks
  | .host (.guestCall _), _ => none
  | .host .guestServed, g =>
    (g.host.step ecallPc .guestServed).map fun host => { g with host, place := .outside }
  | .host event, g => (g.host.step ecallPc event).map fun host => { g with host }
  | .vsTimer, g =>
    if g.host.place = .outside ∧ g.place = .outside ∧ g.stie = true ∧ g.timers.vstip = true then
      some { g with place := .clearStie }
    else none
  | .vsStep, g => if g.host.place = .outside then g.vsStep ecallPc vsEcallPc else none
  | .otherCall regs, g =>
    if g.place = .outside ∧ regs.a7.setWidth 32 ≠ sbiSetTimerId then
      (g.host.step ecallPc (.guestCall regs)).map fun host => { g with host }
    else none

/-- The guest begins to call `vs_timer_init` on a host whose `timer_init` has returned. -/
def start (board : Board) (kernel : Kernel) (sie : U64) : GuestTicks :=
  { host := ⟨board, kernel, .outside⟩, sie, vsJiffies := 0, place := .setStie }

end GuestTicks

/-! ### The pace of the host -/

namespace TickChain

/-- The places of `handle_timer_irq` and of the `reset_timer` that it calls. -/
def handling : TickPlace → Bool
  | .outside | .vsSbiEcallHandle _ => false
  | _ => true

/-- Those of them behind the statement that counts. -/
def counted : TickPlace → Bool
  | .tickHandlePeriodic | .setStie | .getCycles | .sbiSetTimer _ => true
  | _ => false

/-- The cycles of one tick. -/
def period : Nat := 100000

/-- The cycle count before which the next tick cannot be counted. -/
def due (start : Nat) (c : TickChain) : Nat := start + period * (c.timers.jiffies.toNat + 1)

/-- No tick is counted early: wherever the tick is, it has waited for its time, or waits for it. -/
structure Paced (start : Nat) (c : TickChain) : Prop where
  elapsed : start + period * c.timers.jiffies.toNat ≤ c.timers.timerVal.toNat
  taken : handling c.place = true → c.timers.stip = true
  armed : c.timers.mtie = true → c.due start ≤ c.timers.timerCmp.toNat
  pending : c.timers.stip = true → counted c.place = false → c.due start ≤ c.timers.timerVal.toNat
  computed : ∀ stimeValue, c.place = .sbiSetTimer stimeValue → c.due start ≤ stimeValue.toNat

/-- The clock is so far from its end that no deadline wraps around. -/
def Early (t : Timers) : Prop := t.timerVal.toNat + 200000 < 2 ^ 64

/-- A step that neither counts nor programs keeps the pace. -/
theorem Paced.move {start : Nat} {c c' : TickChain} (paced : c.Paced start)
    (mtie : c'.timers.mtie = c.timers.mtie) (stip : c'.timers.stip = c.timers.stip)
    (cmp : c'.timers.timerCmp = c.timers.timerCmp) (jiffies : c'.timers.jiffies = c.timers.jiffies)
    (later : c.timers.timerVal ≤ c'.timers.timerVal)
    (taken : handling c'.place = true → c.timers.stip = true)
    (same : counted c'.place = counted c.place)
    (computed : ∀ stimeValue, c'.place = .sbiSetTimer stimeValue →
      c'.due start ≤ stimeValue.toNat) : c'.Paced start := by
  have due : c'.due start = c.due start := by rw [TickChain.due, TickChain.due, jiffies]
  have moved : c.timers.timerVal.toNat ≤ c'.timers.timerVal.toNat := BitVec.le_def.mp later
  refine ⟨?_, ?_, ?_, ?_, computed⟩
  · rw [jiffies]
    exact paced.elapsed.trans moved
  · rw [stip]
    exact taken
  · rw [mtie, due, cmp]
    exact paced.armed
  · rw [stip, same, due]
    intro pending uncounted
    exact (paced.pending pending uncounted).trans moved

/-- The pace as `reset_timer` leaves it. -/
theorem paced_programmed {start : Nat} {c : TickChain} {stimeValue : U64}
    (elapsed : start + period * c.timers.jiffies.toNat ≤ c.timers.timerVal.toNat)
    (due : c.due start ≤ stimeValue.toNat) :
    (c.setTimers (c.timers.clintTimerEventStart stimeValue) .outside).Paced start where
  elapsed := elapsed
  taken := by rintro ⟨⟩
  armed := fun _ => due
  pending := fun pending _ => by
    rw [timers_setTimers, Timers.stip_clintTimerEventStart] at pending
    cases pending
  computed := by rintro _ ⟨⟩

/-- Every statement of the handler keeps the pace. -/
theorem Paced.hsStep {start : Nat} {ecallPc : U64} {c next : TickChain} (paced : c.Paced start)
    (alive : c.Alive) (early : Early c.timers) (taken : c.hsStep ecallPc = some next) :
    next.Paced start := by
  have same : c.timers.timerVal ≤ c.timers.timerVal := BitVec.le_refl _
  have inside (handles : handling c.place = true) : c.timers.stip = true := paced.taken handles
  cases place : c.place with
  | clearStie =>
    simp only [TickChain.hsStep, place] at taken
    cases taken
    exact paced.move rfl rfl rfl rfl same (fun _ => inside (by rw [place]; rfl))
      (by rw [place]; rfl) fun _ at_call => by cases at_call
  | checkTimerExpired =>
    simp only [TickChain.hsStep, place] at taken
    cases taken
    -- The check is about the timer of the guest, and leaves the host's as it is.
    have host := c.timers.sameHost_check
    refine paced.move ?_ ?_ host.timerCmp host.jiffies ?_ (fun _ => inside (by rw [place]; rfl))
      (by rw [place]; rfl) fun _ at_call => by cases at_call
    · exact congrArg (BitVec.getLsbD · irqMTimer) host.mie
    · exact congrArg (BitVec.getLsbD · irqSTimer) host.mip
    · exact host.timerVal ▸ same
  | countJiffy =>
    simp only [TickChain.hsStep, place] at taken
    cases taken
    -- The tick was due, so it may be counted; the number is far too small to wrap around.
    have waited := paced.pending (inside (by rw [place]; rfl)) (by rw [place]; rfl)
    have pendingNow := inside (by rw [place]; rfl)
    have counts : (c.timers.jiffies + 1).toNat = c.timers.jiffies.toNat + 1 := by
      have := c.timers.timerVal.isLt
      rw [TickChain.due, period] at waited
      rw [BitVec.toNat_add]
      exact Nat.mod_eq_of_lt (by show c.timers.jiffies.toNat + 1 < 2 ^ 64; omega)
    refine ⟨?_, fun _ => pendingNow, fun armed => ?_, by rintro _ ⟨⟩, by rintro _ ⟨⟩⟩
    · show start + period * (c.timers.jiffies + 1).toNat ≤ c.timers.timerVal.toNat
      rw [counts]
      exact waited
    · exact absurd (armed.trans pendingNow.symm) alive.one
  | tickHandlePeriodic =>
    simp only [TickChain.hsStep, place] at taken
    cases taken
    exact paced.move rfl rfl rfl rfl same (fun _ => inside (by rw [place]; rfl))
      (by rw [place]; rfl) fun _ at_call => by cases at_call
  | setStie =>
    simp only [TickChain.hsStep, place] at taken
    cases taken
    exact paced.move rfl rfl rfl rfl same (fun _ => inside (by rw [place]; rfl))
      (by rw [place]; rfl) fun _ at_call => by cases at_call
  | getCycles =>
    simp only [TickChain.hsStep, place] at taken
    cases taken
    refine paced.move rfl rfl rfl rfl same (fun _ => inside (by rw [place]; rfl))
      (by rw [place]; rfl) fun stimeValue at_call => ?_
    -- The deadline is a period from now, and the count is for a tick that was due.
    have elapsed := paced.elapsed
    have computed := TickPlace.sbiSetTimer.inj at_call
    have value : stimeValue.toNat = c.timers.timerVal.toNat + period := by
      rw [← computed, BitVec.toNat_add]
      rw [Early] at early
      exact Nat.mod_eq_of_lt (by show c.timers.timerVal.toNat + 100000 < 2 ^ 64; omega)
    show start + period * (c.timers.jiffies.toNat + 1) ≤ stimeValue.toNat
    rw [value, Nat.mul_add, Nat.mul_one]
    omega
  | sbiSetTimer stimeValue =>
    simp only [TickChain.hsStep, place, sbiSetTimer_eq, Option.map_some] at taken
    cases taken
    exact paced_programmed paced.elapsed (paced.computed stimeValue place)
  | outside =>
    simp only [TickChain.hsStep, place] at taken
    cases taken
  | vsSbiEcallHandle regs =>
    simp only [TickChain.hsStep, place] at taken
    cases taken

/-- Every event keeps the pace. -/
theorem Paced.step {start : Nat} {ecallPc : U64} {event : TickEvent} {c next : TickChain}
    (paced : c.Paced start) (alive : c.Alive) (early : Early c.timers)
    (taken : c.step ecallPc event = some next) : next.Paced start := by
  have same : c.timers.timerVal ≤ c.timers.timerVal := BitVec.le_refl _
  cases event with
  | clock now =>
    simp only [TickChain.step, Option.ite_none_right_eq_some] at taken
    obtain ⟨later, moved⟩ := taken
    cases moved
    exact paced.move rfl rfl rfl rfl later paced.taken rfl paced.computed
  | mTimer regs =>
    rw [step_mTimer, Option.ite_none_right_eq_some] at taken
    obtain ⟨⟨armed, reached⟩, moved⟩ := taken
    cases moved
    -- The compare value has been waited for, and the clock has reached it.
    have waited := (paced.armed armed).trans (BitVec.le_def.mp reached)
    refine ⟨paced.elapsed, fun _ => Timers.stip_sbiTimerProcess _, ?_, fun _ _ => waited,
      paced.computed⟩
    rw [timers_setTimers, Timers.mtie_sbiTimerProcess]
    rintro ⟨⟩
  | hsTimer =>
    simp only [TickChain.step, Option.ite_none_right_eq_some] at taken
    obtain ⟨⟨place, -, pending⟩, moved⟩ := taken
    cases moved
    exact paced.move rfl rfl rfl rfl same (fun _ => pending) (by rw [place]; rfl)
      fun _ at_call => by cases at_call
  | hsStep => exact paced.hsStep alive early taken
  | guestCall regs =>
    simp only [TickChain.step, Option.ite_none_right_eq_some] at taken
    obtain ⟨place, moved⟩ := taken
    cases moved
    exact paced.move rfl rfl rfl rfl same (by rintro ⟨⟩) (by rw [place]; rfl)
      fun _ at_call => by cases at_call
  | guestServed =>
    cases place : c.place with
    | vsSbiEcallHandle regs =>
      simp only [TickChain.step, place] at taken
      cases taken
      -- The call of the guest reaches no timer of the host.
      have host := sameHost_vsSbiEcallHandle (regs.a7.setWidth 32) regs c.timers
      refine paced.move ?_ ?_ host.timerCmp host.jiffies ?_ (by rintro ⟨⟩) (by rw [place]; rfl)
        fun _ at_call => by cases at_call
      · exact congrArg (BitVec.getLsbD · irqMTimer) host.mie
      · exact congrArg (BitVec.getLsbD · irqSTimer) host.mip
      · exact host.timerVal ▸ same
    | _ =>
      simp only [TickChain.step, place] at taken
      cases taken

end TickChain

/-! ### What the host does to the timer of its guest -/

/-- The guest's side of the timers is the same. -/
structure Timers.SameGuest (t u : Timers) : Prop where
  hvip : t.hvip = u.hvip
  vcpuTimeDelta : t.vcpuTimeDelta = u.vcpuTimeDelta
  vcpuNextCycle : t.vcpuNextCycle = u.vcpuNextCycle
  vcpuTimerInit : t.vcpuTimerInit = u.vcpuTimerInit

/-- At the same clock the check does the same to it. -/
theorem Timers.SameGuest.check {t u : Timers} (same : Timers.SameGuest t u)
    (clock : t.timerVal = u.timerVal) :
    Timers.SameGuest t.riscvVcpuCheckTimerExpired u.riscvVcpuCheckTimerExpired := by
  have both : t.Expired ↔ u.Expired := by
    rw [Timers.Expired, Timers.Expired, Timers.riscvVcpuCurrentCycles,
      Timers.riscvVcpuCurrentCycles, Timers.getCycles, Timers.getCycles, clock, same.vcpuTimerInit,
      same.vcpuNextCycle, same.vcpuTimeDelta]
  rw [Timers.riscvVcpuCheckTimerExpired_eq, Timers.riscvVcpuCheckTimerExpired_eq]
  by_cases expired : u.Expired
  · rw [if_pos (both.mpr expired), if_pos expired]
    exact ⟨congrArg (· ||| (1 : U64) <<< irqVsTimer) same.hvip, same.vcpuTimeDelta,
      same.vcpuNextCycle, rfl⟩
  · rw [if_neg (mt both.mp expired), if_neg expired]
    exact same

/-- A deadline that the check finds reached is injected. -/
theorem Timers.vstip_check {t : Timers} (expired : t.Expired) :
    t.riscvVcpuCheckTimerExpired.vstip = true := by
  rw [Timers.riscvVcpuCheckTimerExpired_eq, if_pos expired]
  exact Timers.getLsbD_set _ (show irqVsTimer < 64 by decide)

/-- The clock is not set near its end. -/
def TickEvent.Early : TickEvent → Prop
  | .clock now => now.toNat + 200000 < 2 ^ 64
  | _ => True

/-- Nor does an event of the two together set it there. -/
def TicksEvent.Early : TicksEvent → Prop
  | .host event => event.Early
  | _ => True

namespace TickChain

/-- What an event of the host does, seen from its guest: nothing, or the check of its timer. -/
structure Unseen (c next : TickChain) : Prop where
  early : Early next.timers
  later : c.timers.timerVal ≤ next.timers.timerVal
  calls : ∀ regs, next.place = .vsSbiEcallHandle regs ↔ c.place = .vsSbiEcallHandle regs
  guest : Timers.SameGuest next.timers c.timers ∨
    next.timers = c.timers.riscvVcpuCheckTimerExpired

/-- Every statement of the host's handler but for the check leaves the guest's side alone. -/
theorem hsStep_unseen {ecallPc : U64} {c next : TickChain} (early : Early c.timers)
    (taken : c.hsStep ecallPc = some next) : Unseen c next := by
  have same : c.timers.timerVal ≤ c.timers.timerVal := BitVec.le_refl _
  -- Only the check of the guest's timer changes something that the guest reads.
  cases place : c.place with
  | checkTimerExpired =>
    simp only [TickChain.hsStep, place] at taken
    cases taken
    have clock := c.timers.sameHost_check.timerVal
    refine ⟨?_, by rw [timers_setTimers, clock]; exact same, fun regs => ?_, .inr rfl⟩
    · rw [timers_setTimers, Early, clock]
      exact early
    · rw [place]
      exact iff_of_false (by rintro ⟨⟩) (by rintro ⟨⟩)
  | sbiSetTimer stimeValue =>
    simp only [TickChain.hsStep, place, sbiSetTimer_eq, Option.map_some] at taken
    cases taken
    refine ⟨early, same, fun regs => ?_, .inl ⟨rfl, rfl, rfl, rfl⟩⟩
    rw [place]
    exact iff_of_false (by rintro ⟨⟩) (by rintro ⟨⟩)
  | outside | vsSbiEcallHandle regs =>
    simp only [TickChain.hsStep, place] at taken
    cases taken
  | clearStie | countJiffy | tickHandlePeriodic | setStie | getCycles =>
    simp only [TickChain.hsStep, place] at taken
    cases taken
    refine ⟨early, same, fun regs => ?_, .inl ⟨rfl, rfl, rfl, rfl⟩⟩
    rw [place]
    exact iff_of_false (by rintro ⟨⟩) (by rintro ⟨⟩)

/-- So does every other event of the host. -/
theorem step_unseen {ecallPc : U64} {event : TickEvent} {c next : TickChain}
    (early : Early c.timers) (soon : event.Early) (host : event.ofHost = true)
    (taken : c.step ecallPc event = some next) : Unseen c next := by
  have same : c.timers.timerVal ≤ c.timers.timerVal := BitVec.le_refl _
  -- None of these events touches what the guest reads, but the clock moves.
  cases event with
  | clock now =>
    simp only [TickChain.step, Option.ite_none_right_eq_some] at taken
    obtain ⟨later, moved⟩ := taken
    cases moved
    exact ⟨soon, later, fun _ => .rfl, .inl ⟨rfl, rfl, rfl, rfl⟩⟩
  | mTimer regs =>
    rw [step_mTimer, Option.ite_none_right_eq_some] at taken
    obtain ⟨-, moved⟩ := taken
    cases moved
    exact ⟨early, same, fun _ => .rfl, .inl ⟨rfl, rfl, rfl, rfl⟩⟩
  | hsTimer =>
    simp only [TickChain.step, Option.ite_none_right_eq_some] at taken
    obtain ⟨⟨place, -, -⟩, moved⟩ := taken
    cases moved
    refine ⟨early, same, fun regs => ?_, .inl ⟨rfl, rfl, rfl, rfl⟩⟩
    rw [place]
    exact iff_of_false (by rintro ⟨⟩) (by rintro ⟨⟩)
  | hsStep => exact hsStep_unseen early taken
  | guestCall regs | guestServed => cases host

end TickChain

/-! ### The pace of the guest -/

namespace GuestTicks

/-- The places of the guest behind the statement that counts. -/
def settled : GuestPlace → Bool
  | .setStie | .getCycles | .sbiSetTimer _ | .called _ => true
  | _ => false

/-- Those where it has masked its timer. -/
def masked : GuestPlace → Bool
  | .countJiffy | .setStie => true
  | _ => false

/-- The cycles of one tick of the guest. -/
def period : Nat := 200000

/-- The cycle count before which its next tick cannot be counted. -/
def due (start : Nat) (g : GuestTicks) : Nat := start + period * (g.vsJiffies.toNat + 1)

/--
Neither tick is lost and none is early. Those of the guest are programmed, armed at the host,
injected and counted one after the other.
-/
structure Paced (start : Nat) (g : GuestTicks) : Prop where
  host : g.host.Paced start
  alive : g.host.Alive
  early : TickChain.Early g.timers
  delta : g.timers.vcpuTimeDelta = 0
  elapsed : start + period * g.vsJiffies.toNat ≤ g.timers.timerVal.toNat
  armed : g.timers.vcpuTimerInit ≠ 0 → settled g.place = false ∧ g.timers.vstip = false ∧
    g.due start ≤ g.timers.vcpuNextCycle.toNat
  pending : g.timers.vstip = true → settled g.place = false →
    g.due start ≤ g.timers.timerVal.toNat
  computed : ∀ stimeValue, g.place = .sbiSetTimer stimeValue ∨ g.place = .called stimeValue →
    g.due start ≤ stimeValue.toNat
  waits : g.place = .outside → g.timers.vcpuTimerInit ≠ 0 ∨ g.timers.vstip = true
  taken : g.place = .clearStie ∨ g.place = .countJiffy → g.timers.vstip = true
  enabled : masked g.place = false → g.stie = true
  called : ∀ stimeValue, g.place = .called stimeValue → ∃ regs,
    g.host.place = .vsSbiEcallHandle regs ∧ regs.a0 = stimeValue ∧
      regs.a7.setWidth 32 = sbiSetTimerId
  other : ∀ regs, g.host.place = .vsSbiEcallHandle regs →
    (∃ stimeValue, g.place = .called stimeValue) ∨ g.place = .outside ∧ regs.a7.setWidth 32 ≠ sbiSetTimerId

/-- The check of an event of the host injects what is due, and disarms. -/
theorem Paced.check {start : Nat} {g : GuestTicks} {host : TickChain} (paced : g.Paced start)
    (hostPaced : host.Paced start) (alive : host.Alive) (unseen : TickChain.Unseen g.host host)
    (checked : host.timers = g.timers.riscvVcpuCheckTimerExpired)
    (expired : g.timers.Expired) : Paced start { g with host } := by
  obtain ⟨free, clear, due⟩ := paced.armed expired.1
  have injected : host.timers.vstip = true := checked ▸ Timers.vstip_check expired
  rw [Timers.riscvVcpuCheckTimerExpired_eq, if_pos expired] at checked
  have clock : host.timers.timerVal = g.timers.timerVal := by rw [checked]; rfl
  have disarmed : host.timers.vcpuTimerInit = 0 := by rw [checked]
  -- The clock of the guest is that of the host.
  have cycles : g.timers.riscvVcpuCurrentCycles = g.timers.timerVal := by
    rw [Timers.riscvVcpuCurrentCycles, paced.delta]
    exact BitVec.add_zero _
  have reached : g.timers.vcpuNextCycle.toNat ≤ g.timers.timerVal.toNat := by
    rw [← cycles]
    exact BitVec.le_def.mp expired.2
  have waited : g.due start ≤ host.timers.timerVal.toNat := by
    rw [clock]
    exact due.trans reached
  refine ⟨hostPaced, alive, unseen.early, ?_, ?_, fun set => absurd disarmed set, fun _ _ => waited,
    paced.computed, fun _ => .inr injected, fun _ => injected, paced.enabled,
    fun stimeValue place => ?_, fun regs place => paced.other regs ((unseen.calls regs).mp place)⟩
  · show host.timers.vcpuTimeDelta = 0
    rw [checked]
    exact paced.delta
  · show _ ≤ host.timers.timerVal.toNat
    rw [clock]
    exact paced.elapsed
  · obtain ⟨regs, at_, same⟩ := paced.called stimeValue place
    exact ⟨regs, (unseen.calls regs).mpr at_, same⟩

/-- An event of the host that does not touch the guest's side keeps the pace. -/
theorem Paced.unseen {start : Nat} {g : GuestTicks} {host : TickChain} (paced : g.Paced start)
    (hostPaced : host.Paced start) (alive : host.Alive) (unseen : TickChain.Unseen g.host host)
    (same : Timers.SameGuest host.timers g.timers) : Paced start { g with host } := by
  obtain ⟨hvip, delta, next, init⟩ := same
  have vstip : host.timers.vstip = g.timers.vstip := congrArg (BitVec.getLsbD · irqVsTimer) hvip
  have later : g.timers.timerVal.toNat ≤ host.timers.timerVal.toNat := BitVec.le_def.mp unseen.later
  -- Every clause speaks of what is kept, or of a clock that only goes on.
  refine ⟨hostPaced, alive, unseen.early, delta.trans paced.delta,
    paced.elapsed.trans later, ?_, ?_,
    paced.computed, ?_, ?_, paced.enabled, fun stimeValue place => ?_,
    fun regs place => paced.other regs ((unseen.calls regs).mp place)⟩
  · show host.timers.vcpuTimerInit ≠ 0 → settled g.place = false ∧ host.timers.vstip = false ∧
      g.due start ≤ host.timers.vcpuNextCycle.toNat
    rw [init, vstip, next]
    exact paced.armed
  · show host.timers.vstip = true → settled g.place = false →
      g.due start ≤ host.timers.timerVal.toNat
    rw [vstip]
    exact fun pending free => (paced.pending pending free).trans later
  · show g.place = .outside → host.timers.vcpuTimerInit ≠ 0 ∨ host.timers.vstip = true
    rw [init, vstip]
    exact paced.waits
  · show g.place = .clearStie ∨ g.place = .countJiffy → host.timers.vstip = true
    rw [vstip]
    exact paced.taken
  · obtain ⟨regs, at_, same⟩ := paced.called stimeValue place
    exact ⟨regs, (unseen.calls regs).mpr at_, same⟩

/-- Every statement of the guest keeps the pace. -/
theorem Paced.vsStep {start : Nat} {ecallPc vsEcallPc : U64} {g next : GuestTicks}
    (paced : g.Paced start) (outside : g.host.place = .outside)
    (taken : g.vsStep ecallPc vsEcallPc = some next) : next.Paced start := by
  have idle (regs : VsEcallRegs) : g.host.place ≠ .vsSbiEcallHandle regs := by
    rw [outside]
    rintro ⟨⟩
  cases place : g.place with
  | clearStie =>
    simp only [GuestTicks.vsStep, place] at taken
    cases taken
    have pending := paced.taken (.inl place)
    have free : settled g.place = false := by rw [place]; rfl
    exact ⟨paced.host, paced.alive, paced.early, paced.delta, paced.elapsed,
      fun set => ⟨rfl, (paced.armed set).2⟩, fun _ _ => paced.pending pending free,
      by rintro _ (⟨⟨⟩⟩ | ⟨⟨⟩⟩), by rintro ⟨⟩, fun _ => pending, by rintro ⟨⟩, by rintro _ ⟨⟩,
      fun regs busy => absurd busy (idle regs)⟩
  | countJiffy =>
    simp only [GuestTicks.vsStep, place] at taken
    cases taken
    have pending := paced.taken (.inr place)
    have waited := paced.pending pending (by rw [place]; rfl)
    -- The tick was due, so it may be counted; the number is far too small to wrap around.
    have counts : (g.vsJiffies + 1).toNat = g.vsJiffies.toNat + 1 := by
      have := g.timers.timerVal.isLt
      rw [GuestTicks.due, period] at waited
      rw [BitVec.toNat_add]
      exact Nat.mod_eq_of_lt (by show g.vsJiffies.toNat + 1 < 2 ^ 64; omega)
    refine ⟨paced.host, paced.alive, paced.early, paced.delta, ?_, fun set => ?_, by rintro _ ⟨⟩,
      by rintro _ (⟨⟨⟩⟩ | ⟨⟨⟩⟩), by rintro ⟨⟩, by rintro (⟨⟨⟩⟩ | ⟨⟨⟩⟩), by rintro ⟨⟩,
      by rintro _ ⟨⟩, fun regs busy => absurd busy (idle regs)⟩
    · show start + period * (g.vsJiffies + 1).toNat ≤ g.timers.timerVal.toNat
      rw [counts]
      exact waited
    · -- What has been injected is not armed any more.
      exact absurd (pending.symm.trans (paced.armed set).2.1) (by rintro ⟨⟩)
  | setStie =>
    simp only [GuestTicks.vsStep, place] at taken
    cases taken
    refine ⟨paced.host, paced.alive, paced.early, paced.delta, paced.elapsed, fun set => ?_,
      by rintro _ ⟨⟩, by rintro _ (⟨⟨⟩⟩ | ⟨⟨⟩⟩), by rintro ⟨⟩, by rintro (⟨⟨⟩⟩ | ⟨⟨⟩⟩),
      fun _ => Timers.stie_set g.sie, by rintro _ ⟨⟩,
      fun regs busy => absurd busy (idle regs)⟩
    have unsettled := (paced.armed set).1
    rw [place] at unsettled
    cases unsettled
  | getCycles =>
    simp only [GuestTicks.vsStep, place] at taken
    cases taken
    have cycles : vsGetCycles g.timers = g.timers.timerVal := by
      rw [vsGetCycles, paced.delta]
      exact BitVec.add_zero _
    refine ⟨paced.host, paced.alive, paced.early, paced.delta, paced.elapsed, fun set => ?_,
      by rintro _ ⟨⟩, fun stimeValue computed => ?_, by rintro ⟨⟩, by rintro (⟨⟨⟩⟩ | ⟨⟨⟩⟩),
      fun _ => paced.enabled (by rw [place]; rfl), by rintro _ ⟨⟩,
      fun regs busy => absurd busy (idle regs)⟩
    · have unsettled := (paced.armed set).1
      rw [place] at unsettled
      cases unsettled
    · -- The deadline is a period from now, and the count is for a tick that was due.
      rcases computed with computed | computed
      · have computed := GuestPlace.sbiSetTimer.inj computed
        have elapsed := paced.elapsed
        have value : stimeValue.toNat = g.timers.timerVal.toNat + period := by
          have early := paced.early
          rw [TickChain.Early] at early
          rw [← computed, cycles, BitVec.toNat_add]
          exact Nat.mod_eq_of_lt (by show g.timers.timerVal.toNat + 200000 < 2 ^ 64; omega)
        show start + period * (g.vsJiffies.toNat + 1) ≤ stimeValue.toNat
        rw [value, Nat.mul_add, Nat.mul_one]
        omega
      · cases computed
  | sbiSetTimer stimeValue =>
    simp only [GuestTicks.vsStep, place, TickChain.step, outside, if_true, Option.map_some] at taken
    cases taken
    have called : g.host.step ecallPc
        (.guestCall ⟨vsEcallPc, stimeValue, sbiSetTimerId.setWidth 64⟩) = some _ := if_pos outside
    refine ⟨paced.host.step paced.alive paced.early called, paced.alive.step called, paced.early,
      paced.delta, paced.elapsed, fun set => ?_, by rintro _ ⟨⟩, fun other computed => ?_,
      by rintro ⟨⟩, by rintro (⟨⟨⟩⟩ | ⟨⟨⟩⟩), fun _ => paced.enabled (by rw [place]; rfl),
      fun other at_call => ⟨_, rfl, GuestPlace.called.inj at_call, rfl⟩,
      fun _ _ => .inl ⟨stimeValue, rfl⟩⟩
    · have unsettled := (paced.armed set).1
      rw [place] at unsettled
      cases unsettled
    · rcases computed with computed | computed
      · cases computed
      · cases computed
        exact paced.computed stimeValue (.inl place)
  | outside | called stimeValue =>
    simp only [GuestTicks.vsStep, place] at taken
    cases taken

/-- The answer to a call keeps the pace: it arms the timer, or was about something else. -/
theorem Paced.served {start : Nat} {ecallPc : U64} {g : GuestTicks} {host : TickChain}
    (paced : g.Paced start) (taken : g.host.step ecallPc .guestServed = some host) :
    Paced start { g with host, place := .outside } := by
  have hostPaced := paced.host.step paced.alive paced.early taken
  have alive := paced.alive.step taken
  cases busy : g.host.place with
  | vsSbiEcallHandle regs =>
    simp only [TickChain.step, busy] at taken
    cases taken
    rcases paced.other regs busy with ⟨stimeValue, place⟩ | ⟨place, different⟩
    · -- The call is the one that sets the timer, and its deadline is as computed.
      obtain ⟨regs', busy', value, number⟩ := paced.called stimeValue place
      rw [busy] at busy'
      cases busy'
      have due := paced.computed stimeValue (.inr place)
      have armed : (vsSbiEcallHandle (regs.a7.setWidth 32) regs g.host.timers).2 =
          g.timers.riscvVcpuTimerEventStart stimeValue := by
        rw [vsSbiEcallHandle]
        dsimp only
        rw [if_pos number, value]
        rfl
      rw [armed] at hostPaced alive ⊢
      refine ⟨hostPaced, alive, paced.early, paced.delta, paced.elapsed, fun _ => ⟨rfl, ?_, due⟩,
        fun pending _ => ?_, by rintro _ (⟨⟨⟩⟩ | ⟨⟨⟩⟩), fun _ => .inl ?_, by rintro (⟨⟨⟩⟩ | ⟨⟨⟩⟩),
        fun _ => paced.enabled (by rw [place]; rfl), by rintro _ ⟨⟩, by rintro _ ⟨⟩⟩
      · exact Timers.vstip_riscvVcpuTimerEventStart _ _
      · exact absurd ((Timers.vstip_riscvVcpuTimerEventStart _ _).symm.trans pending) (by rintro ⟨⟩)
      · show (1 : BitVec 32) ≠ 0
        decide
    · have kept : (vsSbiEcallHandle (regs.a7.setWidth 32) regs g.host.timers).2 = g.timers := by
        rw [vsSbiEcallHandle]
        dsimp only
        rw [if_neg different]
        rfl
      rw [kept] at hostPaced alive ⊢
      refine ⟨hostPaced, alive, paced.early, paced.delta, paced.elapsed, ?_, ?_,
        by rintro _ (⟨⟨⟩⟩ | ⟨⟨⟩⟩), fun _ => paced.waits place, by rintro (⟨⟨⟩⟩ | ⟨⟨⟩⟩),
        fun _ => paced.enabled (by rw [place]; rfl), by rintro _ ⟨⟩, by rintro _ ⟨⟩⟩
      · intro set
        have := paced.armed set
        rwa [place] at this
      · intro pending _
        exact paced.pending pending (by rw [place]; rfl)
  | _ =>
    simp only [TickChain.step, busy] at taken
    cases taken

/-- Every event keeps the pace. -/
theorem Paced.step {start : Nat} {ecallPc vsEcallPc : U64} {event : TicksEvent}
    {g next : GuestTicks} (paced : g.Paced start) (soon : event.Early)
    (taken : g.step ecallPc vsEcallPc event = some next) : next.Paced start := by
  cases event with
  | host event =>
    by_cases ofHost : event.ofHost = true
    · have stepped : (g.host.step ecallPc event).map (fun host => { g with host }) = some next := by
        cases event with
        | guestCall _ | guestServed => cases ofHost
        | _ => exact taken
      obtain ⟨host, moved, rfl⟩ := Option.map_eq_some_iff.mp stepped
      have unseen := TickChain.step_unseen paced.early soon ofHost moved
      have hostPaced := paced.host.step paced.alive paced.early moved
      have alive := paced.alive.step moved
      -- The check changes the guest's side only if it finds the deadline reached.
      rcases unseen.guest with same | checked
      · exact paced.unseen hostPaced alive unseen same
      · by_cases expired : g.timers.Expired
        · exact paced.check hostPaced alive unseen checked expired
        · have idle : host.timers = g.timers := checked.trans (by
            rw [Timers.riscvVcpuCheckTimerExpired_eq]
            exact if_neg expired)
          exact paced.unseen hostPaced alive unseen (by rw [idle]; exact ⟨rfl, rfl, rfl, rfl⟩)
    · cases event with
      | guestCall _ => cases taken
      | guestServed =>
        obtain ⟨host, served, rfl⟩ := Option.map_eq_some_iff.mp taken
        exact paced.served served
      | _ => exact absurd rfl ofHost
  | vsTimer =>
    simp only [GuestTicks.step, Option.ite_none_right_eq_some] at taken
    obtain ⟨⟨outside, place, enabled, pending⟩, moved⟩ := taken
    cases moved
    have waited := paced.pending pending (by rw [place]; rfl)
    refine ⟨paced.host, paced.alive, paced.early, paced.delta, paced.elapsed,
      fun set => ⟨rfl, (paced.armed set).2⟩, fun _ _ => waited, by rintro _ (⟨⟨⟩⟩ | ⟨⟨⟩⟩),
      by rintro ⟨⟩, fun _ => pending, fun _ => enabled, by rintro _ ⟨⟩, fun regs busy => ?_⟩
    exact absurd (outside.symm.trans busy) (by rintro ⟨⟩)
  | vsStep =>
    simp only [GuestTicks.step, Option.ite_none_right_eq_some] at taken
    exact paced.vsStep taken.1 taken.2
  | otherCall regs =>
    simp only [GuestTicks.step, Option.ite_none_right_eq_some] at taken
    obtain ⟨⟨place, different⟩, moved⟩ := taken
    obtain ⟨host, called, rfl⟩ := Option.map_eq_some_iff.mp moved
    have hostPaced := paced.host.step paced.alive paced.early called
    have alive := paced.alive.step called
    simp only [TickChain.step, Option.ite_none_right_eq_some] at called
    obtain ⟨-, moved⟩ := called
    cases moved
    refine ⟨hostPaced, alive, paced.early, paced.delta, paced.elapsed, paced.armed, paced.pending,
      paced.computed, paced.waits, paced.taken, paced.enabled, fun stimeValue called => ?_,
      fun regs' busy => .inr ⟨place, ?_⟩⟩
    · exact absurd (place.symm.trans called) (by rintro ⟨⟩)
    · cases busy
      exact different

end GuestTicks

/-! ### Both ticks come -/

namespace TickChain

/-- One tick of the host, from the time it is due on to the end of its handler. -/
def tick (now : U64) (regs : SbiTrapRegs) (pending : Bool) : List TickEvent :=
  (if pending then [.clock now] else [.clock now, .mTimer regs]) ++
    .hsTimer :: List.replicate 7 .hsStep

/-- All events of a tick are the host's. -/
theorem tick_ofHost {now : U64} {regs : SbiTrapRegs} {pending : Bool} {event : TickEvent}
    (member : event ∈ tick now regs pending) : event.ofHost = true := by
  rw [tick, List.mem_append, List.mem_cons, List.mem_replicate] at member
  rcases member with first | rfl | ⟨-, rfl⟩
  · cases pending <;> simp at first
    · rcases first with rfl | rfl <;> rfl
    · rw [first]
      rfl
  · rfl
  · rfl

/-- The handler runs to its end, and has looked at the timer of the guest. -/
theorem run_handler (ecallPc : U64) (c : TickChain) (place : c.place = .clearStie) :
    ∃ c', Transition.run (step ecallPc) (List.replicate 7 .hsStep) c = some c' ∧
      c'.place = .outside ∧ Timers.SameGuest c'.timers c.timers.riscvVcpuCheckTimerExpired := by
  obtain ⟨board, kernel, _⟩ := c
  cases place
  refine ⟨_, rfl, rfl, ?_⟩
  -- The check comes second, when only the host's mask has changed.
  have masked : Timers.SameGuest
      { board.timers with sie := board.timers.sie &&& ~~~sieStie }.riscvVcpuCheckTimerExpired
      board.timers.riscvVcpuCheckTimerExpired := .check ⟨rfl, rfl, rfl, rfl⟩ rfl
  exact ⟨masked.hvip, masked.vcpuTimeDelta, masked.vcpuNextCycle, masked.vcpuTimerInit⟩

/-- A tick that is due is taken, and its handler looks at the timer of the guest. -/
theorem Alive.run_tick {ecallPc : U64} {c : TickChain} (alive : c.Alive)
    (outside : c.place = .outside) (regs : SbiTrapRegs) {now : U64} (later : c.timers.timerVal ≤ now)
    (reached : c.timers.timerCmp ≤ now) :
    ∃ c', Transition.run (TickChain.step ecallPc) (tick now regs c.timers.stip) c = some c' ∧
      c'.place = .outside ∧ Timers.SameGuest c'.timers
        { c.timers with timerVal := now }.riscvVcpuCheckTimerExpired := by
  have enabled := alive.enabled (by rw [outside]; rfl)
  -- What happens up to the interrupt leaves it pending, and the guest's side as it was.
  have ready : ∃ c', Transition.run (TickChain.step ecallPc)
      (if c.timers.stip then [.clock now] else [.clock now, .mTimer regs]) c = some c' ∧
      c'.place = .outside ∧ c'.timers.stie = true ∧ c'.timers.stip = true ∧
      c'.timers.timerVal = now ∧ Timers.SameGuest c'.timers c.timers := by
    have moved : c.step ecallPc (.clock now) =
        some (c.setTimers { c.timers with timerVal := now } c.place) := if_pos later
    cases pending : c.timers.stip with
    | true =>
      rw [if_pos rfl, Transition.run_cons, moved, Option.bind_some]
      exact ⟨_, rfl, outside, enabled, pending, rfl, ⟨rfl, rfl, rfl, rfl⟩⟩
    | false =>
      -- Nothing is pending, so it is the machine timer that is armed.
      have armed : c.timers.mtie = true := by
        have one := alive.one
        rw [pending] at one
        exact Bool.eq_true_of_not_eq_false one
      rw [if_neg (by decide), Transition.run_cons, moved, Option.bind_some, Transition.run_cons,
        step_mTimer, if_pos ⟨armed, reached⟩, Option.bind_some]
      exact ⟨_, rfl, outside, enabled, Timers.stip_sbiTimerProcess _, rfl, ⟨rfl, rfl, rfl, rfl⟩⟩
  obtain ⟨ready, ran, place, unmasked, pending, clock, same⟩ := ready
  have taken : ready.step ecallPc .hsTimer = some { ready with place := .clearStie } :=
    if_pos ⟨place, unmasked, pending⟩
  obtain ⟨c', handled, back, checked⟩ :=
    run_handler ecallPc { ready with place := .clearStie } rfl
  refine ⟨c', ?_, back, ?_⟩
  · rw [tick, Transition.run_append, ran, Option.bind_some, Transition.run_cons, taken,
      Option.bind_some, handled]
  · have moved : Timers.SameGuest ready.timers.riscvVcpuCheckTimerExpired
        { c.timers with timerVal := now }.riscvVcpuCheckTimerExpired :=
      .check ⟨same.hvip, same.vcpuTimeDelta, same.vcpuNextCycle, same.vcpuTimerInit⟩ clock
    exact ⟨checked.hvip.trans moved.hvip, checked.vcpuTimeDelta.trans moved.vcpuTimeDelta,
      checked.vcpuNextCycle.trans moved.vcpuNextCycle,
      checked.vcpuTimerInit.trans moved.vcpuTimerInit⟩

end TickChain

namespace GuestTicks

/-- Events of the host leave the guest where it is. -/
theorem run_host {ecallPc vsEcallPc : U64} {events : List TickEvent}
    (host : ∀ event ∈ events, event.ofHost = true) {g : GuestTicks} {c : TickChain}
    (ran : Transition.run (TickChain.step ecallPc) events g.host = some c) :
    Transition.run (step ecallPc vsEcallPc) (events.map .host) g = some { g with host := c } := by
  induction events generalizing g with
  | nil =>
    cases ran
    rfl
  | cons event rest ih =>
    rw [Transition.run_cons, Option.bind_eq_some_iff] at ran
    obtain ⟨next, taken, ran⟩ := ran
    have first : g.step ecallPc vsEcallPc (.host event) = some { g with host := next } := by
      have ofHost := host event List.mem_cons_self
      cases event with
      | guestCall _ | guestServed => cases ofHost
      | _ => exact congrArg (Option.map _) taken
    rw [List.map_cons, Transition.run_cons, first, Option.bind_some]
    exact ih (fun event member => host event (List.mem_cons_of_mem _ member)) ran

/-- The guest's tick is pending, or comes with the next tick of the host behind its deadline. -/
theorem Paced.ticks {start : Nat} {ecallPc vsEcallPc : U64} {g : GuestTicks} (paced : g.Paced start)
    (outside : g.host.place = .outside) (place : g.place = .outside) :
    (g.step ecallPc vsEcallPc .vsTimer).isSome = true ∨ ∀ regs now, g.timers.timerVal ≤ now →
      g.timers.timerCmp ≤ now → g.timers.vcpuNextCycle ≤ now →
      (Transition.run (GuestTicks.step ecallPc vsEcallPc)
        ((TickChain.tick now regs g.timers.stip).map .host ++ [.vsTimer]) g).isSome = true := by
  have enabled := paced.enabled (by rw [place]; rfl)
  rcases paced.waits place with armed | pending
  · right
    intro regs now later reached due
    obtain ⟨c', ran, back, checked⟩ :=
      @TickChain.Alive.run_tick ecallPc _ paced.alive outside regs now later reached
    -- The check finds the deadline reached, as the guest's clock is the host's.
    have expired : { g.timers with timerVal := now }.Expired := by
      refine ⟨armed, ?_⟩
      show g.timers.vcpuNextCycle ≤ now + g.timers.vcpuTimeDelta
      have plain : now + 0 = now := BitVec.add_zero now
      rw [paced.delta, plain]
      exact due
    have injected : c'.timers.vstip = true :=
      (congrArg (BitVec.getLsbD · irqVsTimer) checked.hvip).trans (Timers.vstip_check expired)
    have delivered : Transition.run (GuestTicks.step ecallPc vsEcallPc)
        ((TickChain.tick now regs g.timers.stip).map .host) g = some { g with host := c' } :=
      run_host (fun _ member => TickChain.tick_ofHost member) ran
    rw [Transition.run_append, delivered, Option.bind_some, Transition.run_cons]
    have taken : ({ g with host := c' } : GuestTicks).step ecallPc vsEcallPc .vsTimer =
        some { g with host := c', place := .clearStie } := if_pos ⟨back, place, enabled, injected⟩
    rw [taken]
    rfl
  · left
    rw [GuestTicks.step, if_pos ⟨outside, place, enabled, pending⟩]
    rfl

end GuestTicks

end Benos
