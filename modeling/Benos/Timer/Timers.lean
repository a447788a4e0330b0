import Benos.Machine.Memory
import Mathlib.Tactic.Common

/-! The timer code of the two privilege modes: `sbi_timer.c` in M mode, `timer.c` in HS mode. -/

namespace Benos

/-- The registers, device words and variables that the timer code reads or writes. -/
structure Timers where
  mie : U64
  mip : U64
  sie : U64
  hvip : U64
  /-- The word at `VIRT_CLINT_TIMER_VAL`, which counts cycles. -/
  timerVal : U64
  /-- The word at `VIRT_CLINT_TIMER_CMP`. -/
  timerCmp : U64
  jiffies : U64
  vcpuTimeDelta : U64
  vcpuNextCycle : U64
  vcpuTimerInit : BitVec 32

/-- The bit of a supervisor timer interrupt in `mip` and `sie`. -/
def irqSTimer : Nat := 5

/-- The bit of a machine timer interrupt in `mie`. -/
def irqMTimer : Nat := 7

/-- `IRQ_VS_TIMER`. -/
def irqVsTimer : Nat := 6

/-- `MIP_STIP`. -/
def mipStip : U64 := 1 <<< irqSTimer

/-- `MIP_MTIP`, which `sbi_timer.c` also uses for the enable bit of `mie`. -/
def mipMtip : U64 := 1 <<< irqMTimer

/-- `SIE_STIE`. -/
def sieStie : U64 := 0x20

/-- `CLINT_TIMEBASE_FREQ`. -/
def clintTimebaseFreq : U64 := 10000000

/-- `HZ`. -/
def hz : U64 := 100

namespace Timers

/-! ### M mode -/

/-- `sbi_timer_process`. -/
def sbiTimerProcess (t : Timers) : Timers :=
  { t with mie := t.mie &&& ~~~mipMtip, mip := t.mip ||| mipStip }

/-- `clint_timer_event_start`. -/
def clintTimerEventStart (nextEvent : U64) (t : Timers) : Timers :=
  { t with timerCmp := nextEvent, mip := t.mip &&& ~~~mipStip, mie := t.mie ||| mipMtip }

/-! ### HS mode -/

/-- `get_cycles`. -/
def getCycles (t : Timers) : U64 := t.timerVal

/-- `riscv_vcpu_current_cycles`. -/
def riscvVcpuCurrentCycles (t : Timers) : U64 := t.getCycles + t.vcpuTimeDelta

/-- `riscv_vcpu_set_interrupt`. -/
def riscvVcpuSetInterrupt (intr : Nat) (t : Timers) : Timers :=
  { t with hvip := t.hvip ||| (1 : U64) <<< intr }

/-- `riscv_vcpu_clear_interrupt`. -/
def riscvVcpuClearInterrupt (intr : Nat) (t : Timers) : Timers :=
  { t with hvip := t.hvip &&& ~~~((1 : U64) <<< intr) }

/-- `riscv_vcpu_timer_event_start`. -/
def riscvVcpuTimerEventStart (nextCycle : U64) (t : Timers) : Timers :=
  { t.riscvVcpuClearInterrupt irqVsTimer with vcpuNextCycle := nextCycle, vcpuTimerInit := 1 }

/-- `riscv_vcpu_check_timer_expired`. -/
def riscvVcpuCheckTimerExpired (t : Timers) : Timers :=
  if t.vcpuTimerInit = 0 then t
  else
    let val := t.riscvVcpuCurrentCycles
    if val < t.vcpuNextCycle then t
    else { t.riscvVcpuSetInterrupt irqVsTimer with vcpuTimerInit := 0 }

/-- What `hs_delegate_traps` and the cleared `.bss` leave before the first tick. -/
def initial (t : Timers) : Timers :=
  { t with hvip := 0, jiffies := 0, vcpuNextCycle := 0, vcpuTimerInit := 0 }

/-! ### The bits of interest -/

/-- `mie.MTIE`: a machine timer interrupt is let through. -/
def mtie (t : Timers) : Bool := t.mie.getLsbD irqMTimer

/-- `mip.STIP`: a supervisor timer interrupt is pending. -/
def stip (t : Timers) : Bool := t.mip.getLsbD irqSTimer

/-- `sie.STIE`: a supervisor timer interrupt is let through. -/
def stie (t : Timers) : Bool := t.sie.getLsbD irqSTimer

/-- `hvip.VSTIP`: a timer interrupt of the guest is pending. -/
def vstip (t : Timers) : Bool := t.hvip.getLsbD irqVsTimer

/-- Setting a bit by its mask sets it. -/
theorem getLsbD_set (w : U64) {i : Nat} (inside : i < 64) :
    (w ||| (1 : U64) <<< i).getLsbD i = true := by
  simp [inside]

/-- Clearing a bit by its mask clears it. -/
theorem getLsbD_clear (w : U64) {i : Nat} (inside : i < 64) :
    (w &&& ~~~((1 : U64) <<< i)).getLsbD i = false := by
  simp [inside]

@[simp] theorem mtie_sbiTimerProcess (t : Timers) : t.sbiTimerProcess.mtie = false :=
  getLsbD_clear _ (show irqMTimer < 64 by decide)

@[simp] theorem stip_sbiTimerProcess (t : Timers) : t.sbiTimerProcess.stip = true :=
  getLsbD_set _ (show irqSTimer < 64 by decide)

@[simp] theorem mtie_clintTimerEventStart (t : Timers) (nextEvent : U64) :
    (t.clintTimerEventStart nextEvent).mtie = true :=
  getLsbD_set _ (show irqMTimer < 64 by decide)

@[simp] theorem stip_clintTimerEventStart (t : Timers) (nextEvent : U64) :
    (t.clintTimerEventStart nextEvent).stip = false :=
  getLsbD_clear _ (show irqSTimer < 64 by decide)

/-- Setting `SIE_STIE` lets the supervisor timer through, in the host's `sie` and in the guest's. -/
theorem stie_set (sie : U64) : (sie ||| sieStie).getLsbD irqSTimer = true := by
  have spelled : sieStie = (1 : U64) <<< irqSTimer := by decide
  rw [spelled]
  exact getLsbD_set sie (show irqSTimer < 64 by decide)

@[simp] theorem vstip_riscvVcpuTimerEventStart (t : Timers) (nextCycle : U64) :
    (t.riscvVcpuTimerEventStart nextCycle).vstip = false :=
  getLsbD_clear _ (show irqVsTimer < 64 by decide)

/-- The check finds an armed timer whose deadline has come. -/
def Expired (t : Timers) : Prop :=
  t.vcpuTimerInit ≠ 0 ∧ t.vcpuNextCycle ≤ t.riscvVcpuCurrentCycles

instance (t : Timers) : Decidable t.Expired := inferInstanceAs (Decidable (_ ∧ _))

/-- The check injects and disarms exactly when it finds that. -/
theorem riscvVcpuCheckTimerExpired_eq (t : Timers) :
    t.riscvVcpuCheckTimerExpired =
      if t.Expired then { t.riscvVcpuSetInterrupt irqVsTimer with vcpuTimerInit := 0 } else t := by
  rw [riscvVcpuCheckTimerExpired]
  -- Either early return is one half of the condition.
  by_cases armed : t.vcpuTimerInit = 0
  · rw [if_pos armed, if_neg fun expired => expired.1 armed]
  · rw [if_neg armed]
    by_cases early : t.riscvVcpuCurrentCycles < t.vcpuNextCycle
    · rw [if_pos early, if_neg fun expired => BitVec.not_lt.mpr expired.2 early]
    · rw [if_neg early, if_pos ⟨armed, BitVec.not_lt.mp early⟩]

/-- The guest's side of the timers changes nothing on the host's side. -/
structure SameHost (t u : Timers) : Prop where
  mie : t.mie = u.mie
  mip : t.mip = u.mip
  sie : t.sie = u.sie
  timerVal : t.timerVal = u.timerVal
  timerCmp : t.timerCmp = u.timerCmp
  jiffies : t.jiffies = u.jiffies

theorem SameHost.refl (t : Timers) : SameHost t t := ⟨rfl, rfl, rfl, rfl, rfl, rfl⟩

theorem SameHost.symm {t u : Timers} (same : SameHost t u) : SameHost u t :=
  ⟨same.mie.symm, same.mip.symm, same.sie.symm, same.timerVal.symm, same.timerCmp.symm,
    same.jiffies.symm⟩

theorem SameHost.trans {t u v : Timers} (first : SameHost t u) (second : SameHost u v) :
    SameHost t v :=
  ⟨first.mie.trans second.mie, first.mip.trans second.mip, first.sie.trans second.sie,
    first.timerVal.trans second.timerVal, first.timerCmp.trans second.timerCmp,
    first.jiffies.trans second.jiffies⟩

theorem sameHost_check (t : Timers) : SameHost t.riscvVcpuCheckTimerExpired t := by
  rw [riscvVcpuCheckTimerExpired_eq]
  split <;> exact ⟨rfl, rfl, rfl, rfl, rfl, rfl⟩

theorem sameHost_eventStart (t : Timers) (nextCycle : U64) :
    SameHost (t.riscvVcpuTimerEventStart nextCycle) t :=
  ⟨rfl, rfl, rfl, rfl, rfl, rfl⟩

end Timers

end Benos
