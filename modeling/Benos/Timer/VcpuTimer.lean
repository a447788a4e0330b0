import Benos.Lib.Trace
import Benos.Timer.Timers

/-! The virtual timer of the guest: armed by its calls, looked at by the ticks of the host. -/

namespace Benos

/-- What happens to the virtual timer. -/
inductive VcpuEvent where
  /-- The guest sets its timer, which ends in `riscv_vcpu_timer_event_start`. -/
  | setTimer (nextCycle : U64)
  /-- A host tick at a cycle count, which calls `riscv_vcpu_check_timer_expired`. -/
  | hostTick (cycles : U64)

namespace VcpuEvent

/-- A set-timer call opens an epoch, named by its deadline. -/
def deadline : VcpuEvent → Option U64
  | setTimer nextCycle => some nextCycle
  | hostTick _ => none

/-- A host tick that sees the guest's clock, so far ahead of the host's, at a deadline or past it. -/
def Sees (timeDelta deadline : U64) : VcpuEvent → Prop
  | setTimer _ => False
  | hostTick cycles => deadline ≤ cycles + timeDelta

end VcpuEvent

namespace Timers

/-- One event. -/
def vcpuStep (t : Timers) : VcpuEvent → Timers
  | .setTimer nextCycle => t.riscvVcpuTimerEventStart nextCycle
  | .hostTick cycles => { t with timerVal := cycles }.riscvVcpuCheckTimerExpired

/-- The events of a trace in order. -/
def vcpuRun (t : Timers) (trace : List VcpuEvent) : Timers := trace.foldl vcpuStep t

/-- Whether an event calls `riscv_vcpu_set_interrupt`. -/
def injects (t : Timers) : VcpuEvent → Bool
  | .setTimer _ => false
  | .hostTick cycles => decide { t with timerVal := cycles }.Expired

/-- How many of the events of a trace do. -/
def injections (t : Timers) : List VcpuEvent → Nat
  | [] => 0
  | event :: rest => (if t.injects event then 1 else 0) + (t.vcpuStep event).injections rest

@[simp] theorem vcpuRun_nil (t : Timers) : t.vcpuRun [] = t := rfl

@[simp] theorem vcpuRun_snoc (t : Timers) (trace : List VcpuEvent) (event : VcpuEvent) :
    t.vcpuRun (trace ++ [event]) = (t.vcpuRun trace).vcpuStep event := by
  simp only [vcpuRun, List.foldl_append, List.foldl_cons, List.foldl_nil]

/-- A tick by the condition of its check. -/
theorem vcpuStep_hostTick (t : Timers) (cycles : U64) :
    t.vcpuStep (.hostTick cycles) =
      if t.vcpuTimerInit ≠ 0 ∧ t.vcpuNextCycle ≤ cycles + t.vcpuTimeDelta then
        { t with timerVal := cycles, hvip := t.hvip ||| 1 <<< irqVsTimer, vcpuTimerInit := 0 }
      else { t with timerVal := cycles } :=
  riscvVcpuCheckTimerExpired_eq _

/-- No event moves the guest's clock against the host's. -/
@[simp] theorem vcpuTimeDelta_vcpuStep (t : Timers) (event : VcpuEvent) :
    (t.vcpuStep event).vcpuTimeDelta = t.vcpuTimeDelta := by
  cases event with
  | setTimer nextCycle => rfl
  | hostTick cycles =>
    rw [vcpuStep_hostTick]
    split <;> rfl

/-! ### The invariant -/

/-- The epoch that the guest's latest call opened, if it made any. -/
def lastDeadline (trace : List VcpuEvent) : Option U64 := Trace.latest VcpuEvent.deadline trace

/-- Some host tick since the latest set-timer call saw its deadline reached. -/
def DeadlineSeen (timeDelta : U64) (trace : List VcpuEvent) : Prop :=
  Trace.HitSince VcpuEvent.deadline (VcpuEvent.Sees timeDelta) trace

/-- The three pieces of state, as a function of what has happened. -/
structure Follows (t : Timers) (trace : List VcpuEvent) : Prop where
  pending : t.vstip = true ↔ DeadlineSeen t.vcpuTimeDelta trace
  armed : t.vcpuTimerInit ≠ 0 ↔
    (lastDeadline trace).isSome = true ∧ ¬ DeadlineSeen t.vcpuTimeDelta trace
  deadline : ∀ deadline, lastDeadline trace = some deadline → t.vcpuNextCycle = deadline

/-- Nothing has happened to timers that were just set up. -/
theorem initial_follows (t : Timers) : t.initial.Follows [] where
  pending := by
    refine ⟨fun set => ?_, fun seen => absurd seen Trace.not_hitSince_nil⟩
    simp [vstip, initial] at set
  armed := ⟨fun set => absurd rfl set, fun ⟨called, _⟩ => by cases called⟩
  deadline := by
    rintro deadline ⟨⟩

/-- A set-timer call withdraws what was injected and arms the timer anew. -/
theorem Follows.setTimer {t : Timers} {trace : List VcpuEvent} (nextCycle : U64) :
    (t.vcpuStep (.setTimer nextCycle)).Follows (trace ++ [.setTimer nextCycle]) := by
  have opened : VcpuEvent.deadline (.setTimer nextCycle) = some nextCycle := rfl
  -- No tick has come since the call, which is the last event.
  have unseen : ¬ DeadlineSeen t.vcpuTimeDelta (trace ++ [.setTimer nextCycle]) :=
    Trace.not_hitSince_open opened
  have called : lastDeadline (trace ++ [.setTimer nextCycle]) = some nextCycle :=
    Trace.latest_snoc _ _
  refine ⟨?_, ?_, ?_⟩
  · have cleared : (t.vcpuStep (.setTimer nextCycle)).vstip = false :=
      vstip_riscvVcpuTimerEventStart _ _
    rw [cleared]
    exact ⟨fun set => (by cases set), fun seen => absurd seen unseen⟩
  · rw [called]
    have raised : (1 : BitVec 32) ≠ 0 := by decide
    exact ⟨fun _ => ⟨rfl, unseen⟩, fun _ => raised⟩
  · intro deadline latest
    rw [called] at latest
    exact Option.some.inj latest

/-- A host tick injects exactly when the timer is still armed and the deadline has come. -/
theorem Follows.hostTick {t : Timers} {trace : List VcpuEvent} (follows : t.Follows trace)
    (cycles : U64) : (t.vcpuStep (.hostTick cycles)).Follows (trace ++ [.hostTick cycles]) := by
  have latest : lastDeadline (trace ++ [.hostTick cycles]) = lastDeadline trace :=
    Trace.latest_snoc _ _
  -- The tick has seen a deadline if an earlier one has, or if it has itself.
  have seen : DeadlineSeen t.vcpuTimeDelta (trace ++ [.hostTick cycles]) ↔
      DeadlineSeen t.vcpuTimeDelta trace ∨ ∃ deadline, lastDeadline trace = some deadline ∧
        deadline ≤ cycles + t.vcpuTimeDelta :=
    Trace.hitSince_other rfl
  -- What the check compares with is the deadline of the latest call.
  have due (deadline : U64) (called : lastDeadline trace = some deadline) :
      (∃ other, lastDeadline trace = some other ∧ other ≤ cycles + t.vcpuTimeDelta) ↔
        t.vcpuNextCycle ≤ cycles + t.vcpuTimeDelta := by
    rw [follows.deadline deadline called, called]
    simp
  rw [vcpuStep_hostTick]
  split
  case isTrue expired =>
    -- The timer was armed, so no tick had seen its deadline before this one.
    obtain ⟨called, -⟩ := follows.armed.mp expired.1
    obtain ⟨deadline, called⟩ := Option.isSome_iff_exists.mp called
    have now : DeadlineSeen t.vcpuTimeDelta (trace ++ [.hostTick cycles]) :=
      seen.mpr (.inr ((due deadline called).mpr expired.2))
    refine ⟨⟨fun _ => now, fun _ => getLsbD_set _ (show irqVsTimer < 64 by decide)⟩, ?_, ?_⟩
    · exact ⟨fun set => absurd rfl set, fun ⟨_, unseen⟩ => absurd now unseen⟩
    · rw [latest]
      exact follows.deadline
  case isFalse early =>
    -- Either no call is waiting, or its deadline has not come: the tick shows nothing new.
    have same : DeadlineSeen t.vcpuTimeDelta (trace ++ [.hostTick cycles]) ↔
        DeadlineSeen t.vcpuTimeDelta trace := by
      rw [seen]
      refine ⟨?_, .inl⟩
      rintro (before | ⟨deadline, called, reached⟩)
      · exact before
      · by_contra unseen
        have armed : t.vcpuTimerInit ≠ 0 := follows.armed.mpr ⟨by rw [called]; rfl, unseen⟩
        exact early ⟨armed, (due deadline called).mp ⟨deadline, called, reached⟩⟩
    refine ⟨follows.pending.trans same.symm, ?_, ?_⟩
    · rw [latest, same]
      exact follows.armed
    · rw [latest]
      exact follows.deadline

/-- The state follows every trace. -/
theorem vcpuRun_follows (t : Timers) (trace : List VcpuEvent) :
    (t.initial.vcpuRun trace).Follows trace := by
  induction trace using List.reverseRecOn with
  | nil => exact t.initial_follows
  | append_singleton trace event ih =>
    rw [vcpuRun_snoc]
    -- The induction is on the last event, as that is what the state follows.
    cases event with
    | setTimer nextCycle => exact Follows.setTimer nextCycle
    | hostTick cycles => exact ih.hostTick cycles

/-! ### How often a tick injects -/

/-- Ticks alone never arm the timer again. -/
theorem vcpuStep_disarmed {t : Timers} {event : VcpuEvent} (tick : event.deadline = none)
    (disarmed : t.vcpuTimerInit = 0) : (t.vcpuStep event).vcpuTimerInit = 0 := by
  cases event with
  | setTimer nextCycle => cases tick
  | hostTick cycles =>
    rw [vcpuStep_hostTick, if_neg fun expired => expired.1 disarmed]
    exact disarmed

/-- Ticks inject nothing while the timer is not armed. -/
theorem injections_disarmed {t : Timers} {trace : List VcpuEvent}
    (ticks : ∀ event ∈ trace, event.deadline = none) (disarmed : t.vcpuTimerInit = 0) :
    t.injections trace = 0 := by
  induction trace generalizing t with
  | nil => rfl
  | cons event rest ih =>
    have tick := ticks event List.mem_cons_self
    -- A disarmed timer injects nothing at a tick, and stays disarmed.
    have none : t.injects event = false := by
      cases event with
      | setTimer nextCycle => rfl
      | hostTick cycles => exact decide_eq_false fun expired => expired.1 disarmed
    rw [injections, none, ih (fun event member => ticks event (List.mem_cons_of_mem _ member))
      (vcpuStep_disarmed tick disarmed)]
    rfl

/-- Ticks inject once at most, whatever state they start from. -/
theorem injections_ticks {t : Timers} {trace : List VcpuEvent}
    (ticks : ∀ event ∈ trace, event.deadline = none) : t.injections trace ≤ 1 := by
  induction trace generalizing t with
  | nil => exact Nat.zero_le 1
  | cons event rest ih =>
    have later : ∀ event ∈ rest, event.deadline = none := fun event member =>
      ticks event (List.mem_cons_of_mem _ member)
    rw [injections]
    cases injected : t.injects event with
    | false =>
      rw [if_neg (by decide), Nat.zero_add]
      exact ih later
    | true =>
      -- The check that injects also disarms, so the other ticks inject nothing.
      have disarmed : (t.vcpuStep event).vcpuTimerInit = 0 := by
        cases event with
        | setTimer nextCycle => cases injected
        | hostTick cycles =>
          have expired := of_decide_eq_true injected
          show ({ t with timerVal := cycles }.riscvVcpuCheckTimerExpired).vcpuTimerInit = 0
          rw [riscvVcpuCheckTimerExpired_eq, if_pos expired]
      -- One injection, and none of the rest.
      have others := injections_disarmed later disarmed
      rw [if_pos rfl]
      omega

/--
The injected interrupt says exactly what has happened since the guest's latest call.

Each call injects once at most, and nothing is injected before the first one.
-/
theorem vcpuTimer_exact (t : Timers) (trace : List VcpuEvent) :
    ((t.initial.vcpuRun trace).vstip = true ↔ DeadlineSeen t.vcpuTimeDelta trace) ∧
      (∀ before nextCycle after, trace = before ++ .setTimer nextCycle :: after →
        (∀ event ∈ after, event.deadline = none) →
        (t.initial.vcpuRun (before ++ [.setTimer nextCycle])).injections after ≤ 1) ∧
      ((∀ event ∈ trace, event.deadline = none) → t.initial.injections trace = 0) := by
  -- No event moves the offset between the clocks.
  have delta : (t.initial.vcpuRun trace).vcpuTimeDelta = t.vcpuTimeDelta := by
    induction trace using List.reverseRecOn with
    | nil => rfl
    | append_singleton trace event ih => rw [vcpuRun_snoc, vcpuTimeDelta_vcpuStep, ih]
  refine ⟨?_, ?_, ?_⟩
  · rw [(t.vcpuRun_follows trace).pending, delta]
  · rintro before nextCycle after - ticks
    exact injections_ticks ticks
  · intro ticks
    exact injections_disarmed ticks rfl

end Timers

end Benos
