import Benos.Sched.Task

/-! The tick and the choice of the next task, of `sched.c` and `sched_simple.c`. -/

namespace Benos.Kernel

/-- `tick_handle_periodic`, which is `task_tick_simple` for the current task. -/
def tickHandlePeriodic (k : Kernel) : Kernel :=
  let counter := k.counter k.current - 1
  if counter.sle 0 then
    { k with
      counter := Function.update k.counter k.current 0
      needResched := Function.update k.needResched k.current 1 }
  else { k with counter := Function.update k.counter k.current counter }

/-- The tick changes neither the running task nor a count. -/
theorem tickHandlePeriodic_counts (k : Kernel) :
    k.tickHandlePeriodic.preemptCount = k.preemptCount ∧
      k.tickHandlePeriodic.current = k.current := by
  rw [tickHandlePeriodic]
  split <;> exact ⟨rfl, rfl⟩

/-- The loop of `reset_score` over the tasks from `p` on. -/
def resetScoreFrom (image : Image) : Nat → U64 → Kernel → Option Kernel
  | 0, _, _ => none
  | fuel + 1, p, k =>
    let p := k.nextTask p
    if p = image.initTask then some k
    else resetScoreFrom image fuel p
      { k with counter := Function.update k.counter p (defCounter + k.priority p) }

/-- `reset_score`. -/
def resetScore (image : Image) (fuel : Nat) (k : Kernel) : Option Kernel :=
  resetScoreFrom image fuel image.initTask k

/-- The loop of `pick_next_task_simple` from `tmp` on, with the best weight and its task so far. -/
def pickFrom (k : Kernel) : Nat → ListNode → BitVec 32 → Option U64 →
    Option (BitVec 32 × Option U64)
  | 0, _, _, _ => none
  | fuel + 1, tmp, c, next =>
    match tmp with
    | .rqHead => some (c, next)
    | .runList p =>
      if c.slt (k.counter p) then pickFrom k fuel (k.next tmp) (k.counter p) (some p)
      else pickFrom k fuel (k.next tmp) c next
    -- Any other pointer is not a list node.
    | _ => none

/-- `pick_next_task`, which is `pick_next_task_simple`; an unset `next` is not a task. -/
def pickNextTask (image : Image) (loops : Nat) : Nat → Kernel → Option (U64 × Kernel)
  | 0, _ => none
  | fuel + 1, k =>
    match k.pickFrom loops (k.next .rqHead) (-1000) none with
    | none => none
    | some (c, next) =>
      if c = 0 then
        match k.resetScore image loops with
        | none => none
        | some k => pickNextTask image loops fuel k
      else next.map fun next => (next, k)

/-- `__schedule` up to and including the switch. -/
def scheduleSwitch (image : Image) (fuel : Nat) (k : Kernel) : Option Kernel :=
  let prev := k.current
  let k := if k.state prev ≠ 0 then k.dequeueTask prev else k
  match k.pickNextTask image fuel fuel with
  | none => none
  | some (next, k) =>
    let k := { k with needResched := Function.update k.needResched prev 0 }
    some (if next ≠ prev then { k with current := next } else k)

/-- What a task does in `__schedule` once it is switched back to. -/
def scheduleFinish (k : Kernel) : Kernel :=
  { k with nrSwitches := k.nrSwitches + 1, rqCurr := k.current }

end Benos.Kernel
