import Mathlib.Data.List.Pairwise
import Benos.Sched.ProcessTable

/-! Which task `pick_next_task` takes, over every history of the run queue. -/

namespace Benos

/-! ### The order of the queue -/

namespace Roster

/-- The tasks an operation puts into the run queue. -/
def enqueued (image : Image) (op : SchedOp) (roster : Roster) : List U64 :=
  match op with
  | .fork cloneFlags fn arg =>
    match roster.kernel.doFork image cloneFlags fn arg with
    | (some pid, kernel) => [kernel.gTask pid]
    | (none, _) => []
  | .wake t => [t]
  | _ => []

/-- One operation, next to the log of all tasks that were ever put into the queue, oldest first. -/
def loggedStep (image : Image) (fuel : Nat) : SchedOp → Roster × List U64 →
    Option (Roster × List U64) :=
  Transition.watched (Roster.step image fuel) fun op roster _ log =>
    log ++ enqueued image op roster

end Roster

/-- The log has an entry of the newer task with no entry of the older one behind it. -/
def EnqueuedAfter (log : List U64) (newer older : U64) : Prop :=
  ∃ before after, log = before ++ newer :: after ∧ older ∉ after

/-- A task that is put into the queue is newer than any other task. -/
theorem EnqueuedAfter.last (log : List U64) (newer older : U64) :
    EnqueuedAfter (log ++ [newer]) newer older :=
  ⟨log, [], rfl, List.not_mem_nil⟩

/-- The order of two tasks stays until one of them is put into the queue again. -/
theorem EnqueuedAfter.append {log : List U64} {newer older p : U64}
    (later : EnqueuedAfter log newer older) (other : older ≠ p) :
    EnqueuedAfter (log ++ [p]) newer older := by
  obtain ⟨before, after, rfl, absent⟩ := later
  refine ⟨before, after ++ [p], by simp, ?_⟩
  -- The new entry is not one of the older task.
  rw [List.mem_append, List.mem_singleton]
  rintro (known | same)
  · exact absent known
  · exact other same

/-- No other task is newer than the one that was put into the queue last. -/
theorem not_enqueuedAfter_last {log : List U64} {newer older : U64} (other : newer ≠ older) :
    ¬ EnqueuedAfter (log ++ [older]) newer older := by
  rintro ⟨before, after, split, absent⟩
  rcases List.eq_nil_or_concat after with rfl | ⟨rest, last, rfl⟩
  · -- The newer task would be the last entry itself.
    exact other (List.cons.inj (List.append_inj_right' split.symm rfl)).1
  · have ends := congrArg List.getLast? split
    rw [List.concat_eq_append, ← List.cons_append, ← List.append_assoc, List.getLast?_concat,
      List.getLast?_concat] at ends
    rw [Option.some.inj ends] at absent
    exact absent (by simp)

/-- The table is in order, and the queue has the task first that was put into it last. -/
structure NewestFirst (image : Image) (state : Roster × List U64) : Prop where
  consistent : Consistent image state.1
  sorted : state.1.queued.Pairwise (EnqueuedAfter state.2)

namespace NewestFirst

variable {image : Image} {state next : Roster × List U64}

/-- A new task at the front of the queue is the newest one. -/
theorem enqueue {queued log : List U64} {p : U64} (sorted : queued.Pairwise (EnqueuedAfter log))
    (fresh : p ∉ queued) : (p :: queued).Pairwise (EnqueuedAfter (log ++ [p])) := by
  refine List.pairwise_cons.mpr ⟨fun q _ => .last log p q, ?_⟩
  -- No task of the queue is the new one, so their order stays.
  refine List.Pairwise.imp_of_mem (fun {newer older} _ known later => ?_) sorted
  exact later.append fun same => fresh (same ▸ known)

/-- Every operation keeps the order of the queue. -/
theorem step (newest : NewestFirst image state) {fuel : Nat} (fueled : nrTask < fuel)
    {op : SchedOp} (took : Roster.loggedStep image fuel op state = some next) :
    NewestFirst image next := by
  obtain ⟨roster, log⟩ := state
  obtain ⟨roster', log'⟩ := next
  obtain ⟨stepped, rfl⟩ : Roster.step image fuel op roster = some roster' ∧
      log' = log ++ Roster.enqueued image op roster := Transition.watched_some took
  have consistent := newest.consistent
  have sorted : roster.queued.Pairwise (EnqueuedAfter log) := newest.sorted
  refine ⟨consistent.step fueled stepped, ?_⟩
  -- Operations that put nothing into the queue leave a part of it.
  have shrinks {queued : List U64} (part : queued.Sublist roster.queued) :
      queued.Pairwise (EnqueuedAfter (log ++ [])) := by
    rw [List.append_nil]
    exact sorted.sublist part
  cases op with
  | run t =>
    obtain ⟨-, rfl⟩ := Roster.step_run stepped
    exact shrinks (List.Sublist.refl _)
  | fork cloneFlags fn arg =>
    rcases consistent.fork_cases cloneFlags fn arg with
      ⟨kernel, result, _⟩ | ⟨pid, kernel, result, _, _, fresh, _⟩
    · simp only [Roster.step, result, Option.some.injEq] at stepped
      subst stepped
      simp only [Roster.enqueued, result]
      exact shrinks (List.Sublist.refl _)
    · simp only [Roster.step, result, Option.some.injEq] at stepped
      subst stepped
      simp only [Roster.enqueued, result]
      -- The new task was no task before, so it was not queued.
      exact enqueue sorted fun queued =>
        fresh (List.mem_cons_of_mem _ (consistent.known _ queued))
  | tick =>
    cases stepped
    exact shrinks (List.Sublist.refl _)
  | schedule =>
    obtain ⟨-, kernel, -, rfl⟩ := Roster.step_schedule stepped
    refine shrinks ?_
    dsimp only
    -- Only a task that has gone to sleep leaves the queue.
    split
    · exact List.erase_sublist
    · exact List.Sublist.refl _
  | finish =>
    cases stepped
    exact shrinks (List.Sublist.refl _)
  | dequeue t =>
    obtain ⟨-, rfl⟩ := Roster.step_dequeue stepped
    exact shrinks List.erase_sublist
  | wake t =>
    obtain ⟨⟨-, idle⟩, rfl⟩ := Roster.step_wake stepped
    exact enqueue sorted idle

/-- In the queue, a task before another one was put into it after that one. -/
theorem later_of_idxOf (newest : NewestFirst image state) {p q : U64} (known : p ∈ state.1.queued)
    (other : q ∈ state.1.queued) (before : state.1.queued.idxOf p < state.1.queued.idxOf q) :
    EnqueuedAfter state.2 p q := by
  have ordered := List.pairwise_iff_getElem.mp newest.sorted (state.1.queued.idxOf p)
    (state.1.queued.idxOf q) (List.idxOf_lt_length_of_mem known)
    (List.idxOf_lt_length_of_mem other) before
  -- The place of a task in the queue holds that task.
  rwa [List.getElem_idxOf, List.getElem_idxOf] at ordered

end NewestFirst

/-! ### The choice -/

/-- A queued task with the greatest counter, put into the queue after the others that have it. -/
structure Chosen (counter : U64 → BitVec 32) (state : Roster × List U64) (next : U64) : Prop where
  queued : next ∈ state.1.queued
  greatest : ∀ p ∈ state.1.queued, (counter p).toInt ≤ (counter next).toInt
  newest : ∀ p ∈ state.1.queued, p ≠ next → counter p = counter next → EnqueuedAfter state.2 next p

/-- The first task with the greatest counter is the newest one of those that have it. -/
theorem NewestFirst.chosen {image : Image} {state : Roster × List U64}
    (newest : NewestFirst image state) {counter : U64 → BitVec 32} {next : U64}
    (best : next ∈ state.1.queued.argmax fun p => (counter p).toInt) :
    Chosen counter state next := by
  obtain ⟨member, greatest, first⟩ := List.mem_argmax_iff.mp best
  refine ⟨member, greatest, fun p queued other same => ?_⟩
  have before : state.1.queued.idxOf next ≤ state.1.queued.idxOf p := first p queued (by rw [same])
  -- Different tasks are at different places.
  refine newest.later_of_idxOf member queued (Nat.lt_of_le_of_ne before fun equal => other ?_)
  exact ((List.idxOf_inj member).mp equal).symm

/--
In every state of every history whose run queue is not empty: the queued tasks are on the list of
tasks, with counters that are not negative and a positive new slice. If one of them has time left,
`pick_next_task_simple` returns without a reset, and the state stays as it is. If none has, it
returns after exactly one reset, which gives every task but the first its new slice and changes
nothing else. Either way it returns the queued task with the greatest counter that was put into
the queue last.
-/
theorem pickNextTask_choice {image : Image} {k : Kernel} (loaded : Loaded image k) {fuel : Nat}
    (fueled : nrTask < fuel) {ops : List SchedOp} {roster : Roster} {log : List U64}
    (ran : Transition.run (Roster.loggedStep image fuel) ops (Roster.boot k, []) =
      some (roster, log))
    (some_ : roster.kernel.next .rqHead ≠ .rqHead) {loops : Nat} (long : nrTask < loops) :
    (∀ p ∈ roster.queued, p ∈ roster.forked ∧ 0 ≤ (roster.kernel.counter p).toInt ∧
      0 < (defCounter + roster.kernel.priority p).toInt) ∧
    ((∃ p ∈ roster.queued, 0 < (roster.kernel.counter p).toInt) →
      ∃ next, (∀ turns, roster.kernel.pickNextTask image loops (turns + 1) =
          some (next, roster.kernel)) ∧
        Chosen roster.kernel.counter (roster, log) next) ∧
    ((∀ p ∈ roster.queued, roster.kernel.counter p = 0) →
      ∃ counter next, roster.kernel.pickNextTask image loops 1 = none ∧
        (∀ turns, roster.kernel.pickNextTask image loops (turns + 2) =
          some (next, { roster.kernel with counter })) ∧
        (∀ t ∈ roster.forked, counter t = defCounter + roster.kernel.priority t) ∧
        (∀ t ∉ roster.forked, counter t = roster.kernel.counter t) ∧
        counter image.initTask = roster.kernel.counter image.initTask ∧
        Chosen counter (roster, log) next) := by
  have newest : NewestFirst image (roster, log) :=
    Transition.run_invariant (fun _ _ _ held took => held.step fueled took)
      ⟨loaded.consistent, List.Pairwise.nil⟩ ran
  have consistent := newest.consistent
  have queued := consistent.queued_ne_nil some_
  have whole : ∀ p ∈ roster.queued,
      (roster.kernel.counter p).toInt = (roster.kernel.counter p).toNat := fun p member =>
    consistent.counter_toInt (List.mem_cons_of_mem _ (consistent.known p member))
  refine ⟨fun p member => ⟨consistent.known p member, ?_, ?_⟩, fun positive => ?_, fun tired => ?_⟩
  · rw [whole p member]
    exact Int.natCast_nonneg _
  · rw [consistent.priority p (consistent.known p member)]
    decide
  · -- A task with time left excludes the reset.
    obtain ⟨p, member, positive⟩ := positive
    rcases consistent.pickNextTask_cases queued long with ⟨_, next, best, picked⟩ | ⟨tired, _⟩
    · exact ⟨next, picked, newest.chosen best⟩
    · rw [tired p member] at positive
      exact absurd positive (by decide)
  · rcases consistent.pickNextTask_cases queued long with
      ⟨⟨p, member, left⟩, _⟩ | ⟨_, counter, next, inside, outside, _, best, once, picked⟩
    · exact absurd (tired p member) left
    · -- The first task is not one of the forked ones.
      have apart := (List.nodup_cons.mp consistent.pcb.nodup).1
      exact ⟨counter, next, once, picked, inside, outside, outside _ apart, newest.chosen best⟩

/-- Three threads are forked, the last by the first of them, and the second is put back in front. -/
def exampleQueueing : List SchedOp :=
  [.fork pfKthread 0x80200600 0, .fork pfKthread 0x80200600 1, .run 0x80300000,
    .fork pfKthread 0x80200600 2, .dequeue 0x80301000, .wake 0x80301000]

/-- Of the two that have three ticks each, the one that was put back last is taken. -/
theorem pickNextTask_choice_tie :
    ∃ roster log, Transition.run (Roster.loggedStep exampleImage 129) exampleQueueing
        (Roster.boot exampleKernel, []) = some (roster, log) ∧
      roster.queued.map roster.kernel.counter = [3, 3, 2] ∧
      ∀ turns, roster.kernel.pickNextTask exampleImage 129 (turns + 1) =
        some (0x80301000, roster.kernel) := by
  have ran : (Transition.run (Roster.loggedStep exampleImage 129) exampleQueueing
      (Roster.boot exampleKernel, [])).map (fun state =>
        (state.1.queued, state.1.queued.map state.1.kernel.counter, state.2)) =
      some ([0x80301000, 0x80302000, 0x80300000], [3, 3, 2],
        [0x80300000, 0x80301000, 0x80302000] ++ [0x80301000]) := by decide +kernel
  obtain ⟨⟨roster, log⟩, reached, state⟩ := Option.map_eq_some_iff.mp ran
  simp only [Prod.mk.injEq] at state
  obtain ⟨queued, counters, rfl⟩ := state
  have fueled : nrTask < 129 := by decide
  have consistent : Consistent exampleImage roster := Transition.run_invariant
    (fun _ _ _ held took => held.step fueled took) exampleKernel_loaded.consistent
      (Transition.run_of_watched reached)
  have some_ : roster.kernel.next .rqHead ≠ .rqHead :=
    consistent.rqHead_ne (by rw [queued]; exact List.cons_ne_nil _ _)
  obtain ⟨-, picks, -⟩ := pickNextTask_choice exampleKernel_loaded fueled reached some_ fueled
  have slices := counters
  rw [queued] at slices
  simp only [List.map_cons, List.map_nil, List.cons.injEq, and_true] at slices
  obtain ⟨second, third, first⟩ := slices
  obtain ⟨next, picked, chosen⟩ := picks ⟨0x80301000, by rw [queued]; decide, by rw [second]; decide⟩
  refine ⟨roster, _, reached, counters, ?_⟩
  -- The first thread has less time left, and the third was put into the queue before.
  have member := chosen.queued
  have most := chosen.greatest 0x80301000 (by rw [queued]; decide)
  rw [queued] at member
  simp only [List.mem_cons, List.not_mem_nil, or_false] at member
  rcases member with rfl | rfl | rfl
  · exact picked
  · have newer := chosen.newest 0x80301000 (by rw [queued]; decide) (by decide)
      (by rw [second, third])
    exact absurd newer (not_enqueuedAfter_last (by decide))
  · rw [second, first] at most
    exact absurd most (by decide)

end Benos
