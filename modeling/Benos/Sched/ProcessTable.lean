import Mathlib.Data.Int.ConditionallyCompleteOrder
import Mathlib.Data.List.MinMax
import Mathlib.Order.ConditionallyCompleteLattice.Basic
import Benos.Lib.LinkRing
import Benos.Sched.Schedule
import Benos.Sched.TaskPage

/-! The process table: three linked structures and an array, over the same tasks. -/

namespace Benos

/-- One operation on the process table. -/
inductive SchedOp where
  /-- The CPU runs some task of the table. -/
  | run (t : U64)
  | fork (cloneFlags fn arg : U64)
  | tick
  /-- `__schedule` up to the switch, on a run queue that is not empty. -/
  | schedule
  /-- The rest of `__schedule`, in the task switched to. -/
  | finish
  /-- `dequeue_task` of a queued task. -/
  | dequeue (t : U64)
  /-- `wake_up_process` of a forked task that is not queued. -/
  | wake (t : U64)

/-- The scheduler together with its tasks in fork order and the tasks in queue order. -/
structure Roster where
  kernel : Kernel
  forked : List U64
  queued : List U64

namespace Roster

/-- The tasks a history has, the first one being `init_task`. -/
def tasks (image : Image) (roster : Roster) : List U64 := image.initTask :: roster.forked

/-- Without a fork the tasks are the same. -/
theorem tasks_congr {image : Image} {before after : Roster} (forked : after.forked = before.forked) :
    after.tasks image = before.tasks image := by rw [tasks, forked, tasks]

/-- One operation, undefined where its condition does not hold. -/
def step (image : Image) (fuel : Nat) : SchedOp → Roster → Option Roster
  | .run t, roster =>
    if t ∈ roster.tasks image then
      some { roster with kernel := { roster.kernel with current := t } }
    else none
  | .fork cloneFlags fn arg, roster =>
    match roster.kernel.doFork image cloneFlags fn arg with
    | (some pid, kernel) =>
      some { kernel, forked := roster.forked ++ [kernel.gTask pid]
             queued := kernel.gTask pid :: roster.queued }
    | (none, kernel) => some { roster with kernel }
  | .tick, roster => some { roster with kernel := roster.kernel.tickHandlePeriodic }
  | .schedule, roster =>
    if roster.kernel.next .rqHead = .rqHead then none
    else
      match roster.kernel.scheduleSwitch image fuel with
      | some kernel =>
        some { roster with
               kernel
               queued := if roster.kernel.state roster.kernel.current ≠ 0 then
                   roster.queued.erase roster.kernel.current
                 else roster.queued }
      | none => none
  | .finish, roster => some { roster with kernel := roster.kernel.scheduleFinish }
  | .dequeue t, roster =>
    if t ∈ roster.queued then
      some { roster with kernel := roster.kernel.dequeueTask t, queued := roster.queued.erase t }
    else none
  | .wake t, roster =>
    if t ∈ roster.forked ∧ t ∉ roster.queued then
      some { roster with kernel := roster.kernel.wakeUpProcess t, queued := t :: roster.queued }
    else none

/-! What each operation with a condition does, once it has been taken. -/

section Inversion

variable {image : Image} {fuel : Nat} {roster next : Roster} {t : U64}

theorem step_run (took : step image fuel (.run t) roster = some next) :
    t ∈ roster.tasks image ∧
      next = { roster with kernel := { roster.kernel with current := t } } := by
  rw [step, Option.ite_none_right_eq_some, Option.some.injEq] at took
  exact ⟨took.1, took.2.symm⟩

theorem step_schedule (took : step image fuel .schedule roster = some next) :
    roster.kernel.next .rqHead ≠ .rqHead ∧ ∃ kernel,
      roster.kernel.scheduleSwitch image fuel = some kernel ∧
      next = { roster with
               kernel
               queued := if roster.kernel.state roster.kernel.current ≠ 0 then
                   roster.queued.erase roster.kernel.current
                 else roster.queued } := by
  simp only [step, Option.ite_none_left_eq_some] at took
  obtain ⟨some_, took⟩ := took
  cases switched : roster.kernel.scheduleSwitch image fuel with
  | none =>
    rw [switched] at took
    cases took
  | some kernel =>
    rw [switched] at took
    exact ⟨some_, kernel, rfl, (Option.some.inj took).symm⟩

theorem step_dequeue (took : step image fuel (.dequeue t) roster = some next) :
    t ∈ roster.queued ∧ next = { roster with
      kernel := roster.kernel.dequeueTask t, queued := roster.queued.erase t } := by
  rw [step, Option.ite_none_right_eq_some, Option.some.injEq] at took
  exact ⟨took.1, took.2.symm⟩

theorem step_wake (took : step image fuel (.wake t) roster = some next) :
    (t ∈ roster.forked ∧ t ∉ roster.queued) ∧ next = { roster with
      kernel := roster.kernel.wakeUpProcess t, queued := t :: roster.queued } := by
  rw [step, Option.ite_none_right_eq_some, Option.some.injEq] at took
  exact ⟨took.1, took.2.symm⟩

end Inversion

end Roster

/-! ### The invariant -/

/-- What `next_task`, `prev_task`, the run queue, `g_task` and the counters agree on. -/
structure Consistent (image : Image) (roster : Roster) : Prop where
  apart : Apart image roster.kernel.pages
  pcb : LinkRing roster.kernel.nextTask roster.kernel.prevTask image.initTask roster.forked
  rq : LinkRing roster.kernel.next roster.kernel.prev .rqHead (roster.queued.map .runList)
  known : ∀ t ∈ roster.queued, t ∈ roster.forked
  running : roster.kernel.nrRunning = BitVec.ofNat 32 roster.queued.length
  slot : ∀ t ∈ roster.tasks image, ∃ i, roster.kernel.gTask i = t
  used : ∀ i, roster.kernel.gTask i ≠ 0 → roster.kernel.gTask i ∈ roster.tasks image ∧
    roster.kernel.pid (roster.kernel.gTask i) = BitVec.ofNat 32 i.val
  taken : ∀ t ∈ roster.forked, roster.kernel.pages.Taken t
  current : roster.kernel.current ∈ roster.tasks image
  counter : ∀ t ∈ roster.tasks image, (roster.kernel.counter t).toNat ≤ 12
  priority : ∀ t ∈ roster.forked, roster.kernel.priority t = 2
  state : ∀ t ∈ roster.tasks image, roster.kernel.state t = 0
  first : roster.kernel.gTask ⟨0, by decide⟩ = image.initTask

namespace Consistent

variable {image : Image} {roster : Roster}

/-- No task is the null pointer. -/
theorem ne_zero (consistent : Consistent image roster) {t : U64}
    (member : t ∈ roster.tasks image) : t ≠ 0 := by
  rcases List.mem_cons.mp member with rfl | forked
  · exact consistent.apart.nonzero
  · exact (consistent.apart.ne_initTask (consistent.taken t forked)).2

/-- Every task sits in the slot its pid names. -/
theorem gTask_pid (consistent : Consistent image roster) {t : U64}
    (member : t ∈ roster.tasks image) :
    ∃ i, roster.kernel.gTask i = t ∧ roster.kernel.pid t = BitVec.ofNat 32 i.val := by
  obtain ⟨i, same⟩ := consistent.slot t member
  have named := (consistent.used i (same.symm ▸ consistent.ne_zero member)).2
  exact ⟨i, same, by rw [← same, named]⟩

/-- The first slot is never free. -/
theorem pid_positive (consistent : Consistent image roster) {pid : Fin nrTask}
    (free : roster.kernel.gTask pid = 0) : (⟨0, by decide⟩ : Fin nrTask) ≠ pid := by
  rintro rfl
  exact consistent.apart.nonzero (consistent.first.symm.trans free)

/-- There are no more tasks than slots. -/
theorem length_le (consistent : Consistent image roster) :
    (roster.tasks image).length ≤ nrTask := by
  -- The slots are an injective choice, one for each task.
  have inside : (roster.tasks image) ⊆ (List.finRange nrTask).map roster.kernel.gTask := by
    intro t member
    obtain ⟨i, same⟩ := consistent.slot t member
    exact List.mem_map.mpr ⟨i, List.mem_finRange i, same⟩
  have bound := (List.subperm_of_subset consistent.pcb.nodup inside).length_le
  rwa [List.length_map, List.length_finRange] at bound

end Consistent

/-! ### The linked structures -/

namespace Kernel

variable {image : Image} {k : Kernel} {p : U64} {forked queued : List U64}

/-- The list heads of different tasks are different nodes. -/
theorem runList_mem {tasks : List U64} : ListNode.runList p ∈ tasks.map .runList ↔ p ∈ tasks :=
  List.mem_map_of_injective fun _ _ same => ListNode.runList.inj same

/-- `enqueue_task` puts a task that is not queued at the front of the queue. -/
theorem enqueueTask_rq (rq : LinkRing k.next k.prev .rqHead (queued.map .runList))
    (fresh : p ∉ queued) :
    LinkRing (k.enqueueTask p).next (k.enqueueTask p).prev .rqHead
      ((p :: queued).map .runList) := by
  -- The head is no task, so the new node is neither the head nor a queued task.
  have new : ListNode.runList p ∉ ListNode.rqHead :: queued.map .runList := by
    rw [List.mem_cons, runList_mem]
    rintro (head | queued)
    · cases head
    · exact fresh queued
  exact rq.insertFirst new

/-- `dequeue_task` takes a queued task out of the queue. -/
theorem dequeueTask_rq (rq : LinkRing k.next k.prev .rqHead (queued.map .runList))
    (member : p ∈ queued) :
    LinkRing (k.dequeueTask p).next (k.dequeueTask p).prev .rqHead
      ((queued.erase p).map .runList) := by
  have removed := rq.remove (runList_mem.mpr member)
  have erased : (queued.map ListNode.runList).erase (.runList p) =
      (queued.erase p).map .runList :=
    (List.map_erase (fun _ _ same => ListNode.runList.inj same) queued).symm
  rw [erased] at removed
  -- The poison goes into the node that was taken out.
  have outside : ListNode.runList p ∉ ListNode.rqHead :: (queued.erase p).map .runList := by
    have nodup := List.Nodup.of_map _ (List.nodup_cons.mp rq.nodup).2
    rw [List.mem_cons, runList_mem, nodup.mem_erase_iff]
    rintro (head | ⟨other, _⟩)
    · cases head
    · exact other rfl
  -- The queue does not read the node that is poisoned.
  have elsewhere : ∀ node ∈ ListNode.rqHead :: (queued.erase p).map .runList,
      node ≠ .runList p := by
    rintro node inside rfl
    exact outside inside
  refine removed.congr (fun node inside => ?_) (fun node inside => ?_)
  · exact Function.update_of_ne (elsewhere node inside) _ _
  · exact Function.update_of_ne (elsewhere node inside) _ _

/-- `SET_LINKS` puts a new task at the end of the list of tasks. -/
theorem setLinks_pcb (pcb : LinkRing k.nextTask k.prevTask image.initTask forked)
    (fresh : p ∉ image.initTask :: forked) :
    LinkRing (k.setLinks image p).nextTask (k.setLinks image p).prevTask image.initTask
      (forked ++ [p]) := by
  have other : image.initTask ≠ p := fun same => fresh (same ▸ List.mem_cons_self)
  have inserted := pcb.insertLast fresh
  -- The macro writes the two backward links in the other order.
  rw [Function.update_comm other] at inserted
  have last : (Function.update k.prevTask p (k.prevTask image.initTask)) image.initTask =
      k.prevTask image.initTask := Function.update_of_ne other _ _
  simp only [setLinks, last]
  exact inserted

end Kernel

/-! ### The next task -/

namespace Kernel

variable {image : Image} {k : Kernel}

/-- One round of the search for the greatest weight. -/
def better (k : Kernel) (best : BitVec 32 × Option U64) (p : U64) : BitVec 32 × Option U64 :=
  if best.1.slt (k.counter p) then (k.counter p, some p) else best

/-- The loop of `pick_next_task_simple` compares the queued tasks in order. -/
theorem pickFrom_eq (rest : List U64) :
    ∀ {fuel : Nat} {tmp : ListNode} {c : BitVec 32} {next : Option U64}, rest.length < fuel →
      (rest.map ListNode.runList ++ [ListNode.rqHead]).head? = some tmp →
      List.IsChain (fun x y => k.next x = y) (rest.map ListNode.runList ++ [ListNode.rqHead]) →
      k.pickFrom fuel tmp c next = some (rest.foldl k.better (c, next)) := by
  -- The induction follows the nodes still ahead, the head of the queue being the last one.
  induction rest with
  | nil =>
    intro fuel tmp c next fueled here _
    obtain ⟨fuel, rfl⟩ : ∃ n, fuel = n + 1 := ⟨fuel - 1, by simp at fueled; omega⟩
    cases here
    rfl
  | cons p rest ih =>
    intro fuel tmp c next fueled here reads
    obtain ⟨fuel, rfl⟩ : ∃ n, fuel = n + 1 := ⟨fuel - 1, by simp at fueled; omega⟩
    cases here
    have fueled : rest.length < fuel := by simpa using fueled
    have further := reads.tail
    -- The node behind `p` is the first of the rest, or the head.
    have step : (rest.map ListNode.runList ++ [ListNode.rqHead]).head? = some (k.next (.runList p)) := by
      obtain ⟨y, more, split⟩ : ∃ y more, rest.map ListNode.runList ++ [ListNode.rqHead] = y :: more :=
        List.exists_cons_of_ne_nil (by simp)
      rw [List.map_cons, List.cons_append, split, List.isChain_cons_cons] at reads
      rw [split, reads.1]
      rfl
    simp only [pickFrom, List.foldl_cons, better]
    split
    · exact ih fueled step further
    · exact ih fueled step further

/-- The search over a well-formed queue is a fold over the queued tasks. -/
theorem pickFrom_queue {queued : List U64} (fuel : Nat)
    (rq : LinkRing k.next k.prev .rqHead (queued.map .runList)) (fueled : queued.length < fuel) :
    k.pickFrom fuel (k.next .rqHead) (-1000) none = some (queued.foldl k.better (-1000, none)) := by
  have reads : List.IsChain (fun x y => k.next x = y)
      (ListNode.rqHead :: (queued.map ListNode.runList ++ [ListNode.rqHead])) := rq.forward
  refine pickFrom_eq queued fueled ?_ reads.tail
  -- The first node of the search is the one the head points to.
  obtain ⟨y, more, split⟩ : ∃ y more, queued.map ListNode.runList ++ [ListNode.rqHead] =
      y :: more := List.exists_cons_of_ne_nil (by simp)
  rw [split, List.isChain_cons_cons] at reads
  rw [split, reads.1]
  rfl

/-- Among weights above the starting value the search finds the first task of the greatest weight. -/
theorem foldl_better {queued : List U64} {start : BitVec 32}
    (above : ∀ p ∈ queued, start.slt (k.counter p) = true) :
    queued.foldl k.better (start, none) =
      (queued.argmax fun p => (k.counter p).toInt).elim (start, none)
        fun p => (k.counter p, some p) := by
  -- The search and the greatest element both grow by one task at the end of the queue.
  induction queued using List.reverseRecOn with
  | nil => rfl
  | append_singleton front p ih =>
    rw [List.foldl_append, ih fun q member => above q (List.mem_append_left _ member),
      List.argmax_concat]
    cases List.argmax (fun p => (k.counter p).toInt) front with
    | none =>
      -- The first task of the queue beats the starting value.
      show k.better (start, none) p = _
      rw [better, above p (List.mem_append_right _ (List.mem_singleton_self p)), if_pos rfl]
      rfl
    | some best =>
      show k.better (k.counter best, some best) p = _
      simp only [better, BitVec.slt_iff_toInt_lt]
      split <;> rfl

/-- `reset_score` gives every task behind `p` its priority's share, and changes nothing else. -/
theorem resetScoreFrom_eq (rest : List U64) :
    ∀ {fuel : Nat} {p : U64} {k : Kernel}, rest.length < fuel → rest.Nodup →
      image.initTask ∉ rest →
      List.IsChain (fun x y => k.nextTask x = y) (p :: (rest ++ [image.initTask])) →
      ∃ counter, resetScoreFrom image fuel p k = some { k with counter } ∧
        (∀ t ∈ rest, counter t = defCounter + k.priority t) ∧
        ∀ t ∉ rest, counter t = k.counter t := by
  -- The loop never reads a counter, so each round leaves the rest of the list as it was.
  induction rest with
  | nil =>
    intro fuel p k fueled _ _ reads
    obtain ⟨fuel, rfl⟩ : ∃ n, fuel = n + 1 := ⟨fuel - 1, by simp at fueled; omega⟩
    have last : k.nextTask p = image.initTask := by simpa using reads
    refine ⟨k.counter, ?_, by simp, fun _ _ => rfl⟩
    simp only [resetScoreFrom, last, if_pos]
  | cons q rest ih =>
    intro fuel p k fueled nodup apart reads
    obtain ⟨fuel, rfl⟩ : ∃ n, fuel = n + 1 := ⟨fuel - 1, by simp at fueled; omega⟩
    rw [List.cons_append, List.isChain_cons_cons] at reads
    obtain ⟨here, further⟩ := reads
    -- The loop stops at the task of boot, which is not in the list.
    have other : q ≠ image.initTask := fun same => apart (same ▸ List.mem_cons_self)
    obtain ⟨fresh, nodup⟩ := List.nodup_cons.mp nodup
    obtain ⟨counter, ran, inside, outside⟩ :=
      ih (k := { k with counter := Function.update k.counter q (defCounter + k.priority q) })
        (by simpa using fueled) nodup (fun member => apart (List.mem_cons_of_mem q member)) further
    -- The round has written the counter of `q`, and the others write none of it.
    refine ⟨counter, ?_, ?_, ?_⟩
    · simp only [resetScoreFrom, here, if_neg other]
      exact ran
    · intro t member
      rcases List.mem_cons.mp member with rfl | later
      · rw [outside t fresh]
        exact Function.update_self _ _ _
      · exact inside t later
    · intro t absent
      have notQ : t ≠ q := fun same => absent (same ▸ List.mem_cons_self)
      rw [outside t fun later => absent (List.mem_cons_of_mem q later)]
      exact Function.update_of_ne notQ _ _

end Kernel

namespace Consistent

variable {image : Image} {roster : Roster}

/-- Counters are small, so as integers they are what they are as words. -/
theorem counter_toInt (consistent : Consistent image roster) {t : U64}
    (task : t ∈ roster.tasks image) :
    (roster.kernel.counter t).toInt = (roster.kernel.counter t).toNat := by
  -- Their sign bit is clear.
  have small := consistent.counter t task
  exact BitVec.toInt_eq_toNat_of_lt (by omega)

/-- The queue is no longer than the list of forked tasks, and both are shorter than the table. -/
theorem queued_length (consistent : Consistent image roster) :
    roster.queued.length ≤ roster.forked.length ∧ roster.forked.length < nrTask := by
  have lengths := consistent.length_le
  rw [Roster.tasks, List.length_cons] at lengths
  -- The queued tasks are different forked tasks.
  have nodup := List.Nodup.of_map _ (List.nodup_cons.mp consistent.rq.nodup).2
  exact ⟨(List.subperm_of_subset nodup consistent.known).length_le, lengths⟩

/-- Some queued task is the first one with the greatest counter. -/
theorem greatest (consistent : Consistent image roster) (some_ : roster.queued ≠ [])
    {loops : Nat} (long : nrTask < loops) :
    ∃ next, next ∈ (roster.queued.argmax fun p => (roster.kernel.counter p).toInt) ∧
      roster.kernel.pickFrom loops (roster.kernel.next .rqHead) (-1000) none =
        some (roster.kernel.counter next, some next) := by
  obtain ⟨shorter, short⟩ := consistent.queued_length
  -- No counter is negative, and the search starts far below zero.
  have above : ∀ p ∈ roster.queued, (-1000 : BitVec 32).slt (roster.kernel.counter p) = true := by
    intro p member
    have start : (-1000 : BitVec 32).toInt = -1000 := by decide
    rw [BitVec.slt_iff_toInt_lt, start,
      consistent.counter_toInt (List.mem_cons_of_mem _ (consistent.known p member))]
    omega
  have searched := Kernel.pickFrom_queue loops consistent.rq (by omega)
  rw [Kernel.foldl_better above] at searched
  cases best : roster.queued.argmax fun p => (roster.kernel.counter p).toInt with
  | none => exact absurd (List.argmax_eq_none.mp best) some_
  | some next =>
    rw [best] at searched
    exact ⟨next, rfl, searched⟩

/-- `reset_score` ends, with a new time slice for every task but the first. -/
theorem resetScore (consistent : Consistent image roster) {loops : Nat} (long : nrTask < loops) :
    ∃ counter, roster.kernel.resetScore image loops = some { roster.kernel with counter } ∧
      (∀ t ∈ roster.forked, counter t = defCounter + roster.kernel.priority t) ∧
      (∀ t ∉ roster.forked, counter t = roster.kernel.counter t) ∧
      Consistent image { roster with kernel := { roster.kernel with counter } } := by
  obtain ⟨apart, nodup⟩ := List.nodup_cons.mp consistent.pcb.nodup
  have fueled : roster.forked.length < loops := Nat.lt_trans consistent.queued_length.2 long
  obtain ⟨counter, ran, inside, outside⟩ := Kernel.resetScoreFrom_eq
    roster.forked (k := roster.kernel) fueled nodup apart consistent.pcb.forward
  refine ⟨counter, ran, inside, outside, { consistent with counter := ?_ }⟩
  -- The new slices are small too, and the first task keeps the one it had.
  intro t task
  rcases List.mem_cons.mp task with rfl | forked
  · show (counter image.initTask).toNat ≤ 12
    rw [outside _ apart]
    exact consistent.counter _ List.mem_cons_self
  · show (counter t).toNat ≤ 12
    rw [inside t forked, consistent.priority t forked]
    decide

/-- A reset gives every queued task a slice that is not empty. -/
theorem slice_ne_zero (consistent : Consistent image roster) {t : U64}
    (forked : t ∈ roster.forked) : defCounter + roster.kernel.priority t ≠ 0 := by
  -- Every forked task has the same priority.
  rw [consistent.priority t forked]
  decide

/--
On a queue that is not empty `pick_next_task` returns the first task with the greatest counter:
at once if some queued task has time left, and after exactly one reset if none has.
-/
theorem pickNextTask_cases (consistent : Consistent image roster) (some_ : roster.queued ≠ [])
    {loops : Nat} (long : nrTask < loops) :
    ((∃ p ∈ roster.queued, roster.kernel.counter p ≠ 0) ∧
      ∃ next, next ∈ (roster.queued.argmax fun p => (roster.kernel.counter p).toInt) ∧
        ∀ turns, roster.kernel.pickNextTask image loops (turns + 1) =
          some (next, roster.kernel)) ∨
    ((∀ p ∈ roster.queued, roster.kernel.counter p = 0) ∧
      ∃ counter next,
        (∀ t ∈ roster.forked, counter t = defCounter + roster.kernel.priority t) ∧
        (∀ t ∉ roster.forked, counter t = roster.kernel.counter t) ∧
        Consistent image { roster with kernel := { roster.kernel with counter } } ∧
        next ∈ (roster.queued.argmax fun p => (counter p).toInt) ∧
        roster.kernel.pickNextTask image loops 1 = none ∧
        ∀ turns, roster.kernel.pickNextTask image loops (turns + 2) =
          some (next, { roster.kernel with counter })) := by
  obtain ⟨first, best, searched⟩ := consistent.greatest some_ long
  have member := List.argmax_mem best
  by_cases tired : roster.kernel.counter first = 0
  · -- The greatest counter is zero, and no counter is negative.
    refine Or.inr ⟨fun p queued => ?_, ?_⟩
    · have below := List.le_of_mem_argmax queued best
      rw [tired, consistent.counter_toInt (List.mem_cons_of_mem _ (consistent.known p queued))]
        at below
      have zero : (0 : BitVec 32).toInt = 0 := rfl
      exact BitVec.eq_of_toNat_eq (by rw [zero] at below; exact Nat.le_zero.mp (by omega))
    · obtain ⟨counter, ran, inside, outside, kept⟩ := consistent.resetScore long
      obtain ⟨second, bestAgain, searchedAgain⟩ := kept.greatest some_ long
      -- So the second search finds a task with time left, and there is no third.
      have fresh : counter second ≠ 0 := by
        have forked := consistent.known second (List.argmax_mem bestAgain)
        rw [inside second forked]
        exact consistent.slice_ne_zero forked
      refine ⟨counter, second, inside, outside, kept, bestAgain, ?_, fun turns => ?_⟩
      · rw [Kernel.pickNextTask, searched]
        simp only [tired, if_pos, ran]
        rfl
      · rw [Kernel.pickNextTask, searched]
        simp only [tired, if_pos, ran]
        rw [Kernel.pickNextTask]
        simp only [searchedAgain, fresh, if_false, Option.map_some]
  · refine Or.inl ⟨⟨first, member, tired⟩, first, best, fun turns => ?_⟩
    rw [Kernel.pickNextTask, searched]
    simp only [tired, if_false, Option.map_some]

/-- On a queue that is not empty the search ends, at a queued task. -/
theorem pickNextTask_eq (consistent : Consistent image roster) {fuel : Nat} (fueled : nrTask < fuel)
    (some_ : roster.queued ≠ []) :
    ∃ next ∈ roster.queued, ∃ counter,
      roster.kernel.pickNextTask image fuel fuel =
        some (next, { roster.kernel with counter }) ∧
      ∀ t ∈ roster.tasks image, (counter t).toNat ≤ 12 := by
  have slots : nrTask = 128 := rfl
  obtain ⟨turns, fuelTurns⟩ : ∃ n, fuel = n + 2 := ⟨fuel - 2, by omega⟩
  -- Either way the fuel is enough for the one reset there may be.
  rcases consistent.pickNextTask_cases some_ fueled with
    ⟨_, next, best, picked⟩ | ⟨_, counter, next, _, _, kept, best, _, picked⟩
  · refine ⟨next, List.argmax_mem best, roster.kernel.counter, ?_, consistent.counter⟩
    rw [← picked (turns + 1), ← fuelTurns]
  · refine ⟨next, List.argmax_mem best, counter, ?_, kept.counter⟩
    rw [← picked turns, ← fuelTurns]

/-! ### One operation -/

/-- Time slices stay small when they are halved, counted down or given again. -/
theorem counter_small {c : BitVec 32} (small : c.toNat ≤ 12) :
    (c.sshiftRight 1).toNat ≤ 12 ∧ ((c + 1).sshiftRight 1).toNat ≤ 12 ∧
      ((c - 1).sle 0 = false → (c - 1).toNat ≤ 12) := by
  obtain ⟨n, same⟩ : ∃ n, c = BitVec.ofNat 32 n ∧ n ≤ 12 := ⟨c.toNat, by simp, small⟩
  obtain ⟨rfl, bound⟩ := same
  -- The counters are few enough to look at each.
  have all : ∀ n ≤ 12, ((BitVec.ofNat 32 n).sshiftRight 1).toNat ≤ 12 ∧
      ((BitVec.ofNat 32 n + 1).sshiftRight 1).toNat ≤ 12 ∧
      ((BitVec.ofNat 32 n - 1).sle 0 = false → (BitVec.ofNat 32 n - 1).toNat ≤ 12) := by
    decide
  exact all n bound

/-- The timer tick only touches the current task's time. -/
theorem tick (consistent : Consistent image roster) :
    Consistent image { roster with kernel := roster.kernel.tickHandlePeriodic } := by
  have small := counter_small (consistent.counter _ consistent.current)
  -- Both branches of the tick write one counter, which stays small.
  have counters : ∀ c : BitVec 32, c.toNat ≤ 12 → ∀ t ∈ roster.tasks image,
      (Function.update roster.kernel.counter roster.kernel.current c t).toNat ≤ 12 := by
    intro c bound t task
    by_cases here : t = roster.kernel.current
    · rw [here, Function.update_self]
      exact bound
    · rw [Function.update_of_ne here]
      exact consistent.counter t task
  rw [Kernel.tickHandlePeriodic]
  split
  · exact { consistent with counter := counters 0 (by decide) }
  · rename_i left
    exact { consistent with counter := counters _ (small.2.2 (by simpa using left)) }

/-- The switch of `__schedule` goes to a queued task and leaves the structures alone. -/
theorem schedule (consistent : Consistent image roster) {fuel : Nat} (fueled : nrTask < fuel)
    (some_ : roster.queued ≠ []) :
    ∃ kernel, roster.kernel.scheduleSwitch image fuel = some kernel ∧
      kernel.preemptCount = roster.kernel.preemptCount ∧ Consistent image { roster with kernel } := by
  obtain ⟨next, member, counter, picked, bounded⟩ := consistent.pickNextTask_eq fueled some_
  -- The current task is running, so it stays in the queue.
  have awake : roster.kernel.state roster.kernel.current = 0 :=
    consistent.state _ consistent.current
  have task : next ∈ roster.tasks image := List.mem_cons_of_mem _ (consistent.known next member)
  rw [Kernel.scheduleSwitch]
  simp only [awake, ne_eq, not_true_eq_false, if_false, picked]
  refine ⟨_, rfl, ?_⟩
  split
  · exact ⟨rfl, { consistent with counter := bounded, current := task }⟩
  · exact ⟨rfl, { consistent with counter := bounded }⟩

/-- A queued task can be taken out of the queue. -/
theorem dequeue (consistent : Consistent image roster) {t : U64} (member : t ∈ roster.queued) :
    Consistent image
      { roster with kernel := roster.kernel.dequeueTask t, queued := roster.queued.erase t } := by
  refine { consistent with
    rq := Kernel.dequeueTask_rq consistent.rq member
    known := fun p inside => consistent.known p (List.mem_of_mem_erase inside)
    running := ?_ }
  -- The queue was not empty, so counting down does not wrap.
  have positive := List.length_pos_of_mem member
  have lengths := List.length_erase_of_mem member
  show roster.kernel.nrRunning - 1 = BitVec.ofNat 32 (roster.queued.erase t).length
  rw [consistent.running, lengths]
  apply BitVec.eq_of_toNat_eq
  have one : (1 : BitVec 32).toNat = 1 := rfl
  rw [BitVec.toNat_sub, BitVec.toNat_ofNat, BitVec.toNat_ofNat, one]
  omega

/-- A task that is not queued can be woken up. -/
theorem wake (consistent : Consistent image roster) {t : U64} (forked : t ∈ roster.forked)
    (fresh : t ∉ roster.queued) :
    Consistent image
      { roster with kernel := roster.kernel.wakeUpProcess t, queued := t :: roster.queued } := by
  refine { consistent with
    rq := Kernel.enqueueTask_rq consistent.rq fresh
    known := ?_
    running := ?_
    state := ?_ }
  · -- The queue has one task more, and that task is now running as the others are.
    intro p inside
    rcases List.mem_cons.mp inside with rfl | older
    · exact forked
    · exact consistent.known p older
  · show roster.kernel.nrRunning + 1 = BitVec.ofNat 32 (roster.queued.length + 1)
    rw [consistent.running, BitVec.ofNat_add]
    rfl
  · intro p task
    show Function.update roster.kernel.state t taskRunning p = 0
    -- The state of the woken task is set, and no other.
    by_cases here : p = t
    · rw [here, Function.update_self]
      rfl
    · rw [Function.update_of_ne here]
      exact consistent.state p task

/-- Handing out another page keeps the table. -/
theorem payPage (consistent : Consistent image roster) :
    Consistent image
      { roster with kernel := { roster.kernel with pages := roster.kernel.pages.getFreePage.2 } } := by
  obtain ⟨start, keeps⟩ := PageAlloc.getFreePage_keeps roster.kernel.pages
  exact { consistent with
    apart := ⟨start.symm ▸ consistent.apart.placed, consistent.apart.nonzero,
      start.symm ▸ consistent.apart.below⟩
    taken := fun t forked => keeps t (consistent.taken t forked) }

/-- A page outside the table can be cleared. -/
theorem clear (consistent : Consistent image roster) {p : U64}
    (fresh : p ∉ roster.tasks image) :
    Consistent image { roster with kernel := roster.kernel.clearTask p } := by
  have other : ∀ t ∈ roster.tasks image, t ≠ p := by
    rintro t member rfl
    exact fresh member
  -- The node in the cleared page is none of the queue.
  have node : ∀ x ∈ ListNode.rqHead :: roster.queued.map .runList, x ≠ .runList p := by
    rintro x member rfl
    rcases List.mem_cons.mp member with head | queued
    · cases head
    · exact fresh (List.mem_cons_of_mem _
        (consistent.known p (Kernel.runList_mem.mp queued)))
  -- Every field of every task of the table is what it was.
  have field : ∀ (f : U64 → BitVec 32), ∀ t ∈ roster.tasks image, Function.update f p 0 t = f t :=
    fun f t member => Function.update_of_ne (other t member) _ _
  refine { consistent with
    pcb := consistent.pcb.congr (fun t member => Function.update_of_ne (other t member) _ _)
      (fun t member => Function.update_of_ne (other t member) _ _)
    rq := consistent.rq.congr (fun x member => Function.update_of_ne (node x member) _ _)
      (fun x member => Function.update_of_ne (node x member) _ _)
    used := fun i nonzero => ?_
    counter := fun t task => by
      show (Function.update roster.kernel.counter p 0 t).toNat ≤ 12
      rw [field _ t task]
      exact consistent.counter t task
    priority := fun t forked =>
      (field _ t (List.mem_cons_of_mem _ forked)).trans (consistent.priority t forked)
    state := fun t task => (field _ t task).trans (consistent.state t task) }
  obtain ⟨task, named⟩ := consistent.used i nonzero
  exact ⟨task, (field _ _ task).trans named⟩

/-- The tasks are the older ones and the new one, which is behind them. -/
theorem mem_adopted {p t : U64} : t ∈ image.initTask :: (roster.forked ++ [p]) ↔
    t ∈ roster.tasks image ∨ t = p := by
  rw [← List.cons_append, List.mem_append, List.mem_singleton, Roster.tasks]

/-- The new task sits in the free slot, and every older one where it did. -/
theorem adopt_slot (consistent : Consistent image roster) {p t : U64} {pid : Fin nrTask}
    (free : roster.kernel.gTask pid = 0) (task : t ∈ roster.tasks image ∨ t = p) :
    ∃ i, Function.update roster.kernel.gTask pid p i = t := by
  rcases task with old | rfl
  · -- The slot of an older task is not the free one.
    obtain ⟨i, same⟩ := consistent.slot t old
    have apart : i ≠ pid := by
      rintro rfl
      exact consistent.ne_zero old (same ▸ free)
    exact ⟨i, (Function.update_of_ne apart _ _).trans same⟩
  · exact ⟨pid, Function.update_self _ _ _⟩

/-- Every slot that is filled then holds a task whose pid is its number. -/
theorem adopt_used (consistent : Consistent image roster) {p : U64} {pid i : Fin nrTask}
    (fresh : p ∉ roster.tasks image) (filled : Function.update roster.kernel.gTask pid p i ≠ 0) :
    (Function.update roster.kernel.gTask pid p i ∈ roster.tasks image ∨
        Function.update roster.kernel.gTask pid p i = p) ∧
      Function.update roster.kernel.pid p (BitVec.ofNat 32 pid.val)
        (Function.update roster.kernel.gTask pid p i) = BitVec.ofNat 32 i.val := by
  -- The new slot holds the new task, and the older ones what they held.
  by_cases here : i = pid
  · rw [here, Function.update_self, Function.update_self]
    exact ⟨Or.inr rfl, rfl⟩
  · rw [Function.update_of_ne here] at filled ⊢
    obtain ⟨task, named⟩ := consistent.used i filled
    have other : roster.kernel.gTask i ≠ p := fun same => fresh (same ▸ task)
    rw [Function.update_of_ne other]
    exact ⟨Or.inl task, named⟩

/-- The child takes half of the time that the parent has left, and no counter gets too large. -/
theorem adopt_counter (consistent : Consistent image roster) {p t : U64}
    (fresh : p ∉ roster.tasks image) (task : t ∈ roster.tasks image ∨ t = p) :
    let counter := roster.kernel.counter roster.kernel.current
    (Function.update (Function.update roster.kernel.counter p ((counter + 1).sshiftRight 1))
      roster.kernel.current (counter.sshiftRight 1) t).toNat ≤ 12 := by
  have small := counter_small (consistent.counter _ consistent.current)
  dsimp only
  -- The parent's counter is written behind the child's.
  by_cases parent : t = roster.kernel.current
  · rw [parent, Function.update_self]
    exact small.1
  · rw [Function.update_of_ne parent]
    rcases task with old | rfl
    · have other : t ≠ p := fun same => fresh (same ▸ old)
      rw [Function.update_of_ne other]
      exact consistent.counter t old
    · rw [Function.update_self]
      exact small.2.1

/-- A fresh page with a free pid becomes the last task and the first of the queue. -/
theorem adopt (consistent : Consistent image roster) (cloneFlags fn arg : U64) {p : U64}
    {pid : Fin nrTask} (fresh : p ∉ roster.tasks image) (taken : roster.kernel.pages.Taken p)
    (free : roster.kernel.gTask pid = 0) :
    Consistent image
      { kernel := roster.kernel.forkTask image cloneFlags fn arg p pid
        forked := roster.forked ++ [p]
        queued := p :: roster.queued } where
  apart := consistent.apart
  pcb := Kernel.setLinks_pcb consistent.pcb fresh
  rq := by
    have unqueued : p ∉ roster.queued :=
      fun queued => fresh (List.mem_cons_of_mem _ (consistent.known p queued))
    exact Kernel.enqueueTask_rq consistent.rq unqueued
  -- The queue is the old one with the new task in front.
  known t queued := by
    rcases List.mem_cons.mp queued with rfl | older
    · exact List.mem_append_right _ (List.mem_singleton_self _)
    · exact List.mem_append_left _ (consistent.known t older)
  -- `enqueue_task` counts the task it links.
  running := by
    show roster.kernel.nrRunning + 1 = BitVec.ofNat 32 (roster.queued.length + 1)
    rw [consistent.running, BitVec.ofNat_add]
    rfl
  slot t task := consistent.adopt_slot free (mem_adopted.mp task)
  used i filled := (consistent.adopt_used fresh filled).imp_left mem_adopted.mpr
  -- The page of the new task is taken, as those of the others were.
  taken t forked := by
    rcases List.mem_append.mp forked with old | new
    · exact consistent.taken t old
    · rw [List.mem_singleton.mp new]
      exact taken
  current := mem_adopted.mpr (Or.inl consistent.current)
  counter t task := consistent.adopt_counter fresh (mem_adopted.mp task)
  -- Every fork gives priority two.
  priority t forked := by
    show Function.update roster.kernel.priority p 2 t = 2
    rcases List.mem_append.mp forked with old | new
    · have other : t ≠ p := fun same => fresh (same ▸ List.mem_cons_of_mem _ old)
      rw [Function.update_of_ne other]
      exact consistent.priority t old
    · rw [List.mem_singleton.mp new, Function.update_self]
  -- The state is written twice, by `copy_process` and by `wake_up_process`.
  state t task := by
    show Function.update (Function.update roster.kernel.state p taskRunning) p taskRunning t = 0
    rcases mem_adopted.mp task with old | rfl
    · have other : t ≠ p := fun same => fresh (same ▸ old)
      rw [Function.update_of_ne other, Function.update_of_ne other]
      exact consistent.state t old
    · rw [Function.update_self]
      rfl
  first := by
    show Function.update roster.kernel.gTask pid p ⟨0, by decide⟩ = image.initTask
    -- Slot zero is never free, so it is not the one given away.
    rw [Function.update_of_ne (consistent.pid_positive free)]
    exact consistent.first

/-- The page `do_fork` works on is no task yet, and clearing it keeps the table. -/
theorem forkPage (consistent : Consistent image roster)
    (nonzero : roster.kernel.pages.getFreePage.1 ≠ 0) :
    roster.kernel.pages.getFreePage.1 ∉ roster.tasks image ∧
      roster.kernel.forkPage.pages.Taken roster.kernel.pages.getFreePage.1 ∧
      Consistent image { roster with kernel := roster.kernel.forkPage } := by
  have paid := consistent.payPage
  obtain ⟨untaken, taken⟩ := PageAlloc.getFreePage_taken nonzero
  -- The pages of the tasks had all been handed out.
  have fresh : roster.kernel.pages.getFreePage.1 ∉ roster.tasks image := by
    intro member
    rcases List.mem_cons.mp member with first | forked
    · exact (paid.apart.ne_initTask taken).1 first
    · exact untaken (consistent.taken _ forked)
  exact ⟨fresh, taken, paid.clear fresh⟩

/-- `do_fork` adds a new task that may be preempted, or leaves the tasks as they were. -/
theorem fork_cases (consistent : Consistent image roster) (cloneFlags fn arg : U64) :
    (∃ kernel, roster.kernel.doFork image cloneFlags fn arg = (none, kernel) ∧
      Consistent image { roster with kernel } ∧ kernel.current = roster.kernel.current ∧
      ∀ t ∈ roster.tasks image, kernel.preemptCount t = roster.kernel.preemptCount t) ∨
    ∃ pid kernel, roster.kernel.doFork image cloneFlags fn arg = (some pid, kernel) ∧
      Consistent image
        { kernel, forked := roster.forked ++ [kernel.gTask pid]
          queued := kernel.gTask pid :: roster.queued } ∧
      kernel.current = roster.kernel.current ∧ kernel.gTask pid ∉ roster.tasks image ∧
      kernel.preemptCount (kernel.gTask pid) = 0 ∧
      ∀ t ∈ roster.tasks image, kernel.preemptCount t = roster.kernel.preemptCount t := by
  rcases roster.kernel.doFork_cases image cloneFlags fn arg with
    ⟨_, result⟩ | ⟨nonzero, _, result⟩ | ⟨pid, nonzero, found, result⟩
  · exact Or.inl ⟨_, result, consistent.payPage, rfl, fun _ _ => rfl⟩
  · -- The page that is lost held no task.
    obtain ⟨fresh, _, cleared⟩ := consistent.forkPage nonzero
    refine Or.inl ⟨_, result, cleared, rfl, fun t task => Function.update_of_ne ?_ _ _⟩
    rintro rfl
    exact fresh task
  · obtain ⟨fresh, taken, cleared⟩ := consistent.forkPage nonzero
    -- A slot was found, and the page becomes the task of that slot.
    have free := Kernel.findEmptyTask_some found
    have new : (roster.kernel.forkPage.forkTask image cloneFlags fn arg
        roster.kernel.pages.getFreePage.1 pid).gTask pid = roster.kernel.pages.getFreePage.1 :=
      Function.update_self pid _ roster.kernel.gTask
    refine Or.inr ⟨pid, _, result, ?_, rfl, ?_, ?_, fun t task => ?_⟩
    · rw [new]
      exact cleared.adopt cloneFlags fn arg fresh taken free
    · rw [new]
      exact fresh
    · rw [new]
      exact Function.update_self _ _ _
    · have other : t ≠ roster.kernel.pages.getFreePage.1 := by
        rintro rfl
        exact fresh task
      exact (Function.update_of_ne other _ _).trans (Function.update_of_ne other _ _)

/-- A table that is not full has a free slot. -/
theorem free_slot (consistent : Consistent image roster) (room : roster.forked.length + 1 < nrTask) :
    ∃ pid, roster.kernel.gTask pid = 0 := by
  by_contra full
  have filled : ∀ i, roster.kernel.gTask i ≠ 0 := fun i empty => full ⟨i, empty⟩
  -- The tasks of different slots have different pids.
  have injective : Function.Injective roster.kernel.gTask := by
    intro i j same
    have numbers := (consistent.used i (filled i)).2.symm.trans
      (same ▸ (consistent.used j (filled j)).2)
    have values := congrArg BitVec.toNat numbers
    have boundI : i.val < 128 := i.isLt
    have boundJ : j.val < 128 := j.isLt
    rw [BitVec.toNat_ofNat, BitVec.toNat_ofNat] at values
    exact Fin.ext (by omega)
  -- A table of 128 filled slots would hold as many tasks.
  have inside : (List.finRange nrTask).map roster.kernel.gTask ⊆ roster.tasks image := by
    intro t member
    obtain ⟨i, _, rfl⟩ := List.mem_map.mp member
    exact (consistent.used i (filled i)).1
  have bound := (List.subperm_of_subset
    (List.Nodup.map injective (List.nodup_finRange nrTask)) inside).length_le
  rw [List.length_map, List.length_finRange, Roster.tasks, List.length_cons] at bound
  omega

/-- A full table has no free slot. -/
theorem no_slot (consistent : Consistent image roster) (full : nrTask ≤ roster.forked.length + 1)
    (pid : Fin nrTask) : roster.kernel.gTask pid ≠ 0 := by
  intro empty
  -- Otherwise every task sits in one of the other slots, which are too few.
  have inside : roster.tasks image ⊆
      ((List.finRange nrTask).erase pid).map roster.kernel.gTask := by
    intro t member
    obtain ⟨i, same⟩ := consistent.slot t member
    refine List.mem_map.mpr ⟨i, (List.nodup_finRange nrTask).mem_erase_iff.mpr ⟨?_, ?_⟩, same⟩
    · rintro rfl
      exact consistent.ne_zero member (same.symm.trans empty)
    · exact List.mem_finRange i
  have bound := (List.subperm_of_subset consistent.pcb.nodup inside).length_le
  rw [List.length_map, List.length_erase_of_mem (List.mem_finRange pid), List.length_finRange,
    List.length_cons] at bound
  have slots : nrTask = 128 := rfl
  omega

/-- With a free page and a table that is not full `do_fork` makes a task of the lowest free page. -/
theorem fork_succeeds (consistent : Consistent image roster) (cloneFlags fn arg : U64)
    (page : ∃ i, roster.kernel.pages.memMap i = 0) (room : roster.forked.length + 1 < nrTask) :
    ∃ pid kernel, roster.kernel.doFork image cloneFlags fn arg = (some pid, kernel) ∧
      kernel.pages = roster.kernel.pages.getFreePage.2 := by
  have found := (PageAlloc.getFreePage_ne_zero_iff consistent.apart.placed).mpr page
  have slot : ∃ pid, roster.kernel.forkPage.findEmptyTask = some pid :=
    Kernel.findEmptyTask_isSome_iff.mpr (consistent.free_slot room)
  rcases roster.kernel.doFork_cases image cloneFlags fn arg with
    ⟨failed, _⟩ | ⟨_, full, _⟩ | ⟨pid, _, _, result⟩
  · exact absurd failed found
  · obtain ⟨pid, some_⟩ := slot
    rw [full] at some_
    cases some_
  · exact ⟨pid, _, result, rfl⟩

/-- `do_fork` adds a task, or leaves the table as it was. -/
theorem fork (consistent : Consistent image roster) (fuel : Nat) (cloneFlags fn arg : U64) :
    ∃ roster', Roster.step image fuel (.fork cloneFlags fn arg) roster = some roster' ∧
      Consistent image roster' := by
  rcases consistent.fork_cases cloneFlags fn arg with
    ⟨kernel, result, kept, _⟩ | ⟨pid, kernel, result, kept, _⟩
  · exact ⟨_, by simp only [Roster.step, result], kept⟩
  · exact ⟨_, by simp only [Roster.step, result], kept⟩

/-- A head that does not point at itself has tasks behind it. -/
theorem queued_ne_nil (consistent : Consistent image roster)
    (some_ : roster.kernel.next .rqHead ≠ .rqHead) : roster.queued ≠ [] := by
  intro empty
  have ring := consistent.rq.links
  rw [empty, List.map_nil, List.nil_append, List.isChain_pair] at ring
  exact some_ ring.1

/-- The head of a queue that is not empty points to a task. -/
theorem rqHead_ne (consistent : Consistent image roster) (some_ : roster.queued ≠ []) :
    roster.kernel.next .rqHead ≠ .rqHead := by
  obtain ⟨p, rest, queue⟩ := List.exists_cons_of_ne_nil some_
  have ring := consistent.rq.links
  -- The first link of the ring leads to the first task.
  rw [queue, List.map_cons, List.cons_append, List.isChain_cons_cons] at ring
  rw [ring.1.1]
  exact ListNode.noConfusion

/-- `__schedule` up to the switch changes neither the tasks nor their counts. -/
theorem schedule_step (consistent : Consistent image roster) {fuel : Nat} (fueled : nrTask < fuel)
    {roster' : Roster} (took : Roster.step image fuel .schedule roster = some roster') :
    Consistent image roster' ∧ roster'.forked = roster.forked ∧
      roster'.kernel.preemptCount = roster.kernel.preemptCount := by
  obtain ⟨some_, kernel, switched, rfl⟩ := Roster.step_schedule took
  -- With a task in the queue the scheduler picks one.
  obtain ⟨kernel', switched', counts, kept⟩ :=
    consistent.schedule fueled (consistent.queued_ne_nil some_)
  obtain rfl : kernel = kernel' := Option.some.inj (switched.symm.trans switched')
  have awake : roster.kernel.state roster.kernel.current = 0 :=
    consistent.state _ consistent.current
  simp only [awake, ne_eq, not_true_eq_false, if_false, true_and]
  exact ⟨kept, counts⟩

/-- Every operation keeps the table. -/
theorem step (consistent : Consistent image roster) {fuel : Nat} (fueled : nrTask < fuel)
    {op : SchedOp} {roster' : Roster} (took : Roster.step image fuel op roster = some roster') :
    Consistent image roster' := by
  cases op with
  | run t =>
    obtain ⟨task, rfl⟩ := Roster.step_run took
    exact { consistent with current := task }
  | fork cloneFlags fn arg =>
    obtain ⟨_, forked, kept⟩ := consistent.fork fuel cloneFlags fn arg
    rw [took] at forked
    cases forked
    exact kept
  | tick =>
    cases took
    exact consistent.tick
  | schedule => exact (consistent.schedule_step fueled took).1
  | finish =>
    cases took
    exact { consistent with }
  | dequeue t =>
    obtain ⟨member, rfl⟩ := Roster.step_dequeue took
    exact consistent.dequeue member
  | wake t =>
    obtain ⟨⟨task, idle⟩, rfl⟩ := Roster.step_wake took
    exact consistent.wake task idle

end Consistent

/-! ### Every history -/

/-- The static initialisers: `init_task` alone, linked to itself, in the first slot. -/
structure Loaded (image : Image) (k : Kernel) : Prop where
  apart : Apart image k.pages
  gTask : ∀ i, k.gTask i = if i.val = 0 then image.initTask else 0
  nextTask : k.nextTask image.initTask = image.initTask
  prevTask : k.prevTask image.initTask = image.initTask
  pid : k.pid image.initTask = 0
  counter : k.counter image.initTask = defCounter
  state : k.state image.initTask = taskRunning
  current : k.current = image.initTask

/-- The history of a kernel begins when `sched_init` is done. -/
def Roster.boot (k : Kernel) : Roster := { kernel := k.schedInit, forked := [], queued := [] }

/-- The table is in order before the first operation. -/
theorem Loaded.consistent {image : Image} {k : Kernel} (loaded : Loaded image k) :
    Consistent image (Roster.boot k) := by
  -- There is one task, and the run queue has been made empty.
  have alone : ∀ t, t ∈ (Roster.boot k).tasks image ↔ t = image.initTask := by
    intro t
    exact List.mem_singleton
  have ahead : (Roster.boot k).kernel.next .rqHead = .rqHead := by
    simp [Roster.boot, Kernel.schedInit]
  have behind : (Roster.boot k).kernel.prev .rqHead = .rqHead := by
    simp [Roster.boot, Kernel.schedInit]
  -- Both lists are empty rings, and slot zero holds the one task.
  refine ⟨loaded.apart, LinkRing.empty loaded.nextTask loaded.prevTask,
    LinkRing.empty ahead behind, by simp [Roster.boot], rfl, ?_, ?_, by simp [Roster.boot],
    (alone _).mpr loaded.current, ?_, by simp [Roster.boot], ?_, ?_⟩
  · intro t task
    have first := loaded.gTask ⟨0, by decide⟩
    rw [if_pos rfl] at first
    exact ⟨⟨0, by decide⟩, first.trans ((alone t).mp task).symm⟩
  · intro i filled
    have here : (Roster.boot k).kernel.gTask i = if i.val = 0 then image.initTask else 0 :=
      loaded.gTask i
    -- Only slot zero is filled.
    by_cases zero : i.val = 0
    · rw [if_pos zero] at here
      rw [here, zero]
      exact ⟨(alone _).mpr rfl, loaded.pid⟩
    · rw [if_neg zero] at here
      exact absurd here filled
  · intro t task
    rw [(alone t).mp task]
    show (k.counter image.initTask).toNat ≤ 12
    rw [loaded.counter]
    decide
  · intro t task
    rw [(alone t).mp task]
    exact loaded.state
  · exact (loaded.gTask ⟨0, by decide⟩).trans (if_pos rfl)

/-- A process table that some history of the kernel leads to. -/
def Roster.Reached (image : Image) (roster : Roster) : Prop :=
  ∃ k fuel ops, Loaded image k ∧ nrTask < fuel ∧
    Transition.run (Roster.step image fuel) ops (Roster.boot k) = some roster

/-- The table is in order wherever a history leads. -/
theorem Roster.Reached.consistent {image : Image} {roster : Roster}
    (reached : roster.Reached image) : Consistent image roster := by
  -- Every operation keeps the table.
  obtain ⟨k, fuel, ops, loaded, fueled, ran⟩ := reached
  exact Transition.run_invariant (fun _ _ _ held took => held.step fueled took) loaded.consistent ran

/--
In every state of every history: the list of tasks reads forward as `init_task` and the forked
tasks in fork order, and backward in reverse; `g_task` holds exactly these tasks, each under its
own pid; the run queue is a well-formed circular list of different forked tasks, as long as
`nr_running` says; and a queue that is not empty can be scheduled.
-/
theorem processTable_consistent {image : Image} {k : Kernel} (loaded : Loaded image k) {fuel : Nat}
    (fueled : nrTask < fuel) {ops : List SchedOp} {roster : Roster}
    (ran : Transition.run (Roster.step image fuel) ops (Roster.boot k) = some roster) :
    (LinkRing.Reads roster.kernel.nextTask image.initTask roster.forked ∧
      LinkRing.Reads roster.kernel.prevTask image.initTask roster.forked.reverse ∧
      (roster.tasks image).Nodup) ∧
    ((∀ i, roster.kernel.gTask i ≠ 0 ↔
        ∃ p ∈ roster.tasks image, roster.kernel.pid p = BitVec.ofNat 32 i.val) ∧
      (∀ p ∈ roster.tasks image, ∃ i, roster.kernel.pid p = BitVec.ofNat 32 i.val ∧
        roster.kernel.gTask i = p) ∧
      ∀ p ∈ roster.tasks image, ∀ q ∈ roster.tasks image,
        roster.kernel.pid p = roster.kernel.pid q → p = q) ∧
    (LinkRing roster.kernel.next roster.kernel.prev .rqHead (roster.queued.map .runList) ∧
      roster.queued.Nodup ∧ (∀ p ∈ roster.queued, p ∈ roster.forked) ∧
      image.initTask ∉ roster.queued ∧
      roster.kernel.nrRunning.toNat = roster.queued.length) ∧
    (roster.kernel.next .rqHead ≠ .rqHead →
      ∃ roster', Roster.step image fuel .schedule roster = some roster') := by
  have consistent : Consistent image roster :=
    Transition.run_invariant (fun _ _ _ held took => held.step fueled took) loaded.consistent ran
  have initApart := (List.nodup_cons.mp consistent.pcb.nodup).1
  have queueNodup := List.Nodup.of_map _ (List.nodup_cons.mp consistent.rq.nodup).2
  -- The number of a slot is less than its type holds, so it names the slot.
  have pids : ∀ i j : Fin nrTask, BitVec.ofNat 32 i.val = BitVec.ofNat 32 j.val → i = j := by
    intro i j same
    have numbers := congrArg BitVec.toNat same
    have boundI : i.val < 128 := i.isLt
    have boundJ : j.val < 128 := j.isLt
    rw [BitVec.toNat_ofNat, BitVec.toNat_ofNat] at numbers
    exact Fin.ext (by omega)
  -- What is claimed of the lists is what the table says of them.
  refine ⟨⟨consistent.pcb.forward, consistent.pcb.backward, consistent.pcb.nodup⟩,
    ⟨?_, ?_, ?_⟩, ⟨consistent.rq, queueNodup, consistent.known,
      fun queued => initApart (consistent.known _ queued), ?_⟩, ?_⟩
  · intro i
    constructor
    · intro filled
      exact ⟨_, (consistent.used i filled).1, (consistent.used i filled).2⟩
    · rintro ⟨p, task, named⟩
      obtain ⟨j, same, number⟩ := consistent.gTask_pid task
      rw [pids i j (named.symm.trans number), same]
      exact consistent.ne_zero task
  · intro p task
    obtain ⟨i, same, number⟩ := consistent.gTask_pid task
    exact ⟨i, number, same⟩
  · intro p taskP q taskQ same
    obtain ⟨i, slotP, numberP⟩ := consistent.gTask_pid taskP
    obtain ⟨j, slotQ, numberQ⟩ := consistent.gTask_pid taskQ
    rw [← slotP, ← slotQ, pids i j (numberP.symm.trans (same.trans numberQ))]
  · -- The queue is shorter than the table of slots, so its length fits.
    have bound := consistent.length_le
    have shorter := (List.subperm_of_subset queueNodup consistent.known).length_le
    have slots : nrTask = 128 := rfl
    rw [Roster.tasks, List.length_cons] at bound
    rw [consistent.running, BitVec.toNat_ofNat]
    omega
  · intro some_
    obtain ⟨kernel, switched, _, _⟩ := consistent.schedule fueled (consistent.queued_ne_nil some_)
    exact ⟨_, by simp only [Roster.step, if_neg some_, switched]; rfl⟩

/-- With all pages free the first forks all succeed, each taking a page at the lower end. -/
theorem Loaded.forks {image : Image} {k : Kernel} (loaded : Loaded image k)
    (clear : ∀ i, k.pages.memMap i = 0) {fuel : Nat} (fueled : nrTask < fuel)
    (cloneFlags fn arg : U64) : ∀ n < nrTask,
      ∃ roster, Transition.run (Roster.step image fuel)
          (List.replicate n (.fork cloneFlags fn arg)) (Roster.boot k) = some roster ∧
        roster.forked.length = n ∧ roster.queued.length = n ∧
        ∀ i : Fin nrPages, n ≤ i.val → roster.kernel.pages.memMap i = 0 := by
  intro n small
  -- Each fork takes the lowest free page, so the pages from the count on stay free.
  induction n with
  | zero => exact ⟨Roster.boot k, rfl, rfl, rfl, fun i _ => clear i⟩
  | succ n ih =>
    obtain ⟨roster, ran, forked, queued, free⟩ := ih (Nat.lt_of_succ_lt small)
    have consistent : Consistent image roster :=
      Transition.run_invariant (fun _ _ _ held took => held.step fueled took) loaded.consistent ran
    have fits : n < nrPages := Nat.lt_trans (Nat.lt_of_succ_lt small) (by decide)
    obtain ⟨first, below, found⟩ := PageAlloc.firstFree_exists (free ⟨n, fits⟩ (Nat.le_refl n))
    obtain ⟨pid, kernel, result, pages⟩ := consistent.fork_succeeds cloneFlags fn arg
      ⟨_, free ⟨n, fits⟩ (Nat.le_refl n)⟩ (by omega)
    -- One more fork succeeds, as page and pid are there.
    refine ⟨{ kernel, forked := roster.forked ++ [kernel.gTask pid],
              queued := kernel.gTask pid :: roster.queued }, ?_, ?_, ?_, fun i above => ?_⟩
    · rw [List.replicate_succ', Transition.run_append, ran, Option.bind_some, Transition.run_cons,
        Roster.step]
      simp only [result]
      rfl
    · rw [List.length_append, forked]
      rfl
    · rw [List.length_cons, queued]
    · -- The page that was taken is not above the lowest free one.
      have other : i ≠ first := by
        have low : first.val ≤ n := below
        rintro rfl
        omega
      show kernel.pages.memMap i = 0
      rw [pages, PageAlloc.getFreePage_some found]
      exact (PageAlloc.setMap_other _ 1 other).trans (free i (by omega))

theorem exampleKernel_loaded : Loaded exampleImage exampleKernel :=
  ⟨exampleKernel_homes.toApart, fun _ => rfl, rfl, rfl, rfl, rfl, rfl, rfl⟩

/--
Three threads are forked, the last by the second of them, which runs for a tick. The first leaves
the queue, comes back to it, and is scheduled.
-/
def exampleHistory : List SchedOp :=
  [.fork pfKthread 0x80200600 0, .fork pfKthread 0x80200600 1, .run 0x80301000,
    .fork pfKthread 0x80200600 2, .tick, .dequeue 0x80300000, .wake 0x80300000, .schedule, .finish]

/-- The tasks, the queue and the slices after that, of which each fork has given half away. -/
theorem exampleHistory_run :
    ∃ roster, Transition.run (Roster.step exampleImage 129) exampleHistory
        (Roster.boot exampleKernel) = some roster ∧
      roster.forked = [0x80300000, 0x80301000, 0x80302000] ∧
      roster.queued = [0x80300000, 0x80302000, 0x80301000] ∧
      (roster.tasks exampleImage).map roster.kernel.counter = [2, 5, 0, 2] := by
  have ran : (Transition.run (Roster.step exampleImage 129) exampleHistory
        (Roster.boot exampleKernel)).map (fun roster =>
          (roster.forked, roster.queued, (roster.tasks exampleImage).map roster.kernel.counter)) =
      some ([0x80300000, 0x80301000, 0x80302000], [0x80300000, 0x80302000, 0x80301000],
        [2, 5, 0, 2]) := by
    decide +kernel
  obtain ⟨roster, reached, state⟩ := Option.map_eq_some_iff.mp ran
  simp only [Prod.mk.injEq] at state
  exact ⟨roster, reached, state⟩

/-- After that history the lists, the table of pids and the count are those of its tasks. -/
theorem processTable_consistent_history :
    ∃ roster, Transition.run (Roster.step exampleImage 129) exampleHistory
        (Roster.boot exampleKernel) = some roster ∧
      LinkRing.Reads roster.kernel.nextTask exampleImage.initTask
        [0x80300000, 0x80301000, 0x80302000] ∧
      LinkRing.Reads roster.kernel.prevTask exampleImage.initTask
        [0x80302000, 0x80301000, 0x80300000] ∧
      (∃ i, roster.kernel.gTask i = 0x80302000) ∧
      LinkRing roster.kernel.next roster.kernel.prev .rqHead
        [.runList 0x80300000, .runList 0x80302000, .runList 0x80301000] ∧
      roster.kernel.nrRunning.toNat = 3 ∧
      ∃ roster', Roster.step exampleImage 129 .schedule roster = some roster' := by
  obtain ⟨roster, ran, forked, queued, -⟩ := exampleHistory_run
  have fueled : nrTask < 129 := by decide
  obtain ⟨⟨forward, backward, -⟩, ⟨-, slots, -⟩, ⟨ring, -, -, -, running⟩, schedules⟩ :=
    processTable_consistent exampleKernel_loaded fueled ran
  rw [forked] at forward backward
  rw [queued] at ring running
  -- The last thread has a slot, and the queue is not empty.
  have last : (0x80302000 : U64) ∈ roster.tasks exampleImage := by
    rw [Roster.tasks, forked]
    decide
  obtain ⟨i, -, slot⟩ := slots _ last
  have some_ : roster.kernel.next .rqHead ≠ .rqHead := by
    have consistent : Consistent exampleImage roster :=
      Transition.run_invariant (fun _ _ _ held took => held.step fueled took)
        exampleKernel_loaded.consistent ran
    exact consistent.rqHead_ne (by rw [queued]; exact List.cons_ne_nil _ _)
  exact ⟨roster, ran, forward, backward, ⟨i, slot⟩, ring, running, schedules some_⟩

end Benos
