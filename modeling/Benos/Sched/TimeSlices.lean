import Mathlib.Algebra.BigOperators.Group.List.Basic
import Mathlib.Algebra.Ring.Int.Defs
import Benos.Sched.ProcessTable

/-!
Time slices: what is left to all tasks together, and to the descendants of each of them.

A fork splits a slice, a tick uses some of it, and only a reset hands out new ones.
-/

namespace Benos

/-- The time left to some of the tasks, counted together. -/
def share (tasks : List U64) (counter : U64 → BitVec 32) (member : U64 → Prop)
    [DecidablePred member] : Int :=
  (tasks.map fun t => if member t then (counter t).toInt else 0).sum

/-- The time left to all tasks together. -/
def Roster.total (image : Image) (roster : Roster) : Int :=
  share (roster.tasks image) roster.kernel.counter fun _ => True

/-- A sum over different tasks changes by what changes at one of them. -/
theorem sum_change {tasks : List U64} (nodup : tasks.Nodup) {p : U64} (known : p ∈ tasks)
    (left right : U64 → Int) (others : ∀ t ∈ tasks, t ≠ p → right t = left t) :
    (tasks.map right).sum = (tasks.map left).sum - left p + right p := by
  -- Without that one task the two sums are the same.
  have same : (tasks.erase p).map right = (tasks.erase p).map left :=
    List.map_congr_left fun t inside =>
      others t (List.mem_of_mem_erase inside) ((nodup.mem_erase_iff.mp inside).1)
  have before := List.sum_map_erase left known
  have after := List.sum_map_erase right known
  rw [same] at after
  omega

/-- A share depends on the counters of the tasks alone. -/
theorem share_congr {tasks : List U64} {left right : U64 → BitVec 32}
    (same : ∀ t ∈ tasks, right t = left t) (member : U64 → Prop) [DecidablePred member] :
    share tasks right member = share tasks left member := by
  -- Each term is the same.
  rw [share, share]
  exact congrArg List.sum (List.map_congr_left fun t known => by rw [same t known])

/-- A share depends on which of the tasks are counted, and on no others. -/
theorem share_members (tasks : List U64) (counter : U64 → BitVec 32) (left right : U64 → Prop)
    [DecidablePred left] [DecidablePred right] (same : ∀ t ∈ tasks, left t ↔ right t) :
    share tasks counter left = share tasks counter right := by
  -- Each term is counted in both or in neither.
  rw [share, share]
  exact congrArg List.sum (List.map_congr_left fun t known => if_congr (same t known) rfl rfl)

/-! ### What an operation does to the counters -/

/-- Halving a slice and rounding up the other half gives the slice again. -/
theorem counter_halves {c : BitVec 32} (small : c.toNat ≤ 12) :
    ((c + 1).sshiftRight 1).toInt + (c.sshiftRight 1).toInt = c.toInt := by
  obtain ⟨n, rfl, bound⟩ : ∃ n, c = BitVec.ofNat 32 n ∧ n ≤ 12 := ⟨c.toNat, by simp, small⟩
  -- The counters are few enough to look at each.
  have all : ∀ n ≤ 12, ((BitVec.ofNat 32 n + 1).sshiftRight 1).toInt +
      ((BitVec.ofNat 32 n).sshiftRight 1).toInt = (BitVec.ofNat 32 n).toInt := by
    decide
  exact all n bound

/-- Counting down stops at zero. -/
theorem counter_down {c : BitVec 32} (small : c.toNat ≤ 12) :
    ((if (c - 1).sle 0 then 0 else c - 1) : BitVec 32).toInt =
      c.toInt - if 0 < c.toInt then 1 else 0 := by
  -- A time slice has at most twelve ticks, so there are thirteen cases.
  obtain ⟨n, rfl, bound⟩ : ∃ n, c = BitVec.ofNat 32 n ∧ n ≤ 12 := ⟨c.toNat, by simp, small⟩
  have all : ∀ n ≤ 12, ((if (BitVec.ofNat 32 n - 1).sle 0 then 0 else BitVec.ofNat 32 n - 1) :
      BitVec 32).toInt = (BitVec.ofNat 32 n).toInt - if 0 < (BitVec.ofNat 32 n).toInt then 1 else 0 := by
    decide
  exact all n bound

/-- A fork that splits the slice of the running task: parent and child share it. -/
structure Splits (image : Image) (roster next : Roster) (child : U64) : Prop where
  fresh : child ∉ roster.tasks image
  forked : next.forked = roster.forked ++ [child]
  others : ∀ t ∈ roster.tasks image, t ≠ roster.kernel.current →
    next.kernel.counter t = roster.kernel.counter t
  halves : (next.kernel.counter child).toInt + (next.kernel.counter roster.kernel.current).toInt =
    (roster.kernel.counter roster.kernel.current).toInt

/-- An operation that leaves the tasks and their counters alone. -/
structure SameSlices (image : Image) (roster next : Roster) : Prop where
  forked : next.forked = roster.forked
  counter : ∀ t ∈ roster.tasks image, next.kernel.counter t = roster.kernel.counter t

/-- A tick for the running task. -/
structure Ticks (roster next : Roster) : Prop where
  forked : next.forked = roster.forked
  others : ∀ t, t ≠ roster.kernel.current → next.kernel.counter t = roster.kernel.counter t
  current : (next.kernel.counter roster.kernel.current).toInt =
    (roster.kernel.counter roster.kernel.current).toInt -
      if 0 < (roster.kernel.counter roster.kernel.current).toInt then 1 else 0

/-- A reset, which waits until no queued task has any time left. -/
structure Resets (image : Image) (roster next : Roster) : Prop where
  tired : ∀ p ∈ roster.queued, roster.kernel.counter p = 0
  forked : next.forked = roster.forked
  slices : ∀ t ∈ roster.forked, next.kernel.counter t = defCounter + roster.kernel.priority t
  first : next.kernel.counter image.initTask = roster.kernel.counter image.initTask

/-- What an operation does to the time slices. -/
def SliceEffect (image : Image) (roster next : Roster) : SchedOp → Prop
  | .fork _ _ _ => SameSlices image roster next ∨ ∃ child, Splits image roster next child
  | .tick => Ticks roster next
  | .schedule =>
    (∃ p ∈ roster.queued, roster.kernel.counter p ≠ 0) ∧ SameSlices image roster next ∨
      Resets image roster next
  | _ => SameSlices image roster next

namespace Consistent

variable {image : Image} {roster next : Roster}

/-- `do_fork` fails, or splits the slice of its caller. -/
theorem fork_slices (consistent : Consistent image roster) {fuel : Nat} {cloneFlags fn arg : U64}
    (took : Roster.step image fuel (.fork cloneFlags fn arg) roster = some next) :
    SameSlices image roster next ∨ ∃ child, Splits image roster next child := by
  simp only [Roster.step] at took
  rcases roster.kernel.doFork_cases image cloneFlags fn arg with
    ⟨_, result⟩ | ⟨nonzero, _, result⟩ | ⟨pid, nonzero, _, result⟩
  · simp only [result, Option.some.injEq] at took
    subst took
    exact Or.inl ⟨rfl, fun _ _ => rfl⟩
  · -- The page that is lost held no task.
    obtain ⟨fresh, _, _⟩ := consistent.forkPage nonzero
    simp only [result, Option.some.injEq] at took
    subst took
    refine Or.inl ⟨rfl, fun t task => Function.update_of_ne ?_ _ _⟩
    rintro rfl
    exact fresh task
  · obtain ⟨fresh, _, _⟩ := consistent.forkPage nonzero
    simp only [result, Option.some.injEq] at took
    subst took
    let p := roster.kernel.pages.getFreePage.1
    let c := roster.kernel.counter roster.kernel.current
    have child : (roster.kernel.forkPage.forkTask image cloneFlags fn arg p pid).gTask pid = p :=
      Function.update_self pid _ roster.kernel.gTask
    have other : ∀ t ∈ roster.tasks image, t ≠ p := by
      rintro t task rfl
      exact fresh task
    have parent : roster.kernel.current ≠ p := other _ consistent.current
    -- Clearing the new task leaves the counter of its parent, which is then written last.
    have slice : Function.update roster.kernel.counter p 0 roster.kernel.current = c :=
      Function.update_of_ne parent _ _
    have counters : (roster.kernel.forkPage.forkTask image cloneFlags fn arg p pid).counter =
        Function.update (Function.update (Function.update roster.kernel.counter p 0) p
          ((c + 1).sshiftRight 1)) roster.kernel.current (c.sshiftRight 1) := by
      rw [← slice]
      rfl
    refine Or.inr ⟨p, fresh, by dsimp only; rw [child], fun t task apart => ?_, ?_⟩
    · dsimp only
      rw [counters, Function.update_of_ne apart, Function.update_of_ne (other t task),
        Function.update_of_ne (other t task)]
    · dsimp only
      rw [counters, Function.update_self, Function.update_of_ne parent.symm, Function.update_self]
      exact counter_halves (consistent.counter _ consistent.current)

/-- The tick takes one from the running task, if it has any time left. -/
theorem tick_slices (consistent : Consistent image roster) :
    Ticks roster { roster with kernel := roster.kernel.tickHandlePeriodic } := by
  have written : roster.kernel.tickHandlePeriodic.counter =
      Function.update roster.kernel.counter roster.kernel.current
        (if (roster.kernel.counter roster.kernel.current - 1).sle 0 then 0
          else roster.kernel.counter roster.kernel.current - 1) := by
    rw [Kernel.tickHandlePeriodic]
    split <;> rfl
  refine ⟨rfl, fun t apart => ?_, ?_⟩
  · dsimp only
    rw [written, Function.update_of_ne apart]
  · dsimp only
    -- The counter is small, so counting down does not wrap.
    rw [written, Function.update_self]
    exact counter_down (consistent.counter _ consistent.current)

/-- The switch of `__schedule` leaves the slices alone, or resets them all. -/
theorem schedule_slices (consistent : Consistent image roster) {fuel : Nat} (fueled : nrTask < fuel)
    (took : Roster.step image fuel .schedule roster = some next) :
    (∃ p ∈ roster.queued, roster.kernel.counter p ≠ 0) ∧ SameSlices image roster next ∨
      Resets image roster next := by
  have awake : roster.kernel.state roster.kernel.current = 0 :=
    consistent.state _ consistent.current
  have slots : nrTask = 128 := rfl
  obtain ⟨turns, fuelTurns⟩ : ∃ n, fuel = n + 2 := ⟨fuel - 2, by omega⟩
  obtain ⟨some_, switched, ran, rfl⟩ := Roster.step_schedule took
  -- Whatever the search ends with, only its counters matter here.
  have switch {chosen : U64} {kernel : Kernel}
      (picked : roster.kernel.pickNextTask image fuel fuel = some (chosen, kernel)) :
      switched.counter = kernel.counter := by
    simp only [Kernel.scheduleSwitch, awake, ne_eq, not_true_eq_false, if_false, picked,
      Option.some.injEq] at ran
    subst ran
    split <;> rfl
  rcases consistent.pickNextTask_cases (consistent.queued_ne_nil some_) fueled with
    ⟨left, chosen, _, picked⟩ | ⟨tired, counter, chosen, inside, outside, _, _, _, picked⟩
  · have counters := switch (by rw [← picked (turns + 1), ← fuelTurns])
    exact Or.inl ⟨left, rfl, fun t _ => congrFun counters t⟩
  · have counters := switch (by rw [← picked turns, ← fuelTurns])
    have apart := (List.nodup_cons.mp consistent.pcb.nodup).1
    exact Or.inr ⟨tired, rfl, fun t task => (congrFun counters t).trans (inside t task),
      (congrFun counters _).trans (outside _ apart)⟩

/-- Every operation does to the slices what is said of it. -/
theorem slices (consistent : Consistent image roster) {fuel : Nat} (fueled : nrTask < fuel)
    {op : SchedOp} (took : Roster.step image fuel op roster = some next) :
    SliceEffect image roster next op := by
  cases op with
  | run t =>
    obtain ⟨-, rfl⟩ := Roster.step_run took
    exact ⟨rfl, fun _ _ => rfl⟩
  -- Only forks, ticks and calls of the scheduler touch a counter.
  | fork cloneFlags fn arg => exact consistent.fork_slices took
  | tick =>
    cases took
    exact consistent.tick_slices
  | schedule => exact consistent.schedule_slices fueled took
  | finish =>
    cases took
    exact ⟨rfl, fun _ _ => rfl⟩
  | dequeue t =>
    obtain ⟨-, rfl⟩ := Roster.step_dequeue took
    exact ⟨rfl, fun _ _ => rfl⟩
  | wake t =>
    obtain ⟨-, rfl⟩ := Roster.step_wake took
    exact ⟨rfl, fun _ _ => rfl⟩

end Consistent

/-! ### What that means for the time left -/

section Shares

variable {image : Image} {roster next : Roster}

/-- Parent and child together have what the parent had. -/
theorem Splits.share {child : U64} (splits : Splits image roster next child)
    (consistent : Consistent image roster) (member : U64 → Prop) [DecidablePred member]
    (family : member child ↔ member roster.kernel.current) :
    share (next.tasks image) next.kernel.counter member =
      share (roster.tasks image) roster.kernel.counter member := by
  -- Of the older tasks only the parent changes.
  have changed := sum_change consistent.pcb.nodup consistent.current
    (fun t => if member t then (roster.kernel.counter t).toInt else 0)
    (fun t => if member t then (next.kernel.counter t).toInt else 0)
    fun t task apart => by rw [splits.others t task apart]
  have tasks : next.tasks image = roster.tasks image ++ [child] := by
    rw [Roster.tasks, splits.forked]
    rfl
  have halves := splits.halves
  simp only [Benos.share, tasks, List.map_append, List.sum_append, List.map_cons, List.map_nil,
    List.sum_cons, List.sum_nil]
  rw [← Roster.tasks] at changed
  rw [changed]
  by_cases inside : member roster.kernel.current
  · simp only [if_pos inside, if_pos (family.mpr inside)]
    omega
  · simp only [if_neg inside, if_neg fun both => inside (family.mp both)]
    omega

/-- A tick takes one from the shares that the running task is part of. -/
theorem Ticks.share (ticks : Ticks roster next) (consistent : Consistent image roster)
    (member : U64 → Prop) [DecidablePred member] :
    share (next.tasks image) next.kernel.counter member =
      share (roster.tasks image) roster.kernel.counter member -
        if member roster.kernel.current ∧ 0 < (roster.kernel.counter roster.kernel.current).toInt
        then 1 else 0 := by
  -- Only the counter of the running task changes, and the sum with it.
  have changed := sum_change consistent.pcb.nodup consistent.current
    (fun t => if member t then (roster.kernel.counter t).toInt else 0)
    (fun t => if member t then (next.kernel.counter t).toInt else 0)
    fun t _ apart => by rw [ticks.others t apart]
  have tasks : next.tasks image = roster.tasks image := by
    rw [Roster.tasks, ticks.forked]
    rfl
  simp only [Benos.share, tasks]
  rw [← Roster.tasks] at changed
  rw [changed, ticks.current]
  by_cases inside : member roster.kernel.current
  · by_cases positive : 0 < (roster.kernel.counter roster.kernel.current).toInt
    · rw [if_pos inside, if_pos inside, if_pos positive, if_pos ⟨inside, positive⟩]
      omega
    · rw [if_pos inside, if_pos inside, if_neg positive, if_neg fun both => positive both.2]
      omega
  · -- A task outside of the family does not count.
    rw [if_neg inside, if_neg inside, if_neg fun both => inside both.1]
    omega

/-- What leaves the slices alone leaves every share alone. -/
theorem SameSlices.share (same : SameSlices image roster next) (member : U64 → Prop)
    [DecidablePred member] :
    share (next.tasks image) next.kernel.counter member =
      share (roster.tasks image) roster.kernel.counter member := by
  -- The tasks are the same, and so are their counters.
  have tasks : next.tasks image = roster.tasks image := by
    rw [Roster.tasks, same.forked]
    rfl
  rw [tasks]
  exact share_congr same.counter member

end Shares

/-! ### Families -/

/-- Which task each one descends from, and the ticks each family has used. -/
structure Families where
  founder : U64 → U64
  used : U64 → Int

namespace Families

/-- At first every task founds a family of its own. -/
def start : Families := { founder := id, used := fun _ => 0 }

/-- A task that was not there before joins the family of the running one, which pays for ticks. -/
def watch (image : Image) (op : SchedOp) (before _ : Roster) (families : Families) : Families :=
  match op with
  | .fork _ _ _ =>
    { families with
      founder := fun t =>
        if t ∈ before.tasks image then families.founder t
        else families.founder before.kernel.current }
  | .tick =>
    if 0 < (before.kernel.counter before.kernel.current).toInt then
      { families with
        used := Function.update families.used (families.founder before.kernel.current)
          (families.used (families.founder before.kernel.current) + 1) }
    else families
  | _ => families

end Families

/-- Each family has used and has left together what its founder began with. -/
structure Conserved (image : Image) (start : Roster) (state : Roster × Families) : Prop where
  consistent : Consistent image state.1
  founder : ∀ t ∈ state.1.tasks image, state.2.founder t ∈ start.tasks image
  share : ∀ f ∈ start.tasks image,
    share (state.1.tasks image) state.1.kernel.counter (fun t => state.2.founder t = f) +
      state.2.used f = (start.kernel.counter f).toInt

namespace Conserved

variable {image : Image} {start : Roster} {state next : Roster × Families}

/-- Before the first operation every family is its founder. -/
theorem initial (consistent : Consistent image start) :
    Conserved image start (start, Families.start) := by
  refine ⟨consistent, fun t task => task, fun f task => ?_⟩
  -- All terms but that of the founder are zero.
  have alone := sum_change consistent.pcb.nodup task (fun _ => 0)
    (fun t => if t = f then (start.kernel.counter t).toInt else 0)
    fun t _ apart => if_neg apart
  have zero : ((image.initTask :: start.forked).map fun _ => (0 : Int)).sum = 0 := by simp
  rw [zero, if_pos rfl] at alone
  show (((image.initTask :: start.forked).map fun t => if t = f then
    (start.kernel.counter t).toInt else 0).sum : Int) + 0 = _
  omega

section Step

variable {roster roster' : Roster} {families families' : Families}
  (conserved : Conserved image start (roster, families))

include conserved

/-- Only the founders of tasks matter. -/
theorem congr (older : ∀ t ∈ roster.tasks image, families'.founder t = families.founder t)
    (used : families'.used = families.used) : Conserved image start (roster, families') := by
  refine ⟨conserved.consistent, fun t task => ?_, fun f task => ?_⟩
  · rw [older t task]
    exact conserved.founder t task
  · have members := share_members (roster.tasks image) roster.kernel.counter
      (fun t => families'.founder t = f) (fun t => families.founder t = f)
      fun t task => by rw [older t task]
    show Benos.share _ _ _ + families'.used f = _
    rw [members, used]
    exact conserved.share f task

/-- What leaves the slices and the families alone leaves the shares alone. -/
theorem keeps (table : Consistent image roster') (same : SameSlices image roster roster') :
    Conserved image start (roster', families) := by
  have tasks : roster'.tasks image = roster.tasks image := Roster.tasks_congr same.forked
  refine ⟨table, fun t task => conserved.founder t (tasks ▸ task), fun f task => ?_⟩
  show Benos.share _ _ _ + _ = _
  rw [same.share]
  exact conserved.share f task

/-- A child joins the family of its parent, so its slice stays in the family. -/
theorem splits (table : Consistent image roster') {child : U64}
    (splits : Splits image roster roster' child)
    (older : ∀ t ∈ roster.tasks image, families'.founder t = families.founder t)
    (founded : families'.founder child = families.founder roster.kernel.current)
    (used : families'.used = families.used) : Conserved image start (roster', families') := by
  have consistent : Consistent image roster := conserved.consistent
  have before := conserved.congr older used
  refine ⟨table, fun t task => ?_, fun f task => ?_⟩
  · have task : t ∈ image.initTask :: roster'.forked := task
    rw [splits.forked, ← List.cons_append, List.mem_append, List.mem_singleton] at task
    rcases task with old | rfl
    · exact before.founder t old
    · rw [founded]
      exact conserved.founder _ consistent.current
  · -- Splitting within one family leaves its share as it was.
    have split := splits.share consistent (fun t => families'.founder t = f)
      (by rw [founded, older _ consistent.current])
    show Benos.share _ _ _ + families'.used f = _
    rw [split]
    exact before.share f task

/-- The tick is paid for by the family of the running task, if by any. -/
theorem ticks (table : Consistent image roster') (ticks : Ticks roster roster') :
    Conserved image start (roster', Families.watch image .tick roster roster' families) := by
  have tasks : roster'.tasks image = roster.tasks image := by
    rw [Roster.tasks, ticks.forked]
    rfl
  have founders : (Families.watch image .tick roster roster' families).founder =
      families.founder := by
    rw [Families.watch]
    split <;> rfl
  -- The founders stay the same, so what changes is one counter and one sum.
  refine ⟨table, fun t task => ?_, fun f task => ?_⟩
  · show Families.founder _ t ∈ _
    rw [founders]
    exact conserved.founder t (tasks ▸ task)
  · have before : Benos.share (roster.tasks image) roster.kernel.counter
        (fun t => families.founder t = f) + families.used f =
          (start.kernel.counter f).toInt := conserved.share f task
    have members := share_members (roster'.tasks image) roster'.kernel.counter
      (fun t => (Families.watch image .tick roster roster' families).founder t = f)
      (fun t => families.founder t = f) fun t _ => by rw [founders]
    show Benos.share _ _ _ + Families.used _ f = _
    rw [members, ticks.share conserved.consistent, Families.watch]
    by_cases positive : 0 < (roster.kernel.counter roster.kernel.current).toInt
    · rw [if_pos positive]
      -- What the running task loses is entered for its family.
      by_cases mine : families.founder roster.kernel.current = f
      · rw [if_pos ⟨mine, positive⟩, mine]
        dsimp only
        rw [Function.update_self]
        omega
      · rw [if_neg fun both => mine both.1]
        dsimp only
        rw [Function.update_of_ne (Ne.symm mine)]
        omega
    · -- An empty slice loses nothing.
      rw [if_neg positive, if_neg fun both => positive both.2]
      dsimp only
      omega

end Step

/-- An operation that hands out no new slices conserves every family's share. -/
theorem step (conserved : Conserved image start state) {fuel : Nat} (fueled : nrTask < fuel)
    {op : SchedOp}
    (kept : op = .schedule → ∃ p ∈ state.1.queued, state.1.kernel.counter p ≠ 0)
    (took : Transition.watched (Roster.step image fuel) (Families.watch image) op state =
      some next) : Conserved image start next := by
  obtain ⟨roster, families⟩ := state
  obtain ⟨roster', families'⟩ := next
  obtain ⟨stepped, rfl⟩ : Roster.step image fuel op roster = some roster' ∧
      families' = Families.watch image op roster roster' families := Transition.watched_some took
  have consistent : Consistent image roster := conserved.consistent
  have effect := consistent.slices fueled stepped
  have table := consistent.step fueled stepped
  cases op with
  | fork cloneFlags fn arg =>
    -- Older tasks keep their founder.
    have older : ∀ t ∈ roster.tasks image,
        (Families.watch image (.fork cloneFlags fn arg) roster roster' families).founder t =
          families.founder t := fun t task => if_pos task
    rcases effect with same | ⟨child, splits⟩
    · have tasks : roster'.tasks image = roster.tasks image := by
        rw [Roster.tasks, same.forked]
        rfl
      exact (conserved.keeps table same).congr (fun t task => older t (tasks ▸ task)) rfl
    · exact conserved.splits table splits older (if_neg splits.fresh) rfl
  | tick => exact conserved.ticks table effect
  | schedule =>
    rcases effect with ⟨_, same⟩ | resets
    · exact conserved.keeps table same
    · -- A reset would need every queued counter to be zero.
      obtain ⟨p, queued, left⟩ := kept rfl
      exact absurd (resets.tired p queued) left
  | run t => exact conserved.keeps table effect
  | finish => exact conserved.keeps table effect
  | dequeue t => exact conserved.keeps table effect
  | wake t => exact conserved.keeps table effect

end Conserved

/-! ### Every history -/

/-- Some queued task has time left whenever the scheduler is called: no slices are handed out. -/
def WithinEpoch (image : Image) (fuel : Nat) (start : Roster) (ops : List SchedOp) : Prop :=
  ∀ earlier later mid, ops = earlier ++ .schedule :: later →
    Transition.run (Roster.step image fuel) earlier start = some mid →
    ∃ p ∈ mid.queued, mid.kernel.counter p ≠ 0

/-- A task whose counter grows has been given a new slice, when no queued task had any time left. -/
theorem Consistent.grows {image : Image} {roster next : Roster}
    (consistent : Consistent image roster) {fuel : Nat} (fueled : nrTask < fuel) {op : SchedOp}
    (took : Roster.step image fuel op roster = some next) {t : U64} (task : t ∈ roster.tasks image)
    (grown : (roster.kernel.counter t).toInt < (next.kernel.counter t).toInt) :
    op = .schedule ∧ Resets image roster next := by
  have same {other : Roster} (slices : SameSlices image roster other)
      (grown : (roster.kernel.counter t).toInt < (other.kernel.counter t).toInt) : False := by
    rw [slices.counter t task] at grown
    exact absurd grown (lt_irrefl _)
  have effect := consistent.slices fueled took
  have table := consistent.step fueled took
  -- A fork halves, a tick takes, and only `schedule` gives.
  cases op with
  | fork cloneFlags fn arg =>
    rcases effect with slices | ⟨child, splits⟩
    · exact (same slices grown).elim
    · by_cases here : t = roster.kernel.current
      · -- The child has not less than nothing, so the parent has no more than before.
        subst here
        have forked : child ∈ next.tasks image := by
          rw [Roster.tasks, splits.forked]
          simp
        have positive := table.counter_toInt forked
        have halves := splits.halves
        omega
      · rw [splits.others t task here] at grown
        exact absurd grown (lt_irrefl _)
  | tick =>
    have ticks : Ticks roster next := effect
    by_cases here : t = roster.kernel.current
    · subst here
      rw [ticks.current] at grown
      split at grown <;> omega
    · rw [ticks.others t here] at grown
      exact absurd grown (lt_irrefl _)
  | schedule =>
    rcases effect with ⟨_, slices⟩ | resets
    · exact (same slices grown).elim
    · exact ⟨rfl, resets⟩
  | run t => exact (same effect grown).elim
  | finish => exact (same effect grown).elim
  | dequeue t => exact (same effect grown).elim
  | wake t => exact (same effect grown).elim

/-- What an operation uses of the time left: a tick uses one of the running task, if it has any. -/
def Roster.ticked (roster : Roster) : SchedOp → Int
  | .tick => if 0 < (roster.kernel.counter roster.kernel.current).toInt then 1 else 0
  | _ => 0

/-- The time left to all tasks does not grow but in a reset. -/
theorem Consistent.total_effect {image : Image} {roster next : Roster}
    (consistent : Consistent image roster) {fuel : Nat} (fueled : nrTask < fuel) {op : SchedOp}
    (took : Roster.step image fuel op roster = some next) :
    next.total image = roster.total image - roster.ticked op ∨
    op = .schedule ∧ Resets image roster next := by
  have effect := consistent.slices fueled took
  -- An operation that leaves the slices alone leaves the total alone.
  have keeps (same : SameSlices image roster next) : next.total image = roster.total image - 0 := by
    rw [Int.sub_zero]
    exact same.share fun _ => True
  cases op with
  | fork cloneFlags fn arg =>
    rcases effect with same | ⟨child, splits⟩
    · exact Or.inl (keeps same)
    · refine Or.inl ?_
      show next.total image = roster.total image - 0
      rw [Int.sub_zero]
      exact splits.share consistent (fun _ => True) Iff.rfl
  | tick =>
    have ticks : Ticks roster next := effect
    have counted := ticks.share consistent fun _ => True
    simp only [true_and] at counted
    exact Or.inl counted
  -- A reset is what `schedule` does when no queued task has time left.
  | schedule =>
    rcases effect with ⟨_, same⟩ | resets
    · exact Or.inl (keeps same)
    · exact Or.inr ⟨rfl, resets⟩
  | run t => exact Or.inl (keeps effect)
  | finish => exact Or.inl (keeps effect)
  | dequeue t => exact Or.inl (keeps effect)
  | wake t => exact Or.inl (keeps effect)

/--
In every state of every history no counter is negative, and each operation does to the slices what
is said of it: a fork keeps the total and splits the slice of its caller, a tick takes one from the
running task unless it has none left, and the total grows in a reset only, as does the counter of
any task. A reset comes only when every queued counter is zero. From there on until the next reset
each task and its descendants have left, together with the ticks they have used, exactly what that
task began with.
-/
theorem timeSlices_conserved {image : Image} {k : Kernel} (loaded : Loaded image k) {fuel : Nat}
    (fueled : nrTask < fuel) {ops : List SchedOp} {start : Roster}
    (ran : Transition.run (Roster.step image fuel) ops (Roster.boot k) = some start) :
    (∀ t ∈ start.tasks image, 0 ≤ (start.kernel.counter t).toInt) ∧
    (∀ op next, Roster.step image fuel op start = some next →
      SliceEffect image start next op ∧
      (next.total image = start.total image - start.ticked op ∨
        op = .schedule ∧ Resets image start next) ∧
      ∀ t ∈ start.tasks image, (start.kernel.counter t).toInt < (next.kernel.counter t).toInt →
        op = .schedule ∧ ∀ p ∈ start.queued, start.kernel.counter p = 0) ∧
    ∀ rest finish families, WithinEpoch image fuel start rest →
      Transition.run (Transition.watched (Roster.step image fuel) (Families.watch image)) rest
        (start, Families.start) = some (finish, families) →
      (∀ t ∈ finish.tasks image, families.founder t ∈ start.tasks image) ∧
      ∀ f ∈ start.tasks image,
        share (finish.tasks image) finish.kernel.counter (fun t => families.founder t = f) +
          families.used f = (start.kernel.counter f).toInt := by
  have consistent : Consistent image start :=
    Transition.run_invariant (fun _ _ _ held took => held.step fueled took) loaded.consistent ran
  refine ⟨fun t task => ?_, fun op next took => ⟨consistent.slices fueled took,
    consistent.total_effect fueled took, fun t task grown => ?_⟩,
    fun rest finish families epoch watched => ?_⟩
  · rw [consistent.counter_toInt task]
    exact Int.natCast_nonneg _
  · obtain ⟨schedule, resets⟩ := consistent.grows fueled took task grown
    exact ⟨schedule, resets.tired⟩
  · -- No step of the epoch is a reset, so every step conserves the families.
    let kept : SchedOp → Roster × Families → Prop := fun op state => op = .schedule →
      ∃ p ∈ state.1.queued, state.1.kernel.counter p ≠ 0
    have all : ∀ earlier op later mid, rest = earlier ++ op :: later →
        Transition.run (Transition.watched (Roster.step image fuel) (Families.watch image)) earlier
          (start, Families.start) = some mid → kept op mid :=
      fun earlier op later mid split before schedule =>
        epoch earlier later mid.1 (schedule ▸ split) (Transition.run_of_watched before)
    have conserved : Conserved image start (finish, families) :=
      Transition.run_invariant_on (fun _ _ _ held allowed took => held.step fueled allowed took)
        (.initial consistent) watched all
    exact ⟨conserved.founder, conserved.share⟩

/-- The first thread forks another one, uses a tick and gives way to it for a tick. -/
def exampleEpoch : List SchedOp :=
  [.fork pfKthread 0x80200600 3, .tick, .schedule, .finish, .run 0x80303000, .tick]

/-- When it gives way the new thread has time left. -/
theorem exampleEpoch_within {start : Roster}
    (ran : Transition.run (Roster.step exampleImage 129) exampleHistory
      (Roster.boot exampleKernel) = some start) :
    WithinEpoch exampleImage 129 start exampleEpoch := by
  have left : ((Transition.run (Roster.step exampleImage 129) exampleHistory
      (Roster.boot exampleKernel)).bind
        (Transition.run (Roster.step exampleImage 129) (exampleEpoch.take 2))).map
        (fun mid => (mid.queued.head?, mid.kernel.counter 0x80303000)) =
      some (some 0x80303000, 3) := by decide +kernel
  rw [ran, Option.bind_some] at left
  obtain ⟨mid, before, state⟩ := Option.map_eq_some_iff.mp left
  obtain ⟨first, counter⟩ := Prod.mk.inj state
  intro earlier later mid' split ran'
  -- There is one call of the scheduler, after two other operations.
  obtain rfl : earlier = exampleEpoch.take 2 := by
    rcases earlier with _ | ⟨_, _ | ⟨_, _ | ⟨_, _ | ⟨_, _ | ⟨_, _ | ⟨_, rest⟩⟩⟩⟩⟩⟩ <;>
      simp_all [exampleEpoch]
  obtain rfl : mid = mid' := Option.some.inj (before.symm.trans ran')
  refine ⟨0x80303000, List.mem_of_mem_head? first, ?_⟩
  rw [counter]
  decide

/-- The two have used two of the five ticks that the first thread had, and have three left. -/
theorem timeSlices_conserved_epoch :
    ∃ start finish families, Transition.run (Roster.step exampleImage 129) exampleHistory
        (Roster.boot exampleKernel) = some start ∧
      Transition.run (Transition.watched (Roster.step exampleImage 129)
        (Families.watch exampleImage)) exampleEpoch (start, Families.start) =
          some (finish, families) ∧
      families.used 0x80300000 = 2 ∧
      share (finish.tasks exampleImage) finish.kernel.counter
        (fun t => families.founder t = 0x80300000) = 3 ∧
      ∀ next, Roster.step exampleImage 129 .tick start = some next →
        next.total exampleImage = start.total exampleImage - start.ticked .tick := by
  obtain ⟨start, ran, forked, -, slices⟩ := exampleHistory_run
  have watched : ((Transition.run (Roster.step exampleImage 129) exampleHistory
      (Roster.boot exampleKernel)).bind fun start =>
        Transition.run (Transition.watched (Roster.step exampleImage 129)
          (Families.watch exampleImage)) exampleEpoch (start, Families.start)).map
        (fun state => state.2.used 0x80300000) = some 2 := by decide +kernel
  rw [ran, Option.bind_some] at watched
  obtain ⟨⟨finish, families⟩, watched, used⟩ := Option.map_eq_some_iff.mp watched
  obtain ⟨-, effects, shares⟩ :=
    timeSlices_conserved exampleKernel_loaded (show nrTask < 129 by decide) ran
  obtain ⟨-, family⟩ := shares _ finish families (exampleEpoch_within ran) watched
  -- The first thread began the epoch with five ticks.
  rw [Roster.tasks, forked] at slices family
  have five : start.kernel.counter 0x80300000 = 5 := (List.cons.inj (List.cons.inj slices).2).1
  have spent := family 0x80300000 (by decide)
  rw [five, show (5 : BitVec 32).toInt = 5 from rfl] at spent
  have two : families.used 0x80300000 = 2 := used
  refine ⟨start, finish, families, ran, watched, two, by omega, fun next took => ?_⟩
  rcases (effects .tick next took).2.1 with counted | ⟨schedule, -⟩
  · exact counted
  · cases schedule

end Benos
