import Benos.Sched.PreemptCount
import Mathlib.Data.Finset.Card

/-! What `__schedule` notes in the run queue about the switches that were made, over every run. -/

namespace Benos

/-! ### What is noted -/

namespace Kernel

/-- The two fields of the run queue that `__schedule` sets behind a switch. -/
def statistics (k : Kernel) : U64 × U64 := (k.nrSwitches, k.rqCurr)

variable {image : Image} {k after : Kernel}

/-- `reset_score` does not set them. -/
theorem resetScoreFrom_statistics {fuel : Nat} {p : U64}
    (reset : k.resetScoreFrom image fuel p = some after) : after.statistics = k.statistics := by
  induction fuel generalizing k p with
  | zero => cases reset
  | succ fuel ih =>
    rw [resetScoreFrom] at reset
    split at reset
    · cases reset
      rfl
    · -- Every round sets the counter and the need of one task.
      exact (ih reset).trans rfl

/-- `pick_next_task` does not set them. -/
theorem pickNextTask_statistics {loops fuel : Nat} {next : U64}
    (picked : k.pickNextTask image loops fuel = some (next, after)) :
    after.statistics = k.statistics := by
  induction fuel generalizing k with
  | zero => cases picked
  | succ fuel ih =>
    rw [pickNextTask] at picked
    split at picked
    · cases picked
    · split at picked
      · split at picked
        · cases picked
        · -- The scores are set again, and the choice begins anew.
          next reset => exact (ih picked).trans (resetScoreFrom_statistics reset)
      · -- A task is chosen, and the run queue is left as it was.
        obtain ⟨_, _, same⟩ := Option.map_eq_some_iff.mp picked
        rw [← (Prod.mk.inj same).2]

/-- `__schedule` does not set them in front of the switch. -/
theorem scheduleSwitch_statistics {fuel : Nat}
    (switched : k.scheduleSwitch image fuel = some after) : after.statistics = k.statistics := by
  rw [scheduleSwitch] at switched
  dsimp only at switched
  split at switched
  · cases switched
  · next picked =>
    cases switched
    -- Neither the queue that the task is taken from nor the task itself is one of them.
    have dequeued : (if k.state k.current ≠ 0 then k.dequeueTask k.current else k).statistics =
        k.statistics := by
      split <;> rfl
    refine Eq.trans ?_ ((pickNextTask_statistics picked).trans dequeued)
    split <;> rfl

/-- `do_fork` does not set them. -/
theorem doFork_statistics {cloneFlags fn arg : U64} {pid : Option (Fin nrTask)}
    (forked : k.doFork image cloneFlags fn arg = (pid, after)) :
    after.statistics = k.statistics := by
  rcases k.doFork_cases image cloneFlags fn arg with ⟨_, result⟩ | ⟨_, _, result⟩ | ⟨_, _, _, result⟩
  all_goals
    rw [result] at forked
    cases forked
    rfl

/-- The tick does not set them. -/
theorem tickHandlePeriodic_statistics (k : Kernel) :
    k.tickHandlePeriodic.statistics = k.statistics := by
  rw [tickHandlePeriodic]
  split <;> rfl

end Kernel

/-- Switched out in `cpu_switch_to`, or just switched back to. -/
def Place.isSwitchTo : Place → Bool
  | .switchTo _ => true
  | _ => false

/-- Whether a task is there. -/
def atSwitch : List Activation → Bool
  | [] => false
  | a :: _ => a.place.isSwitchTo

/-- Whether a task has never run. -/
def NeverRun (code : List Activation) : Prop := ∃ a, code = [a] ∧ a.place.first = true

/-- A task that waits was switched out or has never run, and not both. -/
theorem Waiting.cases {code : List Activation} (waiting : Waiting code) :
    atSwitch code = true ∨ NeverRun code := by
  rcases waiting with ⟨a, rest, caller, rfl, place⟩ | never
  · exact Or.inl (by rw [atSwitch, place]; rfl)
  · exact Or.inr never

theorem NeverRun.not_atSwitch {code : List Activation} (never : NeverRun code) :
    atSwitch code = false := by
  obtain ⟨a, rfl, begins⟩ := never
  rw [atSwitch]
  cases here : a.place <;> first | rfl | (rw [here] at begins; cases begins)

/-! ### What an event does to it -/

/-- An event that neither switches nor ends a switch. -/
structure Stays (image : Image) (cpu next : Cpu) : Prop where
  current : next.current = cpu.current
  statistics : next.roster.kernel.statistics = cpu.roster.kernel.statistics
  kept : ∀ t ∈ cpu.roster.tasks image, t ∈ next.roster.tasks image
  others : ∀ t ∈ cpu.roster.tasks image, t ≠ cpu.current → next.code t = cpu.code t
  new : ∀ t ∈ next.roster.tasks image, t ∉ cpu.roster.tasks image → NeverRun (next.code t)
  before : atSwitch (cpu.code cpu.current) = false
  after : atSwitch (next.code cpu.current) = false

/-- The end of a switch, which a task that is switched back to goes on with. -/
structure Finishes (cpu next : Cpu) : Prop where
  current : next.current = cpu.current
  statistics : next.roster.kernel.statistics =
    (cpu.roster.kernel.nrSwitches + 1, cpu.current)
  forked : next.roster.forked = cpu.roster.forked
  others : ∀ t, t ≠ cpu.current → next.code t = cpu.code t
  before : atSwitch (cpu.code cpu.current) = true
  after : atSwitch (next.code cpu.current) = false

/-- A switch, which leaves the task that ran in `cpu_switch_to`. -/
structure Switches (cpu next : Cpu) : Prop where
  current : next.current ≠ cpu.current
  statistics : next.roster.kernel.statistics = cpu.roster.kernel.statistics
  forked : next.roster.forked = cpu.roster.forked
  others : ∀ t, t ≠ cpu.current → next.code t = cpu.code t
  before : atSwitch (cpu.code cpu.current) = false
  after : atSwitch (next.code cpu.current) = true

variable {image : Image} {cpu next : Cpu}

/-- An event in the code of the current task. -/
theorem Stays.inCode {code : List Activation} (before : atSwitch (cpu.code cpu.current) = false)
    (current : next.current = cpu.current)
    (statistics : next.roster.kernel.statistics = cpu.roster.kernel.statistics)
    (forked : next.roster.forked = cpu.roster.forked)
    (replaced : next.code = Function.update cpu.code cpu.current code)
    (after : atSwitch code = false) : Stays image cpu next where
  current
  statistics
  kept t task := by
    rw [Roster.tasks_congr forked]
    exact task
  others t _ other := by rw [replaced, Function.update_of_ne other]
  new t task absent := by
    rw [Roster.tasks_congr forked] at task
    exact absurd task absent
  before
  after := by rw [replaced, Function.update_self, after]

/-- Code that may be interrupted is not in `cpu_switch_to`. -/
theorem Interruptible.not_atSwitch {code : List Activation} (free : Interruptible code) :
    atSwitch code = false := by
  cases code with
  | nil => rfl
  | cons a rest =>
    have unmasked : a.place.masked = false := free
    rw [atSwitch]
    cases here : a.place <;> first | rfl | (rw [here] at unmasked; cases unmasked)

/-- The choice of the next task switches to it, unless it is the one that runs. -/
theorem Cpu.instr_pick {fuel : Nat} {a : Activation} {rest : List Activation}
    (running : cpu.code cpu.current = a :: rest) {caller : Caller}
    (place : a.place = .pickNextTask caller) (took : cpu.instr image fuel a rest = some next) :
    Stays image cpu next ∨ Switches cpu next := by
  have before : atSwitch (cpu.code cpu.current) = false := by rw [running, atSwitch, place]; rfl
  simp only [Cpu.instr, place] at took
  split at took
  · cases took
  next roster scheduled =>
    obtain ⟨_, kernel, switched, rfl⟩ := Roster.step_schedule scheduled
    simp only [Option.some.injEq] at took
    subst took
    have statistics := Kernel.scheduleSwitch_statistics switched
    -- `switch_to` is not called for the task that runs already.
    by_cases same : kernel.current = cpu.current
    · rw [if_pos same]
      exact Or.inl (.inCode before same statistics rfl rfl rfl)
    · rw [if_neg same]
      refine Or.inr ⟨same, statistics, rfl, fun t other => Function.update_of_ne other _ _, before, ?_⟩
      show atSwitch (Function.update cpu.code cpu.current _ cpu.current) = true
      rw [Function.update_self]
      rfl

/-- The next access of code is one of the three. -/
theorem Balanced.instr_cases (balanced : Balanced image cpu) {fuel : Nat} {a : Activation}
    {rest : List Activation} (running : cpu.code cpu.current = a :: rest)
    (took : cpu.instr image fuel a rest = some next) :
    Stays image cpu next ∨ Finishes cpu next ∨ Switches cpu next := by
  have top : atSwitch (cpu.code cpu.current) = a.place.isSwitchTo := by rw [running]; rfl
  cases place : a.place with
  | pickNextTask caller => exact (Cpu.instr_pick running place took).imp_right Or.inr
  -- Behind `switch_to` the task counts the switch and notes itself.
  | switchTo caller =>
    rw [place] at top
    simp only [Cpu.instr, place, Option.some.injEq] at took
    subst took
    refine Or.inr (Or.inl ⟨rfl, rfl, rfl, fun t other => Function.update_of_ne other _ _, top, ?_⟩)
    show atSwitch (Function.update cpu.code cpu.current _ cpu.current) = false
    rw [Function.update_self]
    rfl
  | kernel => simp only [Cpu.instr, place, reduceCtorEq] at took
  | restoreAll =>
    rw [place] at top
    simp only [Cpu.instr, place] at took
    split at took
    · cases took
    · simp only [Option.some.injEq] at took
      subst took
      -- What goes on is code that was interrupted.
      have nested := balanced.nested _ balanced.current_mem
      rw [running] at nested
      exact Or.inl (.inCode top rfl rfl rfl rfl nested.2.1.not_atSwitch)
  | _ =>
    -- Everything else goes on at a place that is not in `cpu_switch_to`.
    rw [place] at top
    simp only [Cpu.instr, place, Option.some.injEq] at took
    subst took
    refine Or.inl (.inCode top rfl rfl rfl rfl ?_)
    rw [atSwitch]
    first | rfl | (split <;> rfl)

/-- A fork adds a task that has never run, or none. -/
theorem Balanced.fork_stays (balanced : Balanced image cpu) {a : Activation}
    (before : atSwitch (cpu.code cpu.current) = false) {cloneFlags fn arg : U64}
    (took : cpu.fork image a cloneFlags fn arg = some next) : Stays image cpu next := by
  rw [Cpu.fork] at took
  split at took
  · cases took
  rcases balanced.table.fork_cases cloneFlags fn arg with
    ⟨kernel, result, _, current, _⟩ | ⟨pid, kernel, result, _, current, fresh, _, _⟩
  · -- A fork that fails leaves the code and the current task alone.
    simp only [result, Option.some.injEq] at took
    subst took
    exact .inCode before current (Kernel.doFork_statistics result) rfl
      (Function.update_eq_self _ _).symm before
  · simp only [result, Option.some.injEq] at took
    subst took
    -- Its page was not that of a task.
    have apart {t : U64} (task : t ∈ cpu.roster.tasks image) : t ≠ kernel.gTask pid := by
      rintro rfl
      exact fresh task
    have tasks {t : U64} : t ∈ image.initTask :: (cpu.roster.forked ++ [kernel.gTask pid]) ↔
        t ∈ cpu.roster.tasks image ∨ t = kernel.gTask pid := by
      rw [← List.cons_append, List.mem_append, List.mem_singleton]
      rfl
    have own := apart balanced.current_mem
    refine ⟨current, Kernel.doFork_statistics result, fun t task => tasks.mpr (Or.inl task),
      fun t task _ => Function.update_of_ne (apart task) _ _, fun t task absent => ?_, before, ?_⟩
    · obtain rfl := (tasks.mp task).resolve_left absent
      show NeverRun (Function.update cpu.code (kernel.gTask pid) _ (kernel.gTask pid))
      rw [Function.update_self]
      refine ⟨_, rfl, ?_⟩
      split <;> rfl
    · show atSwitch (Function.update cpu.code (kernel.gTask pid) _ cpu.current) = false
      rw [Function.update_of_ne own]
      exact before

/-- Kernel code outside of `schedule` neither switches nor ends a switch. -/
theorem Balanced.act_stays (balanced : Balanced image cpu) {fuel : Nat} {a : Activation}
    {rest : List Activation} (running : cpu.code cpu.current = a :: rest)
    (place : a.place = .kernel) {act : KernelAct}
    (took : cpu.act image fuel a rest act = some next) : Stays image cpu next := by
  have before : atSwitch (cpu.code cpu.current) = false := by rw [running, atSwitch, place]; rfl
  cases act with
  -- None of this is in `__schedule`, before or after.
  | exception =>
    cases took
    exact .inCode before rfl rfl rfl rfl rfl
  -- A tick counts no switch.
  | tick =>
    simp only [Cpu.act, Roster.step, Option.map_some, Option.some.injEq] at took
    subst took
    exact .inCode before (Kernel.tickHandlePeriodic_counts _).2
      (Kernel.tickHandlePeriodic_statistics _) rfl (Function.update_eq_self _ _).symm before
  | fork cloneFlags fn arg => exact balanced.fork_stays before took
  -- Turning interrupts on or off moves no code.
  | irq on =>
    cases took
    exact .inCode before rfl rfl rfl (Function.update_eq_self _ _).symm before
  | leave =>
    cases took
    exact .inCode before rfl rfl rfl rfl rfl
  -- The call itself is no switch yet: it ends in front of `preempt_disable`.
  | schedule =>
    simp only [Cpu.act] at took
    split at took <;> cases took
    exact .inCode before rfl rfl rfl rfl rfl
  -- On the way to user mode the code is at the frame it returns by.
  | moveToUserSpace spie =>
    simp only [Cpu.act] at took
    split at took <;> cases took
    refine .inCode before rfl rfl rfl rfl ?_
    rw [atSwitch, place]
    rfl
  | enterGuest spie =>
    simp only [Cpu.act] at took
    split at took <;> cases took
    exact .inCode before rfl rfl rfl rfl rfl

/-- Every event is one of the three. -/
theorem Balanced.step_cases (balanced : Balanced image cpu) {fuel : Nat} {event : CpuEvent}
    (took : Cpu.step image fuel event cpu = some next) :
    Stays image cpu next ∨ Finishes cpu next ∨ Switches cpu next := by
  cases running : cpu.code cpu.current with
  | nil =>
    -- In user mode the task has no code in the kernel.
    have before : atSwitch (cpu.code cpu.current) = false := by rw [running]; rfl
    cases event with
    | interrupt =>
      simp only [Cpu.step, running, Option.some.injEq] at took
      subst took
      exact Or.inl (.inCode before rfl rfl rfl rfl rfl)
    | userTrap =>
      simp only [Cpu.step, running, Option.some.injEq] at took
      subst took
      exact Or.inl (.inCode before rfl rfl rfl rfl rfl)
    | instr => simp only [Cpu.step, running, reduceCtorEq] at took
    | act act => simp only [Cpu.step, running, reduceCtorEq] at took
  -- In the kernel it has, and the innermost code is what runs.
  | cons a rest =>
    cases event with
    | interrupt =>
      simp only [Cpu.step, running] at took
      split at took
      · next on =>
        simp only [Option.some.injEq] at took
        subst took
        -- Interrupts are off in `cpu_switch_to`.
        have before : atSwitch (cpu.code cpu.current) = false := by
          have masked := balanced.masked
          rw [running] at masked ⊢
          rw [atSwitch]
          cases place : a.place <;> first | rfl | (rw [masked (by rw [place]; rfl)] at on; cases on)
        exact Or.inl (.inCode before rfl rfl rfl rfl rfl)
      · cases took
    | userTrap => simp only [Cpu.step, running, reduceCtorEq] at took
    | instr =>
      simp only [Cpu.step, running] at took
      exact balanced.instr_cases running took
    | act act =>
      simp only [Cpu.step, running] at took
      split at took
      · next place => exact Or.inl (balanced.act_stays running place took)
      · cases took

/-! ### The record of switches -/

/-- One event, next to the tasks that `cpu_switch_to` was called for, the latest first. -/
def Cpu.recordedStep (image : Image) (fuel : Nat) :
    CpuEvent → Cpu × List U64 → Option (Cpu × List U64) :=
  Transition.watched (Cpu.step image fuel) fun _ cpu next switches =>
    if next.current = cpu.current then switches else next.current :: switches

/-- The tasks that have run. -/
def seen (image : Image) (switches : List U64) : Finset U64 := insert image.initTask switches.toFinset

/-- The task that is switched to has run from then on. -/
theorem seen_cons (image : Image) (t : U64) (switches : List U64) :
    seen image (t :: switches) = insert t (seen image switches) := by
  rw [seen, List.toFinset_cons, Finset.insert_comm, seen]

/-- The latest switch was back to a task that had run before. -/
def SwitchedBack (image : Image) : List U64 → Prop
  | [] => False
  | last :: earlier => last ∈ seen image earlier

/-- What the run queue notes is the record without the first runs of tasks. -/
structure Recorded (image : Image) (cpu : Cpu) (switches : List U64) : Prop where
  balanced : Balanced image cpu
  known : ∀ t ∈ seen image switches, t ∈ cpu.roster.tasks image
  current : cpu.current ∈ seen image switches
  left : ∀ t ∈ seen image switches, t ≠ cpu.current → atSwitch (cpu.code t) = true
  unseen : ∀ t ∈ cpu.roster.tasks image, t ∉ seen image switches → NeverRun (cpu.code t)
  more : switches ≠ [] → 2 ≤ (seen image switches).card
  counted : cpu.roster.kernel.nrSwitches + BitVec.ofNat 64 ((seen image switches).card +
    if atSwitch (cpu.code cpu.current) then 1 else 0) = BitVec.ofNat 64 (switches.length + 1)
  named : atSwitch (cpu.code cpu.current) = true ∨ cpu.roster.kernel.rqCurr = cpu.current ↔
    SwitchedBack image switches
  noted : cpu.roster.kernel.rqCurr = 0 ∨ cpu.roster.kernel.rqCurr ∈ seen image switches

namespace Recorded

variable {switches : List U64}

/-- An event that neither switches nor ends a switch. -/
theorem stays (recorded : Recorded image cpu switches) (balanced : Balanced image next)
    (stays : Stays image cpu next) : Recorded image next switches where
  balanced
  known t member := stays.kept t (recorded.known t member)
  current := by
    rw [stays.current]
    exact recorded.current
  left t member other := by
    rw [stays.current] at other
    rw [stays.others t (recorded.known t member) other]
    exact recorded.left t member other
  unseen t task absent := by
    -- A task of before has not moved, and one that is new has not run.
    by_cases known : t ∈ cpu.roster.tasks image
    · have other : t ≠ cpu.current := by
        rintro rfl
        exact absent recorded.current
      rw [stays.others t known other]
      exact recorded.unseen t known absent
    · exact stays.new t task known
  more := recorded.more
  counted := by
    have counted := recorded.counted
    rw [stays.before] at counted
    rw [stays.current, stays.after, (Prod.mk.inj stays.statistics).1]
    exact counted
  named := by
    have named := recorded.named
    rw [stays.before] at named
    rw [stays.current, stays.after, (Prod.mk.inj stays.statistics).2]
    exact named
  noted := by
    rw [(Prod.mk.inj stays.statistics).2]
    exact recorded.noted

/-- The end of a switch counts it. -/
theorem finishes (recorded : Recorded image cpu switches) (balanced : Balanced image next)
    (finishes : Finishes cpu next) : Recorded image next switches := by
  have tasks : next.roster.tasks image = cpu.roster.tasks image := Roster.tasks_congr finishes.forked
  -- The tasks stay the same, and the running one leaves `cpu_switch_to`.
  refine ⟨balanced, ?_, ?_, fun t member other => ?_, fun t task absent => ?_, recorded.more, ?_,
    iff_of_true (Or.inr ?_) (recorded.named.mp (Or.inl finishes.before)), Or.inr ?_⟩
  · rw [tasks]
    exact recorded.known
  · rw [finishes.current]
    exact recorded.current
  · rw [finishes.current] at other
    rw [finishes.others t other]
    exact recorded.left t member other
  · rw [tasks] at task
    have other : t ≠ cpu.current := by
      rintro rfl
      exact absent recorded.current
    rw [finishes.others t other]
    exact recorded.unseen t task absent
  · -- What was still to be counted is counted now.
    have counted := recorded.counted
    rw [finishes.before, if_pos rfl, BitVec.ofNat_add] at counted
    rw [finishes.current, finishes.after, (Prod.mk.inj finishes.statistics).1, if_neg (by decide),
      Nat.add_zero, ← counted, BitVec.add_assoc, BitVec.add_comm 1]
    rfl
  · rw [finishes.current, (Prod.mk.inj finishes.statistics).2]
  · rw [(Prod.mk.inj finishes.statistics).2]
    exact recorded.current

/-- A switch is one more to count, unless the task has never run. -/
theorem switched_counted (recorded : Recorded image cpu switches) (switched : Switches cpu next)
    (task : next.current ∈ cpu.roster.tasks image) :
    next.roster.kernel.nrSwitches + BitVec.ofNat 64
        ((seen image (next.current :: switches)).card +
          if atSwitch (next.code next.current) then 1 else 0) =
      BitVec.ofNat 64 ((next.current :: switches).length + 1) := by
  have code : next.code next.current = cpu.code next.current := switched.others _ switched.current
  have length : BitVec.ofNat 64 ((next.current :: switches).length + 1) =
      BitVec.ofNat 64 (switches.length + 1) + 1 := BitVec.ofNat_add _ _
  have counted := recorded.counted
  rw [switched.before, if_neg (by decide), Nat.add_zero] at counted
  rw [seen_cons, code, length, ← counted, (Prod.mk.inj switched.statistics).1]
  by_cases again : next.current ∈ seen image switches
  · -- The task is about to count the switch.
    rw [Finset.insert_eq_of_mem again, recorded.left _ again switched.current, if_pos rfl,
      BitVec.ofNat_add, ← BitVec.add_assoc]
    rfl
  · -- The task is one more that has run.
    rw [Finset.card_insert_of_notMem again, (recorded.unseen _ task again).not_atSwitch,
      if_neg (by decide), Nat.add_zero, BitVec.ofNat_add, ← BitVec.add_assoc]
    rfl

/-- The task that is switched to is noted, or will be, exactly if it had run before. -/
theorem switched_named (recorded : Recorded image cpu switches) (switched : Switches cpu next)
    (task : next.current ∈ cpu.roster.tasks image) :
    atSwitch (next.code next.current) = true ∨ next.roster.kernel.rqCurr = next.current ↔
      SwitchedBack image (next.current :: switches) := by
  rw [switched.others _ switched.current, (Prod.mk.inj switched.statistics).2]
  by_cases again : next.current ∈ seen image switches
  · exact iff_of_true (Or.inl (recorded.left _ again switched.current)) again
  · -- A task that has never run was not noted before.
    refine iff_of_false ?_ again
    rw [(recorded.unseen _ task again).not_atSwitch]
    rintro (none | same)
    · cases none
    · rcases recorded.noted with zero | noted
      · exact recorded.balanced.table.ne_zero task (same.symm.trans zero)
      · exact again (same ▸ noted)

/-- A switch makes the task that it leads to one of those that have run. -/
theorem switched (recorded : Recorded image cpu switches) (balanced : Balanced image next)
    (switched : Switches cpu next) : Recorded image next (next.current :: switches) := by
  have tasks : next.roster.tasks image = cpu.roster.tasks image := Roster.tasks_congr switched.forked
  have grown := seen_cons image next.current switches
  have task : next.current ∈ cpu.roster.tasks image := tasks ▸ balanced.current_mem
  -- The task left is in `cpu_switch_to`, where it waits.
  refine ⟨balanced, fun t member => ?_, ?_, fun t member other => ?_, fun t known absent => ?_,
    fun _ => ?_, recorded.switched_counted switched task, recorded.switched_named switched task, ?_⟩
  · rw [tasks]
    rw [grown] at member
    rcases Finset.mem_insert.mp member with rfl | old
    · exact task
    · exact recorded.known t old
  · rw [grown]
    exact Finset.mem_insert_self _ _
  · rw [grown] at member
    have old := (Finset.mem_insert.mp member).resolve_left other
    by_cases leaves : t = cpu.current
    · rw [leaves]
      exact switched.after
    · rw [switched.others t leaves]
      exact recorded.left t old leaves
  · rw [tasks] at known
    rw [grown, Finset.mem_insert, not_or] at absent
    have other : t ≠ cpu.current := by
      rintro rfl
      exact absent.2 recorded.current
    rw [switched.others t other]
    exact recorded.unseen t known absent.2
  · -- The task that was left and the one switched to are two of them.
    rw [grown]
    refine Finset.one_lt_card.mpr ⟨next.current, Finset.mem_insert_self _ _, cpu.current,
      Finset.mem_insert_of_mem recorded.current, switched.current⟩
  · rw [grown, (Prod.mk.inj switched.statistics).2]
    exact recorded.noted.imp_right Finset.mem_insert_of_mem

/-- Every event keeps the record. -/
theorem step {fuel : Nat} (fueled : nrTask < fuel) {event : CpuEvent} {before after : Cpu × List U64}
    (recorded : Recorded image before.1 before.2)
    (took : Cpu.recordedStep image fuel event before = some after) :
    Recorded image after.1 after.2 := by
  obtain ⟨stepped, record⟩ := Transition.watched_some took
  have balanced := recorded.balanced.step fueled stepped
  rw [record]
  rcases recorded.balanced.step_cases stepped with stays | finishes | switched
  · rw [if_pos stays.current]
    exact recorded.stays balanced stays
  · rw [if_pos finishes.current]
    exact recorded.finishes balanced finishes
  · rw [if_neg switched.current]
    exact recorded.switched balanced switched

/-- The record begins with the first task, which runs without a switch. -/
theorem boot {k : Kernel} (loaded : Loaded image k) (zero : k.preemptCount image.initTask = 0) :
    Recorded image (Cpu.boot image k) [] := by
  have one : seen image [] = {image.initTask} := rfl
  have current : (Cpu.boot image k).current = image.initTask := loaded.current
  have code : (Cpu.boot image k).code image.initTask =
      [{ place := .kernel, toUser := false, spie := false }] := if_pos rfl
  -- The first task has run, no other one is there, and nothing is noted.
  refine ⟨.boot loaded zero, fun t member => ?_, ?_, fun t member other => ?_, fun t task absent => ?_,
    fun none => absurd rfl none, ?_, iff_of_false ?_ id, Or.inl rfl⟩
  · rw [one, Finset.mem_singleton] at member
    exact List.mem_singleton.mpr member
  · rw [one, current]
    exact Finset.mem_singleton_self _
  · rw [one, Finset.mem_singleton] at member
    exact absurd (member.trans current.symm) other
  · -- There is no task that has not run yet.
    rw [one, Finset.mem_singleton] at absent
    exact absurd (List.mem_singleton.mp task) absent
  · rw [one, Finset.card_singleton, current, code]
    rfl
  · rw [current, code]
    -- Neither is a switch under way nor is `prev` a task.
    rintro (none | same)
    · cases none
    · exact loaded.apart.nonzero same.symm

/-- The tasks that have run are some of at most `NR_TASK`. -/
theorem card_le (recorded : Recorded image cpu switches) : (seen image switches).card ≤ nrTask := by
  -- Every task that has run is in the process table.
  have inside : seen image switches ⊆ (cpu.roster.tasks image).toFinset := fun t member =>
    List.mem_toFinset.mpr (recorded.known t member)
  exact (Finset.card_le_card inside).trans
    ((List.toFinset_card_le _).trans recorded.balanced.table.length_le)

end Recorded

/-! ### The run queue and the running task -/

namespace Cpu

variable (cpu : Cpu)

/-- No code of the running task is in `__schedule`. -/
def OutsideSchedule : Prop := ∀ a ∈ cpu.code cpu.current, a.place.inSchedule = false

/-- The run queue names the running task and has counted the calls of `cpu_switch_to`. -/
def Follows (switches : List U64) : Prop :=
  cpu.roster.kernel.rqCurr = cpu.current ∧
    cpu.roster.kernel.nrSwitches = BitVec.ofNat 64 switches.length

end Cpu

/-- Outside of `__schedule` no switch is under way. -/
theorem Cpu.OutsideSchedule.not_atSwitch (outside : cpu.OutsideSchedule) :
    atSwitch (cpu.code cpu.current) = false := by
  cases running : cpu.code cpu.current with
  | nil => rfl
  | cons a rest =>
    -- `cpu_switch_to` is called in `__schedule`.
    have here : a.place.inSchedule = false := outside a (by rw [running]; exact List.mem_cons_self)
    rw [atSwitch]
    cases place : a.place <;> first | rfl | (rw [place] at here; cases here)

/--
Outside of `__schedule` the switches are counted, except for the first run of every task, and the
running task is noted exactly if it had run before.
-/
theorem Recorded.outside {switches : List U64} (recorded : Recorded image cpu switches)
    (outside : cpu.OutsideSchedule) :
    cpu.roster.kernel.nrSwitches + BitVec.ofNat 64 (seen image switches).card =
        BitVec.ofNat 64 (switches.length + 1) ∧
      (cpu.roster.kernel.rqCurr = cpu.current ↔ SwitchedBack image switches) := by
  have counted := recorded.counted
  have named := recorded.named
  rw [outside.not_atSwitch, if_neg (by decide), Nat.add_zero] at counted
  rw [outside.not_atSwitch, or_iff_right (by decide)] at named
  exact ⟨counted, named⟩

/-- After a switch the count is behind: the first switch of all led to a task that had never run. -/
theorem Recorded.not_follows {switches : List U64} (recorded : Recorded image cpu switches)
    (outside : cpu.OutsideSchedule) (made : switches ≠ []) : ¬ cpu.Follows switches := by
  rintro ⟨_, count⟩
  have counted := (recorded.outside outside).1
  have few := recorded.card_le
  have two := recorded.more made
  have slots : nrTask = 128 := rfl
  rw [count, BitVec.ofNat_add, BitVec.add_right_inj] at counted
  -- The first task and the one that was switched to are two, but one would have to be all.
  have value := congrArg BitVec.toNat counted
  rw [BitVec.toNat_ofNat, BitVec.toNat_ofNat] at value
  omega

/--
In every state of every run, with control outside of `__schedule`: the count of switches lacks the
first run of every task, the running task is noted exactly if it had run before, and so the run
queue follows the running task only as long as no switch was made.
-/
theorem runQueue_follows_iff {k : Kernel} (loaded : Loaded image k)
    (zero : k.preemptCount image.initTask = 0) {fuel : Nat} (fueled : nrTask < fuel)
    {events : List CpuEvent} {switches : List U64}
    (ran : Transition.run (Cpu.recordedStep image fuel) events (Cpu.boot image k, []) =
      some (cpu, switches)) (outside : cpu.OutsideSchedule) :
    ((switches ≠ [] → cpu.Follows switches) ↔ switches = []) ∧
      cpu.roster.kernel.nrSwitches + BitVec.ofNat 64 (seen image switches).card =
        BitVec.ofNat 64 (switches.length + 1) ∧
      (cpu.roster.kernel.rqCurr = cpu.current ↔ SwitchedBack image switches) := by
  have recorded : (fun state : Cpu × List U64 => Recorded image state.1 state.2) (cpu, switches) :=
    Transition.run_invariant (fun _ _ _ held took => Recorded.step fueled held took)
      (Recorded.boot loaded zero) ran
  refine ⟨⟨?_, ?_⟩, recorded.outside outside⟩
  · -- Once a switch was made the count stays behind.
    intro follows
    by_contra made
    exact recorded.not_follows outside made (follows made)
  · exact fun none made => absurd none made

/-- The first thread is forked, the first task calls `schedule`, and the thread begins to run. -/
def switchEvents : List CpuEvent :=
  [.act (.fork pfKthread 0x80200600 0), .act .schedule, .instr, .instr, .instr, .instr, .instr,
    .instr]

/-- The thread is in its function, after one switch. -/
theorem switchEvents_run : ∃ cpu, Transition.run (Cpu.recordedStep exampleImage 129) switchEvents
      (Cpu.boot exampleImage exampleKernel, []) = some (cpu, [0x80300000]) ∧
    cpu.OutsideSchedule := by
  have ran : (Transition.run (Cpu.recordedStep exampleImage 129) switchEvents
        (Cpu.boot exampleImage exampleKernel, [])).map (fun s => (s.2, s.1.code s.1.current)) =
      some ([0x80300000], [{ place := .kernel, toUser := false, spie := true }]) := by
    decide +kernel
  -- Only the record and the code of the task that runs are looked at.
  obtain ⟨⟨cpu, switches⟩, reached, state⟩ := Option.map_eq_some_iff.mp ran
  obtain ⟨rfl, code⟩ := Prod.mk.inj state
  refine ⟨cpu, reached, fun a member => ?_⟩
  rw [code, List.mem_singleton] at member
  rw [member]
  rfl

/-- The run queue does not follow this switch. -/
theorem runQueue_follows_iff_switched : ∃ cpu,
    Transition.run (Cpu.recordedStep exampleImage 129) switchEvents
      (Cpu.boot exampleImage exampleKernel, []) = some (cpu, [0x80300000]) ∧
    ¬ cpu.Follows [0x80300000] := by
  obtain ⟨cpu, ran, outside⟩ := switchEvents_run
  have never := (runQueue_follows_iff exampleKernel_loaded rfl (by decide) ran outside).1
  exact ⟨cpu, ran, fun follows => List.cons_ne_nil _ _ (never.mp fun _ => follows)⟩

/--
It has counted none, as a thread that runs for the first time does not come back to `__schedule`.
-/
theorem runQueue_behind :
    ¬ ∀ (image : Image) (k : Kernel) (fuel : Nat) (events : List CpuEvent) (cpu : Cpu)
      (switches : List U64), Loaded image k → k.preemptCount image.initTask = 0 → nrTask < fuel →
      Transition.run (Cpu.recordedStep image fuel) events (Cpu.boot image k, []) =
        some (cpu, switches) →
      cpu.OutsideSchedule → switches ≠ [] → cpu.Follows switches := by
  intro follows
  obtain ⟨cpu, ran, outside⟩ := switchEvents_run
  have statistics : (Transition.run (Cpu.recordedStep exampleImage 129) switchEvents
      (Cpu.boot exampleImage exampleKernel, [])).map (fun s => s.1.roster.kernel.nrSwitches) =
      some 0 := by decide +kernel
  have count := (follows exampleImage exampleKernel 129 switchEvents cpu _ exampleKernel_loaded rfl
    (by decide) ran outside (List.cons_ne_nil _ _)).2
  rw [ran, Option.map_some, Option.some_inj, count] at statistics
  exact absurd statistics (by decide)

end Benos
