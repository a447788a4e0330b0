import Benos.Sched.Preempt

/-! Between its two halves `schedule` holds the count of its task at one, wherever interrupts fall. -/

namespace Benos

/-! ### Places and the count -/

/-- The places between the stores of `preempt_disable` and `preempt_enable`. -/
def Place.holds : Place → Bool
  | .irqEnable | .scheduleDebug _ | .irqDisable _ | .pickNextTask _ | .switchTo _
  | .scheduleTail _ | .irqDisableAgain | .preemptEnable _ | .preemptEnableStore _ _ => true
  | _ => false

/-- The places of `__schedule`. -/
def Place.inSchedule : Place → Bool
  | .scheduleDebug _ | .irqDisable _ | .pickNextTask _ | .switchTo _ | .scheduleTail _ => true
  | _ => false

/-- The places of an interrupt handler that finds preemption off. -/
def Place.passive : Place → Bool
  | .kernel | .retFromException | .retToKernel | .restoreAll => true
  | _ => false

/-- The places where interrupts have to be off. -/
def Place.masked : Place → Bool
  | .retFromFork | .retFromKernelThread | .pickNextTask _ | .switchTo _ => true
  | _ => false

/-- The places a task begins at. -/
def Place.first : Place → Bool
  | .retFromFork | .retFromKernelThread => true
  | _ => false

/-- Whether some code of a task holds its count. -/
def held (code : List Activation) : Bool := code.any fun a => a.place.holds

/-- The count a task has by its code. -/
def heldCount (code : List Activation) : BitVec 32 := if held code then 1 else 0

/-- A count that was loaded is still the count. -/
def Place.Fresh : Place → Prop
  | .preemptDisableStore _ loaded => loaded = 0
  | .preemptEnableStore _ loaded => loaded = 1
  | _ => True

/-- What code may be doing on top of the rest of the code of its task. -/
def Activation.Fits (a : Activation) (rest : List Activation) : Prop :=
  a.place.Fresh ∧ (held rest = true → a.place.passive = true ∧ a.toUser = false)

/-- Code that may be interrupted where it is. -/
def Interruptible : List Activation → Prop
  | [] => True
  | a :: _ => a.place.masked = false

/-- Every piece of code fits the code it has interrupted. -/
def Nested : List Activation → Prop
  | [] => True
  | a :: rest => a.Fits rest ∧ Interruptible rest ∧ Nested rest

/-- Interrupts are off where they have to be. -/
def MaskedTop (sie : Bool) : List Activation → Prop
  | [] => True
  | a :: _ => a.place.masked = true → sie = false

/-- The code of a task that does not run: switched out, or never run. -/
def Waiting (code : List Activation) : Prop :=
  (∃ a rest caller, code = a :: rest ∧ a.place = .switchTo caller) ∨
    ∃ a, code = [a] ∧ a.place.first = true

theorem held_cons (a : Activation) (rest : List Activation) :
    held (a :: rest) = (a.place.holds || held rest) := rfl

/-- A passive place holds nothing. -/
theorem Place.holds_of_passive {place : Place} (passive : place.passive = true) :
    place.holds = false := by
  cases place <;> first | rfl | cases passive

/-- A task begins with a free count. -/
theorem Place.holds_of_first {place : Place} (begins : place.first = true) :
    place.holds = false := by
  cases place <;> first | rfl | cases begins

/-- A task begins with nothing loaded. -/
theorem Place.fresh_of_first {place : Place} (begins : place.first = true) : place.Fresh := by
  cases place <;> trivial

/-- Within `__schedule` the count is held. -/
theorem Place.holds_of_inSchedule {place : Place} (inside : place.inSchedule = true) :
    place.holds = true := by
  cases place <;> first | rfl | cases inside

theorem Interruptible.masked {code : List Activation} (interruptible : Interruptible code)
    (sie : Bool) : MaskedTop sie code := by
  -- Code that can be interrupted makes no demand on `SIE`.
  cases code with
  | nil => trivial
  | cons a rest =>
    intro masked
    have free : a.place.masked = false := interruptible
    rw [free] at masked
    cases masked

/-- A task that does not run has switched off interrupts where it is. -/
theorem Waiting.masked {code : List Activation} (waiting : Waiting code) :
    MaskedTop false code := by
  rcases waiting with ⟨a, rest, caller, rfl, _⟩ | ⟨a, rfl, _⟩
  · exact fun _ => rfl
  · exact fun _ => rfl

/-- At most one piece of code of a task is in `__schedule`. -/
theorem Nested.inSchedule {code : List Activation} (nested : Nested code) :
    code.countP (fun a => a.place.inSchedule) ≤ if held code then 1 else 0 := by
  induction code with
  | nil => exact Nat.le_refl _
  | cons a rest ih =>
    obtain ⟨fits, _, nested⟩ := nested
    have below := ih nested
    rw [List.countP_cons, held_cons]
    cases outer : held rest with
    | true =>
      -- What runs on top of code that holds the count is not in `__schedule`.
      have outside : a.place.inSchedule = false := by
        have free := Place.holds_of_passive (fits.2 outer).1
        cases inside : a.place.inSchedule with
        | false => rfl
        | true => rw [Place.holds_of_inSchedule inside] at free; cases free
      rw [outer] at below
      simpa [outside] using below
    | false =>
      rw [outer] at below
      -- No code further out is in `__schedule`, as none of it holds the count.
      have none_ : rest.countP (fun a => a.place.inSchedule) = 0 := Nat.le_zero.mp below
      rw [none_]
      cases inside : a.place.inSchedule with
      | false => simp
      | true => simp [Place.holds_of_inSchedule inside]

/-! ### The invariant -/

/-- What holds between any two events. -/
structure Balanced (image : Image) (cpu : Cpu) : Prop where
  table : Consistent image cpu.roster
  count : ∀ t ∈ cpu.roster.tasks image,
    cpu.roster.kernel.preemptCount t = heldCount (cpu.code t)
  nested : ∀ t ∈ cpu.roster.tasks image, Nested (cpu.code t)
  waiting : ∀ t ∈ cpu.roster.tasks image, t ≠ cpu.current → Waiting (cpu.code t)
  masked : MaskedTop cpu.sie (cpu.code cpu.current)
  whileAtomic : cpu.whileAtomic = false
  incorrectCount : cpu.incorrectCount = false

/-- What the current task may become in an event that does not switch. -/
structure Goes (image : Image) (cpu next : Cpu) (code : List Activation) : Prop where
  table : Consistent image next.roster
  forked : next.roster.forked = cpu.roster.forked
  current : next.current = cpu.current
  replaced : next.code = Function.update cpu.code cpu.current code
  others : ∀ t ∈ cpu.roster.tasks image, t ≠ cpu.current →
    next.roster.kernel.preemptCount t = cpu.roster.kernel.preemptCount t
  count : next.roster.kernel.preemptCount cpu.current = heldCount code
  nested : Nested code
  masked : MaskedTop next.sie code
  whileAtomic : next.whileAtomic = false
  incorrectCount : next.incorrectCount = false

/-- Where the count is free any code fits. -/
theorem Activation.Fits.of_free {a : Activation} {rest : List Activation} (fresh : a.place.Fresh)
    (free : held rest = false) : a.Fits rest :=
  ⟨fresh, fun outer => by rw [free] at outer; cases outer⟩

/-- Code that is not passive runs where the count is free. -/
theorem Activation.Fits.free {a : Activation} {rest : List Activation} (fits : a.Fits rest)
    (active : a.place.passive = false) : held rest = false := by
  -- If code further out held the count, the innermost code would be passive.
  cases outer : held rest with
  | false => rfl
  | true =>
    have passive := (fits.2 outer).1
    rw [active] at passive
    cases passive

namespace Balanced

variable {image : Image} {cpu next : Cpu} {a : Activation} {rest : List Activation}

/-- An event of the current task leaves the others waiting. -/
theorem goes (balanced : Balanced image cpu) {code : List Activation}
    (step : Goes image cpu next code) : Balanced image next := by
  have tasks : next.roster.tasks image = cpu.roster.tasks image := Roster.tasks_congr step.forked
  have same : next.code cpu.current = code := by rw [step.replaced, Function.update_self]
  -- Only the code of the current task is replaced.
  have other : ∀ t, t ≠ cpu.current → next.code t = cpu.code t := fun t apart => by
    rw [step.replaced, Function.update_of_ne apart]
  -- Each part of the invariant, first of the current task and then of the others.
  refine ⟨step.table, fun t task => ?_, fun t task => ?_, fun t task apart => ?_, ?_,
    step.whileAtomic, step.incorrectCount⟩
  · rw [tasks] at task
    by_cases here : t = cpu.current
    · rw [here, same, step.count]
    · rw [other t here, step.others t task here]
      exact balanced.count t task
  · rw [tasks] at task
    by_cases here : t = cpu.current
    · rw [here, same]
      exact step.nested
    · rw [other t here]
      exact balanced.nested t task
  · rw [tasks] at task
    rw [step.current] at apart
    rw [other t apart]
    exact balanced.waiting t task apart
  · rw [step.current, same]
    exact step.masked

/-- The current task is one of the table. -/
theorem current_mem (balanced : Balanced image cpu) : cpu.current ∈ cpu.roster.tasks image :=
  balanced.table.current

/-- The count of the current task, by its code. -/
theorem count_current (balanced : Balanced image cpu) :
    cpu.count = heldCount (cpu.code cpu.current) := balanced.count _ balanced.current_mem

/-- The innermost code goes on to a place that holds the count as much. -/
theorem goTo (balanced : Balanced image cpu) (running : cpu.code cpu.current = a :: rest)
    (place : Place) {sie whileAtomic incorrectCount : Bool}
    (fits : Activation.Fits { a with place } rest) (holds : place.holds = a.place.holds)
    (masked : place.masked = true → sie = false) (atomic : whileAtomic = false)
    (incorrect : incorrectCount = false) :
    Balanced image
      { cpu.run ({ a with place } :: rest) with sie, whileAtomic, incorrectCount } := by
  have nested := balanced.nested _ balanced.current_mem
  have count := balanced.count_current
  rw [running] at nested count
  refine balanced.goes ⟨balanced.table, rfl, rfl, rfl, fun _ _ _ => rfl, ?_, ⟨fits, nested.2⟩, masked,
    atomic, incorrect⟩
  show cpu.count = heldCount ({ a with place } :: rest)
  -- The new place holds the count as the old one did.
  rw [count, heldCount, heldCount, held_cons, held_cons, holds]

/-- The innermost code stores the count its next place is to have. -/
theorem store (balanced : Balanced image cpu) (running : cpu.code cpu.current = a :: rest)
    {place : Place} {value : BitVec 32} (free : held rest = false) (fresh : place.Fresh)
    (stored : value = if place.holds then 1 else 0) (masked : place.masked = false) :
    Balanced image ((cpu.run ({ a with place } :: rest)).setCount value) := by
  have nested := balanced.nested _ balanced.current_mem
  rw [running] at nested
  have step : Goes image cpu ((cpu.run ({ a with place } :: rest)).setCount value)
      ({ a with place } :: rest) := by
    refine ⟨{ balanced.table with }, rfl, rfl, rfl, fun t _ other => Function.update_of_ne other _ _,
      ?_, ⟨⟨fresh, fun outer => ?_⟩, nested.2⟩, fun here => ?_, balanced.whileAtomic,
      balanced.incorrectCount⟩
    · -- The code further out does not hold it, so it is the new place that says what it is.
      show Function.update cpu.roster.kernel.preemptCount cpu.current value cpu.current = _
      rw [Function.update_self, stored, heldCount, held_cons, free, Bool.or_false]
    · rw [free] at outer
      cases outer
    · rw [masked] at here
      cases here
  exact balanced.goes step

/-- Interrupt handlers and threads on their way out of the kernel. -/
theorem instr_passive (balanced : Balanced image cpu) {fuel : Nat}
    (running : cpu.code cpu.current = a :: rest) (passive : a.place.passive = true)
    (took : cpu.instr image fuel a rest = some next) : Balanced image next := by
  have nested := balanced.nested _ balanced.current_mem
  have count := balanced.count_current
  rw [running] at nested count
  obtain ⟨fits, interruptible, nested⟩ := nested
  -- Passive code does not hold the count itself, so what does is further out.
  have counted : cpu.count = if held rest then 1 else 0 := by
    rw [count, heldCount, held_cons, Place.holds_of_passive passive, Bool.false_or]
  cases place : a.place with
  | kernel =>
    simp only [Cpu.instr, place, reduceCtorEq] at took
  | retFromException =>
    simp only [Cpu.instr, place, Option.some.injEq] at took
    subst took
    by_cases user : a.toUser = true
    · -- A frame of user mode has interrupted no code of the kernel.
      have outermost : held rest = false := by
        cases outer : held rest with
        | false => rfl
        | true =>
          rw [(fits.2 outer).2] at user
          cases user
      rw [if_pos user]
      exact balanced.goTo running .retToUser (.of_free trivial outermost) (by rw [place]; rfl)
        (fun _ => rfl) balanced.whileAtomic balanced.incorrectCount
    · rw [if_neg user]
      exact balanced.goTo running .retToKernel ⟨trivial, fun outer => ⟨rfl, (fits.2 outer).2⟩⟩
        (by rw [place]; rfl) (fun _ => rfl) balanced.whileAtomic balanced.incorrectCount
  | retToKernel =>
    simp only [Cpu.instr, place, Option.some.injEq] at took
    subst took
    -- With a count that is not zero there is no look at `need_resched`.
    by_cases atomic : cpu.count ≠ 0
    · rw [if_pos atomic]
      exact balanced.goTo running .restoreAll ⟨trivial, fun outer => ⟨rfl, (fits.2 outer).2⟩⟩
        (by rw [place]; rfl) (fun here => by cases here) balanced.whileAtomic
        balanced.incorrectCount
    · -- A count of zero is held by no code.
      have outermost : held rest = false := by
        cases outer : held rest with
        | false => rfl
        | true =>
          rw [counted, outer] at atomic
          exact absurd (by decide) atomic
      rw [if_neg atomic]
      exact balanced.goTo running .needResched (.of_free trivial outermost) (by rw [place]; rfl)
        (fun here => by cases here) balanced.whileAtomic balanced.incorrectCount
  | restoreAll =>
    simp only [Cpu.instr, place] at took
    split at took
    · cases took
    · simp only [Option.some.injEq] at took
      subst took
      refine balanced.goes ⟨balanced.table, rfl, rfl, rfl, fun _ _ _ => rfl, counted, nested,
        interruptible.masked _, balanced.whileAtomic, balanced.incorrectCount⟩
  | _ =>
    rw [place] at passive
    cases passive

/-- The switch leaves the current task, if at all, in `cpu_switch_to`. -/
theorem switch (balanced : Balanced image cpu) {fuel : Nat} (fueled : nrTask < fuel)
    (running : cpu.code cpu.current = a :: rest) {caller : Caller}
    (place : a.place = .pickNextTask caller)
    (took : cpu.instr image fuel a rest = some next) : Balanced image next := by
  have nested := balanced.nested _ balanced.current_mem
  have count := balanced.count_current
  have masked := balanced.masked
  rw [running] at nested count masked
  obtain ⟨fits, interruptible, nested⟩ := nested
  have free : held rest = false := fits.free (by rw [place]; rfl)
  have quiet : cpu.sie = false := masked (by rw [place]; rfl)
  simp only [Cpu.instr, place] at took
  split at took
  · cases took
  rename_i roster scheduled
  obtain ⟨table, forked, counts⟩ := balanced.table.schedule_step fueled scheduled
  -- Wherever it goes on, the current task holds its count.
  have kept : ∀ after : Place, after.holds = true → heldCount ({ a with place := after } :: rest) =
      roster.kernel.preemptCount cpu.current := by
    intro after holds
    rw [counts]
    refine Eq.trans ?_ count.symm
    rw [heldCount, heldCount, held_cons, held_cons, place, holds]
    rfl
  simp only [Option.some.injEq] at took
  subst took
  -- The pick may be the task that is already running.
  by_cases same : roster.kernel.current = cpu.current
  · rw [if_pos same]
    exact balanced.goes ⟨table, forked, same, rfl, fun t _ _ => congrFun counts t,
      (kept _ rfl).symm, ⟨.of_free trivial free, interruptible, nested⟩,
      (fun here => by cases here), balanced.whileAtomic, balanced.incorrectCount⟩
  · rw [if_neg same]
    have tasks : roster.tasks image = cpu.roster.tasks image := Roster.tasks_congr forked
    let left : List Activation := { a with place := .switchTo caller } :: rest
    -- The task switched out waits inside of `switch_to`, and the others where they did.
    have own : Function.update cpu.code cpu.current left cpu.current = left :=
      Function.update_self _ _ _
    have other : ∀ t, t ≠ cpu.current → Function.update cpu.code cpu.current left t = cpu.code t :=
      fun t apart => Function.update_of_ne apart _ _
    refine ⟨table, fun t task => ?_, fun t task => ?_, fun t task apart => ?_, ?_,
      balanced.whileAtomic, balanced.incorrectCount⟩
    · show roster.kernel.preemptCount t = heldCount (Function.update cpu.code cpu.current left t)
      rw [tasks] at task
      by_cases mine : t = cpu.current
      · rw [mine, own, kept _ rfl]
      · rw [other t mine, counts]
        exact balanced.count t task
    · show Nested (Function.update cpu.code cpu.current left t)
      rw [tasks] at task
      by_cases mine : t = cpu.current
      · rw [mine, own]
        exact ⟨.of_free trivial free, interruptible, nested⟩
      · rw [other t mine]
        exact balanced.nested t task
    · show Waiting (Function.update cpu.code cpu.current left t)
      rw [tasks] at task
      by_cases mine : t = cpu.current
      · rw [mine, own]
        exact Or.inl ⟨_, rest, caller, rfl, rfl⟩
      · rw [other t mine]
        exact balanced.waiting t task mine
    · -- The task switched to was waiting, with interrupts off.
      show MaskedTop cpu.sie (Function.update cpu.code cpu.current left roster.kernel.current)
      rw [other _ same, quiet]
      exact (balanced.waiting _ (tasks ▸ table.current) same).masked

/-- Code that no code further out holds the count under goes on, and the checks stay silent. -/
theorem goOn (balanced : Balanced image cpu) (running : cpu.code cpu.current = a :: rest)
    (free : held rest = false) (place : Place) {sie : Bool} (fresh : place.Fresh)
    (holds : place.holds = a.place.holds) (masked : place.masked = true → sie = false) :
    Balanced image { cpu.run ({ a with place } :: rest) with sie } :=
  balanced.goTo running place (.of_free fresh free) holds masked balanced.whileAtomic
    balanced.incorrectCount

/-- The code around `schedule` in which the count is zero, up to the place that makes it one. -/
theorem instr_unheld (balanced : Balanced image cpu) {fuel : Nat}
    (running : cpu.code cpu.current = a :: rest) (active : a.place.passive = false)
    (unheld : a.place.holds = false) (took : cpu.instr image fuel a rest = some next) :
    Balanced image next := by
  have nested := balanced.nested _ balanced.current_mem
  have count := balanced.count_current
  rw [running] at nested count
  obtain ⟨fits, _, _⟩ := nested
  -- Where the innermost code is not passive, no code further out holds the count.
  have free : held rest = false := Activation.Fits.free fits active
  have zero : cpu.count = 0 := by
    rw [count, heldCount, held_cons, free, unheld]
    rfl
  have fresh := fits.1
  cases place : a.place with
  | retFromFork =>
    simp only [Cpu.instr, place, Option.some.injEq] at took
    subst took
    exact balanced.goOn running free .retFromException trivial (by rw [place]; rfl)
      (fun here => by cases here)
  | retFromKernelThread =>
    simp only [Cpu.instr, place, Option.some.injEq] at took
    subst took
    exact balanced.goOn running free .kernel trivial (by rw [place]; rfl) (fun here => by cases here)
  -- With work pending the task goes into `schedule`, which disables preemption first.
  | retToUser =>
    simp only [Cpu.instr, place, Option.some.injEq] at took
    subst took
    split
    · exact balanced.goOn running free (.preemptDisable .workResched) trivial (by rw [place]; rfl)
        (fun here => by cases here)
    · exact balanced.goOn running free .noWorkPending trivial (by rw [place]; rfl)
        (fun here => by cases here)
  | noWorkPending =>
    simp only [Cpu.instr, place, Option.some.injEq] at took
    subst took
    exact balanced.goOn running free .restoreAll trivial (by rw [place]; rfl)
      (fun here => by cases here)
  -- A task that is not to be preempted goes straight back.
  | needResched =>
    simp only [Cpu.instr, place, Option.some.injEq] at took
    subst took
    split
    · exact balanced.goOn running free .restoreAll trivial (by rw [place]; rfl)
        (fun here => by cases here)
    · exact balanced.goOn running free .checkCount trivial (by rw [place]; rfl)
        (fun here => by cases here)
  | checkCount =>
    simp only [Cpu.instr, place, Option.some.injEq] at took
    subst took
    -- The test finds zero, so nothing is reported.
    have silent : (cpu.incorrectCount || cpu.count != 0) = false := by
      rw [balanced.incorrectCount, zero]
      rfl
    exact balanced.goTo running (.preemptDisable .preemptScheduleIrq) (.of_free trivial free)
      (by rw [place]; rfl) (fun here => by cases here) balanced.whileAtomic silent
  | preemptDisable caller =>
    simp only [Cpu.instr, place, Option.some.injEq] at took
    subst took
    exact balanced.goOn running free (.preemptDisableStore caller cpu.count) zero
      (by rw [place]; rfl) (fun here => by cases here)
  | preemptDisableStore caller loaded =>
    simp only [Cpu.instr, place, Option.some.injEq] at took
    subst took
    rw [place] at fresh
    -- What was loaded before an interrupt is still the count, as each interrupt restores it.
    have nothing : loaded = 0 := fresh
    rw [nothing]
    split
    · exact balanced.store running free trivial rfl rfl
    · exact balanced.store running free trivial rfl rfl
  -- These places are passive.
  | kernel | retFromException | retToKernel | restoreAll =>
    rw [place] at active
    cases active
  | _ =>
    rw [place] at unheld
    cases unheld

/-- The code around `schedule` in which the count is one, `__schedule` among it. -/
theorem instr_held (balanced : Balanced image cpu) {fuel : Nat} (fueled : nrTask < fuel)
    (running : cpu.code cpu.current = a :: rest) (active : a.place.passive = false)
    (holds : a.place.holds = true) (took : cpu.instr image fuel a rest = some next) :
    Balanced image next := by
  have nested := balanced.nested _ balanced.current_mem
  have count := balanced.count_current
  rw [running] at nested count
  obtain ⟨fits, _, _⟩ := nested
  have free : held rest = false := Activation.Fits.free fits active
  have one : cpu.count = 1 := by
    rw [count, heldCount, held_cons, holds]
    rfl
  have fresh := fits.1
  cases place : a.place with
  -- Interrupts are on in `schedule_debug`, but the count stays one.
  | irqEnable =>
    simp only [Cpu.instr, place, Option.some.injEq] at took
    subst took
    exact balanced.goOn running free (.scheduleDebug .preemptScheduleIrq) trivial
      (by rw [place]; rfl) (fun here => by cases here)
  | scheduleDebug caller =>
    simp only [Cpu.instr, place, Option.some.injEq] at took
    subst took
    -- The test finds one, so nothing is reported.
    have silent : (cpu.whileAtomic || cpu.count != 1) = false := by
      rw [balanced.whileAtomic, one]
      rfl
    exact balanced.goTo running (.irqDisable caller) (.of_free trivial free) (by rw [place]; rfl)
      (fun here => by cases here) silent balanced.incorrectCount
  -- From here on no interrupt comes before the next task is picked.
  | irqDisable caller =>
    simp only [Cpu.instr, place, Option.some.injEq] at took
    subst took
    exact balanced.goOn running free (.pickNextTask caller) trivial (by rw [place]; rfl)
      (fun _ => rfl)
  | pickNextTask caller => exact balanced.switch fueled running place took
  | switchTo caller =>
    simp only [Cpu.instr, place, Option.some.injEq] at took
    subst took
    -- The statistics of the run queue are none of the counts.
    let finished : Cpu :=
      { cpu with roster := { cpu.roster with kernel := cpu.roster.kernel.scheduleFinish } }
    have kept : Balanced image finished :=
      ⟨{ balanced.table with }, balanced.count, balanced.nested, balanced.waiting, balanced.masked,
        balanced.whileAtomic, balanced.incorrectCount⟩
    exact kept.goOn running free (.scheduleTail caller) trivial (by rw [place]; rfl)
      (fun here => by cases here)
  -- A preempted task disables interrupts once more before it enables preemption.
  | scheduleTail caller =>
    simp only [Cpu.instr, place, Option.some.injEq] at took
    subst took
    split
    · exact balanced.goOn running free .irqDisableAgain trivial (by rw [place]; rfl)
        (fun here => by cases here)
    · exact balanced.goOn running free (.preemptEnable caller) trivial (by rw [place]; rfl)
        (fun here => by cases here)
  | irqDisableAgain =>
    simp only [Cpu.instr, place, Option.some.injEq] at took
    subst took
    exact balanced.goOn running free (.preemptEnable .preemptScheduleIrq) trivial
      (by rw [place]; rfl) (fun _ => rfl)
  -- The count is loaded here and stored in the next step, and an interrupt may come in between.
  | preemptEnable caller =>
    simp only [Cpu.instr, place, Option.some.injEq] at took
    subst took
    exact balanced.goOn running free (.preemptEnableStore caller cpu.count) one (by rw [place]; rfl)
      (fun here => by cases here)
  | preemptEnableStore caller loaded =>
    simp only [Cpu.instr, place, Option.some.injEq] at took
    subst took
    rw [place] at fresh
    -- What was loaded on the way down is still the count too.
    have once : loaded = 1 := fresh
    rw [once]
    refine balanced.store running free ?_ ?_ ?_
    · cases caller <;> exact trivial
    · cases caller <;> rfl
    · cases caller <;> rfl
  | _ =>
    rw [place] at holds
    cases holds

/-- The rest of the code around `schedule`, which is where the count is tested and changed. -/
theorem instr_active (balanced : Balanced image cpu) {fuel : Nat} (fueled : nrTask < fuel)
    (running : cpu.code cpu.current = a :: rest) (active : a.place.passive = false)
    (took : cpu.instr image fuel a rest = some next) : Balanced image next := by
  cases holds : a.place.holds with
  | false => exact balanced.instr_unheld running active holds took
  | true => exact balanced.instr_held fueled running active holds took

/-- An event that changes neither code nor counts. -/
theorem keeps (balanced : Balanced image cpu) {roster : Roster} (table : Consistent image roster)
    (forked : roster.forked = cpu.roster.forked) (current : roster.kernel.current = cpu.current)
    (counts : ∀ t ∈ cpu.roster.tasks image,
      roster.kernel.preemptCount t = cpu.roster.kernel.preemptCount t) :
    Balanced image { cpu with roster } := by
  -- The code goes on as it was.
  have step : Goes image cpu { cpu with roster } (cpu.code cpu.current) :=
    ⟨table, forked, current, (Function.update_eq_self _ _).symm, fun t task _ => counts t task,
      (counts _ balanced.current_mem).trans balanced.count_current,
      balanced.nested _ balanced.current_mem, balanced.masked, balanced.whileAtomic,
      balanced.incorrectCount⟩
  exact balanced.goes step

/-- A trap puts its handler on top of the code it interrupts. -/
theorem trap (balanced : Balanced image cpu) (toUser : Bool)
    (interruptible : Interruptible (cpu.code cpu.current))
    (user : toUser = true → cpu.code cpu.current = []) : Balanced image (cpu.trap toUser) := by
  have fits : Activation.Fits { place := .kernel, toUser, spie := cpu.sie }
      (cpu.code cpu.current) := by
    refine ⟨trivial, fun outer => ⟨rfl, ?_⟩⟩
    cases toUser with
    | false => rfl
    | true =>
      -- Nothing is held in user mode.
      rw [user rfl] at outer
      cases outer
  exact balanced.goes ⟨balanced.table, rfl, rfl, rfl, fun _ _ _ => rfl, balanced.count_current,
    ⟨fits, interruptible, balanced.nested _ balanced.current_mem⟩, fun _ => rfl,
    balanced.whileAtomic, balanced.incorrectCount⟩

/-- A fork leaves a new task that waits for its first run. -/
theorem fork (balanced : Balanced image cpu) {cloneFlags fn arg : U64}
    (took : cpu.fork image a cloneFlags fn arg = some next) : Balanced image next := by
  rw [Cpu.fork] at took
  split at took
  · cases took
  -- The fork fails, or there is one more task, which starts with a count of zero.
  rcases balanced.table.fork_cases cloneFlags fn arg with
    ⟨kernel, result, table, current, counts⟩ |
    ⟨pid, kernel, result, table, current, fresh, zero, counts⟩
  · simp only [result, Option.some.injEq] at took
    subst took
    exact balanced.keeps table rfl current counts
  · simp only [result, Option.some.injEq] at took
    subst took
    have same : kernel.current = cpu.current := current
    generalize starts : (if cloneFlags &&& pfKthread = 0 then { a with place := Place.retFromFork }
      else { place := .retFromKernelThread, toUser := false, spie := true } : Activation) = start
    -- Either way the new task begins at a place that does not hold the count.
    have begins : start.place.first = true := by
      rw [← starts]
      split <;> rfl
    have tasks : ∀ t, t ∈ image.initTask :: (cpu.roster.forked ++ [kernel.gTask pid]) →
        t ∈ cpu.roster.tasks image ∨ t = kernel.gTask pid := by
      intro t task
      rw [← List.cons_append, List.mem_append, List.mem_singleton] at task
      exact task
    -- The page of the new task was not one of a task, so the code of the old ones stays.
    have old : ∀ t ∈ cpu.roster.tasks image,
        Function.update cpu.code (kernel.gTask pid) [start] t = cpu.code t := by
      intro t task
      refine Function.update_of_ne ?_ _ _
      rintro rfl
      exact fresh task
    have new := Function.update_self (kernel.gTask pid) [start] cpu.code
    -- The old tasks keep what they had, and the new one has what its first run needs.
    refine ⟨table, fun t task => ?_, fun t task => ?_, fun t task apart => ?_, ?_,
      balanced.whileAtomic, balanced.incorrectCount⟩
    · show kernel.preemptCount t = heldCount (Function.update cpu.code (kernel.gTask pid) [start] t)
      rcases tasks t task with known | rfl
      · rw [old t known, counts t known]
        exact balanced.count t known
      · rw [new, zero, heldCount, held_cons, Place.holds_of_first begins]
        rfl
    · show Nested (Function.update cpu.code (kernel.gTask pid) [start] t)
      rcases tasks t task with known | rfl
      · rw [old t known]
        exact balanced.nested t known
      · rw [new]
        exact ⟨.of_free (Place.fresh_of_first begins) rfl, trivial, trivial⟩
    · show Waiting (Function.update cpu.code (kernel.gTask pid) [start] t)
      rcases tasks t task with known | rfl
      · rw [old t known]
        exact balanced.waiting t known (same ▸ apart)
      · rw [new]
        exact Or.inr ⟨start, rfl, begins⟩
    · -- The running task is an old one.
      show MaskedTop cpu.sie (Function.update cpu.code (kernel.gTask pid) [start] kernel.current)
      rw [same, old _ balanced.current_mem]
      exact balanced.masked

/-- Kernel code outside of `schedule` has no hand in the count. -/
theorem act (balanced : Balanced image cpu) {fuel : Nat}
    (running : cpu.code cpu.current = a :: rest) (place : a.place = .kernel) {act : KernelAct}
    (took : cpu.act image fuel a rest act = some next) : Balanced image next := by
  have nested := balanced.nested _ balanced.current_mem
  have count := balanced.count_current
  rw [running] at nested count
  -- Kernel code does not hold the count, whatever it does.
  obtain ⟨fits, interruptible, nested⟩ := nested
  have unmasked : a.place.masked = false := by
    rw [place]
    rfl
  cases act with
  -- An exception of kernel code comes whether interrupts are on or not.
  | exception =>
    cases took
    refine balanced.trap false ?_ fun user => by cases user
    rw [running]
    exact unmasked
  -- The tick of the handler changes slices, and no count.
  | tick =>
    simp only [Cpu.act, Roster.step, Option.map_some, Option.some.injEq] at took
    subst took
    obtain ⟨counts, current⟩ := Kernel.tickHandlePeriodic_counts cpu.roster.kernel
    exact balanced.keeps balanced.table.tick rfl current fun t _ => congrFun counts t
  | fork cloneFlags fn arg => exact balanced.fork took
  -- Kernel code may turn interrupts on and off, as it is at no place that needs them off.
  | irq on =>
    cases took
    refine ⟨balanced.table, balanced.count, balanced.nested, balanced.waiting, ?_,
      balanced.whileAtomic, balanced.incorrectCount⟩
    show MaskedTop on (cpu.code cpu.current)
    rw [running]
    intro masked
    rw [unmasked] at masked
    cases masked
  -- A call of `schedule` comes from the outermost code only.
  | schedule =>
    simp only [Cpu.act] at took
    split at took
    · rename_i outermost
      cases took
      rw [outermost] at running
      exact balanced.goTo running (.preemptDisable .kernelCode) (.of_free trivial rfl)
        (by rw [place]; rfl) (fun here => by cases here) balanced.whileAtomic
        balanced.incorrectCount
    · cases took
  -- The handler is done, and goes on behind what it has interrupted.
  | leave =>
    cases took
    exact balanced.goTo running .retFromException ⟨trivial, fun outer => ⟨rfl, (fits.2 outer).2⟩⟩
      (by rw [place]; rfl) (fun here => by cases here) balanced.whileAtomic balanced.incorrectCount
  -- The kernel thread becomes a user task, whose frame is all that is left.
  | moveToUserSpace spie =>
    simp only [Cpu.act] at took
    split at took
    · rename_i outermost
      cases took
      rw [outermost] at running count
      refine balanced.goes ⟨balanced.table, rfl, rfl, rfl, fun _ _ _ => rfl, count,
        ⟨.of_free fits.1 rfl, trivial, trivial⟩, fun masked => ?_, balanced.whileAtomic,
        balanced.incorrectCount⟩
      rw [unmasked] at masked
      cases masked
    · cases took
  -- The code of the thread ends here, with a count of zero.
  | enterGuest spie =>
    simp only [Cpu.act] at took
    split at took
    · rename_i outermost
      cases took
      rw [outermost, heldCount, held_cons, place] at count
      exact balanced.goes ⟨balanced.table, rfl, rfl, rfl, fun _ _ _ => rfl, count, trivial, trivial,
        balanced.whileAtomic, balanced.incorrectCount⟩
    · cases took

/-- Every event keeps the invariant. -/
theorem step (balanced : Balanced image cpu) {fuel : Nat} (fueled : nrTask < fuel)
    {event : CpuEvent} (took : Cpu.step image fuel event cpu = some next) :
    Balanced image next := by
  -- Without code in the kernel a task runs in user mode.
  cases running : cpu.code cpu.current with
  | nil =>
    have free : Interruptible (cpu.code cpu.current) := by
      rw [running]
      trivial
    cases event with
    | interrupt =>
      simp only [Cpu.step, running, Option.some.injEq] at took
      subst took
      exact balanced.trap true free fun _ => running
    | userTrap =>
      simp only [Cpu.step, running, Option.some.injEq] at took
      subst took
      exact balanced.trap true free fun _ => running
    | instr => simp only [Cpu.step, running, reduceCtorEq] at took
    -- User mode has neither instructions of the kernel nor its acts.
    | act act => simp only [Cpu.step, running, reduceCtorEq] at took
  | cons a rest =>
    cases event with
    | interrupt =>
      simp only [Cpu.step, running] at took
      split at took
      · rename_i on
        simp only [Option.some.injEq] at took
        subst took
        refine balanced.trap false ?_ fun user => by cases user
        -- Where interrupts have to be off they are off.
        have masked := balanced.masked
        rw [running] at masked ⊢
        cases here : a.place.masked with
        | false => exact here
        | true =>
          rw [masked here] at on
          cases on
      · cases took
    | userTrap => simp only [Cpu.step, running, reduceCtorEq] at took
    | instr =>
      simp only [Cpu.step, running] at took
      cases passive : a.place.passive with
      | true => exact balanced.instr_passive running passive took
      | false => exact balanced.instr_active fueled running passive took
    | act act =>
      simp only [Cpu.step, running] at took
      split at took
      · rename_i place
        exact balanced.act running place took
      · cases took

end Balanced

/-- Before the first event only the first task has code, which is outside of `schedule`. -/
theorem Balanced.boot {image : Image} {k : Kernel} (loaded : Loaded image k)
    (zero : k.preemptCount image.initTask = 0) : Balanced image (Cpu.boot image k) := by
  -- At the start there is one task, with one piece of code.
  have tasks : ∀ t, t ∈ (Cpu.boot image k).roster.tasks image → t = image.initTask :=
    fun t task => List.mem_singleton.mp task
  have current : (Cpu.boot image k).current = image.initTask := loaded.current
  have code : (Cpu.boot image k).code image.initTask =
      [{ place := .kernel, toUser := false, spie := false }] := if_pos rfl
  refine ⟨loaded.consistent, fun t task => ?_, fun t task => ?_, fun t task apart => ?_, ?_, rfl, rfl⟩
  · rw [tasks t task, code]
    exact zero
  · rw [tasks t task, code]
    exact ⟨.of_free trivial rfl, trivial, trivial⟩
  · exact absurd ((tasks t task).trans current.symm) apart
  · rw [current, code]
    -- The first task runs with interrupts off.
    exact fun _ => rfl

/--
In every state of every history: a task that does not run has a count of one if it was switched out
in `__schedule` and of zero if it has never run; the running task has a count of one exactly if some
of its code is between `preempt_disable` and `preempt_enable`; no count is negative; neither
report was made; and no task is in `__schedule` twice.
-/
theorem preemptCount_balanced {image : Image} {k : Kernel} (loaded : Loaded image k)
    (zero : k.preemptCount image.initTask = 0) {fuel : Nat} (fueled : nrTask < fuel)
    {events : List CpuEvent} {cpu : Cpu}
    (ran : Transition.run (Cpu.step image fuel) events (Cpu.boot image k) = some cpu) :
    (∀ t ∈ cpu.roster.tasks image, t ≠ cpu.current →
      (∃ a rest caller, cpu.code t = a :: rest ∧ a.place = .switchTo caller ∧
        cpu.roster.kernel.preemptCount t = 1) ∨
      ∃ a, cpu.code t = [a] ∧ a.place.first = true ∧ cpu.roster.kernel.preemptCount t = 0) ∧
    (cpu.count = if (cpu.code cpu.current).any (fun a => a.place.holds) then 1 else 0) ∧
    (∀ t ∈ cpu.roster.tasks image, 0 ≤ (cpu.roster.kernel.preemptCount t).toInt) ∧
    cpu.whileAtomic = false ∧ cpu.incorrectCount = false ∧
    ∀ t ∈ cpu.roster.tasks image, (cpu.code t).countP (fun a => a.place.inSchedule) ≤ 1 := by
  have balanced : Balanced image cpu :=
    Transition.run_invariant (fun _ _ _ held took => held.step fueled took)
      (Balanced.boot loaded zero) ran
  refine ⟨fun t task apart => ?_, balanced.count_current, fun t task => ?_, balanced.whileAtomic,
    balanced.incorrectCount, fun t task => ?_⟩
  · have count := balanced.count t task
    -- A task that is switched out is in `__schedule`, with the count held, or has never run.
    rcases balanced.waiting t task apart with ⟨a, rest, caller, code, place⟩ | ⟨a, code, place⟩
    · rw [code, heldCount, held_cons, place] at count
      exact Or.inl ⟨a, rest, caller, code, place, count⟩
    · rw [code, heldCount, held_cons, Place.holds_of_first place] at count
      exact Or.inr ⟨a, code, place, count⟩
  · -- A count is zero or one, and neither is negative.
    rw [balanced.count t task, heldCount]
    split <;> decide
  · refine (balanced.nested t task).inSchedule.trans ?_
    split
    · exact Nat.le_refl _
    · exact Nat.zero_le _

/-- `schedule` is interrupted between the load and the store of `preempt_disable`. -/
def exampleEvents : List CpuEvent :=
  [.act (.irq true), .act .schedule, .instr, .interrupt, .act .leave, .instr, .instr, .instr, .instr,
    .instr]

/-- The interrupt does no harm: the count is one when `schedule_debug` looks at it. -/
theorem preemptCount_balanced_interrupted :
    ∃ cpu, Transition.run (Cpu.step exampleImage 129) exampleEvents
        (Cpu.boot exampleImage exampleKernel) = some cpu ∧
      cpu.count = 1 ∧ cpu.whileAtomic = false := by
  -- The run is an interrupt in the middle of `__schedule`.
  obtain ⟨cpu, ran, held⟩ : ∃ cpu, Transition.run (Cpu.step exampleImage 129) exampleEvents
      (Cpu.boot exampleImage exampleKernel) = some cpu ∧
      (cpu.code cpu.current).any (fun a => a.place.holds) = true := ⟨_, rfl, rfl⟩
  obtain ⟨_, count, _, atomic, _⟩ :=
    preemptCount_balanced exampleKernel_loaded rfl (by decide) ran
  exact ⟨cpu, ran, count.trans (if_pos held), atomic⟩

end Benos
