import Benos.Lib.Transition
import Benos.Sched.ContextSwitch

/-! Tasks as coroutines: what a task finds when it is switched to is what it left. -/

namespace Benos

/-- The arguments a task was forked with. -/
structure Birth where
  cloneFlags : U64
  fn : U64
  arg : U64

/-- The hart, the scheduler and its tasks, together with a record of what the tasks did. -/
structure Threads where
  hart : Hart
  kernel : Kernel
  forked : List U64
  /-- The registers a task had when it last called `cpu_switch_to`, if it ever did. -/
  left : U64 → Option (Reg → U64)
  /-- How a task was made. -/
  born : U64 → Option Birth

namespace Threads

/-- The tasks, the first one being `init_task`. -/
def tasks (image : Image) (s : Threads) : List U64 := image.initTask :: s.forked

/-- The running task. -/
def current (s : Threads) : U64 := s.hart.get .tp

/-- `do_fork`, called by the running task. -/
def fork (image : Image) (birth : Birth) (s : Threads) : Threads :=
  match (s.kernel.on s.hart).doFork image birth.cloneFlags birth.fn birth.arg with
  | (some pid, kernel) =>
    { s with
      hart := { s.hart with mem := kernel.mem }
      kernel
      forked := s.forked ++ [kernel.gTask pid]
      born := Function.update s.born (kernel.gTask pid) (some birth) }
  | (none, kernel) => { s with hart := { s.hart with mem := kernel.mem }, kernel }

/-- The state after a fork that found a page and a pid. -/
def bear (image : Image) (birth : Birth) (pid : Fin nrTask) (s : Threads) : Threads :=
  let p := s.kernel.pages.getFreePage.1
  let kernel := (s.kernel.on s.hart).forkPage.forkTask image birth.cloneFlags birth.fn birth.arg p pid
  { s with
    hart := { s.hart with mem := kernel.mem }
    kernel
    forked := s.forked ++ [p]
    born := Function.update s.born p (some birth) }

/-- What a fork can do: fail without a page, fail without a pid, or make a task. -/
theorem fork_cases (image : Image) (birth : Birth) (s : Threads) :
    (s.kernel.pages.getFreePage.1 = 0 ∧ s.fork image birth =
      { s with kernel := { s.kernel.on s.hart with pages := s.kernel.pages.getFreePage.2 } }) ∨
    (s.kernel.pages.getFreePage.1 ≠ 0 ∧ (s.kernel.on s.hart).forkPage.findEmptyTask = none ∧
      s.fork image birth =
        { s with
          hart := { s.hart with mem := (s.kernel.on s.hart).forkPage.mem }
          kernel := (s.kernel.on s.hart).forkPage }) ∨
    ∃ pid, s.kernel.pages.getFreePage.1 ≠ 0 ∧ s.fork image birth = s.bear image birth pid := by
  have named : (s.kernel.on s.hart).pages = s.kernel.pages := rfl
  rcases (s.kernel.on s.hart).doFork_cases image birth.cloneFlags birth.fn birth.arg with
    ⟨failed, result⟩ | ⟨nonzero, full, result⟩ | ⟨pid, nonzero, _, result⟩
  · exact Or.inl ⟨failed, by rw [fork, result, named]; rfl⟩
  · exact Or.inr (Or.inl ⟨nonzero, full, by rw [fork, result]⟩)
  · -- The table now names the new task under its pid.
    have new : ((s.kernel.on s.hart).forkPage.forkTask image birth.cloneFlags birth.fn birth.arg
        s.kernel.pages.getFreePage.1 pid).gTask pid = s.kernel.pages.getFreePage.1 :=
      Function.update_self pid _ s.kernel.gTask
    refine Or.inr (Or.inr ⟨pid, nonzero, ?_⟩)
    rw [named] at result
    rw [fork, result]
    simp only [new, bear]

/-- The running task calls `cpu_switch_to` for another task. -/
structure Calls (image : Image) (s : Threads) (next : U64) : Prop where
  prev : s.hart.get .a0 = s.current
  target : s.hart.get .a1 = next
  known : next ∈ s.tasks image
  other : next ≠ s.current

/--
What the running task may do otherwise: anything that leaves the contexts of the others alone,
does not give the stack of a task back, and does not turn it into another task.
-/
structure Works (image : Image) (s : Threads) (hart : Hart) (kernel : Kernel) : Prop where
  tp : hart.get .tp = s.current
  contexts : ∀ t ∈ s.tasks image, t ≠ s.current → ∀ offset : U64,
    offset.toNat < cpuContextSize → hart.mem (t + offset) = s.hart.mem (t + offset)
  start : kernel.pages.phyStartAddress = s.kernel.pages.phyStartAddress
  taken : ∀ t ∈ s.forked, kernel.pages.Taken t

/-- One step of the running task. -/
inductive Step (image : Image) : Threads → Threads → Prop
  | work {s : Threads} {hart : Hart} {kernel : Kernel} (works : s.Works image hart kernel) :
    Step image s { s with hart, kernel }
  | fork (s : Threads) (birth : Birth) : Step image s (s.fork image birth)
  | switch {s : Threads} {next : U64} {hart : Hart} (calls : s.Calls image next)
    (ran : cpuSwitchTo s.hart = some hart) :
    Step image s { s with hart, left := Function.update s.left s.current (some s.hart.get) }

/-- The state in which the first task runs alone. -/
structure Alone (image : Image) (s : Threads) : Prop where
  homes : Homes image s.kernel.pages
  forked : s.forked = []
  current : s.current = image.initTask
  left : ∀ t, s.left t = none

/-- The context of a task that has not run yet. -/
def Fresh (image : Image) (mem : Memory) (t : U64) (birth : Birth) : Prop :=
  mem (t + contextSp) = taskPtRegs t ∧
    if birth.cloneFlags &&& pfKthread ≠ 0 then
      mem (t + contextRa) = image.retFromKernelThread ∧ mem (t + contextS 1) = birth.fn ∧
        mem (t + contextS 2) = birth.arg
    else mem (t + contextRa) = image.retFromFork

/-- The context in memory is what the task left, or what it was born with. -/
structure Waiting (image : Image) (s : Threads) (t : U64) : Prop where
  saved : ∀ regs, s.left t = some regs → ∀ slot ∈ contextSlots,
    s.hart.mem (t + slot.2) = regs slot.1
  fresh : s.left t = none → t ∈ s.forked ∧
    ∃ birth, s.born t = some birth ∧ Fresh image s.hart.mem t birth

/-- Every task that does not run waits with its context intact. -/
structure Isolated (image : Image) (s : Threads) : Prop where
  homes : Homes image s.kernel.pages
  nodup : (s.tasks image).Nodup
  taken : ∀ t ∈ s.forked, s.kernel.pages.Taken t
  current : s.current ∈ s.tasks image
  unknown : ∀ t, t ∉ s.tasks image → s.left t = none
  waiting : ∀ t ∈ s.tasks image, t ≠ s.current → Waiting image s t

namespace Isolated

variable {image : Image} {s : Threads}

/-- Where the page of a task comes from. -/
theorem page (isolated : Isolated image s) {t : U64} (member : t ∈ s.tasks image) :
    t = image.initTask ∨ s.kernel.pages.Taken t := by
  rcases List.mem_cons.mp member with first | forked
  · exact Or.inl first
  · exact Or.inr (isolated.taken t forked)

/-- Every task is aligned as its page is. -/
theorem aligned (isolated : Isolated image s) {t : U64} (member : t ∈ s.tasks image) :
    Aligned t := by
  unfold Aligned
  -- The first task is aligned by the linker, the others lie on pages.
  rcases isolated.page member with rfl | taken
  · have whole := isolated.homes.initAligned
    omega
  · have whole := (isolated.homes.taken_toNat taken).2.2
    omega

end Isolated

/-- Contexts that keep their words keep waiting. -/
theorem Waiting.congr {image : Image} {s s' : Threads} {t : U64} (waiting : Waiting image s t)
    (words : ∀ offset : U64, offset.toNat < cpuContextSize →
      s'.hart.mem (t + offset) = s.hart.mem (t + offset))
    (left : s'.left t = s.left t) (born : s'.born t = s.born t)
    (forked : t ∈ s.forked → t ∈ s'.forked) : Waiting image s' t := by
  refine ⟨fun regs known slot member => ?_, fun unknown => ?_⟩
  · rw [words _ (contextSlots_within member)]
    exact waiting.saved regs (left ▸ known) slot member
  · obtain ⟨member, birth, made, fresh⟩ := waiting.fresh (left ▸ unknown)
    refine ⟨forked member, birth, born.trans made, ?_⟩
    -- All the words of a fresh context lie within it.
    unfold Fresh at fresh ⊢
    rw [words _ (by decide), words _ (by decide), words _ (by decide), words _ (by decide)]
    exact fresh

namespace Isolated

variable {image : Image} {s : Threads}

/-- The kernel of a state sees the state's own memory. -/
theorem alone (start : Alone image s) : Isolated image s := by
  -- There is one task, and it is the current one.
  have only : ∀ t ∈ s.tasks image, t = image.initTask := by
    intro t member
    rw [tasks, start.forked] at member
    exact List.mem_singleton.mp member
  refine ⟨start.homes, ?_, ?_, ?_, fun t _ => start.left t, ?_⟩
  · rw [tasks, start.forked]
    exact List.nodup_singleton _
  · intro t member
    rw [start.forked] at member
    exact absurd member List.not_mem_nil
  · rw [start.current]
    exact List.mem_cons_self
  · intro t member other
    exact absurd ((only t member).trans start.current.symm) other

/-- The other work of the running task keeps all contexts. -/
theorem work (isolated : Isolated image s) {hart : Hart} {kernel : Kernel}
    (works : s.Works image hart kernel) : Isolated image { s with hart, kernel } := by
  obtain ⟨tp, contexts, start, taken⟩ := works
  refine ⟨isolated.homes.congr start, isolated.nodup, taken, ?_, isolated.unknown, ?_⟩
  · show hart.get .tp ∈ _
    rw [tp]
    exact isolated.current
  · intro t member other
    -- Work of the current task leaves the saved contexts of the others alone.
    have out : t ≠ s.current := fun same => other (same.trans tp.symm)
    exact (isolated.waiting t member out).congr (contexts t member out) rfl rfl id

/-- A switch writes into the page of the task switched out only. -/
theorem kept (isolated : Isolated image s) {next : U64} {hart : Hart}
    (calls : s.Calls image next) (switched : Switched s.hart hart) {t : U64}
    (member : t ∈ s.tasks image) (out : t ≠ s.current) {offset : U64}
    (within : offset.toNat < cpuContextSize) :
    hart.mem (t + offset) = s.hart.mem (t + offset) := by
  -- The context that is written lies in the page of the task that is switched out.
  have pages := isolated.homes.pagesApart out (isolated.page member)
    (isolated.page isolated.current)
  have size : cpuContextSize = 112 := rfl
  have small : offset.toNat < 4096 := by omega
  apply switched.kept
  intro slot inside same
  have bound := contextSlots_within inside
  have slotSmall : slot.2.toNat < 4096 := by omega
  rw [calls.prev] at same
  exact pages.not_inPage small (same ▸ inPage_add slotSmall)

/-- A switch saves one context and leaves the others. -/
theorem switch (isolated : Isolated image s) {next : U64} {hart : Hart}
    (calls : s.Calls image next) (switched : Switched s.hart hart) :
    Isolated image
      { s with hart, left := Function.update s.left s.current (some s.hart.get) } := by
  have tp : hart.get .tp = next := switched.tp.trans calls.target
  refine ⟨isolated.homes, isolated.nodup, isolated.taken, ?_, ?_, ?_⟩
  · show hart.get .tp ∈ _
    rw [tp]
    exact calls.known
  · intro t absent
    have other : t ≠ s.current := fun same => absent (same ▸ isolated.current)
    exact (Function.update_of_ne other _ _).trans (isolated.unknown t absent)
  · intro t member _
    by_cases out : t = s.current
    · -- The task switched out left the registers that were just stored.
      subst out
      refine ⟨fun regs known slot inside => ?_, fun unknown => ?_⟩
      · have same : s.hart.get = regs := by
          have known : Function.update s.left s.current (some s.hart.get) s.current = some regs :=
            known
          rw [Function.update_self] at known
          exact Option.some.inj known
        rw [← same, ← calls.prev]
        exact switched.saved slot inside
      · have unknown : Function.update s.left s.current (some s.hart.get) s.current = none :=
          unknown
        rw [Function.update_self] at unknown
        cases unknown
    · -- Another task waits with the context that it has left.
      exact (isolated.waiting t member out).congr
        (fun _ within => isolated.kept calls switched member out within)
        (Function.update_of_ne out _ _) rfl id

/-- A new page is no task, and its page is apart from the pages of all tasks. -/
theorem newPage (isolated : Isolated image s) (nonzero : s.kernel.pages.getFreePage.1 ≠ 0) :
    s.kernel.pages.getFreePage.1 ∉ s.tasks image ∧
      Homes image s.kernel.pages.getFreePage.2 ∧
      ∀ t ∈ s.tasks image, PagesApart t s.kernel.pages.getFreePage.1 := by
  obtain ⟨untaken, taken⟩ := PageAlloc.getFreePage_taken nonzero
  obtain ⟨start, keeps⟩ := PageAlloc.getFreePage_keeps s.kernel.pages
  have homes : Homes image s.kernel.pages.getFreePage.2 := isolated.homes.congr start
  have pageLater : ∀ t ∈ s.tasks image,
      t = image.initTask ∨ s.kernel.pages.getFreePage.2.Taken t := fun t member =>
    (isolated.page member).imp_right (keeps t)
  -- Every task holds a page that was handed out before.
  have other : ∀ t ∈ s.tasks image, t ≠ s.kernel.pages.getFreePage.1 := by
    rintro t member rfl
    rcases isolated.page member with first | old
    · exact (homes.ne_initTask taken).1 first
    · exact untaken old
  refine ⟨fun member => other _ member rfl, homes, fun t member => ?_⟩
  exact homes.pagesApart (other t member) (pageLater t member) (Or.inr taken)

/-- A task that was forked waits to run for the first time. -/
theorem born (isolated : Isolated image s) (birth : Birth) {pid : Fin nrTask}
    (nonzero : s.kernel.pages.getFreePage.1 ≠ 0) :
    Isolated image (s.bear image birth pid) := by
  obtain ⟨fresh, homes, apart⟩ := isolated.newPage nonzero
  obtain ⟨_, taken⟩ := PageAlloc.getFreePage_taken nonzero
  obtain ⟨_, keeps⟩ := PageAlloc.getFreePage_keeps s.kernel.pages
  -- The whole of `do_fork` writes into the new page only.
  have outside : AgreeOutside s.kernel.pages.getFreePage.1 s.hart.mem
      ((s.kernel.on s.hart).forkPage.forkTask image birth.cloneFlags birth.fn birth.arg
        s.kernel.pages.getFreePage.1 pid).mem :=
    Kernel.forkTask_outside (k := s.kernel.on s.hart) pid
  have old : ∀ t ∈ s.tasks image, t ≠ s.kernel.pages.getFreePage.1 := by
    rintro t member rfl
    exact fresh member
  -- The new task comes last in the list.
  have members : (s.bear image birth pid).tasks image =
      s.tasks image ++ [s.kernel.pages.getFreePage.1] := rfl
  refine ⟨homes, ?_, ?_, ?_, ?_, ?_⟩
  · rw [members]
    refine List.Nodup.append isolated.nodup (List.nodup_singleton _) ?_
    intro t member new
    exact old t member (List.mem_singleton.mp new)
  · intro t member
    rcases List.mem_append.mp member with forked | new
    · exact keeps t (isolated.taken t forked)
    · rw [List.mem_singleton.mp new]
      exact taken
  · rw [members]
    exact List.mem_append_left _ isolated.current
  · intro t absent
    apply isolated.unknown
    intro member
    rw [members] at absent
    exact absent (List.mem_append_left _ member)
  · intro t member other
    rw [members, List.mem_append, List.mem_singleton] at member
    rcases member with member | rfl
    · -- The context of an older task lies outside the new page.
      refine (isolated.waiting t member other).congr (fun offset within => ?_) rfl
        (Function.update_of_ne (old t member) _ _) (List.mem_append_left _)
      have small : offset.toNat < 4096 := by
        have size : cpuContextSize = 112 := rfl
        omega
      exact outside _ ((apart t member).not_inPage small)
    · -- The new task has never left the processor.
      refine ⟨fun regs known => ?_, fun _ => ⟨List.mem_append_right _ (List.mem_singleton_self _),
        birth, Function.update_self _ _ _, ?_⟩⟩
      · exact absurd ((isolated.unknown _ fresh).symm.trans known) (by simp)
      · show Fresh image (copyThread image _ _ birth.cloneFlags _ birth.fn birth.arg _) _ birth
        -- A kernel thread starts at its function, and a clone returns from the fork.
        by_cases thread : birth.cloneFlags &&& pfKthread ≠ 0
        · obtain ⟨ra, sp, s1, s2⟩ := copyThread_thread thread
          exact ⟨sp, by rw [if_pos thread]; exact ⟨ra, s1, s2⟩⟩
        · obtain ⟨ra, sp⟩ := copyThread_clone (not_not.mp thread)
          exact ⟨sp, by rw [if_neg thread]; exact ra⟩

/-- `do_fork` adds a waiting task, or is work like any other. -/
theorem fork (isolated : Isolated image s) (birth : Birth) :
    Isolated image (s.fork image birth) := by
  obtain ⟨start, keeps⟩ := PageAlloc.getFreePage_keeps s.kernel.pages
  have taken : ∀ t ∈ s.forked, s.kernel.pages.getFreePage.2.Taken t := fun t forked =>
    keeps t (isolated.taken t forked)
  rcases s.fork_cases image birth with ⟨_, result⟩ | ⟨nonzero, _, result⟩ | ⟨pid, nonzero, result⟩
  · rw [result]
    exact isolated.work ⟨rfl, fun _ _ _ _ _ => rfl, start, taken⟩
  · -- Without a pid the page that was cleared is lost, but it is nobody's.
    rw [result]
    have apart := (isolated.newPage nonzero).2.2
    refine isolated.work ⟨rfl, fun t member _ offset within => ?_, start, taken⟩
    have small : offset.toNat < 4096 := by
      have size : cpuContextSize = 112 := rfl
      omega
    exact Kernel.forkPage_outside (k := s.kernel.on s.hart) _ ((apart t member).not_inPage small)
  · rw [result]
    exact isolated.born birth nonzero

/-- A call of `cpu_switch_to` between two tasks runs to its end. -/
theorem calls (isolated : Isolated image s) {next : U64} (calls : s.Calls image next) :
    ∃ hart, cpuSwitchTo s.hart = some hart ∧ Switched s.hart hart := by
  apply cpuSwitchTo_switched
  · rw [calls.prev]
    exact isolated.aligned isolated.current
  · rw [calls.target]
    exact isolated.aligned calls.known

/-- Every step keeps the waiting tasks' contexts. -/
theorem step (isolated : Isolated image s) {s' : Threads} (took : Step image s s') :
    Isolated image s' := by
  -- What the machine does in a switch is a function, so it is what the lemma speaks of.
  cases took with
  | work works => exact isolated.work works
  | fork birth => exact isolated.fork birth
  | switch calls ran =>
    obtain ⟨hart, same, switched⟩ := isolated.calls calls
    rw [ran] at same
    cases same
    exact isolated.switch calls switched

end Isolated

/--
In every state any tasks can reach by forking and switching, a switch to another task runs to its
end, the task switched to finds `ra`, `sp` and `s0` to `s11` as it left them, itself in `tp` and
the task it was switched from in `a0`, or starts with its function and argument on its own frame
if it never ran; and no other task's saved context changes.
-/
theorem contextSwitch_isolated {image : Image} {start s : Threads} (alone : Alone image start)
    (reached : Relation.ReflTransGen (Step image) start s) {next : U64}
    (calls : s.Calls image next) :
    ∃ hart, cpuSwitchTo s.hart = some hart ∧
      hart.get .tp = next ∧ hart.get .a0 = s.current ∧ hart.pc = hart.get .ra ∧
      (∀ regs, s.left next = some regs → ∀ r ∈ switchedRegs, hart.get r = regs r) ∧
      (s.left next = none → ∃ birth, s.born next = some birth ∧
        hart.get .sp = taskPtRegs next ∧
        (birth.cloneFlags &&& pfKthread ≠ 0 → hart.pc = image.retFromKernelThread ∧
          hart.get .s1 = birth.fn ∧ hart.get .s2 = birth.arg) ∧
        (birth.cloneFlags &&& pfKthread = 0 → hart.pc = image.retFromFork)) ∧
      ∀ t ∈ s.tasks image, t ≠ s.current → ∀ offset : U64, offset.toNat < cpuContextSize →
        hart.mem (t + offset) = s.hart.mem (t + offset) := by
  have isolated : Isolated image s :=
    Transition.reachable_invariant (fun _ _ held took => held.step took) (Isolated.alone alone)
      reached
  obtain ⟨hart, ran, switched⟩ := isolated.calls calls
  -- The next task has left its registers, or is fresh.
  have waiting := isolated.waiting next calls.known calls.other
  -- What is loaded from a slot was in the memory before the switch.
  have loaded : ∀ slot ∈ contextSlots, hart.get slot.1 = s.hart.mem (next + slot.2) := by
    intro slot member
    rw [switched.loaded slot member, calls.target]
    exact isolated.kept calls switched calls.known calls.other (contextSlots_within member)
  refine ⟨hart, ran, switched.tp.trans calls.target, switched.a0.trans calls.prev, switched.pc,
    ?_, ?_, fun t member out _ within => isolated.kept calls switched member out within⟩
  · intro regs known r member
    obtain ⟨slot, inside, rfl⟩ := List.mem_map.mp (contextSlots_regs ▸ member)
    rw [loaded slot inside]
    exact waiting.saved regs known slot inside
  · intro unknown
    obtain ⟨_, birth, made, sp, entry⟩ := waiting.fresh unknown
    have ra := loaded (.ra, contextRa) (by decide)
    refine ⟨birth, made, (loaded (.sp, contextSp) (by decide)).trans sp, fun thread => ?_,
      fun clone => ?_⟩
    · rw [if_pos thread] at entry
      obtain ⟨entry, fn, arg⟩ := entry
      exact ⟨switched.pc.trans (ra.trans entry), (loaded (.s1, contextS 1) (by decide)).trans fn,
        (loaded (.s2, contextS 2) (by decide)).trans arg⟩
    · rw [if_neg (not_not.mpr clone)] at entry
      exact switched.pc.trans (ra.trans entry)

/-- The registers of the first task on its own. -/
def exampleHart : Hart :=
  { x := fun r => if r = .tp then exampleImage.initTask else 0
    csr := fun _ => 0
    pc := 0
    mem := fun _ => 0
    supervisor := true
    virt := false }

def exampleThreads : Threads :=
  { hart := exampleHart
    kernel := exampleKernel
    forked := []
    left := fun _ => none
    born := fun _ => none }

/-- A kernel thread of the first task. -/
def exampleBirth : Birth := { cloneFlags := pfKthread, fn := 0x80200600, arg := 7 }

/-- The first fork takes the first page. -/
theorem exampleThreads_fork :
    let s := exampleThreads.fork exampleImage exampleBirth
    s.forked = [0x80300000] ∧ s.hart.get = exampleHart.get ∧ s.left = (fun _ => none) ∧
      s.born 0x80300000 = some exampleBirth := by
  have page : exampleThreads.kernel.pages.getFreePage.1 = 0x80300000 := exampleKernel_page
  intro s
  obtain ⟨pid, made⟩ : ∃ pid, s = exampleThreads.bear exampleImage exampleBirth pid := by
    rcases exampleThreads.fork_cases exampleImage exampleBirth with
      ⟨failed, _⟩ | ⟨_, full, _⟩ | ⟨pid, _, result⟩
    · rw [page] at failed
      exact absurd failed (by decide)
    · -- Only the first slot is filled.
      exact absurd rfl (Kernel.findEmptyTask_none full ⟨1, by decide⟩)
    · exact ⟨pid, result⟩
  rw [made]
  simp only [bear, page]
  exact ⟨rfl, rfl, rfl, Function.update_self _ _ _⟩

/-- The registers with which the running task calls `cpu_switch_to`, and what it has in `s0`. -/
def calling (s : Threads) (next value : U64) : Hart :=
  ((s.hart.set .a0 s.current).set .a1 next).set .s0 value

/-- Any task can make such a call, for any other task. -/
theorem Isolated.calling {image : Image} {s : Threads} (isolated : Isolated image s) {next : U64}
    (known : next ∈ s.tasks image) (other : next ≠ s.current) (value : U64) :
    s.Works image (s.calling next value) s.kernel ∧
      Calls image { s with hart := s.calling next value } next := by
  have tp : (s.calling next value).get .tp = s.current := by
    simp [Threads.calling]
    rfl
  refine ⟨⟨tp, fun _ _ _ _ _ => by simp [Threads.calling], rfl, isolated.taken⟩, ?_, ?_, known, ?_⟩
  · show (s.calling next value).get .a0 = (s.calling next value).get .tp
    rw [tp]
    simp [Threads.calling]
  · simp [Threads.calling]
  · show next ≠ (s.calling next value).get .tp
    rw [tp]
    exact other

/--
The first task forks a kernel thread and switches to it, and the thread begins where it should.
When it switches back, the first task finds in `s0` what it has left there.
-/
theorem contextSwitch_isolated_back :
    ∃ before first second third : Hart,
      before.get .s0 = 42 ∧ cpuSwitchTo before = some first ∧
      first.pc = exampleImage.retFromKernelThread ∧ first.get .s1 = 0x80200600 ∧
      second.get .s0 = 7 ∧ second.mem = first.mem ∧ cpuSwitchTo second = some third ∧
      third.get .tp = exampleImage.initTask ∧ third.get .s0 = 42 := by
  obtain ⟨forked, regs, left, born⟩ := exampleThreads_fork
  have alone : Alone exampleImage exampleThreads := ⟨exampleKernel_homes, rfl, rfl, fun _ => rfl⟩
  let s := exampleThreads.fork exampleImage exampleBirth
  have isolated : Isolated exampleImage s := (Isolated.alone alone).fork exampleBirth
  -- The fork returns to its caller, so the boot task is still running.
  have running : s.current = exampleImage.initTask := congrFun regs .tp
  have thread : 0x80300000 ∈ s.tasks exampleImage := by
    rw [tasks, forked]
    exact List.mem_cons_of_mem _ (List.mem_singleton_self _)
  obtain ⟨works, calls⟩ := isolated.calling thread (by rw [running]; decide) 42
  have reached : Relation.ReflTransGen (Step exampleImage) exampleThreads
      { s with hart := s.calling 0x80300000 42 } :=
    (Relation.ReflTransGen.single (.fork exampleThreads exampleBirth)).tail (.work works)
  obtain ⟨first, ran, tp, _, _, _, fresh, _⟩ := contextSwitch_isolated alone reached calls
  -- The thread has never run, so its registers are those of its birth.
  obtain ⟨birth, made, _, entry, _⟩ := fresh (congrFun left _)
  obtain rfl : birth = exampleBirth := Option.some.inj (made.symm.trans born)
  obtain ⟨pc, fn, _⟩ := entry (by decide)
  -- Now the thread runs, and the boot task has left the registers that it called with.
  have switched := reached.tail (.switch calls ran)
  let t : Threads :=
    { s with
      hart := first
      left := Function.update s.left ((s.calling 0x80300000 42).get .tp)
        (some (s.calling 0x80300000 42).get) }
  have isolated' : Isolated exampleImage t :=
    Transition.reachable_invariant (fun _ _ held took => held.step took) (Isolated.alone alone)
      switched
  have current : t.current = 0x80300000 := tp
  have boot : (s.calling 0x80300000 42).get .tp = exampleImage.initTask := works.tp.trans running
  have waits : t.left exampleImage.initTask = some (s.calling 0x80300000 42).get := by
    rw [← boot]
    exact Function.update_self _ _ _
  have home : exampleImage.initTask ∈ t.tasks exampleImage := List.mem_cons_self
  obtain ⟨works', calls'⟩ := isolated'.calling home (by rw [current]; decide) 7
  obtain ⟨third, ran', tp', _, _, found, _⟩ :=
    contextSwitch_isolated alone (switched.tail (.work works')) calls'
  refine ⟨_, first, t.calling exampleImage.initTask 7, third, by simp [Threads.calling], ran, pc, fn,
    by simp [Threads.calling], by simp [Threads.calling, t], ran', tp', ?_⟩
  rw [found _ waits .s0 (by decide)]
  simp [Threads.calling]

end Threads

end Benos
