import Benos.Trap.CloneFork

/-! What a failed fork leaves behind, once and over and over again from user mode. -/

namespace Benos

/-! ### Every state of the kernel -/

/-- What goes on around the process table. -/
inductive KernelOp where
  | sched (op : SchedOp)
  /-- Other code takes a page, for a page table, a user stack or `malloc`. -/
  | getFreePage
  /-- Any code writes the memory it may write. -/
  | write (mem : Memory)

namespace Roster

/-- One operation of the kernel as a whole. -/
def kernelStep (image : Image) (fuel : Nat) : KernelOp → Roster → Option Roster
  | .sched op, roster => Roster.step image fuel op roster
  | .getFreePage, roster =>
    some { roster with
           kernel := { roster.kernel with pages := roster.kernel.pages.getFreePage.2 } }
  | .write mem, roster => some { roster with kernel := { roster.kernel with mem } }

/-- A history of the process table is one of the kernel. -/
theorem run_sched {image : Image} {fuel : Nat} {ops : List SchedOp} {start roster : Roster}
    (ran : Transition.run (Roster.step image fuel) ops start = some roster) :
    Transition.run (kernelStep image fuel) (ops.map .sched) start = some roster := by
  -- Each operation of the table is the same step of the kernel.
  induction ops generalizing start with
  | nil => exact ran
  | cons op rest ih =>
    simp only [Transition.run_cons, Option.bind_eq_some_iff, List.map_cons] at ran ⊢
    obtain ⟨next, took, ran⟩ := ran
    exact ⟨next, took, ih ran⟩

/-- A state that some history of the kernel leads to. -/
def Live (image : Image) (roster : Roster) : Prop :=
  ∃ k fuel ops, Loaded image k ∧ nrTask < fuel ∧
    Transition.run (kernelStep image fuel) ops (Roster.boot k) = some roster

/-- The table is in order in every state of the kernel. -/
theorem Live.consistent {image : Image} {roster : Roster} (live : roster.Live image) :
    Consistent image roster := by
  obtain ⟨k, fuel, ops, loaded, fueled, ran⟩ := live
  have start : Consistent image (Roster.boot k) := loaded.consistent
  refine Transition.run_invariant ?_ start ran
  -- Taking a page and writing memory leave the table alone.
  intro op before after held took
  cases op with
  | sched op => exact held.step fueled took
  | getFreePage =>
    cases took
    exact held.payPage
  | write mem =>
    cases took
    exact held.withMem mem

end Roster

/-! ### A failed fork -/

/-- The free pages, the tables and the lists, and the time of the current task are what they were. -/
structure NoTrace (k k' : Kernel) : Prop where
  pages : k'.pages = k.pages
  gTask : k'.gTask = k.gTask
  nextTask : k'.nextTask = k.nextTask
  prevTask : k'.prevTask = k.prevTask
  next : k'.next = k.next
  prev : k'.prev = k.prev
  nrRunning : k'.nrRunning = k.nrRunning
  totalForks : k'.totalForks = k.totalForks
  current : k'.current = k.current
  counter : k'.counter = k.counter

theorem NoTrace.refl (k : Kernel) : NoTrace k k :=
  ⟨rfl, rfl, rfl, rfl, rfl, rfl, rfl, rfl, rfl, rfl⟩

theorem NoTrace.trans {k k' k'' : Kernel} (first : NoTrace k k') (second : NoTrace k' k'') :
    NoTrace k k'' :=
  ⟨second.pages.trans first.pages, second.gTask.trans first.gTask,
    second.nextTask.trans first.nextTask, second.prevTask.trans first.prevTask,
    second.next.trans first.next, second.prev.trans first.prev,
    second.nrRunning.trans first.nrRunning, second.totalForks.trans first.totalForks,
    second.current.trans first.current, second.counter.trans first.counter⟩

/-- Writing the memory leaves no trace in the tables. -/
theorem NoTrace.write (k : Kernel) (mem : Memory) : NoTrace k { k with mem } :=
  ⟨rfl, rfl, rfl, rfl, rfl, rfl, rfl, rfl, rfl, rfl⟩

/-- A slot is free, or no page is. -/
def SlotOrNoPage (k : Kernel) : Prop := (∃ pid, k.gTask pid = 0) ∨ ∀ i, k.pages.memMap i ≠ 0

/-- What leaves no trace leaves the free pages and slots. -/
theorem NoTrace.slotOrNoPage {k k' : Kernel} (same : NoTrace k k') (room : SlotOrNoPage k) :
    SlotOrNoPage k' := by
  -- The condition is about the free pages and the slots only.
  rw [SlotOrNoPage, same.pages, same.gTask]
  exact room

/-- An allocator that has no page to hand out stays as it is. -/
theorem PageAlloc.getFreePage_zero_same {alloc : PageAlloc} (placed : Placed alloc.phyStartAddress)
    (zero : alloc.getFreePage.1 = 0) : alloc.getFreePage.2 = alloc := by
  cases found : alloc.firstFree with
  | none => rw [getFreePage_none found]
  | some i =>
    -- The page it found would have an address.
    rw [getFreePage_some found] at zero
    exact absurd zero (pageAddr_ne_zero placed i)

namespace Kernel

variable {image : Image} {k k' : Kernel} {cloneFlags fn arg : U64}

/-- With a free slot, or without a free page, a fork that fails has changed nothing. -/
theorem doFork_fails_same (placed : Placed k.pages.phyStartAddress) (room : SlotOrNoPage k)
    (failed : k.doFork image cloneFlags fn arg = (none, k')) : k' = k := by
  rcases k.doFork_cases image cloneFlags fn arg with
    ⟨zero, result⟩ | ⟨nonzero, full, result⟩ | ⟨pid, _, _, result⟩
  · rw [result] at failed
    cases failed
    rw [PageAlloc.getFreePage_zero_same placed zero]
  · -- The fork has a page and no slot, which is neither of the two.
    rcases room with ⟨pid, empty⟩ | taken
    · exact absurd empty (findEmptyTask_none full pid)
    · obtain ⟨i, free⟩ := (PageAlloc.getFreePage_ne_zero_iff placed).mp nonzero
      exact absurd free (taken i)
  · rw [result] at failed
    cases failed

/-- With a free page and no free slot a fork fails, and the page is lost. -/
theorem doFork_loses (image : Image) (cloneFlags fn arg : U64)
    (placed : Placed k.pages.phyStartAddress) (room : ¬ SlotOrNoPage k) :
    ∃ kernel, k.doFork image cloneFlags fn arg = (none, kernel) ∧
      ∃ i, k.pages.memMap i = 0 ∧ kernel.pages = k.pages.setMap i 1 := by
  rw [SlotOrNoPage, not_or, not_exists, not_forall] at room
  obtain ⟨filled, i, free⟩ := room
  have found := (PageAlloc.getFreePage_ne_zero_iff placed).mpr ⟨i, not_not.mp free⟩
  rcases k.doFork_cases image cloneFlags fn arg with
    ⟨zero, _⟩ | ⟨_, _, result⟩ | ⟨pid, _, empty, _⟩
  · exact absurd zero found
  · -- The page that was handed out is the lowest free one.
    obtain ⟨first, _, some_⟩ := PageAlloc.firstFree_exists (not_not.mp free)
    refine ⟨_, result, first, (PageAlloc.firstFree_some some_).1, ?_⟩
    show k.pages.getFreePage.2 = _
    rw [PageAlloc.getFreePage_some some_]
  · exact absurd (findEmptyTask_some empty) (filled pid)

end Kernel

/-! ### Failed system calls -/

/-- A system call `clone` that fails, from a frame anywhere in a memory of any content. -/
def failedClone (image : Image) (others : BitVec 32 → U64 → Kernel → U64 × Kernel)
    (call : U64 × Memory) (k : Kernel) : Option Kernel :=
  let k := { k with mem := call.2 }
  let k' := k.doExceptionUserEcall image others call.1
  if (call.2 (call.1 + ptA7)).setWidth 32 = nrClone.setWidth 32 ∧ k'.mem (call.1 + ptA0) = -1 then
    some k'
  else none

/-- A `clone` that fails has called a `do_fork` that failed. -/
theorem failedClone_fork {image : Image} {others : BitVec 32 → U64 → Kernel → U64 × Kernel}
    {call : U64 × Memory} {k k' : Kernel} (failed : failedClone image others call k = some k') :
    ∃ mem mem' kernel, { k with mem }.doFork image (call.2 (call.1 + ptA0)) (call.2 (call.1 + ptA1))
      (call.2 (call.1 + ptA2)) = (none, kernel) ∧ k' = { kernel with mem := mem' } := by
  simp only [failedClone, Option.ite_none_right_eq_some, Option.some.injEq] at failed
  obtain ⟨⟨number, minus⟩, rfl⟩ := failed
  rw [Kernel.doExceptionUserEcall_eq] at minus ⊢
  rw [number, Kernel.invokeSyscall_clone] at minus ⊢
  generalize forked : Kernel.doFork image _ _ _ _ = result at minus ⊢
  obtain ⟨pid, kernel⟩ := result
  cases pid with
  | none => exact ⟨_, _, kernel, forked, rfl⟩
  | some pid =>
    -- A pid is not minus one.
    have small : pid.val < 128 := pid.isLt
    have value := congrArg BitVec.toNat minus
    dsimp only at value
    rw [Function.update_self, Kernel.forkResult, BitVec.toNat_ofNat] at value
    have ones : (-1 : U64).toNat = 2 ^ 64 - 1 := by decide
    omega

/-- Failed calls of `clone` leave no trace where the first of them leaves none. -/
theorem failedClones_noTrace {image : Image} {others : BitVec 32 → U64 → Kernel → U64 × Kernel}
    {calls : List (U64 × Memory)} {k k' : Kernel} (placed : Placed k.pages.phyStartAddress)
    (room : SlotOrNoPage k) (ran : Transition.run (failedClone image others) calls k = some k') :
    NoTrace k k' := by
  have start : NoTrace k k := .refl k
  refine Transition.run_invariant ?_ start ran
  intro call before after same failed
  obtain ⟨mem, mem', kernel, forked, rfl⟩ := failedClone_fork failed
  -- The state before the call is as it was at first, so the fork changes nothing.
  have unchanged := Kernel.doFork_fails_same (k := { before with mem })
    (by rw [show ({ before with mem } : Kernel).pages = k.pages from same.pages]; exact placed)
    ((NoTrace.write before mem).slotOrNoPage (same.slotOrNoPage room)) forked
  subst unchanged
  exact same.trans (NoTrace.write before mem')

/-! ### Exactly when nothing is left behind -/

/--
In every state of the kernel: a fork that fails leaves the free pages, the slots, the lists, the
number of forks and the counters exactly as they were just when a task slot is free or no page is,
and then so does any number of failing `clone` system calls from user mode. Otherwise every fork
fails and takes a free page with it.
-/
theorem failedFork_noTrace_iff {image : Image} {roster : Roster} (live : roster.Live image)
    (cloneFlags fn arg : U64) :
    ((∀ k', roster.kernel.doFork image cloneFlags fn arg = (none, k') → NoTrace roster.kernel k') ↔
      (∃ pid, roster.kernel.gTask pid = 0) ∨ ∀ i, roster.kernel.pages.memMap i ≠ 0) ∧
    (((∃ pid, roster.kernel.gTask pid = 0) ∨ ∀ i, roster.kernel.pages.memMap i ≠ 0) →
      ∀ others calls k', Transition.run (failedClone image others) calls roster.kernel = some k' →
        NoTrace roster.kernel k') ∧
    (¬ ((∃ pid, roster.kernel.gTask pid = 0) ∨ ∀ i, roster.kernel.pages.memMap i ≠ 0) →
      ∃ k', roster.kernel.doFork image cloneFlags fn arg = (none, k') ∧
        ∃ i, roster.kernel.pages.memMap i = 0 ∧ k'.pages = roster.kernel.pages.setMap i 1) := by
  have placed := live.consistent.apart.placed
  refine ⟨⟨fun clean => ?_, fun room k' failed => ?_⟩,
    fun room others calls k' ran => failedClones_noTrace placed room ran,
    fun room => Kernel.doFork_loses image cloneFlags fn arg placed room⟩
  · -- A fork that loses a page leaves a trace.
    by_contra room
    obtain ⟨k', failed, i, free, lost⟩ :=
      Kernel.doFork_loses image cloneFlags fn arg placed room
    have same := congrFun (congrArg PageAlloc.memMap (lost.symm.trans (clean k' failed).pages)) i
    rw [PageAlloc.setMap_self, free] at same
    cases same
  · rw [Kernel.doFork_fails_same placed room failed]
    exact .refl _

/-- Taking pages again and again takes all pages from the lowest one on. -/
theorem Roster.drains (image : Image) (fuel : Nat) (roster : Roster) (n : Nat) :
    ∃ drained, Transition.run (kernelStep image fuel) (List.replicate n .getFreePage) roster =
        some drained ∧ drained.kernel.gTask = roster.kernel.gTask ∧
      ∀ i : Fin nrPages, i.val < n → drained.kernel.pages.memMap i ≠ 0 := by
  induction n with
  | zero => exact ⟨roster, rfl, rfl, fun i none => absurd none (Nat.not_lt_zero _)⟩
  | succ n ih =>
    obtain ⟨drained, ran, slots, taken⟩ := ih
    refine ⟨{ drained with
              kernel := { drained.kernel with pages := drained.kernel.pages.getFreePage.2 } }, ?_,
      slots, fun i below => ?_⟩
    · rw [List.replicate_succ', Transition.run_append, ran]
      rfl
    · show drained.kernel.pages.getFreePage.2.memMap i ≠ 0
      cases found : drained.kernel.pages.firstFree with
      | none =>
        rw [PageAlloc.getFreePage_none found]
        intro free
        obtain ⟨_, _, some_⟩ := PageAlloc.firstFree_exists free
        rw [found] at some_
        cases some_
      | some first =>
        rw [PageAlloc.getFreePage_some found]
        by_cases same : i = first
        · rw [same, PageAlloc.setMap_self]
          decide
        · rw [PageAlloc.setMap_other _ 1 same]
          intro free
          -- The page that is handed out is not above this one, and those below are taken.
          obtain ⟨lowest, upTo, some_⟩ := PageAlloc.firstFree_exists free
          obtain rfl : first = lowest := Option.some.inj (found.symm.trans some_)
          have before : first.val < i.val :=
            Nat.lt_of_le_of_ne upTo fun equal => same (Fin.ext equal.symm)
          exact taken first (by omega) (PageAlloc.firstFree_some found).1

/-- A hundred and twenty-seven forks fill the table, and most pages are still free. -/
theorem exampleKernel_filled :
    ∃ roster : Roster, roster.Live exampleImage ∧ (∀ pid, roster.kernel.gTask pid ≠ 0) ∧
      roster.kernel.pages.memMap ⟨127, by decide⟩ = 0 := by
  obtain ⟨roster, ran, forked, _, free⟩ := exampleKernel_loaded.forks (fun _ => rfl)
    (show nrTask < 129 by decide) 0 0x40000 0 127 (by decide)
  have live : roster.Live exampleImage :=
    ⟨exampleKernel, 129, _, exampleKernel_loaded, by decide, Roster.run_sched ran⟩
  exact ⟨roster, live, live.consistent.no_slot (by rw [forked]; decide), free _ (Nat.le_refl 127)⟩

/-- Once the table is full and no page is left, a fork fails and leaves no trace. -/
theorem failedFork_noTrace_full :
    ∃ (roster : Roster) (k' : Kernel), roster.Live exampleImage ∧
      (∀ pid, roster.kernel.gTask pid ≠ 0) ∧
      roster.kernel.doFork exampleImage 0 0x40000 0 = (none, k') ∧ NoTrace roster.kernel k' := by
  obtain ⟨filled, ⟨k, fuel, ops, loaded, fueled, ran⟩, full, -⟩ := exampleKernel_filled
  obtain ⟨roster, drained, slots, taken⟩ := Roster.drains exampleImage fuel filled nrPages
  have live : roster.Live exampleImage :=
    ⟨k, fuel, ops ++ List.replicate nrPages .getFreePage, loaded, fueled, by
      rw [Transition.run_append, ran, Option.bind_some, drained]⟩
  have room : ∀ i, roster.kernel.pages.memMap i ≠ 0 := fun i => taken i i.isLt
  have clean := (failedFork_noTrace_iff live 0 0x40000 0).1.mpr (Or.inr room)
  have none_ : roster.kernel.pages.getFreePage.1 = 0 := by
    by_contra found
    obtain ⟨i, free⟩ :=
      (PageAlloc.getFreePage_ne_zero_iff live.consistent.apart.placed).mp found
    exact room i free
  -- Without a page the fork fails before it looks for a slot.
  rcases roster.kernel.doFork_cases exampleImage 0 0x40000 0 with
    ⟨_, failed⟩ | ⟨found, _⟩ | ⟨_, found, _⟩
  · exact ⟨roster, _, live, fun pid => by rw [slots]; exact full pid, failed, clean _ failed⟩
  · exact absurd none_ found
  · exact absurd none_ found

/-- A failed fork with the table full takes a page that nothing gives back. -/
theorem failedFork_leaks :
    ¬ ∀ (roster : Roster) (cloneFlags fn arg : U64) (k' : Kernel), roster.Live exampleImage →
      roster.kernel.doFork exampleImage cloneFlags fn arg = (none, k') →
      NoTrace roster.kernel k' := by
  intro always
  obtain ⟨roster, live, filled, free⟩ := exampleKernel_filled
  have consistent := live.consistent
  have room : ¬ SlotOrNoPage roster.kernel := by
    rintro (⟨pid, empty⟩ | taken)
    · exact filled pid empty
    · exact taken _ free
  obtain ⟨k', failed, i, empty, lost⟩ := Kernel.doFork_loses exampleImage 0 0 0
    consistent.apart.placed room
  have same := congrFun (congrArg PageAlloc.memMap
    (lost.symm.trans (always roster 0 0 0 k' live failed).pages)) i
  rw [PageAlloc.setMap_self, empty] at same
  cases same

end Benos
