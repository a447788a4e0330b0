import Benos.Trap.ScratchSteps

/-! The protocol of `sscratch` over whole runs, and the three places that break it. -/

namespace Benos

namespace TrapCpu

variable {cpu cpu' : TrapCpu}

/-! ### Traps -/

section Traps

/-- A trap of a program. -/
theorem Inv.trap_program (inv : cpu.Inv) (place : cpu.place = .program) : cpu.trap.Inv := by
  obtain ⟨outside, scratch, empty⟩ := inv.at place
  -- The hardware notes that it comes from outside of HS mode.
  refine inv.keep rfl rfl rfl ⟨⟨⟨rfl, rfl⟩, rfl⟩, fun from_ => ?_, fun _ => ?_⟩
  · exact absurd from_ outside
  · exact ⟨place, scratch, empty⟩

/-- A trap of the kernel at a quiet place. -/
theorem Inv.trap_quiet (inv : cpu.Inv) (kernel : cpu.InKernel) (zero : cpu.sscratch = 0)
    (tp : cpu.tp = cpu.current) (quiet : cpu.place.Quiet cpu.sp cpu.live) : cpu.trap.Inv := by
  refine inv.keep rfl rfl rfl ⟨⟨⟨rfl, rfl⟩, rfl⟩, fun _ => ?_, fun not_ => ?_⟩
  · exact ⟨zero, tp, quiet⟩
  · exact absurd kernel not_

/-- An interrupt, wherever it can be taken. -/
theorem Inv.interrupt (inv : cpu.Inv) (enabled : cpu.InKernel → cpu.sie = true) :
    cpu.trap.Inv := by
  by_cases kernel : cpu.InKernel
  · obtain ⟨zero, tp, quiet⟩ := inv.here.quiet kernel (enabled kernel)
    exact inv.trap_quiet kernel zero tp quiet
  · exact inv.trap_program (inv.here.outside kernel).1

/-- An exception of a program or of C code. -/
theorem Inv.exception (inv : cpu.Inv) (place : cpu.place = .program ∨ cpu.place = .code) :
    cpu.trap.Inv := by
  rcases place with place | place
  · exact inv.trap_program place
  · obtain ⟨kernel, zero, tp, quiet⟩ := inv.quiet (by rw [place, TrapPlace.isQuiet])
    exact inv.trap_quiet kernel zero tp quiet

end Traps

/-! ### C code -/

section Code

/-- C code may move the stack pointer, as long as it stays below the frames. -/
theorem quiet_moved {place : TrapPlace} {sp sp' : Int} {frames : List TrapFrame}
    (quiet : place.Quiet sp frames) (code : place.isCode = true) (below : Below sp' frames) :
    place.Quiet sp' frames := by
  -- C code only has to stay below the frames; what the innermost frame is stays as it was.
  cases place with
  | code => exact below
  | schedule caller | scheduleTail caller | scheduleReturn caller =>
    cases caller with
    | kernelCode => exact below
    | workResched => exact quiet
    | preemptScheduleIrq => exact ⟨below, quiet.2⟩
  | _ => cases code

/-- Where C code runs is quiet. -/
theorem isQuiet_of_isCode {place : TrapPlace} (code : place.isCode = true) :
    place.isQuiet = true := by
  cases place with
  | code | schedule _ | scheduleTail _ | scheduleReturn _ => rfl
  | _ => cases code

/-- C code runs on its own. -/
theorem Inv.work {needResched atomic : U64 → Bool} {sp : Int} (inv : cpu.Inv)
    (code : cpu.place.isCode = true) (below : Below sp cpu.live) :
    ({ cpu with sp := sp, needResched := needResched, atomic := atomic } : TrapCpu).Inv := by
  obtain ⟨kernel, zero, tp, quiet⟩ := inv.quiet (isQuiet_of_isCode code)
  exact inv.keep rfl rfl rfl (here_of_quiet kernel zero tp (quiet_moved quiet code below))

/-- C code sets or clears `SIE`. -/
theorem Inv.irq (inv : cpu.Inv) (place : cpu.place = .code) (on : Bool) :
    ({ cpu with sie := on } : TrapCpu).Inv := by
  obtain ⟨kernel, zero, tp, quiet⟩ := inv.quiet (by rw [place, TrapPlace.isQuiet])
  exact inv.keep rfl rfl rfl (here_of_quiet kernel zero tp quiet)

/-- C code calls `schedule`. -/
theorem Inv.callSchedule (inv : cpu.Inv) (place : cpu.place = .code) :
    ({ cpu with place := .schedule .kernelCode } : TrapCpu).Inv := by
  obtain ⟨kernel, zero, tp, quiet⟩ := inv.quiet (by rw [place, TrapPlace.isQuiet])
  rw [place] at quiet
  exact inv.keep rfl rfl rfl ⟨kernel, zero, tp, quiet⟩

/-- The return of a handler. -/
theorem Inv.leave (inv : cpu.Inv) (place : cpu.place = .code)
    (taken : cpu.backTo .loadStatus = some cpu') : cpu'.Inv := by
  obtain ⟨kernel, zero, tp, -⟩ := inv.quiet (by rw [place, TrapPlace.isQuiet])
  -- By the calling convention the stack pointer is back at the frame.
  obtain ⟨f, rest, frames, rfl⟩ := backTo_eq_some taken
  exact inv.keep rfl rfl rfl ⟨kernel, zero, tp, .of_cons frames rfl⟩

/-- A fork gives the new task its frames and its first place. -/
theorem Inv.fork {child : U64} {place : TrapPlace} {sp : Int} {frames : List TrapFrame}
    (inv : cpu.Inv) (code : cpu.place = .code) (nonzero : child ≠ 0) (new : child ≠ cpu.current)
    (chain : Chain child frames) (quiet : place.Quiet sp frames) :
    ({ cpu with
       frames := Function.update cpu.frames child frames
       waiting := Function.update cpu.waiting child (some (place, sp)) } : TrapCpu).Inv := by
  have same : Function.update cpu.frames child frames cpu.current = cpu.live :=
    Function.update_of_ne new.symm _ _
  refine ⟨inv.nonzero, fun task => ?_, ?_, fun task there sp' found => ?_, ?_⟩
  · by_cases here : task = child
    · rw [here]
      simp only [Function.update_self]
      exact chain
    · simp only [Function.update_of_ne here]
      exact inv.chains task
  · simp only [Function.update_of_ne new.symm]
    exact inv.running
  · by_cases here : task = child
    · rw [here] at found ⊢
      simp only [Function.update_self, Option.some.injEq, Prod.mk.injEq] at found ⊢
      rw [← found.1, ← found.2]
      exact ⟨nonzero, quiet⟩
    · simp only [Function.update_of_ne here] at found ⊢
      exact inv.waiting task there sp' found
  · -- The parent goes on as it was.
    obtain ⟨kernel, zero, tp, quiet'⟩ := inv.quiet (by rw [code, TrapPlace.isQuiet])
    refine here_of_quiet kernel zero tp ?_
    show cpu.place.Quiet cpu.sp (Function.update cpu.frames child frames cpu.current)
    rw [same]
    exact quiet'

/-- The frame of a clone goes back to where that of its parent goes. -/
theorem Inv.chain_cloned {top : U64 → Int} {child : U64} {f : TrapFrame} (inv : cpu.Inv)
    (frames : cpu.frames cpu.current = [f]) (program : ¬ f.FromKernel) :
    Chain child [cloned top child f] := by
  have chain := inv.chains cpu.current
  rw [frames] at chain
  -- The frame of a system call goes back to a program.
  obtain ⟨-, off, -, -, outside⟩ := chain
  refine ⟨trivial, off, ?_, fun kernel => absurd kernel program, fun _ => outside program⟩
  intro g member
  cases member

/-- `move_to_user_space` with interrupts off. -/
theorem Inv.moveToUserSpace {top : U64 → Int} {spie : Bool} {sp : Int} (inv : cpu.Inv)
    (place : cpu.place = .code) (room : cpu.sp ≤ top cpu.current - frameSize)
    (off : cpu.sie = false) :
    ({ cpu with
       frames := Function.update cpu.frames cpu.current
         [cpu.started top spie sp] } : TrapCpu).Inv := by
  obtain ⟨kernel, zero, tp, -⟩ := inv.quiet (by rw [place, TrapPlace.isQuiet])
  -- The frame is one to a program, with interrupts off as they are now.
  have chain : Chain cpu.current [cpu.started top spie sp] := by
    refine ⟨trivial, off, ?_, fun from_ => ?_, fun _ => ⟨rfl, rfl⟩⟩
    · intro g member
      cases member
    · cases from_.1
  -- The thread has used the stack below the frame from the start.
  have below : Below cpu.sp [cpu.started top spie sp] := by
    intro g member
    obtain rfl := List.mem_singleton.mp member
    exact room
  refine inv.reframe chain rfl rfl rfl (here_of_quiet kernel zero tp ?_)
  show cpu.place.Quiet cpu.sp (Function.update cpu.frames cpu.current _ cpu.current)
  rw [Function.update_self, place]
  exact below

/-- `vs_main` calls `jump_to_vs_mode` with interrupts off. -/
theorem Inv.enterGuest (inv : cpu.Inv) (place : cpu.place = .code)
    (empty : cpu.frames cpu.current = []) (off : cpu.sie = false) :
    ({ cpu with place := .saveSp, spp := true, spv := true } : TrapCpu).Inv := by
  obtain ⟨kernel, zero, tp, -⟩ := inv.quiet (by rw [place, TrapPlace.isQuiet])
  refine inv.keep rfl rfl rfl ⟨⟨⟨kernel, off⟩, zero, tp⟩, fun from_ => ?_, empty⟩
  cases from_.2

end Code

/-! ### Steps and runs -/

/-- An instruction keeps the invariant, unless it goes to `work_resched`. -/
theorem Inv.next (inv : cpu.Inv)
    (stays : cpu.place = .testResched → cpu.needResched cpu.tp = false)
    (taken : cpu.next = some cpu') : cpu'.Inv := by
  cases place : cpu.place with
  | program | code | switchTo caller =>
    -- These places have a choice.
    simp only [TrapCpu.next, place] at taken
    cases taken
  | swapTp => exact inv.swapTp place taken
  | testTp => exact inv.testTp place taken
  | readTp => exact inv.readTp place taken
  | saveKernelSp => exact inv.saveKernelSp place taken
  | saveUserSp => exact inv.saveUserSp place taken
  | loadKernelSp => exact inv.loadKernelSp place taken
  | pushFrame => exact inv.pushFrame place taken
  | clearScratch => exact inv.clearScratch place taken
  | loadStatus => exact inv.loadStatus place taken
  | clearSie spp spv => exact inv.clearSie place taken
  | testStatus spp spv => exact inv.testStatus place taken
  | testResched => exact inv.testResched place (stays place) taken
  | noWorkPending => exact inv.noWorkPending place taken
  | setScratch => exact inv.setScratch place taken
  | testCount => exact inv.testCount place taken
  | needResched => exact inv.needResched place taken
  | writeSstatus => exact inv.writeSstatus place taken
  | writeSepc => exact inv.writeSepc place taken
  | writeHstatus => exact inv.writeHstatus place taken
  | loadTp => exact inv.loadTp place taken
  | loadSp => exact inv.loadSp place taken
  | sret => exact inv.sret place taken
  | preemptScheduleIrq => exact inv.preemptScheduleIrq place taken
  | schedule caller => exact inv.schedule place taken
  | scheduleTail caller => exact inv.scheduleTail place taken
  | scheduleReturn caller => exact inv.scheduleReturn place taken
  | retFromFork => exact inv.retFromFork place taken
  | retFromKernelThread => exact inv.retFromKernelThread place taken
  | saveSp => exact inv.saveSp place taken
  | setScratchVs => exact inv.setScratchVs place taken
  | writeSepcVs => exact inv.writeSepcVs place taken

/-- The invariant holds once `trap_init` is done. -/
theorem boot_inv {top : U64 → Int} {task : U64} (nonzero : task ≠ 0) : (boot top task).Inv where
  nonzero := nonzero
  chains _ := trivial
  running := rfl
  waiting _ _ _ found := by cases found
  here := ⟨⟨rfl, rfl⟩, rfl, rfl, fun _ member => by cases member⟩

end TrapCpu

/-- What the protocol asks of the code around it, event by event. -/
def TrapEvent.Allowed (event : TrapEvent) (cpu : TrapCpu) : Prop :=
  match event with
  | .next => cpu.place = .testResched → cpu.needResched cpu.tp = false
  | .moveToUserSpace _ _ | .enterGuest => cpu.sie = false
  | _ => True

/-- What each event keeps. -/
theorem TrapEvent.step_inv {top : U64 → Int} {event : TrapEvent} {cpu cpu' : TrapCpu}
    (inv : cpu.Inv) (allowed : event.Allowed cpu) (taken : event.step top cpu = some cpu') :
    cpu'.Inv := by
  cases event with
  | next => exact inv.next allowed taken
  -- A trap saves what it finds, in whatever place it comes.
  | interrupt =>
    simp only [step, Option.ite_none_right_eq_some, Option.some.injEq] at taken
    obtain ⟨enabled, rfl⟩ := taken
    exact inv.interrupt enabled
  | exception =>
    simp only [step, Option.ite_none_right_eq_some, Option.some.injEq] at taken
    obtain ⟨place, rfl⟩ := taken
    exact inv.exception place
  | run tp sp =>
    simp only [step, Option.ite_none_right_eq_some, Option.some.injEq] at taken
    obtain ⟨place, rfl⟩ := taken
    -- A program has neither `sscratch` nor a frame to change.
    have here := inv.at place
    refine inv.keep rfl rfl rfl ?_
    simp only [TrapCpu.Here, place]
    exact here
  | work sp needResched atomic =>
    simp only [step, Option.ite_none_right_eq_some, Option.some.injEq] at taken
    obtain ⟨⟨code, below⟩, rfl⟩ := taken
    exact inv.work code below
  | irq on =>
    simp only [step, Option.ite_none_right_eq_some, Option.some.injEq] at taken
    obtain ⟨place, rfl⟩ := taken
    exact inv.irq place on
  | schedule =>
    simp only [step, Option.ite_none_right_eq_some, Option.some.injEq] at taken
    obtain ⟨place, rfl⟩ := taken
    exact inv.callSchedule place
  -- A switch happens in `cpu_switch_to` only.
  | switch task =>
    simp only [step] at taken
    cases place : cpu.place with
    | switchTo caller =>
      rw [place] at taken
      exact inv.switch place taken
    | _ =>
      rw [place] at taken
      cases taken
  | leave =>
    simp only [step, Option.ite_none_right_eq_some] at taken
    exact inv.leave taken.1 taken.2
  -- A thread starts without a frame.
  | forkThread child =>
    simp only [step, Option.ite_none_right_eq_some, Option.some.injEq] at taken
    obtain ⟨⟨place, nonzero, new, -⟩, rfl⟩ := taken
    refine inv.fork place nonzero new trivial ?_
    intro f member
    cases member
  -- A clone has a copy of the one frame its parent has.
  | forkClone child =>
    simp only [step] at taken
    cases frames : cpu.frames cpu.current with
    | nil =>
      rw [frames] at taken
      cases taken
    | cons f rest =>
      cases rest with
      | cons g rest =>
        rw [frames] at taken
        cases taken
      | nil =>
        simp only [frames, Option.ite_none_right_eq_some, Option.some.injEq] at taken
        obtain ⟨⟨place, program, nonzero, new, -⟩, rfl⟩ := taken
        exact inv.fork place nonzero new (inv.chain_cloned frames program) rfl
  -- These two are allowed with interrupts off only.
  | moveToUserSpace spie sp =>
    simp only [step, Option.ite_none_right_eq_some, Option.some.injEq] at taken
    obtain ⟨⟨place, -, room⟩, rfl⟩ := taken
    exact inv.moveToUserSpace place room allowed
  | enterGuest =>
    simp only [step, Option.ite_none_right_eq_some, Option.some.injEq] at taken
    obtain ⟨⟨place, empty⟩, rfl⟩ := taken
    exact inv.enterGuest place empty allowed

/-! ### The steps that break it -/

namespace TrapCpu

section Exposed

variable {cpu cpu' : TrapCpu} {top : U64 → Int}

/-- A run leads from here to where the protocol is broken. -/
def Exposed (top : U64 → Int) (cpu : TrapCpu) : Prop :=
  ∃ events final, Transition.run (TrapEvent.step top) events cpu = some final ∧ ¬ final.Protocol

/-- A state with interrupts on in HS mode and a task in `sscratch`. -/
theorem Exposed.here (kernel : cpu.InKernel) (enabled : cpu.sie = true)
    (scratch : cpu.sscratch ≠ 0) : Exposed top cpu :=
  ⟨[], cpu, rfl, fun protocol => scratch (protocol.inside kernel enabled).1⟩

/-- A step before a run. -/
theorem Exposed.step (event : TrapEvent) (taken : event.step top cpu = some cpu')
    (later : Exposed top cpu') : Exposed top cpu := by
  obtain ⟨events, final, ran, broken⟩ := later
  refine ⟨event :: events, final, ?_, broken⟩
  rw [Transition.run_cons, taken, Option.bind_some]
  exact ran

/-- The return from C code, where there is a frame. -/
theorem backTo_of_frames {f : TrapFrame} {rest : List TrapFrame} (place : TrapPlace)
    (frames : cpu.frames cpu.current = f :: rest) :
    cpu.backTo place = some { cpu with place := place, sp := f.base } := by
  simp only [backTo, frames]

/-- The frame at the stack pointer, where there is one. -/
theorem frame_of_frames {f : TrapFrame} {rest : List TrapFrame}
    (frames : cpu.frames cpu.current = f :: rest) (at_ : f.base = cpu.sp) :
    cpu.frame = some f := by
  simp only [frame, frames, at_, if_true]

/-- `csrw sscratch, tp` with interrupts on. -/
theorem exposed_setScratch (kernel : cpu.InKernel) (on : cpu.sie = true) (task : cpu.tp ≠ 0)
    (place : cpu.place = .noWorkPending) : Exposed top cpu := by
  have first : cpu.next = some { cpu with
      place := .setScratch
      kernelSp := Function.update cpu.kernelSp cpu.tp (cpu.sp + frameSize) } := by
    simp only [TrapCpu.next, place]
  exact .step .next first (.step .next rfl (.here kernel on task))

/-- Once `work_resched` is taken, `schedule` comes back with interrupts on. -/
theorem exposed_workResched (inv : cpu.Inv) (place : cpu.place = .testResched)
    (yes : cpu.needResched cpu.tp = true) (taken : cpu.next = some cpu') : Exposed top cpu' := by
  obtain ⟨⟨masked, zero, tp⟩, at_⟩ := inv.at place
  simp only [TrapCpu.next, place, yes, if_true, Option.some.injEq] at taken
  subst taken
  have task : cpu.tp ≠ 0 := inv.tp_ne_zero tp
  cases frames : cpu.frames cpu.current with
  | nil =>
    rw [live, frames] at at_
    exact at_.elim
  | cons f rest =>
    -- The scheduler picks the same task again.
    refine .step .next rfl (.step (.switch cpu.current) (if_pos rfl) (.step .next rfl
      (.step .next (backTo_of_frames .noWorkPending frames) ?_)))
    exact exposed_setScratch masked.1 rfl task rfl

/-- `bnez s1, work_resched`, not taken. -/
theorem next_testResched (place : cpu.place = .testResched)
    (no : cpu.needResched cpu.tp = false) :
    cpu.next = some { cpu with place := .noWorkPending } := by
  simp only [TrapCpu.next, place, no, Bool.false_eq_true, if_false]

/-- On the way to a program through a frame with `SIE` set. -/
theorem exposed_testResched {f : TrapFrame} {rest : List TrapFrame} (kernel : cpu.InKernel)
    (task : cpu.tp ≠ 0) (place : cpu.place = .testResched)
    (no : cpu.needResched cpu.tp = false) (frames : cpu.frames cpu.current = f :: rest)
    (at_ : f.base = cpu.sp) (on : f.sie = true) : Exposed top cpu := by
  refine .step .next (next_testResched place no) (.step .next rfl (.step .next rfl ?_))
  -- `sscratch` is the task when `sstatus` is written.
  exact .step .next (congrArg (Option.map _) (frame_of_frames frames at_)) (.here kernel on task)

/-- From `ret_from_exception` on, with a frame of a program. -/
theorem exposed_loadStatus {f : TrapFrame} {rest : List TrapFrame} (kernel : cpu.InKernel)
    (task : cpu.tp ≠ 0) (place : cpu.place = .loadStatus)
    (no : cpu.needResched cpu.tp = false) (frames : cpu.frames cpu.current = f :: rest)
    (at_ : f.base = cpu.sp) (spp : f.spp = false) (spv : f.spv = false) (on : f.sie = true) :
    Exposed top cpu := by
  have load : cpu.next = some { cpu with place := .clearSie f.spp f.spv } := by
    simp only [TrapCpu.next, place, frame_of_frames frames at_, Option.map_some]
  -- The branch is the one to user mode.
  have test : ({ cpu with place := .testStatus f.spp f.spv, sie := false } : TrapCpu).next =
      some { cpu with place := .testResched, sie := false } := by
    simp only [TrapCpu.next, spp, spv, Bool.false_eq_true, if_false]
  refine .step .next load (.step .next rfl (.step .next test ?_))
  exact exposed_testResched kernel task rfl no frames at_ on

/-- `move_to_user_space` with interrupts on makes a frame that has them on. -/
theorem exposed_moveToUserSpace {spie : Bool} {sp : Int} (inv : cpu.Inv) (on : cpu.sie = true)
    (taken : (TrapEvent.moveToUserSpace spie sp).step top cpu = some cpu') :
    Exposed top cpu' := by
  simp only [TrapEvent.step, Option.ite_none_right_eq_some, Option.some.injEq] at taken
  obtain ⟨⟨place, -, room⟩, rfl⟩ := taken
  obtain ⟨kernel, zero, tp, -⟩ := inv.quiet (by rw [place, TrapPlace.isQuiet])
  have task : cpu.tp ≠ 0 := inv.tp_ne_zero tp
  have frames : Function.update cpu.frames cpu.current [cpu.started top spie sp] cpu.current =
      [cpu.started top spie sp] := Function.update_self _ _ _
  -- The new frame is the one that is left to return by, and asks for no rescheduling.
  have no : Function.update cpu.needResched cpu.current false cpu.tp = false := by
    rw [tp, Function.update_self]
  have below : ∀ f ∈ Function.update cpu.frames cpu.current [cpu.started top spie sp] cpu.current,
      cpu.sp ≤ f.base := by
    rw [frames]
    intro f member
    obtain rfl := List.mem_singleton.mp member
    exact room
  -- The function returns, with nothing to reschedule for.
  refine .step (.work cpu.sp false false) (if_pos ⟨by rw [place]; rfl, below⟩) ?_
  refine .step .leave ((if_pos place).trans (backTo_of_frames .loadStatus frames)) ?_
  exact exposed_loadStatus kernel task rfl no frames rfl rfl rfl on

/-- `jump_to_vs_mode` with interrupts on. -/
theorem exposed_enterGuest (inv : cpu.Inv) (on : cpu.sie = true)
    (taken : TrapEvent.enterGuest.step top cpu = some cpu') : Exposed top cpu' := by
  simp only [TrapEvent.step, Option.ite_none_right_eq_some, Option.some.injEq] at taken
  obtain ⟨⟨place, -⟩, rfl⟩ := taken
  obtain ⟨kernel, zero, tp, -⟩ := inv.quiet (by rw [place, TrapPlace.isQuiet])
  have task : cpu.tp ≠ 0 := inv.tp_ne_zero tp
  -- Two instructions later the task is in `sscratch`, with interrupts as they were.
  exact .step .next rfl (.step .next rfl (.here kernel on task))

end Exposed

/-- No instruction of the trap code is stuck. -/
theorem Inv.next_isSome {cpu : TrapCpu} (inv : cpu.Inv) (program : cpu.place ≠ .program)
    (code : cpu.place ≠ .code) (switch : ∀ caller, cpu.place ≠ .switchTo caller) :
    cpu.next.isSome := by
  -- The innermost frame is at the stack pointer wherever it is read.
  have frame_isSome : Innermost (·.base = cpu.sp) cpu.live → cpu.frame.isSome := by
    intro at_
    cases frames : cpu.frames cpu.current with
    | nil =>
      rw [live, frames] at at_
      exact at_.elim
    | cons f rest =>
      rw [frame_of_frames frames (at_.head frames)]
      rfl
  -- Where the frame is read the invariant says that there is one.
  cases place : cpu.place with
  | program => exact absurd place program
  | code => exact absurd place code
  | switchTo caller => exact absurd place (switch caller)
  | loadStatus =>
    have here := inv.at place
    simp only [TrapCpu.next, place, Option.isSome_map]
    exact frame_isSome here.2.2.2
  | writeSstatus =>
    have here := inv.at place
    simp only [TrapCpu.next, place, Option.isSome_map]
    exact frame_isSome (here.2.imp fun f leaves => leaves.1)
  | writeSepc | writeHstatus | loadTp | loadSp =>
    have here := inv.at place
    simp only [TrapCpu.next, place, Option.isSome_map]
    exact frame_isSome (here.2.imp fun f leaves => leaves.1.1)
  | scheduleReturn caller =>
    have here := inv.at place
    cases caller with
    | kernelCode =>
      simp only [TrapCpu.next, place]
      rfl
    | workResched => exact here.2.2.2.elim
    | preemptScheduleIrq =>
      -- A preempted task has the frame of its interrupt.
      obtain ⟨-, -, -, -, from_⟩ := here
      simp only [TrapCpu.next, place, backTo]
      cases frames : cpu.frames cpu.current with
      | nil =>
        rw [live, frames] at from_
        exact from_.elim
      | cons f rest => rfl
  | _ =>
    simp only [TrapCpu.next, place]
    rfl

/-- Every step that is not allowed lets a run go on to where the protocol is broken. -/
theorem Inv.exposed {top : U64 → Int} {event : TrapEvent} {cpu cpu' : TrapCpu} (inv : cpu.Inv)
    (refused : ¬ event.Allowed cpu) (taken : event.step top cpu = some cpu') :
    Exposed top cpu' := by
  -- Three kinds of steps are not allowed, each with a run of its own.
  cases event with
  | next =>
    obtain ⟨place, yes⟩ := Classical.not_imp.mp refused
    exact exposed_workResched inv place (Bool.not_eq_false _ ▸ yes) taken
  | moveToUserSpace spie sp => exact exposed_moveToUserSpace inv (Bool.not_eq_false _ ▸ refused) taken
  | enterGuest => exact exposed_enterGuest inv (Bool.not_eq_false _ ▸ refused) taken
  | _ => exact absurd trivial refused

end TrapCpu

section Runs

variable {top : U64 → Int} {task : U64} {events : List TrapEvent} {cpu : TrapCpu}

/--
Every run whose steps are all allowed keeps the protocol of `sscratch`, and none could go without:
from where it ended a step that is not allowed lets the run go on to where the protocol is broken.
-/
theorem sscratch_protocol (nonzero : task ≠ 0)
    (ran : Transition.run (TrapEvent.step top) events (TrapCpu.boot top task) = some cpu)
    (allowed : ∀ earlier event later mid, events = earlier ++ event :: later →
      Transition.run (TrapEvent.step top) earlier (TrapCpu.boot top task) = some mid →
      event.Allowed mid) :
    cpu.Protocol ∧ ∀ (event : TrapEvent) (cpu' : TrapCpu), ¬ event.Allowed cpu →
      event.step top cpu = some cpu' → cpu'.Exposed top := by
  have inv : cpu.Inv :=
    Transition.run_invariant_on
      (fun event before after inv may taken => TrapEvent.step_inv inv may taken)
      (TrapCpu.boot_inv nonzero) ran allowed
  exact ⟨inv.protocol, fun event cpu' refused taken => inv.exposed refused taken⟩

/-- The protocol where an interrupt of the kernel is about to push its frame. -/
theorem sscratch_protocol_interrupt :
    ∃ cpu, Transition.run (TrapEvent.step fun task => task.toNat + 4096)
        [.irq true, .interrupt, .next, .next, .next, .next, .next, .next]
        (TrapCpu.boot (fun task => task.toNat + 4096) 0x80400000) = some cpu ∧
      cpu.place = .pushFrame ∧ cpu.Protocol := by
  -- None of the instructions of `kernel_entry` is a branch to `work_resched`.
  have instruction : ∀ cpu : TrapCpu, cpu.place ≠ .testResched → TrapEvent.next.Allowed cpu :=
    fun cpu other place => absurd place other
  have nonzero : (0x80400000 : U64) ≠ 0 := by decide
  obtain ⟨cpu, ran, place⟩ : ∃ cpu,
      Transition.run (TrapEvent.step fun task => task.toNat + 4096)
        [.irq true, .interrupt, .next, .next, .next, .next, .next, .next]
        (TrapCpu.boot (fun task => task.toNat + 4096) 0x80400000) = some cpu ∧
      cpu.place = .pushFrame := ⟨_, rfl, rfl⟩
  refine ⟨cpu, ran, place, (sscratch_protocol nonzero ran ?_).1⟩
  refine Transition.allowed_cons trivial rfl (Transition.allowed_cons trivial rfl ?_)
  iterate 6
    refine Transition.allowed_cons (instruction _ (by decide)) rfl ?_
  intro earlier event later mid split
  cases earlier with
  | nil | cons _ _ => cases split

/-- A kernel thread that calls `jump_to_vs_mode` leaves its task in `sscratch` with interrupts on. -/
theorem sscratch_unprotected :
    ¬ ∀ (top : U64 → Int) (task : U64) (events : List TrapEvent) (cpu : TrapCpu), task ≠ 0 →
      Transition.run (TrapEvent.step top) events (TrapCpu.boot top task) = some cpu →
      cpu.Protocol := by
  intro claimed
  have protocol := claimed (fun task => task.toNat + 4096) 0x80400000
    [.forkThread 0x80600000, .schedule, .next, .switch 0x80600000, .next, .enterGuest, .next, .next]
    _ (by decide) rfl
  -- The scheduler has turned interrupts on, and nothing has turned them off.
  have zero : (0x80600000 : U64) = 0 := (protocol.inside ⟨rfl, rfl⟩ rfl).1
  cases zero

end Runs

end Benos
