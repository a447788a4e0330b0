import Benos.Trap.Scratch

/-! The protocol of `sscratch`: when `kernel_entry` can tell where a trap comes from. -/

namespace Benos

/-! ### The protocol -/

/-- What `kernel_entry` relies on, and what it gives. -/
structure TrapCpu.Protocol (cpu : TrapCpu) : Prop where
  /-- Whenever an interrupt can be taken in HS mode, it will be told from one of a program. -/
  inside : cpu.InKernel → cpu.sie = true → cpu.sscratch = 0 ∧ cpu.tp = cpu.current
  /-- A program leaves its task in `sscratch`. -/
  outside : ¬ cpu.InKernel → cpu.sscratch = cpu.current
  /-- `kernel_entry` takes a trap for what it is. -/
  tells : cpu.place = .testTp → (cpu.tp = 0 ↔ cpu.FromKernel)
  /-- A frame is pushed below all frames of its task that are still to be restored. -/
  below : cpu.place = .pushFrame →
    cpu.tp = cpu.current ∧ ∀ f ∈ cpu.frames cpu.current, cpu.sp ≤ f.base

/-! ### Frames -/

/-- A stack pointer at or below every frame. -/
def Below (sp : Int) (frames : List TrapFrame) : Prop := ∀ f ∈ frames, sp ≤ f.base

/-- The innermost frame has a property. -/
def Innermost (holds : TrapFrame → Prop) : List TrapFrame → Prop
  | f :: _ => holds f
  | [] => False

/--
What holds at a place where `sscratch` is zero and `tp` the current task, and `SIE` may be set.

Interrupts are taken here and come back here, and a task that is switched out waits here.
-/
def TrapPlace.Quiet (sp : Int) (frames : List TrapFrame) : TrapPlace → Prop
  | .code | .retFromKernelThread | .schedule .kernelCode | .switchTo .kernelCode
  | .scheduleTail .kernelCode | .scheduleReturn .kernelCode => Below sp frames
  | .schedule .preemptScheduleIrq | .switchTo .preemptScheduleIrq
  | .scheduleTail .preemptScheduleIrq | .scheduleReturn .preemptScheduleIrq =>
    Below sp frames ∧ Innermost (·.FromKernel) frames
  | .loadStatus | .retFromFork => Innermost (·.base = sp) frames
  | .clearSie spp spv => Innermost (fun f => f.base = sp ∧ f.spp = spp ∧ f.spv = spv) frames
  | _ => False

/-- The places that can be quiet. -/
def TrapPlace.isQuiet : TrapPlace → Bool
  | code | retFromKernelThread | loadStatus | retFromFork | clearSie _ _ | schedule _ | switchTo _
  | scheduleTail _ | scheduleReturn _ => true
  | _ => false

/-- The frames of a task: each goes back to where its trap was taken, with interrupts still off. -/
def Chain (task : U64) : List TrapFrame → Prop
  | [] => True
  | f :: rest =>
    Chain task rest ∧ f.sie = false ∧ Below f.base rest ∧
      (f.FromKernel → f.tp = task ∧ f.sepc.Quiet f.sp rest) ∧
      (¬ f.FromKernel → rest = [] ∧ f.sepc = .program)

/-- Where the innermost frame is, the stack pointer is below all. -/
theorem Chain.below {task : U64} {sp : Int} {frames : List TrapFrame} (chain : Chain task frames)
    (here : Innermost (·.base = sp) frames) : Below sp frames := by
  cases frames with
  | nil => exact here.elim
  | cons f rest =>
    obtain ⟨-, -, ordered, -⟩ := chain
    have at_ : f.base = sp := here
    intro g member
    -- The frames further out are higher up.
    rcases List.mem_cons.mp member with rfl | outer
    · exact Int.le_of_eq at_.symm
    · exact at_ ▸ ordered g outer

/-- What holds of the first frame holds of the innermost one. -/
theorem Innermost.of_cons {holds : TrapFrame → Prop} {f : TrapFrame} {frames rest : List TrapFrame}
    (same : frames = f :: rest) (first : holds f) : Innermost holds frames := by
  rw [same]
  exact first

/-- What holds of the innermost frame holds of the first one. -/
theorem Innermost.head {holds : TrapFrame → Prop} {f : TrapFrame} {frames rest : List TrapFrame}
    (here : Innermost holds frames) (same : frames = f :: rest) : holds f := by
  rw [same] at here
  exact here

/-- One property of the innermost frame follows from another. -/
theorem Innermost.imp {holds holds' : TrapFrame → Prop} {frames : List TrapFrame}
    (here : Innermost holds frames) (implies : ∀ f, holds f → holds' f) :
    Innermost holds' frames := by
  cases frames with
  | nil => exact here.elim
  | cons f rest => exact implies f here

/-- At a quiet place the stack pointer is below every frame. -/
theorem TrapPlace.Quiet.below {task : U64} {sp : Int} {frames : List TrapFrame} {place : TrapPlace}
    (quiet : place.Quiet sp frames) (chain : Chain task frames) : Below sp frames := by
  -- The cases are those of the definition, split by who called `schedule`.
  cases place with
  | code | retFromKernelThread => exact quiet
  | loadStatus | retFromFork => exact chain.below quiet
  | clearSie spp spv => exact chain.below (Innermost.imp quiet fun f at_ => at_.1)
  | schedule caller | switchTo caller | scheduleTail caller | scheduleReturn caller =>
    cases caller with
    | kernelCode => exact quiet
    | workResched => exact quiet.elim
    | preemptScheduleIrq => exact quiet.1
  | _ => exact quiet.elim

/-! ### The invariant -/

namespace TrapCpu

section Invariant

variable (cpu : TrapCpu)

/-- In HS mode with interrupts off. -/
def Masked : Prop := cpu.InKernel ∧ cpu.sie = false

/-- Masked, with the registers as the kernel has them. -/
def Back : Prop := cpu.Masked ∧ cpu.sscratch = 0 ∧ cpu.tp = cpu.current

/-- The frames of the current task. -/
abbrev live : List TrapFrame := cpu.frames cpu.current

/-- What a trap finds, and what an `sret` leaves. -/
def Origin : Prop :=
  (cpu.FromKernel →
    cpu.sscratch = 0 ∧ cpu.tp = cpu.current ∧ cpu.sepc.Quiet cpu.sp cpu.live) ∧
  (¬ cpu.FromKernel → cpu.sepc = .program ∧ cpu.sscratch = cpu.current ∧ cpu.live = [])

/-- A way back through a frame: to a program with the task in `sscratch`, or to the kernel. -/
def Leaves (f : TrapFrame) : Prop :=
  f.base = cpu.sp ∧ (f.FromKernel → cpu.sscratch = 0 ∧ cpu.tp = cpu.current) ∧
    (¬ f.FromKernel → cpu.sscratch = cpu.current)

/-- What holds at each place. -/
def HereAt : TrapPlace → Prop
  | .program => ¬ cpu.InKernel ∧ cpu.sscratch = cpu.current ∧ cpu.live = []
  | .swapTp | .sret => cpu.Masked ∧ cpu.Origin
  | .testTp =>
    cpu.Masked ∧
      (cpu.FromKernel →
        cpu.tp = 0 ∧ cpu.sscratch = cpu.current ∧ cpu.sepc.Quiet cpu.sp cpu.live) ∧
      (¬ cpu.FromKernel → cpu.sepc = .program ∧ cpu.tp = cpu.current ∧ cpu.live = [])
  | .readTp =>
    cpu.Masked ∧ cpu.FromKernel ∧ cpu.sscratch = cpu.current ∧ cpu.sepc.Quiet cpu.sp cpu.live
  | .saveKernelSp =>
    cpu.Masked ∧ cpu.FromKernel ∧ cpu.sscratch = cpu.current ∧ cpu.tp = cpu.current ∧
      cpu.sepc.Quiet cpu.sp cpu.live
  | .saveUserSp =>
    cpu.Masked ∧ cpu.tp = cpu.current ∧
      (cpu.FromKernel →
        cpu.sscratch = cpu.current ∧ cpu.kernelSp cpu.current = cpu.sp ∧
          cpu.sepc.Quiet cpu.sp cpu.live) ∧
      (¬ cpu.FromKernel → cpu.sepc = .program ∧ cpu.live = [])
  | .loadKernelSp =>
    cpu.Masked ∧ cpu.tp = cpu.current ∧
      (cpu.FromKernel →
        cpu.sscratch = cpu.current ∧ cpu.kernelSp cpu.current = cpu.userSp cpu.current ∧
          cpu.sepc.Quiet (cpu.userSp cpu.current) cpu.live) ∧
      (¬ cpu.FromKernel → cpu.sepc = .program ∧ cpu.live = [])
  | .pushFrame =>
    cpu.Masked ∧ cpu.tp = cpu.current ∧
      (cpu.FromKernel →
        cpu.sscratch = cpu.current ∧ cpu.sp = cpu.userSp cpu.current ∧
          cpu.sepc.Quiet cpu.sp cpu.live) ∧
      (¬ cpu.FromKernel → cpu.sepc = .program ∧ cpu.live = [])
  | .clearScratch => cpu.Masked ∧ cpu.tp = cpu.current ∧ Innermost (·.base = cpu.sp) cpu.live
  | .testStatus spp spv =>
    cpu.Back ∧ Innermost (fun f => f.base = cpu.sp ∧ f.spp = spp ∧ f.spv = spv) cpu.live
  | .testResched | .noWorkPending | .setScratch =>
    cpu.Back ∧ Innermost (fun f => f.base = cpu.sp ∧ ¬ f.FromKernel) cpu.live
  | .testCount | .needResched | .preemptScheduleIrq =>
    cpu.Back ∧ Innermost (fun f => f.base = cpu.sp ∧ f.FromKernel) cpu.live
  | .writeSstatus => cpu.Masked ∧ Innermost cpu.Leaves cpu.live
  | .writeSepc => cpu.Masked ∧ Innermost (fun f => cpu.Leaves f ∧ cpu.spp = f.spp) cpu.live
  | .writeHstatus =>
    cpu.Masked ∧
      Innermost (fun f => cpu.Leaves f ∧ cpu.spp = f.spp ∧ cpu.sepc = f.sepc) cpu.live
  | .loadTp | .loadSp =>
    cpu.Masked ∧
      Innermost (fun f => cpu.Leaves f ∧ cpu.spp = f.spp ∧ cpu.sepc = f.sepc ∧ cpu.spv = f.spv)
        cpu.live
  | .saveSp | .setScratchVs => cpu.Back ∧ ¬ cpu.FromKernel ∧ cpu.live = []
  | .writeSepcVs => cpu.Masked ∧ cpu.sscratch = cpu.current ∧ ¬ cpu.FromKernel ∧ cpu.live = []
  | place =>
    cpu.InKernel ∧ cpu.sscratch = 0 ∧ cpu.tp = cpu.current ∧ place.Quiet cpu.sp cpu.live

/-- What holds where the CPU is. -/
def Here : Prop := cpu.HereAt cpu.place

/-- What every state of a good run keeps. -/
structure Inv : Prop where
  nonzero : cpu.current ≠ 0
  chains : ∀ task, Chain task (cpu.frames task)
  /-- The current task is not switched out. -/
  running : cpu.waiting cpu.current = none
  waiting : ∀ task place sp, cpu.waiting task = some (place, sp) →
    task ≠ 0 ∧ place.Quiet sp (cpu.frames task)
  here : cpu.Here

end Invariant

variable {cpu cpu' : TrapCpu}

/-- What the invariant says at a place. -/
theorem Inv.at {place : TrapPlace} (inv : cpu.Inv) (there : cpu.place = place) :
    cpu.HereAt place := by
  rw [← there]
  exact inv.here

/-- A task is never at address zero. -/
theorem Inv.tp_ne_zero (inv : cpu.Inv) (tp : cpu.tp = cpu.current) : cpu.tp ≠ 0 := by
  rw [tp]
  exact inv.nonzero

/-- The frames of the current task, with the innermost one named. -/
theorem Inv.chain_cons {f : TrapFrame} {rest : List TrapFrame} (inv : cpu.Inv)
    (frames : cpu.live = f :: rest) : Chain cpu.current (f :: rest) := by
  rw [← frames]
  exact inv.chains cpu.current

/-- At a quiet place nothing more has to hold. -/
theorem here_of_quiet (kernel : cpu.InKernel) (zero : cpu.sscratch = 0) (tp : cpu.tp = cpu.current)
    (quiet : cpu.place.Quiet cpu.sp cpu.live) : cpu.Here := by
  rw [Here]
  cases place : cpu.place with
  | code | retFromKernelThread | loadStatus | retFromFork | clearSie _ _ | schedule _ | switchTo _
  | scheduleTail _ | scheduleReturn _ =>
    rw [place] at quiet
    exact ⟨kernel, zero, tp, quiet⟩
  | _ =>
    -- No other place is quiet.
    rw [place] at quiet
    exact quiet.elim

/-- What holds at a quiet place. -/
theorem Inv.quiet (inv : cpu.Inv) (place : cpu.place.isQuiet = true) :
    cpu.InKernel ∧ cpu.sscratch = 0 ∧ cpu.tp = cpu.current ∧ cpu.place.Quiet cpu.sp cpu.live := by
  have here := inv.at rfl
  -- The last line of the invariant is the one for these places.
  cases at_ : cpu.place with
  | code | retFromKernelThread | loadStatus | retFromFork | clearSie _ _ | schedule _ | switchTo _
  | scheduleTail _ | scheduleReturn _ =>
    rw [at_] at here
    exact here
  | _ =>
    rw [at_] at place
    cases place

/-- In HS mode with interrupts on the place is a quiet one. -/
theorem Here.quiet (here : cpu.Here) (kernel : cpu.InKernel) (enabled : cpu.sie = true) :
    cpu.sscratch = 0 ∧ cpu.tp = cpu.current ∧ cpu.place.Quiet cpu.sp cpu.live := by
  rw [Here] at here
  -- Everywhere else in HS mode interrupts are off.
  have unmasked : ¬ cpu.Masked := by
    intro masked
    rw [masked.2] at enabled
    cases enabled
  cases place : cpu.place with
  | program =>
    rw [place] at here
    exact absurd kernel here.1
  | code | retFromKernelThread | loadStatus | retFromFork | clearSie _ _ | schedule _ | switchTo _
  | scheduleTail _ | scheduleReturn _ =>
    rw [place] at here
    exact here.2
  | testStatus _ _ | testResched | noWorkPending | setScratch | testCount | needResched
  | preemptScheduleIrq | saveSp | setScratchVs =>
    rw [place] at here
    exact absurd here.1.1 unmasked
  | _ =>
    rw [place] at here
    exact absurd here.1 unmasked

/-- Outside of HS mode a program runs. -/
theorem Here.outside (here : cpu.Here) (outside : ¬ cpu.InKernel) :
    cpu.place = .program ∧ cpu.sscratch = cpu.current ∧ cpu.live = [] := by
  rw [Here] at here
  -- All other places are in HS mode.
  cases place : cpu.place with
  | program =>
    rw [place] at here
    exact ⟨rfl, here.2⟩
  | code | retFromKernelThread | loadStatus | retFromFork | clearSie _ _ | schedule _ | switchTo _
  | scheduleTail _ | scheduleReturn _ =>
    rw [place] at here
    exact absurd here.1 outside
  | testStatus _ _ | testResched | noWorkPending | setScratch | testCount | needResched
  | preemptScheduleIrq | saveSp | setScratchVs =>
    rw [place] at here
    exact absurd here.1.1.1 outside
  | _ =>
    rw [place] at here
    exact absurd here.1.1 outside

/-- The invariant is more than the protocol. -/
theorem Inv.protocol (inv : cpu.Inv) : cpu.Protocol := by
  have here := inv.here
  refine ⟨fun kernel enabled => ?_, fun outside => ?_, fun there => ?_, fun there => ?_⟩
  · obtain ⟨zero, tp, -⟩ := here.quiet kernel enabled
    exact ⟨zero, tp⟩
  · exact (here.outside outside).2.1
  · obtain ⟨-, inside, outside⟩ := inv.at there
    by_cases from_ : cpu.FromKernel
    · exact iff_of_true (inside from_).1 from_
    · exact iff_of_false (inv.tp_ne_zero (outside from_).2.1) from_
  · obtain ⟨-, tp, inside, outside⟩ := inv.at there
    refine ⟨tp, ?_⟩
    by_cases from_ : cpu.FromKernel
    · exact (inside from_).2.2.below (inv.chains cpu.current)
    · -- A program has no frame left.
      intro f member
      have none_ : cpu.frames cpu.current = [] := (outside from_).2
      rw [none_] at member
      cases member

end TrapCpu

end Benos
