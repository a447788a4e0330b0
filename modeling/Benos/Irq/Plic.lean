import Benos.Lib.Transition
import Benos.Lib.Word
import Benos.Sbi.Trap

/-!
`plic.c`: which interrupts its calls let through, over the registers of the interrupt controller.

The controller itself is modelled as its specification describes it.
-/

namespace Benos

/-- A 32-bit register, an address of one, or the `int` or `unsigned int` that names it. -/
abbrev U32 := BitVec 32

/-- The interrupts of any controller are numbered below this. -/
def Plic.irqLimit : Nat := 1024

/-- The interrupt controller: its registers by address, and what its gateways hold. -/
structure Plic where
  /-- How many interrupts it has, which are numbered from 1 on. -/
  sources : Nat
  limited : sources < Plic.irqLimit
  regs : U32 → U32
  /-- A request that has been forwarded and not been claimed. -/
  pending : Nat → Bool
  /-- A request that has been claimed and not been completed, which holds back the next one. -/
  inService : Nat → Bool

/-- `MAX_PLIC_IRQS`, which the driver takes for the number of interrupts. -/
def maxPlicIrqs : Nat := 53

/-- `UART0_IRQ`. -/
def uart0Irq : U32 := 10

/-- `PLIC_BASE`, as an address of registers. -/
def plicRegs : U32 := 0xc000000

/-- `PLIC_PRIORITY`. -/
def plicPriority (id : U32) : U32 := plicRegs + id * 4

/-- `PLIC_MENABLE`. -/
def plicMenable (hart : U32) : U32 := plicRegs + 0x2000 + hart * 0x80

/-- `PLIC_MTHRESHOLD`. -/
def plicMthreshold (hart : U32) : U32 := plicRegs + 0x200000 + hart * 0x1000

/-- `PLIC_MCLAIM`, which is also `PLIC_MCOMPLETE`. -/
def plicMclaim (hart : U32) : U32 := plicRegs + 0x200004 + hart * 0x1000

/-- `CPU_TO_HART_S`. -/
def cpuToHartS (cpu : U32) : U32 := cpu + 1

namespace Plic

/-! ### The controller -/

/-- The bit of an interrupt in the enable registers of a context. -/
def enabled (p : Plic) (context : U32) (irq : Nat) : Bool :=
  (p.regs (plicMenable context + 4 * BitVec.ofNat 32 (irq / 32))).getLsbD (irq % 32)

/-- The priority of an interrupt. -/
def priority (p : Plic) (irq : Nat) : Nat := (p.regs (plicPriority (BitVec.ofNat 32 irq))).toNat

/-- The interrupts that a context can claim: forwarded, enabled, and of a priority other than 0. -/
def claimable (p : Plic) (context : U32) : List Nat :=
  (List.range' 1 p.sources).filter fun irq =>
    p.pending irq && p.enabled context irq && 0 < p.priority irq

/-- The one that it is given: the first of the highest priority, or 0. -/
def best (p : Plic) (context : U32) : Nat :=
  (p.claimable context).foldl
    (fun best irq => if best = 0 ∨ p.priority best < p.priority irq then irq else best) 0

/-- The external interrupt of a context is raised. -/
def notifies (p : Plic) (context : U32) : Bool :=
  (p.claimable context).any fun irq => (p.regs (plicMthreshold context)).toNat < p.priority irq

/-- A device requests an interrupt, which is forwarded unless an earlier request is not done. -/
def raise (irq : Nat) (p : Plic) : Plic :=
  if p.pending irq ∨ p.inService irq then p
  else { p with pending := Function.update p.pending irq true }

/-- A claim takes the request that it answers with. -/
def claim (context : U32) (p : Plic) : Nat × Plic :=
  let irq := p.best context
  (irq, if irq = 0 then p else
    { p with
      pending := Function.update p.pending irq false
      inService := Function.update p.inService irq true })

/-- The completion of an interrupt that is not enabled is ignored. -/
def complete (context : U32) (irq : Nat) (p : Plic) : Plic :=
  if p.enabled context irq then { p with inService := Function.update p.inService irq false } else p

/-- The context whose claim register is at an address. -/
def claimContext (addr : U32) : Option U32 :=
  let offset := addr - (plicRegs + 0x200004)
  if addr < plicRegs + 0x200004 ∨ offset &&& 0xfff ≠ 0 then none else some (offset >>> 12)

/-- `readl` of a register of the controller. -/
def readl (addr : U32) (p : Plic) : U32 × Plic :=
  match claimContext addr with
  | some context => ((BitVec.ofNat 32 (p.claim context).1), (p.claim context).2)
  | none => (p.regs addr, p)

/-- `writel` to a register of the controller. -/
def writel (v addr : U32) (p : Plic) : Plic :=
  match claimContext addr with
  | some context => p.complete context v.toNat
  | none => { p with regs := Function.update p.regs addr v }

/-! ### Its driver -/

/-- `plic_set_prority`. -/
def plicSetPrority (hwirq pro : U32) (p : Plic) : Plic := p.writel pro (plicPriority hwirq)

/-- `plic_enable_irq`, without what it prints. -/
def plicEnableIrq (cpu hwirq enable : U32) (p : Plic) : Plic :=
  let hwirqMask := (1 : U32) <<< (hwirq.srem 32).toNat
  let hart := cpuToHartS cpu
  let reg := plicMenable hart + 4 * hwirq.sdiv 32
  let (value, p) := p.readl reg
  if enable ≠ 0 then p.writel (value ||| hwirqMask) reg else p.writel (value &&& ~~~hwirqMask) reg

/-- The inner loop of `plic_init` from an interrupt on, over so many of them. -/
def initIrqs (cpu : U32) : Nat → Nat → Plic → Plic
  | 0, _, p => p
  | more + 1, hwirq, p =>
    initIrqs cpu more (hwirq + 1)
      ((p.plicEnableIrq cpu (BitVec.ofNat 32 hwirq) 0).plicSetPrority (BitVec.ofNat 32 hwirq) 1)

/-- `plic_init` for the one processor of `MAX_CPUS`, without the bit that it sets in `sie`. -/
def plicInit (p : Plic) : Plic :=
  initIrqs 0 maxPlicIrqs 1 (p.writel 0 (plicMthreshold (cpuToHartS 0)))

/-! ### Where the registers are -/

/-- Every interrupt of the driver has a place in the registers. -/
theorem maxPlicIrqs_limited : maxPlicIrqs < irqLimit := by decide

/-- A small `int` is divided as a natural number is. -/
theorem sdiv_small {irq : Nat} (small : irq < irqLimit) :
    (BitVec.ofNat 32 irq).sdiv 32 = BitVec.ofNat 32 (irq / 32) := by
  rw [irqLimit] at small
  have value : (BitVec.ofNat 32 irq).toNat = irq := by
    rw [BitVec.toNat_ofNat]
    omega
  have positive : (BitVec.ofNat 32 irq).msb = false := by
    rw [BitVec.msb_eq_decide, value]
    exact decide_eq_false (by omega)
  rw [BitVec.sdiv_eq, positive]
  apply BitVec.eq_of_toNat_eq
  show ((BitVec.ofNat 32 irq).udiv 32).toNat = _
  rw [BitVec.udiv_eq, BitVec.toNat_udiv, value, BitVec.toNat_ofNat]
  show irq / 32 = _
  omega

/-- Its remainder is that of the natural number too. -/
theorem srem_small {irq : Nat} (small : irq < irqLimit) :
    ((BitVec.ofNat 32 irq).srem 32).toNat = irq % 32 := by
  rw [irqLimit] at small
  have value : (BitVec.ofNat 32 irq).toNat = irq := by
    rw [BitVec.toNat_ofNat]
    omega
  have positive : (BitVec.ofNat 32 irq).msb = false := by
    rw [BitVec.msb_eq_decide, value]
    exact decide_eq_false (by omega)
  rw [BitVec.srem_eq, positive]
  show ((BitVec.ofNat 32 irq) % 32#32).toNat = _
  rw [BitVec.toNat_umod, value]
  rfl

/-- The enable register of an interrupt in a context. -/
def enableReg (context : U32) (irq : Nat) : U32 :=
  plicMenable context + 4 * BitVec.ofNat 32 (irq / 32)

/-- The enable registers lie one block of 128 bytes behind the other. -/
theorem enableReg_toNat {context : U32} {irq : Nat} (few : context.toNat < 15872)
    (small : irq < irqLimit) :
    (enableReg context irq).toNat = 0xc002000 + 0x80 * context.toNat + 4 * (irq / 32) := by
  rw [irqLimit] at small
  simp only [enableReg, plicMenable, plicRegs, BitVec.toNat_add, BitVec.toNat_mul,
    BitVec.toNat_ofNat, BitVec.ofNat_eq_ofNat]
  omega

/-- The priority registers lie in front of them. -/
theorem plicPriority_toNat {irq : Nat} (small : irq < irqLimit) :
    (plicPriority (BitVec.ofNat 32 irq)).toNat = 0xc000000 + 4 * irq := by
  rw [irqLimit] at small
  simp only [plicPriority, plicRegs, BitVec.toNat_add, BitVec.toNat_mul, BitVec.toNat_ofNat,
    BitVec.ofNat_eq_ofNat]
  omega

/-- None of them is a claim register. -/
theorem claimContext_low {addr : U32} (low : addr.toNat < 0xc200004) :
    claimContext addr = none := by
  rw [claimContext]
  exact if_pos (.inl (BitVec.lt_def.mpr low))

/-- What is not a claim register is written as memory is. -/
theorem writel_plain (p : Plic) (v : U32) {addr : U32} (plain : claimContext addr = none) :
    p.writel v addr = { p with regs := Function.update p.regs addr v } := by
  rw [writel, plain]

/-- What `plic_enable_irq` does for an interrupt that the controller has. -/
theorem plicEnableIrq_eq (p : Plic) {irq : Nat} (small : irq < irqLimit) (enable : U32) :
    p.plicEnableIrq 0 (BitVec.ofNat 32 irq) enable =
      { p with
        regs := Function.update p.regs (enableReg 1 irq)
          (if enable ≠ 0 then p.regs (enableReg 1 irq) ||| (1 : U32) <<< (irq % 32)
            else p.regs (enableReg 1 irq) &&& ~~~((1 : U32) <<< (irq % 32))) } := by
  have low : (enableReg 1 irq).toNat < 0xc200004 := by
    rw [enableReg_toNat (by decide) small]
    rw [irqLimit] at small
    show 0xc002000 + 0x80 * 1 + 4 * (irq / 32) < _
    omega
  have place : plicMenable (cpuToHartS 0) + 4 * BitVec.ofNat 32 (irq / 32) = enableReg 1 irq := rfl
  have plain := claimContext_low low
  rw [plicEnableIrq, sdiv_small small, srem_small small]
  dsimp only
  rw [place, readl, plain]
  dsimp only
  split
  · rw [writel_plain _ _ plain]
  · rw [writel_plain _ _ plain]

/-! ### What its calls make of them -/

/-- An interrupt is enabled by its bit of its register. -/
theorem enabled_eq (p : Plic) (context : U32) (irq : Nat) :
    p.enabled context irq = (p.regs (enableReg context irq)).getLsbD (irq % 32) := rfl

/-- An enabling or disabling call changes the one bit of its interrupt in the context of S mode. -/
theorem enabled_plicEnableIrq (p : Plic) {irq other : Nat} (small : irq < irqLimit)
    (small' : other < irqLimit) (enable : U32) {context : U32} (few : context.toNat < 15872) :
    (p.plicEnableIrq 0 (BitVec.ofNat 32 irq) enable).enabled context other =
      if context = 1 ∧ other = irq then decide (enable ≠ 0) else p.enabled context other := by
  rw [plicEnableIrq_eq p small, enabled_eq, enabled_eq]
  have place := enableReg_toNat few small'
  have mine := enableReg_toNat (show (1 : U32).toNat < 15872 by decide) small
  have one : (1 : U32).toNat = 1 := rfl
  by_cases same : enableReg context other = enableReg 1 irq
  · -- The same register is of the same context, and of the same block of interrupts.
    have both := congrArg BitVec.toNat same
    rw [place, mine, one] at both
    rw [irqLimit] at small small'
    have here : context = 1 := BitVec.eq_of_toNat_eq (by rw [one]; omega)
    subst here
    dsimp only
    rw [same, Function.update_self]
    have bit : ((1 : U32) <<< (irq % 32)).getLsbD (other % 32) = decide (other = irq) := by
      show (BitVec.twoPow 32 (irq % 32)).getLsbD (other % 32) = _
      rw [BitVec.getLsbD_twoPow, decide_eq_true (Nat.mod_lt irq (by decide)), Bool.true_and]
      exact decide_eq_decide.mpr ⟨fun equal => by omega, fun equal => by rw [equal]⟩
    by_cases on : enable ≠ 0
    · rw [if_pos on, BitVec.getLsbD_or, bit]
      by_cases equal : other = irq
      · simpa [equal] using on
      · simp [equal]
    · rw [if_neg on, BitVec.getLsbD_and, BitVec.getLsbD_not, bit]
      have inside : other % 32 < 32 := Nat.mod_lt _ (by decide)
      by_cases equal : other = irq
      · simpa [equal] using on
      · simp [equal, inside]
  · have different : ¬ (context = 1 ∧ other = irq) := by
      rintro ⟨rfl, rfl⟩
      exact same rfl
    rw [if_neg different]
    dsimp only
    rw [Function.update_of_ne same]

/-- The priorities and the thresholds are elsewhere. -/
theorem regs_plicEnableIrq (p : Plic) {irq : Nat} (small : irq < irqLimit) (enable : U32)
    {addr : U32} (apart : addr.toNat < 0xc002000 ∨ 0xc200000 ≤ addr.toNat) :
    (p.plicEnableIrq 0 (BitVec.ofNat 32 irq) enable).regs addr = p.regs addr := by
  rw [plicEnableIrq_eq p small]
  refine Function.update_of_ne ?_ _ _
  rintro rfl
  rw [enableReg_toNat (by decide) small, show (1 : U32).toNat = 1 from rfl] at apart
  rw [irqLimit] at small
  omega

/-- Setting the priority of an interrupt is seen there alone. -/
theorem plicSetPrority_eq (p : Plic) {irq : Nat} (small : irq < irqLimit) (pro : U32) :
    p.plicSetPrority (BitVec.ofNat 32 irq) pro =
      { p with regs := Function.update p.regs (plicPriority (BitVec.ofNat 32 irq)) pro } := by
  refine writel_plain _ _ (claimContext_low ?_)
  rw [plicPriority_toNat small]
  rw [irqLimit] at small
  omega

/-- The decision of the last call for an interrupt. -/
def lastDecision (irq : Nat) (before : Bool) (calls : List (Nat × U32)) : Bool :=
  calls.foldl (fun on call => if call.1 = irq then decide (call.2 ≠ 0) else on) before

/-- Calls of `plic_enable_irq`, one after the other. -/
def enableIrqs (calls : List (Nat × U32)) (p : Plic) : Plic :=
  calls.foldl (fun p call => p.plicEnableIrq 0 (BitVec.ofNat 32 call.1) call.2) p

/-- One controller before and after, with the same requests. -/
structure SameRequests (p q : Plic) : Prop where
  sources : p.sources = q.sources
  pending : p.pending = q.pending
  inService : p.inService = q.inService

/-- It is the same over two steps. -/
theorem SameRequests.trans {p q r : Plic} (first : SameRequests p q) (second : SameRequests q r) :
    SameRequests p r :=
  ⟨first.sources.trans second.sources, first.pending.trans second.pending,
    first.inService.trans second.inService⟩

/-- After such calls an interrupt is enabled as its last call said, and nothing else has changed. -/
theorem enableIrqs_spec (calls : List (Nat × U32)) (known : ∀ call ∈ calls, call.1 < irqLimit)
    (p : Plic) :
    (∀ irq < irqLimit, (enableIrqs calls p).enabled 1 irq =
      lastDecision irq (p.enabled 1 irq) calls) ∧
    (∀ context : U32, context ≠ 1 → context.toNat < 15872 → ∀ irq < irqLimit,
      (enableIrqs calls p).enabled context irq = p.enabled context irq) ∧
    (∀ addr : U32, addr.toNat < 0xc002000 ∨ 0xc200000 ≤ addr.toNat →
      (enableIrqs calls p).regs addr = p.regs addr) ∧
    SameRequests (enableIrqs calls p) p := by
  -- Each call decides for its own interrupt, and the calls behind it may decide again.
  induction calls generalizing p with
  | nil => exact ⟨fun _ _ => rfl, fun _ _ _ _ _ => rfl, fun _ _ => rfl, ⟨rfl, rfl, rfl⟩⟩
  | cons call rest ih =>
    have small := known call List.mem_cons_self
    obtain ⟨mine, others, apart, later⟩ :=
      ih (fun call member => known call (List.mem_cons_of_mem _ member))
        (p.plicEnableIrq 0 (BitVec.ofNat 32 call.1) call.2)
    have requests : SameRequests (p.plicEnableIrq 0 (BitVec.ofNat 32 call.1) call.2) p := by
      rw [plicEnableIrq_eq p small]
      exact ⟨rfl, rfl, rfl⟩
    refine ⟨fun irq small' => ?_, fun context other few irq small' => ?_, fun addr far => ?_,
      later.trans requests⟩
    · refine (mine irq small').trans ?_
      rw [enabled_plicEnableIrq p small small' call.2 (by decide), lastDecision, lastDecision,
        List.foldl_cons]
      by_cases same : call.1 = irq
      · rw [if_pos ⟨rfl, same.symm⟩, if_pos same]
      · rw [if_neg fun both => same both.2.symm, if_neg same]
    · refine (others context other few irq small').trans ?_
      rw [enabled_plicEnableIrq p small small' call.2 few, if_neg fun both => other both.1]
    · exact (apart addr far).trans (p.regs_plicEnableIrq small call.2 far)

/-- One round of the loop of `plic_init`. -/
def initIrq (hwirq : Nat) (p : Plic) : Plic :=
  (p.plicEnableIrq 0 (BitVec.ofNat 32 hwirq) 0).plicSetPrority (BitVec.ofNat 32 hwirq) 1

/-- It disables its interrupt in the context of S mode. -/
theorem enabled_initIrq (p : Plic) {hwirq irq : Nat} (small : hwirq < irqLimit)
    (small' : irq < irqLimit) {context : U32} (few : context.toNat < 15872) :
    (p.initIrq hwirq).enabled context irq =
      if context = 1 ∧ irq = hwirq then false else p.enabled context irq := by
  have off := enabled_plicEnableIrq p small small' 0 few
  rw [decide_eq_false (by decide)] at off
  refine Eq.trans ?_ off
  -- The priority is written in front of all enable registers.
  rw [initIrq, plicSetPrority_eq _ small, enabled_eq, enabled_eq]
  dsimp only
  rw [Function.update_of_ne]
  intro same
  have both := congrArg BitVec.toNat same
  rw [enableReg_toNat few small', plicPriority_toNat small] at both
  rw [irqLimit] at small
  omega

/-- It sets the priority of its interrupt. -/
theorem priority_initIrq (p : Plic) {hwirq irq : Nat} (small : hwirq < irqLimit)
    (small' : irq < irqLimit) :
    (p.initIrq hwirq).priority irq = if irq = hwirq then 1 else p.priority irq := by
  have place := plicPriority_toNat small'
  have mine := plicPriority_toNat small
  have limit := small'
  rw [irqLimit] at limit
  rw [initIrq, plicSetPrority_eq _ small, priority, priority]
  dsimp only
  by_cases same : irq = hwirq
  · rw [same, Function.update_self, if_pos rfl]
    rfl
  · rw [if_neg same, Function.update_of_ne, regs_plicEnableIrq p small 0 (.inl (by omega))]
    intro equal
    have both := congrArg BitVec.toNat equal
    omega

/-- The registers behind the enable bits are left alone, and so are all requests. -/
theorem initIrq_rest (p : Plic) {hwirq : Nat} (small : hwirq < irqLimit) :
    (∀ addr : U32, 0xc200000 ≤ addr.toNat → (p.initIrq hwirq).regs addr = p.regs addr) ∧
      SameRequests (p.initIrq hwirq) p := by
  rw [initIrq, plicSetPrority_eq _ small]
  refine ⟨fun addr far => ?_, ?_⟩
  · dsimp only
    rw [Function.update_of_ne, regs_plicEnableIrq p small 0 (.inr far)]
    rintro rfl
    rw [plicPriority_toNat small] at far
    rw [irqLimit] at small
    omega
  · rw [plicEnableIrq_eq p small]
    exact ⟨rfl, rfl, rfl⟩

/-- The loop of `plic_init` does this for each interrupt from one on. -/
theorem initIrqs_spec (more hwirq : Nat) (small : hwirq + more ≤ irqLimit) (p : Plic) :
    (∀ context : U32, context.toNat < 15872 → ∀ irq < irqLimit,
      (initIrqs 0 more hwirq p).enabled context irq =
        if context = 1 ∧ hwirq ≤ irq ∧ irq < hwirq + more then false else p.enabled context irq) ∧
    (∀ irq < irqLimit, (initIrqs 0 more hwirq p).priority irq =
      if hwirq ≤ irq ∧ irq < hwirq + more then 1 else p.priority irq) ∧
    (∀ addr : U32, 0xc200000 ≤ addr.toNat → (initIrqs 0 more hwirq p).regs addr = p.regs addr) ∧
    SameRequests (initIrqs 0 more hwirq p) p := by
  induction more generalizing hwirq p with
  | zero =>
    refine ⟨fun context _ irq _ => ?_, fun irq _ => ?_, fun _ _ => rfl, ⟨rfl, rfl, rfl⟩⟩
    · rw [if_neg (by omega)]
      rfl
    · rw [if_neg (by omega)]
      rfl
  | succ more ih =>
    have here : hwirq < irqLimit := by omega
    obtain ⟨enables, priorities, far, requests⟩ := ih (hwirq + 1) (by omega) (p.initIrq hwirq)
    obtain ⟨far', requests'⟩ := p.initIrq_rest here
    refine ⟨fun context few irq small' => ?_, fun irq small' => ?_, fun addr behind => ?_,
      requests.trans requests'⟩
    · refine (enables context few irq small').trans ?_
      rw [enabled_initIrq p here small' few]
      -- The interrupt is of a later round, or of this one, or of none.
      by_cases later : context = 1 ∧ hwirq + 1 ≤ irq ∧ irq < hwirq + 1 + more
      · rw [if_pos later, if_pos ⟨later.1, by omega, by omega⟩]
      · rw [if_neg later]
        by_cases mine : context = 1 ∧ irq = hwirq
        · rw [if_pos mine, if_pos ⟨mine.1, by omega, by omega⟩]
        · rw [if_neg mine, if_neg]
          rintro ⟨here, low, high⟩
          have other : irq ≠ hwirq := fun same => mine ⟨here, same⟩
          exact later ⟨here, by omega, by omega⟩
    · refine (priorities irq small').trans ?_
      rw [priority_initIrq p here small']
      by_cases later : hwirq + 1 ≤ irq ∧ irq < hwirq + 1 + more
      · rw [if_pos later, if_pos (by omega)]
      · rw [if_neg later]
        by_cases mine : irq = hwirq
        · rw [if_pos mine, if_pos (by omega)]
        · rw [if_neg mine, if_neg (by omega)]
    · exact (far addr behind).trans (far' addr behind)

/-! ### Which interrupt is chosen -/

/-- What a context can claim. -/
theorem mem_claimable {p : Plic} {context : U32} {irq : Nat} (member : irq ∈ p.claimable context) :
    1 ≤ irq ∧ irq ≤ p.sources ∧ p.pending irq = true ∧ p.enabled context irq = true := by
  obtain ⟨range, all⟩ := List.mem_filter.mp member
  have bounds := List.mem_range'_1.mp range
  simp only [Bool.and_eq_true] at all
  exact ⟨bounds.1, by omega, all.1.1, all.1.2⟩

/-- Whatever the priorities are, one of the candidates is chosen if there are any. -/
theorem best_spec (p : Plic) (context : U32) :
    p.best context = 0 ∧ p.claimable context = [] ∨ p.best context ∈ p.claimable context := by
  have chosen (candidates : List Nat) (first : Nat) :
      candidates.foldl
        (fun best irq => if best = 0 ∨ p.priority best < p.priority irq then irq else best) first ∈
          first :: candidates := by
    induction candidates generalizing first with
    | nil => exact List.mem_cons_self
    | cons irq rest ih =>
      rw [List.foldl_cons]
      -- One of the two is dropped.
      rcases List.mem_cons.mp (ih _) with kept | later
      · rw [kept]
        split
        · exact List.mem_cons_of_mem _ List.mem_cons_self
        · exact List.mem_cons_self
      · exact List.mem_cons_of_mem _ (List.mem_cons_of_mem _ later)
  rw [best]
  cases p.claimable context with
  | nil => exact .inl ⟨rfl, rfl⟩
  | cons first rest =>
    right
    rw [List.foldl_cons, if_pos (.inl rfl)]
    exact chosen rest first

/-- Among candidates of one priority the first is chosen. -/
theorem best_of_equal (p : Plic) {candidates : List Nat} (real : ∀ irq ∈ candidates, irq ≠ 0)
    (equal : ∀ irq ∈ candidates, p.priority irq = 1) :
    candidates.foldl
      (fun best irq => if best = 0 ∨ p.priority best < p.priority irq then irq else best) 0 =
        candidates.head?.getD 0 := by
  -- Once there is a candidate no other one has more.
  have keeps (first : Nat) (rest : List Nat) (nonzero : first ≠ 0) (one : p.priority first = 1)
      (others : ∀ irq ∈ rest, p.priority irq = 1) : rest.foldl
        (fun best irq => if best = 0 ∨ p.priority best < p.priority irq then irq else best) first =
          first := by
    induction rest with
    | nil => rfl
    | cons irq rest ih =>
      have same := others irq List.mem_cons_self
      rw [List.foldl_cons, if_neg (by rw [one, same]; omega)]
      exact ih fun irq member => others irq (List.mem_cons_of_mem _ member)
  cases candidates with
  | nil => rfl
  | cons first rest =>
    rw [List.foldl_cons, if_pos (.inl rfl)]
    exact keeps first rest (real first List.mem_cons_self) (equal first List.mem_cons_self)
      fun irq member => equal irq (List.mem_cons_of_mem _ member)

/-- The interrupts up to a number that are requested and let through, in their order. -/
def requested (sources : Nat) (pending on : Nat → Bool) : List Nat :=
  (List.range' 1 sources).filter fun irq => pending irq && on irq

/-- The threshold of S mode is no claim register either. -/
theorem writel_threshold (p : Plic) (v : U32) :
    p.writel v (plicMthreshold (cpuToHartS 0)) =
      { p with regs := Function.update p.regs (plicMthreshold 1) v } :=
  writel_plain p v (by decide)

/--
After `plic_init` the interrupts that the driver knows are disabled in the context of S mode, at
priority 1. Any others are as they were.
-/
theorem plicInit_spec (p : Plic) :
    (∀ irq < irqLimit, p.plicInit.enabled 1 irq =
      if 1 ≤ irq ∧ irq ≤ maxPlicIrqs then false else p.enabled 1 irq) ∧
    (∀ irq, 1 ≤ irq → irq ≤ maxPlicIrqs → p.plicInit.priority irq = 1) ∧
    p.plicInit.regs (plicMthreshold 1) = 0 ∧
    (∀ context : U32, context ≠ 1 → context.toNat < 15872 → ∀ irq < irqLimit,
      p.plicInit.enabled context irq = p.enabled context irq) ∧
    SameRequests p.plicInit p := by
  obtain ⟨enables, priorities, far, requests⟩ :=
    initIrqs_spec maxPlicIrqs 1 (by decide) (p.writel 0 (plicMthreshold (cpuToHartS 0)))
  -- The threshold lies behind the enable registers of all contexts.
  have kept (context : U32) (few : context.toNat < 15872) (irq : Nat) (small : irq < irqLimit) :
      (p.writel 0 (plicMthreshold (cpuToHartS 0))).enabled context irq = p.enabled context irq := by
    rw [writel_threshold, enabled_eq, enabled_eq]
    dsimp only
    rw [Function.update_of_ne]
    intro same
    have both := congrArg BitVec.toNat same
    have threshold : (plicMthreshold 1).toNat = 0xc201000 := by decide
    rw [enableReg_toNat few small, threshold] at both
    rw [irqLimit] at small
    omega
  refine ⟨fun irq small => ?_, fun irq low high => ?_, ?_, fun context other few irq small => ?_,
    ?_⟩
  · refine (enables 1 (by decide) irq small).trans ?_
    rw [kept 1 (by decide) irq small]
    by_cases known : 1 ≤ irq ∧ irq ≤ maxPlicIrqs
    · rw [if_pos known, if_pos ⟨rfl, known.1, by omega⟩]
    · rw [if_neg known, if_neg]
      rintro ⟨-, low, high⟩
      exact known ⟨low, by omega⟩
  · exact (priorities irq (Nat.lt_of_le_of_lt high (by decide))).trans (if_pos ⟨low, by omega⟩)
  · refine (far (plicMthreshold 1) (by decide)).trans ?_
    rw [writel_threshold]
    exact Function.update_self (plicMthreshold 1) (0 : U32) p.regs
  · refine (enables context few irq small).trans ?_
    rw [if_neg fun both => other both.1, kept context few irq small]
  · rw [writel_threshold] at requests
    exact ⟨requests.sources, requests.pending, requests.inService⟩

/-- What a context can claim is given by its enable bits and the priorities. -/
theorem claimable_eq_requested (p : Plic) (context : U32) (on : Nat → Bool)
    (enables : ∀ irq, 1 ≤ irq → irq ≤ p.sources → p.enabled context irq = on irq)
    (priorities : ∀ irq, 1 ≤ irq → irq ≤ p.sources → p.priority irq = 1) :
    p.claimable context = requested p.sources p.pending on := by
  rw [claimable, requested]
  refine List.filter_congr fun irq member => ?_
  obtain ⟨low, high⟩ := List.mem_range'_1.mp member
  rw [enables irq low (by omega), priorities irq low (by omega)]
  simp

/--
With equal priorities and no threshold the first interrupt that is requested and enabled is claimed,
and the hart is notified exactly if there is one.
-/
theorem chooses_of_equal (p : Plic) {context : U32} {on : Nat → Bool}
    (enables : ∀ irq, 1 ≤ irq → irq ≤ p.sources → p.enabled context irq = on irq)
    (priorities : ∀ irq, 1 ≤ irq → irq ≤ p.sources → p.priority irq = 1)
    (threshold : p.regs (plicMthreshold context) = 0) :
    p.best context = (requested p.sources p.pending on).head?.getD 0 ∧
      (p.notifies context = true ↔ p.best context ≠ 0) := by
  have claimable := claimable_eq_requested p context on enables priorities
  have ranged : ∀ irq ∈ p.claimable context, 1 ≤ irq ∧ irq ≤ p.sources := fun irq member =>
    ⟨(mem_claimable member).1, (mem_claimable member).2.1⟩
  have best : p.best context = (p.claimable context).head?.getD 0 :=
    best_of_equal p (fun irq member => Nat.one_le_iff_ne_zero.mp (ranged irq member).1)
      fun irq member => priorities irq (ranged irq member).1 (ranged irq member).2
  refine ⟨best.trans (by rw [claimable]), ?_⟩
  rw [best, notifies, threshold]
  cases claims : p.claimable context with
  | nil => simp
  | cons first rest =>
    -- The first one that can be claimed has a priority above the threshold.
    obtain ⟨low, high⟩ := ranged first (by rw [claims]; exact List.mem_cons_self)
    refine iff_of_true ?_ (Nat.one_le_iff_ne_zero.mp low)
    rw [List.any_cons, priorities first low high]
    rfl

/--
After `plic_init` and any calls of `plic_enable_irq`, an interrupt that the driver knows is enabled
for S mode as its last call said, and another one as it was before if no call names it. If the driver
knows all that the controller has, the first one that is requested and enabled is claimed, and the
hart is notified exactly if there is one. The other contexts have the interrupts they had, and no
request is lost.
-/
theorem plicInit_chooses (p : Plic) (calls : List (Nat × U32))
    (known : ∀ call ∈ calls, call.1 < irqLimit) :
    (∀ irq, 1 ≤ irq → irq < irqLimit → (enableIrqs calls p.plicInit).enabled 1 irq =
      lastDecision irq (decide (maxPlicIrqs < irq) && p.enabled 1 irq) calls) ∧
    (p.sources ≤ maxPlicIrqs → ∀ pending inService : Nat → Bool,
      let q := { enableIrqs calls p.plicInit with pending, inService }
      q.best 1 =
          (requested p.sources pending fun irq => lastDecision irq false calls).head?.getD 0 ∧
        (q.notifies 1 = true ↔ q.best 1 ≠ 0)) ∧
    (∀ context : U32, context ≠ 1 → context.toNat < 15872 → ∀ irq < irqLimit,
      (enableIrqs calls p.plicInit).enabled context irq = p.enabled context irq) ∧
    SameRequests (enableIrqs calls p.plicInit) p := by
  obtain ⟨disabled, priorities, threshold, others, requests⟩ := p.plicInit_spec
  obtain ⟨mine, others', far, requests'⟩ := enableIrqs_spec calls known p.plicInit
  have decided : ∀ irq, 1 ≤ irq → irq < irqLimit → (enableIrqs calls p.plicInit).enabled 1 irq =
      lastDecision irq (decide (maxPlicIrqs < irq) && p.enabled 1 irq) calls := by
    intro irq low small
    rw [mine irq small, disabled irq small]
    by_cases high : irq ≤ maxPlicIrqs
    · rw [if_pos ⟨low, high⟩, decide_eq_false (Nat.not_lt.mpr high), Bool.false_and]
    · rw [if_neg fun both => high both.2, decide_eq_true (Nat.lt_of_not_le high), Bool.true_and]
  refine ⟨decided, fun covered pending inService => ?_, fun context other few irq small => ?_,
    requests'.trans requests⟩
  · intro q
    have sources : q.sources = p.sources := (requests'.trans requests).sources
    have inside {irq : Nat} (high : irq ≤ q.sources) : irq ≤ maxPlicIrqs ∧ irq < irqLimit := by
      have limit := maxPlicIrqs_limited
      omega
    -- All that the controller has is known to the driver, so no bit is left from before.
    have on : ∀ irq, 1 ≤ irq → irq ≤ q.sources →
        q.enabled 1 irq = lastDecision irq false calls := by
      intro irq low high
      refine (decided irq low (inside high).2).trans ?_
      rw [decide_eq_false (Nat.not_lt.mpr (inside high).1), Bool.false_and]
    have one : ∀ irq, 1 ≤ irq → irq ≤ q.sources → q.priority irq = 1 := by
      intro irq low high
      obtain ⟨covered, small⟩ := inside high
      rw [← priorities irq low covered]
      refine congrArg BitVec.toNat (far (plicPriority (BitVec.ofNat 32 irq)) (.inl ?_))
      rw [plicPriority_toNat small]
      rw [irqLimit] at small
      omega
    have passes : q.regs (plicMthreshold 1) = 0 :=
      (far _ (.inr (by decide))).trans threshold
    rw [← sources]
    exact chooses_of_equal q on one passes
  · exact (others' context other few irq small).trans (others context other few irq small)

/-- A board as the driver expects it, with all enable bits set when it starts. -/
def stalePlic : Plic :=
  ⟨maxPlicIrqs, maxPlicIrqs_limited, fun _ => 0xffffffff, fun _ => false, fun _ => false⟩

/--
The serial port is enabled, another interrupt is enabled and disabled again, and both are requested.
-/
theorem plicInit_chooses_uart :
    ({ enableIrqs [(9, 1), (10, 1), (9, 0)] stalePlic.plicInit with
      pending := fun irq => irq = 9 ∨ irq = 10 ∨ irq = 11 }).best 1 = 10 := by
  have chosen := (plicInit_chooses stalePlic [(9, 1), (10, 1), (9, 0)] (by decide)).2.1
    (Nat.le_refl _) (fun irq => irq = 9 ∨ irq = 10 ∨ irq = 11)
    (enableIrqs [(9, 1), (10, 1), (9, 0)] stalePlic.plicInit).inService
  exact chosen.1.trans (by decide)

end Plic

end Benos
