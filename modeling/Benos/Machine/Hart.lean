import Benos.Lib.Transition
import Benos.Lib.Word
import Benos.Machine.Memory
import Mathlib.Tactic.Common

/-!
A RISC-V hart with the hypervisor extension, as far as the assembly of the kernel drives it.

The program counter is tracked across calls, returns and traps only.
-/

namespace Benos

/-- The integer registers, `zero` being the constant one. -/
inductive Reg where
  | zero | ra | sp | gp | tp | t0 | t1 | t2 | s0 | s1 | a0 | a1 | a2 | a3 | a4 | a5 | a6 | a7
  | s2 | s3 | s4 | s5 | s6 | s7 | s8 | s9 | s10 | s11 | t3 | t4 | t5 | t6
  deriving DecidableEq

/-- The control registers that are read or written. -/
inductive Csr where
  | sstatus | sepc | scause | stval | sscratch | hstatus
  deriving DecidableEq

/-- The state of the hart and the memory it works on. -/
structure Hart where
  x : Reg → U64
  csr : Csr → U64
  pc : U64
  mem : Memory
  /-- Whether the privilege mode is S (or VS) rather than U (or VU). -/
  supervisor : Bool
  /-- Whether the virtualization mode is on. -/
  virt : Bool

/-- One straight-line instruction; `la` is written as `li`. -/
inductive Instr where
  | li (rd : Reg) (imm : U64)
  | mv (rd rs : Reg)
  | addi (rd rs : Reg) (imm : U64)
  | andi (rd rs : Reg) (imm : U64)
  | add (rd rs1 rs2 : Reg)
  | sd (rs : Reg) (offset : U64) (base : Reg)
  | ld (rd : Reg) (offset : U64) (base : Reg)
  | lw (rd : Reg) (offset : U64) (base : Reg)
  | csrr (rd : Reg) (csr : Csr)
  | csrw (csr : Csr) (rs : Reg)
  | csrc (csr : Csr) (imm : U64)
  | csrrw (rd : Reg) (csr : Csr) (rs : Reg)

/-- An address of an eight-byte word. -/
def Aligned (addr : U64) : Prop := addr.toNat % 8 = 0

instance (addr : U64) : Decidable (Aligned addr) := inferInstanceAs (Decidable (_ = _))

/-- The four bytes at an address, sign extended. -/
def Memory.word (mem : Memory) (addr : U64) : U64 :=
  let both := mem (addr &&& ~~~7)
  (both.extractLsb' (if addr.getLsbD 2 then 32 else 0) 32).signExtend 64

namespace Hart

/-- Reading a register. -/
def get (h : Hart) (r : Reg) : U64 := if r = .zero then 0 else h.x r

/-- Writing a register. -/
def set (h : Hart) (r : Reg) (value : U64) : Hart :=
  if r = .zero then h else { h with x := Function.update h.x r value }

/-- Writing a control register. -/
def setCsr (h : Hart) (c : Csr) (value : U64) : Hart :=
  { h with csr := Function.update h.csr c value }

/-- One instruction; a misaligned access is not followed any further. -/
def exec : Instr → Hart → Option Hart
  | .li rd imm, h => some (h.set rd imm)
  | .mv rd rs, h => some (h.set rd (h.get rs))
  | .addi rd rs imm, h => some (h.set rd (h.get rs + imm))
  | .andi rd rs imm, h => some (h.set rd (h.get rs &&& imm))
  | .add rd rs1 rs2, h => some (h.set rd (h.get rs1 + h.get rs2))
  | .sd rs offset base, h =>
    let addr := h.get base + offset
    if Aligned addr then some { h with mem := Function.update h.mem addr (h.get rs) } else none
  | .ld rd offset base, h =>
    let addr := h.get base + offset
    if Aligned addr then some (h.set rd (h.mem addr)) else none
  | .lw rd offset base, h =>
    let addr := h.get base + offset
    if addr.toNat % 4 = 0 then some (h.set rd (h.mem.word addr)) else none
  | .csrr rd c, h => some (h.set rd (h.csr c))
  | .csrw c rs, h => some (h.setCsr c (h.get rs))
  | .csrc c imm, h => some (h.setCsr c (h.csr c &&& ~~~imm))
  | .csrrw rd c rs, h => some ((h.setCsr c (h.get rs)).set rd (h.csr c))

/-- The instructions of a block in order. -/
def execs : List Instr → Hart → Option Hart := Transition.run exec

/-! ### Traps -/

/-- The mask of one bit. -/
def bit (i : Nat) : U64 := BitVec.twoPow 64 i

/-- A word with one bit replaced. -/
def putBit (w : U64) (i : Nat) (value : Bool) : U64 :=
  if value then w ||| bit i else w &&& ~~~bit i

/-- The positions of the bits of `sstatus` and `hstatus` a trap moves. -/
def sieBit : Nat := 1
def spieBit : Nat := 5
def sppBit : Nat := 8
def spvBit : Nat := 7
def spvpBit : Nat := 8

/-- What the hart does when a trap is taken into HS mode. -/
def trap (h : Hart) (cause tval stvec : U64) : Hart :=
  let status := h.csr .sstatus
  let status := putBit status sppBit h.supervisor
  let status := putBit status spieBit ((h.csr .sstatus).getLsbD sieBit)
  let status := putBit status sieBit false
  let hyper := putBit (h.csr .hstatus) spvBit h.virt
  let hyper := if h.virt then putBit hyper spvpBit h.supervisor else hyper
  let h := ((h.setCsr .sstatus status).setCsr .hstatus hyper).setCsr .sepc h.pc
  let h := (h.setCsr .scause cause).setCsr .stval tval
  { h with supervisor := true, virt := false, pc := stvec }

/-- `sret` in HS mode. -/
def sret (h : Hart) : Hart :=
  let status := h.csr .sstatus
  let spie := status.getLsbD spieBit
  let spp := status.getLsbD sppBit
  let spv := (h.csr .hstatus).getLsbD spvBit
  let status := putBit status sieBit spie
  let status := putBit status spieBit true
  let status := putBit status sppBit false
  let h := (h.setCsr .sstatus status).setCsr .hstatus (putBit (h.csr .hstatus) spvBit false)
  { h with supervisor := spp, virt := spv, pc := h.csr .sepc }

/-! ### Laws of single instructions -/

@[simp] theorem get_set_self (h : Hart) {r : Reg} (value : U64) (other : r ≠ .zero) :
    (h.set r value).get r = value := by
  simp [get, set, other]

@[simp] theorem get_set_of_ne (h : Hart) {r q : Reg} (value : U64) (other : q ≠ r) :
    (h.set r value).get q = h.get q := by
  -- The constant register is read and written apart.
  unfold get set
  split
  · rfl
  · split
    · rfl
    · exact Function.update_of_ne other _ _

@[simp] theorem mem_set (h : Hart) (r : Reg) (value : U64) : (h.set r value).mem = h.mem := by
  unfold set
  split <;> rfl

@[simp] theorem csr_set (h : Hart) (r : Reg) (value : U64) : (h.set r value).csr = h.csr := by
  unfold set
  split <;> rfl

@[simp] theorem pc_set (h : Hart) (r : Reg) (value : U64) : (h.set r value).pc = h.pc := by
  unfold set
  split <;> rfl

@[simp] theorem supervisor_set (h : Hart) (r : Reg) (value : U64) :
    (h.set r value).supervisor = h.supervisor := by
  unfold set
  split <;> rfl

@[simp] theorem virt_set (h : Hart) (r : Reg) (value : U64) : (h.set r value).virt = h.virt := by
  unfold set
  split <;> rfl

@[simp] theorem get_zero (h : Hart) : h.get .zero = 0 := if_pos rfl

@[simp] theorem get_setCsr (h : Hart) (c : Csr) (value : U64) (r : Reg) :
    (h.setCsr c value).get r = h.get r := rfl

@[simp] theorem mem_setCsr (h : Hart) (c : Csr) (value : U64) : (h.setCsr c value).mem = h.mem :=
  rfl

@[simp] theorem supervisor_setCsr (h : Hart) (c : Csr) (value : U64) :
    (h.setCsr c value).supervisor = h.supervisor := rfl

@[simp] theorem virt_setCsr (h : Hart) (c : Csr) (value : U64) :
    (h.setCsr c value).virt = h.virt := rfl

@[simp] theorem csr_setCsr_self (h : Hart) (c : Csr) (value : U64) :
    (h.setCsr c value).csr c = value := by
  show Function.update h.csr c value c = value
  exact Function.update_self _ _ _

@[simp] theorem csr_setCsr_of_ne (h : Hart) {c d : Csr} (value : U64) (other : d ≠ c) :
    (h.setCsr c value).csr d = h.csr d := by
  show Function.update h.csr c value d = h.csr d
  exact Function.update_of_ne other _ _

@[simp] theorem execs_nil (h : Hart) : execs [] h = some h := rfl

@[simp] theorem execs_cons (instr : Instr) (rest : List Instr) (h : Hart) :
    execs (instr :: rest) h = (exec instr h).bind (execs rest) := rfl

/-- Two parts of a block that run to their ends run one after the other. -/
theorem chain {first : Option Hart} {second : Hart → Option Hart} {middle final : Hart}
    (ran : first = some middle) (rest : second middle = some final) :
    first >>= second = some final := by
  rw [ran]
  exact rest

/-- A store to an aligned address. -/
theorem exec_sd {h : Hart} {rs base : Reg} {offset : U64} (aligned : Aligned (h.get base + offset)) :
    exec (.sd rs offset base) h =
      some { h with mem := Function.update h.mem (h.get base + offset) (h.get rs) } :=
  if_pos aligned

/-- A load from an aligned address. -/
theorem exec_ld {h : Hart} {rd base : Reg} {offset : U64} (aligned : Aligned (h.get base + offset)) :
    exec (.ld rd offset base) h = some (h.set rd (h.mem (h.get base + offset))) :=
  if_pos aligned

/-- A block in two parts runs one part after the other. -/
theorem execs_append (first second : List Instr) (h : Hart) :
    execs (first ++ second) h = (execs first h).bind (execs second) :=
  Transition.run_append exec first second h

end Hart

/-! ### Blocks of loads and stores -/

/-- An aligned base with an aligned offset is an aligned address. -/
theorem Aligned.add {base offset : U64} (first : Aligned base) (second : Aligned offset) :
    Aligned (base + offset) := by
  unfold Aligned at *
  rw [BitVec.toNat_add]
  omega

/-- `sd` of each register at its offset. -/
def stores (base : Reg) (slots : List (Reg × U64)) : List Instr :=
  slots.map fun (r, offset) => .sd r offset base

/-- `ld` of each register from its offset. -/
def loads (base : Reg) (slots : List (Reg × U64)) : List Instr :=
  slots.map fun (r, offset) => .ld r offset base

/-- `csrr` of each control register and `sd` of what was read, at its offset. -/
def csrStores (base : Reg) (slots : List (Reg × Csr × U64)) : List Instr :=
  slots.flatMap fun (r, c, offset) => [.csrr r c, .sd r offset base]

/-- What a block of stores leaves alone. -/
structure SameButMemory (before after : Hart) : Prop where
  get : ∀ r, after.get r = before.get r
  csr : after.csr = before.csr
  pc : after.pc = before.pc
  supervisor : after.supervisor = before.supervisor
  virt : after.virt = before.virt

/-- What a block of loads leaves alone. -/
structure SameButRegs (before after : Hart) : Prop where
  mem : after.mem = before.mem
  csr : after.csr = before.csr
  pc : after.pc = before.pc
  supervisor : after.supervisor = before.supervisor
  virt : after.virt = before.virt

namespace Hart

/-- A block of stores at different offsets writes each register to its slot and nothing else. -/
theorem execs_stores (base : Reg) (slots : List (Reg × U64)) (h : Hart)
    (based : Aligned (h.get base)) (aligned : ∀ slot ∈ slots, Aligned slot.2)
    (different : (slots.map Prod.snd).Nodup) :
    ∃ h', execs (stores base slots) h = some h' ∧ SameButMemory h h' ∧
      (∀ slot ∈ slots, h'.mem (h.get base + slot.2) = h.get slot.1) ∧
      ∀ addr, (∀ slot ∈ slots, addr ≠ h.get base + slot.2) → h'.mem addr = h.mem addr := by
  -- The stores change no register, so every step sees the registers of the first.
  induction slots generalizing h with
  | nil => exact ⟨h, rfl, ⟨fun _ => rfl, rfl, rfl, rfl, rfl⟩, by simp, fun _ _ => rfl⟩
  | cons slot rest ih =>
    obtain ⟨r, offset⟩ := slot
    obtain ⟨fresh, different⟩ := List.nodup_cons.mp different
    have here : Aligned (h.get base + offset) := based.add (aligned _ List.mem_cons_self)
    obtain ⟨h', ran, same, written, kept⟩ :=
      ih { h with mem := Function.update h.mem (h.get base + offset) (h.get r) } based
        (fun slot member => aligned slot (List.mem_cons_of_mem _ member)) different
    -- No two slots are at one address.
    have apart : ∀ slot ∈ rest, h.get base + offset ≠ h.get base + slot.2 := by
      intro slot member equal
      have offsets : offset = slot.2 := by simpa using equal
      exact fresh (List.mem_map.mpr ⟨slot, member, offsets.symm⟩)
    refine ⟨h', ?_, ⟨same.get, same.csr, same.pc, same.supervisor, same.virt⟩, ?_, ?_⟩
    · show (exec (.sd r offset base) h).bind (execs (stores base rest)) = _
      simp only [exec, if_pos here, Option.bind_some]
      exact ran
    · intro slot member
      rcases List.mem_cons.mp member with rfl | later
      · -- The later stores go elsewhere.
        rw [kept _ apart]
        exact Function.update_self _ _ _
      · exact written slot later
    · intro addr outside
      rw [kept addr fun slot member => outside slot (List.mem_cons_of_mem _ member)]
      exact Function.update_of_ne (outside _ List.mem_cons_self) _ _

/-- A block of loads into different registers fills each from its slot and changes no other. -/
theorem execs_loads (base : Reg) (slots : List (Reg × U64)) (h : Hart)
    (based : Aligned (h.get base)) (aligned : ∀ slot ∈ slots, Aligned slot.2)
    (different : (slots.map Prod.fst).Nodup) (safe : ∀ slot ∈ slots, slot.1 ≠ base)
    (real : ∀ slot ∈ slots, slot.1 ≠ .zero) :
    ∃ h', execs (loads base slots) h = some h' ∧ SameButRegs h h' ∧
      (∀ slot ∈ slots, h'.get slot.1 = h.mem (h.get base + slot.2)) ∧
      ∀ r, (∀ slot ∈ slots, r ≠ slot.1) → h'.get r = h.get r := by
  -- The base is never loaded, so every step reads at the addresses of the first.
  induction slots generalizing h with
  | nil => exact ⟨h, rfl, ⟨rfl, rfl, rfl, rfl, rfl⟩, by simp, fun _ _ => rfl⟩
  | cons slot rest ih =>
    obtain ⟨r, offset⟩ := slot
    obtain ⟨fresh, different⟩ := List.nodup_cons.mp different
    have here : Aligned (h.get base + offset) := based.add (aligned _ List.mem_cons_self)
    have nonzero : r ≠ .zero := real _ List.mem_cons_self
    -- The address of the next load does not depend on what was just loaded.
    have other : base ≠ r := (safe _ List.mem_cons_self).symm
    have sameBase := get_set_of_ne h (h.mem (h.get base + offset)) other
    obtain ⟨h', ran, same, filled, kept⟩ :=
      ih (h.set r (h.mem (h.get base + offset))) (sameBase.symm ▸ based)
        (fun slot member => aligned slot (List.mem_cons_of_mem _ member)) different
        (fun slot member => safe slot (List.mem_cons_of_mem _ member))
        (fun slot member => real slot (List.mem_cons_of_mem _ member))
    rw [sameBase, mem_set] at filled
    refine ⟨h', ?_, ⟨?_, ?_, ?_, ?_, ?_⟩, ?_, ?_⟩
    · show (exec (.ld r offset base) h).bind (execs (loads base rest)) = _
      simp only [exec, if_pos here, Option.bind_some]
      exact ran
    · exact same.mem.trans (mem_set _ _ _)
    · exact same.csr.trans (csr_set _ _ _)
    · exact same.pc.trans (pc_set _ _ _)
    · exact same.supervisor.trans (supervisor_set _ _ _)
    · exact same.virt.trans (virt_set _ _ _)
    · intro slot member
      rcases List.mem_cons.mp member with rfl | later
      · -- The later loads fill other registers.
        have last : ∀ slot ∈ rest, r ≠ slot.1 := fun slot member equal =>
          fresh (List.mem_map.mpr ⟨slot, member, equal.symm⟩)
        rw [kept r last]
        exact get_set_self _ _ nonzero
      · exact filled slot later
    · intro q outside
      rw [kept q fun slot member => outside slot (List.mem_cons_of_mem _ member)]
      exact get_set_of_ne _ _ (outside _ List.mem_cons_self)

/-- A block that stores control registers fills their slots, by way of the registers it names. -/
theorem execs_csrStores (base : Reg) (slots : List (Reg × Csr × U64)) (h : Hart)
    (based : Aligned (h.get base)) (aligned : ∀ slot ∈ slots, Aligned slot.2.2)
    (different : (slots.map fun slot => slot.2.2).Nodup)
    (once : (slots.map fun slot => slot.1).Nodup) (safe : ∀ slot ∈ slots, slot.1 ≠ base)
    (real : ∀ slot ∈ slots, slot.1 ≠ .zero) :
    ∃ h', execs (csrStores base slots) h = some h' ∧
      (h'.csr = h.csr ∧ h'.pc = h.pc ∧ h'.supervisor = h.supervisor ∧ h'.virt = h.virt) ∧
      (∀ slot ∈ slots, h'.mem (h.get base + slot.2.2) = h.csr slot.2.1 ∧
        h'.get slot.1 = h.csr slot.2.1) ∧
      (∀ addr, (∀ slot ∈ slots, addr ≠ h.get base + slot.2.2) → h'.mem addr = h.mem addr) ∧
      ∀ r, (∀ slot ∈ slots, r ≠ slot.1) → h'.get r = h.get r := by
  -- Neither the base nor a control register changes, so every step starts like the first.
  induction slots generalizing h with
  | nil => exact ⟨h, rfl, ⟨rfl, rfl, rfl, rfl⟩, by simp, fun _ _ => rfl, fun _ _ => rfl⟩
  | cons slot rest ih =>
    obtain ⟨r, c, offset⟩ := slot
    obtain ⟨fresh, different⟩ := List.nodup_cons.mp different
    obtain ⟨unused, once⟩ := List.nodup_cons.mp once
    have here : Aligned (h.get base + offset) := based.add (aligned _ List.mem_cons_self)
    have nonzero : r ≠ .zero := real _ List.mem_cons_self
    have other : base ≠ r := (safe _ List.mem_cons_self).symm
    -- The first pair: a control register is read, and stored from there.
    let read := h.set r (h.csr c)
    have sameBase : read.get base = h.get base := get_set_of_ne h _ other
    have value : read.get r = h.csr c := get_set_self h _ nonzero
    have readMem : read.mem = h.mem := mem_set _ _ _
    have readCsr : read.csr = h.csr := csr_set _ _ _
    let stored : Hart :=
      { read with mem := Function.update h.mem (h.get base + offset) (h.csr c) }
    have storedBase : stored.get base = h.get base := sameBase
    have storedCsr : stored.csr = h.csr := readCsr
    have store : exec (.sd r offset base) read = some stored := by
      rw [exec_sd (sameBase.symm ▸ here), sameBase, value, readMem]
    obtain ⟨h', ran, ⟨csr, pc, supervisor, virt⟩, filled, kept, others⟩ :=
      ih stored (storedBase.symm ▸ based)
        (fun slot member => aligned slot (List.mem_cons_of_mem _ member)) different once
        (fun slot member => safe slot (List.mem_cons_of_mem _ member))
        (fun slot member => real slot (List.mem_cons_of_mem _ member))
    rw [storedBase, storedCsr] at filled
    rw [storedBase] at kept
    -- What the pair has written is kept by the others.
    have apart : ∀ slot ∈ rest, h.get base + offset ≠ h.get base + slot.2.2 := by
      intro slot member equal
      have offsets : offset = slot.2.2 := by simpa using equal
      exact fresh (List.mem_map.mpr ⟨slot, member, offsets.symm⟩)
    have last : ∀ slot ∈ rest, r ≠ slot.1 := fun slot member equal =>
      unused (List.mem_map.mpr ⟨slot, member, equal.symm⟩)
    refine ⟨h', ?_, ⟨csr.trans readCsr, ?_, ?_, ?_⟩, ?_, ?_, ?_⟩
    · show (exec (.csrr r c) h).bind (execs (.sd r offset base :: csrStores base rest)) = _
      rw [exec, Option.bind_some, execs_cons, store, Option.bind_some]
      exact ran
    · exact pc.trans (pc_set _ _ _)
    · exact supervisor.trans (supervisor_set _ _ _)
    · exact virt.trans (virt_set _ _ _)
    · intro slot member
      rcases List.mem_cons.mp member with rfl | later
      · -- The later stores go elsewhere, and the later reads go to other registers.
        constructor
        · rw [kept _ apart]
          exact Function.update_self _ _ _
        · rw [others r last]
          exact value
      · exact filled slot later
    · intro addr outside
      rw [kept addr fun slot member => outside slot (List.mem_cons_of_mem _ member)]
      exact Function.update_of_ne (outside _ List.mem_cons_self) _ _
    · intro q outside
      rw [others q fun slot member => outside slot (List.mem_cons_of_mem _ member)]
      exact get_set_of_ne h _ (outside _ List.mem_cons_self)

end Hart

end Benos
