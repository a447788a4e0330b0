import Benos.Trap.CloneFork

/-! Which entry of `syscall_table` a system call reads, for every number a user can ask for. -/

namespace Benos

/-- `syscall_fn_t`. -/
abbrev SyscallFn : Type := U64 → Kernel → U64 × Kernel

namespace Kernel

/-- `sys_ni_syscall`. -/
def sysNiSyscall : SyscallFn := fun _ k => (-1, k)

/-- `invoke_syscall` over any table, next to the index at which it reads the table. -/
def invokeSyscallAt (table : Int → SyscallFn) (k : Kernel) (regs : U64)
    (syscallNo syscallNr : BitVec 32) : Option Int × Kernel :=
  let (index, ret, k) :=
    if syscallNo.slt syscallNr then
      let (ret, k) := table syscallNo.toInt regs k
      (some syscallNo.toInt, ret, k)
    else
      let (ret, k) := sysNiSyscall regs k
      (none, ret, k)
  (index, { k with mem := Function.update k.mem (regs + ptA0) ret })

/-- `riscv_svc_handler` over any table; its argument `regs->a7` becomes an `int`. -/
def riscvSvcHandlerAt (table : Int → SyscallFn) (k : Kernel) (regs : U64) : Option Int × Kernel :=
  let k' := { k with mem := Function.update k.mem (regs + ptOrigA0) (k.mem (regs + ptA0)) }
  k'.invokeSyscallAt table regs ((k.mem (regs + ptA7)).setWidth 32) nrSyscalls

/-- The entries of a table in which only that of clone is written out. -/
def syscallEntries (image : Image) (others : BitVec 32 → SyscallFn) (number : Int) : SyscallFn :=
  fun regs k => if number = 4 then k.sysClone image regs else others (BitVec.ofInt 32 number) regs k

/-- With those entries it is the handler of the kernel. -/
theorem riscvSvcHandlerAt_eq (image : Image) (others : BitVec 32 → SyscallFn) (k : Kernel)
    (regs : U64) : (k.riscvSvcHandlerAt (syscallEntries image others) regs).2 =
      k.riscvSvcHandler image others regs := by
  simp only [riscvSvcHandlerAt, riscvSvcHandler, invokeSyscallAt, invokeSyscall, syscallEntries,
    BitVec.ofInt_toInt]
  generalize (k.mem (regs + ptA7)).setWidth 32 = number
  -- The number of clone is the only one that is read as four.
  have clone : number.toInt = 4 ↔ number = nrClone.setWidth 32 := by
    rw [show (4 : Int) = (nrClone.setWidth 32 : BitVec 32).toInt from rfl]
    exact BitVec.toInt_inj
  by_cases known : number.slt nrSyscalls = true
  · simp only [known, if_true, clone]
  · simp only [known, sysNiSyscall]
    rfl

/-- What a handler does with the result of an entry. -/
def returned (regs : U64) (result : U64 × Kernel) : Kernel :=
  { result.2 with mem := Function.update result.2.mem (regs + ptA0) result.1 }

/-- The state in which an entry of the table is called: `a0` has been kept aside. -/
def aside (k : Kernel) (regs : U64) : Kernel :=
  { k with mem := Function.update k.mem (regs + ptOrigA0) (k.mem (regs + ptA0)) }

/-- Keeping `a0` aside changes one word of the frame, to the value `a0` has. -/
theorem aside_mem (k : Kernel) (regs : U64) :
    (k.aside regs).mem (regs + ptOrigA0) = k.mem (regs + ptA0) ∧
      ∀ addr, addr ≠ regs + ptOrigA0 → (k.aside regs).mem addr = k.mem addr :=
  ⟨Function.update_self _ _ _, fun _ other => Function.update_of_ne other _ _⟩

/-- The handler reads the table below the number of entries, as the `int` sees it, or not at all. -/
theorem riscvSvcHandlerAt_cases (table : Int → SyscallFn) (k : Kernel) (regs : U64) :
    (((k.mem (regs + ptA7)).setWidth 32 : BitVec 32).toInt < 6 ∧
      k.riscvSvcHandlerAt table regs =
        (some ((k.mem (regs + ptA7)).setWidth 32 : BitVec 32).toInt,
          returned regs (table ((k.mem (regs + ptA7)).setWidth 32 : BitVec 32).toInt regs
            (k.aside regs)))) ∨
    (6 ≤ ((k.mem (regs + ptA7)).setWidth 32 : BitVec 32).toInt ∧
      k.riscvSvcHandlerAt table regs = (none, returned regs (-1, k.aside regs))) := by
  simp only [riscvSvcHandlerAt, invokeSyscallAt]
  generalize (k.mem (regs + ptA7)).setWidth 32 = number
  have entries : nrSyscalls.toInt = 6 := rfl
  -- The comparison is signed on both sides.
  by_cases known : number.slt nrSyscalls = true
  · have below := BitVec.slt_iff_toInt_lt.mp known
    rw [entries] at below
    refine Or.inl ⟨below, ?_⟩
    simp only [known, if_true]
    rfl
  · have above := mt BitVec.slt_iff_toInt_lt.mpr known
    rw [entries] at above
    refine Or.inr ⟨by omega, ?_⟩
    simp only [known]
    rfl

end Kernel

/--
A system call goes where its number says: to the entry of that number if there is one, and to no
entry otherwise, with the result -1; and the table is read inside its bounds.
-/
structure Dispatched (table : Int → SyscallFn) (k : Kernel) (regs : U64) : Prop where
  served : (k.mem (regs + ptA7)).toNat < 6 → k.riscvSvcHandlerAt table regs =
    (some ↑(k.mem (regs + ptA7)).toNat,
      Kernel.returned regs (table ↑(k.mem (regs + ptA7)).toNat regs (k.aside regs)))
  refused : 6 ≤ (k.mem (regs + ptA7)).toNat →
    k.riscvSvcHandlerAt table regs = (none, Kernel.returned regs (-1, k.aside regs))
  inside : ∀ index, (k.riscvSvcHandlerAt table regs).1 = some index → 0 ≤ index ∧ index < 6

/-- Small numbers survive the way to an `int`. -/
theorem toInt_setWidth_small {number : U64} (small : number.toNat < 6) :
    (number.setWidth 32 : BitVec 32).toInt = number.toNat := by
  -- They are below the sign bit.
  have value : (number.setWidth 32 : BitVec 32).toNat = number.toNat := by
    rw [BitVec.toNat_setWidth]
    omega
  rw [BitVec.toInt_eq_toNat_of_lt (by omega), value]

/--
For every table, state and frame: a system call is dispatched by its 64-bit number just when that
number is below six or its lower half, read as an `int`, is not. In any case the dispatcher writes
two words of the frame: `orig_a0`, which becomes the `a0` of the entry, before an entry is called,
and `a0`, which becomes its result, afterwards.
-/
theorem dispatched_iff (table : Int → SyscallFn) (k : Kernel) (regs : U64) :
    (Dispatched table k regs ↔ (k.mem (regs + ptA7)).toNat < 6 ∨
      6 ≤ ((k.mem (regs + ptA7)).setWidth 32 : BitVec 32).toInt) ∧
    ((∃ index, k.riscvSvcHandlerAt table regs =
        (some index, Kernel.returned regs (table index regs (k.aside regs)))) ∨
      k.riscvSvcHandlerAt table regs = (none, Kernel.returned regs (-1, k.aside regs))) ∧
    (k.aside regs).mem (regs + ptOrigA0) = k.mem (regs + ptA0) ∧
    ∀ addr, addr ≠ regs + ptOrigA0 → (k.aside regs).mem addr = k.mem addr := by
  obtain ⟨kept, others⟩ := k.aside_mem regs
  -- The number is read once as an unsigned and once as a signed one.
  refine ⟨?_, ?_, kept, others⟩
  · rcases k.riscvSvcHandlerAt_cases table regs with ⟨below, handled⟩ | ⟨above, handled⟩
    · constructor
      · intro dispatched
        -- Where the number is too large the entry read is not the one asked for.
        by_contra outside
        rw [not_or, not_lt] at outside
        have refused := dispatched.refused outside.1
        rw [handled] at refused
        cases congrArg Prod.fst refused
      · -- A number below six is the same either way, and names its entry.
        intro condition
        have small : (k.mem (regs + ptA7)).toNat < 6 := by
          rcases condition with small | above
          · exact small
          · omega
        have value := toInt_setWidth_small small
        rw [value] at handled
        refine ⟨fun _ => handled, fun large => by omega, fun index read => ?_⟩
        rw [handled] at read
        cases read
        omega
    · -- At six and above the handler is refused, as it should be.
      refine iff_of_true ⟨fun small => ?_, fun _ => handled, fun index read => ?_⟩ (Or.inr above)
      · rw [toInt_setWidth_small small] at above
        omega
      · rw [handled] at read
        cases read
  · rcases k.riscvSvcHandlerAt_cases table regs with ⟨_, handled⟩ | ⟨_, handled⟩
    · exact Or.inl ⟨_, handled⟩
    · exact Or.inr handled

/-- The number minus one reads the word in front of the table. -/
theorem dispatch_in_front :
    ¬ ∀ (table : Int → SyscallFn) (k : Kernel) (regs : U64), Dispatched table k regs := by
  intro always
  let asked : Kernel := { exampleKernel with mem := fun _ => -1 }
  let table : Int → SyscallFn := fun _ _ k => (0, k)
  have minus : (BitVec.setWidth 32 (-1 : U64)).toInt = -1 := by decide
  -- As an `int` the number is less than six, so that the table is read.
  rcases asked.riscvSvcHandlerAt_cases table 0x80300ed8 with ⟨_, read⟩ | ⟨above, _⟩
  · have front := (always table asked 0x80300ed8).inside (-1) (by rw [read, ← minus])
    exact absurd front.1 (by decide)
  · exact absurd above (by decide)

end Benos
