import Mathlib.Tactic.IntervalCases
import Benos.Lib.Word
import Benos.Sbi.Pmp

/-! What the hart reads back from the entry that `sbi_set_pmp` writes. -/

namespace Benos

/-! ### Rounding a size up -/

/-- A power of two that fits a word, as a word. -/
theorem one_shiftLeft_toNat {ret : Nat} (small : ret < 64) :
    ((1 : U64) <<< ret).toNat = 2 ^ ret := by
  have one : (1 : U64).toNat = 1 := rfl
  rw [BitVec.toNat_shiftLeft, one, Nat.shiftLeft_eq, Nat.one_mul,
    Nat.mod_eq_of_lt (Nat.pow_lt_pow_right (by decide) small)]

/-- The loop goes on to the first power of two that is large enough, or to all the bits there are. -/
theorem log2roundupFrom_spec (x : U64) (ret : Nat) (small : ret ≤ 64)
    (before : ∀ m < ret, 2 ^ m < x.toNat) :
    log2roundupFrom x ret ≤ 64 ∧ x.toNat ≤ 2 ^ log2roundupFrom x ret ∧
      ∀ m < log2roundupFrom x ret, 2 ^ m < x.toNat := by
  -- No power below the one that is tried next was large enough.
  induction ret using log2roundupFrom.induct x with
  | case1 ret inside enough =>
    rw [log2roundupFrom, if_pos inside, if_pos enough]
    rw [BitVec.le_def, one_shiftLeft_toNat inside] at enough
    exact ⟨small, enough, before⟩
  | case2 ret inside short ih =>
    rw [log2roundupFrom, if_pos inside, if_neg short]
    rw [BitVec.le_def, one_shiftLeft_toNat inside, not_le] at short
    refine ih inside fun m below => ?_
    rcases Nat.lt_succ_iff_lt_or_eq.mp below with less | rfl
    · exact before m less
    · exact short
  | case3 ret outside =>
    rw [log2roundupFrom, if_neg outside]
    obtain rfl : ret = 64 := by omega
    exact ⟨Nat.le_refl _, Nat.le_of_lt x.isLt, before⟩

/-- The result is the order of the least power of two that is large enough. -/
theorem log2roundup_spec (x : U64) :
    log2roundup x ≤ 64 ∧ x.toNat ≤ 2 ^ log2roundup x ∧
      ∀ m, x.toNat ≤ 2 ^ m → log2roundup x ≤ m := by
  obtain ⟨bounded, enough, least⟩ :=
    log2roundupFrom_spec x 0 (Nat.zero_le _) fun m below => absurd below (Nat.not_lt_zero m)
  refine ⟨bounded, enough, fun m large => ?_⟩
  -- A smaller exponent was tried by the loop and found too small.
  by_contra less
  exact absurd (least m (not_le.mp less)) (not_lt.mpr large)

/-! ### The address register -/

/-- Above the least order the address is the code of the region. -/
theorem pmpaddrOf_toNat {start : U64} {order : Nat} (large : 2 < order) (small : order < 64) :
    (pmpaddrOf start order).toNat = Napot.encode (order - 3) (start.toNat / 2 ^ order) := by
  obtain ⟨ones, rfl⟩ : ∃ ones, order = ones + 3 := ⟨order - 3, by omega⟩
  have mask : ((1 : U64) <<< (ones + 1)) - 1 = BitVec.ofNat 64 (2 ^ (ones + 1) - 1) := by
    have power := Nat.pow_lt_pow_right (show 1 < 2 by decide) (show ones + 1 < 64 by omega)
    have positive := Nat.two_pow_pos (ones + 1)
    apply BitVec.eq_of_toNat_eq
    have one : (1 : U64).toNat = 1 := rfl
    rw [BitVec.toNat_sub, one_shiftLeft_toNat (by omega), BitVec.toNat_ofNat, one]
    omega
  have half : (BitVec.ofNat 64 (2 ^ (ones + 1) - 1) >>> 1).toNat = 2 ^ ones - 1 := by
    have power := Nat.pow_lt_pow_right (show 1 < 2 by decide) (show ones + 1 < 64 by omega)
    have grown : 2 ^ (ones + 1) = 2 * 2 ^ ones := by ring
    rw [Word.ushiftRight_toNat, BitVec.toNat_ofNat]
    omega
  have ordered : pmpShift < ones + 3 := large
  have less : ones + 3 ≠ 64 := by omega
  have steps : ones + 3 - pmpShift = ones + 1 := rfl
  simp only [pmpaddrOf, ordered, less, steps, mask, if_true, if_false]
  -- A region that is aligned has zeros where the code has its ones.
  have base : start.toNat / 2 ^ pmpShift / 2 ^ (ones + 1) * 2 ^ (ones + 1) =
      2 ^ (ones + 1) * (start.toNat / 2 ^ (ones + 3)) := by
    rw [Nat.div_div_eq_div_mul, ← Nat.pow_add, Nat.mul_comm,
      show pmpShift + (ones + 1) = ones + 3 by rw [pmpShift]; omega]
  have ones_small : 2 ^ ones - 1 < 2 ^ (ones + 1) := by
    have positive := Nat.two_pow_pos ones
    have grown : 2 ^ (ones + 1) = 2 * 2 ^ ones := by ring
    omega
  rw [BitVec.toNat_or, Word.and_not_low_toNat _ _ (by omega), Word.ushiftRight_toNat, half, base,
    ← Nat.two_pow_add_eq_or_of_lt ones_small, Napot.encode, Nat.mul_comm]
  rfl

/-! ### The configuration register -/

/-- The mask of a byte has ones in that byte and nowhere else. -/
theorem byteMask_getLsbD (i : Nat) {j b : Nat} (other : j < 8) (low : b < 8) :
    ((0xff : U64) <<< (8 * i)).getLsbD (8 * j + b) = decide (j = i) := by
  have ones : (0xff : U64) = BitVec.ofNat 64 (2 ^ 8 - 1) := rfl
  rw [BitVec.getLsbD_shiftLeft, ones, BitVec.getLsbD_ofNat, Nat.testBit_two_pow_sub_one,
    ← Bool.decide_and, ← decide_not, ← Bool.decide_and, ← Bool.decide_and]
  -- The bit is set when its place, counted from the byte, is below eight.
  exact decide_eq_decide.mpr (by omega)

/-- The configuration byte that is asked for. -/
def pmpProt (prot : U64) (order : Nat) : U64 :=
  (prot &&& ~~~pmpA) ||| (if order = pmpShift then pmpANa4 else pmpANapot)

/-- The register gets the new byte at the place of the entry and keeps the others. -/
theorem pmpcfgOf_byte (held prot : U64) (order : Nat) {shift : BitVec 32} {i j : Nat}
    (place : shift.toNat = 8 * i) (inside : i < 8) (other : j < 8) :
    (pmpcfgOf held prot order shift >>> (8 * j)).setWidth 8 =
      if j = i then (pmpProt prot order).setWidth 8 else (held >>> (8 * j)).setWidth 8 := by
  have shifted (x : U64) : x <<< shift = x <<< (8 * i) := by
    rw [BitVec.shiftLeft_eq', place]
  rw [pmpcfgOf, shifted, shifted, BitVec.not_not, ← pmpProt]
  apply BitVec.eq_of_getLsbD_eq
  -- The two words are compared bit by bit, where the mask is a comparison of bytes.
  intro b low
  have bit : 8 * j + b < 64 := by omega
  have mask := byteMask_getLsbD i other low
  by_cases same : j = i
  · subst same
    rw [if_pos rfl]
    simp only [BitVec.getLsbD_setWidth, BitVec.getLsbD_ushiftRight, BitVec.getLsbD_or,
      BitVec.getLsbD_and, BitVec.getLsbD_not, mask, low, bit, decide_true, Bool.true_and,
      Bool.and_true, Bool.not_true, Bool.and_false, Bool.false_or]
    rw [BitVec.getLsbD_shiftLeft, Nat.add_sub_cancel_left]
    simp [bit]
  · rw [if_neg same]
    simp only [BitVec.getLsbD_setWidth, BitVec.getLsbD_ushiftRight, BitVec.getLsbD_or,
      BitVec.getLsbD_and, BitVec.getLsbD_not, mask, same, low, bit, decide_true, decide_false,
      Bool.true_and, Bool.and_true, Bool.not_false, Bool.and_false, Bool.or_false]

/-! ### Writing registers while nothing is locked -/

namespace PmpCsrs

variable {csrs : PmpCsrs}

/-- Without a lock no byte is protected. -/
theorem lockedBytes_none {register : U64} (none : ∀ i < 8, register.getLsbD (8 * i + 7) = false) :
    lockedBytes register = 0 := by
  -- The fold never adds a byte to the mask.
  refine List.foldlRecOn (motive := fun mask => mask = 0) _ _ rfl fun mask same i inside => ?_
  rw [none i (List.mem_range.mp inside), if_neg Bool.false_ne_true, same]

/-- A configuration register takes what is written to it. -/
theorem csrw_cfg (unlocked : ∀ entry < 64, csrs.locked entry = false) (value : U64) :
    csrs.csrw csrPmpcfg0 value = Function.update csrs csrPmpcfg0 value := by
  -- The lock of an entry is the highest bit of its byte.
  have free : ∀ i < 8, (csrs csrPmpcfg0).getLsbD (8 * i + 7) = false := by
    intro i small
    have lock := unlocked i (by omega)
    have first : i / 8 = 0 := by omega
    have place : i % 8 = i := by omega
    simpa [locked, cfg, first, place] using lock
  have cfgs : ¬ (csrPmpaddr0 ≤ csrPmpcfg0 ∧ csrPmpcfg0 < csrPmpaddr0 + 64) := by decide
  have inside : csrPmpcfg0 ≤ csrPmpcfg0 ∧ csrPmpcfg0 < csrPmpcfg0 + 16 := by decide
  rw [csrw, if_neg cfgs, if_pos inside]
  have all : ~~~(0 : U64) = BitVec.allOnes 64 := rfl
  have none : csrs csrPmpcfg0 &&& (0 : U64) = 0#64 := BitVec.and_zero
  simp only [lockedBytes_none free, all, none, BitVec.and_allOnes, BitVec.zero_or]

/-- An address register takes what is written to it. -/
theorem csrw_addr (unlocked : ∀ entry < 64, csrs.locked entry = false) {entry : Nat}
    (inside : entry < 64) (value : U64) :
    csrs.csrw (csrPmpaddr0 + entry) value =
      Function.update csrs (csrPmpaddr0 + entry) value := by
  have addrs : csrPmpaddr0 ≤ csrPmpaddr0 + entry ∧
      csrPmpaddr0 + entry < csrPmpaddr0 + 64 := by omega
  rw [csrw, if_pos addrs]
  refine if_neg ?_
  rw [Nat.add_sub_cancel_left]
  -- An address is locked by its own entry, or by the next one if that is a range.
  rintro (lock | ⟨below, lock, _⟩)
  · rw [unlocked entry inside] at lock
    cases lock
  · rw [unlocked (entry + 1) below] at lock
    cases lock

/-- The configuration of the first eight entries is in one register. -/
theorem cfg_first {entry : Nat} (first : entry < 8) :
    csrs.cfg entry = (csrs csrPmpcfg0 >>> (8 * entry)).setWidth 8 := by
  rw [cfg, Nat.div_eq_of_lt first, Nat.mod_eq_of_lt first]
  rfl

/-- Writing an address register leaves every configuration alone. -/
theorem cfg_update_addr {i entry : Nat} (inside : entry < 64) (value : U64) :
    cfg (Function.update csrs (csrPmpaddr0 + i) value) entry = csrs.cfg entry := by
  -- The configuration registers lie in front of the addresses.
  have apart : csrPmpcfg0 + 2 * (entry / 8) ≠ csrPmpaddr0 + i := by
    rw [csrPmpcfg0, csrPmpaddr0]
    omega
  rw [cfg, cfg, Function.update_of_ne apart]

/-- Writing a configuration register leaves every address alone. -/
theorem addr_update_cfg (entry : Nat) (value : U64) :
    addr (Function.update csrs csrPmpcfg0 value) entry = csrs.addr entry := by
  -- The first configuration register is none of the addresses.
  have apart : csrPmpaddr0 + entry ≠ csrPmpcfg0 := by
    rw [csrPmpcfg0, csrPmpaddr0]
    omega
  rw [addr, addr, Function.update_of_ne apart]

/-- A configuration that was asked for has the mode for its order. -/
theorem mode_of_cfg {entry order : Nat} {prot : U64}
    (cfg : csrs.cfg entry = (pmpProt prot order).setWidth 8) :
    csrs.mode entry = if order = 2 then .na4 else .napot := by
  rw [mode, cfg]
  -- Only regions of four bytes have a mode of their own.
  by_cases least : order = 2
  · simp [pmpProt, pmpA, pmpANa4, pmpShift, least]
  · simp [pmpProt, pmpA, pmpANapot, pmpShift, least]

/-- The bytes that an address register codes, for an order and its mode. -/
def Coded (order : Nat) (addr : U64) (address : Nat) : Prop :=
  if order = 2 then address / 4 = addr.toNat else Napot.Region 64 addr.toNat (address / 4)

/-- With the mode for an order an entry matches what its address register codes. -/
theorem matches_of_coded {entry order : Nat}
    (mode : csrs.mode entry = if order = 2 then .na4 else .napot) (address : Nat) :
    csrs.Matches entry address ↔ Coded order (csrs.addr entry) address := by
  rw [Matches, mode, Coded]
  by_cases least : order = 2
  · simp only [if_pos least]
  · simp only [if_neg least]

end PmpCsrs

/-- The address that is written codes the block of its order that the start lies in. -/
theorem coded_pmpaddrOf {start : U64} {order : Nat} (large : 2 ≤ order) (small : order ≤ 64)
    {address : Nat} (inside : address < 2 ^ 66) :
    PmpCsrs.Coded order (pmpaddrOf start order) address ↔
      order = 64 ∨ address / 2 ^ order = start.toNat / 2 ^ order := by
  rw [PmpCsrs.Coded]
  by_cases least : order = 2
  · -- Four bytes: the address register is the number of the word.
    subst least
    have word : (pmpaddrOf start 2).toNat = start.toNat / 2 ^ 2 := Word.ushiftRight_toNat start 2
    rw [if_pos rfl, word]
    exact (or_iff_right (by decide)).symm
  · rw [if_neg least]
    by_cases most : order = 64
    · -- All of the bits are ones, and so is the region everything.
      subst most
      have ones : (pmpaddrOf start 64).toNat = 2 ^ 64 - 1 := rfl
      rw [ones]
      exact iff_of_true (Napot.region_full (by omega)) (Or.inl rfl)
    · have number : order - 3 + 1 = order - 2 := by omega
      rw [pmpaddrOf_toNat (by omega) (by omega), Napot.region_encode (by omega),
        show address / 4 / 2 ^ (order - 3 + 1) = address / 2 ^ order by
          rw [Nat.div_div_eq_div_mul, show 4 = 2 ^ 2 by rfl, ← Nat.pow_add, number,
            show 2 + (order - 2) = order by omega]]
      exact (or_iff_right most).symm

/-- The registers after `sbi_set_pmp` has set up one entry. -/
def pmpSet (csrs : PmpCsrs) (entry : Fin 8) (start prot : U64) (order : Nat) : PmpCsrs :=
  Function.update (Function.update csrs (csrPmpaddr0 + entry) (pmpaddrOf start order)) csrPmpcfg0
    (pmpcfgOf (csrs csrPmpcfg0) prot order (BitVec.ofNat 32 (8 * entry)))

/-- For an entry that it knows `sbi_set_pmp` writes one address and then one configuration. -/
theorem sbiSetPmp_writes (csrs : PmpCsrs) (entry : Fin 8) (start prot : U64) {size : U64}
    (large : 2 ≤ log2roundup size) :
    sbiSetPmp csrs (BitVec.ofNat 32 entry) start size prot =
      (0, (csrs.csrw (csrPmpaddr0 + entry) (pmpaddrOf start (log2roundup size))).csrw csrPmpcfg0
        (pmpcfgOf (csrs csrPmpcfg0) prot (log2roundup size) (BitVec.ofNat 32 (8 * entry)))) := by
  -- The numbers of the registers, and the place of the byte, one entry at a time.
  have known : ∀ i : Fin 8, maxCsrPmp.slt (BitVec.ofNat 32 i) = false := by decide
  have cfgs : ∀ i : Fin 8, ((0x3a0 + (BitVec.ofNat 32 i).sshiftRight 2) &&& ~~~1 : BitVec 32) =
      BitVec.ofNat 32 csrPmpcfg0 := by decide
  have shifts : ∀ i : Fin 8, ((BitVec.ofNat 32 i &&& 7) <<< 3 : BitVec 32) =
      BitVec.ofNat 32 (8 * i) := by decide
  have addrs : ∀ i : Fin 8, (0x3b0 + BitVec.ofNat 32 i : BitVec 32).toNat = csrPmpaddr0 + i := by
    decide
  have cases_ : ∀ i : Fin 8, csrPmpaddr0 + (i : Nat) ∈ csrNums := by decide
  have enough : ¬ log2roundup size < pmpShift := not_lt.mpr large
  have first : (BitVec.ofNat 32 csrPmpcfg0).toNat = csrPmpcfg0 := rfl
  have case_ : csrPmpcfg0 ∈ csrNums := by decide
  simp only [sbiSetPmp, known, enough, cfgs, shifts, writeCsrNum, readCsrNum, addrs, first, cases_,
    case_, if_true, if_false, Bool.false_eq_true]

/-- While nothing is locked `sbi_set_pmp` sets up the entry it is asked for. -/
theorem sbiSetPmp_eq {csrs : PmpCsrs} (unlocked : ∀ entry < 64, csrs.locked entry = false)
    (entry : Fin 8) (start prot : U64) {size : U64} (large : 2 ≤ log2roundup size) :
    sbiSetPmp csrs (BitVec.ofNat 32 entry) start size prot =
      (0, pmpSet csrs entry start prot (log2roundup size)) := by
  -- The address register is written first, and it locks nothing.
  have still : ∀ i < 64, PmpCsrs.locked (Function.update csrs (csrPmpaddr0 + entry)
      (pmpaddrOf start (log2roundup size))) i = false := by
    intro i inside
    rw [PmpCsrs.locked, PmpCsrs.cfg_update_addr inside]
    exact unlocked i inside
  rw [sbiSetPmp_writes csrs entry start prot large,
    PmpCsrs.csrw_addr unlocked (show (entry : Nat) < 64 by omega), PmpCsrs.csrw_cfg still, pmpSet]

/-! ### What is read back -/

section

variable (csrs : PmpCsrs) (entry : Fin 8) (start prot : U64) (order : Nat)

/-- The address register of the entry holds the code, and the others what they held. -/
theorem pmpSet_addr (other : Nat) :
    (pmpSet csrs entry start prot order).addr other =
      if other = entry then pmpaddrOf start order else csrs.addr other := by
  rw [pmpSet, PmpCsrs.addr_update_cfg, PmpCsrs.addr]
  -- The configuration is written last and holds no address.
  by_cases same : other = entry
  · rw [if_pos same, same, Function.update_self]
  · rw [if_neg same, Function.update_of_ne (fun equal => same (Nat.add_left_cancel equal))]
    rfl

/-- The configuration of the entry is what was asked for, and the others are what they were. -/
theorem pmpSet_cfg {other : Nat} (inside : other < 64) :
    (pmpSet csrs entry start prot order).cfg other =
      if other = entry then (pmpProt prot order).setWidth 8 else csrs.cfg other := by
  have place : (BitVec.ofNat 32 (8 * entry)).toNat = 8 * entry := by
    rw [BitVec.toNat_ofNat]
    omega
  by_cases first : other < 8
  · rw [PmpCsrs.cfg_first first, PmpCsrs.cfg_first first, pmpSet, Function.update_self]
    exact pmpcfgOf_byte _ _ _ place entry.isLt first
  · -- The entries from the eighth on have their bytes in other registers.
    have apart : csrPmpcfg0 + 2 * (other / 8) ≠ csrPmpcfg0 := by omega
    have outside : other ≠ entry := by omega
    have base : PmpCsrs.cfg (Function.update csrs (csrPmpaddr0 + entry) (pmpaddrOf start order))
        other = csrs.cfg other := PmpCsrs.cfg_update_addr inside _
    rw [if_neg outside, ← base, PmpCsrs.cfg, PmpCsrs.cfg, pmpSet, Function.update_of_ne apart]

/-- The mode is the one for the smallest regions or the one for all larger ones. -/
theorem pmpSet_mode :
    (pmpSet csrs entry start prot order).mode entry = if order = 2 then .na4 else .napot := by
  have cfg : (pmpSet csrs entry start prot order).cfg entry = (pmpProt prot order).setWidth 8 := by
    rw [pmpSet_cfg csrs entry start prot order (by omega), if_pos rfl]
  exact PmpCsrs.mode_of_cfg cfg

/-- Apart from the mode the configuration is the rights that were asked for. -/
theorem pmpSet_rights (rights : prot &&& ~~~pmpRwxl = 0) :
    (pmpSet csrs entry start prot order).cfg entry &&& 0xe7 = prot.setWidth 8 := by
  rw [pmpSet_cfg csrs entry start prot order (by omega), if_pos rfl]
  apply BitVec.eq_of_getLsbD_eq
  intro b low
  -- Bit by bit; the two bits of the mode are masked out, and were not asked for.
  have asked : (prot &&& ~~~pmpRwxl).getLsbD b = false := by simp [rights]
  clear rights
  rw [pmpProt]
  by_cases least : order = pmpShift
  · rw [if_pos least]
    interval_cases b <;> simp_all [pmpA, pmpANa4, pmpRwxl]
  · rw [if_neg least]
    interval_cases b <;> simp_all [pmpA, pmpANapot, pmpRwxl]

/-- The entry matches the region that was asked for. -/
theorem pmpSet_matches (large : 2 ≤ order) (small : order ≤ 64)
    (aligned : order = 64 ∨ 2 ^ order ∣ start.toNat) {address : Nat} (inside : address < 2 ^ 66) :
    (pmpSet csrs entry start prot order).Matches entry address ↔
      order = 64 ∨ start.toNat ≤ address ∧ address < start.toNat + 2 ^ order := by
  have addr := pmpSet_addr csrs entry start prot order entry
  rw [if_pos rfl] at addr
  rw [PmpCsrs.matches_of_coded (pmpSet_mode csrs entry start prot order), addr,
    coded_pmpaddrOf large small inside]
  -- A region that begins at an aligned address is an interval.
  by_cases most : order = 64
  · exact iff_of_true (Or.inl most) (Or.inl most)
  · rw [Napot.div_eq_iff_interval (aligned.resolve_left most)]

end

/-! ### The entry that is set up -/

/--
While no entry is locked, `sbi_set_pmp` for one of the first eight entries succeeds on every region
of at least four bytes that is aligned to its rounded size: the entry then matches exactly that
region, or every address for the largest size, with exactly the rights that were asked for, and no
other entry changes. The size is rounded up to the least power of two.
-/
theorem sbiSetPmp_region {csrs : PmpCsrs} (unlocked : ∀ i < 64, csrs.locked i = false)
    (entry : Fin 8) {start size prot : U64} {order : Nat} (rounded : order = log2roundup size)
    (large : 2 ≤ order) (aligned : order = 64 ∨ 2 ^ order ∣ start.toNat)
    (rights : prot &&& ~~~pmpRwxl = 0) :
    ∃ after, sbiSetPmp csrs (BitVec.ofNat 32 entry) start size prot = (0, after) ∧
      (size.toNat ≤ 2 ^ order ∧ ∀ m, size.toNat ≤ 2 ^ m → order ≤ m) ∧
      (∀ address < 2 ^ 66, after.Matches entry address ↔
        order = 64 ∨ start.toNat ≤ address ∧ address < start.toNat + 2 ^ order) ∧
      after.cfg entry &&& 0xe7 = prot.setWidth 8 ∧
      ∀ other : Nat, other < 64 → other ≠ entry →
        after.cfg other = csrs.cfg other ∧ after.addr other = csrs.addr other := by
  obtain ⟨small, least⟩ := log2roundup_spec size
  subst rounded
  -- With no lock both writes take effect, and the registers can be read off.
  refine ⟨_, sbiSetPmp_eq unlocked entry start prot large, least,
    fun address inside => pmpSet_matches csrs entry start prot _ large small aligned inside,
    pmpSet_rights csrs entry start prot _ rights, fun other inside apart => ⟨?_, ?_⟩⟩
  · rw [pmpSet_cfg csrs entry start prot _ inside, if_neg apart]
  · rw [pmpSet_addr, if_neg apart]

/-- Half a mebibyte is rounded up from one byte more than a quarter, and can be executed. -/
theorem sbiSetPmp_region_half :
    ∃ after : PmpCsrs, sbiSetPmp (fun _ => 0) 1 0x80000000 0x40001 4 = (0, after) ∧
      ∀ address < 2 ^ 66, after.Matches 1 address ↔
        0x80000000 ≤ address ∧ address < 0x80080000 := by
  -- The size is one byte more than a power of two and is rounded up to the next.
  have rounded : 19 = log2roundup 0x40001 := by simp [log2roundup, log2roundupFrom]
  have unlocked : ∀ i < 64, PmpCsrs.locked (fun _ => 0) i = false := fun _ _ => by
    simp [PmpCsrs.locked, PmpCsrs.cfg]
  obtain ⟨after, set, _, region, _⟩ := sbiSetPmp_region unlocked 1 rounded (by decide)
    (Or.inr (show 2 ^ 19 ∣ (0x80000000 : U64).toNat by decide))
    (show (4 : U64) &&& ~~~pmpRwxl = 0 by decide)
  refine ⟨after, set, fun address inside => ?_⟩
  exact (region address inside).trans (or_iff_right (by decide))

end Benos
