import Benos.Sbi.PmpRegion

/-!
When `sbi_set_pmp` has protected what it was asked for, and when it only says so.

It compares the index with `>`, and rounds the start down to the size without a look at the end.
-/

namespace Benos

namespace PmpCsrs

variable (csrs : PmpCsrs)

/-! ### Writing registers that may be locked -/

/-- The mask of the locks has ones in the bytes of locked entries and nowhere else. -/
theorem lockedBytes_getLsbD (register : U64) {j b : Nat} (other : j < 8) (low : b < 8) :
    (lockedBytes register).getLsbD (8 * j + b) = register.getLsbD (8 * j + 7) := by
  -- After some rounds the mask has the bytes that were looked at so far.
  have general (rounds : Nat) :
      ((List.range rounds).foldl (fun mask i => if register.getLsbD (8 * i + 7) then
        mask ||| (0xff : U64) <<< (8 * i) else mask) 0).getLsbD (8 * j + b) =
      (decide (j < rounds) && register.getLsbD (8 * j + 7)) := by
    induction rounds with
    | zero => simp
    | succ rounds ih =>
      rw [List.range_succ, List.foldl_append, List.foldl_cons, List.foldl_nil]
      by_cases here : j = rounds
      · subst here
        rw [decide_eq_true (Nat.lt_succ_self j), Bool.true_and]
        cases lock : register.getLsbD (8 * j + 7)
        · rw [if_neg Bool.false_ne_true, ih, lock, Bool.and_false]
        · rw [if_pos rfl, BitVec.getLsbD_or, byteMask_getLsbD j other low, decide_eq_true rfl,
            Bool.or_true]
      · have later : decide (j < rounds + 1) = decide (j < rounds) :=
          decide_eq_decide.mpr (by omega)
        rw [later, ← ih]
        split
        · rw [BitVec.getLsbD_or, byteMask_getLsbD rounds other low, decide_eq_false here,
            Bool.or_false]
        · rfl
  rw [lockedBytes, general 8, decide_eq_true other, Bool.true_and]

/-- A configuration register takes the bytes of the entries that are not locked. -/
theorem csrw_cfg_byte (value : U64) {j : Nat} (inside : j < 8) :
    (csrs.csrw csrPmpcfg0 value).cfg j =
      if csrs.locked j then csrs.cfg j else (value >>> (8 * j)).setWidth 8 := by
  have cfgs : ¬ (csrPmpaddr0 ≤ csrPmpcfg0 ∧ csrPmpcfg0 < csrPmpaddr0 + 64) := by decide
  have own : csrPmpcfg0 ≤ csrPmpcfg0 ∧ csrPmpcfg0 < csrPmpcfg0 + 16 := by decide
  have lock : csrs.locked j = (csrs csrPmpcfg0).getLsbD (8 * j + 7) := by
    rw [locked, cfg_first inside, BitVec.getLsbD_setWidth, BitVec.getLsbD_ushiftRight]
    rfl
  rw [cfg_first inside, cfg_first inside, csrw, if_neg cfgs, if_pos own, Function.update_self]
  apply BitVec.eq_of_getLsbD_eq
  -- Bit by bit, as all the bits of a byte have the same lock.
  intro b low
  have bit : 8 * j + b < 64 := by omega
  have mask := lockedBytes_getLsbD (csrs csrPmpcfg0) inside low
  rw [lock]
  have written : ((csrs csrPmpcfg0 &&& lockedBytes (csrs csrPmpcfg0) ||| value &&&
      ~~~lockedBytes (csrs csrPmpcfg0)) >>> (8 * j)).getLsbD b =
      ((csrs csrPmpcfg0).getLsbD (8 * j + b) && (csrs csrPmpcfg0).getLsbD (8 * j + 7) ||
        value.getLsbD (8 * j + b) && !(csrs csrPmpcfg0).getLsbD (8 * j + 7)) := by
    simp only [BitVec.getLsbD_ushiftRight, BitVec.getLsbD_or, BitVec.getLsbD_and,
      BitVec.getLsbD_not, mask, bit, decide_true, Bool.true_and]
  rw [BitVec.getLsbD_setWidth, written]
  cases held : (csrs csrPmpcfg0).getLsbD (8 * j + 7)
  · simp only [Bool.and_false, Bool.not_false, Bool.and_true, Bool.false_or, Bool.false_eq_true,
      if_false, BitVec.getLsbD_setWidth, BitVec.getLsbD_ushiftRight]
  · simp only [Bool.and_true, Bool.not_true, Bool.and_false, Bool.or_false, if_true,
      BitVec.getLsbD_setWidth, BitVec.getLsbD_ushiftRight]

/-- Writing the first configuration register leaves every address alone. -/
theorem csrw_cfg_addr (value : U64) (entry : Nat) :
    (csrs.csrw csrPmpcfg0 value).addr entry = csrs.addr entry := by
  have cfgs : ¬ (csrPmpaddr0 ≤ csrPmpcfg0 ∧ csrPmpcfg0 < csrPmpaddr0 + 64) := by decide
  have own : csrPmpcfg0 ≤ csrPmpcfg0 ∧ csrPmpcfg0 < csrPmpcfg0 + 16 := by decide
  -- Only a configuration register is updated.
  rw [csrw, if_neg cfgs, if_pos own, addr_update_cfg]

/-- Whether a lock keeps the address register of an entry as it is. -/
def AddrLocked (entry : Nat) : Prop :=
  csrs.locked entry ∨ entry + 1 < 64 ∧ csrs.locked (entry + 1) ∧ csrs.mode (entry + 1) = .tor

instance (entry : Nat) : Decidable (csrs.AddrLocked entry) := inferInstanceAs (Decidable (_ ∨ _))

/-- An address register takes what is written to it unless a lock keeps it. -/
theorem csrw_addr_eq {entry : Nat} (inside : entry < 64) (value : U64) :
    csrs.csrw (csrPmpaddr0 + entry) value = if csrs.AddrLocked entry then csrs
      else Function.update csrs (csrPmpaddr0 + entry) value := by
  have addrs : csrPmpaddr0 ≤ csrPmpaddr0 + entry ∧
      csrPmpaddr0 + entry < csrPmpaddr0 + 64 := by omega
  rw [csrw, if_pos addrs]
  simp only [Nat.add_sub_cancel_left]
  rfl

/-- Writing an address register leaves every configuration alone. -/
theorem csrw_addr_cfg {i entry : Nat} (own : i < 64) (inside : entry < 64) (value : U64) :
    (csrs.csrw (csrPmpaddr0 + i) value).cfg entry = csrs.cfg entry := by
  rw [csrw_addr_eq csrs own]
  split
  · rfl
  · exact cfg_update_addr inside value

/-- What an entry matches depends on its registers and on the address register below it. -/
theorem matches_congr {after : PmpCsrs} {entry : Nat} (cfg : after.cfg entry = csrs.cfg entry)
    (own : after.addr entry = csrs.addr entry)
    (below : after.addr (entry - 1) = csrs.addr (entry - 1)) (address : Nat) :
    after.Matches entry address ↔ csrs.Matches entry address := by
  rw [Matches, Matches, mode, mode, cfg, own, below]

end PmpCsrs

/-! ### What is asked for -/

/-- The bytes of a request. -/
def Requested (start size : U64) (address : Nat) : Prop :=
  start.toNat ≤ address ∧ address < start.toNat + size.toNat

/-- An entry covers the bytes of a request. -/
def PmpCsrs.Covers (csrs : PmpCsrs) (entry : Nat) (start size : U64) : Prop :=
  ∀ address, Requested start size address → csrs.Matches entry address

/-- One region of the rounded size, aligned to that size, covers the bytes of a request. -/
def InOneRegion (start size : U64) : Prop :=
  log2roundup size = 64 ∨ ∀ address, Requested start size address →
    address / 2 ^ log2roundup size = start.toNat / 2 ^ log2roundup size

/-- The index has registers that the code can write, and one region covers the request. -/
def Representable (regIdx : BitVec 32) (start size : U64) : Prop :=
  regIdx.toNat < 8 ∧ InOneRegion start size

/-- Success is true, and what cannot be represented is refused and changes nothing. -/
def Protects (csrs : PmpCsrs) (regIdx : BitVec 32) (start size prot : U64) : Prop :=
  ((sbiSetPmp csrs regIdx start size prot).1 = 0 → 0 ≤ regIdx.toInt ∧
      (sbiSetPmp csrs regIdx start size prot).2.Covers regIdx.toInt.toNat start size) ∧
    (¬ Representable regIdx start size → sbiSetPmp csrs regIdx start size prot = (-1, csrs))

/-- The requests that `sbi_set_pmp` refuses: larger indices than eight, and less than three bytes. -/
def Refused (regIdx : BitVec 32) (size : U64) : Prop :=
  maxCsrPmp.slt regIdx = true ∨ log2roundup size < pmpShift

/-- No lock keeps an entry from covering the request, or what it keeps covers the request. -/
def LocksLeave (csrs : PmpCsrs) (entry : Nat) (start size : U64) : Prop :=
  if csrs.locked entry then csrs.Covers entry start size
  else if csrs.AddrLocked entry then ∀ address, Requested start size address →
    PmpCsrs.Coded (log2roundup size) (csrs.addr entry) address
  else True

/-- A request is refused before any register is written. -/
theorem sbiSetPmp_refused (csrs : PmpCsrs) {regIdx : BitVec 32} (start : U64) {size : U64}
    (prot : U64) (refused : Refused regIdx size) :
    sbiSetPmp csrs regIdx start size prot = (-1, csrs) := by
  rw [sbiSetPmp]
  -- The index is looked at first, and the size behind it.
  rcases refused with beyond | less
  · rw [if_pos beyond]
  · split
    · rfl
    · exact if_pos less

/-- Any other request is reported as a success. -/
theorem sbiSetPmp_succeeds (csrs : PmpCsrs) {regIdx : BitVec 32} (start : U64) {size : U64}
    (prot : U64) (taken : ¬ Refused regIdx size) :
    (sbiSetPmp csrs regIdx start size prot).1 = 0 := by
  rw [Refused, not_or] at taken
  rw [sbiSetPmp, if_neg taken.1]
  simp only [if_neg taken.2]

/-! ### What the entry covers afterwards -/

/-- Of the entry that is set, the locks and the rounded size say what it covers. -/
theorem sbiSetPmp_covers_iff (csrs : PmpCsrs) (entry : Fin 8) (start prot : U64) {size : U64}
    (large : 2 ≤ log2roundup size) (region : InOneRegion start size) :
    (sbiSetPmp csrs (BitVec.ofNat 32 entry) start size prot).2.Covers entry start size ↔
      LocksLeave csrs entry start size := by
  have own : (entry : Nat) < 64 := by omega
  have place : (BitVec.ofNat 32 (8 * entry)).toNat = 8 * entry := by
    rw [BitVec.toNat_ofNat]
    omega
  rw [sbiSetPmp_writes csrs entry start prot large, LocksLeave]
  let addressed := csrs.csrw (csrPmpaddr0 + entry) (pmpaddrOf start (log2roundup size))
  let cfg := pmpcfgOf (csrs csrPmpcfg0) prot (log2roundup size) (BitVec.ofNat 32 (8 * entry))
  show (addressed.csrw csrPmpcfg0 cfg).Covers entry start size ↔ _
  -- The first write locks nothing and unlocks nothing.
  have same : addressed.cfg entry = csrs.cfg entry := csrs.csrw_addr_cfg own own _
  have byte := addressed.csrw_cfg_byte cfg entry.isLt
  have lock : addressed.locked entry = csrs.locked entry := by
    rw [PmpCsrs.locked, PmpCsrs.locked, same]
  rw [lock, same] at byte
  by_cases locked : csrs.locked entry = true
  · -- Both registers are kept, and so is the address register below.
    rw [if_pos locked] at byte ⊢
    have kept : addressed = csrs :=
      (csrs.csrw_addr_eq own _).trans (if_pos (show csrs.AddrLocked entry from Or.inl locked))
    have addrs (i : Nat) : (addressed.csrw csrPmpcfg0 cfg).addr i = csrs.addr i := by
      rw [PmpCsrs.csrw_cfg_addr, kept]
    exact forall₂_congr fun address _ => csrs.matches_congr byte (addrs _) (addrs _) address
  · -- The mode is that of the order, so the address register says what is covered.
    rw [if_neg locked] at byte ⊢
    rw [pmpcfgOf_byte _ _ _ place entry.isLt entry.isLt, if_pos rfl] at byte
    have coded := PmpCsrs.matches_of_coded (PmpCsrs.mode_of_cfg byte)
    rw [PmpCsrs.csrw_cfg_addr] at coded
    have addr : addressed.addr entry = if csrs.AddrLocked entry then csrs.addr entry
        else pmpaddrOf start (log2roundup size) := by
      show PmpCsrs.addr (csrs.csrw _ _) entry = _
      rw [csrs.csrw_addr_eq own]
      split
      · rfl
      · exact Function.update_self _ _ _
    rw [addr] at coded
    by_cases kept : csrs.AddrLocked entry
    · rw [if_pos kept] at coded ⊢
      exact forall₂_congr fun address _ => coded address
    · rw [if_neg kept] at coded ⊢
      refine iff_of_true (fun address asked => ?_) trivial
      -- The region that was written is the one around the start.
      have inside : address < 2 ^ 66 := by
        have ended := asked.2
        omega
      rw [coded address, coded_pmpaddrOf large (log2roundup_spec size).1 inside]
      exact region.imp id fun block => block address asked

/--
Success is true and impossible requests are refused exactly for the requests that are refused
anyway, and for the representable ones that no lock spoils.
-/
theorem sbiSetPmp_protects_iff (csrs : PmpCsrs) (regIdx : BitVec 32) (start size prot : U64) :
    Protects csrs regIdx start size prot ↔ Refused regIdx size ∨
      Representable regIdx start size ∧ LocksLeave csrs regIdx.toNat start size := by
  by_cases refused : Refused regIdx size
  · -- What is refused changes nothing and claims nothing.
    refine iff_of_true ⟨fun succeeded => ?_, fun _ => sbiSetPmp_refused csrs start prot refused⟩
      (Or.inl refused)
    rw [sbiSetPmp_refused csrs start prot refused] at succeeded
    cases succeeded
  · rw [or_iff_right refused]
    have succeeded := sbiSetPmp_succeeds csrs start prot refused
    have apart : sbiSetPmp csrs regIdx start size prot ≠ (-1, csrs) := by
      intro equal
      rw [equal] at succeeded
      cases succeeded
    -- As the request is not refused, it has to be one that can be represented.
    by_cases representable : Representable regIdx start size
    · obtain ⟨known, region⟩ := representable
      have large : 2 ≤ log2roundup size := by
        rw [Refused, not_or] at refused
        exact not_lt.mp refused.2
      have index : regIdx = BitVec.ofNat 32 (⟨regIdx.toNat, known⟩ : Fin 8) := by simp
      have number : regIdx.toInt = regIdx.toNat := BitVec.toInt_eq_toNat_of_lt (by omega)
      have covers := sbiSetPmp_covers_iff csrs ⟨regIdx.toNat, known⟩ start prot large region
      rw [← index] at covers
      rw [Protects, number, Int.toNat_natCast]
      constructor
      · rintro ⟨covered, _⟩
        exact ⟨⟨known, region⟩, covers.mp (covered succeeded).2⟩
      · rintro ⟨_, leave⟩
        exact ⟨fun _ => ⟨Int.natCast_nonneg _, covers.mpr leave⟩,
          fun not => absurd ⟨known, region⟩ not⟩
    · refine iff_of_false (fun protects => apart (protects.2 representable)) ?_
      exact fun holds => representable holds.1

/-- Index eight is let through, and nothing is written. -/
theorem sbiSetPmp_unprotected : ¬ ∀ (csrs : PmpCsrs) (regIdx : BitVec 32) (start size prot : U64),
    Protects csrs regIdx start size prot := by
  intro protects
  have refuses := (protects (fun _ => 0) 8 0x80000000 0x1000 7).2 fun representable =>
    absurd representable.1 (by decide)
  have rounded : log2roundup 0x1000 = 12 := by simp [log2roundup, log2roundupFrom]
  have taken : ¬ Refused 8 0x1000 := by
    rw [Refused, rounded]
    decide
  -- The index is not refused, so that the call says it has succeeded.
  have succeeds := sbiSetPmp_succeeds (fun _ => 0) 0x80000000 7 taken
  rw [refuses] at succeeds
  cases succeeds

end Benos
