import Mathlib.Data.List.Find
import Benos.Mm.Stage2
import Benos.Sbi.PmpProtects

/-!
The entries of the hart as a list of rules: what any calls of `sbi_set_pmp` in a row let the lower
modes access.
-/

namespace Benos

/-! ### The lowest entry decides -/

/-- Which bytes of an access an entry covers. -/
def coveredBytes (covers : (entry address : Nat) → Bool) (address bytes entry : Nat) : List Bool :=
  (List.range bytes).map fun i => covers entry (address + i)

/--
Whether an access is let through: the lowest entry that covers any of its bytes has to cover all of
them, and to permit it. What no entry covers is refused.
-/
def lowestDecides (covers : (entry address : Nat) → Bool) (permits : Nat → Bool)
    (address bytes : Nat) : Bool :=
  match (List.range 64).find? fun entry => (coveredBytes covers address bytes entry).any id with
  | none => false
  | some entry => (coveredBytes covers address bytes entry).all id && permits entry

namespace PmpCsrs

/-- Whether an entry matches a byte can be read off its registers. -/
instance (csrs : PmpCsrs) (entry address : Nat) : Decidable (csrs.Matches entry address) :=
  match mode : csrs.mode entry with
  | .off => isFalse (by rw [Matches, mode]; exact id)
  | .tor => decidable_of_iff ((if entry = 0 then 0 else 4 * (csrs.addr (entry - 1)).toNat) ≤ address ∧
      address < 4 * (csrs.addr entry).toNat) (by rw [Matches, mode])
  | .na4 => decidable_of_iff (address / 4 = (csrs.addr entry).toNat) (by rw [Matches, mode])
  | .napot => decidable_of_iff (Napot.Region 64 (csrs.addr entry).toNat (address / 4))
      (by rw [Matches, mode])

/-- The bit of a configuration that permits a kind of access. -/
def rightBit : AccessKind → Nat
  | .load => 0
  | .store => 1
  | .fetch => 2

/-- Whether the hart lets an access of a lower mode through. -/
def permits (csrs : PmpCsrs) (kind : AccessKind) (address bytes : Nat) : Bool :=
  lowestDecides (fun entry address => csrs.Matches entry address)
    (fun entry => (csrs.cfg entry).getLsbD (rightBit kind)) address bytes

end PmpCsrs

/-! ### The rules -/

/-- What a call asks for: a region by its start and the order of its size, and the rights to it. -/
structure PmpRule where
  start : U64
  order : Nat
  prot : U64

namespace PmpRule

/-- The bytes of the region, which is the one of its size that the start lies in. -/
def has (rule : PmpRule) (address : Nat) : Bool :=
  rule.order = 64 ∨ address / 2 ^ rule.order = rule.start.toNat / 2 ^ rule.order

/-- The kinds of access that the rule permits. -/
def permits (rule : PmpRule) (kind : AccessKind) : Bool :=
  rule.prot.getLsbD (PmpCsrs.rightBit kind)

/-- A locked rule cannot be replaced. -/
def locked (rule : PmpRule) : Bool := rule.prot.getLsbD 7

end PmpRule

/-- The rules in force, by the numbers of their entries. -/
abbrev PmpRules : Type := Nat → Option PmpRule

namespace PmpRules

/-- A rule is put in its place, unless a locked one is there. -/
def set (rules : PmpRules) (entry : Nat) (rule : PmpRule) : PmpRules :=
  if (rules entry).any PmpRule.locked then rules else Function.update rules entry (some rule)

/-- Whether the rules let an access through. -/
def permits (rules : PmpRules) (kind : AccessKind) (address bytes : Nat) : Bool :=
  lowestDecides (fun entry address => (rules entry).any (PmpRule.has · address))
    (fun entry => (rules entry).any (PmpRule.permits · kind)) address bytes

end PmpRules

/-- A call of `sbi_set_pmp`. -/
structure PmpCall where
  regIdx : BitVec 32
  start : U64
  size : U64
  prot : U64

namespace PmpCall

/-- The call on the registers. -/
def run (call : PmpCall) (csrs : PmpCsrs) : Int × PmpCsrs :=
  sbiSetPmp csrs call.regIdx call.start call.size call.prot

/--
The call on the rules: an index that is too large and a region of less than four bytes are refused,
and index eight is accepted and has no entry.
-/
def apply (call : PmpCall) (rules : PmpRules) : Int × PmpRules :=
  if 8 < call.regIdx.toInt ∨ log2roundup call.size < 2 then (-1, rules)
  else if call.regIdx.toInt = 8 then (0, rules)
  else (0, rules.set call.regIdx.toNat ⟨call.start, log2roundup call.size, call.prot⟩)

end PmpCall

/-- Calls one after the other, with what each returns. -/
def runPmpCalls {σ : Type} (step : PmpCall → σ → Int × σ) : List PmpCall → σ → List Int × σ
  | [], state => ([], state)
  | call :: rest, state =>
    let (returned, state) := step call state
    let (others, state) := runPmpCalls step rest state
    (returned :: others, state)

/-! ### What the registers have to do with the rules -/

/-- The registers enforce the rules: each entry is that of its rule, or is off and not locked. -/
structure Enforces (csrs : PmpCsrs) (rules : PmpRules) : Prop where
  ruled : ∀ entry < 64, ∀ rule, rules entry = some rule →
    csrs.cfg entry = (pmpProt rule.prot rule.order).setWidth 8 ∧
      csrs.addr entry = pmpaddrOf rule.start rule.order ∧ 2 ≤ rule.order ∧ rule.order ≤ 64
  off : ∀ entry < 64, rules entry = none →
    csrs.mode entry = .off ∧ csrs.locked entry = false

/-- The rights and the lock are in the configuration as they were asked for. -/
theorem pmpProt_getLsbD (prot : U64) (order : Nat) {i : Nat} (within : i < 8)
    (apart : i ≠ 3 ∧ i ≠ 4) :
    ((pmpProt prot order).setWidth 8).getLsbD i = prot.getLsbD i := by
  rw [pmpProt]
  -- The two bits that are not kept are those of the mode.
  by_cases least : order = pmpShift
  · rw [if_pos least]
    interval_cases i <;> simp_all [pmpA, pmpANa4]
  · rw [if_neg least]
    interval_cases i <;> simp_all [pmpA, pmpANapot]

namespace Enforces

variable {csrs : PmpCsrs} {rules : PmpRules} (enforces : Enforces csrs rules)

include enforces

/-- No entry matches up to its own address. -/
theorem mode_ne_tor {entry : Nat} (inside : entry < 64) : csrs.mode entry ≠ .tor := by
  cases here : rules entry with
  | none =>
    rw [(enforces.off entry inside here).1]
    exact PmpMode.noConfusion
  | some rule =>
    rw [PmpCsrs.mode_of_cfg (enforces.ruled entry inside rule here).1]
    split <;> exact PmpMode.noConfusion

/-- An entry is locked when its rule is. -/
theorem locked_eq {entry : Nat} (inside : entry < 64) :
    csrs.locked entry = (rules entry).any PmpRule.locked := by
  cases here : rules entry with
  | none => exact (enforces.off entry inside here).2
  | some rule =>
    rw [PmpCsrs.locked, (enforces.ruled entry inside rule here).1,
      pmpProt_getLsbD _ _ (by decide) (by decide)]
    rfl

/-- So a lock keeps the address register of its own entry only. -/
theorem addrLocked_iff (entry : Nat) :
    csrs.AddrLocked entry ↔ csrs.locked entry = true := by
  refine ⟨fun kept => kept.resolve_right fun ⟨next, _, tor⟩ => ?_, Or.inl⟩
  exact enforces.mode_ne_tor next tor

end Enforces

/-- Writing the first configuration register leaves the later entries alone. -/
theorem PmpCsrs.csrw_cfg_later (csrs : PmpCsrs) (value : U64) {entry : Nat} (later : 8 ≤ entry) :
    (csrs.csrw csrPmpcfg0 value).cfg entry = csrs.cfg entry := by
  have cfgs : ¬ (csrPmpaddr0 ≤ csrPmpcfg0 ∧ csrPmpcfg0 < csrPmpaddr0 + 64) := by decide
  have own : csrPmpcfg0 ≤ csrPmpcfg0 ∧ csrPmpcfg0 < csrPmpcfg0 + 16 := by decide
  have apart : csrPmpcfg0 + 2 * (entry / 8) ≠ csrPmpcfg0 := by omega
  rw [csrw, if_neg cfgs, if_pos own, PmpCsrs.cfg, PmpCsrs.cfg, Function.update_of_ne apart]

namespace Enforces

variable {csrs : PmpCsrs} {rules : PmpRules} (enforces : Enforces csrs rules)

include enforces

/-- Only the registers of the entries matter. -/
theorem congr {after : PmpCsrs}
    (same : ∀ entry < 64, after.cfg entry = csrs.cfg entry ∧ after.addr entry = csrs.addr entry) :
    Enforces after rules := by
  refine ⟨fun entry inside rule ruled => ?_, fun entry inside none_ => ?_⟩
  · rw [(same entry inside).1, (same entry inside).2]
    exact enforces.ruled entry inside rule ruled
  · rw [PmpCsrs.mode, PmpCsrs.locked, (same entry inside).1]
    exact enforces.off entry inside none_

/-- What a call for one of the first eight entries leaves in the registers. -/
theorem written (entry : Fin 8) (start prot : U64) {size : U64} (large : 2 ≤ log2roundup size) :
    ∃ after, sbiSetPmp csrs (BitVec.ofNat 32 entry) start size prot = (0, after) ∧
      ∀ other < 64,
        after.cfg other = (if other = entry ∧ csrs.locked other = false then
          (pmpProt prot (log2roundup size)).setWidth 8 else csrs.cfg other) ∧
        after.addr other = if other = entry ∧ csrs.locked other = false then
          pmpaddrOf start (log2roundup size) else csrs.addr other := by
  have own : (entry : Nat) < 64 := by omega
  have place : (BitVec.ofNat 32 (8 * entry)).toNat = 8 * entry := by
    rw [BitVec.toNat_ofNat]
    omega
  refine ⟨_, sbiSetPmp_writes csrs entry start prot large, fun other inside => ⟨?_, ?_⟩⟩
  · have same : (csrs.csrw (csrPmpaddr0 + entry) (pmpaddrOf start (log2roundup size))).cfg other =
        csrs.cfg other := csrs.csrw_addr_cfg own inside _
    by_cases first : other < 8
    · -- The bytes of the first register are written but for those that are locked.
      rw [PmpCsrs.csrw_cfg_byte _ _ first, PmpCsrs.locked, same, ← PmpCsrs.locked,
        pmpcfgOf_byte _ _ _ place entry.isLt first, ← PmpCsrs.cfg_first first]
      cases csrs.locked other <;> simp
    · rw [PmpCsrs.csrw_cfg_later _ _ (by omega), same, if_neg]
      omega
  · rw [PmpCsrs.csrw_cfg_addr, csrs.csrw_addr_eq own]
    have lock := enforces.addrLocked_iff entry
    by_cases here : other = entry
    · subst here
      by_cases locked : csrs.locked entry = true
      · rw [if_pos (lock.mpr locked), if_neg (by simp [locked])]
      · rw [if_neg (mt lock.mp locked), if_pos ⟨rfl, Bool.eq_false_of_not_eq_true locked⟩]
        exact Function.update_self _ _ _
    · rw [if_neg (show ¬ (other = entry ∧ csrs.locked other = false) from fun both => here both.1)]
      split
      · rfl
      · exact Function.update_of_ne (fun same => here (Nat.add_left_cancel same)) _ _

/-- A call does to the registers what it does to the rules. -/
theorem call (call : PmpCall) (natural : 0 ≤ call.regIdx.toInt) :
    (call.run csrs).1 = (call.apply rules).1 ∧
      Enforces (call.run csrs).2 (call.apply rules).2 := by
  have index : call.regIdx.toInt = call.regIdx.toNat := by
    have cases_ := BitVec.toInt_eq_toNat_cond call.regIdx
    split at cases_ <;> omega
  have beyond : maxCsrPmp.slt call.regIdx = true ↔ 8 < call.regIdx.toInt := by
    rw [BitVec.slt_iff_toInt_lt]
    exact Iff.rfl
  by_cases refused : 8 < call.regIdx.toInt ∨ log2roundup call.size < 2
  · have nothing : call.run csrs = (-1, csrs) :=
      sbiSetPmp_refused csrs call.start call.prot (refused.imp_left beyond.mpr)
    rw [nothing, PmpCall.apply, if_pos refused]
    exact ⟨rfl, enforces⟩
  · obtain ⟨known, large⟩ := not_or.mp refused
    by_cases eighth : call.regIdx.toInt = 8
    · -- Neither of the two registers is one that can be written.
      have eight : call.regIdx = 8 := BitVec.eq_of_toInt_eq (eighth.trans (by decide))
      have order : ¬ log2roundup call.size < pmpShift := large
      have first : maxCsrPmp.slt (8 : BitVec 32) = false := by decide
      have cfg : ((0x3a0 + (8 : BitVec 32).sshiftRight 2) &&& ~~~1 : BitVec 32).toNat ∉ csrNums := by
        decide
      have addr : (0x3b0 + 8 : BitVec 32).toNat ∉ csrNums := by decide
      have nothing : call.run csrs = (0, csrs) := by
        rw [PmpCall.run, eight]
        simp only [sbiSetPmp, first, Bool.false_eq_true, if_false, order, writeCsrNum, if_neg cfg,
          if_neg addr]
      rw [nothing, PmpCall.apply, if_neg refused, if_pos eighth]
      exact ⟨rfl, enforces⟩
    · have below : call.regIdx.toNat < 8 := by omega
      obtain ⟨after, ran, registers⟩ := enforces.written ⟨call.regIdx.toNat, below⟩ call.start
        call.prot (not_lt.mp large)
      have same : BitVec.ofNat 32 call.regIdx.toNat = call.regIdx := by simp
      have result : call.run csrs = (0, after) := by
        rw [PmpCall.run, ← ran]
        dsimp only
        rw [same]
      rw [result, PmpCall.apply, if_neg refused, if_neg eighth]
      refine ⟨rfl, ?_⟩
      have lock := enforces.locked_eq (show call.regIdx.toNat < 64 by omega)
      dsimp only
      rw [PmpRules.set, ← lock]
      -- The entry gets its rule unless it is locked, and the others have the rules they had.
      split
      · next locked =>
        refine enforces.congr fun other inside => ?_
        have apart : ¬ (other = call.regIdx.toNat ∧ csrs.locked other = false) := by
          rintro ⟨rfl, free⟩
          rw [locked] at free
          cases free
        obtain ⟨cfg, addr⟩ := registers other inside
        rw [if_neg apart] at cfg addr
        exact ⟨cfg, addr⟩
      · next free =>
        have free : csrs.locked call.regIdx.toNat = false := Bool.eq_false_of_not_eq_true free
        refine ⟨fun other inside rule ruled => ?_, fun other inside none_ => ?_⟩
        · obtain ⟨cfg, addr⟩ := registers other inside
          by_cases here : other = call.regIdx.toNat
          · subst here
            rw [Function.update_self] at ruled
            obtain rfl := Option.some.inj ruled
            rw [if_pos ⟨rfl, free⟩] at cfg addr
            exact ⟨cfg, addr, not_lt.mp large, (log2roundup_spec call.size).1⟩
          · rw [Function.update_of_ne here] at ruled
            rw [if_neg fun both => here both.1] at cfg addr
            rw [cfg, addr]
            exact enforces.ruled other inside rule ruled
        · obtain ⟨cfg, _⟩ := registers other inside
          by_cases here : other = call.regIdx.toNat
          · subst here
            rw [Function.update_self] at none_
            cases none_
          · rw [Function.update_of_ne here] at none_
            rw [if_neg fun both => here both.1] at cfg
            rw [PmpCsrs.mode, PmpCsrs.locked, cfg]
            exact enforces.off other inside none_

end Enforces

/-- So do any calls. -/
theorem Enforces.calls {csrs : PmpCsrs} {rules : PmpRules} (enforces : Enforces csrs rules)
    {calls : List PmpCall} (natural : ∀ call ∈ calls, 0 ≤ call.regIdx.toInt) :
    (runPmpCalls PmpCall.run calls csrs).1 = (runPmpCalls PmpCall.apply calls rules).1 ∧
      Enforces (runPmpCalls PmpCall.run calls csrs).2
        (runPmpCalls PmpCall.apply calls rules).2 := by
  induction calls generalizing csrs rules with
  | nil => exact ⟨rfl, enforces⟩
  | cons call rest ih =>
    obtain ⟨first, others⟩ := List.forall_mem_cons.mp natural
    obtain ⟨returned, after⟩ := enforces.call call first
    obtain ⟨same, final⟩ := ih after others
    exact ⟨congrArg₂ List.cons returned same, final⟩

/-! ### From reset -/

end Benos
