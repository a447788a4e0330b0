import Mathlib.Logic.Function.Basic
import Benos.Lib.Napot
import Benos.Machine.Memory

/-!
Physical memory protection: what the registers of the hart mean, and how `sbi_set_pmp` of
`sbi_main.c` sets up one entry. What it prints is left out.
-/

namespace Benos

/-! ### The registers of the hart -/

/-- `CSR_PMPCFG0`. -/
def csrPmpcfg0 : Nat := 0x3a0

/-- `CSR_PMPADDR0`. -/
def csrPmpaddr0 : Nat := 0x3b0

/-- How an entry matches addresses. -/
inductive PmpMode where
  | off | tor | na4 | napot
  deriving DecidableEq

/-- The control registers under their numbers. -/
abbrev PmpCsrs : Type := Nat → U64

namespace PmpCsrs

/-- The configuration byte of an entry; the registers with even numbers hold eight of them each. -/
def cfg (csrs : PmpCsrs) (entry : Nat) : BitVec 8 :=
  (csrs (csrPmpcfg0 + 2 * (entry / 8)) >>> (8 * (entry % 8))).setWidth 8

/-- The address register of an entry, all of its bits. -/
def addr (csrs : PmpCsrs) (entry : Nat) : U64 := csrs (csrPmpaddr0 + entry)

/-- Whether an entry is locked. -/
def locked (csrs : PmpCsrs) (entry : Nat) : Bool := (csrs.cfg entry).getLsbD 7

/-- The address matching mode of an entry. -/
def mode (csrs : PmpCsrs) (entry : Nat) : PmpMode :=
  match (csrs.cfg entry).getLsbD 4, (csrs.cfg entry).getLsbD 3 with
  | false, false => .off
  | false, true => .tor
  | true, false => .na4
  | true, true => .napot

/-- Whether an entry matches the byte at an address; address registers count in units of four. -/
def Matches (csrs : PmpCsrs) (entry address : Nat) : Prop :=
  match csrs.mode entry with
  | .off => False
  | .tor => (if entry = 0 then 0 else 4 * (csrs.addr (entry - 1)).toNat) ≤ address ∧
      address < 4 * (csrs.addr entry).toNat
  | .na4 => address / 4 = (csrs.addr entry).toNat
  | .napot => Napot.Region 64 (csrs.addr entry).toNat (address / 4)

/-- The bytes of a configuration register that its locks protect. -/
def lockedBytes (register : U64) : U64 :=
  (List.range 8).foldl
    (fun mask i => if register.getLsbD (8 * i + 7) then mask ||| (0xff : U64) <<< (8 * i) else mask) 0

/--
`csrw` on a control register. A locked entry keeps its configuration byte and its address register,
and also the address register below it when it matches up to its own.
-/
def csrw (csrs : PmpCsrs) (csr : Nat) (value : U64) : PmpCsrs :=
  if csrPmpaddr0 ≤ csr ∧ csr < csrPmpaddr0 + 64 then
    let entry := csr - csrPmpaddr0
    if csrs.locked entry ∨
        entry + 1 < 64 ∧ csrs.locked (entry + 1) ∧ csrs.mode (entry + 1) = .tor then
      csrs
    else
      Function.update csrs csr value
  else if csrPmpcfg0 ≤ csr ∧ csr < csrPmpcfg0 + 16 then
    -- The bytes of locked entries keep what they hold.
    let kept := lockedBytes (csrs csr)
    Function.update csrs csr ((csrs csr &&& kept) ||| (value &&& ~~~kept))
  else
    Function.update csrs csr value

end PmpCsrs

/-! ### The code -/

/-- The control registers that `read_csr_num` and `write_csr_num` have a case for. -/
def csrNums : List Nat := [0x3a0, 0x3b0, 0x3b1, 0x3b2, 0x3b3, 0x3b4, 0x3b5, 0x3b6, 0x3b7]

/-- `read_csr_num`. -/
def readCsrNum (csrs : PmpCsrs) (csrNum : BitVec 32) : U64 :=
  if csrNum.toNat ∈ csrNums then csrs csrNum.toNat else 0

/-- `write_csr_num`. -/
def writeCsrNum (csrs : PmpCsrs) (csrNum : BitVec 32) (val : U64) : PmpCsrs :=
  if csrNum.toNat ∈ csrNums then csrs.csrw csrNum.toNat val else csrs

/-- The loop of `log2roundup`. -/
def log2roundupFrom (x : U64) (ret : Nat) : Nat :=
  if ret < 64 then
    if x ≤ (1 : U64) <<< ret then ret else log2roundupFrom x (ret + 1)
  else
    ret
termination_by 64 - ret

/-- `log2roundup`; its result is at most sixty-four, whatever the type that holds it. -/
def log2roundup (x : U64) : Nat := log2roundupFrom x 0

/-- `PMP_SHIFT`. -/
def pmpShift : Nat := 2

/-- `PMP_A`. -/
def pmpA : U64 := 0x18

/-- `PMP_A_NA4`. -/
def pmpANa4 : U64 := 0x10

/-- `PMP_A_NAPOT`. -/
def pmpANapot : U64 := 0x18

/-- `PMP_R | PMP_W | PMP_X | PMP_L`. -/
def pmpRwxl : U64 := 0x87

/-- `MAX_CSR_PMP`. -/
def maxCsrPmp : BitVec 32 := 8

/-- The address that `sbi_set_pmp` writes. -/
def pmpaddrOf (start : U64) (order : Nat) : U64 :=
  let pmpaddr := start >>> pmpShift
  if pmpShift < order then
    if order = 64 then
      -1
    else
      -- The ones behind the lowest zero of the address code the size.
      let addrmask := ((1 : U64) <<< (order - pmpShift)) - 1
      (pmpaddr &&& ~~~addrmask) ||| (addrmask >>> 1)
  else
    pmpaddr

/-- The configuration register that `sbi_set_pmp` writes, from what it held. -/
def pmpcfgOf (held prot : U64) (order : Nat) (pmpcfgShift : BitVec 32) : U64 :=
  let prot := (prot &&& ~~~pmpA) ||| (if order = pmpShift then pmpANa4 else pmpANapot)
  let cfgmask : U64 := ~~~((0xff : U64) <<< pmpcfgShift)
  (held &&& cfgmask) ||| ((prot <<< pmpcfgShift) &&& ~~~cfgmask)

/-- `sbi_set_pmp`. -/
def sbiSetPmp (csrs : PmpCsrs) (regIdx : BitVec 32) (start size prot : U64) : Int × PmpCsrs :=
  -- `reg_idx > MAX_CSR_PMP`, as signed numbers.
  if maxCsrPmp.slt regIdx then
    (-1, csrs)
  else
    let order := log2roundup size
    if order < pmpShift then
      (-1, csrs)
    else
      -- Eight entries share a register, and only those with even numbers exist.
      let pmpcfgCsr : BitVec 32 := (0x3a0 + regIdx.sshiftRight 2) &&& ~~~1
      let pmpcfgShift : BitVec 32 := (regIdx &&& 7) <<< 3
      let pmpaddrCsr : BitVec 32 := 0x3b0 + regIdx
      let pmpcfg := pmpcfgOf (readCsrNum csrs pmpcfgCsr) prot order pmpcfgShift
      (0, writeCsrNum (writeCsrNum csrs pmpaddrCsr (pmpaddrOf start order)) pmpcfgCsr pmpcfg)

end Benos
