import Benos.Machine.Memory
import Benos.Printk.Log

/-! The characters that `number` of `printk.c` writes. -/

namespace Benos

/-- A character of the source's own text. -/
def ch (c : Char) : Char8 := BitVec.ofNat 8 c.toNat

/-- The bits of `flags`. -/
structure Flags where
  zeropad : Bool := false
  sign : Bool := false
  plus : Bool := false
  space : Bool := false
  left : Bool := false
  special : Bool := false
  small : Bool := false
  deriving DecidableEq

/-- `while (n-- > 0)` over an `int`: how often it runs, and what it leaves in the variable. -/
def postDown (n : BitVec 32) : Nat × BitVec 32 := (n.toInt.toNat, (if 0 < n.toInt then 0 else n) - 1)

/-- `while (least < n--)`: how often it runs, and what it leaves in the variable. -/
def downTo (least n : BitVec 32) : Nat × BitVec 32 :=
  ((n.toInt - least.toInt).toNat, (if least.toInt < n.toInt then least else n) - 1)

/-- A character written so often. -/
def fill (c : Char8) (times : Nat) : List Char8 := List.replicate times c

/-- `digits[i]`, in one of its two spellings. -/
def digit (small : Bool) (i : Nat) : Char8 :=
  if i < 10 then ch '0' + BitVec.ofNat 8 i
  else (if small then ch 'a' else ch 'A') + BitVec.ofNat 8 (i - 10)

/-- The loop over `do_div`, the last digit first; 64 rounds empty any number. -/
def divLoop (small : Bool) (base : U64) : Nat → U64 → List Char8
  | 0, _ => []
  | rounds + 1, num =>
    if num = 0 then [] else digit small (num % base).toNat :: divLoop small base rounds (num / base)

/--
`number`, which gives a null pointer for a base it has no digits for.

`size` and `precision` are counted in an `int`, which wraps around.
-/
def number (num : U64) (base : Int) (size precision : BitVec 32) (type : Flags) :
    Option (List Char8) :=
  let type := if type.left then { type with zeropad := false } else type
  if base < 2 ∨ 36 < base then none
  else
    let c := if type.zeropad then ch '0' else ch ' '
    -- A plus sign and a space take a place of the width, a minus sign does not.
    let (sign, num, size) :=
      if type.sign then
        if num.toInt < 0 then (some (ch '-'), -num, size)
        else if type.plus then (some (ch '+'), num, size - 1)
        else if type.space then (some (ch ' '), num, size - 1)
        else (none, num, size)
      else (none, num, size)
    -- The mark of the base takes its places too.
    let size := if type.special then
        if base = 16 then size - 2 else if base = 8 then size - 1 else size
      else size
    let tmp := if num = 0 then [ch '0'] else divLoop type.small (BitVec.ofInt 64 base) 64 num
    let i := BitVec.ofNat 32 tmp.length
    let precision := if precision.toInt < i.toInt then i else precision
    -- What is left of the width is spent by the first of the three loops that runs.
    let size := size - precision
    let (spaces, size) :=
      if type.zeropad || type.left then ([], size)
      else (fill (ch ' ') (postDown size).1, (postDown size).2)
    let mark :=
      if type.special then
        if base = 8 then [ch '0']
        else if base = 16 then [ch '0', digit type.small 33]
        else []
      else []
    let (padding, size) :=
      if type.left then ([], size) else (fill c (postDown size).1, (postDown size).2)
    let zeros := fill (ch '0') (downTo i precision).1
    some (spaces ++ sign.toList ++ mark ++ padding ++ zeros ++ tmp.reverse ++
      fill (ch ' ') (postDown size).1)

/-- A base that `number` has digits for gives a text. -/
theorem number_isSome (num : U64) {base : Int} (size precision : BitVec 32) (type : Flags)
    (low : 2 ≤ base) (high : base ≤ 36) : (number num base size precision type).isSome = true := by
  have served : ¬ (base < 2 ∨ 36 < base) := by omega
  simp only [number]
  rw [if_neg served]
  rfl

end Benos
