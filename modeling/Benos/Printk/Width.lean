import Mathlib.Algebra.Group.Nat.Defs
import Mathlib.Data.Nat.Digits.Lemmas
import Benos.Printk.Format

/-! How many characters a directive writes, told from its arguments before anything is written. -/

namespace Benos

/-! ### Counting down -/

/-- What an `int` holds of a number. -/
def wrapInt (n : Int) : Int := (n + 0x80000000) % 0x100000000 - 0x80000000

/--
How often so many loops in a row run over one counter.

Each counts one below its end: past the least `int` the next one starts at the greatest.
-/
def countdown (loops : Nat) (n : Int) : Int :=
  if n + 0x80000001 < loops then 0x7fffffff else max 0 n

theorem countdown_nonneg (loops : Nat) (n : Int) : 0 ≤ countdown loops n := by
  rw [countdown]
  split <;> omega

theorem toInt_bounds (n : BitVec 32) : -0x80000000 ≤ n.toInt ∧ n.toInt < 0x80000000 :=
  ⟨BitVec.le_toInt n, BitVec.toInt_lt⟩

theorem toInt_ofInt (n : Int) : (BitVec.ofInt 32 n).toInt = wrapInt n := by
  rw [BitVec.toInt_ofInt, Int.bmod_def, wrapInt]
  omega

theorem toInt_ofNat (n : Nat) : (BitVec.ofNat 32 n).toInt = wrapInt n := by
  rw [← BitVec.ofInt_natCast, toInt_ofInt]

theorem toInt_sub (a b : BitVec 32) : (a - b).toInt = wrapInt (a.toInt - b.toInt) := by
  rw [BitVec.toInt_sub, Int.bmod_def, wrapInt]
  omega

/-- What a number has lost to an `int` does not matter to a later difference. -/
theorem wrapInt_sub (m n : Int) : wrapInt (wrapInt m - n) = wrapInt (m - n) := by
  simp only [wrapInt]
  omega

/-- An `int` holds a number in its range. -/
theorem wrapInt_of_fits {n : Int} (low : -0x80000000 ≤ n) (high : n < 0x80000000) :
    wrapInt n = n := by
  rw [wrapInt]
  omega

/-- What a loop leaves in its counter. -/
theorem postDown_toInt (n : BitVec 32) :
    (postDown n).2.toInt = wrapInt ((if 0 < n.toInt then 0 else n.toInt) - 1) := by
  rw [postDown, toInt_sub]
  split <;> rfl

/-- One loop runs as often as its counter says. -/
theorem postDown_once (n : BitVec 32) : ((postDown n).1 : Int) = countdown 1 n.toInt := by
  have range := toInt_bounds n
  rw [postDown, countdown]
  omega

/-- Of two loops the second begins where the first has left the counter. -/
theorem postDown_twice (n : BitVec 32) :
    ((postDown n).1 + (postDown (postDown n).2).1 : Int) = countdown 2 n.toInt := by
  have range := toInt_bounds n
  rw [postDown_once (postDown n).2, postDown_toInt]
  simp only [postDown, countdown, wrapInt]
  omega

/-- So does the third. -/
theorem postDown_thrice (n : BitVec 32) :
    ((postDown n).1 + (postDown (postDown n).2).1 + (postDown (postDown (postDown n).2).2).1 : Int) =
      countdown 3 n.toInt := by
  have range := toInt_bounds n
  rw [add_assoc, postDown_twice (postDown n).2, postDown_toInt]
  simp only [postDown, countdown, wrapInt]
  omega

/-! ### Numbers -/

/-- How many digits a number has in a base; zero has one. -/
def digitCount (base num : Nat) : Nat := Nat.log base num + 1

/-- A base that is large enough for digits, as a word. -/
theorem ofInt_base {base : Int} (low : 2 ≤ base) (high : base ≤ 36) :
    (BitVec.ofInt 64 base).toNat = base.toNat := by
  rw [BitVec.toNat_ofInt]
  omega

/-- Repeated division finds the digits of a number, the last one first. -/
theorem divLoop_eq (small : Bool) {base : U64} (low : 2 ≤ base.toNat) {rounds : Nat}
    {num : U64} (enough : num.toNat < 2 ^ rounds) :
    divLoop small base rounds num = (Nat.digits base.toNat num.toNat).map (digit small) := by
  induction rounds generalizing num with
  | zero =>
    rw [Nat.lt_one_iff.mp enough, Nat.digits_zero]
    rfl
  | succ rounds ih =>
    rw [divLoop]
    by_cases zero : num = 0
    · have none : Nat.digits base.toNat (0 : U64).toNat = [] := Nat.digits_zero _
      rw [if_pos zero, zero, none]
      rfl
    · have positive : 0 < num.toNat :=
        Nat.pos_of_ne_zero fun none => zero (BitVec.eq_of_toNat_eq (y := 0) none)
      -- Every round takes at least one binary digit off the number.
      have halved : (num / base).toNat < 2 ^ rounds := by
        rw [BitVec.toNat_udiv]
        refine Nat.div_lt_of_lt_mul (Nat.lt_of_lt_of_le enough ?_)
        rw [Nat.pow_succ']
        exact Nat.mul_le_mul_right _ low
      rw [if_neg zero, ih halved, Nat.digits_def' low positive, List.map_cons, BitVec.toNat_udiv,
        BitVec.toNat_umod]

/-- There are as many of them as the logarithm says. -/
theorem divLoop_length (small : Bool) {base : U64} (low : 2 ≤ base.toNat) {rounds : Nat}
    {num : U64} (enough : num.toNat < 2 ^ rounds) (nonzero : num ≠ 0) :
    (divLoop small base rounds num).length = digitCount base.toNat num.toNat := by
  have positive : num.toNat ≠ 0 := fun none => nonzero (BitVec.eq_of_toNat_eq (y := 0) none)
  rw [divLoop_eq small low enough, List.length_map, Nat.length_digits _ _ low positive, digitCount]

/-- The number whose digits are written: without its sign, if it is written as a signed one. -/
def magnitude (num : U64) (type : Flags) : U64 :=
  if type.sign ∧ num.toInt < 0 then -num else num

/-- The minus sign, which `number` does not count. -/
def minusCount (num : U64) (type : Flags) : Nat :=
  if type.sign ∧ num.toInt < 0 then 1 else 0

/-- A plus or a blank in its place, which `number` counts. -/
def plusCount (num : U64) (type : Flags) : Nat :=
  if type.sign ∧ ¬ num.toInt < 0 ∧ (type.plus ∨ type.space) then 1 else 0

/-- The mark of the base. -/
def markCount (base : Int) (type : Flags) : Nat :=
  if type.special then if base = 16 then 2 else if base = 8 then 1 else 0 else 0

/-- How many loops count the width down. -/
def widthLoops (type : Flags) : Nat := if type.left then 1 else if type.zeropad then 2 else 3

/-- The mark of the base and the digits, as many as the precision asks for. -/
def digitsLength (num : U64) (base : Int) (precision : BitVec 32) (type : Flags) : Int :=
  markCount base type + max precision.toInt (digitCount base.toNat num.toNat)

/-- What the width leaves besides the parts that `number` counts. -/
def spareWidth (num : U64) (base : Int) (size precision : BitVec 32) (type : Flags) : Int :=
  size.toInt - (plusCount num type + digitsLength (magnitude num type) base precision type)

/-- What `number` writes: its parts, and as much as the width is counted down. -/
def numberLength (num : U64) (base : Int) (size precision : BitVec 32) (type : Flags) : Int :=
  minusCount num type + plusCount num type + digitsLength (magnitude num type) base precision type +
    countdown (widthLoops type) (wrapInt (spareWidth num base size precision type))

/-- The sign that `number` writes, the number it goes on with, and the width left for it. -/
def numberSign (num : U64) (size : BitVec 32) (type : Flags) : Option Char8 × U64 × BitVec 32 :=
  if type.sign then
    if num.toInt < 0 then (some (ch '-'), -num, size)
    else if type.plus then (some (ch '+'), num, size - 1)
    else if type.space then (some (ch ' '), num, size - 1)
    else (none, num, size)
  else (none, num, size)

/-- What `number` writes behind its sign, and around it. -/
def numberText (base : Int) (precision : BitVec 32) (type : Flags) (sign : Option Char8) (num : U64)
    (size : BitVec 32) : List Char8 :=
  let c := if type.zeropad then ch '0' else ch ' '
  let size := if type.special then
      if base = 16 then size - 2 else if base = 8 then size - 1 else size
    else size
  let tmp := if num = 0 then [ch '0'] else divLoop type.small (BitVec.ofInt 64 base) 64 num
  let i := BitVec.ofNat 32 tmp.length
  let precision := if precision.toInt < i.toInt then i else precision
  let size := size - precision
  let (spaces, size) :=
    if type.zeropad || type.left then ([], size)
    else (fill (ch ' ') (postDown size).1, (postDown size).2)
  let mark :=
    if type.special then
      if base = 8 then [ch '0']
      else if base = 16 then [ch '0', digit type.small 33]
      else []
    else []
  let (padding, size) :=
    if type.left then ([], size) else (fill c (postDown size).1, (postDown size).2)
  let zeros := fill (ch '0') (downTo i precision).1
  spaces ++ sign.toList ++ mark ++ padding ++ zeros ++ tmp.reverse ++
    fill (ch ' ') (postDown size).1

/-- `number` in these two parts. -/
theorem number_eq (num : U64) (base : Int) (size precision : BitVec 32) (type : Flags) :
    number num base size precision type =
      let type' := if type.left then { type with zeropad := false } else type
      if base < 2 ∨ 36 < base then none
      else some (numberText base precision type' (numberSign num size type').1
        (numberSign num size type').2.1 (numberSign num size type').2.2) := rfl

@[simp] theorem fill_length (c : Char8) (times : Nat) : (fill c times).length = times :=
  List.length_replicate

/-- The digits of a number in a base there are digits for. -/
theorem digits_length {base : Int} (low : 2 ≤ base) (high : base ≤ 36) (small : Bool) (num : U64) :
    (if num = 0 then [ch '0'] else divLoop small (BitVec.ofInt 64 base) 64 num).length =
      digitCount base.toNat num.toNat := by
  -- The loop is entered for a number other than zero only.
  by_cases zero : num = 0
  · rw [if_pos zero, zero]
    show 1 = Nat.log base.toNat 0 + 1
    rw [Nat.log_zero_right]
  · rw [if_neg zero, divLoop_length small (by rw [ofInt_base low high]; omega) num.isLt zero,
      ofInt_base low high]

/-- A number has 64 digits at most. -/
theorem digitCount_le {base : Nat} (low : 2 ≤ base) (num : U64) : digitCount base num.toNat ≤ 64 := by
  have few := Nat.log_lt_of_lt_pow' (b := base) (x := 64) (by decide)
    (Nat.lt_of_lt_of_le num.isLt (Nat.pow_le_pow_left low 64))
  rw [digitCount]
  omega

/-- The mark of the base is taken off the width. -/
theorem size_sub_mark (base : Int) (size : BitVec 32) (type : Flags) :
    (if type.special = true then if base = 16 then size - 2 else if base = 8 then size - 1 else size
      else size) = size - BitVec.ofNat 32 (markCount base type) := by
  rw [markCount]
  split
  · split
    · rfl
    · split
      · rfl
      · exact (BitVec.sub_zero size).symm
  · exact (BitVec.sub_zero size).symm

/-- The number of digits, in an `int`. -/
def digitsInt (base : Int) (num : U64) : BitVec 32 := BitVec.ofNat 32 (digitCount base.toNat num.toNat)

/-- The precision that `number` goes on with. -/
def precisionTaken (base : Int) (precision : BitVec 32) (num : U64) : BitVec 32 :=
  if precision.toInt < (digitsInt base num).toInt then digitsInt base num else precision

/-- What is left of the width when mark and digits are counted. -/
def widthLeft (base : Int) (size precision : BitVec 32) (type : Flags) (num : U64) : BitVec 32 :=
  size - BitVec.ofNat 32 (markCount base type) - precisionTaken base precision num

theorem digitsInt_toInt {base : Int} (low : 2 ≤ base) (num : U64) :
    (digitsInt base num).toInt = digitCount base.toNat num.toNat := by
  have few := digitCount_le (show 2 ≤ base.toNat by omega) num
  rw [digitsInt, toInt_ofNat, wrapInt_of_fits (by omega) (by omega)]

/-- It is the number of digits at least. -/
theorem precisionTaken_toInt {base : Int} (low : 2 ≤ base) (precision : BitVec 32) (num : U64) :
    (precisionTaken base precision num).toInt =
      max precision.toInt (digitCount base.toNat num.toNat) := by
  have count := digitsInt_toInt low num
  rw [precisionTaken]
  split <;> omega

theorem widthLeft_toInt {base : Int} (low : 2 ≤ base) (size precision : BitVec 32) (type : Flags)
    (num : U64) : (widthLeft base size precision type num).toInt =
      wrapInt (size.toInt - digitsLength num base precision type) := by
  have mark : wrapInt (markCount base type) = markCount base type := by
    rw [markCount]
    split_ifs <;> rfl
  rw [widthLeft, toInt_sub, toInt_sub, toInt_ofNat, mark, precisionTaken_toInt low, wrapInt_sub,
    digitsLength, Int.sub_sub]

/-- However the blanks and zeros are placed, they are as many as the width is counted down. -/
theorem numberText_length {base : Int} (low : 2 ≤ base) (high : base ≤ 36) (precision : BitVec 32)
    (type : Flags) (sign : Option Char8) (num : U64) (size : BitVec 32) :
    ((numberText base precision type sign num size).length : Int) =
      sign.toList.length + digitsLength num base precision type +
        countdown (widthLoops type) (widthLeft base size precision type num).toInt := by
  have digits := digits_length low high type.small num
  have taken : (if precision.toInt < (BitVec.ofNat 32 (digitCount base.toNat num.toNat)).toInt then
      BitVec.ofNat 32 (digitCount base.toNat num.toNat) else precision) =
      precisionTaken base precision num := rfl
  have count : BitVec.ofNat 32 (digitCount base.toNat num.toNat) = digitsInt base num := rfl
  have width : size - BitVec.ofNat 32 (markCount base type) - precisionTaken base precision num =
      widthLeft base size precision type num := rfl
  simp only [numberText, List.length_append, List.length_reverse, fill_length, digits,
    size_sub_mark, taken, width]
  simp only [count, downTo, precisionTaken_toInt low, digitsInt_toInt low, digitsLength]
  generalize widthLeft base size precision type num = width
  -- The mark has the length that was taken off for it.
  have marked : (if type.special = true then if base = 8 then [ch '0'] else if base = 16 then
      [ch '0', digit type.small 33] else [] else [] : List Char8).length = markCount base type := by
    rw [markCount]
    split
    · by_cases octal : base = 8
      · subst octal
        rfl
      · by_cases hex : base = 16
        · subst hex
          rfl
        · simp only [octal, hex, if_false, List.length_nil]
    · rfl
  rw [marked, widthLoops]
  -- The width is filled before the sign, between the mark and the digits, or behind them.
  cases type.left
  · cases type.zeropad
    · have all := postDown_thrice width
      simp only [Bool.or_self, Bool.false_eq_true, if_false, fill_length]
      push_cast
      omega
    · have all := postDown_twice width
      simp only [Bool.or_false, if_true, Bool.false_eq_true, if_false, fill_length, List.length_nil]
      push_cast
      omega
  · have all := postDown_once width
    simp only [Bool.or_true, if_true, List.length_nil]
    push_cast
    omega

/-- `number` writes nothing but for a base it has digits for. -/
theorem number_none_iff (num : U64) (base : Int) (size precision : BitVec 32) (type : Flags) :
    number num base size precision type = none ↔ base < 2 ∨ 36 < base := by
  rw [number_eq]
  dsimp only
  -- The only early return is the one for the base.
  split
  · exact iff_of_true rfl ‹_›
  · exact iff_of_false (by simp) ‹_›

/-- A sign other than the minus is counted. -/
theorem numberSign_counts (num : U64) (size : BitVec 32) (type : Flags) :
    (numberSign num size type).1.toList.length = minusCount num type + plusCount num type ∧
      (numberSign num size type).2.1 = magnitude num type ∧
      (numberSign num size type).2.2 = size - BitVec.ofNat 32 (plusCount num type) := by
  rw [minusCount, plusCount, magnitude, numberSign]
  by_cases signed : type.sign = true
  · by_cases negative : num.toInt < 0
    · simp [signed, negative]
    · by_cases plus : type.plus = true
      · simp [signed, negative, plus]
      · by_cases space : type.space = true
        · simp [signed, negative, plus, space]
        · simp [signed, negative, plus, space]
  · simp [signed]

/-- What `number` leaves of the width, as its `int` holds it. -/
theorem widthLeft_numberSign (num : U64) {base : Int} (low : 2 ≤ base) (size precision : BitVec 32)
    (type : Flags) : (widthLeft base (numberSign num size type).2.2 precision type
      (numberSign num size type).2.1).toInt =
        wrapInt (spareWidth num base size precision type) := by
  obtain ⟨-, shown, width⟩ := numberSign_counts num size type
  have plus : wrapInt (plusCount num type) = plusCount num type := by
    rw [plusCount]
    split <;> rfl
  rw [widthLeft_toInt low, shown, width, toInt_sub, toInt_ofNat, plus, wrapInt_sub, spareWidth,
    Int.sub_sub]

/-- What `number` writes is as long as its arguments say. -/
theorem number_length {num : U64} {base : Int} {size precision : BitVec 32} {type : Flags}
    {text : List Char8} (written : number num base size precision type = some text) :
    (text.length : Int) = numberLength num base size precision type := by
  have served : ¬ (base < 2 ∨ 36 < base) := by
    rw [← number_none_iff num base size precision type, written]
    exact Option.some_ne_none _
  rw [number_eq] at written
  dsimp only at written
  rw [if_neg served, Option.some_inj] at written
  -- Left justification takes back the flag for zeros only, which then does not matter.
  have same : numberLength num base size precision
      (if type.left then { type with zeropad := false } else type) =
        numberLength num base size precision type := by
    cases left : type.left
    · rfl
    · simp only [numberLength, widthLoops, left, if_true]
      rfl
  rw [← same, ← written, numberText_length (by omega) (by omega), widthLeft_numberSign _ (by omega),
    (numberSign_counts _ _ _).1, (numberSign_counts _ _ _).2.1, numberLength]
  push_cast
  rfl

/-! ### Characters and strings -/

/-- How many loops write blanks around a character or a string. -/
def blankLoops (left : Bool) : Nat := if left then 1 else 2

/-- What the `c` conversion writes. -/
def charLength (width : BitVec 32) (left : Bool) : Int :=
  1 + countdown (blankLoops left) (wrapInt (width.toInt - 1))

theorem formatChar_length (d : Directive) (arg : U64) :
    ((formatChar d arg).length : Int) = charLength d.fieldWidth d.flags.left := by
  have one : (1 : BitVec 32).toInt = 1 := rfl
  have zero : (0 : BitVec 32).toInt = 0 := rfl
  have first := toInt_sub d.fieldWidth 1
  rw [one] at first
  have range := toInt_bounds (d.fieldWidth - 1)
  simp only [formatChar, charLength, blankLoops, preDown, List.length_append, fill_length,
    List.length_singleton, ← first]
  -- The blanks are written on one side or on the other.
  cases d.flags.left
  · simp only [Bool.false_eq_true, if_false, countdown]
    generalize d.fieldWidth - 1 = n at range ⊢
    rw [toInt_sub, one]
    split
    · simp only [zero, wrapInt]
      omega
    · simp only [wrapInt]
      omega
  · simp only [if_true, countdown]
    omega

/-- How much the `s` conversion takes of a string: no more than its precision. -/
def stringPart (precision : BitVec 32) (length : Nat) : Int :=
  if precision.toInt < 0 then wrapInt length else min precision.toInt (wrapInt length)

/--
What the `s` conversion writes of a string.

Counting from the least `int` on passes it, and the second loop starts at the greatest.
-/
def stringLength (width precision : BitVec 32) (length : Nat) (left : Bool) : Int :=
  max 0 (stringPart precision length) + max 0 (width.toInt - stringPart precision length) +
    if left = false ∧ min width.toInt (stringPart precision length) = -0x80000000 then
      0x7fffffff - stringPart precision length else 0

theorem formatString_length (strings : U64 → List Char8) (d : Directive) (arg : U64) :
    ((formatString strings d arg).length : Int) = stringLength d.fieldWidth d.precision
      (if arg = 0 then nullText else strings arg).length d.flags.left := by
  have one : (1 : BitVec 32).toInt = 1 := rfl
  simp only [formatString, stringLength, downTo, List.length_append, fill_length, List.length_take]
  generalize (if arg = 0 then nullText else strings arg).length = length
  have part : (if d.precision.toInt < 0 then BitVec.ofNat 32 length else
      if d.precision.toInt < (BitVec.ofNat 32 length).toInt then d.precision
      else BitVec.ofNat 32 length).toInt = stringPart d.precision length := by
    have whole := toInt_ofNat length
    rw [stringPart]
    split_ifs <;> omega
  have short : stringPart d.precision length ≤ length := by
    simp only [stringPart, wrapInt]
    split <;> omega
  generalize (if d.precision.toInt < 0 then BitVec.ofNat 32 length else
      if d.precision.toInt < (BitVec.ofNat 32 length).toInt then d.precision
      else BitVec.ofNat 32 length) = len at part ⊢
  rw [← part] at short ⊢
  have lenRange := toInt_bounds len
  have widthRange := toInt_bounds d.fieldWidth
  -- Again the blanks are all on one side.
  cases d.flags.left
  · simp only [Bool.false_eq_true, if_false, true_and]
    rw [toInt_sub, one]
    by_cases wide : len.toInt < d.fieldWidth.toInt
    · simp only [wide, if_true, wrapInt]
      split <;> omega
    · simp only [wide, if_false, wrapInt]
      split <;> omega
  · simp only [if_true, Bool.true_eq_false, false_and, if_false]
    omega

end Benos
