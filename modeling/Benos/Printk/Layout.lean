import Benos.Printk.Width

/-! The text of a number taken apart again, and how wide it is. -/

namespace Benos

/-! ### Reading digits back -/

/-- The value of a digit, in either of its two spellings. -/
def digitValue (c : Char8) : Option Nat :=
  if ch '0' ≤ c ∧ c ≤ ch '9' then some (c - ch '0').toNat
  else if ch 'A' ≤ c ∧ c ≤ ch 'Z' then some ((c - ch 'A').toNat + 10)
  else if ch 'a' ≤ c ∧ c ≤ ch 'z' then some ((c - ch 'a').toNat + 10)
  else none

/-- Reading digits of a base from the first one on, behind those that have this value. -/
def readDigits (base value : Nat) : List Char8 → Option Nat
  | [] => some value
  | c :: rest =>
    match digitValue c with
    | some d => if d < base then readDigits base (base * value + d) rest else none
    | none => none

/-- A digit is read as what it was written for. -/
theorem digitValue_digit (small : Bool) {d : Nat} (inside : d < 36) :
    digitValue (digit small d) = some d := by
  -- Thirty-six digits in two spellings.
  have all : ∀ small : Bool, ∀ d : Fin 36, digitValue (digit small d) = some (d : Nat) := by decide
  exact all small ⟨d, inside⟩

/-- Digits are read as the number that they are the digits of. -/
theorem readDigits_digits (small : Bool) {base : Nat} (high : base ≤ 36) (value : Nat)
    {digits : List Nat} (inside : ∀ d ∈ digits, d < base) :
    readDigits base value (digits.map (digit small)) =
      some (Nat.ofDigits base digits.reverse + base ^ digits.length * value) := by
  -- Each digit moves the ones before it up by one place.
  induction digits generalizing value with
  | nil => simp [readDigits]
  | cons d rest ih =>
    have here : d < base := inside d List.mem_cons_self
    have others : ∀ e ∈ rest, e < base := fun e member => inside e (List.mem_cons_of_mem d member)
    rw [List.map_cons, readDigits, digitValue_digit small (Nat.lt_of_lt_of_le here high)]
    dsimp only
    rw [if_pos here, ih _ others, Nat.ofDigits_reverse_cons, List.length_cons, Nat.pow_succ]
    congr 1
    ring

/-- The digits that `number` writes, the last one first; zero has one. -/
def digitList (base num : Nat) : List Nat := if num = 0 then [0] else Nat.digits base num

/-- What is in `tmp` are these digits. -/
theorem tmp_eq {base : Int} (low : 2 ≤ base) (high : base ≤ 36) (small : Bool) (num : U64) :
    (if num = 0 then [ch '0'] else divLoop small (BitVec.ofInt 64 base) 64 num) =
      (digitList base.toNat num.toNat).map (digit small) := by
  have served := ofInt_base low high
  rw [digitList]
  by_cases zero : num = 0
  · -- The one digit of zero is not found by dividing.
    subst zero
    cases small <;> rfl
  · have positive : num.toNat ≠ 0 := fun none => zero (BitVec.eq_of_toNat_eq (y := 0) none)
    rw [if_neg zero, if_neg positive, divLoop_eq small (by rw [served]; omega) num.isLt, served]

/-- Zeros and digits are read as the number. -/
theorem readDigits_number (small : Bool) {base : Nat} (low : 2 ≤ base) (high : base ≤ 36)
    (zeros num : Nat) :
    readDigits base 0 (fill (ch '0') zeros ++ ((digitList base num).map (digit small)).reverse) =
      some num := by
  -- A zero in front is one more digit.
  have front : fill (ch '0') zeros = (List.replicate zeros 0).map (digit small) := by
    rw [List.map_replicate]
    cases small <;> rfl
  -- All of them are digits of the base.
  have inside : ∀ d ∈ List.replicate zeros 0 ++ (digitList base num).reverse, d < base := by
    intro d member
    rcases List.mem_append.mp member with zero | written
    · rw [List.eq_of_mem_replicate zero]
      omega
    · rw [List.mem_reverse, digitList] at written
      split at written
      · rw [List.mem_singleton.mp written]
        omega
      · exact Nat.digits_lt_base low written
  -- Without zeros the digits are those of Mathlib, or the zero.
  have number : Nat.ofDigits base (digitList base num) = num := by
    rw [digitList]
    split
    · simp [*]
    · exact Nat.ofDigits_digits base num
  rw [front, ← List.map_reverse, ← List.map_append, readDigits_digits small high 0 inside,
    List.reverse_append, List.reverse_reverse, List.reverse_replicate,
    Nat.ofDigits_append_replicate_zero, number, Nat.mul_zero, Nat.add_zero]

/-! ### The parts of a text -/

/-- The parts of the text of a number, in their order. -/
structure NumberLayout where
  leading : Nat
  sign : Option Char8
  mark : List Char8
  zeros : Nat
  digits : List Char8
  trailing : Nat

/-- The text that has these parts. -/
def NumberLayout.text (layout : NumberLayout) : List Char8 :=
  fill (ch ' ') layout.leading ++ layout.sign.toList ++ layout.mark ++
    fill (ch '0') layout.zeros ++ layout.digits ++ fill (ch ' ') layout.trailing

/-- The number that the digits of a text stand for. -/
def shownValue (num : U64) (type : Flags) : Nat :=
  if type.sign then num.toInt.natAbs else num.toNat

/-- The sign in front of a number. -/
def signChar (num : U64) (type : Flags) : Option Char8 :=
  if type.sign then
    if num.toInt < 0 then some (ch '-')
    else if type.plus then some (ch '+')
    else if type.space then some (ch ' ')
    else none
  else none

/-- The mark of a base in front of a number. -/
def markChars (base : Int) (type : Flags) : List Char8 :=
  if type.special then
    if base = 8 then [ch '0']
    else if base = 16 then if type.small then [ch '0', ch 'x'] else [ch '0', ch 'X']
    else []
  else []

/-- The parts show a number as its flags, its width and its precision ask for. -/
structure NumberLayout.Shows (layout : NumberLayout) (num : U64) (base : Int)
    (precision : BitVec 32) (type : Flags) : Prop where
  value : readDigits base.toNat 0 (fill (ch '0') layout.zeros ++ layout.digits) =
    some (shownValue num type)
  sign : layout.sign = signChar num type
  mark : layout.mark = markChars base type
  /-- None of the zeros is among the digits. -/
  shortest : layout.digits.length = digitCount base.toNat (shownValue num type)
  precise : precision.toInt ≤ layout.zeros + layout.digits.length
  trailing : 0 < layout.trailing → type.left
  leading : 0 < layout.leading → ¬ type.left ∧ ¬ type.zeropad
  zeros : 0 < layout.zeros → precision.toInt < layout.zeros + layout.digits.length →
    type.zeropad ∧ ¬ type.left

/--
No loop goes on counting the width below the least `int`.

It is so for every width from -1 on unless the precision is one of the greatest.
-/
def Counted (num : U64) (base : Int) (size precision : BitVec 32) (type : Flags) : Prop :=
  widthLoops type ≤ spareWidth num base size precision type + 0x80000001

/-- The parts that `number` writes, from the sign, the number and the width it goes on with. -/
def numberLayout (base : Int) (precision : BitVec 32) (type : Flags) (sign : Option Char8) (num : U64)
    (size : BitVec 32) : NumberLayout where
  leading := if type.zeropad || type.left then 0
    else (widthLeft base size precision type num).toInt.toNat
  sign := sign
  mark := markChars base type
  zeros := (if type.zeropad && !type.left then (widthLeft base size precision type num).toInt.toNat
    else 0) + (precision.toInt - digitCount base.toNat num.toNat).toNat
  digits := ((digitList base.toNat num.toNat).map (digit type.small)).reverse
  trailing := if type.left then (widthLeft base size precision type num).toInt.toNat else 0

/-- While nothing is counted below the least `int`, the first loop over a width runs alone. -/
theorem postDown_alone {n : BitVec 32} (two : 2 ≤ n.toInt + 0x80000001) :
    (postDown (postDown n).2).1 = 0 ∧
      (3 ≤ n.toInt + 0x80000001 → (postDown (postDown (postDown n).2).2).1 = 0) := by
  have once := postDown_once n
  have twice := postDown_twice n
  have thrice := postDown_thrice n
  simp only [countdown] at once twice thrice
  constructor
  · omega
  · intro three
    omega

/-- What `number` writes behind and around its sign has these parts. -/
theorem numberText_eq {base : Int} (low : 2 ≤ base) (high : base ≤ 36) (precision : BitVec 32)
    (type : Flags) (sign : Option Char8) (num : U64) (size : BitVec 32)
    (counted : widthLoops type ≤ (widthLeft base size precision type num).toInt + 0x80000001) :
    numberText base precision type sign num size =
      (numberLayout base precision type sign num size).text := by
  have length : ((digitList base.toNat num.toNat).map (digit type.small)).length =
      digitCount base.toNat num.toNat := by
    rw [← tmp_eq low high]
    exact digits_length low high type.small num
  -- Sixteen and eight are told apart in the other order here, which is the same.
  have mark : (if type.special = true then if base = 8 then [ch '0'] else if base = 16 then
      [ch '0', digit type.small 33] else [] else [] : List Char8) = markChars base type := by
    rw [markChars]
    cases type.small <;> rfl
  have taken : (if precision.toInt < (digitsInt base num).toInt then digitsInt base num
      else precision) = precisionTaken base precision num := rfl
  have count : BitVec.ofNat 32 (digitCount base.toNat num.toNat) = digitsInt base num := rfl
  have width : size - BitVec.ofNat 32 (markCount base type) - precisionTaken base precision num =
      widthLeft base size precision type num := rfl
  -- A precision below the number of digits adds no zeros.
  have zeros : (downTo (digitsInt base num) (precisionTaken base precision num)).1 =
      (precision.toInt - digitCount base.toNat num.toNat).toNat := by
    rw [downTo, precisionTaken_toInt low, digitsInt_toInt low]
    dsimp only
    omega
  simp only [numberText, tmp_eq low high, length, mark, size_sub_mark, count, taken, width, zeros,
    NumberLayout.text, numberLayout]
  generalize widthLeft base size precision type num = width at counted ⊢
  have first : (postDown width).1 = width.toInt.toNat := rfl
  rw [widthLoops] at counted
  -- The loop that spends the width leaves nothing to the ones behind it.
  cases left : type.left
  · rw [left, if_neg Bool.false_ne_true] at counted
    cases pad : type.zeropad
    · rw [pad, if_neg Bool.false_ne_true] at counted
      obtain ⟨second, third⟩ := postDown_alone (n := width) (by omega)
      simp [first, second, third (by omega), fill]
    · rw [pad, if_pos rfl] at counted
      obtain ⟨second, -⟩ := postDown_alone (n := width) (by omega)
      simp [first, second, fill]
  · simp [first, fill]

/-- The magnitude of a negative word is that of its number, the most negative one included. -/
theorem neg_toNat_eq_natAbs {num : U64} (negative : num.toInt < 0) :
    (-num).toNat = num.toInt.natAbs := by
  -- The most negative number is its own negation, and its magnitude fits into the word.
  have word := BitVec.toInt_eq_toNat_cond num
  have small := num.isLt
  rw [BitVec.toNat_neg]
  split at word <;> omega

/-- Any other word is read as the number that it is. -/
theorem toNat_eq_natAbs {num : U64} (positive : ¬ num.toInt < 0) :
    num.toNat = num.toInt.natAbs := by
  have word := BitVec.toInt_eq_toNat_cond num
  have small := num.isLt
  split at word <;> omega

/-- The sign and the number that `number` goes on with, told from its arguments. -/
theorem numberSign_eq (num : U64) (size : BitVec 32) (type : Flags) :
    (numberSign num size type).1 = signChar num type ∧
      (numberSign num size type).2.1.toNat = shownValue num type := by
  rw [numberSign, signChar, shownValue]
  by_cases signed : type.sign = true
  · rw [if_pos signed, if_pos signed, if_pos signed]
    -- Below zero the number is negated, otherwise it is taken as it is.
    by_cases negative : num.toInt < 0
    · rw [if_pos negative, if_pos negative]
      exact ⟨rfl, neg_toNat_eq_natAbs negative⟩
    · rw [if_neg negative, if_neg negative]
      have value := toNat_eq_natAbs negative
      split
      · exact ⟨rfl, value⟩
      · split <;> exact ⟨rfl, value⟩
  · rw [if_neg signed, if_neg signed, if_neg signed]
    exact ⟨rfl, rfl⟩

/-- There are as many digits as the number has. -/
theorem numberLayout_digits {base : Int} (low : 2 ≤ base) (high : base ≤ 36) (precision : BitVec 32)
    (type : Flags) (sign : Option Char8) (num : U64) (size : BitVec 32) :
    (numberLayout base precision type sign num size).digits.length =
      digitCount base.toNat num.toNat := by
  show List.length (List.reverse _) = _
  -- The digits are written backwards, which does not change how many they are.
  rw [List.length_reverse, ← tmp_eq low high]
  exact digits_length low high type.small num

/-- The parts that `number` writes show its number. -/
theorem numberLayout_shows (num : U64) {base : Int} (low : 2 ≤ base) (high : base ≤ 36)
    (size precision : BitVec 32) (type : Flags) :
    (numberLayout base precision type (numberSign num size type).1 (numberSign num size type).2.1
      (numberSign num size type).2.2).Shows num base precision type := by
  obtain ⟨char, value⟩ := numberSign_eq num size type
  have digits := numberLayout_digits low high precision type (numberSign num size type).1
    (numberSign num size type).2.1 (numberSign num size type).2.2
  refine ⟨?_, char, rfl, ?_, ?_, ?_, ?_, ?_⟩
  · rw [← value]
    exact readDigits_number type.small (by omega) (by omega) _ _
  · rw [digits, value]
  · -- The precision is reached with zeros, whether or not the width adds to them.
    rw [digits]
    simp only [numberLayout]
    push_cast
    omega
  · -- Trailing spaces are what the width leaves on the right.
    intro some_
    simp only [numberLayout] at some_
    by_contra right
    rw [if_neg right] at some_
    omega
  · intro some_
    simp only [numberLayout] at some_
    cases left : type.left <;> cases zeropad : type.zeropad <;> simp_all
  · intro some_ more
    rw [digits] at more
    by_contra none
    have plain : (type.zeropad && !type.left) = false := by
      by_contra both
      exact none (by simpa using both)
    -- Without the zeros of the width there are just those of the precision.
    simp only [numberLayout, plain, Bool.false_eq_true, if_false, Nat.zero_add] at some_ more
    omega

/-- Left justification takes back the zeros, which it would not show either. -/
theorem NumberLayout.Shows.of_left {layout : NumberLayout} {num : U64} {base : Int}
    {precision : BitVec 32} {type : Flags} (left : type.left = true)
    (shows_ : layout.Shows num base precision { type with zeropad := false }) :
    layout.Shows num base precision type := by
  refine ⟨shows_.value, shows_.sign, shows_.mark, shows_.shortest, shows_.precise, shows_.trailing,
    fun some_ => ?_, fun some_ more => ?_⟩
  · exact absurd left (shows_.leading some_).1
  · exact absurd (shows_.zeros some_ more).1 Bool.false_ne_true

/--
The text that `number` writes for a base it has digits for shows its number: spaces, a sign, the
mark of the base, zeros, the digits and spaces again, each where the flags ask for it.
-/
theorem number_shows (num : U64) {base : Int} (low : 2 ≤ base) (high : base ≤ 36)
    {size precision : BitVec 32} {type : Flags} (counted : Counted num base size precision type) :
    ∃ layout : NumberLayout, number num base size precision type = some layout.text ∧
      layout.Shows num base precision type := by
  have served : ¬ (base < 2 ∨ 36 < base) := by omega
  -- The width that is left is held by the `int`, so it is counted down as it is.
  have holds {type' : Flags} (counted : Counted num base size precision type') :
      widthLoops type' ≤ (widthLeft base (numberSign num size type').2.2 precision type'
        (numberSign num size type').2.1).toInt + 0x80000001 := by
    have range := toInt_bounds size
    have some_ : 1 ≤ widthLoops type' := by
      rw [widthLoops]
      split_ifs <;> omega
    rw [widthLeft_numberSign num low]
    simp only [Counted, spareWidth, digitsLength, digitCount, wrapInt] at counted ⊢
    omega
  rw [number_eq]
  dsimp only
  rw [if_neg served]
  by_cases left : type.left = true
  · have same : Counted num base size precision { type with zeropad := false } := by
      simp only [Counted, widthLoops, left, if_true] at counted ⊢
      exact counted
    rw [if_pos left, numberText_eq low high _ _ _ _ _ (holds same)]
    exact ⟨_, rfl, .of_left left (numberLayout_shows num low high size precision _)⟩
  · rw [if_neg left, numberText_eq low high _ _ _ _ _ (holds counted)]
    exact ⟨_, rfl, numberLayout_shows num low high size precision type⟩

/-- A width from -1 on is counted down as it should be, unless the precision is far too large. -/
theorem counted_of_small (num : U64) {base : Int} (low : 2 ≤ base) {size precision : BitVec 32}
    (type : Flags) (wide : -1 ≤ size.toInt) (precise : precision.toInt ≤ 0x7ffffff0) :
    Counted num base size precision type := by
  have digits := digitCount_le (show 2 ≤ base.toNat by omega) (magnitude num type)
  have plus : plusCount num type ≤ 1 := by
    rw [plusCount]
    split <;> omega
  have mark : markCount base type ≤ 2 := by
    rw [markCount]
    split_ifs <;> omega
  have loops : widthLoops type ≤ 3 := by
    rw [widthLoops]
    split_ifs <;> omega
  rw [Counted, spareWidth, digitsLength]
  omega

/-- The most negative number in hexadecimal, with a mark and zeros up to a precision of twenty. -/
theorem number_shows_least :
    ∃ layout : NumberLayout, number (BitVec.intMin 64) 16 30 20
        { sign := true, special := true, small := true } = some layout.text ∧
      layout.Shows (BitVec.intMin 64) 16 20 { sign := true, special := true, small := true } :=
  number_shows (BitVec.intMin 64) (by decide) (by decide)
    (counted_of_small _ (by decide) _ (by decide) (by decide))

/-! ### The width of a text -/

/-- The width that is asked for, or what sign, mark, zeros and digits take. -/
def exactLength (num : U64) (base : Int) (size precision : BitVec 32) (type : Flags) : Int :=
  max size.toInt ((signChar num type).toList.length + (markChars base type).length +
    max precision.toInt (digitCount base.toNat (shownValue num type)))

/-- The counts that `number` keeps of what it has written are those of the parts. -/
theorem counts_eq (num : U64) (base : Int) (type : Flags) :
    (signChar num type).toList.length = minusCount num type + plusCount num type ∧
      (markChars base type).length = markCount base type ∧
      (magnitude num type).toNat = shownValue num type := by
  refine ⟨?_, ?_, ?_⟩
  · -- A sign is counted once, whichever it is.
    rw [signChar, minusCount, plusCount]
    cases type.sign <;> cases type.plus <;> cases type.space <;>
      by_cases negative : num.toInt < 0 <;> simp [negative]
  · -- The mark is two characters for sixteen, one for eight, none for other bases.
    rw [markChars, markCount]
    by_cases hex : base = 16
    · subst hex
      cases type.special <;> cases type.small <;> rfl
    · by_cases octal : base = 8
      · subst octal
        cases type.special <;> rfl
      · simp [hex, octal]
  · -- What is shown is the magnitude.
    rw [magnitude, shownValue]
    by_cases signed : type.sign = true
    · by_cases negative : num.toInt < 0
      · rw [if_pos ⟨signed, negative⟩, if_pos signed, neg_toNat_eq_natAbs negative]
      · rw [if_neg fun both => negative both.2, if_pos signed, toNat_eq_natAbs negative]
    · rw [if_neg fun both => signed both.1, if_neg signed]

/--
The text of a number is exactly as long as it has to be unless it begins with a minus sign and is
padded to a width, or the width is counted below the least `int` and is not brought back to zero.
-/
theorem number_exactLength_iff (num : U64) {base : Int} (low : 2 ≤ base) (high : base ≤ 36)
    (size precision : BitVec 32) (type : Flags) :
    (∃ text, number num base size precision type = some text ∧
      (text.length : Int) = exactLength num base size precision type) ↔
    (¬ (type.sign ∧ num.toInt < 0) ∨ size.toInt ≤ (markChars base type).length +
      max precision.toInt (digitCount base.toNat (shownValue num type))) ∧
    (Counted num base size precision type ∨
      spareWidth num base size precision type ≤ -0x100000000) := by
  obtain ⟨text, written⟩ :=
    Option.isSome_iff_exists.mp (number_isSome num size precision type low high)
  obtain ⟨signs, marks, value⟩ := counts_eq num base type
  have length := number_length written
  -- There is only one text, so its length is the one in question.
  have only : (∃ text, number num base size precision type = some text ∧
      (text.length : Int) = exactLength num base size precision type) ↔
      numberLength num base size precision type = exactLength num base size precision type := by
    rw [← length]
    constructor
    · rintro ⟨other, same, exact_⟩
      rw [written, Option.some_inj] at same
      rw [same]
      exact exact_
    · exact fun exact_ => ⟨text, written, exact_⟩
  have sizeRange := toInt_bounds size
  have precisionRange := toInt_bounds precision
  have digits := digitCount_le (show 2 ≤ base.toNat by omega) (magnitude num type)
  have loops : 1 ≤ widthLoops type ∧ widthLoops type ≤ 3 := by
    rw [widthLoops]
    split_ifs <;> omega
  have mark : markCount base type ≤ 2 := by
    rw [markCount]
    split_ifs <;> omega
  rw [only, numberLength, exactLength, signs, marks, ← value, Counted]
  -- The minus sign is the one part that is added behind the width.
  by_cases minus : type.sign ∧ num.toInt < 0
  · have one : minusCount num type = 1 := if_pos minus
    have none : plusCount num type = 0 := if_neg fun plus => plus.2.1 minus.2
    rw [spareWidth, one, none, or_iff_right (not_not_intro minus)]
    simp only [digitsLength, countdown, wrapInt]
    omega
  · have none : minusCount num type = 0 := if_neg minus
    have plus : plusCount num type ≤ 1 := by
      rw [plusCount]
      split <;> omega
    rw [spareWidth, none, and_iff_right (Or.inl minus)]
    simp only [digitsLength, countdown, wrapInt]
    omega

/-- A positive number of two digits in a column of six. -/
theorem number_exactLength_column :
    ∃ text, number 42 10 6 (-1) { sign := true } = some text ∧ (text.length : Int) = 6 := by
  have exact_ : exactLength 42 10 6 (-1) { sign := true } = 6 := by
    have digits : digitCount 10 42 = 2 := by decide +kernel
    simp [exactLength, signChar, markChars, shownValue, digits]
  rw [← exact_]
  exact (number_exactLength_iff 42 (by decide) (by decide) 6 (-1) { sign := true }).mpr
    ⟨Or.inl (by decide), Or.inl (counted_of_small _ (by decide) _ (by decide) (by decide))⟩

/-- Minus one in a column of five takes six characters. -/
theorem number_minus_wider : ¬ ∀ (num : U64) (base : Int) (size precision : BitVec 32)
    (type : Flags), base = 8 ∨ base = 10 ∨ base = 16 →
      ∃ text, number num base size precision type = some text ∧
        (text.length : Int) = exactLength num base size precision type := by
  intro exact_
  obtain ⟨text, written, length⟩ := exact_ (-1) 10 5 (-1) { sign := true } (Or.inr (Or.inl rfl))
  have digits : digitCount 10 1 = 1 := by decide +kernel
  have five : exactLength (-1) 10 5 (-1) { sign := true } = 5 := by
    simp [exactLength, signChar, markChars, shownValue, digits]
  have six : numberLength (-1) 10 5 (-1) { sign := true } = 6 := by
    simp [numberLength, digitsLength, spareWidth, countdown, wrapInt, widthLoops, minusCount,
      plusCount, markCount, magnitude, digits]
  -- The four spaces are those of a text without a sign.
  rw [number_length written, five, six] at length
  exact absurd length (by decide)

end Benos
