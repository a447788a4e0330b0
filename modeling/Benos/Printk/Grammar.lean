import Benos.Printk.Arguments
import Benos.Printk.Width

/-!
The formats that `myprintf` is for: texts and conversions, one behind the other.

A format is written from its items, and `myprintf` writes what they stand for.
-/

namespace Benos

/-! ### The items of a format -/

/-- A length qualifier. -/
inductive Qualifier where
  | h
  | l
  | L
  | ll
  deriving DecidableEq

/-- How it is spelled. -/
def Qualifier.chars : Qualifier → List Char8
  | .h => [ch 'h']
  | .l => [ch 'l']
  | .L => [ch 'L']
  | .ll => [ch 'l', ch 'l']

/-- What `qualifier` is set to. -/
def Qualifier.value : Qualifier → Char8
  | .h => ch 'h'
  | .l => ch 'l'
  | .L | .ll => ch 'L'

/-- The number that digits stand for, from the value of those in front of them on. -/
def digitsValue (digits : List Char8) (value : Int) : Int :=
  digits.foldl (fun value c => value * 10 + (c - ch '0').toNat) value

/--
A conversion as it is spelled in a format, between the percent sign and its letter.

A width does not begin with a zero, which would be a flag, and the numbers fit an `int`, the
precision with room for what else the width is counted down by.
-/
structure Spec where
  flags : List Char8
  width : List Char8
  /-- The digits behind the period, if there is one. -/
  precision : Option (List Char8)
  qualifier : Option Qualifier
  letter : Char8
  conversion : Conversion
  areFlags : ∀ c ∈ flags, (flagOf c {}).isSome = true
  widthDigits : ∀ c ∈ width, isDigit c = true
  widthFirst : width.head? ≠ some (ch '0')
  widthFits : digitsValue width 0 < 0x80000000
  precisionDigits : ∀ c ∈ precision.getD [], isDigit c = true
  precisionFits : digitsValue (precision.getD []) 0 < 0x7ffffff0
  named : conversionOf letter = some conversion

/-- An item of a format. -/
inductive Item where
  | text (c : Char8) (literal : c ≠ ch '%')
  | conversion (spec : Spec)

namespace Spec

/-- The qualifier as it is spelled, and what is behind it. -/
def behindPrecision (s : Spec) (rest : List Char8) : List Char8 :=
  (s.qualifier.elim [] Qualifier.chars) ++ s.letter :: rest

/-- The precision as it is spelled, and what is behind it. -/
def behindWidth (s : Spec) (rest : List Char8) : List Char8 :=
  (s.precision.elim [] fun digits => ch '.' :: digits) ++ s.behindPrecision rest

/-- The width as it is spelled, and what is behind it. -/
def behindFlags (s : Spec) (rest : List Char8) : List Char8 := s.width ++ s.behindWidth rest

/-- A conversion as it is spelled, with what is behind it. -/
def chars (s : Spec) (rest : List Char8) : List Char8 := ch '%' :: (s.flags ++ s.behindFlags rest)

/-- What a conversion says, with what is left of the format and of the arguments. -/
def directive (s : Spec) (fmt : List Char8) (va : VaList) : Directive where
  flags := s.flags.foldl (fun flags c => (flagOf c flags).getD flags) {}
  fieldWidth := if s.width = [] then -1 else BitVec.ofInt 32 (digitsValue s.width 0)
  precision := s.precision.elim (-1) fun digits => BitVec.ofInt 32 (digitsValue digits 0)
  qualifier := s.qualifier.map Qualifier.value
  fmt := fmt
  va := va

/-- A number in a base that `number` has digits for. -/
def inBase (d : Directive) (base : Int) (arg : U64) : List Char8 :=
  (number (argNumber d.qualifier d.flags.sign arg) base d.fieldWidth d.precision d.flags).getD []

/-- What a conversion writes of its argument. -/
def text (strings : U64 → List Char8) (s : Spec) (arg : U64) : List Char8 :=
  let d := s.directive [] { slots := fun _ => arg, next := 0 }
  match s.conversion with
  | .char => formatChar d arg
  | .string => formatString strings d arg
  | .count => []
  | .pointer => (formatPointer d arg).getD []
  | .octal => inBase d 8 arg
  | .hex small =>
    inBase { d with flags := { d.flags with small := d.flags.small || small } } 16 arg
  | .decimal sign =>
    inBase { d with flags := { d.flags with sign := d.flags.sign || sign } } 10 arg

/-- What it stores through its argument, behind so many characters. -/
def stored (s : Spec) (arg : U64) (written : Nat) : List (U64 × Char8) :=
  match s.conversion with
  | .count => [(arg, BitVec.ofNat 8 written)]
  | _ => []

end Spec

/-- Some items as they are spelled, one behind the other. -/
def spelled : List Item → List Char8
  | [] => []
  | .text c _ :: rest => c :: spelled rest
  | .conversion spec :: rest => spec.chars (spelled rest)

/-- The texts that they stand for, when the next argument is the one with this number. -/
def texts (strings : U64 → List Char8) (slots : Nat → U64) : Nat → List Item → List (List Char8)
  | _, [] => []
  | next, .text c _ :: rest => [c] :: texts strings slots next rest
  | next, .conversion spec :: rest =>
    spec.text strings (slots next) :: texts strings slots (next + 1) rest

/-- What they store, behind so many characters. -/
def storesOf (strings : U64 → List Char8) (slots : Nat → U64) :
    Nat → Nat → List Item → List (U64 × Char8)
  | _, _, [] => []
  | next, written, .text _ _ :: rest => storesOf strings slots next (written + 1) rest
  | next, written, .conversion spec :: rest =>
    spec.stored (slots next) written ++ storesOf strings slots (next + 1)
      (written + (spec.text strings (slots next)).length) rest

/-- How many of them take an argument. -/
def conversions : List Item → Nat
  | [] => 0
  | .text _ _ :: rest => conversions rest
  | .conversion _ :: rest => conversions rest + 1

/-! ### Where the parts of a conversion end -/

/-- A character that ends flags, and is not taken for a digit or a star. -/
def Ends (c : Char8) : Prop := flagOf c {} = none ∧ isDigit c = false ∧ c ≠ ch '*'

/-- Whether a character is a flag does not depend on those in front of it. -/
theorem flagOf_isSome (c : Char8) (flags : Flags) :
    (flagOf c flags).isSome = (flagOf c {}).isSome := by
  simp only [flagOf]
  split_ifs <;> rfl

/-- Flags are read up to the first other character. -/
theorem scanFlags_append {flags : List Char8} (areFlags : ∀ c ∈ flags, (flagOf c {}).isSome = true)
    {stop : Char8} (ends : flagOf stop {} = none) (before : Flags) (rest : List Char8) :
    scanFlags before (flags ++ stop :: rest) =
      (flags.foldl (fun flags c => (flagOf c flags).getD flags) before, stop :: rest) := by
  induction flags generalizing before with
  | nil =>
    have noFlag : flagOf stop before = none := by
      rw [← Option.not_isSome_iff_eq_none, flagOf_isSome, ends]
      decide
    rw [List.nil_append, scanFlags, noFlag]
    rfl
  | cons c flags ih =>
    have isFlag : (flagOf c before).isSome = true :=
      (flagOf_isSome c before).trans (areFlags c List.mem_cons_self)
    obtain ⟨after, read⟩ := Option.isSome_iff_exists.mp isFlag
    rw [List.cons_append, scanFlags, read, List.foldl_cons, read]
    exact ih (fun c member => areFlags c (List.mem_cons_of_mem _ member)) after

/-- Digits are read up to the first other character. -/
theorem scanNumberFrom_append {digits : List Char8} (areDigits : ∀ c ∈ digits, isDigit c = true)
    {stop : Char8} (ends : isDigit stop = false) (value : Int) (rest : List Char8) :
    scanNumberFrom (BitVec.ofInt 32 value) (digits ++ stop :: rest) =
      (BitVec.ofInt 32 (digitsValue digits value), stop :: rest) := by
  induction digits generalizing value with
  | nil =>
    rw [List.nil_append, scanNumberFrom, ends]
    rfl
  | cons c digits ih =>
    -- The `int` holds what the digits so far stand for, as far as it can.
    have more : BitVec.ofInt 32 value * 10 + (c - ch '0').setWidth 32 =
        BitVec.ofInt 32 (value * 10 + (c - ch '0').toNat) := by
      rw [BitVec.ofInt_add, BitVec.ofInt_mul, BitVec.ofInt_natCast, BitVec.ofNat_toNat]
      rfl
    rw [List.cons_append, scanNumberFrom, if_pos (areDigits c List.mem_cons_self), more]
    exact ih (fun c member => areDigits c (List.mem_cons_of_mem _ member)) _

/-- Digits do not stand for negative numbers. -/
theorem digitsValue_nonneg (digits : List Char8) {value : Int} (nonneg : 0 ≤ value) :
    0 ≤ digitsValue digits value := by
  induction digits generalizing value with
  | nil => exact nonneg
  | cons c digits ih =>
    have next : 0 ≤ value * 10 + ((c - ch '0').toNat : Int) := by omega
    exact ih next

/-- The letters of the conversions. -/
theorem letter_mem {letter : Char8} {conversion : Conversion}
    (named : conversionOf letter = some conversion) :
    letter ∈ [ch 'c', ch 's', ch 'n', ch 'p', ch 'o', ch 'x', ch 'X', ch 'd', ch 'i', ch 'u'] := by
  by_contra other
  simp only [List.mem_cons, List.not_mem_nil, or_false, not_or] at other
  simp [conversionOf, other] at named

/-- They end whatever is in front of them. -/
theorem letter_ends {letter : Char8} {conversion : Conversion}
    (named : conversionOf letter = some conversion) :
    Ends letter ∧ letter ≠ ch '.' ∧ letter ≠ ch 'h' ∧ letter ≠ ch 'l' ∧ letter ≠ ch 'L' := by
  have all : ∀ c ∈ [ch 'c', ch 's', ch 'n', ch 'p', ch 'o', ch 'x', ch 'X', ch 'd', ch 'i', ch 'u'],
      (flagOf c {} = none ∧ isDigit c = false ∧ c ≠ ch '*') ∧ c ≠ ch '.' ∧ c ≠ ch 'h' ∧
        c ≠ ch 'l' ∧ c ≠ ch 'L' := by decide
  exact all letter (letter_mem named)

namespace Spec

variable (s : Spec) (rest : List Char8)

/-- A qualifier ends what is in front of it, or the letter does. -/
theorem behindPrecision_ends :
    ∃ stop more, s.behindPrecision rest = stop :: more ∧ Ends stop ∧ stop ≠ ch '.' := by
  rw [behindPrecision]
  cases s.qualifier with
  | none =>
    obtain ⟨ends, dot, -⟩ := letter_ends s.named
    exact ⟨_, _, rfl, ends, dot⟩
  | some qualifier =>
    cases qualifier with
    | h => exact ⟨ch 'h', _, rfl, ⟨by decide, by decide, by decide⟩, by decide⟩
    | l => exact ⟨ch 'l', _, rfl, ⟨by decide, by decide, by decide⟩, by decide⟩
    | L => exact ⟨ch 'L', _, rfl, ⟨by decide, by decide, by decide⟩, by decide⟩
    | ll => exact ⟨ch 'l', _, rfl, ⟨by decide, by decide, by decide⟩, by decide⟩

/-- So does a period. -/
theorem behindWidth_ends : ∃ stop more, s.behindWidth rest = stop :: more ∧ Ends stop := by
  rw [behindWidth]
  cases s.precision with
  | none =>
    obtain ⟨stop, more, same, ends, -⟩ := s.behindPrecision_ends rest
    exact ⟨stop, more, same, ends⟩
  | some digits => exact ⟨ch '.', _, rfl, by decide, by decide, by decide⟩

/-- The first digit of a width ends the flags. -/
theorem behindFlags_ends :
    ∃ stop more, s.behindFlags rest = stop :: more ∧ flagOf stop {} = none := by
  rw [behindFlags]
  have widthDigits := s.widthDigits
  have widthFirst := s.widthFirst
  cases width : s.width with
  | nil =>
    obtain ⟨stop, more, same, ends, -⟩ := s.behindWidth_ends rest
    exact ⟨stop, more, same, ends⟩
  | cons first more =>
    rw [width] at widthDigits widthFirst
    refine ⟨first, _, rfl, ?_⟩
    have isNumber := widthDigits first List.mem_cons_self
    have nonzero : first ≠ ch '0' := fun zero => widthFirst (congrArg some zero)
    -- No other flag is a digit.
    have apart {c : Char8} (other : isDigit c = false) : first ≠ c := by
      rintro rfl
      rw [isNumber] at other
      cases other
    simp only [flagOf]
    rw [if_neg (apart (by decide)), if_neg (apart (by decide)), if_neg (apart (by decide)),
      if_neg (apart (by decide)), if_neg nonzero]

/-! ### A conversion is read as it is spelled -/

theorem fieldWidth_behindFlags (flags : Flags) (va : VaList) :
    fieldWidth flags (s.behindFlags rest) va =
      (if s.width = [] then -1 else BitVec.ofInt 32 (digitsValue s.width 0), flags,
        s.behindWidth rest, va) := by
  obtain ⟨stop, more, same, -, noDigit, noStar⟩ := s.behindWidth_ends rest
  have widthDigits := s.widthDigits
  rw [behindFlags, same]
  cases width : s.width with
  | nil =>
    rw [List.nil_append, fieldWidth, if_neg (by rw [noDigit]; decide), if_neg noStar, if_pos rfl]
  | cons first digits =>
    rw [width] at widthDigits
    have scanned := scanNumberFrom_append widthDigits noDigit 0 more
    rw [List.cons_append] at scanned ⊢
    rw [fieldWidth, if_pos (widthDigits first List.mem_cons_self), scanNumber,
      show (0 : BitVec 32) = BitVec.ofInt 32 0 from rfl, scanned, if_neg (List.cons_ne_nil _ _)]

theorem precision_behindWidth (va : VaList) :
    Benos.precision (s.behindWidth rest) va =
      (s.precision.elim (-1) fun digits => BitVec.ofInt 32 (digitsValue digits 0),
        s.behindPrecision rest, va) := by
  obtain ⟨stop, more, same, ⟨-, noDigit, noStar⟩, noDot⟩ := s.behindPrecision_ends rest
  have digits := s.precisionDigits
  have fits := s.precisionFits
  rw [behindWidth, same]
  cases dot : s.precision with
  | none =>
    rw [Option.elim_none, Option.elim_none, List.nil_append]
    simp only [Benos.precision, if_neg noDot]
  | some number =>
    rw [dot, Option.getD_some] at digits fits
    rw [Option.elim_some, Option.elim_some, List.cons_append]
    cases number with
    | nil =>
      -- A period alone stands for a precision of zero.
      rw [List.nil_append]
      simp only [Benos.precision, noDigit, if_neg noStar]
      rfl
    | cons first others =>
      have scanned := scanNumberFrom_append digits noDigit 0 more
      have nonneg := digitsValue_nonneg (first :: others) (Int.le_refl 0)
      have value : (BitVec.ofInt 32 (digitsValue (first :: others) 0)).toInt =
          digitsValue (first :: others) 0 := by
        rw [toInt_ofInt, wrapInt_of_fits (by omega) (by omega)]
      rw [List.cons_append] at scanned ⊢
      simp only [Benos.precision, if_pos (digits first List.mem_cons_self), scanNumber,
        show (0 : BitVec 32) = BitVec.ofInt 32 0 from rfl, scanned]
      rw [if_pos trivial, if_neg (by omega)]

theorem scanQualifier_behindPrecision :
    scanQualifier (s.behindPrecision rest) =
      (s.qualifier.map Qualifier.value, s.letter :: rest) := by
  obtain ⟨-, -, noH, noL, noLong⟩ := letter_ends s.named
  rw [behindPrecision]
  cases s.qualifier with
  | none =>
    have other : ¬ (s.letter = ch 'h' ∨ s.letter = ch 'l' ∨ s.letter = ch 'L') := by
      rintro (same | same | same)
      · exact noH same
      · exact noL same
      · exact noLong same
    rw [Option.elim_none, List.nil_append]
    simp only [scanQualifier, if_neg other]
    rfl
  | some qualifier =>
    cases qualifier with
    | h => rfl
    | L => rfl
    | ll => rfl
    | l =>
      -- One `l` is read as one, as no conversion is called `l`.
      show scanQualifier (ch 'l' :: s.letter :: rest) = _
      simp [scanQualifier, noL, Qualifier.value]

/-- What is spelled is read. -/
theorem directive_spelled (va : VaList) :
    Benos.directive (s.flags ++ s.behindFlags rest) va = s.directive (s.letter :: rest) va := by
  obtain ⟨stop, more, same, ends⟩ := s.behindFlags_ends rest
  have flags := scanFlags_append s.areFlags ends {} more
  rw [← same] at flags
  rw [Benos.directive, flags]
  dsimp only
  rw [s.fieldWidth_behindFlags rest]
  dsimp only
  rw [s.precision_behindWidth rest]
  dsimp only
  rw [s.scanQualifier_behindPrecision rest]
  rfl

/-! ### It is written as it says -/

/-- A base with digits gives a number its text. -/
theorem number_inBase (d : Directive) {base : Int} (low : 2 ≤ base) (high : base ≤ 36)
    (arg : U64) : number (argNumber d.qualifier d.flags.sign arg) base d.fieldWidth d.precision
      d.flags = some (inBase d base arg) := by
  obtain ⟨text, written⟩ := Option.isSome_iff_exists.mp
    (number_isSome (argNumber d.qualifier d.flags.sign arg) d.fieldWidth d.precision d.flags
      low high)
  rw [inBase, written]
  rfl

/-- So does a pointer. -/
theorem formatPointer_isSome (d : Directive) (arg : U64) : (formatPointer d arg).isSome = true := by
  rw [formatPointer]
  split <;> exact number_isSome _ _ _ _ (by decide) (by decide)

/-- A round of the loop takes the conversion and one argument, and writes the text. -/
theorem formatOne_chars (strings : U64 → List Char8) {p : Printf} (start : p.fmt = s.chars rest) :
    ∃ base, formatOne strings p = some
      { fmt := rest
        va := p.va.advance
        out := p.out ++ s.text strings p.va.arg
        stores := p.stores ++ s.stored p.va.arg p.out.length
        base := base } := by
  have converted : formatOne strings p =
      convert strings (s.directive rest p.va) p s.conversion := by
    simp only [formatOne, start, chars]
    rw [if_neg (by decide), s.directive_spelled rest p.va]
    simp only [directive, s.named]
  rw [converted]
  simp only [text, stored]
  have read : (s.directive rest p.va).va = p.va := rfl
  -- The base in the end is that of the last number, if there was one.
  cases s.conversion with
  | char => exact ⟨p.base, by simp only [convert, List.append_nil]; rfl⟩
  | string => exact ⟨p.base, by simp only [convert, List.append_nil]; rfl⟩
  | count => exact ⟨p.base, by simp only [convert, List.append_nil]; rfl⟩
  | pointer =>
    obtain ⟨text, written⟩ :=
      Option.isSome_iff_exists.mp (formatPointer_isSome (s.directive rest p.va) p.va.arg)
    have same : formatPointer (s.directive [] { slots := fun _ => p.va.arg, next := 0 }) p.va.arg =
        some text := written
    refine ⟨p.base, ?_⟩
    simp only [convert, read, written, same, Option.map_some, Option.getD_some, List.append_nil]
    rfl
  | octal =>
    have written := number_inBase (s.directive rest p.va) (show (2 : Int) ≤ 8 by decide)
      (by decide) p.va.arg
    refine ⟨8, ?_⟩
    simp only [convert, numberTail, read, written, Option.map_some, List.append_nil]
    rfl
  | hex small =>
    have written := number_inBase
      { s.directive rest p.va with
        flags := { (s.directive rest p.va).flags with
          small := (s.directive rest p.va).flags.small || small } }
      (show (2 : Int) ≤ 16 by decide) (by decide) p.va.arg
    refine ⟨16, ?_⟩
    simp only [convert, numberTail, read, written, Option.map_some, List.append_nil]
    rfl
  | decimal sign =>
    have written := number_inBase
      { s.directive rest p.va with
        flags := { (s.directive rest p.va).flags with
          sign := (s.directive rest p.va).flags.sign || sign } }
      (show (2 : Int) ≤ 10 by decide) (by decide) p.va.arg
    refine ⟨10, ?_⟩
    simp only [convert, numberTail, read, written, Option.map_some, List.append_nil]
    rfl

end Spec

/-- There are no more items than characters. -/
theorem length_le_spelled (items : List Item) : items.length ≤ (spelled items).length := by
  induction items with
  | nil => exact Nat.le_refl 0
  | cons item rest ih =>
    cases item with
    | text c literal => exact Nat.succ_le_succ ih
    | conversion spec =>
      simp only [spelled, Spec.chars, Spec.behindFlags, Spec.behindWidth, Spec.behindPrecision,
        List.length_cons, List.length_append]
      omega

/-- The loop writes the items that are left, from wherever it is. -/
theorem rounds_spelled (strings : U64 → List Char8) (items : List Item) {p : Printf}
    (start : p.fmt = spelled items) {more : Nat} (enough : items.length ≤ more) :
    ∃ base, rounds (formatOne strings) more p = some
      { fmt := []
        va := { p.va with next := p.va.next + conversions items }
        out := p.out ++ (texts strings p.va.slots p.va.next items).flatten
        stores := p.stores ++ storesOf strings p.va.slots p.va.next p.out.length items
        base := base } := by
  -- Each item takes one round; only the base is not known behind it.
  induction items generalizing p more with
  | nil =>
    have stays : formatOne strings p = some p := by simp only [formatOne, start, spelled]
    refine ⟨p.base, ?_⟩
    rw [rounds_nil stays]
    simp only [texts, storesOf, conversions, List.flatten_nil, List.append_nil, Nat.add_zero]
    cases p
    cases start
    rfl
  | cons item rest ih =>
    obtain ⟨more, rfl⟩ : ∃ fewer, more = fewer + 1 :=
      ⟨more - 1, by rw [List.length_cons] at enough; omega⟩
    have enough' : rest.length ≤ more := Nat.le_of_succ_le_succ enough
    cases item with
    | text c literal =>
      have copied : formatOne strings p =
          some { p with fmt := spelled rest, out := p.out ++ [c] } := by
        simp only [formatOne, start, spelled]
        rw [if_pos literal]
      obtain ⟨base, ran⟩ :=
        ih (p := { p with fmt := spelled rest, out := p.out ++ [c] }) rfl enough'
      refine ⟨base, ?_⟩
      rw [rounds, copied, Option.bind_some, ran]
      simp [texts, storesOf, conversions]
    | conversion spec =>
      obtain ⟨base, written⟩ := spec.formatOne_chars (spelled rest) strings start
      obtain ⟨base', ran⟩ := ih (p :=
        { fmt := spelled rest
          va := p.va.advance
          out := p.out ++ spec.text strings p.va.arg
          stores := p.stores ++ spec.stored p.va.arg p.out.length
          base := base }) rfl enough'
      refine ⟨base', ?_⟩
      rw [rounds, written, Option.bind_some, ran]
      simp [texts, storesOf, conversions, VaList.advance, VaList.arg]
      omega

/--
`myprintf` writes a format item by item: every character of the text is copied, and the conversions
take the arguments one after the other, each written as its flags, its width, its precision and its
qualifier say. The whole format is read, whatever the uninitialised `base` holds.
-/
theorem myprintf_items (strings : U64 → List Char8) (items : List Item) (va : VaList) (base : Int) :
    ∃ p, myprintf strings (spelled items) va base = some p ∧ p.fmt = [] ∧
      p.out = (texts strings va.slots va.next items).flatten ∧
      p.va = { va with next := va.next + conversions items } ∧
      p.stores = storesOf strings va.slots va.next 0 items := by
  obtain ⟨base', ran⟩ := rounds_spelled strings items
    (p := { fmt := spelled items, va, out := [], stores := [], base }) rfl
    (length_le_spelled items)
  exact ⟨_, ran, rfl, rfl, rfl, rfl⟩

/-- `%#06lx`. -/
def hexSpec : Spec where
  flags := [ch '#', ch '0']
  width := [ch '6']
  precision := none
  qualifier := some .l
  letter := ch 'x'
  conversion := .hex true
  areFlags := by decide
  widthDigits := by decide
  widthFirst := by decide
  widthFits := by decide
  precisionDigits := by decide
  precisionFits := by decide
  named := rfl

/-- It writes an address of this size with the mark of its base and a zero in front. -/
example : hexSpec.text (fun _ => []) 0xabc = "0x0abc".toList.map ch := by decide

end Benos
