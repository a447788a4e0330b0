import Benos.Printk.Number

/-! `myprintf` of `printk.c`: one directive after the other, with the arguments they take. -/

namespace Benos

/-- The variadic arguments: one word each, and which of them is next. -/
structure VaList where
  slots : Nat → U64
  next : Nat

/-- `va_arg`, before the word is read as a type. -/
def VaList.arg (va : VaList) : U64 := va.slots va.next

/-- The arguments behind the next one. -/
def VaList.advance (va : VaList) : VaList := { va with next := va.next + 1 }

/-- `va_arg(arg, int)`. -/
def VaList.argInt (va : VaList) : BitVec 32 := va.arg.setWidth 32

/-- `is_digit`. -/
def isDigit (c : Char8) : Bool := ch '0' ≤ c && c ≤ ch '9'

/-- `scan_number` from a value on: the number, and what follows its digits. -/
def scanNumberFrom : BitVec 32 → List Char8 → BitVec 32 × List Char8
  | tmp, [] => (tmp, [])
  | tmp, c :: rest =>
    if isDigit c then scanNumberFrom (tmp * 10 + (c - ch '0').setWidth 32) rest
    else (tmp, c :: rest)

/-- `scan_number`, whose `int` wraps around. -/
def scanNumber (fmt : List Char8) : BitVec 32 × List Char8 := scanNumberFrom 0 fmt

/-- The flag that a character adds, if it is one. -/
def flagOf (c : Char8) (flags : Flags) : Option Flags :=
  if c = ch '-' then some { flags with left := true }
  else if c = ch '+' then some { flags with plus := true }
  else if c = ch ' ' then some { flags with space := true }
  else if c = ch '#' then some { flags with special := true }
  else if c = ch '0' then some { flags with zeropad := true }
  else none

/-- The flags at label `repeat`, and what follows them. -/
def scanFlags : Flags → List Char8 → Flags × List Char8
  | flags, [] => (flags, [])
  | flags, c :: rest =>
    match flagOf c flags with
    | some flags => scanFlags flags rest
    | none => (flags, c :: rest)

/-- The length qualifier, with `ll` as `L`, and what follows it. -/
def scanQualifier (fmt : List Char8) : Option Char8 × List Char8 :=
  match fmt with
  | [] => (none, [])
  | c :: rest =>
    if c = ch 'h' ∨ c = ch 'l' ∨ c = ch 'L' then
      match rest with
      | second :: behind =>
        if c = ch 'l' ∧ second = ch 'l' then (some (ch 'L'), behind) else (some c, rest)
      | [] => (some c, rest)
    else (none, fmt)

/-- The conversions of the second `switch`. -/
inductive Conversion where
  | char
  | string
  | count
  | pointer
  | octal
  | hex (small : Bool)
  | decimal (sign : Bool)

/-- The conversion that a letter stands for. -/
def conversionOf (c : Char8) : Option Conversion :=
  if c = ch 'c' then some .char
  else if c = ch 's' then some .string
  else if c = ch 'n' then some .count
  else if c = ch 'p' then some .pointer
  else if c = ch 'o' then some .octal
  else if c = ch 'x' then some (.hex true)
  else if c = ch 'X' then some (.hex false)
  else if c = ch 'd' ∨ c = ch 'i' then some (.decimal true)
  else if c = ch 'u' then some (.decimal false)
  else none

/-- The local variables of `myprintf` that live on from one directive to the next. -/
structure Printf where
  fmt : List Char8
  va : VaList
  /-- The characters from `string` up to `pos`. -/
  out : List Char8
  /-- What the `n` conversions have stored, and where. -/
  stores : List (U64 × Char8)
  /-- `base`, which no statement sets before the first numeric conversion. -/
  base : Int

/-- The local variables that one directive sets, and where in the format they were read. -/
structure Directive where
  flags : Flags
  fieldWidth : BitVec 32
  precision : BitVec 32
  qualifier : Option Char8
  fmt : List Char8
  va : VaList

/-! ### What a conversion writes -/

/-- `while (--n > 0)`: how often it runs, and what it leaves in the variable. -/
def preDown (n : BitVec 32) : Nat × BitVec 32 :=
  ((n - 1).toInt.toNat, if 0 < (n - 1).toInt then 0 else n - 1)

/-- The `c` conversion. -/
def formatChar (d : Directive) (arg : U64) : List Char8 :=
  let (before, fieldWidth) :=
    if d.flags.left then (0, d.fieldWidth) else preDown d.fieldWidth
  fill (ch ' ') before ++ [arg.setWidth 8] ++ fill (ch ' ') (preDown fieldWidth).1

/-- The text that stands for a null string. -/
def nullText : List Char8 := "<NULL>".toList.map ch

/-- The `s` conversion, given the string at every address; the length is an `int` as well. -/
def formatString (strings : U64 → List Char8) (d : Directive) (arg : U64) : List Char8 :=
  let s := if arg = 0 then nullText else strings arg
  let len := BitVec.ofNat 32 s.length
  let len := if d.precision.toInt < 0 then len else
    if d.precision.toInt < len.toInt then d.precision else len
  let (before, fieldWidth) :=
    if d.flags.left then (0, d.fieldWidth) else downTo len d.fieldWidth
  fill (ch ' ') before ++ s.take len.toInt.toNat ++ fill (ch ' ') (downTo len fieldWidth).1

/-- The `p` conversion. -/
def formatPointer (d : Directive) (arg : U64) : Option (List Char8) :=
  if d.fieldWidth = -1 then number arg 16 16 d.precision { d.flags with zeropad := true }
  else number arg 16 d.fieldWidth d.precision d.flags

/-- The number that the common tail reads from an argument. -/
def argNumber (qualifier : Option Char8) (sign : Bool) (arg : U64) : U64 :=
  if qualifier = some (ch 'L') then arg
  else if qualifier = some (ch 'h') then
    if sign then (arg.setWidth 16).signExtend 64 else (arg.setWidth 16).setWidth 64
  else if qualifier = some (ch 'l') then arg
  else if sign then (arg.setWidth 32).signExtend 64
  else (arg.setWidth 32).setWidth 64

/-- The tail behind the second `switch`: it takes an argument and writes it in the current base. -/
def numberTail (d : Directive) (out : List Char8) (base : Int) (p : Printf) : Option Printf :=
  (number (argNumber d.qualifier d.flags.sign d.va.arg) base d.fieldWidth d.precision d.flags).map
    fun text =>
      { p with fmt := d.fmt, va := d.va.advance, out := out ++ text, base }

/-- A conversion, which takes the next argument. -/
def convert (strings : U64 → List Char8) (d : Directive) (p : Printf) :
    Conversion → Option Printf
  | .char =>
    some { p with fmt := d.fmt, va := d.va.advance, out := p.out ++ formatChar d d.va.arg }
  | .string =>
    some { p with fmt := d.fmt, va := d.va.advance, out := p.out ++ formatString strings d d.va.arg }
  | .count =>
    some { p with
      fmt := d.fmt
      va := d.va.advance
      stores := p.stores ++ [(d.va.arg, BitVec.ofNat 8 p.out.length)] }
  | .pointer =>
    (formatPointer d d.va.arg).map fun text =>
      { p with fmt := d.fmt, va := d.va.advance, out := p.out ++ text }
  | .octal => numberTail d p.out 8 p
  | .hex small =>
    numberTail { d with flags := { d.flags with small := d.flags.small || small } } p.out 16 p
  | .decimal sign =>
    numberTail { d with flags := { d.flags with sign := d.flags.sign || sign } } p.out 10 p

/-! ### One round of the loop -/

/-- The field width; a star takes an argument and stays where it is. -/
def fieldWidth (flags : Flags) (fmt : List Char8) (va : VaList) :
    BitVec 32 × Flags × List Char8 × VaList :=
  match fmt with
  | [] => (-1, flags, fmt, va)
  | c :: _ =>
    if isDigit c then
      let (width, fmt) := scanNumber fmt
      (width, flags, fmt, va)
    else if c = ch '*' then
      let width := va.argInt
      if width.toInt < 0 then (-width, { flags with left := true }, fmt, va.advance)
      else (width, flags, fmt, va.advance)
    else (-1, flags, fmt, va)

/-- The precision; here too a star takes an argument and stays where it is. -/
def precision (fmt : List Char8) (va : VaList) : BitVec 32 × List Char8 × VaList :=
  match fmt with
  | [] => (-1, fmt, va)
  | c :: rest =>
    if c = ch '.' then
      let (precision, fmt, va) :=
        match rest with
        | [] => (-1, rest, va)
        | second :: _ =>
          if isDigit second then
            let (precision, fmt) := scanNumber rest
            (precision, fmt, va)
          else if second = ch '*' then (va.argInt, rest, va.advance)
          else (-1, rest, va)
      (if precision.toInt < 0 then 0 else precision, fmt, va)
    else (-1, fmt, va)

/-- Everything of a directive that comes before its conversion letter. -/
def directive (fmt : List Char8) (va : VaList) : Directive :=
  let (flags, fmt) := scanFlags {} fmt
  let (fieldWidth, flags, fmt, va) := fieldWidth flags fmt va
  let (precision, fmt, va) := precision fmt va
  let (qualifier, fmt) := scanQualifier fmt
  { flags, fieldWidth, precision, qualifier, fmt, va }

/-- One round of the loop of `myprintf`; `none` stands for a write through a null `pos`. -/
def formatOne (strings : U64 → List Char8) (p : Printf) : Option Printf :=
  match p.fmt with
  | [] => some p
  | c :: rest =>
    if c ≠ ch '%' then some { p with fmt := rest, out := p.out ++ [c] }
    else
      let d := directive rest p.va
      match d.fmt with
      -- The format ends in the directive: its `--fmt` is undone by the loop.
      | [] => numberTail { d with fmt := [] } (p.out ++ [ch '%']) p.base p
      | letter :: behind =>
        match conversionOf letter with
        | some conversion => convert strings { d with fmt := behind } p conversion
        | none =>
          let mark := if letter ≠ ch '%' then [ch '%', letter] else [letter]
          numberTail { d with fmt := behind } (p.out ++ mark) p.base p

/-- So many rounds of a loop. -/
def rounds (one : Printf → Option Printf) : Nat → Printf → Option Printf
  | 0, p => some p
  | more + 1, p => (one p).bind (rounds one more)

/-- `myprintf`: every round takes a character of the format at least. -/
def myprintf (strings : U64 → List Char8) (fmt : List Char8) (va : VaList) (base : Int) :
    Option Printf :=
  rounds (formatOne strings) fmt.length { fmt, va, out := [], stores := [], base }

/-! ### Where the parts of a directive leave the format -/

theorem scanNumberFrom_length (tmp : BitVec 32) (fmt : List Char8) :
    (scanNumberFrom tmp fmt).2.length ≤ fmt.length := by
  -- Each digit is taken, and the first other character stops the scan.
  induction fmt generalizing tmp with
  | nil => exact Nat.le_refl 0
  | cons c rest ih =>
    rw [scanNumberFrom]
    split
    · exact Nat.le_succ_of_le (ih _)
    · exact Nat.le_refl _

theorem scanFlags_length (flags : Flags) (fmt : List Char8) :
    (scanFlags flags fmt).2.length ≤ fmt.length := by
  -- Each flag is taken, and the first other character stops the scan.
  induction fmt generalizing flags with
  | nil => exact Nat.le_refl 0
  | cons c rest ih =>
    rw [scanFlags]
    split
    · exact Nat.le_succ_of_le (ih _)
    · exact Nat.le_refl _

theorem scanQualifier_length (fmt : List Char8) :
    (scanQualifier fmt).2.length ≤ fmt.length := by
  cases fmt with
  | nil => exact Nat.le_refl 0
  | cons c rest =>
    simp only [scanQualifier]
    -- At most two letters are taken.
    split
    · cases rest with
      | nil => exact Nat.zero_le _
      | cons second behind =>
        dsimp only
        split
        · simp only [List.length_cons]
          omega
        · exact Nat.le_succ _
    · exact Nat.le_refl _

theorem fieldWidth_length (flags : Flags) (fmt : List Char8) (va : VaList) :
    (fieldWidth flags fmt va).2.2.1.length ≤ fmt.length := by
  cases fmt with
  | nil => exact Nat.le_refl 0
  | cons c rest =>
    rw [fieldWidth]
    -- A number is scanned, a star is taken, or nothing is.
    split
    · exact scanNumberFrom_length 0 (c :: rest)
    · split
      · dsimp only
        split <;> exact Nat.le_refl _
      · exact Nat.le_refl _

theorem precision_length (fmt : List Char8) (va : VaList) :
    (precision fmt va).2.1.length ≤ fmt.length := by
  cases fmt with
  | nil => exact Nat.le_refl 0
  | cons c rest =>
    simp only [precision]
    -- A period is taken, and perhaps a number or a star behind it.
    split
    · cases rest with
      | nil => exact Nat.zero_le _
      | cons second behind =>
        dsimp only
        split
        · exact Nat.le_succ_of_le (scanNumberFrom_length 0 (second :: behind))
        · split <;> exact Nat.le_succ _
    · exact Nat.le_refl _

/-- A directive ends within the format. -/
theorem directive_length (fmt : List Char8) (va : VaList) :
    (directive fmt va).fmt.length ≤ fmt.length := by
  -- The four parts are read one behind the other.
  have flags := scanFlags_length {} fmt
  have width := fieldWidth_length (scanFlags {} fmt).1 (scanFlags {} fmt).2 va
  have dot := precision_length (fieldWidth (scanFlags {} fmt).1 (scanFlags {} fmt).2 va).2.2.1
    (fieldWidth (scanFlags {} fmt).1 (scanFlags {} fmt).2 va).2.2.2
  have last := scanQualifier_length
    (precision (fieldWidth (scanFlags {} fmt).1 (scanFlags {} fmt).2 va).2.2.1
      (fieldWidth (scanFlags {} fmt).1 (scanFlags {} fmt).2 va).2.2.2).2.1
  exact Nat.le_trans last (Nat.le_trans dot (Nat.le_trans width flags))

/-- The tail goes on behind the directive, with one argument less to come. -/
theorem numberTail_some {d : Directive} {out : List Char8} {base : Int} {p next : Printf}
    (written : numberTail d out base p = some next) :
    next.fmt = d.fmt ∧ next.va = d.va.advance := by
  obtain ⟨text, -, rfl⟩ := Option.map_eq_some_iff.mp written
  exact ⟨rfl, rfl⟩

/-- So does every conversion, which always finds a base to write in. -/
theorem convert_some (strings : U64 → List Char8) (d : Directive) (p : Printf)
    (conversion : Conversion) :
    ∃ next, convert strings d p conversion = some next ∧ next.fmt = d.fmt ∧
      next.va = d.va.advance := by
  -- Every base that occurs is one that `number` takes.
  have tail (d : Directive) {base : Int} (low : 2 ≤ base) (high : base ≤ 36) :
      ∃ next, numberTail d p.out base p = some next ∧ next.fmt = d.fmt ∧
        next.va = d.va.advance := by
    obtain ⟨text, written⟩ := Option.isSome_iff_exists.mp
      (number_isSome (argNumber d.qualifier d.flags.sign d.va.arg) d.fieldWidth d.precision d.flags
        low high)
    exact ⟨_, by rw [numberTail, written]; rfl, rfl, rfl⟩
  -- Each conversion takes one argument and nothing of the format.
  cases conversion with
  | char => exact ⟨_, rfl, rfl, rfl⟩
  | string => exact ⟨_, rfl, rfl, rfl⟩
  | count => exact ⟨_, rfl, rfl, rfl⟩
  | pointer =>
    have written : (formatPointer d d.va.arg).isSome = true := by
      rw [formatPointer]
      split <;> exact number_isSome _ _ _ _ (by decide) (by decide)
    obtain ⟨text, written⟩ := Option.isSome_iff_exists.mp written
    exact ⟨_, by rw [convert, written]; rfl, rfl, rfl⟩
  | octal => exact tail d (by decide) (by decide)
  | hex small => exact tail { d with flags := _ } (by decide) (by decide)
  | decimal sign => exact tail { d with flags := _ } (by decide) (by decide)

/-- Every round takes a character of the format at least. -/
theorem formatOne_shorter {strings : U64 → List Char8} {p next : Printf} {c : Char8}
    {rest : List Char8} (start : p.fmt = c :: rest) (formatted : formatOne strings p = some next) :
    next.fmt.length ≤ rest.length := by
  simp only [formatOne, start] at formatted
  split at formatted
  · cases formatted
    exact Nat.le_refl _
  · -- A directive takes the percent sign and what belongs to it, and never gives back.
    have within := directive_length rest p.va
    split at formatted
    · rw [(numberTail_some formatted).1]
      exact Nat.zero_le _
    case h_2 letter behind found =>
      -- The letter itself is taken too.
      rw [found, List.length_cons] at within
      split at formatted
      case h_1 conversion named =>
        obtain ⟨other, converted, fmt, -⟩ :=
          convert_some strings { directive rest p.va with fmt := behind } p conversion
        rw [converted] at formatted
        cases formatted
        rw [fmt]
        exact Nat.le_of_succ_le within
      case h_2 =>
        rw [(numberTail_some formatted).1]
        exact Nat.le_of_succ_le within

/-- So many rounds as the format has characters reach its end. -/
theorem rounds_done {strings : U64 → List Char8} {more : Nat} {p final : Printf}
    (long : p.fmt.length ≤ more) (ran : rounds (formatOne strings) more p = some final) :
    final.fmt = [] := by
  induction more generalizing p with
  | zero =>
    cases ran
    exact List.eq_nil_of_length_eq_zero (Nat.le_zero.mp long)
  | succ more ih =>
    obtain ⟨next, formatted, ran⟩ := Option.bind_eq_some_iff.mp ran
    cases start : p.fmt with
    | nil =>
      -- At the end of the format a round changes nothing.
      simp only [formatOne, start] at formatted
      cases formatted
      exact ih (by rw [start]; exact Nat.zero_le _) ran
    | cons c rest =>
      rw [start, List.length_cons] at long
      exact ih (Nat.le_trans (formatOne_shorter start formatted) (Nat.le_of_succ_le_succ long)) ran

/-- `myprintf` reaches the end of its format, unless it writes through a null pointer. -/
theorem myprintf_done {strings : U64 → List Char8} {fmt : List Char8} {va : VaList} {base : Int}
    {final : Printf} (ran : myprintf strings fmt va base = some final) : final.fmt = [] :=
  rounds_done (p := { fmt, va, out := [], stores := [], base }) (Nat.le_refl _) ran

end Benos
