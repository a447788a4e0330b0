import Benos.Printk.Format

/-! Which argument each directive takes: by the rules of C, and in `myprintf`. -/

namespace Benos

/-! ### The rules of C -/

namespace CPrintf

/-- The field width by the rules of C: a star takes an `int` and is itself skipped. -/
def fieldWidth (flags : Flags) (fmt : List Char8) (va : VaList) :
    BitVec 32 × Flags × List Char8 × VaList :=
  match fmt with
  | [] => Benos.fieldWidth flags fmt va
  | c :: rest =>
    if c = ch '*' then
      let (width, flags, _, va) := Benos.fieldWidth flags fmt va
      (width, flags, rest, va)
    else Benos.fieldWidth flags fmt va

/-- The precision by the rules of C. -/
def precision (fmt : List Char8) (va : VaList) : BitVec 32 × List Char8 × VaList :=
  match fmt with
  | dot :: star :: rest =>
    if dot = ch '.' ∧ star = ch '*' then
      let (precision, _, va) := Benos.precision fmt va
      (precision, rest, va)
    else Benos.precision fmt va
  | _ => Benos.precision fmt va

/-- Everything of a directive that comes before its conversion letter. -/
def directive (fmt : List Char8) (va : VaList) : Directive :=
  let (flags, fmt) := scanFlags {} fmt
  let (fieldWidth, flags, fmt, va) := fieldWidth flags fmt va
  let (precision, fmt, va) := precision fmt va
  let (qualifier, fmt) := scanQualifier fmt
  { flags, fieldWidth, precision, qualifier, fmt, va }

/-- A character or a directive; only a conversion takes an argument besides its stars. -/
def formatOne (strings : U64 → List Char8) (p : Printf) : Option Printf :=
  match p.fmt with
  | [] => some p
  | c :: rest =>
    if c ≠ ch '%' then some { p with fmt := rest, out := p.out ++ [c] }
    else
      let d := directive rest p.va
      match d.fmt with
      | [] => some { p with fmt := [], va := d.va, out := p.out ++ [ch '%'] }
      | letter :: behind =>
        match conversionOf letter with
        | some conversion => convert strings { d with fmt := behind } p conversion
        | none =>
          let mark := if letter ≠ ch '%' then [ch '%', letter] else [letter]
          some { p with fmt := behind, va := d.va, out := p.out ++ mark }

end CPrintf

/-- The state without the variable that only numbers are written with. -/
def Printf.seen (p : Printf) : Printf := { p with base := 0 }

/-- After any number of rounds the same of the format is left, with the same arguments. -/
def TakesAsC (strings : U64 → List Char8) (p : Printf) : Prop :=
  ∀ more, (rounds (formatOne strings) more p).map Printf.seen =
    (rounds (CPrintf.formatOne strings) more p).map Printf.seen

/-- What is left of a format at the conversion letter of its directive. -/
def atLetter (fmt : List Char8) : List Char8 := (directive fmt { slots := fun _ => 0, next := 0 }).fmt

/-- A format whose directives are conversions, with digits for width and precision if any. -/
inductive Plain : List Char8 → Prop
  | done : Plain []
  | text {c : Char8} {rest : List Char8} (literal : c ≠ ch '%') (plain : Plain rest) :
    Plain (c :: rest)
  | conversion {rest behind : List Char8} {letter : Char8} {conversion : Conversion}
    (reads : atLetter rest = letter :: behind) (named : conversionOf letter = some conversion)
    (plain : Plain behind) : Plain (ch '%' :: rest)

/-! ### The format does not depend on the arguments -/

/-- What of the format is left behind the width does not depend on the arguments or the flags. -/
theorem fieldWidth_fmt (flags flags' : Flags) (fmt : List Char8) (va va' : VaList) :
    (fieldWidth flags fmt va).2.2.1 = (fieldWidth flags' fmt va').2.2.1 := by
  cases fmt with
  | nil => rfl
  | cons c rest =>
    simp only [fieldWidth]
    -- The three branches depend on the format only, and so does what they leave of it.
    split
    · rfl
    · split
      · split <;> split <;> rfl
      · rfl

theorem precision_fmt (fmt : List Char8) (va va' : VaList) :
    (precision fmt va).2.1 = (precision fmt va').2.1 := by
  cases fmt with
  | nil => rfl
  | cons c rest =>
    simp only [precision]
    -- Where no period stands, nothing is read.
    split
    · cases rest with
      | nil => rfl
      | cons second behind =>
        dsimp only
        split
        · rfl
        · split <;> rfl
    · rfl

/-- Nor does what is left at the conversion letter. -/
theorem directive_fmt (fmt : List Char8) (va : VaList) : (directive fmt va).fmt = atLetter fmt := by
  simp only [atLetter, directive]
  rw [fieldWidth_fmt (scanFlags {} fmt).1 (scanFlags {} fmt).1 (scanFlags {} fmt).2 va
    { slots := fun _ => 0, next := 0 }]
  rw [precision_fmt _ (fieldWidth (scanFlags {} fmt).1 (scanFlags {} fmt).2 va).2.2.2]

/-! ### Where a star leaves the two -/

/-- A star for the width takes an argument and stays the next character of the format. -/
theorem fieldWidth_star (flags : Flags) (rest : List Char8) (va : VaList) :
    ∃ width flags', fieldWidth flags (ch '*' :: rest) va =
      (width, flags', ch '*' :: rest, va.advance) := by
  have letter : isDigit (ch '*') = false := by decide
  simp only [fieldWidth, letter]
  by_cases negative : va.argInt.toInt < 0
  · exact ⟨-va.argInt, { flags with left := true }, by simp [negative]⟩
  · exact ⟨va.argInt, flags, by simp [negative]⟩

/-- Without a star no argument is taken. -/
theorem fieldWidth_va {flags : Flags} {c : Char8} {rest : List Char8} (other : c ≠ ch '*')
    (va : VaList) : (fieldWidth flags (c :: rest) va).2.2.2 = va := by
  simp only [fieldWidth]
  rw [if_neg other]
  split <;> rfl

/-- A star that was left where it is ends the directive. -/
theorem star_ends (rest : List Char8) (va : VaList) :
    precision (ch '*' :: rest) va = (-1, ch '*' :: rest, va) ∧
      scanQualifier (ch '*' :: rest) = (none, ch '*' :: rest) := by
  have dot : ch '*' ≠ ch '.' := by decide
  have letters : ¬ (ch '*' = ch 'h' ∨ ch '*' = ch 'l' ∨ ch '*' = ch 'L') := by decide
  constructor
  · simp only [precision, if_neg dot]
  · simp only [scanQualifier, if_neg letters]

/-- A star for the precision takes an argument and stays too. -/
theorem precision_star (rest : List Char8) (va : VaList) :
    ∃ width, precision (ch '.' :: ch '*' :: rest) va = (width, ch '*' :: rest, va.advance) := by
  have letter : isDigit (ch '*') = false := by decide
  refine ⟨if va.argInt.toInt < 0 then 0 else va.argInt, ?_⟩
  simp [precision, letter]

/-- By the rules of C the precision ends within the format too. -/
theorem cPrecision_length (fmt : List Char8) (va : VaList) :
    (CPrintf.precision fmt va).2.1.length ≤ fmt.length := by
  rw [CPrintf.precision.eq_def]
  -- A minus sign behind the period is taken, if it is there.
  split
  · split
    · simp only [List.length_cons]
      omega
    · exact precision_length _ _
  · exact precision_length _ _

/--
A directive is read by the rules of C, unless `myprintf` stops at a star of it.

It has then taken one argument, and what C leaves of the format is no longer than what stands
behind the star.
-/
theorem directive_star (fmt : List Char8) (va : VaList) :
    CPrintf.directive fmt va = directive fmt va ∨
      ∃ behind, (directive fmt va).fmt = ch '*' :: behind ∧
        (directive fmt va).va.next = va.next + 1 ∧
        (CPrintf.directive fmt va).fmt.length ≤ behind.length ∧
        (behind = [] → (CPrintf.directive fmt va).va.next = va.next + 1) := by
  simp only [directive, CPrintf.directive]
  generalize scanFlags {} fmt = scanned
  obtain ⟨flags, left⟩ := scanned
  dsimp only
  cases left with
  | nil => exact .inl rfl
  | cons c rest =>
    by_cases star : c = ch '*'
    · -- The width is a star: the rest of the directive is read from the star itself.
      subst star
      obtain ⟨width, flags', read⟩ := fieldWidth_star flags rest va
      obtain ⟨noDot, noLetter⟩ := star_ends rest va.advance
      simp only [CPrintf.fieldWidth, if_pos, read, noDot, noLetter]
      refine .inr ⟨rest, rfl, rfl, ?_, ?_⟩
      · exact Nat.le_trans (scanQualifier_length _) (cPrecision_length _ _)
      · rintro rfl
        rfl
    · -- Without a star the width takes no argument, and both read it alike.
      have sameWidth : CPrintf.fieldWidth flags (c :: rest) va = fieldWidth flags (c :: rest) va := by
        simp only [CPrintf.fieldWidth, if_neg star]
      have sameArgs : (fieldWidth flags (c :: rest) va).2.2.2 = va := fieldWidth_va star va
      rw [sameWidth]
      generalize fieldWidth flags (c :: rest) va = width at sameArgs ⊢
      obtain ⟨width, flags', left, va'⟩ := width
      obtain rfl : va' = va := sameArgs
      dsimp only
      -- A precision has two characters to look at, the dot and what follows it.
      rw [CPrintf.precision.eq_def]
      split
      case h_1 dot second behind =>
        by_cases both : dot = ch '.' ∧ second = ch '*'
        · -- The precision is a star, with the same effect.
          obtain ⟨rfl, rfl⟩ := both
          obtain ⟨width', read⟩ := precision_star behind va'
          obtain ⟨-, noLetter⟩ := star_ends behind va'.advance
          simp only [read, noLetter, and_self, if_true]
          refine .inr ⟨behind, rfl, rfl, scanQualifier_length _, fun _ => rfl⟩
        · rw [if_neg both]
          exact .inl rfl
      case h_2 => exact .inl rfl

/-! ### Where the two part -/

/-- A directive that ends in a conversion is treated by the rules of C. -/
theorem formatOne_conversion {strings : U64 → List Char8} {p : Printf} {rest behind : List Char8}
    {letter : Char8} {conversion : Conversion} (start : p.fmt = ch '%' :: rest)
    (reads : atLetter rest = letter :: behind) (named : conversionOf letter = some conversion) :
    ∃ next, formatOne strings p = some next ∧ CPrintf.formatOne strings p = some next ∧
      next.fmt = behind := by
  have found : (directive rest p.va).fmt = letter :: behind := (directive_fmt rest p.va).trans reads
  -- No conversion is called `*`, so no star was left behind.
  have same : CPrintf.directive rest p.va = directive rest p.va := by
    rcases directive_star rest p.va with same | ⟨other, star, -⟩
    · exact same
    · rw [found] at star
      have unnamed : conversionOf (ch '*') = none := rfl
      rw [(List.cons.inj star).1, unnamed] at named
      cases named
  obtain ⟨next, converted, fmt, -⟩ :=
    convert_some strings { directive rest p.va with fmt := behind } p conversion
  -- Both have read the same letter, and convert it the same way.
  refine ⟨next, ?_, ?_, fmt⟩
  · simp only [formatOne, start, found, named]
    rw [if_neg (by decide)]
    exact converted
  · simp only [CPrintf.formatOne, start, same, found, named]
    rw [if_neg (by decide)]
    exact converted

/-- By the rules of C a directive is always written, and ends within the format. -/
theorem cFormatOne_some (strings : U64 → List Char8) {p : Printf} {rest : List Char8}
    (start : p.fmt = ch '%' :: rest) :
    ∃ next, CPrintf.formatOne strings p = some next ∧
      (((CPrintf.directive rest p.va).fmt = [] ∧ next.fmt = [] ∧
          next.va = (CPrintf.directive rest p.va).va) ∨
        ∃ letter, (CPrintf.directive rest p.va).fmt = letter :: next.fmt ∧
          (conversionOf letter = none → next.va = (CPrintf.directive rest p.va).va)) := by
  simp only [CPrintf.formatOne, start]
  rw [if_neg (by decide)]
  -- The directive may end with the format, without a letter.
  cases found : (CPrintf.directive rest p.va).fmt with
  | nil => exact ⟨_, rfl, .inl ⟨rfl, rfl, rfl⟩⟩
  | cons letter behind =>
    dsimp only
    cases named : conversionOf letter with
    | none => exact ⟨_, rfl, .inr ⟨letter, rfl, fun _ => rfl⟩⟩
    | some conversion =>
      obtain ⟨next, converted, fmt, -⟩ :=
        convert_some strings { CPrintf.directive rest p.va with fmt := behind } p conversion
      refine ⟨next, converted, .inr ⟨letter, by rw [fmt], ?_⟩⟩
      rw [named]
      rintro ⟨⟩

/-- Any other directive runs into the common tail, which takes one argument more. -/
theorem formatOne_other {strings : U64 → List Char8} {p next : Printf} {rest : List Char8}
    (start : p.fmt = ch '%' :: rest)
    (other : ∀ letter behind, atLetter rest = letter :: behind → conversionOf letter = none)
    (formatted : formatOne strings p = some next) :
    next.va.next = (directive rest p.va).va.next + 1 ∧ next.fmt = (atLetter rest).tail := by
  simp only [formatOne, start] at formatted
  rw [if_neg (by decide)] at formatted
  have found := directive_fmt rest p.va
  -- Without a letter, or with an unknown one, the number tail is taken.
  cases left : atLetter rest with
  | nil =>
    rw [left] at found
    simp only [found] at formatted
    obtain ⟨fmt, va⟩ := numberTail_some formatted
    exact ⟨congrArg VaList.next va, fmt⟩
  | cons letter behind =>
    rw [left] at found
    simp only [found, other letter behind left] at formatted
    obtain ⟨fmt, va⟩ := numberTail_some formatted
    exact ⟨congrArg VaList.next va, fmt⟩

/-- So it leaves another state than C does. -/
theorem formatOne_differs {strings : U64 → List Char8} {p : Printf} {rest : List Char8}
    (start : p.fmt = ch '%' :: rest)
    (other : ∀ letter behind, atLetter rest = letter :: behind → conversionOf letter = none) :
    (formatOne strings p).map Printf.seen ≠ (CPrintf.formatOne strings p).map Printf.seen := by
  intro same
  obtain ⟨next', written', shape⟩ := cFormatOne_some strings start
  rw [written', Option.map_some] at same
  obtain ⟨next, written, seen⟩ := Option.map_eq_some_iff.mp same
  obtain ⟨taken, fmt⟩ := formatOne_other start other written
  -- What can be seen is the rest of the format and the number of arguments taken.
  have sameFmt : next.fmt = next'.fmt :=
    show next.seen.fmt = next'.seen.fmt from congrArg Printf.fmt seen
  have sameNext : next.va.next = next'.va.next :=
    show next.seen.va.next = next'.seen.va.next from congrArg (·.va.next) seen
  have found := directive_fmt rest p.va
  rcases directive_star rest p.va with read | ⟨behind, star, stars, short, ended⟩
  · -- Both have read the same directive, and only `myprintf` takes an argument for it.
    rw [read, found] at shape
    have cTaken : next'.va = (directive rest p.va).va := by
      rcases shape with ⟨-, -, va⟩ | ⟨letter, left, va⟩
      · exact va
      · exact va (other letter _ left)
    rw [cTaken] at sameNext
    omega
  · -- Behind a star C has either gone further in the format, or reached its end.
    rw [found] at star
    rw [star, List.tail_cons] at fmt
    rw [fmt] at sameFmt
    rcases shape with ⟨left, done, va⟩ | ⟨letter, left, -⟩
    · rw [done] at sameFmt
      rw [va, ended sameFmt] at sameNext
      omega
    · rw [left, List.length_cons, ← sameFmt] at short
      omega

/-- At the end of the format neither changes anything. -/
theorem rounds_nil {one : Printf → Option Printf} {p : Printf} (stays : one p = some p)
    (more : Nat) : rounds one more p = some p := by
  induction more with
  | zero => rfl
  | succ more ih => rw [rounds, stays, Option.bind_some, ih]

/-- One round. -/
theorem rounds_one (one : Printf → Option Printf) (p : Printf) : rounds one 1 p = one p := by
  rw [rounds]
  cases one p <;> rfl

/-- Rounds that begin alike. -/
theorem takesAsC_next {strings : U64 → List Char8} {p next : Printf}
    (code : formatOne strings p = some next) (rules : CPrintf.formatOne strings p = some next) :
    TakesAsC strings p ↔ TakesAsC strings next := by
  -- The first round is the same on both sides, so the counts of rounds differ by one.
  constructor
  · intro same more
    have later := same (more + 1)
    simpa only [rounds, code, rules, Option.bind_some] using later
  · intro same more
    cases more with
    | zero => rfl
    | succ more => simpa only [rounds, code, rules, Option.bind_some] using same more

/--
`myprintf` takes the arguments C does exactly for formats of conversions without stars.

This holds at every argument list and whatever the base variable holds when the call begins.
-/
theorem takesAsC_iff (strings : U64 → List Char8) (p : Printf) :
    TakesAsC strings p ↔ Plain p.fmt := by
  -- The induction is on the length of the format, which every round shortens.
  induction long : p.fmt.length using Nat.strongRecOn generalizing p with
  | ind size ih =>
    cases start : p.fmt with
    | nil =>
      refine ⟨fun _ => .done, fun _ more => ?_⟩
      rw [rounds_nil (by simp only [formatOne, start]) more,
        rounds_nil (by simp only [CPrintf.formatOne, start]) more]
    | cons c rest =>
      have longer : rest.length < size := by
        rw [← long, start]
        exact Nat.lt_succ_self _
      -- A character of the text is copied by both, and a directive is converted or not.
      by_cases literal : c ≠ ch '%'
      · have code : formatOne strings p = some { p with fmt := rest, out := p.out ++ [c] } := by
          simp only [formatOne, start]
          rw [if_pos literal]
        have rules : CPrintf.formatOne strings p =
            some { p with fmt := rest, out := p.out ++ [c] } := by
          simp only [CPrintf.formatOne, start]
          rw [if_pos literal]
        rw [takesAsC_next code rules,
          ih rest.length longer { p with fmt := rest, out := p.out ++ [c] } rfl]
        refine ⟨fun plain => .text literal plain, ?_⟩
        rintro (_ | ⟨-, plain⟩ | _)
        · exact plain
        · exact absurd rfl literal
      · obtain rfl : c = ch '%' := not_not.mp literal
        by_cases plain : ∃ letter behind conversion, atLetter rest = letter :: behind ∧
            conversionOf letter = some conversion
        · -- A conversion is done by both, and the rest is shorter.
          obtain ⟨letter, behind, conversion, reads, named⟩ := plain
          obtain ⟨next, code, rules, fmt⟩ : ∃ next, formatOne strings p = some next ∧
              CPrintf.formatOne strings p = some next ∧ next.fmt = behind :=
            formatOne_conversion start reads named
          have shorter : next.fmt.length < size :=
            Nat.lt_of_le_of_lt (formatOne_shorter start code) longer
          rw [takesAsC_next code rules, ih _ shorter next rfl, fmt]
          refine ⟨fun plain => .conversion reads named plain, ?_⟩
          -- A format is read in one way only, so the other shapes are excluded.
          rintro (_ | ⟨other, -⟩ | ⟨reads', -, plain⟩)
          · exact absurd rfl other
          · rw [reads] at reads'
            obtain ⟨-, rfl⟩ := List.cons.inj reads'
            exact plain
        · -- The directive is not a conversion: the first round already differs.
          have other : ∀ letter behind, atLetter rest = letter :: behind →
              conversionOf letter = none := by
            intro letter behind reads
            cases named : conversionOf letter with
            | none => rfl
            | some conversion => exact absurd ⟨letter, behind, conversion, reads, named⟩ plain
          constructor
          · intro same
            -- Equal at every length of a run, they are equal after the first round.
            have first := same 1
            rw [rounds_one, rounds_one] at first
            exact absurd first (formatOne_differs start other)
          · rintro (_ | ⟨literal, -⟩ | ⟨reads, named, -⟩)
            · exact absurd rfl literal
            · exact absurd ⟨_, _, _, reads, named⟩ plain

/-- `%%` after a decimal conversion takes an argument that the format does not name. -/
theorem percent_takes_argument : ¬ ∀ strings p, TakesAsC strings p := by
  intro same
  let p : Printf :=
    { fmt := [ch '%', ch '%'], va := { slots := fun _ => 7, next := 0 }, out := [], stores := [],
      base := 10 }
  have first := congrArg (Option.map (·.va.next)) (same (fun _ => []) p 1)
  -- The common tail has read the argument, the rules of C have not.
  revert first
  decide

end Benos
