import Mathlib.Algebra.Ring.Int.Defs
import Benos.Lib.Transition
import Benos.Printk.Width

/-! Which places of its buffers `printk` touches, for every format, arguments and earlier calls. -/

namespace Benos

/-! ### What a round writes -/

/-- Something that one round writes, as the format and the arguments ask for it. -/
inductive Piece where
  | text (chars : Nat)
  | char (width : BitVec 32) (left : Bool)
  | string (width precision : BitVec 32) (length : Nat) (left : Bool)
  | number (num : U64) (base : Int) (width precision : BitVec 32) (flags : Flags)

namespace Piece

/-- How many characters it has. -/
def length : Piece → Int
  | .text chars => chars
  | .char width left => charLength width left
  | .string width precision length left => stringLength width precision length left
  | .number num base width precision flags => numberLength num base width precision flags

/-- Whether `number` has digits for its base. -/
def Served : Piece → Prop
  | .number _ base _ _ _ => 2 ≤ base ∧ base ≤ 36
  | _ => True

/-- No piece is shorter than nothing. -/
theorem length_nonneg (piece : Piece) : 0 ≤ piece.length := by
  cases piece with
  | text chars => exact Int.natCast_nonneg _
  | char width left =>
    have blanks := countdown_nonneg (blankLoops left) (wrapInt (width.toInt - 1))
    simp only [length, charLength]
    omega
  -- A string may be cut, but not to less than nothing.
  | string width precision length left =>
    simp only [Piece.length, stringLength, stringPart]
    split_ifs <;> omega
  | number num base width precision flags =>
    have padding := countdown_nonneg (widthLoops flags)
      (wrapInt (spareWidth num base width precision flags))
    simp only [length, numberLength, digitsLength]
    omega

end Piece

/-- How far the format and the arguments have been read, and the base left behind. -/
structure Cursor where
  fmt : List Char8
  va : VaList
  base : Int

/-- Where the formatter stands. -/
def Printf.cursor (p : Printf) : Cursor := { fmt := p.fmt, va := p.va, base := p.base }

/-- The number that the common tail writes. -/
def tailPiece (d : Directive) (base : Int) : Piece :=
  .number (argNumber d.qualifier d.flags.sign d.va.arg) base d.fieldWidth d.precision d.flags

/-- What a conversion writes, and the base it leaves behind. -/
def conversionPieces (strings : U64 → List Char8) (d : Directive) (base : Int) :
    Conversion → List Piece × Int
  | .char => ([.char d.fieldWidth d.flags.left], base)
  | .string => ([.string d.fieldWidth d.precision
      (if d.va.arg = 0 then nullText else strings d.va.arg).length d.flags.left], base)
  | .count => ([], base)
  | .pointer =>
    ([if d.fieldWidth = -1 then .number d.va.arg 16 16 d.precision { d.flags with zeropad := true }
      else .number d.va.arg 16 d.fieldWidth d.precision d.flags], base)
  | .octal => ([tailPiece d 8], 8)
  | .hex small =>
    ([tailPiece { d with flags := { d.flags with small := d.flags.small || small } } 16], 16)
  | .decimal sign =>
    ([tailPiece { d with flags := { d.flags with sign := d.flags.sign || sign } } 10], 10)

/-- What one round writes, and where it leaves the format. -/
def piecesOne (strings : U64 → List Char8) (c : Cursor) : List Piece × Cursor :=
  match c.fmt with
  | [] => ([], c)
  | char :: rest =>
    if char ≠ ch '%' then ([.text 1], { c with fmt := rest })
    else
      let d := directive rest c.va
      match d.fmt with
      | [] => ([.text 1, tailPiece d c.base], { c with fmt := [], va := d.va.advance })
      | letter :: behind =>
        match conversionOf letter with
        | some conversion =>
          let (pieces, base) := conversionPieces strings d c.base conversion
          (pieces, { fmt := behind, va := d.va.advance, base })
        | none =>
          ([.text (if letter ≠ ch '%' then 2 else 1), tailPiece d c.base],
            { c with fmt := behind, va := d.va.advance })

/-- What so many rounds write. -/
def pieces (strings : U64 → List Char8) : Nat → Cursor → List Piece
  | 0, _ => []
  | more + 1, c => (piecesOne strings c).1 ++ pieces strings more (piecesOne strings c).2

/-- All of these can be written, and leave room for the terminator. -/
def FitIn (size : Nat) (pieces : List Piece) : Prop :=
  (∀ piece ∈ pieces, piece.Served) ∧ (pieces.map Piece.length).sum < size

/-- A round writes what its pieces say, or one of them is a number in a base without digits. -/
def Writes (p : Printf) (now : List Piece) (c : Cursor) : Option Printf → Prop
  | none => ∃ piece ∈ now, ¬ piece.Served
  | some next => (∀ piece ∈ now, piece.Served) ∧
      (next.out.length : Int) = p.out.length + (now.map Piece.length).sum ∧ next.cursor = c

/-- A number is written, as long as its piece says, or it is in a base without digits. -/
theorem number_cases (num : U64) (base : Int) (size precision : BitVec 32) (type : Flags) :
    ((Piece.number num base size precision type).Served ∧
      ∃ text, number num base size precision type = some text ∧
        (text.length : Int) = (Piece.number num base size precision type).length) ∨
    (¬ (Piece.number num base size precision type).Served ∧
      number num base size precision type = none) := by
  simp only [Piece.Served]
  -- The function refuses a base exactly when the piece is not served.
  cases written : number num base size precision type with
  | none =>
    have unserved := (number_none_iff _ _ _ _ _).mp written
    exact Or.inr ⟨by omega, rfl⟩
  | some text =>
    have served := mt (number_none_iff num base size precision type).mpr
      (written ▸ Option.some_ne_none text)
    exact Or.inl ⟨by omega, text, rfl, number_length written⟩

/-- A number is written behind what the round has written before it. -/
theorem number_writes (num : U64) (base : Int) (size precision : BitVec 32) (type : Flags)
    {out : List Char8} {p : Printf} {before : List Piece} {c : Cursor} {next : List Char8 → Printf}
    (served : ∀ piece ∈ before, piece.Served)
    (written : (out.length : Int) = p.out.length + (before.map Piece.length).sum)
    (appended : ∀ text, (next text).out = out ++ text ∧ (next text).cursor = c) :
    Writes p (before ++ [.number num base size precision type]) c
      ((number num base size precision type).map next) := by
  rcases number_cases num base size precision type with
    ⟨digits, text, found, length⟩ | ⟨unserved, found⟩
  · -- The digits are one more piece of the text.
    rw [found]
    refine ⟨fun piece member => ?_, ?_, (appended text).2⟩
    · rcases List.mem_append.mp member with old | new
      · exact served piece old
      · rw [List.mem_singleton.mp new]
        exact digits
    · rw [(appended text).1, List.map_append, List.sum_append, List.length_append,
        Int.natCast_add, written, length, List.map_singleton, List.sum_singleton]
      omega
  · -- The digits are one more piece of the text.
    rw [found]
    exact ⟨_, List.mem_append_right _ (List.mem_singleton_self _), unserved⟩

/-- The common tail writes its number behind what is already there. -/
theorem numberTail_writes (d : Directive) {out : List Char8} (base : Int) {p : Printf}
    (before : List Piece) (served : ∀ piece ∈ before, piece.Served)
    (written : (out.length : Int) = p.out.length + (before.map Piece.length).sum) :
    Writes p (before ++ [tailPiece d base]) { fmt := d.fmt, va := d.va.advance, base }
      (numberTail d out base p) :=
  number_writes _ _ _ _ _ served written fun _ => ⟨rfl, rfl⟩

/-- A conversion writes its pieces. -/
theorem convert_writes (strings : U64 → List Char8) (d : Directive) (p : Printf)
    (conversion : Conversion) :
    Writes p (conversionPieces strings d p.base conversion).1
      { fmt := d.fmt, va := d.va.advance,
        base := (conversionPieces strings d p.base conversion).2 }
      (convert strings d p conversion) := by
  -- Before a numeric conversion nothing of the round has been written.
  have nothing : (p.out.length : Int) = p.out.length + (([] : List Piece).map Piece.length).sum := by
    simp
  have none_before : ∀ piece ∈ ([] : List Piece), piece.Served := by simp
  cases conversion with
  | char =>
    refine ⟨by simp [conversionPieces, Piece.Served], ?_, rfl⟩
    simp [conversionPieces, Piece.length, formatChar_length]
  | string =>
    refine ⟨by simp [conversionPieces, Piece.Served], ?_, rfl⟩
    simp [conversionPieces, Piece.length, formatString_length]
  | count => exact ⟨by simp [conversionPieces], by simp [conversionPieces], rfl⟩
  | pointer =>
    simp only [convert, conversionPieces, formatPointer]
    split <;> exact number_writes _ _ _ _ _ none_before nothing fun _ => ⟨rfl, rfl⟩
  | octal => exact numberTail_writes d 8 [] none_before nothing
  | hex small => exact numberTail_writes { d with flags := _ } 16 [] none_before nothing
  | decimal sign => exact numberTail_writes { d with flags := _ } 10 [] none_before nothing

/-- One round writes its pieces. -/
theorem formatOne_writes (strings : U64 → List Char8) (p : Printf) :
    Writes p (piecesOne strings p.cursor).1 (piecesOne strings p.cursor).2 (formatOne strings p) := by
  simp only [piecesOne, formatOne, Printf.cursor]
  cases start : p.fmt with
  | nil =>
    refine ⟨by simp, by simp, ?_⟩
    rw [Printf.cursor, start]
  | cons c rest =>
    dsimp only
    by_cases literal : c ≠ ch '%'
    · rw [if_pos literal, if_pos literal]
      exact ⟨by simp [Piece.Served], by simp [Piece.length], rfl⟩
    · rw [if_neg literal, if_neg literal]
      cases found : (directive rest p.va).fmt with
      | nil =>
        -- The format ends in the directive: the percent sign, then the common tail.
        exact numberTail_writes { directive rest p.va with fmt := [] } p.base [.text 1]
          (by simp [Piece.Served]) (by simp [Piece.length])
      | cons letter behind =>
        dsimp only
        cases named : conversionOf letter with
        | some conversion =>
          exact convert_writes strings { directive rest p.va with fmt := behind } p conversion
        | none =>
          refine numberTail_writes { directive rest p.va with fmt := behind } p.base
            [.text (if letter ≠ ch '%' then 2 else 1)] (by simp [Piece.Served]) ?_
          split <;> simp [Piece.length]

/-! ### Where a run stores -/

/-- The offsets from `string` at which so many rounds and the terminator store, or a null pointer. -/
def stored (strings : U64 → List Char8) : Nat → Printf → List (Option Nat)
  | 0, p => [some p.out.length]
  | more + 1, p =>
    match formatOne strings p with
    | none => [none]
    | some next =>
      (List.range' p.out.length (next.out.length - p.out.length)).map some ++
        stored strings more next

/-- The stores stay inside a buffer of this size. -/
def StaysIn (size : Nat) (places : List (Option Nat)) : Prop :=
  ∀ place ∈ places, ∃ i < size, place = some i

/-- Pieces that are written in rounds have no negative length together. -/
theorem sum_length_nonneg (now : List Piece) : 0 ≤ (now.map Piece.length).sum := by
  induction now with
  | nil => exact Int.le_refl 0
  | cons piece rest ih =>
    -- A sum of lengths is built from lengths.
    have first := piece.length_nonneg
    rw [List.map_cons, List.sum_cons]
    omega

/-- The stores of a run stay inside just when its pieces fit. -/
theorem stored_staysIn (strings : U64 → List Char8) (more : Nat) (size : Nat) (p : Printf) :
    StaysIn size (stored strings more p) ↔
      (∀ piece ∈ pieces strings more p.cursor, piece.Served) ∧
        p.out.length + ((pieces strings more p.cursor).map Piece.length).sum < size := by
  induction more generalizing p with
  | zero => simp [stored, pieces, StaysIn]
  | succ more ih =>
    have writes := formatOne_writes strings p
    rw [stored, pieces]
    cases formatted : formatOne strings p with
    | none =>
      rw [formatted] at writes
      obtain ⟨piece, member, unserved⟩ := writes
      -- The store through the null pointer is in no buffer.
      refine iff_of_false (fun inside => ?_) fun fits =>
        unserved (fits.1 piece (List.mem_append_left _ member))
      obtain ⟨i, -, null⟩ := inside none (List.mem_singleton_self _)
      cases null
    | some next =>
      rw [formatted] at writes
      obtain ⟨served, length, cursor⟩ := writes
      have rest := ih next
      rw [cursor] at rest
      -- No length is below zero, so what is stored later only goes further.
      have nonneg := sum_length_nonneg (piecesOne strings p.cursor).1
      have later := sum_length_nonneg (pieces strings more (piecesOne strings p.cursor).2)
      rw [List.map_append, List.sum_append]
      constructor
      · intro inside
        obtain ⟨others, fits⟩ := rest.mp fun place member =>
          inside place (List.mem_append_right _ member)
        refine ⟨fun piece member => ?_, by omega⟩
        rcases List.mem_append.mp member with now | after
        · exact served piece now
        · exact others piece after
      · rintro ⟨all, fits⟩ place member
        rcases List.mem_append.mp member with now | after
        · -- What this round stores is in front of everything that comes later.
          obtain ⟨i, range, rfl⟩ := List.mem_map.mp now
          have within := List.mem_range'_1.mp range
          exact ⟨i, by omega, rfl⟩
        · exact rest.mpr ⟨fun piece member => all piece (List.mem_append_right _ member), by omega⟩
            place after

/-- Rounds whose pieces can all be written end, with a text that is as long as the pieces. -/
theorem rounds_length (strings : U64 → List Char8) (more : Nat) (p : Printf)
    (served : ∀ piece ∈ pieces strings more p.cursor, piece.Served) :
    ∃ final, rounds (formatOne strings) more p = some final ∧ (final.out.length : Int) =
      p.out.length + ((pieces strings more p.cursor).map Piece.length).sum := by
  induction more generalizing p with
  | zero => exact ⟨p, rfl, by simp [pieces]⟩
  | succ more ih =>
    have writes := formatOne_writes strings p
    rw [pieces] at served ⊢
    cases formatted : formatOne strings p with
    | none =>
      rw [formatted] at writes
      obtain ⟨piece, member, unserved⟩ := writes
      exact absurd (served piece (List.mem_append_left _ member)) unserved
    | some next =>
      rw [formatted] at writes
      obtain ⟨-, length, cursor⟩ := writes
      have rest := ih next
      rw [cursor] at rest
      -- The rest of the rounds goes on behind what the first one has written.
      obtain ⟨final, ran, total⟩ := rest fun piece member =>
        served piece (List.mem_append_right _ member)
      refine ⟨final, by rw [rounds, formatted, Option.bind_some, ran], ?_⟩
      rw [List.map_append, List.sum_append]
      omega

/-! ### Calls of `printk` -/

/-- A call of `printk`: its arguments, the strings in memory, and what `base` holds at its start. -/
structure PrintkCall where
  strings : U64 → List Char8
  fmt : List Char8
  va : VaList
  base : Int

namespace PrintkCall

/-- `myprintf` at its start. -/
def start (c : PrintkCall) : Printf :=
  { fmt := c.fmt, va := c.va, out := [], stores := [], base := c.base }

/-- What the format and the arguments ask for. -/
def pieces (c : PrintkCall) : List Piece := Benos.pieces c.strings c.fmt.length c.start.cursor

/-- Where `myprintf` stores through `pos`, as offsets from `string`. -/
def stored (c : PrintkCall) : List (Option Nat) := Benos.stored c.strings c.fmt.length c.start

/-- The text that `myprintf` has formatted. -/
def text (c : PrintkCall) : Option (List Char8) :=
  (myprintf c.strings c.fmt c.va c.base).map Printf.out

/-- `myprintf` stays inside its buffer just when what is asked for fits. -/
theorem stored_staysIn (c : PrintkCall) (size : Nat) :
    StaysIn size c.stored ↔ FitIn size c.pieces := by
  refine (Benos.stored_staysIn c.strings c.fmt.length size c.start).trans ?_
  simp [FitIn, pieces, start]

/-- What fits is formatted, and shorter than the buffer. -/
theorem text_of_fitIn {c : PrintkCall} {size : Nat} (fit : FitIn size c.pieces) :
    ∃ text, c.text = some text ∧ text.length < size := by
  obtain ⟨final, ran, length⟩ := rounds_length c.strings c.fmt.length c.start fit.1
  refine ⟨final.out, ?_, ?_⟩
  · -- The rounds end with the whole text in the output.
    show (rounds (formatOne c.strings) c.fmt.length c.start).map Printf.out = _
    rw [ran]
    rfl
  · -- Before the first round nothing has been written.
    have short := fit.2
    have empty : (c.start.out.length : Int) = 0 := rfl
    rw [empty] at length
    rw [pieces] at short
    omega

end PrintkCall

/-- A byte that `printk` reads or writes; the last one is at a null pointer. -/
inductive PrintkPlace where
  | printBuf (i : Nat)
  | logBuf (i : Nat)
  | null

/-- Whether it is in one of the two buffers. -/
def PrintkPlace.Inside : PrintkPlace → Prop
  | .printBuf i => i < consolePrintBufferSize
  | .logBuf i => i < logBufLen
  | .null => False

/-- What changes the variables of `printk.c`. -/
inductive PrintkEvent where
  | printk (c : PrintkCall)
  | initPrintkDone

namespace Printk

/-- The bytes that `printk` reads of the formatted text, and those it copies it to. -/
def copied (p : Printk) (text : List Char8) : List PrintkPlace :=
  match p.status with
  | .down => (List.range text.length).flatMap fun i => [.printBuf i, .logBuf (p.record + i)]
  | .ready => (List.range (putAll 0 text).length).map .printBuf

/-- All the bytes of its buffers that a call touches. -/
def touched (p : Printk) (c : PrintkCall) : List PrintkPlace :=
  c.stored.map (fun place => place.elim .null .printBuf) ++ c.text.elim [] p.copied

/-- An event; a call that writes through a null pointer does not return. -/
def event : PrintkEvent → Printk → Option Printk
  | .printk c, p => c.text.map p.printk
  | .initPrintkDone, p => some p.initPrintkDone

/-- No more than the text is put out. -/
theorem putAll_length_le (i : Nat) (text : List Char8) : (putAll i text).length ≤ text.length := by
  induction text generalizing i with
  | nil => exact Nat.le_refl 0
  | cons c rest ih =>
    rw [putAll, List.length_cons, List.length_cons]
    -- A character that ends the buffer ends the text, too.
    split
    · exact Nat.succ_le_succ (Nat.zero_le _)
    · exact Nat.succ_le_succ (ih _)

/-- A text that fits is copied inside both buffers while the log is not far ahead. -/
theorem copied_inside {p : Printk} (near : p.record < consolePrintBufferSize) {text : List Char8}
    (fits : Fits text) : ∀ place ∈ p.copied text, place.Inside := by
  intro place member
  have log : consolePrintBufferSize + consolePrintBufferSize ≤ logBufLen := by decide
  rw [Fits] at fits
  rw [copied] at member
  split at member
  · obtain ⟨i, range, among⟩ := List.mem_flatMap.mp member
    have within := List.mem_range.mp range
    -- Two texts side by side are far from the end of the log.
    rcases List.mem_pair.mp among with rfl | rfl
    · exact Nat.lt_trans within fits
    · show p.record + i < logBufLen
      omega
  · obtain ⟨i, range, rfl⟩ := List.mem_map.mp member
    have within := List.mem_range.mp range
    have whole := putAll_length_le 0 text
    show i < consolePrintBufferSize
    omega

/-- A call stays inside the buffers just when what it asks for fits `print_buf`. -/
theorem touched_inside_iff {p : Printk} (near : p.record < consolePrintBufferSize)
    (c : PrintkCall) :
    (∀ place ∈ p.touched c, place.Inside) ↔ FitIn consolePrintBufferSize c.pieces := by
  rw [← c.stored_staysIn]
  constructor
  · -- A write outside of the buffer would be one of the places.
    intro inside place member
    have there := inside _ (List.mem_append_left _ (List.mem_map_of_mem member))
    cases place with
    | none => exact there.elim
    | some i => exact ⟨i, there, rfl⟩
  · -- A text that stays inside is short enough to be copied to the log.
    intro stays place member
    obtain ⟨text, found, short⟩ := PrintkCall.text_of_fitIn ((c.stored_staysIn _).mp stays)
    rcases List.mem_append.mp member with formatted | copied
    · obtain ⟨offset, among, rfl⟩ := List.mem_map.mp formatted
      obtain ⟨i, within, rfl⟩ := stays offset among
      exact within
    · rw [found] at copied
      exact copied_inside near short place copied

/-- After a call that fits, the next early message begins less than one buffer into the log. -/
theorem event_near {e : PrintkEvent} {p next : Printk} (near : p.record < consolePrintBufferSize)
    (fit : ∀ c, e = .printk c → FitIn consolePrintBufferSize c.pieces)
    (taken : event e p = some next) : next.record < consolePrintBufferSize := by
  cases e with
  | printk c =>
    -- It begins as far into the log as this one is long, or where it did before.
    obtain ⟨text, found, short⟩ := PrintkCall.text_of_fitIn (fit c rfl)
    rw [event, found, Option.map_some, Option.some_inj] at taken
    subst taken
    rw [printk]
    split
    · exact short
    · exact near
  | initPrintkDone =>
    cases taken
    exact Nat.zero_lt_of_lt near

/-- So it does after every history of calls that fit. -/
theorem near_of_history {history : List PrintkEvent} {p : Printk}
    (fit : ∀ c, .printk c ∈ history → FitIn consolePrintBufferSize c.pieces)
    (ran : Transition.run event history boot = some p) : p.record < consolePrintBufferSize := by
  let fits : PrintkEvent → Printk → Prop := fun e _ =>
    ∀ c, e = .printk c → FitIn consolePrintBufferSize c.pieces
  -- Every message of the history is one that fits.
  have all : ∀ earlier e later mid, history = earlier ++ e :: later →
      Transition.run event earlier boot = some mid → fits e mid := by
    rintro earlier e later mid rfl - c rfl
    exact fit c (List.mem_append_right _ List.mem_cons_self)
  have keeps : ∀ e before after, before.record < consolePrintBufferSize → fits e before →
      event e before = some after → after.record < consolePrintBufferSize :=
    fun _ _ _ => event_near
  have start : boot.record < consolePrintBufferSize := by decide
  -- A message that fits leaves the place in the log in range.
  exact Transition.run_invariant_on keeps start ran all

/--
`myprintf` stays inside a buffer of any size just when the pieces that the format asks for, each as
long as its argument, width and precision make it, are together shorter than the buffer, and no
number is asked for in a base without digits. After any history of calls that all fit `print_buf`,
with the console coming up anywhere among them, `printk` touches nothing outside of `print_buf` and
`log_buf` just when the next call fits too.
-/
theorem buffers_inside_iff {history : List PrintkEvent} {p : Printk}
    (fit : ∀ c, .printk c ∈ history → FitIn consolePrintBufferSize c.pieces)
    (ran : Transition.run event history boot = some p) :
    (∀ (c : PrintkCall) (size : Nat), StaysIn size c.stored ↔ FitIn size c.pieces) ∧
    ∀ c, (∀ place ∈ p.touched c, place.Inside) ↔ FitIn consolePrintBufferSize c.pieces :=
  ⟨PrintkCall.stored_staysIn, touched_inside_iff (near_of_history fit ran)⟩

/-- A call with a format and no arguments. -/
def plainCall (fmt : List Char8) : PrintkCall :=
  { strings := fun _ => [], fmt, va := { slots := fun _ => 0, next := 0 }, base := 10 }

/-- After one short message that is kept in the log another one fits too. -/
theorem buffers_inside_second :
    FitIn consolePrintBufferSize (plainCall [ch 'b']).pieces ∧
      ∀ place ∈ (boot.printk [ch 'a']).touched (plainCall [ch 'b']), place.Inside := by
  have fits (c : Char8) (text : c ≠ ch '%') :
      FitIn consolePrintBufferSize (plainCall [c]).pieces := by
    have one : (plainCall [c]).pieces = [.text 1] := by
      simp [PrintkCall.pieces, Benos.pieces, piecesOne, plainCall, PrintkCall.start, Printf.cursor,
        text]
    rw [one]
    exact ⟨by simp [Piece.Served], by decide⟩
  -- The first message is the whole history of the second one.
  have ran : Transition.run event [.printk (plainCall [ch 'a'])] boot =
      some (boot.printk [ch 'a']) := rfl
  have second := fits (ch 'b') (by decide)
  refine ⟨second,
    ((buffers_inside_iff (fun c member => ?_) ran).2 (plainCall [ch 'b'])).mpr second⟩
  obtain rfl : c = plainCall [ch 'a'] := by simpa using member
  exact fits (ch 'a') (by decide)

/-- A blank field as wide as the buffer leaves no room for the terminator. -/
theorem buffers_outside :
    ¬ ∀ c : PrintkCall, ∀ place ∈ boot.touched c, place.Inside := by
  intro always
  have fit := (touched_inside_iff (p := boot) (by decide)
    (plainCall ("%1024c".toList.map ch))).mp (always _)
  -- The field alone fills the buffer.
  have wide : (plainCall ("%1024c".toList.map ch)).pieces = [.char 1024 false] := rfl
  rw [wide] at fit
  exact absurd fit.2 (by decide)

end Printk

end Benos
