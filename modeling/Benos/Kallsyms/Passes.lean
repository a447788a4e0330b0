import Benos.Kallsyms.Program

/-!
The passes of `scripts/kallsyms`. The kernel is linked without tables, with the tables for that, and
with the tables for what this gives. The last two are the same if nothing has moved that counts.
-/

namespace Benos.Kallsyms

open Comparator

/-- The symbols that set the globals of the reader. -/
def globalSymbols : List String :=
  ["_text", "_stext", "_etext", "_sinittext", "_einittext", "_stext_l1", "_etext_l1", "_stext_l2",
    "_etext_l2", "__per_cpu_start", "__per_cpu_end"]

/-- A symbol without its number. -/
def TableEntry.plain (s : TableEntry) : U64 × SymBuffer := (s.addr, s.buffer)

/-- The names of the symbols that set the bounds of a range. -/
def AddrRange.symbols (ar : AddrRange) : List String := [ar.startSym, ar.endSym]

/-- Setting a bound of a range changes no name. -/
theorem checkSymbolRange_symbols {sym : List (BitVec 8)} {addr : U64} {ranges after : List AddrRange}
    (set : checkSymbolRange sym addr ranges = some after) :
    after.map AddrRange.symbols = ranges.map AddrRange.symbols := by
  induction ranges generalizing after with
  | nil => cases set
  | cons ar rest ih =>
    rw [checkSymbolRange] at set
    split at set
    · rw [← Option.some_inj.mp set]
      rfl
    · split at set
      · rw [← Option.some_inj.mp set]
        rfl
      · -- The range is another one.
        obtain ⟨others, found, rfl⟩ := Option.map_eq_some_iff.mp set
        rw [List.map_cons, List.map_cons, ih found]

/-- The names of the ranges are those of the program, and there is no prefix character. -/
structure Reader.Regular (r : Reader) : Prop where
  unprefixed : r.symbolPrefixChar = 0
  text : r.textRanges.map AddrRange.symbols = (Reader.initial 0).textRanges.map AddrRange.symbols
  percpu : r.percpuRange.symbols = (Reader.initial 0).percpuRange.symbols

namespace Reader.Regular

variable {r : Reader} (regular : r.Regular)
include regular

/-- A name that is not one of the globals is none of a range. -/
theorem names {ar : AddrRange} (known : ar ∈ r.percpuRange :: r.textRanges) {name : String}
    (member : name ∈ ar.symbols) : name ∈ globalSymbols := by
  have all : ∀ symbols ∈ (r.percpuRange :: r.textRanges).map AddrRange.symbols,
      ∀ name ∈ symbols, name ∈ globalSymbols := by
    rw [List.map_cons, regular.percpu, regular.text]
    decide
  exact all _ (List.mem_map_of_mem known) name member

/-- The globals stay regular when a symbol is read. -/
theorem readSymbol {line : Line} {s : SymBuffer} {after : Reader}
    (accepted : Kallsyms.readSymbol 0 r line = some (s, after)) : after.Regular := by
  rw [Kallsyms.readSymbol] at accepted
  split at accepted
  · cases accepted
  · dsimp only at accepted
    obtain ⟨r', ranged, same⟩ := Option.map_eq_some_iff.mp accepted
    rw [← (Prod.mk.inj same).2]
    clear accepted same
    generalize (if r.symbolPrefixChar ≠ 0 ∧ charAt 0 line.str 0 = r.symbolPrefixChar
      then line.str.tail else line.str) = sym at *
    -- The bounds of the text, or the text itself, may be set.
    have text : r'.Regular := by
      split at ranged
      · rw [← Option.some_inj.mp ranged]
        exact ⟨regular.unprefixed, regular.text, regular.percpu⟩
      · split at ranged
        · next textRanges set =>
          rw [← Option.some_inj.mp ranged]
          exact ⟨regular.unprefixed, (checkSymbolRange_symbols set).trans regular.text,
            regular.percpu⟩
        · -- Otherwise the globals are what they were.
          have whole : r = r' := by
            repeat' split at ranged
            all_goals first
              | exact Option.some_inj.mp ranged
              | cases ranged
          exact whole ▸ regular
    refine ⟨text.unprefixed, text.text, ?_⟩
    dsimp only
    cases set : checkSymbolRange sym line.addr [r'.percpuRange] with
    | none => exact text.percpu
    | some percpu =>
      -- One range goes in, and one comes out.
      have names := checkSymbolRange_symbols set
      cases percpu with
      | nil => cases names
      | cons range rest => exact (List.cons.inj names).1.trans text.percpu

end Reader.Regular

/-! ### What does not count -/

end Benos.Kallsyms
