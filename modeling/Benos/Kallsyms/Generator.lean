import Benos.Kallsyms.Offset
import Benos.Lib.PairTokens

/-!
The table generator `scripts/kallsyms`, from the symbols that it keeps on: the compression of their
names and the tables of tokens that it writes.
-/

namespace Benos.Kallsyms

open PairTokens

/-- The name and its length in a `struct sym_entry`. -/
structure SymBuffer where
  sym : List (BitVec 8)
  len : Nat
  /-- `read_symbol` takes no longer name, and compression makes none longer. -/
  fits : len ≤ ksymNameLen + 1
deriving DecidableEq

/-- The end of `read_symbol`: the type of a symbol and its name, with the zero of `strcpy`. -/
def storeSymbol (stype : BitVec 8) (str : List (BitVec 8)) (fits : str.length ≤ ksymNameLen) :
    SymBuffer where
  sym := stype :: str ++ [0]
  len := str.length + 1
  fits := Nat.succ_le_succ fits

/-- The bytes of a name that count. -/
def SymBuffer.word (s : SymBuffer) : List (BitVec 8) := s.sym.take s.len

/-- The globals of the generator. -/
structure Generator where
  table : List SymBuffer
  tokenProfit : Nat → BitVec 32
  bestTable : BitVec 8 → BitVec 8 × BitVec 8
  bestTableLen : BitVec 8 → Nat

/-! ### Counting pairs -/

/-- `symbol[i] + (symbol[i + 1] << 8)`. -/
def profitIndex (pair : BitVec 8 × BitVec 8) : Nat := pair.1.toNat + pair.2.toNat <<< 8

/-- The loop over the pairs of a symbol. -/
def countPairs (by_ : BitVec 32) (symbol : List (BitVec 8)) (tokenProfit : Nat → BitVec 32) :
    Nat → BitVec 32 :=
  (pairs symbol).foldl (fun profit pair =>
    Function.update profit (profitIndex pair) (profit (profitIndex pair) + by_)) tokenProfit

/-- `learn_symbol`. -/
def learnSymbol (s : SymBuffer) : (Nat → BitVec 32) → Nat → BitVec 32 := countPairs 1 s.word

/-- `forget_symbol`. -/
def forgetSymbol (s : SymBuffer) : (Nat → BitVec 32) → Nat → BitVec 32 := countPairs (-1) s.word

/-- The loop of `find_best_token` over the indices below a number. -/
def bestBelow (tokenProfit : Nat → BitVec 32) (n : Nat) : Nat × BitVec 32 :=
  (List.range n).foldl (fun (best, (bestprofit : BitVec 32)) i =>
    -- `>`, so that the first of equal profits is taken.
    if bestprofit.slt (tokenProfit i) then (i, tokenProfit i) else (best, bestprofit))
    (0, (-10000 : BitVec 32))

/-- The index that this loop ends with. -/
def bestIndexBelow (tokenProfit : Nat → BitVec 32) (n : Nat) : Nat := (bestBelow tokenProfit n).1

/-- `find_best_token`. -/
def findBestToken (tokenProfit : Nat → BitVec 32) : Nat := bestIndexBelow tokenProfit 0x10000

/-! ### Replacing pairs -/

/--
The loop of `compress_symbols` over one symbol from `p1` on, with the `size` bytes that it still
looks at, and how often it has replaced the token. `memmove` reads one byte behind them.
-/
def compressFrom (str : BitVec 8 × BitVec 8) (idx : BitVec 8) (p1 : List (BitVec 8)) (size : Nat) :
    List (BitVec 8) × Nat :=
  match _found : find str.1 str.2 (p1.take size) with
  | none => (p1, 0)
  | some p2 =>
    let left := size - (p2 + 1)
    -- `memmove(p2, p2 + 1, size)`, where `p2` is already behind the token.
    let moved := (p1.drop (p2 + 2)).take left ++ p1.drop (p2 + 1 + left)
    -- One byte is no pair.
    if left < 2 then (p1.take p2 ++ idx :: moved, 1)
    else
      let (more, replaced) := compressFrom str idx moved left
      (p1.take p2 ++ idx :: more, replaced + 1)
termination_by size
decreasing_by
  have inside := (find_some _found).2
  rw [List.length_take] at inside
  omega

/-- The part of `compress_symbols` that changes one symbol. -/
def compressSymbol (str : BitVec 8 × BitVec 8) (idx : BitVec 8) (s : SymBuffer) : SymBuffer :=
  let (sym, replaced) := compressFrom str idx s.sym s.len
  { sym, len := s.len - replaced, fits := Nat.le_trans (Nat.sub_le _ _) s.fits }

/-- `compress_symbols`, over the symbols from one on. -/
def compressSymbols (str : BitVec 8 × BitVec 8) (idx : BitVec 8) :
    List SymBuffer → (Nat → BitVec 32) → List SymBuffer × (Nat → BitVec 32)
  | [], tokenProfit => ([], tokenProfit)
  | s :: rest, tokenProfit =>
    let (s, tokenProfit) := match find str.1 str.2 s.word with
      | none => (s, tokenProfit)
      | some _ =>
        -- Its pairs are forgotten as they were and learnt as they are.
        let after := compressSymbol str idx s
        (after, learnSymbol after (forgetSymbol s tokenProfit))
    let (rest, tokenProfit) := compressSymbols str idx rest tokenProfit
    (s :: rest, tokenProfit)

/-- The loop of `optimize_result` over the codes below a number, from the greatest on. -/
def optimizeFrom : Nat → Generator → Generator
  | 0, g => g
  | i + 1, g =>
    let idx : BitVec 8 := BitVec.ofNat 8 i
    -- A code that is a character of some name is not free.
    if g.bestTableLen idx = 0 then
      let best := findBestToken g.tokenProfit
      -- `break`: there is no pair left.
      if g.tokenProfit best = 0 then g
      else
        let str : BitVec 8 × BitVec 8 := (BitVec.ofNat 8 best, BitVec.ofNat 8 (best >>> 8))
        let (table, tokenProfit) := compressSymbols str idx g.table g.tokenProfit
        optimizeFrom i
          { table, tokenProfit
            bestTable := Function.update g.bestTable idx str
            bestTableLen := Function.update g.bestTableLen idx 2 }
    else optimizeFrom i g

/-- `optimize_result`. -/
def optimizeResult (g : Generator) : Generator := optimizeFrom 256 g

/-- `insert_real_symbols_in_table`, which puts every character that is used into the table. -/
def insertRealSymbolsInTable (g : Generator) : Generator :=
  (g.table.flatMap SymBuffer.word).foldl (fun g c =>
    { g with
      bestTable := Function.update g.bestTable c (c, (g.bestTable c).2)
      bestTableLen := Function.update g.bestTableLen c 1 })
    { g with bestTable := fun _ => (0, 0), bestTableLen := fun _ => 0 }

/-- `build_initial_tok_table`, for a table of symbols that are all valid. -/
def buildInitialTokTable (table : List SymBuffer) : Generator where
  table
  tokenProfit := table.foldl (fun profit s => learnSymbol s profit) fun _ => 0
  bestTable _ := (0, 0)
  bestTableLen _ := 0

/-- `optimize_token_table`, which exits if there is no symbol. -/
def optimizeTokenTable (table : List SymBuffer) : Option Generator :=
  let g := insertRealSymbolsInTable (buildInitialTokTable table)
  if g.table = [] then none else some (optimizeResult g)

/-! ### Writing the tables -/

/-- The bytes of a row of `best_table`. -/
def Generator.row (g : Generator) (c : BitVec 8) : List (BitVec 8) :=
  [(g.bestTable c).1, (g.bestTable c).2].take (g.bestTableLen c)

/-- The loop body of `expand_symbol`: one code, which may be a token again. -/
def expandCode (g : Generator) : Nat → BitVec 8 → Option (List (BitVec 8))
  | 0, _ => none
  | depth + 1, c =>
    -- A character stands for itself, and the codes of a token are expanded again.
    if (g.bestTable c).1 = c ∧ g.bestTableLen c = 1 then some [c]
    else ((g.row c).mapM (expandCode g depth)).map List.flatten

/-- `expand_symbol`, into a buffer of `KSYM_NAME_LEN` bytes that it must not leave. -/
def expandSymbol (g : Generator) (depth : Nat) (data : List (BitVec 8)) : Option (List (BitVec 8)) :=
  match (data.mapM (expandCode g depth)).map List.flatten with
  | none => none
  -- The zero behind the text has to fit too.
  | some result => if result.length + 1 ≤ ksymNameLen then some result else none

/-- `.asciz` of a text with nothing in it that means something to the assembler. -/
def asciz (text : List (BitVec 8)) : Option (List (BitVec 8)) :=
  if 0x22 ∈ text ∨ 0x5c ∈ text then none else some (text ++ [0])

/-- The loop of `write_src` over the tokens, with the offset of the next one. -/
def writeTokens (g : Generator) (depth : Nat) : List (BitVec 8) → BitVec 32 →
    Option (List (BitVec 8) × List (BitVec 16))
  | [], _ => some ([], [])
  | i :: rest, off =>
    match expandSymbol g depth (g.row i) with
    | none => none
    | some buf =>
      -- `%s` and `strlen` stop at the first zero.
      let text := buf.takeWhile (· ≠ 0)
      match asciz text, writeTokens g depth rest (off + (BitVec.ofNat 32 text.length + 1)) with
      | some token, some (table, index) => some (token ++ table, off.setWidth 16 :: index)
      | _, _ => none

/-- A symbol as it is emitted. -/
def SymBuffer.entry (s : SymBuffer) : SymEntry where
  sym := s.word
  fits := by
    rw [word, List.length_take]
    exact Nat.le_trans (Nat.min_le_left _ _) s.fits

/-- The sections that hold names. -/
structure Emitted extends Sections where
  tokenTable : List (BitVec 8)
  tokenIndex : List (BitVec 16)

/-- The part of `write_src` that emits them. -/
def Generator.writeSrc (malloced : Nat → BitVec 32) (depth : Nat) (g : Generator) : Option Emitted :=
  (writeTokens g depth ((List.range 256).map (BitVec.ofNat 8)) 0).map fun (tokenTable, tokenIndex) =>
    { Kallsyms.writeSrc malloced (g.table.map SymBuffer.entry) with tokenTable, tokenIndex }

end Benos.Kallsyms
