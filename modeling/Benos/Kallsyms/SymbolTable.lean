import Benos.Kallsyms.ReadSymbol
import Benos.Lib.Comparator
import Mathlib.Data.List.Infix

/-!
The table of symbols of `scripts/kallsyms`: which symbols of a map come into it, in which order they
stand there, and which of them are valid.
-/

namespace Benos.Kallsyms

/-- `struct sym_entry`. -/
structure TableEntry where
  addr : U64
  startPos : BitVec 32
  buffer : SymBuffer
deriving DecidableEq

/-- What the command line sets. -/
structure Options where
  allSymbols : Bool
  absolutePercpu : Bool
  symbolPrefixChar : BitVec 8
  kernelStartAddr : U64

/-- A line of the map: what `fscanf` finds in it, if it does, and what is left in the buffer. -/
structure MapLine where
  stale : BitVec 8
  scanned : Option Line

/-! ### Reading the map -/

/-- The loop of `read_map`, with `table_cnt` symbols in the table. -/
def readMap (r : Reader) (tableCnt : BitVec 32) : List MapLine → List TableEntry × Reader
  | [] => ([], r)
  | { stale, scanned } :: rest =>
    match scanned with
    | none => readMap r tableCnt rest
    | some line =>
      match readSymbol stale r line with
      -- The place in the table is used for the next symbol.
      | none => readMap r tableCnt rest
      | some (buffer, r) =>
        let (table, r) := readMap r (tableCnt + 1) rest
        ({ addr := line.addr, startPos := tableCnt, buffer } :: table, r)

/-- `symbol_in_range`. -/
def symbolInRange (s : TableEntry) (ranges : List AddrRange) : Bool :=
  ranges.any fun ar => ar.start ≤ s.addr ∧ s.addr ≤ ar.last

/-- `make_percpus_absolute`. -/
def makePercpusAbsolute (r : Reader) (table : List TableEntry) : List TableEntry :=
  table.map fun s =>
    if symbolInRange s [r.percpuRange] then
      { s with buffer := { s.buffer with sym := s.buffer.sym.set 0 0x41 } }
    else s

/-! ### Sorting -/

/-- The string that begins so many bytes behind `sym`. -/
def SymBuffer.text (s : SymBuffer) (offset : Nat) : List (BitVec 8) :=
  (s.sym.drop offset).takeWhile (· ≠ 0)

/-- `memcmp` of the bytes from a place on finds no difference to a string. -/
def sameBytes (symbol : List (BitVec 8)) (place : Nat) (string : String) : Bool :=
  (symbol.drop place).take (ascii string).length = ascii string

/-- `may_be_linker_script_provide_symbol`. -/
def mayBeLinkerScriptProvideSymbol (se : SymBuffer) : Bool :=
  let symbol := se.sym.drop 1
  let len := se.len - 1
  if len < 8 then false
  else if ¬ sameBytes symbol 0 "_" ∨ ¬ sameBytes symbol 1 "_" then false
  else
    sameBytes symbol 2 "start_" ∨ sameBytes symbol 2 "stop_" ∨ sameBytes symbol 2 "end_" ∨
      sameBytes symbol (len - 6) "_start" ∨ sameBytes symbol (len - 4) "_end"

/-- `prefix_underscores_count` of the name behind the type. -/
def prefixUnderscoresCount (s : SymBuffer) : Nat := ((s.sym.drop 1).takeWhile (· = 0x5f)).length

/-- Whether the type of a symbol is `w` or `W`. -/
def isWeak (s : SymBuffer) : Bool := s.sym.head? = some 0x77 ∨ s.sym.head? = some 0x57

/-- `compare_symbols`. -/
def compareSymbols (sa sb : TableEntry) : Int :=
  -- First by address.
  if sb.addr < sa.addr then 1
  else if sa.addr < sb.addr then -1
  else
    -- Weak symbols are behind the others.
    let wa := (isWeak sa.buffer).toInt
    let wb := (isWeak sb.buffer).toInt
    if wa ≠ wb then wa - wb
    else
      let wa := (mayBeLinkerScriptProvideSymbol sa.buffer).toInt
      let wb := (mayBeLinkerScriptProvideSymbol sb.buffer).toInt
      if wa ≠ wb then wa - wb
      else
        let wa : Int := prefixUnderscoresCount sa.buffer
        let wb : Int := prefixUnderscoresCount sb.buffer
        if wa ≠ wb then wa - wb
        -- The rest stays in the order of the map.
        else (sa.startPos - sb.startPos).toInt

/-- `sort_symbols`. -/
def sortSymbols (table : List TableEntry) : List TableEntry :=
  table.mergeSort fun sa sb => compareSymbols sa sb ≤ 0

/-! ### Valid symbols -/

/-- Symbols of the tables themselves, and of the linker, that differ from pass to pass. -/
def specialSymbols : List String :=
  ["kallsyms_addresses", "kallsyms_num_syms", "kallsyms_names", "kallsyms_markers",
    "kallsyms_token_table", "kallsyms_token_index", "_SDA_BASE_", "_SDA2_BASE_"]

/-- The symbol is at the end of a range and is not the one that names the end. -/
def atEndOf (s : TableEntry) (name : List (BitVec 8)) (ar : AddrRange) : Bool :=
  s.addr = ar.last ∧ name ≠ ascii ar.endSym

/-- `symbol_valid`. -/
def symbolValid (options : Options) (r : Reader) (s : TableEntry) : Bool :=
  let offset := if r.symbolPrefixChar ≠ 0 ∧ s.buffer.sym[1]?.getD 0 = r.symbolPrefixChar then 2 else 1
  let name := s.buffer.text offset
  if s.addr < options.kernelStartAddr then false
  else if ¬ options.allSymbols ∧ ¬ symbolInRange s r.textRanges then false
  -- `text_range_text` and `text_range_inittext` are the first two ranges.
  else if ¬ options.allSymbols ∧ (r.textRanges.take 2).any (atEndOf s name) then false
  else if ascii "_compiled." <:+: name then false
  else ¬ (specialSymbols.map ascii).contains name

/-- `main` up to `sort_symbols`: the symbols of the map, and the globals. -/
def mapSymbols (options : Options) (map : List MapLine) : List TableEntry × Reader :=
  let (table, r) := readMap (Reader.initial options.symbolPrefixChar) 0 map
  (if options.absolutePercpu then makePercpusAbsolute r table else table, r)

/-- `main` up to the filter of `build_initial_tok_table`: the symbols that are left. -/
def keptSymbols (options : Options) (map : List MapLine) : List TableEntry × Reader :=
  let (table, r) := mapSymbols options map
  ((sortSymbols table).filter (symbolValid options r), r)

/-! ### The order of the table -/

open Comparator

/-- The number of a symbol in the map is one that the subtraction of `compare_symbols` can tell. -/
def Counted (s : TableEntry) : Prop := s.startPos.toNat < 2 ^ 31

/-- The symbols have different numbers. -/
structure Numbered (table : List TableEntry) : Prop where
  counted : ∀ s ∈ table, Counted s
  apart : (table.map TableEntry.startPos).Nodup

/-- The symbols of a table have numbers that go up, as in the map. -/
structure Ascending (table : List TableEntry) : Prop where
  counted : ∀ s ∈ table, Counted s
  numbers : table.Pairwise fun a b => a.startPos.toNat < b.startPos.toNat

/-- What `compare_symbols` orders by. -/
def TableEntry.rank (s : TableEntry) : Nat ×ₗ Int ×ₗ Int ×ₗ Int ×ₗ Nat :=
  toLex (s.addr.toNat, toLex ((isWeak s.buffer).toInt,
    toLex ((mayBeLinkerScriptProvideSymbol s.buffer).toInt,
      toLex ((prefixUnderscoresCount s.buffer : Int), s.startPos.toNat))))

/-- The comparison of the addresses alone. -/
def compareAddr (sa sb : TableEntry) : Int :=
  if sb.addr < sa.addr then 1 else if sa.addr < sb.addr then -1 else 0

theorem ordersBy_addr : OrdersBy Counted compareAddr fun s => s.addr.toNat := by
  intro a b _ _
  rw [compareAddr]
  dsimp only
  -- One of the addresses is the greater one, or they are equal.
  by_cases above : b.addr < a.addr
  · have less : b.addr.toNat < a.addr.toNat := above
    rw [if_pos above]
    omega
  · rw [if_neg above]
    have notLess : ¬ b.addr.toNat < a.addr.toNat := above
    by_cases below : a.addr < b.addr
    · have less : a.addr.toNat < b.addr.toNat := below
      rw [if_pos below]
      omega
    · have notBelow : ¬ a.addr.toNat < b.addr.toNat := below
      rw [if_neg below]
      omega

/-- Numbers below `2 ^ 31` are told apart by their difference, which is read as an `int`. -/
theorem ordersBy_startPos :
    OrdersBy Counted (fun a b => (a.startPos - b.startPos).toInt) fun s => s.startPos.toNat := by
  intro a b first second
  have difference : (a.startPos - b.startPos).toInt =
      (a.startPos.toNat : Int) - b.startPos.toNat := by
    unfold Counted at first second
    rw [BitVec.toInt_sub, BitVec.toInt_eq_toNat_of_lt (by omega),
      BitVec.toInt_eq_toNat_of_lt (by omega)]
    exact Int.bmod_eq_of_le (by omega) (by omega)
  dsimp only
  rw [difference]
  omega

/-- The stages of `compare_symbols`, each of which decides between what is equal so far. -/
theorem compareSymbols_eq (sa sb : TableEntry) :
    compareSymbols sa sb =
      if compareAddr sa sb ≠ 0 then compareAddr sa sb
      else if (isWeak sa.buffer).toInt - (isWeak sb.buffer).toInt ≠ 0 then
        (isWeak sa.buffer).toInt - (isWeak sb.buffer).toInt
      else if (mayBeLinkerScriptProvideSymbol sa.buffer).toInt -
          (mayBeLinkerScriptProvideSymbol sb.buffer).toInt ≠ 0 then
        (mayBeLinkerScriptProvideSymbol sa.buffer).toInt -
          (mayBeLinkerScriptProvideSymbol sb.buffer).toInt
      else if (prefixUnderscoresCount sa.buffer : Int) - prefixUnderscoresCount sb.buffer ≠ 0 then
        (prefixUnderscoresCount sa.buffer : Int) - prefixUnderscoresCount sb.buffer
      else (sa.startPos - sb.startPos).toInt := by
  simp only [compareSymbols, compareAddr, ne_eq, sub_eq_zero]
  by_cases above : sb.addr < sa.addr
  · simp [above]
  · by_cases below : sa.addr < sb.addr
    · simp [above, below]
    · simp [above, below]

/-- `compare_symbols` orders by the rank. -/
theorem compareSymbols_ordersBy : OrdersBy Counted compareSymbols TableEntry.rank := by
  have stages := ordersBy_addr.orElse <|
    (ordersBy_sub Counted fun s => (isWeak s.buffer).toInt).orElse <|
    (ordersBy_sub Counted fun s => (mayBeLinkerScriptProvideSymbol s.buffer).toInt).orElse <|
    (ordersBy_sub Counted fun s => (prefixUnderscoresCount s.buffer : Int)).orElse
      ordersBy_startPos
  intro a b first second
  rw [compareSymbols_eq]
  exact stages a b first second

/-- Symbols of one rank have one number. -/
theorem Numbered.eq_of_rank {table : List TableEntry} (numbered : Numbered table) :
    ∀ a ∈ table, ∀ b ∈ table, a.rank = b.rank → a = b := by
  intro a first b second same
  have number : a.startPos.toNat = b.startPos.toNat := by
    simp only [TableEntry.rank, toLex_inj, Prod.mk.injEq] at same
    exact same.2.2.2.2
  exact List.inj_on_of_nodup_map numbered.apart first second (BitVec.eq_of_toNat_eq number)

/-- The symbols of a map are numbered from some number on, in the order of the map. -/
theorem readMap_numbered (r : Reader) (tableCnt : BitVec 32) (map : List MapLine)
    (few : tableCnt.toNat + map.length ≤ 2 ^ 31) :
    ((readMap r tableCnt map).1.map TableEntry.startPos).Pairwise (· < ·) ∧
      ∀ s ∈ (readMap r tableCnt map).1,
        tableCnt.toNat ≤ s.startPos.toNat ∧ s.startPos.toNat < tableCnt.toNat + map.length := by
  induction map generalizing r tableCnt with
  | nil => exact ⟨List.Pairwise.nil, fun s member => absurd member List.not_mem_nil⟩
  | cons first rest ih =>
    obtain ⟨stale, scanned⟩ := first
    rw [List.length_cons] at few
    -- A line that gives no symbol uses no number.
    have skipped := ih r tableCnt (by omega)
    have wider : ∀ s ∈ (readMap r tableCnt rest).1, tableCnt.toNat ≤ s.startPos.toNat ∧
        s.startPos.toNat < tableCnt.toNat + (rest.length + 1) := fun s member => by
      have inside := skipped.2 s member
      omega
    rw [List.length_cons, readMap.eq_def]
    dsimp only
    cases scanned with
    | none => exact ⟨skipped.1, wider⟩
    | some line =>
      dsimp only
      cases read : readSymbol stale r line with
      | none => exact ⟨skipped.1, wider⟩
      | some taken =>
        obtain ⟨buffer, r'⟩ := taken
        have one : (1 : BitVec 32).toNat = 1 := rfl
        have next : (tableCnt + 1).toNat = tableCnt.toNat + 1 := by
          rw [BitVec.toNat_add, one]
          omega
        obtain ⟨ordered, inside⟩ := ih r' (tableCnt + 1) (by omega)
        rw [next] at inside
        dsimp only
        refine ⟨List.pairwise_cons.mpr ⟨fun number member => ?_, ordered⟩, fun s member => ?_⟩
        · -- All later numbers are greater.
          obtain ⟨s, known, rfl⟩ := List.mem_map.mp member
          exact Nat.lt_of_succ_le (inside s known).1
        · rcases List.mem_cons.mp member with rfl | later
          · exact ⟨Nat.le_refl _, by dsimp only; omega⟩
          · have bounds := inside s later
            omega

/-- Making symbols absolute changes their types alone. -/
theorem makePercpusAbsolute_startPos (r : Reader) (table : List TableEntry) :
    (makePercpusAbsolute r table).map TableEntry.startPos = table.map TableEntry.startPos := by
  rw [makePercpusAbsolute, List.map_map]
  refine List.map_congr_left fun s _ => ?_
  rw [Function.comp_apply]
  split <;> rfl

/-- The numbers of a map go up, whatever becomes of the types. -/
theorem mapSymbols_ascending (options : Options) {map : List MapLine} (few : map.length ≤ 2 ^ 31) :
    Ascending (mapSymbols options map).1 := by
  have zero : (0 : BitVec 32).toNat = 0 := rfl
  obtain ⟨ordered, inside⟩ := readMap_numbered (Reader.initial options.symbolPrefixChar) 0 map
    (by omega)
  have numbers : (mapSymbols options map).1.map TableEntry.startPos =
      (readMap (Reader.initial options.symbolPrefixChar) 0 map).1.map TableEntry.startPos := by
    rw [mapSymbols]
    dsimp only
    split
    · exact makePercpusAbsolute_startPos _ _
    · rfl
  refine ⟨fun s member => ?_, ?_⟩
  · -- A number of the table is the number of a symbol that was read.
    have known : s.startPos ∈ (mapSymbols options map).1.map TableEntry.startPos :=
      List.mem_map_of_mem member
    rw [numbers] at known
    obtain ⟨t, read, same⟩ := List.mem_map.mp known
    have bounds := inside t read
    rw [Counted, ← same]
    omega
  · rw [← numbers, List.pairwise_map] at ordered
    exact ordered

/-- So no number is there twice. -/
theorem mapSymbols_numbered (options : Options) {map : List MapLine} (few : map.length ≤ 2 ^ 31) :
    Numbered (mapSymbols options map).1 := by
  obtain ⟨counted, numbers⟩ := mapSymbols_ascending options few
  refine ⟨counted, List.pairwise_map.mpr (numbers.imp fun less same => ?_)⟩
  exact absurd (congrArg BitVec.toNat same) (Nat.ne_of_lt less)

/-- Sorting keeps the symbols. -/
theorem sortSymbols_perm (table : List TableEntry) : (sortSymbols table).Perm table :=
  List.mergeSort_perm _ _

namespace Numbered

variable {table : List TableEntry} (numbered : Numbered table)
include numbered

/-- Symbols with different numbers are sorted by `compare_symbols`. -/
theorem sortSymbols_ordered : Ordered compareSymbols (sortSymbols table) :=
  compareSymbols_ordersBy.ordered_mergeSort numbered.counted

/-- They can be sorted in one way only. -/
theorem sortSymbols_of_ordered {sorted : List TableEntry} (perm : sorted.Perm table)
    (ordered : Ordered compareSymbols sorted) : sorted = sortSymbols table := by
  have known : ∀ s ∈ sortSymbols table, s ∈ table := fun s member =>
    (sortSymbols_perm table).mem_iff.mp member
  refine compareSymbols_ordersBy.ordered_unique (fun s member => numbered.counted s (known s member))
    (fun a first b second => ?_) numbered.sortSymbols_ordered ordered
    (perm.trans (sortSymbols_perm table).symm)
  exact numbered.eq_of_rank a (known a first) b (known b second)

/-- The ranks of the sorted symbols go up. -/
theorem sortSymbols_strict : (sortSymbols table).Pairwise fun a b => a.rank < b.rank := by
  have perm := sortSymbols_perm table
  have known : ∀ s ∈ sortSymbols table, s ∈ table := fun s member => perm.mem_iff.mp member
  have ordered := compareSymbols_ordersBy.pairwise
    (fun s member => numbered.counted s (known s member)) numbered.sortSymbols_ordered
  -- Equal ranks would be one symbol twice.
  have distinct : (sortSymbols table).Nodup :=
    (perm.nodup_iff).mpr (List.Nodup.of_map _ numbered.apart)
  refine List.Pairwise.imp_of_mem (fun first second both => ?_) (ordered.and distinct)
  exact lt_of_le_of_ne both.1 fun ranks =>
    both.2 (numbered.eq_of_rank _ (known _ first) _ (known _ second) ranks)

end Numbered

/--
On the symbols of every map `compare_symbols` is a strict order in which only a symbol and itself
are equal. So whatever `qsort` does, it leaves the one list that the comparison orders: by address,
and for one address the weak symbols, those of the linker script and those with more underscores
behind the others, and what is then still equal in the order of the map.
-/
theorem sortSymbols_unique (options : Options) {map : List MapLine} (few : map.length ≤ 2 ^ 31) :
    (∀ a ∈ (mapSymbols options map).1, ∀ b ∈ (mapSymbols options map).1,
      (compareSymbols a b = 0 ↔ a = b) ∧ (compareSymbols a b < 0 ↔ 0 < compareSymbols b a) ∧
      ∀ c ∈ (mapSymbols options map).1, compareSymbols a b < 0 → compareSymbols b c < 0 →
        compareSymbols a c < 0) ∧
    (∀ sorted : List TableEntry,
      sorted.Perm (mapSymbols options map).1 ∧ Ordered compareSymbols sorted ↔
        sorted = sortSymbols (mapSymbols options map).1) ∧
    (sortSymbols (mapSymbols options map).1).Pairwise fun a b => a.rank < b.rank := by
  have numbered := mapSymbols_numbered options few
  have same := numbered.eq_of_rank
  have counted := numbered.counted
  have orders := compareSymbols_ordersBy
  have perm := sortSymbols_perm (mapSymbols options map).1
  refine ⟨fun a first b second => ⟨⟨fun zero => ?_, fun equal => ?_⟩, ?_, fun c third => ?_⟩,
    fun sorted => ⟨fun ⟨other, sorts⟩ => ?_, fun equal => ?_⟩, numbered.sortSymbols_strict⟩
  · exact same a first b second ((orders.eq_zero_iff (counted a first) (counted b second)).mp zero)
  · exact (orders.eq_zero_iff (counted a first) (counted b second)).mpr (congrArg _ equal)
  · rw [(orders a b (counted a first) (counted b second)).1,
      (orders b a (counted b second) (counted a first)).2]
  · rw [(orders a b (counted a first) (counted b second)).1,
      (orders b c (counted b second) (counted c third)).1,
      (orders a c (counted a first) (counted c third)).1]
    exact lt_trans
  · -- Any other sorted list has the same symbols, and so it is the same list.
    exact numbered.sortSymbols_of_ordered other sorts
  · rw [equal]
    exact ⟨perm, numbered.sortSymbols_ordered⟩

/-- A function `papa` in the map. -/
def papaLine : MapLine where
  stale := 0
  scanned := some {
    addr := 0x80200000
    stype := 0x54
    str := [0x70, 0x61, 0x70, 0x61]
    short := by decide
    full := by decide }

/-- `--all-symbols` and nothing else. -/
def allSymbolsOptions : Options where
  allSymbols := true
  absolutePercpu := false
  symbolPrefixChar := 0
  kernelStartAddr := 0

/-- A weak symbol `mama` at the address of `papa`. -/
def mamaLine : MapLine where
  stale := 0
  scanned := some {
    addr := 0x80200000
    stype := 0x57
    str := [0x6d, 0x61, 0x6d, 0x61]
    short := by decide
    full := by decide }

/-- A function `tata` behind them. -/
def tataLine : MapLine where
  stale := 0
  scanned := some {
    addr := 0x80200020
    stype := 0x54
    str := [0x74, 0x61, 0x74, 0x61]
    short := by decide
    full := by decide }

/-- A map of the three, with the last of them first. -/
def familyMap : List MapLine := [tataLine, mamaLine, papaLine]

/-- The symbols that are made of it, in the order of their addresses and the weak one last. -/
def family : List TableEntry :=
  [{ addr := 0x80200000, startPos := 2, buffer := papa.buffer },
    { addr := 0x80200000, startPos := 1
      buffer := storeSymbol 0x57 [0x6d, 0x61, 0x6d, 0x61] (by decide) },
    { addr := 0x80200020, startPos := 0
      buffer := storeSymbol 0x54 [0x74, 0x61, 0x74, 0x61] (by decide) }]

/-- The map has them the other way round. -/
theorem mapSymbols_family :
    mapSymbols allSymbolsOptions familyMap = (family.reverse, Reader.initial 0) := rfl

/-- The three symbols are as `compare_symbols` orders them. -/
theorem family_ordered : Ordered compareSymbols family := by
  unfold Ordered
  decide

/-- So they are what the table is sorted to, and no two of them are equal to the comparison. -/
theorem sortSymbols_unique_family :
    sortSymbols (mapSymbols allSymbolsOptions familyMap).1 = family ∧
      (∀ a ∈ family, ∀ b ∈ family, compareSymbols a b = 0 → a = b) ∧
      family.Pairwise fun a b => a.rank < b.rank := by
  have few : familyMap.length ≤ 2 ^ 31 := by decide
  obtain ⟨compares, unique, strict⟩ := sortSymbols_unique allSymbolsOptions few
  have sorted : sortSymbols (mapSymbols allSymbolsOptions familyMap).1 = family :=
    ((unique family).mp ⟨(List.reverse_perm family).symm, family_ordered⟩).symm
  rw [sorted] at strict
  refine ⟨sorted, fun a first b second zero => ?_, strict⟩
  exact (compares a (List.mem_reverse.mpr first) b (List.mem_reverse.mpr second)).1.mp zero

end Benos.Kallsyms
