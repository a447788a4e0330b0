import Benos.Kallsyms.Compress
import Benos.Kallsyms.Lookup
import Mathlib.Data.List.TakeWhile

/-! Names come back out of the tables of tokens as they went into the generator. -/

namespace Benos.Kallsyms

open PairTokens

/-! ### The tokens that are written -/

namespace Generator

variable {texts : List (List (BitVec 8))} {g : Generator}

/-- A code is spelt out by the rules that the rows make. -/
theorem expandCode_eq (rows : g.Rows) (depth : Nat)
    (c : BitVec 8) : expandCode g depth c = expand g.rule depth c := by
  induction depth generalizing c with
  | zero => rfl
  | succ depth ih =>
    rw [expandCode, expand, row]
    -- The row is empty, a character or a pair, and so is the rule.
    rcases rows c with empty | ⟨one, itself⟩ | two
    · rw [rule_unused empty, empty, if_neg (by simp)]
      rfl
    · rw [rule_literal one, one, if_pos ⟨itself, rfl⟩]
    · rw [rule_pair two, two, if_neg (by simp)]
      simp only [List.take_succ_cons, List.take_zero, List.mapM_cons, List.mapM_nil, ih]
      cases expand g.rule depth (g.bestTable c).1 with
      | none => rfl
      | some front =>
        cases expand g.rule depth (g.bestTable c).2 with
        | none => rfl
        | some back => simp

variable {value : BitVec 8 → List (BitVec 8)} {rank : BitVec 8 → Nat} {steps : Nat}
  {words : List (List (BitVec 8))}

/-- A row is spelt out as the code that it is the row of. -/
theorem expandRow_eq (rows : g.Rows)
    (compressed : Compressed g.rule value rank steps texts words) {depth : Nat}
    (deep : steps < depth) (c : BitVec 8) :
    ((g.row c).mapM (expandCode g depth)).map List.flatten = some (value c) := by
  have spelt (c : BitVec 8) : expandCode g depth c = some (value c) := by
    rw [expandCode_eq rows]
    exact compressed.expand_eq (Nat.lt_of_le_of_lt (compressed.steps c) deep)
  -- A row of its own character ends there, a pair is spelt out code by code.
  rw [row]
  rcases rows c with empty | ⟨one, itself⟩ | two
  · rw [empty, compressed.unused c (rule_unused empty)]
    rfl
  · rw [one, List.take_succ_cons, List.take_zero, itself]
    simp [spelt]
  · obtain ⟨joined, -, -⟩ := compressed.pair c _ _ (rule_pair two)
    rw [two, joined]
    simp [spelt]

/-- The bytes of a token in the table. -/
def tokenBytes (value : BitVec 8 → List (BitVec 8)) (code : BitVec 8) : List (BitVec 8) :=
  value code ++ [0]

/-- What a code spells is as short and as safe as the names. -/
theorem spelt_safe (compressed : Compressed g.rule value rank steps texts words)
    (safe : BitVec 8 → Prop) {bound : Nat} (positive : 0 < bound)
    (texts_safe : ∀ text ∈ texts, text.length < bound ∧ ∀ c ∈ text, safe c) (code : BitVec 8) :
    (value code).length < bound ∧ ∀ c ∈ value code, safe c := by
  by_cases unused : g.rule code = .unused
  · rw [compressed.unused code unused]
    exact ⟨positive, fun c member => absurd member List.not_mem_nil⟩
  · -- A code in use spells a part of a text.
    obtain ⟨text, member, part⟩ := compressed.part code unused
    obtain ⟨short, chars⟩ := texts_safe text member
    exact ⟨Nat.lt_of_le_of_lt part.length_le short, fun c inside => chars c (part.subset inside)⟩

/-- The tokens are written one behind the other, and it is noted where each of them begins. -/
theorem writeTokens_eq {depth : Nat}
    (expanded : ∀ c, ((g.row c).mapM (expandCode g depth)).map List.flatten = some (value c))
    (safe : ∀ code, (value code).length < ksymNameLen ∧
      ∀ c ∈ value code, c ≠ 0 ∧ c ≠ 0x22 ∧ c ≠ 0x5c) (codes : List (BitVec 8)) (off : BitVec 32) :
    writeTokens g depth codes off =
      some (codes.flatMap (tokenBytes value), (List.range codes.length).map fun k =>
        (off + BitVec.ofNat 32 (Records.offset (tokenBytes value) codes k)).setWidth 16) := by
  induction codes generalizing off with
  | nil => rfl
  | cons i rest ih =>
    obtain ⟨short, chars⟩ := safe i
    -- The buffer is long enough, and nothing in the token ends it or means something.
    have symbol : expandSymbol g depth (g.row i) = some (value i) := by
      rw [expandSymbol, expanded]
      exact if_pos short
    have text : (value i).takeWhile (· ≠ 0) = value i :=
      List.takeWhile_eq_self_iff.mpr fun c member => decide_eq_true (chars c member).1
    have token : asciz (value i) = some (tokenBytes value i) := by
      refine if_neg fun special => ?_
      rcases special with quote | backslash
      · exact (chars _ quote).2.1 rfl
      · exact (chars _ backslash).2.2 rfl
    rw [writeTokens, symbol]
    dsimp only
    rw [text, token, ih]
    dsimp only
    rw [List.flatMap_cons, List.length_cons, List.range_succ_eq_map, List.map_cons, List.map_map]
    -- The first token begins where the count stood, the others behind its zero.
    have first : Records.offset (tokenBytes value) (i :: rest) 0 = 0 := rfl
    have later (k : Nat) : Records.offset (tokenBytes value) (i :: rest) (k + 1) =
        (value i).length + 1 + Records.offset (tokenBytes value) rest k := by
      simp [Records.offset, tokenBytes]
    simp only [first, later, Function.comp_def, BitVec.ofNat_add, BitVec.add_assoc, Nat.succ_eq_add_one,
      BitVec.add_zero]
    rfl

end Generator

/-! ### The tables in the kernel -/

/-- All codes, in the order in which `write_src` writes their tokens. -/
abbrev codes : List (BitVec 8) := (List.range 256).map (BitVec.ofNat 8)

/-- What is written is what is emitted, behind the names. -/
theorem Generator.writeSrc_some {g : Generator} {depth : Nat} {table : List (BitVec 8)}
    {index : List (BitVec 16)} (written : writeTokens g depth codes 0 = some (table, index))
    (malloced : Nat → BitVec 32) :
    ∃ emitted, g.writeSrc malloced depth = some emitted ∧ emitted.tokenTable = table ∧
      emitted.tokenIndex = index ∧
      emitted.names = (g.table.map SymBuffer.entry).flatMap record := by
  rw [writeSrc, written]
  exact ⟨_, rfl, rfl, rfl, writeNames_names _ _ _ _⟩

/-- The kernel finds the sections at its arrays, whatever is behind them. -/
structure Emitted.Linked (emitted : Emitted) (k : Tables) : Prop where
  names : ∀ i c, emitted.names[i]? = some c → k.kallsymsNames i = c
  tokenTable : ∀ i c, emitted.tokenTable[i]? = some c → k.kallsymsTokenTable i = c
  tokenIndex : ∀ i c, emitted.tokenIndex[i]? = some c → k.kallsymsTokenIndex i = c

/-- The sections as they are linked with nothing but zeros around them. -/
def Emitted.link (emitted : Emitted) : Tables where
  kallsymsNames i := emitted.names[i]?.getD 0
  kallsymsMarkers i := emitted.markers[i]?.getD 0
  kallsymsAddresses _ := 0
  kallsymsNumSyms := 0
  kallsymsTokenTable i := emitted.tokenTable[i]?.getD 0
  kallsymsTokenIndex i := emitted.tokenIndex[i]?.getD 0
  terminated code := by
    refine ⟨emitted.tokenTable.length, ?_⟩
    rw [List.getElem?_eq_none (Nat.le_add_left _ _)]
    rfl

/-- There the kernel finds them. -/
theorem Emitted.linked (emitted : Emitted) : emitted.Linked emitted.link where
  names i c found := by
    show emitted.names[i]?.getD 0 = c
    rw [found]
    rfl
  tokenTable i c found := by
    show emitted.tokenTable[i]?.getD 0 = c
    rw [found]
    rfl
  tokenIndex i c found := by
    show emitted.tokenIndex[i]?.getD 0 = c
    rw [found]
    rfl

namespace Tables

variable {k : Tables}

/-- The characters of a token are those in front of its zero. -/
theorem token_eq {code : BitVec 8} {text : List (BitVec 8)} (full : ∀ c ∈ text, c ≠ 0)
    (read : ∀ i c, (text ++ [0])[i]? = some c →
      k.kallsymsTokenTable ((k.kallsymsTokenIndex code.toNat).toNat + i) = c) :
    k.token code = text := by
  have char {i : Nat} (inside : i < text.length) :
      k.kallsymsTokenTable ((k.kallsymsTokenIndex code.toNat).toNat + i) = text[i] :=
    read i _ (by rw [List.getElem?_append_left inside, List.getElem?_eq_getElem inside])
  -- The zero behind the text is the first one in the table from there.
  have ended : k.kallsymsTokenTable ((k.kallsymsTokenIndex code.toNat).toNat + text.length) = 0 :=
    read _ _ (by simp)
  have length : k.tokenLength code = text.length := by
    refine (Nat.find_eq_iff _).mpr ⟨ended, fun i before => ?_⟩
    rw [char before]
    exact full _ (List.getElem_mem before)
  rw [token, length]
  refine List.ext_getElem (by simp) fun i _ inside => ?_
  rw [List.getElem_map, List.getElem_range, char inside]

/-- A record whose codes are those of a word has the characters of the tokens in the word. -/
theorem recordText_eq {off : Nat} {word : List (BitVec 8)} (length : word.length < 256)
    (read : ∀ i c, (BitVec.ofNat 8 word.length :: word)[i]? = some c →
      k.kallsymsNames (off + i) = c) : k.recordText off = word.flatMap k.token := by
  -- The first byte says how many codes there are.
  have count : (k.kallsymsNames off).toNat = word.length := by
    rw [show off = off + 0 from rfl, read 0 _ rfl, BitVec.toNat_ofNat, Nat.mod_eq_of_lt length]
  -- The codes follow it.
  have codes : (List.range word.length).map (fun i => k.kallsymsNames (off + 1 + i)) = word := by
    refine List.ext_getElem (by simp) fun i _ inside => ?_
    rw [List.getElem_map, List.getElem_range, Nat.add_assoc, Nat.add_comm 1]
    exact read (i + 1) _ (by rw [List.getElem?_cons_succ, List.getElem?_eq_getElem inside])
  rw [recordText, count]
  conv_rhs => rw [← codes, List.flatMap_map]

end Tables

/-! ### From the names to the tables and back -/

/-- What counts of a symbol that is read is its type and its name. -/
theorem storeSymbol_word (stype : BitVec 8) {str : List (BitVec 8)} (fits : str.length ≤ ksymNameLen) :
    (storeSymbol stype str fits).word = stype :: str := by
  show (stype :: str ++ [0]).take (stype :: str).length = stype :: str
  exact List.take_left

/-- A symbol that the generator keeps, with nothing in it that means something to the assembler. -/
structure KeptSymbol where
  stype : BitVec 8
  name : List (BitVec 8)
  short : name.length ≤ 126
  safe : ∀ c ∈ stype :: name, c ≠ 0 ∧ c ≠ 0x22 ∧ c ≠ 0x5c

namespace KeptSymbol

/-- A symbol as it is read. -/
def buffer (s : KeptSymbol) : SymBuffer :=
  storeSymbol s.stype s.name (Nat.le_trans s.short (by decide))

/-- The name with the type in front of it. -/
def text (s : KeptSymbol) : List (BitVec 8) := s.stype :: s.name

/-- What counts is the name with its type. -/
theorem buffer_word (s : KeptSymbol) : s.buffer.word = s.text := storeSymbol_word _ _

/-- The zero of `strcpy` is behind it. -/
theorem buffer_padded (s : KeptSymbol) : s.buffer.Padded := by
  refine ⟨0, ?_⟩
  rw [buffer_word]
  rfl

end KeptSymbol

/-- What the kernel finds for a code is what the code spells. -/
theorem Emitted.Linked.token_eq {emitted : Emitted} {k : Tables} (linked : emitted.Linked k)
    {value : BitVec 8 → List (BitVec 8)}
    (safe : ∀ code, (value code).length < ksymNameLen ∧ ∀ c ∈ value code, c ≠ 0)
    (table : emitted.tokenTable = codes.flatMap (Generator.tokenBytes value))
    (index : emitted.tokenIndex = (List.range codes.length).map fun k =>
      (0 + BitVec.ofNat 32 (Records.offset (Generator.tokenBytes value) codes k)).setWidth 16)
    (code : BitVec 8) : k.token code = value code := by
  have known := code.isLt
  have found : codes[code.toNat]? = some code := by
    rw [codes, List.getElem?_map, List.getElem?_range known, Option.map_some, BitVec.ofNat_toNat,
      BitVec.setWidth_eq]
  -- The tokens of all codes fit below 64 KiB.
  have size : ∀ c ∈ codes, (Generator.tokenBytes value c).length ≤ 128 := by
    intro c _
    rw [Generator.tokenBytes, List.length_append]
    exact (safe c).1
  have below := Records.offset_le size code.toNat
  have begins : (k.kallsymsTokenIndex code.toNat).toNat =
      Records.offset (Generator.tokenBytes value) codes code.toNat := by
    have inside : code.toNat < codes.length := by
      rw [codes, List.length_map, List.length_range]
      exact known
    rw [linked.tokenIndex code.toNat _ (by rw [index, List.getElem?_map, List.getElem?_range inside]; rfl),
      BitVec.toNat_setWidth, BitVec.toNat_add, BitVec.toNat_ofNat]
    simp
    omega
  refine Tables.token_eq (safe code).2 fun i c read => ?_
  have within : i < (Generator.tokenBytes value code).length := (List.getElem?_eq_some_iff.mp read).1
  rw [begins]
  refine linked.tokenTable _ c ?_
  rw [table, Records.flatMap_getElem? found within]
  exact read

/-- What the kernel finds in a record is what was emitted for the symbol. -/
theorem Emitted.Linked.record_eq {emitted : Emitted} {k : Tables} (linked : emitted.Linked k)
    {entries : List SymEntry} (names : emitted.names = entries.flatMap record) {i : Nat}
    {s : SymEntry} (found : entries[i]? = some s) {j : Nat} {c : BitVec 8}
    (read : (record s)[j]? = some c) : k.kallsymsNames (offset entries i + j) = c := by
  refine linked.names _ c ?_
  rw [names, Records.flatMap_getElem? found (List.getElem?_eq_some_iff.mp read).1]
  exact read

/--
The tables that are written for symbols: the names in their places spell what they did, and for
every code there is what it spells.
-/
theorem exists_written {symbols : List KeptSymbol} (some_ : symbols ≠ [])
    (malloced : Nat → BitVec 32) {depth : Nat} (deep : 256 < depth) :
    ∃ g, optimizeTokenTable (symbols.map KeptSymbol.buffer) = some g ∧
      ∃ emitted, g.writeSrc malloced depth = some emitted ∧
        emitted.names = (g.table.map SymBuffer.entry).flatMap record ∧
        ∃ value : BitVec 8 → List (BitVec 8),
          (g.table.map SymBuffer.word).map (·.flatMap value) = symbols.map KeptSymbol.text ∧
          ∀ k, emitted.Linked k → ∀ code, k.token code = value code := by
  have words : (symbols.map KeptSymbol.buffer).map SymBuffer.word = symbols.map KeptSymbol.text := by
    rw [List.map_map]
    exact List.map_congr_left fun s _ => s.buffer_word
  have read : symbols.map KeptSymbol.buffer ≠ [] := fun none => some_ (List.map_eq_nil_iff.mp none)
  -- Every symbol as it is read ends with a zero and has none before.
  have padded : ∀ s ∈ symbols.map KeptSymbol.buffer, s.Padded := by
    intro s member
    obtain ⟨kept, _, rfl⟩ := List.mem_map.mp member
    exact kept.buffer_padded
  have full : ∀ s ∈ symbols.map KeptSymbol.buffer, 0 ∉ s.word := by
    intro s member
    obtain ⟨kept, _, rfl⟩ := List.mem_map.mp member
    rw [kept.buffer_word]
    exact fun zero => (kept.safe 0 zero).1 rfl
  obtain ⟨g, optimized, valid⟩ := optimizeTokenTable_valid read padded full
  rw [words] at valid
  obtain ⟨value, rank, compressed⟩ := valid.compressed
  -- With its type a name has 127 characters at most, and a token is a part of one.
  have safe := Generator.spelt_safe compressed (fun c => c ≠ 0 ∧ c ≠ 0x22 ∧ c ≠ 0x5c)
    (show 0 < ksymNameLen by decide) fun text member => by
      obtain ⟨s, _, rfl⟩ := List.mem_map.mp member
      exact ⟨Nat.succ_lt_succ (Nat.lt_succ_of_le s.short), s.safe⟩
  have written := Generator.writeTokens_eq (Generator.expandRow_eq valid.rows compressed deep) safe
    codes 0
  obtain ⟨emitted, wrote, table, index, names⟩ := Generator.writeSrc_some written malloced
  refine ⟨g, optimized, emitted, wrote, names, value, compressed.spells, fun k linked => ?_⟩
  exact linked.token_eq
    (fun code => ⟨(safe code).1, fun c inside => ((safe code).2 c inside).1⟩) table index

/--
Names of at most 126 characters come back as they were: from the record of every symbol the kernel
writes the name without its type and a zero, and returns where the next record begins.
-/
theorem kallsymsExpandSymbol_roundTrip {symbols : List KeptSymbol} (some_ : symbols ≠ [])
    (malloced : Nat → BitVec 32) {depth : Nat} (deep : 256 < depth) :
    ∃ g, optimizeTokenTable (symbols.map KeptSymbol.buffer) = some g ∧
      ∃ emitted, g.writeSrc malloced depth = some emitted ∧
        ∀ k, emitted.Linked k → ∀ i s, symbols[i]? = some s →
          ∀ off : BitVec 32, off.toNat = offset (g.table.map SymBuffer.entry) i →
            ∃ bound, ∀ fuel ≥ bound, k.kallsymsExpandSymbol fuel off =
              some (BitVec.ofNat 32 (offset (g.table.map SymBuffer.entry) (i + 1)),
                s.name ++ [0]) := by
  obtain ⟨g, optimized, emitted, wrote, names, value, spells, tokens⟩ :=
    exists_written some_ malloced deep
  refine ⟨g, optimized, emitted, wrote, fun k linked i s found off at_ => ?_⟩
  -- The symbol is still in its place, and its word spells the name.
  have spelt := congrArg (fun texts => texts[i]?) spells
  simp only [List.getElem?_map, found, Option.map_some, Option.map_map,
    Option.map_eq_some_iff, Function.comp_apply] at spelt
  obtain ⟨t, place, spelt⟩ := spelt
  have entry : (g.table.map SymBuffer.entry)[i]? = some t.entry := by
    rw [List.getElem?_map, place]
    rfl
  have short : t.word.length < 256 := Nat.lt_of_le_of_lt t.entry.fits (by decide)
  have read {j : Nat} {c : BitVec 8} (inside : (record t.entry)[j]? = some c) :
      k.kallsymsNames (off.toNat + j) = c := by
    rw [at_]
    exact linked.record_eq names entry inside
  have text : k.recordText off.toNat = s.text := by
    rw [Tables.recordText_eq short fun j c inside => read inside, ← spelt]
    exact List.flatMap_congr fun code _ => tokens k linked code
  have length : k.kallsymsNames off.toNat = BitVec.ofNat 8 t.word.length := read (j := 0) rfl
  -- One byte for the length and one for every code lead to the next record.
  have next : off + ((BitVec.ofNat 8 t.word.length).setWidth 32 + 1) =
      BitVec.ofNat 32 (offset (g.table.map SymBuffer.entry) (i + 1)) := by
    have size : (record t.entry).length = t.word.length + 1 := rfl
    have begins : off = BitVec.ofNat 32 (offset (g.table.map SymBuffer.entry) i) := by
      rw [← at_, BitVec.ofNat_toNat, BitVec.setWidth_eq]
    rw [offset, Records.offset_succ entry, size, BitVec.ofNat_add, BitVec.ofNat_add, ← begins]
    congr 2
    apply BitVec.eq_of_toNat_eq
    rw [BitVec.toNat_setWidth, BitVec.toNat_ofNat, BitVec.toNat_ofNat, Nat.mod_eq_of_lt short]
  refine ⟨k.rounds, fun fuel enough => ?_⟩
  rw [k.kallsymsExpandSymbol_eq enough, text, length, next]
  rfl

/-- A function `papa`, whose name has a pair twice. -/
def papa : KeptSymbol where
  stype := 0x54
  name := [0x70, 0x61, 0x70, 0x61]
  short := by decide
  safe := by decide

/-- Its name comes back from the first record. -/
theorem kallsymsExpandSymbol_roundTrip_papa :
    ∃ g emitted, optimizeTokenTable [papa.buffer] = some g ∧
      g.writeSrc (fun _ => 0) 257 = some emitted ∧
      ∃ bound, ∀ fuel ≥ bound, (emitted.link.kallsymsExpandSymbol fuel 0).map Prod.snd =
        some [0x70, 0x61, 0x70, 0x61, 0] := by
  obtain ⟨g, optimized, emitted, written, reads⟩ :=
    kallsymsExpandSymbol_roundTrip (show [papa] ≠ [] by simp) (fun _ => 0) (show 256 < 257 by omega)
  obtain ⟨bound, expands⟩ := reads _ emitted.linked 0 papa rfl 0 rfl
  refine ⟨g, emitted, optimized, written, bound, fun fuel enough => ?_⟩
  rw [expands fuel enough]
  rfl

end Benos.Kallsyms
