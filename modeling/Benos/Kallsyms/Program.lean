import Benos.Kallsyms.Lookup
import Benos.Kallsyms.SymbolTable

/-!
The whole of `scripts/kallsyms`, from a map of symbols to the tables, and what the kernel that is
linked with the tables tells about an address.
-/

namespace Benos.Kallsyms

open Comparator

/-- `symbol_absolute`, which looks at the name as it is compressed. -/
def symbolAbsolute (s : SymBuffer) : Bool := toupper (s.sym[0]?.getD 0) = 0x41

/-- What `PTR` has for an address: a distance from the symbol `_text`, or a number. -/
inductive Operand where
  | textPlus (distance : U64)
  | textMinus (distance : U64)
  | number (addr : U64)
deriving DecidableEq

/-- The loop body of `write_src` for `kallsyms_addresses`. -/
def addressOperand (text addr : U64) (s : SymBuffer) : Operand :=
  if ¬ symbolAbsolute s then
    if text ≤ addr then .textPlus (addr - text) else .textMinus (text - addr)
  else .number addr

/-- What the linker makes of it, with `_text` at an address. -/
def Operand.value (text : U64) : Operand → U64
  | .textPlus distance => text + distance
  | .textMinus distance => text - distance
  | .number addr => addr

/-- All that `write_src` writes. -/
structure Assembly extends Emitted where
  addresses : List Operand
  numSyms : List (BitVec 8)

/-- `main`. -/
def kallsyms (malloced : Nat → BitVec 32) (depth : Nat) (options : Options) (map : List MapLine) :
    Option Assembly :=
  let (table, r) := keptSymbols options map
  match optimizeTokenTable (table.map TableEntry.buffer) with
  | none => none
  | some g =>
    (g.writeSrc malloced depth).map fun emitted =>
      { emitted with
        addresses := (table.zip g.table).map fun (s, compressed) =>
          addressOperand r.text s.addr compressed
        numSyms := ptr (BitVec.ofNat 32 table.length) }

/--
The kernel finds the sections at its arrays, with `_text` at an address. It declares the number of
symbols as an `unsigned int`.
-/
structure Assembly.Linked (assembly : Assembly) (text : U64) (k : Tables) : Prop
    extends assembly.toEmitted.Linked k where
  markers : ∀ i c, assembly.markers[i]? = some c → k.kallsymsMarkers i = c
  addresses : ∀ i operand, assembly.addresses[i]? = some operand →
    k.kallsymsAddresses i = operand.value text
  numSyms : k.kallsymsNumSyms = BitVec.ofNat 32 (LittleEndian.combine (assembly.numSyms.take 4))

/-- The sections as they are linked with nothing but zeros around them. -/
def Assembly.link (assembly : Assembly) (text : U64) : Tables :=
  { assembly.toEmitted.link with
    kallsymsAddresses i := (assembly.addresses[i]?.map (Operand.value text)).getD 0
    kallsymsNumSyms := BitVec.ofNat 32 (LittleEndian.combine (assembly.numSyms.take 4)) }

/-- There the kernel finds them. -/
theorem Assembly.linked (assembly : Assembly) (text : U64) :
    assembly.Linked text (assembly.link text) where
  names := assembly.toEmitted.linked.names
  tokenTable := assembly.toEmitted.linked.tokenTable
  tokenIndex := assembly.toEmitted.linked.tokenIndex
  markers i c found := by
    show assembly.markers[i]?.getD 0 = c
    rw [found]
    rfl
  addresses i operand found := by
    show (assembly.addresses[i]?.map (Operand.value text)).getD 0 = operand.value text
    rw [found]
    rfl
  numSyms := rfl

/-! ### The symbols that are kept -/

/-- The symbol that is taken is stored as `strcpy` leaves it. -/
theorem readSymbol_stored {stale : BitVec 8} {r after : Reader} {line : Line} {s : SymBuffer}
    (accepted : readSymbol stale r line = some (s, after)) :
    ∃ stype str fits, s = storeSymbol stype str fits := by
  rw [readSymbol] at accepted
  split at accepted
  · cases accepted
  · obtain ⟨_, _, same⟩ := Option.map_eq_some_iff.mp accepted
    exact ⟨_, _, _, (Prod.mk.inj same).1.symm⟩

/-- So are all symbols of a map. -/
theorem readMap_stored (r : Reader) (tableCnt : BitVec 32) (map : List MapLine) :
    ∀ s ∈ (readMap r tableCnt map).1, ∃ stype str fits, s.buffer = storeSymbol stype str fits := by
  induction map generalizing r tableCnt with
  | nil => exact fun s member => absurd member List.not_mem_nil
  | cons first rest ih =>
    obtain ⟨stale, scanned⟩ := first
    rw [readMap.eq_def]
    dsimp only
    cases scanned with
    | none => exact ih r tableCnt
    | some line =>
      dsimp only
      cases read : readSymbol stale r line with
      | none => exact ih r tableCnt
      | some taken =>
        obtain ⟨buffer, r'⟩ := taken
        -- The line gives one symbol, and the rest of the map the others.
        refine List.forall_mem_cons.mpr ⟨readSymbol_stored read, ih r' (tableCnt + 1)⟩

/-- The type of a symbol that is made absolute is stored as any other type. -/
theorem mapSymbols_stored (options : Options) (map : List MapLine) :
    ∀ s ∈ (mapSymbols options map).1, ∃ stype str fits, s.buffer = storeSymbol stype str fits := by
  have stored := readMap_stored (Reader.initial options.symbolPrefixChar) 0 map
  intro s member
  rw [mapSymbols] at member
  dsimp only at member
  split at member
  · rw [makePercpusAbsolute] at member
    obtain ⟨t, read, rfl⟩ := List.mem_map.mp member
    obtain ⟨stype, str, fits, same⟩ := stored t read
    split
    · refine ⟨0x41, str, fits, ?_⟩
      dsimp only
      simp [same, storeSymbol]
    · exact ⟨stype, str, fits, same⟩
  · exact stored s member

/-- The symbols that are kept are symbols of the map, in the order of their ranks. -/
theorem keptSymbols_spec (options : Options) {map : List MapLine} (few : map.length ≤ 2 ^ 31) :
    (∀ s ∈ (keptSymbols options map).1, s ∈ (mapSymbols options map).1) ∧
      (keptSymbols options map).1.Pairwise fun a b => a.rank < b.rank := by
  have numbered := mapSymbols_numbered options few
  refine ⟨fun s member => ?_, numbered.sortSymbols_strict.filter _⟩
  exact (sortSymbols_perm _).mem_iff.mp (List.mem_filter.mp member).1

/-- Of two symbols the one with the lower rank has no greater address. -/
theorem TableEntry.addr_le_of_rank {a b : TableEntry} (lower : a.rank ≤ b.rank) :
    a.addr ≤ b.addr := by
  rcases (Prod.Lex.toLex_le_toLex.mp lower : a.addr.toNat < b.addr.toNat ∨ _) with less | ⟨same, _⟩
  · exact BitVec.le_of_lt less
  · exact Nat.le_of_eq same

/-- The name of a symbol, without its type. -/
def TableEntry.name (s : TableEntry) : List (BitVec 8) := s.buffer.word.tail

/-- A symbol whose name fits into the buffers and means nothing to the assembler. -/
def TableEntry.Printable (s : TableEntry) : Prop :=
  s.buffer.word.length < ksymNameLen ∧ ∀ c ∈ s.buffer.word, c ≠ 0 ∧ c ≠ 0x22 ∧ c ≠ 0x5c

instance (s : TableEntry) : Decidable s.Printable := inferInstanceAs (Decidable (_ ∧ _))

/-- Such symbols are what the rest of the generator takes. -/
theorem exists_keptSymbols {table : List TableEntry}
    (stored : ∀ s ∈ table, ∃ stype str fits, s.buffer = storeSymbol stype str fits)
    (printable : ∀ s ∈ table, s.Printable) :
    ∃ symbols : List KeptSymbol, symbols.map KeptSymbol.buffer = table.map TableEntry.buffer ∧
      symbols.map KeptSymbol.name = table.map TableEntry.name := by
  -- The induction is on the table, with one symbol for each of its entries.
  induction table with
  | nil => exact ⟨[], rfl, rfl⟩
  | cons s rest ih =>
    obtain ⟨first, later⟩ := List.forall_mem_cons.mp stored
    obtain ⟨plain, others⟩ := List.forall_mem_cons.mp printable
    obtain ⟨symbols, buffers, names⟩ := ih later others
    obtain ⟨stype, str, fits, same⟩ := first
    obtain ⟨short, safe⟩ := plain
    have word : s.buffer.word = stype :: str := by rw [same, storeSymbol_word]
    rw [word] at short safe
    have chars : str.length ≤ 126 := by
      rw [List.length_cons, ksymNameLen] at short
      omega
    refine ⟨⟨stype, str, chars, safe⟩ :: symbols, ?_, ?_⟩
    · rw [List.map_cons, List.map_cons, buffers, same]
      rfl
    · rw [List.map_cons, List.map_cons, names, TableEntry.name, word]
      rfl

/-! ### The tables in the kernel -/

/-- An operand stands for the address, if `_text` is linked where it was in the map. -/
theorem addressOperand_value (text addr : U64) (s : SymBuffer) :
    (addressOperand text addr s).value text = addr := by
  rw [addressOperand]
  split
  · split <;> · rw [Operand.value]; bv_omega
  · rfl

/-- What is emitted behind the names are the markers for them. -/
theorem Generator.writeSrc_sections {g : Generator} {malloced : Nat → BitVec 32} {depth : Nat}
    {emitted : Emitted} (wrote : g.writeSrc malloced depth = some emitted) :
    emitted.toSections = Kallsyms.writeSrc malloced (g.table.map SymBuffer.entry) := by
  obtain ⟨_, _, same⟩ := Option.map_eq_some_iff.mp wrote
  rw [← same]

/-- The number of symbols is the lower half of what is emitted. -/
theorem combine_ptr (value : BitVec 32) :
    BitVec.ofNat 32 (LittleEndian.combine ((ptr value).take 4)) = value := by
  have four : (ptr value).take 4 =
      (List.range 4).map fun i => BitVec.ofNat 8 ((value.signExtend 64).toNat / 256 ^ (0 + i)) := by
    refine List.ext_getElem? fun i => ?_
    rw [List.getElem?_take, List.getElem?_map]
    split
    · next inside =>
      have wide : i < ptrBytes := Nat.lt_of_lt_of_le inside (by decide)
      rw [ptr, LittleEndian.split_getElem? wide, List.getElem?_range inside, Option.map_some,
        Nat.zero_add]
    · next outside =>
      rw [List.getElem?_eq_none (by rw [List.length_range]; omega)]
      rfl
  rw [four, LittleEndian.combine_range (fun _ _ => rfl) (show 0 + 4 ≤ 8 by omega)]
  apply BitVec.eq_of_toNat_eq
  -- The extension by the sign adds nothing below its own bits.
  rw [BitVec.toNat_ofNat, BitVec.toNat_signExtend, BitVec.toNat_setWidth]
  have := value.isLt
  split <;> omega

section

variable {table : List TableEntry} {g : Generator} {malloced : Nat → BitVec 32} {depth : Nat}
  {emitted : Emitted} {k : Tables}

/-- The arrays are the sections with what is around them. -/
theorem link_arrays {sections : Sections} {arrays : Arrays}
    (names : ∀ i c, sections.names[i]? = some c → arrays.kallsymsNames i = c)
    (markers : ∀ i c, sections.markers[i]? = some c → arrays.kallsymsMarkers i = c) :
    sections.link arrays = arrays := by
  have same {bytes : List (BitVec 8)} {array : Nat → BitVec 8}
      (held : ∀ i c, bytes[i]? = some c → array i = c) :
      (fun i => bytes[i]?.getD (array i)) = array := by
    funext i
    cases found : bytes[i]? with
    | none => rfl
    | some c => exact (held i c found).symm
  rw [Sections.link, same names, same markers]

/-- Where the kernel looks for a record of the first block the words of the symbol spell it. -/
theorem recordText_written (linked : emitted.Linked k)
    (markers : ∀ i c, emitted.markers[i]? = some c → k.kallsymsMarkers i = c)
    (wrote : g.writeSrc malloced depth = some emitted) {value : BitVec 8 → List (BitVec 8)}
    (tokens : ∀ code, k.token code = value code) {i : Nat} {t : SymBuffer}
    (place : g.table[i]? = some t) (first : i < 256) :
    k.recordText (k.getSymbolOffset (BitVec.ofNat 64 i)).toNat = t.word.flatMap value := by
  have sections := Generator.writeSrc_sections wrote
  have names : emitted.names = (g.table.map SymBuffer.entry).flatMap record := by
    rw [sections]
    exact writeNames_names _ _ _ _
  have entry : (g.table.map SymBuffer.entry)[i]? = some t.entry := by
    rw [List.getElem?_map, place]
    rfl
  have within : i < (g.table.map SymBuffer.entry).length := (List.getElem?_eq_some_iff.mp entry).1
  have number : (BitVec.ofNat 64 i).toNat = i := by
    rw [BitVec.toNat_ofNat]
    omega
  -- The kernel finds the record, as it is one of the first block.
  have arrays : _ = k.toArrays := link_arrays linked.names markers
  rw [sections] at arrays
  have found : Finds k.toArrays (g.table.map SymBuffer.entry) (BitVec.ofNat 64 i) := by
    rw [← arrays]
    exact finds_first (by rw [number]; exact within) (by rw [number]; exact first)
  rw [Finds, number] at found
  have short : t.word.length < 256 := Nat.lt_of_le_of_lt t.entry.fits (by decide)
  rw [found, Tables.recordText_eq short fun j c inside => linked.record_eq names entry inside]
  exact List.flatMap_congr fun code _ => tokens code

/-- What the compressed name of a symbol spells is its name behind its type. -/
theorem recordText_name (linked : emitted.Linked k)
    (markers : ∀ i c, emitted.markers[i]? = some c → k.kallsymsMarkers i = c)
    (wrote : g.writeSrc malloced depth = some emitted) {value : BitVec 8 → List (BitVec 8)}
    (tokens : ∀ code, k.token code = value code) {symbols : List KeptSymbol}
    (spells : (g.table.map SymBuffer.word).map (·.flatMap value) = symbols.map KeptSymbol.text)
    (texts : symbols.map KeptSymbol.name = table.map TableEntry.name) {i : Nat} {s : TableEntry}
    (selected : table[i]? = some s) (first : i < 256) :
    (k.recordText (k.getSymbolOffset (BitVec.ofNat 64 i)).toNat).tail = s.name := by
  -- The symbol has a name among the names, which is compressed at the same place.
  have mine := congrArg (fun texts => texts[i]?) texts
  simp only [List.getElem?_map, selected, Option.map_some] at mine
  obtain ⟨symbol, found, same⟩ := Option.map_eq_some_iff.mp mine
  have spelt := congrArg (fun texts => texts[i]?) spells
  simp only [List.getElem?_map, found, Option.map_some] at spelt
  obtain ⟨word, compressed, spelt⟩ := Option.map_eq_some_iff.mp spelt
  obtain ⟨t, place, rfl⟩ := Option.map_eq_some_iff.mp compressed
  rw [recordText_written linked markers wrote tokens place first, spelt, ← same]
  rfl

/-- The address of every symbol is linked as it was in the map. -/
theorem addresses_linked {text : U64} {compressed : List SymBuffer}
    (counts : compressed.length = table.length)
    (addresses : ∀ (i : Nat) operand,
      ((table.zip compressed).map fun (s, t) => addressOperand text s.addr t)[i]? = some operand →
        k.kallsymsAddresses i = operand.value text)
    (i : Nat) (s : TableEntry) (found : table[i]? = some s) : k.kallsymsAddresses i = s.addr := by
  have inside : i < compressed.length := by
    rw [counts]
    exact (List.getElem?_eq_some_iff.mp found).1
  have both : (table.zip compressed)[i]? = some (s, compressed[i]) :=
    List.getElem?_zip_eq_some.mpr ⟨found, List.getElem?_eq_getElem inside⟩
  rw [addresses i (addressOperand text s.addr compressed[i]) (by rw [List.getElem?_map, both]; rfl)]
  exact addressOperand_value _ _ _

/-- The search for the end of a symbol stops at the least greater address. -/
theorem symbolEnd_least (sorted : k.Sorted) (count : k.kallsymsNumSyms.toNat = table.length)
    (addresses : ∀ (i : Nat) (t : TableEntry), table[i]? = some t → k.kallsymsAddresses i = t.addr)
    {low : Nat} {s next : TableEntry} (selected : table[low]? = some s) (member : next ∈ table)
    (greater : s.addr < next.addr)
    (least : ∀ t ∈ table, s.addr < t.addr → next.addr ≤ t.addr) :
    k.symbolEnd low (low + 1) = next.addr := by
  have inside : low < table.length := (List.getElem?_eq_some_iff.mp selected).1
  have here := addresses low s selected
  obtain ⟨j, within, rfl⟩ := List.mem_iff_getElem.mp member
  have there := addresses j _ (List.getElem?_eq_getElem within)
  obtain ⟨first, among, above, aliases, ended⟩ := Tables.symbolEnd_after sorted
    (show low < k.kallsymsNumSyms.toNat by omega)
    ⟨j, by omega, by rw [here, there]; exact greater⟩
  -- It stops at the first greater address, which is not behind the least one.
  have before : first ≤ j := by
    by_contra front
    have alias_ := aliases j (Nat.not_le.mp front)
    rw [here, there] at alias_
    exact absurd greater (BitVec.not_lt.mpr alias_)
  have up := sorted first j before (by omega)
  have at_ := addresses first _ (List.getElem?_eq_getElem (by omega))
  rw [here, at_] at above
  rw [at_, there] at up
  have close := least _ (List.getElem_mem (by omega)) above
  rw [ended, at_, BitVec.le_antisymm up close]

end

/-- A symbol of a list is the last one in front of an address. -/
def Encloses (table : List TableEntry) (addr : U64) (s : TableEntry) : Prop :=
  s ∈ table ∧ s.addr ≤ addr ∧ ∀ t ∈ table, t.addr ≤ addr → t.rank ≤ s.rank

instance (table : List TableEntry) (addr : U64) (s : TableEntry) :
    Decidable (Encloses table addr s) :=
  inferInstanceAs (Decidable (_ ∧ _))

/-- In a sorted table that is the one the search of the kernel selects. -/
theorem Tables.search_encloses {k : Tables} {table : List TableEntry} {addr : U64} {s : TableEntry}
    (ordered : table.Pairwise fun a b => a.rank < b.rank)
    (count : k.kallsymsNumSyms.toNat = table.length)
    (addresses : ∀ (i : Nat) (t : TableEntry), table[i]? = some t → k.kallsymsAddresses i = t.addr)
    (encloses : Encloses table addr s) :
    table[k.search addr 0 k.kallsymsNumSyms.toNat]? = some s ∧ k.Sorted := by
  have place {i : Nat} (inside : i < k.kallsymsNumSyms.toNat) :
      ∃ t, table[i]? = some t ∧ t ∈ table ∧ k.kallsymsAddresses i = t.addr := by
    rw [count] at inside
    have found := List.getElem?_eq_getElem inside
    exact ⟨_, found, List.getElem_mem inside, addresses i _ found⟩
  -- What is further on in the table has a higher rank.
  have ranks {i j : Nat} {a b : TableEntry} (first : table[i]? = some a)
      (second : table[j]? = some b) (less : i < j) : a.rank < b.rank := by
    obtain ⟨inside, rfl⟩ := List.getElem?_eq_some_iff.mp first
    obtain ⟨within, rfl⟩ := List.getElem?_eq_some_iff.mp second
    exact List.pairwise_iff_getElem.mp ordered i j inside within less
  have sorted : k.Sorted := by
    intro i j before inside
    obtain ⟨a, first, -, atFirst⟩ := place (Nat.lt_of_le_of_lt before inside)
    obtain ⟨b, second, -, atSecond⟩ := place inside
    rw [atFirst, atSecond]
    rcases Nat.eq_or_lt_of_le before with rfl | less
    · rw [Option.some_inj.mp (first.symm.trans second)]
      exact Nat.le_refl _
    · exact TableEntry.addr_le_of_rank (ranks first second less).le
  obtain ⟨member, below, last⟩ := encloses
  obtain ⟨j, within, here⟩ := List.mem_iff_getElem.mp member
  have mine : table[j]? = some s := by rw [List.getElem?_eq_getElem within, here]
  have front : k.kallsymsAddresses 0 ≤ addr := by
    have least := sorted 0 j (Nat.zero_le _) (by omega)
    rw [addresses j s mine] at least
    exact Nat.le_trans least below
  obtain ⟨known, reached, greatest⟩ := search_greatest sorted (by omega) front
  obtain ⟨t, found, inside, at_⟩ := place known
  rw [at_] at reached
  -- Neither of the two symbols can be behind the other.
  have up := greatest j (by omega) (by rw [addresses j s mine]; exact below)
  rcases Nat.eq_or_lt_of_le up with same | less
  · exact ⟨by rw [← same]; exact mine, sorted⟩
  · exact absurd (ranks mine found less) (not_lt_of_ge (last t inside reached))

/--
From a map to the kernel: if the symbols that are kept make one block of names, the kernel tells
for every address of its text the one of them that `compare_symbols` puts last among those that are
not behind the address: its name, how far the address is from it, and how far the next address is
that a symbol has.
-/
theorem kallsymsLookup_kept (options : Options) {map : List MapLine} (few : map.length ≤ 2 ^ 31)
    (malloced : Nat → BitVec 32) {depth : Nat} (deep : 256 < depth)
    (some_ : (keptSymbols options map).1 ≠ []) (block : (keptSymbols options map).1.length ≤ 256)
    (printable : ∀ s ∈ (keptSymbols options map).1, s.Printable) :
    ∃ assembly, kallsyms malloced depth options map = some assembly ∧
      ∀ k, assembly.Linked (keptSymbols options map).2.text k →
        ∃ bound, ∀ fuel ≥ bound, ∀ stext etext addr namebuf,
          isKernel stext etext addr = true → ∀ s, Encloses (keptSymbols options map).1 addr s →
            ∃ found, k.kallsymsLookup fuel stext etext addr namebuf = some (some found) ∧
              (∀ i c, (s.name ++ [0])[i]? = some c → found.namebuf i = c) ∧
              found.offset = addr - s.addr ∧
              ∀ next ∈ (keptSymbols options map).1, s.addr < next.addr →
                (∀ t ∈ (keptSymbols options map).1, s.addr < t.addr → next.addr ≤ t.addr) →
                found.symbolsize = next.addr - s.addr := by
  obtain ⟨known, ordered⟩ := keptSymbols_spec options few
  obtain ⟨symbols, buffers, texts⟩ := exists_keptSymbols
    (fun s member => mapSymbols_stored options map s (known s member)) printable
  rw [kallsyms]
  generalize keptSymbols options map = kept at *
  obtain ⟨table, r⟩ := kept
  dsimp only at *
  have filled : symbols ≠ [] := by
    rintro rfl
    exact some_ (List.map_eq_nil_iff.mp buffers.symm)
  obtain ⟨g, optimized, emitted, wrote, names, value, spells, tokens⟩ :=
    exists_written filled malloced deep
  rw [← buffers, optimized]
  dsimp only
  rw [wrote]
  refine ⟨_, rfl, fun k linked => ⟨k.rounds, fun fuel enough stext etext addr namebuf accepted s
    encloses => ?_⟩⟩
  obtain ⟨plain, markers, addresses, numSyms⟩ := linked
  dsimp only at plain markers addresses numSyms
  -- The compressed names are as many as the symbols.
  have counts : g.table.length = table.length := by
    have same := congrArg List.length spells
    have length := congrArg List.length buffers
    rw [List.length_map, List.length_map, List.length_map] at same
    rw [List.length_map, List.length_map] at length
    omega
  have count : k.kallsymsNumSyms.toNat = table.length := by
    rw [numSyms, combine_ptr, BitVec.toNat_ofNat]
    omega
  have address := addresses_linked counts addresses
  obtain ⟨selected, sorted⟩ := Tables.search_encloses ordered count address encloses
  rw [Tables.kallsymsLookup, if_pos accepted]
  dsimp only
  rw [k.kallsymsExpandSymbol_eq enough]
  dsimp only
  generalize k.search addr 0 k.kallsymsNumSyms.toNat = low at *
  have inside : low < table.length := (List.getElem?_eq_some_iff.mp selected).1
  have name := recordText_name plain markers wrote (tokens k plain) spells texts selected (by omega)
  rw [name, address low s selected]
  refine ⟨_, rfl, fun i c read => ?_, rfl, fun next member greater least => ?_⟩
  · dsimp only
    rw [read]
    rfl
  · dsimp only
    rw [symbolEnd_least sorted count address selected member greater least]

/-- Of the three symbols at two addresses all are kept. -/
theorem keptSymbols_family :
    keptSymbols allSymbolsOptions familyMap = (family, Reader.initial 0) := by
  have few : familyMap.length ≤ 2 ^ 31 := by decide
  have numbered := mapSymbols_numbered allSymbolsOptions few
  have sorted := numbered.sortSymbols_of_ordered (List.reverse_perm family).symm family_ordered
  rw [mapSymbols_family] at sorted
  rw [keptSymbols, mapSymbols_family]
  dsimp only
  rw [← sorted]
  rfl

/-- Behind `papa` and the weak `mama` at its address, the kernel tells the weak one. -/
theorem kallsymsLookup_kept_family :
    ∃ assembly, kallsyms (fun _ => 0) 257 allSymbolsOptions familyMap = some assembly ∧
      ∃ bound, ∀ fuel ≥ bound, ∃ found,
        (assembly.link 0).kallsymsLookup fuel 0x80200000 0x80201000 0x80200010 (fun _ => 0) =
          some (some found) ∧
        (List.range 5).map found.namebuf = [0x6d, 0x61, 0x6d, 0x61, 0] ∧
        found.offset = 0x10 ∧ found.symbolsize = 0x20 := by
  have lookup := kallsymsLookup_kept allSymbolsOptions (show familyMap.length ≤ 2 ^ 31 by decide)
    (fun _ => 0) (show 256 < 257 by omega)
  rw [keptSymbols_family] at lookup
  obtain ⟨assembly, written, looks⟩ := lookup (by decide) (by decide) (by decide)
  obtain ⟨bound, found⟩ := looks (assembly.link 0) (assembly.linked 0)
  refine ⟨assembly, written, bound, fun fuel enough => ?_⟩
  obtain ⟨found, looked, name, offset, size⟩ := found fuel enough 0x80200000 0x80201000 0x80200010
    (fun _ => 0) (by decide) family[1] (by decide)
  -- The next address is that of `tata`, and the five bytes are those of the name and its zero.
  have behind := size family[2] (by decide) (by decide) (by decide)
  have byte (i : Nat) (c : BitVec 8) (read : (family[1].name ++ [0])[i]? = some c) := name i c read
  refine ⟨found, looked, ?_, offset, behind⟩
  simp [List.range_succ, byte 0 0x6d rfl, byte 1 0x61 rfl, byte 2 0x6d rfl, byte 3 0x61 rfl,
    byte 4 0 rfl]

end Benos.Kallsyms
