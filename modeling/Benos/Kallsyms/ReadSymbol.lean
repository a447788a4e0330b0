import Benos.Kallsyms.RoundTrip

/-!
Which symbols `read_symbol` of `scripts/kallsyms` takes, and whether their names fit into the buffer
of `print_symbol`.
-/

namespace Benos.Kallsyms

/-- A string of the program, as its bytes. -/
def ascii (text : String) : List (BitVec 8) := text.toList.map fun c => BitVec.ofNat 8 c.toNat

/-- `struct addr_range`. -/
structure AddrRange where
  startSym : String
  endSym : String
  start : U64
  last : U64

/-- The globals that `read_symbol` reads or changes. -/
structure Reader where
  text : U64
  textRanges : List AddrRange
  percpuRange : AddrRange
  symbolPrefixChar : BitVec 8

/-- The globals at the start; the prefix character comes from the command line. -/
def Reader.initial (symbolPrefixChar : BitVec 8) : Reader where
  text := 0
  textRanges :=
    [{ startSym := "_stext", endSym := "_etext", start := 0, last := 0 },
      { startSym := "_sinittext", endSym := "_einittext", start := 0, last := 0 },
      { startSym := "_stext_l1", endSym := "_etext_l1", start := 0, last := 0 },
      { startSym := "_stext_l2", endSym := "_etext_l2", start := 0, last := 0 }]
  percpuRange := { startSym := "__per_cpu_start", endSym := "__per_cpu_end", start := -1, last := 0 }
  symbolPrefixChar

/-- What `fscanf` finds in a line: `%499s` takes so many characters and no zero. -/
structure Line where
  addr : U64
  stype : BitVec 8
  str : List (BitVec 8)
  short : str.length ≤ 499
  full : 0 ∉ str

/-- `toupper`. -/
def toupper (c : BitVec 8) : BitVec 8 := if 0x61 ≤ c ∧ c ≤ 0x7a then c - 0x20 else c

/-- A character of a string, its zero, or what is left in the buffer behind it. -/
def charAt (stale : BitVec 8) (str : List (BitVec 8)) (i : Nat) : BitVec 8 :=
  (str ++ [0])[i]?.getD stale

/-- `strchr("axtd", c)`, which finds the zero of the string, too. -/
def oneOfAxtd (c : BitVec 8) : Bool := c = 0x61 ∨ c = 0x78 ∨ c = 0x74 ∨ c = 0x64 ∨ c = 0

/-- `is_arm_mapping_symbol`. -/
def isArmMappingSymbol (stale : BitVec 8) (str : List (BitVec 8)) : Bool :=
  charAt stale str 0 = 0x24 ∧ oneOfAxtd (charAt stale str 1) ∧
    (charAt stale str 2 = 0 ∨ charAt stale str 2 = 0x2e)

/-- `check_symbol_range`, with the ranges as they are set if the symbol is the end of one. -/
def checkSymbolRange (sym : List (BitVec 8)) (addr : U64) : List AddrRange → Option (List AddrRange)
  | [] => none
  | ar :: rest =>
    if sym = ascii ar.startSym then some ({ ar with start := addr } :: rest)
    else if sym = ascii ar.endSym then some ({ ar with last := addr } :: rest)
    else (checkSymbolRange sym addr rest).map (ar :: ·)

/-- The absolute symbols that are kept. -/
def keptAbsolute : List String :=
  ["__kernel_syscall_via_break", "__kernel_syscall_via_epc", "__kernel_sigtramp", "__gp"]

/-- `read_symbol` of a line that `fscanf` accepts: the symbol, if it is taken, and the globals. -/
def readSymbol (stale : BitVec 8) (r : Reader) (line : Line) : Option (SymBuffer × Reader) :=
  -- Longer names are reported and left out.
  if long : ¬ line.str.length ≤ ksymNameLen then none
  else
    let sym := if r.symbolPrefixChar ≠ 0 ∧ charAt stale line.str 0 = r.symbolPrefixChar
      then line.str.tail else line.str
    let ranged : Option Reader :=
      if sym = ascii "_text" then some { r with text := line.addr }
      else match checkSymbolRange sym line.addr r.textRanges with
        | some textRanges => some { r with textRanges }
        | none =>
          -- Of the absolute symbols, `A`, a few are kept.
          if toupper line.stype = 0x41 then
            if sym ∈ keptAbsolute.map ascii then some r else none
          -- Undefined symbols, `U`, and those that only map code.
          else if toupper line.stype = 0x55 ∨ isArmMappingSymbol stale sym then none
          else if charAt stale line.str 0 = 0x24 then none
          -- Symbols for debugging, `N`.
          else if line.stype = 0x4e then none
          else some r
    ranged.map fun r =>
      let percpu := checkSymbolRange sym line.addr [r.percpuRange]
      (storeSymbol line.stype line.str (Decidable.of_not_not long),
        { r with percpuRange := (percpu.bind List.head?).getD r.percpuRange })

/-! ### The buffer of a name -/

/-- What `kallsyms_lookup` has written for a record stays in a buffer of `KSYM_NAME_LEN` bytes. -/
def FitsNamebuf (k : Tables) (off : BitVec 32) : Prop :=
  ∃ bound, ∀ fuel ≥ bound, ∃ next written,
    k.kallsymsExpandSymbol fuel off = some (next, written) ∧ written.length ≤ ksymNameLen

/-- The symbol that is taken has the type and the name of its line. -/
theorem readSymbol_word {stale : BitVec 8} {r after : Reader} {line : Line} {s : SymBuffer}
    (accepted : readSymbol stale r line = some (s, after)) : s.word = line.stype :: line.str := by
  rw [readSymbol] at accepted
  split at accepted
  · cases accepted
  · -- However the symbol is judged, what is stored is the whole line.
    next short =>
    obtain ⟨_, _, same⟩ := Option.map_eq_some_iff.mp accepted
    rw [← (Prod.mk.inj same).1]
    exact storeSymbol_word _ _

/-- A record without its first character fits if it has no more characters than the buffer. -/
theorem fitsNamebuf_of_record (k : Tables) (off : BitVec 32) :
    FitsNamebuf k off ↔ (k.recordText off.toNat).tail.length < ksymNameLen := by
  have size : ((k.recordText off.toNat).tail ++ [0]).length =
      (k.recordText off.toNat).tail.length + 1 := by
    rw [List.length_append, List.length_singleton]
  constructor
  · rintro ⟨bound, fits⟩
    -- With enough rounds for both bounds it is the record that was written.
    obtain ⟨next, written, expanded, short⟩ := fits (max bound k.rounds) (le_max_left _ _)
    rw [k.kallsymsExpandSymbol_eq (le_max_right _ _)] at expanded
    rw [← (Prod.mk.inj (Option.some_inj.mp expanded)).2, size] at short
    exact short
  · intro short
    refine ⟨k.rounds, fun fuel enough => ⟨_, _, k.kallsymsExpandSymbol_eq enough off, ?_⟩⟩
    rw [size]
    exact short

/--
Whatever the tokens, a symbol that `read_symbol` takes fits into the buffer exactly if its name has
less than `KSYM_NAME_LEN` characters; the check in front of the reader lets one more pass.
-/
theorem fitsNamebuf_iff {stale : BitVec 8} {r after : Reader} {line : Line} {s : SymBuffer}
    (accepted : readSymbol stale r line = some (s, after)) {k : Tables} {off : BitVec 32}
    (spells : k.recordText off.toNat = s.word) :
    FitsNamebuf k off ↔ line.str.length < ksymNameLen := by
  rw [fitsNamebuf_of_record, spells, readSymbol_word accepted, List.tail_cons]

/-- Tables with one symbol, in which every code stands for itself. -/
def plainTables (s : SymBuffer) : Tables where
  kallsymsNames i := (record s.entry)[i]?.getD 0
  kallsymsMarkers _ := 0
  kallsymsAddresses _ := 0x80200000
  kallsymsNumSyms := 1
  kallsymsTokenTable i := if i % 2 = 0 then BitVec.ofNat 8 (i / 2) else 0
  kallsymsTokenIndex code := BitVec.ofNat 16 (2 * code)
  terminated code := by
    refine ⟨1, if_neg ?_⟩
    have := code.isLt
    rw [BitVec.toNat_ofNat]
    omega

/-- Their record spells the symbol. -/
theorem plainTables_spells {s : SymBuffer} (full : ∀ c ∈ s.word, c ≠ 0) :
    (plainTables s).recordText 0 = s.word := by
  have itself {c : BitVec 8} (other : c ≠ 0) : (plainTables s).token c = [c] := by
    -- The token of a code is two bytes long, and begins at twice the code.
    have begins : ((plainTables s).kallsymsTokenIndex c.toNat).toNat = 2 * c.toNat := by
      have := c.isLt
      show (BitVec.ofNat 16 (2 * c.toNat)).toNat = _
      rw [BitVec.toNat_ofNat]
      omega
    refine Tables.token_eq (fun char member => List.mem_singleton.mp member ▸ other) fun i char read => ?_
    rw [begins]
    -- The character is at the even place, and its zero at the odd one behind it.
    match i, read with
    | 0, read =>
      rw [← Option.some_inj.mp read]
      show (if 2 * c.toNat % 2 = 0 then BitVec.ofNat 8 (2 * c.toNat / 2) else 0) = c
      rw [if_pos (by omega), Nat.mul_div_cancel_left _ (by omega), BitVec.ofNat_toNat,
        BitVec.setWidth_eq]
    | 1, read =>
      rw [← Option.some_inj.mp read]
      exact if_neg (by omega)
  have short : s.word.length < 256 := Nat.lt_of_le_of_lt s.entry.fits (by decide)
  have record : (plainTables s).recordText 0 = s.word.flatMap (plainTables s).token := by
    refine Tables.recordText_eq short fun i c read => ?_
    rw [Nat.zero_add]
    show ((BitVec.ofNat 8 s.word.length :: s.word)[i]?).getD 0 = c
    rw [read]
    rfl
  rw [record, List.flatMap_congr fun c member => itself (full c member)]
  exact List.flatMap_singleton' _

/-- The line of a function with a name of so many times the letter `a`. -/
def functionLine (n : Nat) (short : n ≤ 499) : Line where
  addr := 0x80200000
  stype := 0x54
  str := List.replicate n 0x61
  short := by rw [List.length_replicate]; exact short
  full := fun member => absurd (List.eq_of_mem_replicate member) (by decide)

/-- The symbol that is made of it. -/
def functionSymbol (n : Nat) (short : n ≤ ksymNameLen) : SymBuffer :=
  storeSymbol 0x54 (List.replicate n 0x61) (by rw [List.length_replicate]; exact short)

/-- There is no zero in it. -/
theorem functionSymbol_full {n : Nat} (short : n ≤ ksymNameLen) :
    ∀ c ∈ (functionSymbol n short).word, c ≠ 0 := by
  intro c member
  rw [functionSymbol, storeSymbol_word] at member
  -- Neither the type nor the letter is zero.
  rcases List.mem_cons.mp member with type | letter
  · rw [type]
    decide
  · rw [List.eq_of_mem_replicate letter]
    decide

/-- The symbol is taken, as its name is nothing special. -/
theorem readSymbol_functionLine {n : Nat} (long : 0 < n) (short : n ≤ ksymNameLen) :
    readSymbol 0 (Reader.initial 0) (functionLine n (Nat.le_trans short (by decide))) =
      some (functionSymbol n short, Reader.initial 0) := by
  obtain ⟨n, rfl⟩ := Nat.exists_eq_add_of_lt long
  have taken : ¬ ¬ (functionLine (0 + n + 1) (Nat.le_trans short (by decide))).str.length ≤
      ksymNameLen := by
    rw [functionLine, List.length_replicate]
    exact not_not_intro short
  -- The first letter is all that the checks look at.
  rw [readSymbol, dif_neg taken]
  rfl

/-- With one character less than the buffer has bytes the name fits. -/
theorem fitsNamebuf_iff_127 : FitsNamebuf (plainTables (functionSymbol 127 (by decide))) 0 := by
  have accepted := readSymbol_functionLine (show 0 < 127 by decide) (by decide)
  have spells : (plainTables (functionSymbol 127 (by decide))).recordText (0 : BitVec 32).toNat =
      (functionSymbol 127 (by decide)).word := plainTables_spells (functionSymbol_full _)
  refine (fitsNamebuf_iff accepted spells).mpr ?_
  rw [functionLine, List.length_replicate]
  decide

/-- With as many characters it is taken, and does not fit. -/
theorem not_fitsNamebuf_128 : ¬ ∀ (stale : BitVec 8) (r after : Reader) (line : Line) (s : SymBuffer)
    (k : Tables) (off : BitVec 32), readSymbol stale r line = some (s, after) →
      k.recordText off.toNat = s.word → FitsNamebuf k off := by
  intro fits
  have accepted := readSymbol_functionLine (show 0 < 128 by decide) (by decide)
  have spells : (plainTables (functionSymbol 128 (by decide))).recordText (0 : BitVec 32).toNat =
      (functionSymbol 128 (by decide)).word := plainTables_spells (functionSymbol_full _)
  have written := (fitsNamebuf_of_record _ 0).mp (fits _ _ _ _ _ _ 0 accepted spells)
  -- The zero behind the name would be the 129th byte.
  rw [spells, functionSymbol, storeSymbol_word, List.tail_cons, List.length_replicate] at written
  exact absurd written (by decide)

end Benos.Kallsyms
