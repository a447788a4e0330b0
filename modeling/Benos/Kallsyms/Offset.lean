import Benos.Lib.LittleEndian
import Benos.Lib.Records
import Benos.Lib.Word
import Benos.Machine.Memory
import Mathlib.Algebra.Group.Nat.Even
import Mathlib.Logic.Function.Basic

/-!
Where the record of a symbol is: the table writer of `scripts/kallsyms` and the reader in the kernel.

The writer emits a marker for every 256 records with `PTR`, the reader declares them `unsigned int`.
-/

namespace Benos

/-- `KSYM_NAME_LEN`. -/
def ksymNameLen : Nat := 128

/-- A symbol as it is emitted: its type and name, or the tokens that stand for them. -/
structure SymEntry where
  sym : List (BitVec 8)
  /-- `read_symbol` takes no longer name, and no token makes a symbol longer. -/
  fits : sym.length ≤ ksymNameLen + 1

/-- `BITS_PER_LONG` of `asm/types.h`. -/
def bitsPerLong : Nat := 64

/-- The bytes of `PTR`: `.quad` for 64 bits, `.long` otherwise. -/
def ptrBytes : Nat := if bitsPerLong = 64 then 8 else 4

namespace Kallsyms

/-! ### The writer -/

/-- `.byte` of the length and of every character of a symbol. -/
def record (s : SymEntry) : List (BitVec 8) := BitVec.ofNat 8 s.sym.length :: s.sym

/-- `PTR %d` of an `unsigned int`, which is printed as a signed number. -/
def ptr (value : BitVec 32) : List (BitVec 8) :=
  LittleEndian.split ptrBytes (value.signExtend 64).toNat

/-- The loop of `write_src` over the symbols from index `i` on. -/
def writeNames (markers : Nat → BitVec 32) : Nat → BitVec 32 → List SymEntry →
    List (BitVec 8) × (Nat → BitVec 32)
  | _, _, [] => ([], markers)
  | i, off, s :: rest =>
    let markers := if i &&& 0xFF = 0 then Function.update markers (i >>> 8) off else markers
    let (names, markers) := writeNames markers (i + 1) (off + (BitVec.ofNat 32 s.sym.length + 1)) rest
    (record s ++ names, markers)

/-- The sections `kallsyms_names` and `kallsyms_markers`. -/
structure Sections where
  names : List (BitVec 8)
  markers : List (BitVec 8)

/-- The part of `write_src` that emits them; the array of markers comes from `malloc`. -/
def writeSrc (malloced : Nat → BitVec 32) (table : List SymEntry) : Sections :=
  let (names, markers) := writeNames malloced 0 0 table
  { names, markers := (List.range ((table.length + 255) >>> 8)).flatMap fun i => ptr (markers i) }

/-! ### The reader -/

/-- What the kernel finds at its two arrays, byte by byte. -/
structure Arrays where
  kallsymsNames : Nat → BitVec 8
  kallsymsMarkers : Nat → BitVec 8

/-- The sections as they are linked, with whatever lies behind each of them. -/
def Sections.link (emitted : Sections) (beyond : Arrays) : Arrays where
  kallsymsNames i := emitted.names[i]?.getD (beyond.kallsymsNames i)
  kallsymsMarkers i := emitted.markers[i]?.getD (beyond.kallsymsMarkers i)

/-- An element of `kallsyms_markers`, which is declared as an array of `unsigned int`. -/
def Arrays.marker (k : Arrays) (i : Nat) : BitVec 32 :=
  BitVec.ofNat 32
    (LittleEndian.combine ((List.range 4).map fun j => k.kallsymsMarkers (4 * i + j)))

/-- The loop of `get_symbol_offset`: so many records further on. -/
def Arrays.skip (k : Arrays) : Nat → Nat → Nat
  | 0, name => name
  | more + 1, name => k.skip more (name + (k.kallsymsNames name).toNat + 1)

/-- `get_symbol_offset`, with pointers as offsets from `kallsyms_names`. -/
def Arrays.getSymbolOffset (k : Arrays) (pos : U64) : BitVec 32 :=
  BitVec.ofNat 32 (k.skip (pos &&& 0xFF).toNat (k.marker (pos >>> 8).toNat).toNat)

/-! ### What is emitted -/

/-- Where the record of a symbol begins. -/
abbrev offset (table : List SymEntry) (pos : Nat) : Nat := Records.offset record table pos

/-- The emitted names are the records one behind the other. -/
theorem writeNames_names (markers : Nat → BitVec 32) (i : Nat) (off : BitVec 32)
    (table : List SymEntry) : (writeNames markers i off table).1 = table.flatMap record := by
  induction table generalizing markers i off with
  | nil => rfl
  | cons s rest ih => rw [writeNames, List.flatMap_cons, ← ih]

/-- A record is its length and its characters. -/
theorem record_length (s : SymEntry) : (record s).length = s.sym.length + 1 := List.length_cons

/-- Behind the first symbol every offset is further on by its record. -/
theorem offset_cons (s : SymEntry) (rest : List SymEntry) (pos : Nat) :
    offset (s :: rest) (pos + 1) = s.sym.length + 1 + offset rest pos := by
  simp [offset, Records.offset, record_length]

/-- The loop has set the marker of every block that begins among its symbols, and no other. -/
theorem writeNames_markers (markers : Nat → BitVec 32) (i : Nat) (off : BitVec 32)
    (table : List SymEntry) (q : Nat) :
    (writeNames markers i off table).2 q =
      if i ≤ 256 * q ∧ 256 * q < i + table.length then
        off + BitVec.ofNat 32 (offset table (256 * q - i))
      else markers q := by
  induction table generalizing markers i off with
  | nil =>
    rw [List.length_nil, if_neg (by omega)]
    rfl
  | cons s rest ih =>
    have low : i &&& 0xFF = i % 256 := Nat.and_two_pow_sub_one_eq_mod i 8
    have high : i >>> 8 = i / 256 := Nat.shiftRight_eq_div_pow i 8
    rw [writeNames]
    dsimp only
    rw [ih, low, high, List.length_cons]
    -- A marker that this symbol does not set is as it was.
    have kept (other : i ≠ 256 * q) :
        (if i % 256 = 0 then Function.update markers (i / 256) off else markers) q = markers q := by
      split
      · exact Function.update_of_ne (by omega) _ _
      · rfl
    by_cases later : i + 1 ≤ 256 * q ∧ 256 * q < i + 1 + rest.length
    · -- The block begins at a later symbol, whose offset counts this record too.
      have next : 256 * q - i = 256 * q - (i + 1) + 1 := by omega
      have sum : BitVec.ofNat 32 (s.sym.length + 1 + offset rest (256 * q - (i + 1))) =
          BitVec.ofNat 32 s.sym.length + 1 + BitVec.ofNat 32 (offset rest (256 * q - (i + 1))) := by
        rw [BitVec.ofNat_add, BitVec.ofNat_add]
        rfl
      rw [if_pos later, if_pos (by omega), next, offset_cons, sum, BitVec.add_assoc]
    · rw [if_neg later]
      by_cases here : i = 256 * q
      · -- The block begins at this symbol.
        have block : i / 256 = q := by omega
        have none : 256 * q - i = 0 := by omega
        rw [if_pos (show i % 256 = 0 by omega), block, Function.update_self, if_pos (by omega), none]
        exact (BitVec.add_zero off).symm
      · rw [kept here, if_neg (by omega)]

/-- The marker of a block is where its first record begins. -/
theorem writeSrc_marker (malloced : Nat → BitVec 32) {table : List SymEntry} {q : Nat}
    (inside : 256 * q < table.length) :
    (writeNames malloced 0 0 table).2 q = BitVec.ofNat 32 (offset table (256 * q)) := by
  rw [writeNames_markers, if_pos ⟨Nat.zero_le _, by omega⟩, Nat.sub_zero]
  exact BitVec.zero_add _

/-! ### What is read back -/

variable {malloced : Nat → BitVec 32} {beyond : Arrays} {table : List SymEntry}

/-- A byte of an emitted marker, at eight bytes a marker. -/
theorem link_marker {q j : Nat} (inside : 256 * q < table.length) (byte : j < 8) :
    ((writeSrc malloced table).link beyond).kallsymsMarkers (8 * q + j) =
      BitVec.ofNat 8 (((BitVec.ofNat 32 (offset table (256 * q))).signExtend 64).toNat / 256 ^ j) := by
  have blocks : (table.length + 255) >>> 8 = (table.length + 255) / 256 :=
    Nat.shiftRight_eq_div_pow _ 8
  -- There is one marker for every 256 symbols or part of them.
  have found : (List.range ((table.length + 255) >>> 8))[q]? = some q := by
    rw [blocks]
    exact List.getElem?_range (by omega)
  -- Every marker takes eight bytes, so those of this one begin at eight times its index.
  have starts : Records.offset (fun i => ptr ((writeNames malloced 0 0 table).2 i))
      (List.range ((table.length + 255) >>> 8)) q = 8 * q := by
    apply Records.offset_const (fun i => LittleEndian.split_length _ _)
    rw [List.length_range, blocks]
    omega
  have long : j < (ptr ((writeNames malloced 0 0 table).2 q)).length := by
    rw [ptr, LittleEndian.split_length]
    exact byte
  have emitted := @Records.flatMap_getElem? _ _
    (fun i => ptr ((writeNames malloced 0 0 table).2 i)) _ _ _ _ found long
  rw [starts] at emitted
  -- What is emitted there is one byte of the value that was noted for the block.
  show ((writeSrc malloced table).markers[8 * q + j]?).getD _ = _
  rw [writeSrc]
  dsimp only
  have wide : j < ptrBytes := byte
  rw [emitted, ptr, LittleEndian.split_getElem? wide, writeSrc_marker malloced inside]
  rfl

/-- An element the kernel reads is one half of an emitted marker. -/
theorem marker_half {q half : Nat} (inside : 256 * q < table.length) (two : half < 2) :
    ((writeSrc malloced table).link beyond).marker (2 * q + half) =
      BitVec.ofNat 32 (((BitVec.ofNat 32 (offset table (256 * q))).signExtend 64).toNat /
        256 ^ (4 * half) % 256 ^ 4) := by
  -- The bytes that the kernel reads are those that were written, counted from marker `q`.
  have bytes : (List.range 4).map (fun j =>
        ((writeSrc malloced table).link beyond).kallsymsMarkers (4 * (2 * q + half) + j)) =
      (List.range 4).map fun j =>
        ((writeSrc malloced table).link beyond).kallsymsMarkers (8 * q + (4 * half + j)) :=
    List.map_congr_left fun j _ => congrArg _ (by omega)
  have part : 4 * half + 4 ≤ 8 := by omega
  rw [Arrays.marker, bytes]
  exact congrArg _ (LittleEndian.combine_range (fun j byte => link_marker inside byte) part)

/-- The lower half is the marker. -/
theorem marker_even {q : Nat} (inside : 256 * q < table.length) :
    ((writeSrc malloced table).link beyond).marker (2 * q) =
      BitVec.ofNat 32 (offset table (256 * q)) := by
  have read : ((writeSrc malloced table).link beyond).marker (2 * q + 0) = _ :=
    marker_half inside (by omega)
  rw [Nat.add_zero] at read
  rw [read]
  apply BitVec.eq_of_toNat_eq
  -- The extension by the sign adds nothing below its own bits.
  rw [BitVec.toNat_ofNat, BitVec.toNat_signExtend, BitVec.toNat_setWidth, BitVec.toNat_ofNat]
  split <;> omega

/-- The upper half of a marker below 2 GiB is nothing. -/
theorem marker_odd {q : Nat} (inside : 256 * q < table.length)
    (small : offset table (256 * q) < 2 ^ 31) :
    ((writeSrc malloced table).link beyond).marker (2 * q + 1) = 0 := by
  rw [marker_half inside (by omega)]
  -- Below the bound the value is not negative, so the upper half of its extension is zero.
  have positive : (BitVec.ofNat 32 (offset table (256 * q))).msb = false := by
    rw [BitVec.msb_eq_decide, BitVec.toNat_ofNat]
    exact decide_eq_false (by omega)
  rw [BitVec.toNat_signExtend, BitVec.toNat_setWidth, BitVec.toNat_ofNat, positive]
  have none : offset table (256 * q) % 2 ^ 32 % 2 ^ 64 / 256 ^ (4 * 1) % 256 ^ 4 = 0 := by omega
  rw [if_neg (by decide), Nat.add_zero, none]
  rfl

/-- The first byte of a record tells how long it is. -/
theorem link_names {k : Nat} {s : SymEntry} (found : table[k]? = some s) :
    (((writeSrc malloced table).link beyond).kallsymsNames (offset table k)).toNat =
      s.sym.length := by
  -- A record begins with the length of what is behind it.
  have emitted : (table.flatMap record)[offset table k + 0]? = (record s)[0]? :=
    Records.flatMap_getElem? found (by rw [record_length]; omega)
  rw [Nat.add_zero] at emitted
  show (((writeSrc malloced table).names[offset table k]?).getD _).toNat = _
  rw [writeSrc]
  dsimp only
  rw [writeNames_names, emitted]
  show (BitVec.ofNat 8 s.sym.length).toNat = _
  -- The length was read from a name that fits into a byte.
  have fits := s.fits
  unfold ksymNameLen at fits
  rw [BitVec.toNat_ofNat]
  omega

/-- The loop goes from where one record begins to where a later one does. -/
theorem skip_offset {k more : Nat} (within : k + more ≤ table.length) :
    ((writeSrc malloced table).link beyond).skip more (offset table k) =
      offset table (k + more) := by
  -- Each round reads one length byte and goes on by one record.
  induction more generalizing k with
  | zero => rfl
  | succ more ih =>
    have found := List.getElem?_eq_getElem (show k < table.length by omega)
    rw [Arrays.skip, link_names found, Nat.add_assoc, ← record_length,
      ← Records.offset_succ found, ih (by omega)]
    congr 1
    omega

/-- What the kernel returns for a record: where it ends up from the element it has read. -/
theorem getSymbolOffset_eq (k : Arrays) (pos : U64) :
    k.getSymbolOffset pos =
      BitVec.ofNat 32 (k.skip (pos.toNat % 256) (k.marker (pos.toNat / 256)).toNat) := by
  have low : (pos &&& 0xFF).toNat = pos.toNat % 256 := Word.and_low_toNat pos 8 (by omega)
  have high : (pos >>> 8).toNat = pos.toNat / 256 := Word.ushiftRight_toNat pos 8
  rw [Arrays.getSymbolOffset, low, high]

/-- Every record takes a byte at least. -/
theorem record_ne_nil : ∀ s ∈ table, record s ≠ [] := fun _ _ => List.cons_ne_nil _ _

/-- The kernel finds the record of a symbol. -/
def Finds (k : Arrays) (table : List SymEntry) (pos : U64) : Prop :=
  (k.getSymbolOffset pos).toNat = offset table pos.toNat

/-- In the first block the kernel begins at the first record. -/
theorem finds_first {pos : U64} (within : pos.toNat < table.length) (first : pos.toNat < 256) :
    Finds ((writeSrc malloced table).link beyond) table pos := by
  -- The first block begins at the first element, which is its marker.
  have start : ((writeSrc malloced table).link beyond).marker (2 * 0) = _ :=
    marker_even (by omega)
  have block : pos.toNat / 256 = 2 * 0 := by omega
  have rest : pos.toNat % 256 = pos.toNat := by omega
  have skipped : ((writeSrc malloced table).link beyond).skip pos.toNat (offset table 0) = _ :=
    skip_offset (by omega)
  rw [Nat.zero_add] at skipped
  rw [Finds, getSymbolOffset_eq, block, start, rest]
  show (BitVec.ofNat 32 (Arrays.skip _ _ (offset table 0))).toNat = _
  rw [skipped, BitVec.toNat_ofNat]
  -- So few records are far from filling a word.
  have short : ∀ s ∈ table, (record s).length ≤ 130 := by
    intro s _
    have fits := s.fits
    unfold ksymNameLen at fits
    rw [record_length]
    omega
  have small : offset table pos.toNat ≤ pos.toNat * 130 := Records.offset_le short pos.toNat
  exact Nat.mod_eq_of_lt (by omega)

/-- Behind it the kernel begins at an earlier record than the one its marker is for. -/
theorem not_finds_later {pos : U64} (within : pos.toNat < table.length) (later : 256 ≤ pos.toNat)
    (small : offset table table.length < 2 ^ 31) :
    ¬ Finds ((writeSrc malloced table).link beyond) table pos := by
  -- Below 2 GiB every offset is kept by the word it is noted in.
  have bounded {k : Nat} (inside : k < table.length) : offset table k < 2 ^ 31 :=
    Nat.lt_trans (Records.offset_lt record_ne_nil inside (Nat.le_refl _)) small
  -- What has been read leads to a record that stands before the one asked for.
  have short {k : Nat} (inside : k < pos.toNat) (read : ((writeSrc malloced table).link beyond).skip
        (pos.toNat % 256) (((writeSrc malloced table).link beyond).marker (pos.toNat / 256)).toNat =
      offset table k) : ¬ Finds ((writeSrc malloced table).link beyond) table pos := by
    have before : offset table k < offset table pos.toNat :=
      Records.offset_lt record_ne_nil inside (by omega)
    have := bounded within
    rw [Finds, getSymbolOffset_eq, read, BitVec.toNat_ofNat]
    unfold offset at *
    omega
  -- The element is the lower half of an earlier marker, or an upper half.
  rcases Nat.even_or_odd' (pos.toNat / 256) with ⟨q, even | odd⟩
  · have start : ((writeSrc malloced table).link beyond).marker (2 * q) = _ :=
      marker_even (by omega)
    have block : (BitVec.ofNat 32 (offset table (256 * q))).toNat = offset table (256 * q) := by
      have := bounded (k := 256 * q) (by omega)
      rw [BitVec.toNat_ofNat]
      omega
    refine short (k := 256 * q + pos.toNat % 256) (by omega) ?_
    rw [even, start, block, skip_offset (by omega)]
  · have start : ((writeSrc malloced table).link beyond).marker (2 * q + 1) = _ :=
      marker_odd (by omega) (bounded (by omega))
    have skipped : ((writeSrc malloced table).link beyond).skip (pos.toNat % 256) (offset table 0) = _ :=
      skip_offset (by omega)
    rw [Nat.zero_add] at skipped
    refine short (k := pos.toNat % 256) (by omega) ?_
    rw [odd, start]
    exact skipped

/--
The kernel finds every record of a table exactly when the table is a single block of records.

In a table below 2 GiB it finds the records of the first block and no other.
-/
theorem getSymbolOffset_iff (malloced : Nat → BitVec 32) (beyond : Arrays) (table : List SymEntry) :
    ((∀ pos : U64, pos.toNat < table.length →
        Finds ((writeSrc malloced table).link beyond) table pos) ↔ table.length ≤ 256) ∧
      (offset table table.length < 2 ^ 31 → ∀ pos : U64, pos.toNat < table.length →
        (Finds ((writeSrc malloced table).link beyond) table pos ↔ pos.toNat < 256)) := by
  refine ⟨⟨?_, ?_⟩, ?_⟩
  · intro finds
    by_contra longer
    -- The second element is the upper half of the first marker, which is where the table begins.
    have found : Finds _ table 256 := finds 256 (by simpa using longer)
    have start : ((writeSrc malloced table).link beyond).marker (2 * 0 + 1) = 0 :=
      marker_odd (by omega) (by simp [offset])
    have second : (256 : U64).toNat = 256 := rfl
    rw [Finds, getSymbolOffset_eq, second] at found
    have first : Arrays.skip ((writeSrc malloced table).link beyond) (256 % 256)
        (((writeSrc malloced table).link beyond).marker (256 / 256)).toNat = 0 := by
      rw [show 256 / 256 = 2 * 0 + 1 from rfl, start]
      rfl
    -- Symbol 256 has 256 records before it, none of them empty.
    have behind : offset table 0 < offset table 256 :=
      Records.offset_lt record_ne_nil (by omega) (by omega)
    rw [first] at found
    rw [offset, Records.offset_zero] at behind
    have none : (BitVec.ofNat 32 0).toNat = 0 := rfl
    rw [none] at found
    exact absurd found (Nat.ne_of_lt behind)
  · intro short pos within
    exact finds_first within (by omega)
  · intro small pos within
    -- The first block is found as it should be, and no other one.
    constructor
    · intro found
      by_contra later
      exact not_finds_later within (Nat.not_lt.mp later) small found
    · exact finds_first within

/-- A symbol of one character. -/
def exampleSymbol : SymEntry := { sym := [0x54, 0x61], fits := by decide }

/-- One symbol more than a block holds. -/
def exampleTable : List SymEntry := List.replicate 257 exampleSymbol

/-- The record behind the first block is looked for at the first record. -/
theorem getSymbolOffset_second_block :
    ¬ ∀ (malloced : Nat → BitVec 32) (beyond : Arrays) (table : List SymEntry) (pos : U64),
      pos.toNat < table.length → Finds ((writeSrc malloced table).link beyond) table pos := by
  intro finds
  -- Nothing depends on what is in memory behind the tables.
  have arrays : Arrays := { kallsymsNames := fun _ => 0, kallsymsMarkers := fun _ => 0 }
  have long : exampleTable.length = 257 := List.length_replicate
  have within : (256 : U64).toNat < exampleTable.length := by
    rw [long]
    decide
  -- All records are alike, so the offsets are small.
  have short : ∀ s ∈ exampleTable, (record s).length ≤ 3 := by
    intro s member
    rw [List.eq_of_mem_replicate member]
    decide
  have small : offset exampleTable exampleTable.length ≤ 257 * 3 := by
    rw [long]
    exact Records.offset_le short 257
  exact not_finds_later within (by decide) (by omega) (finds (fun _ => 0) arrays exampleTable 256 within)

end Kallsyms

end Benos
