import Benos.Mm.Mapping

/-! The page-table dump of `dump_pgtable.c`: what it reads of the tables, and the lines it prints. -/

namespace Benos

/-- `_PAGE_SOFT`. -/
def _PAGE_SOFT : U64 := 1 <<< 8

/-- `_PAGE_LEAF`. -/
def _PAGE_LEAF : U64 := _PAGE_READ ||| _PAGE_WRITE ||| _PAGE_EXEC

/-- `pmd_present`. -/
def pmdPresent (pmd : U64) : Bool := (pmd &&& _PAGE_PRESENT) != 0

/-- `pmd_leaf`. -/
def pmdLeaf (pmd : U64) : Bool := pmdPresent pmd && (pmd &&& _PAGE_LEAF) != 0

/-! ### What is printed -/

/-- `struct addr_marker`. -/
structure AddrMarker where
  startAddress : U64
  name : String

/-- `address_markers`. -/
def addressMarkers : List AddrMarker := [⟨0x80200000, "Identical mapping"⟩]

/-- `struct prot_bits`. -/
structure ProtBits where
  mask : U64
  val : U64
  set : String
  clear : String

/-- `pte_bits`. -/
def pteBits : List ProtBits :=
  [⟨_PAGE_SOFT, _PAGE_SOFT, "RSW", "   "⟩,
   ⟨_PAGE_DIRTY, _PAGE_DIRTY, "D", "."⟩,
   ⟨_PAGE_ACCESSED, _PAGE_ACCESSED, "A", "."⟩,
   ⟨_PAGE_GLOBAL, _PAGE_GLOBAL, "G", "."⟩,
   ⟨_PAGE_USER, _PAGE_USER, "U", "."⟩,
   ⟨_PAGE_EXEC, _PAGE_EXEC, "X", "."⟩,
   ⟨_PAGE_WRITE, _PAGE_WRITE, "W", "."⟩,
   ⟨_PAGE_READ, _PAGE_READ, "R", "."⟩,
   ⟨_PAGE_PRESENT, _PAGE_PRESENT, "V", "."⟩]

/-- The names in `pg_level`. -/
def pgLevelName : Nat → String
  | 0 => "PGD"
  | 1 => "PMD"
  | _ => "PTE"

/-- `pg_level_init`, on the masks in `pg_level`; every level has the same bits. -/
def pgLevelInit (masks : Nat → U64) : Nat → U64 := fun level =>
  pteBits.foldl (fun mask bits => mask ||| bits.mask) (masks level)

/-- `dump_prot`: the text of every attribute. -/
def dumpProt (prot : U64) : List String :=
  pteBits.map fun bits => if prot &&& bits.mask = bits.val then bits.set else bits.clear

/-- A line about a range: its ends, its size in a unit, the level of its entry and the attributes. -/
structure Report where
  start : U64
  end_ : U64
  delta : U64
  /-- The place of the unit in `"KMGT"`. -/
  unit : Nat
  name : String
  prot : List String

/-- A line of the dump. -/
inductive Line where
  | marker (name : String)
  | range (report : Report)

/-- The loop that looks for a unit, which would not end at a size of zero: `units[1]` is a letter. -/
def unitLoop : Nat → (delta : U64) → (unit : Nat) → Option (U64 × Nat)
  | 0, _, _ => none
  | fuel + 1, delta, unit =>
    if delta &&& 1023 = 0 then unitLoop fuel (delta >>> 10) (unit + 1) else some (delta, unit)

/-- What has been read and printed so far. -/
structure Dump where
  touched : List Access
  lines : List Line

/-- Reading `*entry`. -/
def Dump.touch (d : Dump) (table entry : U64) : Dump :=
  { d with touched := ⟨table, entry⟩ :: d.touched }

/-- `print_pgtable`, with the masks in `pg_level`. -/
def printPgtable (masks : Nat → U64) (fuel : Nat) (start end_ : U64) (level : Nat) (val : U64)
    (d : Dump) : Option Dump :=
  let prot := val &&& masks level
  let markers := (addressMarkers.filter fun marker => start == marker.startAddress).map
    fun marker => Line.marker marker.name
  let d := { d with lines := d.lines ++ markers }
  -- Empty entries get no line, but a marker in front of them is printed.
  if val = 0 then some d
  else
    (unitLoop fuel ((end_ - start) >>> 10) 0).map fun (delta, unit) =>
      { d with lines := d.lines ++
          [.range { start, end_, delta, unit, name := pgLevelName level, prot := dumpProt prot }] }

/-! ### The three walks -/

/-- The loop of `walk_pmd` and of `walk_pgd`, cut at the ends of entries. -/
def dumpLoop (levelAddrEnd : U64 → U64 → U64) (body : (entryp addr next : U64) → Dump → Option Dump) :
    Nat → (entryp addr end_ : U64) → Dump → Option Dump
  | 0, _, _, _, _ => none
  | fuel + 1, entryp, addr, end_, d =>
    let next := levelAddrEnd addr end_
    match body entryp addr next d with
    | none => none
    | some d =>
      let entryp := entryp + entrySize
      let addr := next
      if addr != end_ then dumpLoop levelAddrEnd body fuel entryp addr end_ d else some d

section Walks

variable (mem : Memory) (masks : Nat → U64)

/-- The loop of `walk_pte`. -/
def walkPteLoop : Nat → (table ptep addr end_ : U64) → Dump → Option Dump
  | 0, _, _, _, _, _ => none
  | fuel + 1, table, ptep, addr, end_, d =>
    match printPgtable masks fuel addr (addr + pageSize) 2 (mem ptep) (d.touch table ptep) with
    | none => none
    | some d =>
      let ptep := ptep + entrySize
      let addr := addr + pageSize
      if addr != end_ then walkPteLoop fuel table ptep addr end_ d else some d

/-- `walk_pte`. -/
def walkPte (fuel : Nat) (table pmdp start end_ : U64) (d : Dump) : Option Dump :=
  let d := d.touch table pmdp
  walkPteLoop mem masks fuel (pmdPagePaddr (mem pmdp)) (getPtepFromPmdp mem pmdp start) start end_ d

/-- One round of `walk_pmd`. -/
def walkPmdEntry (fuel : Nat) (table pmdp addr next : U64) (d : Dump) : Option Dump :=
  let d := d.touch table pmdp
  let pmd := mem pmdp
  -- A huge page is a line of its own.
  if pmdNone pmd || pmdLeaf pmd then printPgtable masks fuel addr next 1 pmd d
  else walkPte mem masks fuel table pmdp addr next d

/-- `walk_pmd`. -/
def walkPmd (fuel : Nat) (table pgdp start end_ : U64) (d : Dump) : Option Dump :=
  let d := d.touch table pgdp
  dumpLoop pmdAddrEnd (walkPmdEntry mem masks fuel (pgdPagePaddr (mem pgdp))) fuel
    (getPmdpFromPgdp mem pgdp start) start end_ d

/-- One round of `walk_pgd`. -/
def walkPgdEntry (fuel : Nat) (table pgdp addr next : U64) (d : Dump) : Option Dump :=
  let d := d.touch table pgdp
  let pgdEntry := mem pgdp
  -- There is no test for a leaf at this level.
  if pgdNone pgdEntry then printPgtable masks fuel addr next 0 pgdEntry d
  else walkPmd mem masks fuel table pgdp addr next d

/-- `walk_pgd`. -/
def walkPgd (fuel : Nat) (pgd start size : U64) (d : Dump) : Option Dump :=
  dumpLoop pgdAddrEnd (walkPgdEntry mem masks fuel pgd) fuel (pgdOffsetRaw pgd start) start
    (start + size) d

end Walks

end Benos
