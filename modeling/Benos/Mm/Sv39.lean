import Benos.Lib.Radix
import Benos.Mm.Pgtable

/-! The hardware side of the page tables: entries, table pages and the three-level walk. -/

namespace Benos.Sv39

/-- A physical page number. -/
abbrev Ppn := BitVec 44

/-- The index of an entry in its table. -/
abbrev Index := BitVec 9

/-- The address of an entry of a table page. -/
def entryAddr (page : Ppn) (index : Index) : U64 := (page ++ index ++ 0#3).setWidth 64

/-- The address of the first entry of a table page. -/
def frameAddr (page : Ppn) : U64 := entryAddr page 0

/-- The table pages as the walker sees them. -/
def tables (mem : Memory) : Ppn → Index → U64 := fun page index => mem (entryAddr page index)

def isValid (entry : U64) : Bool := entry.getLsbD 0
def isReadable (entry : U64) : Bool := entry.getLsbD 1
def isWritable (entry : U64) : Bool := entry.getLsbD 2
def isExecutable (entry : U64) : Bool := entry.getLsbD 3
def isUser (entry : U64) : Bool := entry.getLsbD 4

/-- The physical page number an entry holds. -/
def ppn (entry : U64) : Ppn := entry.extractLsb' 10 44

/-- A valid entry without permissions points to the next table, unless reserved bits are set. -/
def child (entry : U64) : Option Ppn :=
  if isValid entry && !isReadable entry && !isWritable entry && !isExecutable entry &&
      (entry >>> 54) == 0 then
    some (ppn entry)
  else none

/-- `VPN[level]`. -/
def vpn (level : Nat) (va : U64) : Index := va.extractLsb' (12 + 9 * level) 9

/-- The walk below a root table: the level it ends at, and the entry it ends with. -/
def walk (mem : Memory) (root : Ppn) (va : U64) : Nat × U64 :=
  Radix.walk child (tables mem) root (vpn 2 va) [vpn 1 va, vpn 0 va]

/-- A leaf is valid and readable or executable; writable without readable is reserved. -/
def isLeaf (entry : U64) : Bool :=
  isValid entry && (isReadable entry || isExecutable entry && !isWritable entry)

/-- The page a superpage leaf names starts at a multiple of its size. -/
def isAligned (level : Nat) (entry : U64) : Bool := (ppn entry).toNat % 512 ^ level == 0

/-- The leaf a walk ends at; any other end is a page fault. -/
def leaf (ended : Nat × U64) : Option (Nat × U64) :=
  if isLeaf ended.2 && isAligned ended.1 ended.2 then some ended else none

/-- The leaf that translates a virtual address, with its level. -/
def translate (mem : Memory) (root : Ppn) (va : U64) : Option (Nat × U64) :=
  leaf (walk mem root va)

/-- The bits above an address of 39 bits repeat its highest one; any other address is a page fault. -/
def canonical (va : U64) : Bool := (va.extractLsb' 0 39).signExtend 64 == va

end Benos.Sv39
