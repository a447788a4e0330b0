import Benos.Lib.Transition
import Benos.Mm.MappingCorrect

/-! Guest memory on demand: the fault handler of `stage2_mmu.c` and the hardware that calls it. -/

namespace Benos

open Sv39

/-- What a guest does with a page. -/
inductive AccessKind where
  | load
  | fetch
  | store
  deriving DecidableEq

/-- `CAUSE_STORE_GUEST_PAGE_FAULT`. -/
def causeStoreGuestPageFault : U64 := 0x17

/-- The guest-page-fault code of each kind of access. -/
def AccessKind.cause : AccessKind → U64
  | fetch => 0x14
  | load => 0x15
  | store => causeStoreGuestPageFault

section Handler

variable {σ : Type} (alloc : AllocPgtable σ) (fuel : Nat) (hsPgDir : U64)

/-- `setup_hg_page_table`. -/
def setupHgPageTable (gpa hpa size prot : U64) (s : Mm σ) : Option (Mm σ) :=
  createPgdMapping alloc prot fuel hsPgDir hpa gpa size s

/-- `stage2_page_fault`, given the three registers it reads. -/
def stage2PageFault (htval stval scause : U64) (s : Mm σ) : Option (Mm σ) :=
  -- `htval` lacks the two lowest bits, which are those of `stval`.
  let faultAddr := (htval <<< 2) ||| (stval &&& 0x3)
  let faultAddr := faultAddr &&& pageMask
  setupHgPageTable alloc fuel hsPgDir faultAddr faultAddr pageSize
    (if scause == causeStoreGuestPageFault then pageWriteExec else pageReadExec) s

end Handler

/-! ### The hardware -/

/-- The root of the guest table is four pages, chosen by the two bits above the first index. -/
def rootPage (root : Ppn) (gpa : U64) : Ppn := root + (gpa.extractLsb' 39 2).setWidth 44

/-- The second stage of translation, which takes addresses of 41 bits. -/
def translateGuest (mem : Memory) (root : Ppn) (gpa : U64) : Option (Nat × U64) :=
  if gpa.toNat < 2 ^ 41 then translate mem (rootPage root gpa) gpa else none

/-- The address a leaf gives, whose page keeps the low indices of a superpage. -/
def target (level : Nat) (entry gpa : U64) : Nat :=
  ((ppn entry).toNat / 512 ^ level * 512 ^ level + gpa.toNat / 4096 % 512 ^ level) * 4096 +
    gpa.toNat % 4096

/-- Every access of the second stage counts as one from user mode. -/
def permits (kind : AccessKind) (entry : U64) : Bool :=
  isUser entry &&
    match kind with
    | .load => isReadable entry
    | .fetch => isExecutable entry
    | .store => isWritable entry

/-- An access the present table permits, which raises no fault. -/
def permitted (mem : Memory) (root : Ppn) (gpa : U64) (kind : AccessKind) : Bool :=
  match translateGuest mem root gpa with
  | some (_, entry) => permits kind entry
  | none => false

/-- The bits the hardware sets when it uses an entry. -/
def usedBits (kind : AccessKind) : U64 :=
  match kind with
  | .store => _PAGE_ACCESSED ||| _PAGE_DIRTY
  | _ => _PAGE_ACCESSED

/-- The hardware update of the entry an access went through. -/
def markUsed (mem : Memory) (root : Ppn) (gpa : U64) (kind : AccessKind) : Memory :=
  let (page, index) :=
    Radix.locate child (tables mem) (rootPage root gpa) (vpn 2 gpa) [vpn 1 gpa, vpn 0 gpa]
  Function.update mem (entryAddr page index) (mem (entryAddr page index) ||| usedBits kind)

/-- What a guest below 512 GiB does: a faulting access with its trap, or one that succeeds. -/
inductive GuestEvent where
  | fault (gpa stval : U64) (kind : AccessKind)
  | access (gpa : U64) (kind : AccessKind)

/-- The address an event is about. -/
def GuestEvent.gpa : GuestEvent → U64
  | fault gpa _ _ => gpa
  | access gpa _ => gpa

/-- The page an event is about. -/
def GuestEvent.page (event : GuestEvent) : Nat := event.gpa.toNat / 4096

/-- A fault on a given page. -/
def GuestEvent.faultsOn (page : Nat) : GuestEvent → Bool
  | event@(fault _ _ _) => event.page == page
  | access _ _ => false

variable {σ : Type}

/-- One event. A fault needs a table for every level its walk did not reach. -/
def guestStep (alloc : AllocPgtable σ) (pages : σ → List U64) (fuel : Nat) (root : Ppn) :
    GuestEvent → Mm σ → Option (Mm σ)
  | .fault gpa stval kind, s =>
    -- A fault is raised only for what the table does not permit.
    if gpa.toNat < 2 ^ 39 ∧ permitted s.mem root gpa kind = false ∧
        (walk s.mem root gpa).1 ≤ (pages s.pool).length then
      stage2PageFault alloc fuel (frameAddr root) (gpa >>> 2) stval kind.cause s
    else none
  | .access gpa kind, s =>
    if gpa.toNat < 2 ^ 39 ∧ permitted s.mem root gpa kind = true then
      some { s with mem := markUsed s.mem root gpa kind }
    else none

/-- An address that translates to itself, for guest use and with the permission. -/
def Granted (mem : Memory) (root : Ppn) (gpa : U64) (kind : AccessKind) : Prop :=
  ∃ level entry, translateGuest mem root gpa = some (level, entry) ∧
    target level entry gpa = gpa.toNat ∧ isUser entry = true ∧ permits kind entry = true

end Benos
