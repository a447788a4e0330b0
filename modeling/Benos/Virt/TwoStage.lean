import Benos.Lib.Retry
import Benos.Mm.Stage2Run

/-!
What becomes of an access of the guest: through the tables of the guest, then through those of the
hypervisor, which are made as the guest faults.

A guest-page fault ends a try of the access, `stage2_page_fault` serves it, and the access is tried
again from the start. The guest never sees this: what it gets is what its own tables say.
-/

namespace Benos

open Sv39

/-! ### The hardware -/

namespace Sv39

def isAccessed (entry : U64) : Bool := entry.getLsbD 6
def isDirty (entry : U64) : Bool := entry.getLsbD 7

end Sv39

/-- What a leaf of the guest permits its kernel; a used bit that is not set is a fault. -/
def supervisorPermits (kind : AccessKind) (entry : U64) : Bool :=
  !isUser entry && isAccessed entry &&
    match kind with
    | .load => isReadable entry
    | .fetch => isExecutable entry
    | .store => isWritable entry && isDirty entry

/-- The guest address that a leaf of the guest gives for one of its own addresses. -/
def guestTarget (level : Nat) (entry gva : U64) : U64 := BitVec.ofNat 64 (target level entry gva)

/-- What the walk of the guest's tables says: a guest address, or that the guest gets a page fault. -/
def guestLeaf (gva : U64) (kind : AccessKind) (ended : Nat × U64) : Option U64 :=
  match leaf ended with
  | none => none
  | some (level, entry) =>
    if supervisorPermits kind entry then some (guestTarget level entry gva) else none

/-- An access that the second stage lacks, by guest address and kind. -/
abbrev Need := U64 × AccessKind

/-- A try of an access ends with what the guest gets of it, or with a guest-page fault. -/
abbrev Try := Need ⊕ Option U64

/-- The second stage, which marks what it uses. -/
def secondStage (root : Ppn) (need : Need) (mem : Memory) : Option (U64 × Memory) :=
  match translateGuest mem root need.1 with
  | none => none
  | some (level, entry) =>
    if permits need.2 entry then
      some (BitVec.ofNat 64 (target level entry need.1), markUsed mem root need.1 need.2)
    else none

/-- The access itself, when the walk of the guest's tables has ended. -/
def lastAccess (root : Ppn) (gva : U64) (kind : AccessKind) (ended : Nat × U64) (mem : Memory) :
    Try × Memory :=
  match guestLeaf gva kind ended with
  | none => (.inr none, mem)
  | some gpa =>
    match secondStage root (gpa, kind) mem with
    | none => (.inl (gpa, kind), mem)
    | some (hpa, mem) => (.inr (some hpa), mem)

/-- The walk of the guest's tables, whose entries are read through the second stage. -/
def guestWalk (root : Ppn) (gva : U64) (kind : AccessKind) : Nat → Ppn → Memory → Try × Memory
  | 0, page, mem =>
    match secondStage root (entryAddr page (vpn 0 gva), .load) mem with
    | none => (.inl (entryAddr page (vpn 0 gva), .load), mem)
    | some (hpa, mem) => lastAccess root gva kind (0, mem hpa) mem
  | level + 1, page, mem =>
    match secondStage root (entryAddr page (vpn (level + 1) gva), .load) mem with
    | none => (.inl (entryAddr page (vpn (level + 1) gva), .load), mem)
    | some (hpa, mem) =>
      match child (mem hpa) with
      | some next => guestWalk root gva kind level next mem
      | none => lastAccess root gva kind (level + 1, mem hpa) mem

/-- One try, with the root that `vsatp` holds, or with `vsatp` off. -/
def tryAccess (root : Ppn) (vsatp : Option Ppn) (gva : U64) (kind : AccessKind) (mem : Memory) :
    Try × Memory :=
  match vsatp with
  | none =>
    match secondStage root (gva, kind) mem with
    | none => (.inl (gva, kind), mem)
    | some (hpa, mem) => (.inr (some hpa), mem)
  | some page => if canonical gva then guestWalk root gva kind 2 page mem else (.inr none, mem)

section Access

variable {σ : Type} (alloc : AllocPgtable σ) (fuel : Nat) (root : Ppn) (vsatp : Option Ppn)

/--
The guest-page fault of a try: `htval` has the guest address, and `stval` and `scause` are about the
access of the guest, even where the fault was for an entry of its tables.
-/
def serveFault (gva : U64) (kind : AccessKind) (need : Need) (s : Mm σ) : Option (Mm σ) :=
  stage2PageFault alloc fuel (frameAddr root) (need.1 >>> 2) gva kind.cause s

/-- A try, and what it leaves behind. -/
def attemptAccess (gva : U64) (kind : AccessKind) (s : Mm σ) : Try × Mm σ :=
  ((tryAccess root vsatp gva kind s.mem).1,
    { s with mem := (tryAccess root vsatp gva kind s.mem).2 })

/-- An access of the guest, with the faults that are served until a try ends. -/
def guestAccess (tries : Nat) (gva : U64) (kind : AccessKind) (s : Mm σ) :
    Option (Nat × Option U64 × Mm σ) :=
  Retry.loop (attemptAccess root vsatp gva kind) (serveFault alloc fuel root gva kind) tries s

/-- Accesses one after the other, each with its number of faults and what the guest gets. -/
def guestAccesses (tries : Nat) :
    List (U64 × AccessKind) → Mm σ → Option (List (Nat × Option U64) × Mm σ)
  | [], s => some ([], s)
  | (gva, kind) :: rest, s =>
    match guestAccess alloc fuel root vsatp tries gva kind s with
    | none => none
    | some (faults, result, s) =>
      (guestAccesses tries rest s).map fun (results, s) => ((faults, result) :: results, s)

/-! ### The pages that faults take -/

variable (pages : σ → List U64)

/-- There is a free page for each table that the walk of a guest address lacks. -/
def Affords (s : Mm σ) (need : Need) : Prop := (walk s.mem root need.1).1 ≤ (pages s.pool).length

/-- It is so at each fault of an access, when it is raised. -/
def AccessSupplied (tries : Nat) (gva : U64) (kind : AccessKind) : Mm σ → Prop :=
  Retry.Supplied (attemptAccess root vsatp gva kind) (serveFault alloc fuel root gva kind)
    (Affords root pages) tries

/-- It is so at each fault of accesses that are made one after the other. -/
def AccessesSupplied (tries : Nat) : List (U64 × AccessKind) → Mm σ → Prop
  | [], _ => True
  | (gva, kind) :: rest, s =>
    AccessSupplied alloc fuel root vsatp pages tries gva kind s ∧
      ∀ faults result s', guestAccess alloc fuel root vsatp tries gva kind s =
        some (faults, result, s') → AccessesSupplied tries rest s'

end Access

/-- What the guest should get: its own tables alone say where an access goes. -/
def firstStage (vsatp : Option Ppn) (mem : Memory) (gva : U64) (kind : AccessKind) : Option U64 :=
  match vsatp with
  | none => some gva
  | some page => if canonical gva then guestLeaf gva kind (walk mem page gva) else none

/-! ### What an access needs -/

/-- The access itself, if it is one. -/
def lastNeed (gva : U64) (kind : AccessKind) (ended : Nat × U64) : List Need :=
  ((guestLeaf gva kind ended).map fun gpa => (gpa, kind)).toList

/-- The entries that the walk of the guest's tables reads, and the access itself. -/
def walkNeeds (gva : U64) (kind : AccessKind) (mem : Memory) : Nat → Ppn → List Need
  | 0, page =>
    (entryAddr page (vpn 0 gva), .load) ::
      lastNeed gva kind (0, mem (entryAddr page (vpn 0 gva)))
  | level + 1, page =>
    (entryAddr page (vpn (level + 1) gva), .load) ::
      match child (mem (entryAddr page (vpn (level + 1) gva))) with
      | some next => walkNeeds gva kind mem level next
      | none => lastNeed gva kind (level + 1, mem (entryAddr page (vpn (level + 1) gva)))

/-- All that the second stage has to permit for an access. -/
def accessNeeds (vsatp : Option Ppn) (mem : Memory) (gva : U64) (kind : AccessKind) : List Need :=
  match vsatp with
  | none => [(gva, kind)]
  | some page => if canonical gva then walkNeeds gva kind mem 2 page else []

/-- A need that the second stage permits. -/
def met {σ : Type} (root : Ppn) (s : Mm σ) (need : Need) : Bool :=
  permitted s.mem root need.1 need.2

/-- At most three entries are read. -/
theorem walkNeeds_length (gva : U64) (kind : AccessKind) (mem : Memory) (level : Nat) (page : Ppn) :
    (walkNeeds gva kind mem level page).length ≤ level + 2 := by
  have last (ended : Nat × U64) : (lastNeed gva kind ended).length ≤ 1 := by
    rw [lastNeed]
    cases guestLeaf gva kind ended <;> simp
  induction level generalizing page with
  | zero =>
    rw [walkNeeds, List.length_cons]
    exact Nat.succ_le_succ (last _)
  | succ level ih =>
    rw [walkNeeds, List.length_cons]
    split
    · exact Nat.succ_le_succ (ih _)
    · exact Nat.succ_le_succ (Nat.le_trans (last _) (by omega))

/-! ### What is kept -/

/-- The guest's tables are pages of its own below 512 GiB, and the second stage is on demand. -/
structure Guest {σ : Type} (pages : σ → List U64) (root : Ppn) (vsatp : Option Ppn) (s : Mm σ) :
    Prop where
  demand : Demand pages root s
  beside : ∀ page ∈ vsatp, Radix.Beside child (tables s.mem) root 2 (Unused pages s) page
  low : ∀ page ∈ vsatp, ∀ P table, P.length ≤ 2 →
    Radix.descend child (tables s.mem) page P = some table → table.toNat < 2 ^ 27

/-- What the faults of an access and its marks do to the memory. -/
structure Later {σ : Type} (pages : σ → List U64) (root : Ppn) (s s' : Mm σ) : Prop where
  demand : Demand pages root s'
  spares : Radix.Spares child (tables s.mem) (tables s'.mem) root 2 (Unused pages s)
  unused : ∀ page, Unused pages s' page → Unused pages s page
  keeps : ∀ gpa kind, gpa.toNat < 2 ^ 39 → permitted s.mem root gpa kind = true →
    permitted s'.mem root gpa kind = true

section Kept

variable {σ : Type} {pages : σ → List U64} {root : Ppn} {vsatp : Option Ppn} {s s' s'' : Mm σ}

namespace Later

/-- Nothing is the least that can be done. -/
theorem refl (demand : Demand pages root s) : Later pages root s s :=
  ⟨demand, Radix.Spares.refl, fun _ => id, fun _ _ _ => id⟩

/-- One thing after another. -/
theorem trans (first : Later pages root s s') (second : Later pages root s' s'') :
    Later pages root s s'' :=
  ⟨second.demand, first.spares.trans second.spares first.unused,
    fun page left => first.unused page (second.unused page left),
    fun gpa kind low before => second.keeps gpa kind low (first.keeps gpa kind low before)⟩

/-- The guest's tables stay as they are. -/
theorem guest (later : Later pages root s s') (guest : Guest pages root vsatp s) :
    Guest pages root vsatp s' := by
  refine ⟨later.demand, fun page on => later.spares.beside (guest.beside page on) later.unused,
    fun page on P table within located => ?_⟩
  rw [later.spares.descend (guest.beside page on) within] at located
  exact guest.low page on P table within located

/-- And so is all that they say. -/
theorem firstStage (later : Later pages root s s') (guest : Guest pages root vsatp s) (gva : U64)
    (kind : AccessKind) :
    Benos.firstStage vsatp s'.mem gva kind = Benos.firstStage vsatp s.mem gva kind := by
  cases vsatp with
  | none => rfl
  | some page =>
    have same : walk s'.mem page gva = walk s.mem page gva :=
      later.spares.walk (guest.beside page rfl) (Nat.le_refl 2)
    rw [Benos.firstStage, Benos.firstStage, same]

end Later

/-- A table of the guest is as it was. -/
theorem Guest.table_eq (guest : Guest pages root vsatp s) (later : Later pages root s s')
    {page : Ppn} (on : page ∈ vsatp) {P : List Index} {table : Ppn} (within : P.length ≤ 2)
    (located : Radix.descend child (tables s.mem) page P = some table) (index : Index) :
    s'.mem (entryAddr table index) = s.mem (entryAddr table index) := by
  obtain ⟨outside, unused⟩ := guest.beside page on P table within located
  exact congrFun (later.spares table outside unused).1 index

/-! ### One access of the second stage -/

/-- What is permitted is granted, and the other way round. -/
theorem Demand.permitted_iff (demand : Demand pages root s) {gpa : U64} {kind : AccessKind}
    (low : gpa.toNat < 2 ^ 39) :
    permitted s.mem root gpa kind = true ↔ Granted s.mem root gpa kind := by
  constructor
  · intro allowed
    rw [permitted] at allowed
    split at allowed
    · next level entry found =>
      obtain ⟨same, user⟩ := demand.target_eq low found
      exact ⟨level, entry, found, same, user, allowed⟩
    · cases allowed
  · rintro ⟨level, entry, found, _, _, allowed⟩
    rw [permitted, found]
    exact allowed

/-- A page that can be used at all can be read. -/
theorem Demand.permitted_load (demand : Demand pages root s) {gpa : U64} {kind : AccessKind}
    (low : gpa.toNat < 2 ^ 39) (allowed : permitted s.mem root gpa kind = true) :
    permitted s.mem root gpa .load = true := by
  obtain ⟨last, identical, _⟩ :=
    demand.identical_of_granted low ((demand.permitted_iff low).mp allowed)
  rw [permitted_of_identical low last identical]
  exact (identical.permits_iff .load).mpr fun store => by cases store

/-- A permitted access goes to its own address and leaves marks. -/
theorem Demand.secondStage_some (demand : Demand pages root s) (need : Need)
    (low : need.1.toNat < 2 ^ 39) (allowed : met root s need = true) :
    secondStage root need s.mem = some (need.1, markUsed s.mem root need.1 need.2) ∧
      Later pages root s { s with mem := markUsed s.mem root need.1 need.2 } := by
  obtain ⟨gpa, kind⟩ := need
  obtain ⟨level, entry, found, same, _, permits_⟩ := (demand.permitted_iff low).mp allowed
  obtain ⟨entry', grants⟩ := markUsed_grants demand low allowed
  refine ⟨?_, grants.demand demand, markUsed_spares demand low allowed, fun _ => id,
    fun gpa' kind' low' before => ?_⟩
  · rw [secondStage, found]
    dsimp only
    rw [if_pos permits_, same, BitVec.ofNat_toNat, BitVec.setWidth_eq]
  · rw [(grants.demand demand).permitted_iff low']
    exact grants.keeps demand low' ((demand.permitted_iff low').mp before)

/-- Any other one is a guest-page fault. -/
theorem secondStage_none {mem : Memory} {need : Need} (refused : permitted mem root need.1 need.2 = false) :
    secondStage root need mem = none := by
  rw [permitted] at refused
  rw [secondStage]
  split at refused
  · next level entry found =>
    rw [found]
    dsimp only
    rw [refused]
    rfl
  · next found => rw [found]

/-- The handler serves what a try of an access lacks. -/
theorem Demand.serveFault {alloc : AllocPgtable σ} {fuel : Nat} (supplies : Supplies alloc pages)
    (fueled : 512 ≤ fuel) (demand : Demand pages root s) (gva : U64) {kind : AccessKind}
    {need : Need} (low : need.1.toNat < 2 ^ 39) (about : need.2 = .load ∨ need.2 = kind)
    (refused : met root s need = false) (available : Affords root pages s need) :
    ∃ s', Benos.serveFault alloc fuel root gva kind need s = some s' ∧ Later pages root s s' ∧
      met root s' need = true ∧
      ∃ spent ≤ 2, pages s'.pool = (pages s.pool).drop spent := by
  obtain ⟨gpa, needed⟩ := need
  have levels : (walk s.mem root gpa).1 ≤ 2 := Radix.walk_fst_le _ _ _
  -- The fault is reported as one of the access of the guest, which is refused as well.
  have unpermitted : permitted s.mem root gpa kind = false := by
    rcases about with load | same
    · cases allowed : permitted s.mem root gpa kind with
      | false => rfl
      | true =>
        have readable := demand.permitted_load low allowed
        rw [met, load, readable] at refused
        cases refused
    · rw [met, same] at refused
      exact refused
  obtain ⟨_, _, s', served, grants⟩ : ∃ entry spent s',
      stage2PageFault alloc fuel (frameAddr root) (gpa >>> 2) gva kind.cause s = some s' ∧
        Grants pages root (.fault gpa gva kind) entry spent s s' :=
    stage2PageFault_grants supplies fueled demand low unpermitted available
  obtain ⟨_, s'', _, ran, traced⟩ := stage2PageFault_traced supplies fueled demand gva kind low
    available
  obtain rfl : s' = s'' := Option.some.inj (served.symm.trans ran)
  have later : Later pages root s s' := by
    refine ⟨grants.demand demand, traced.spares, traced.toExtends.unused,
      fun gpa' kind' low' before => ?_⟩
    rw [(grants.demand demand).permitted_iff low']
    exact grants.keeps demand low' ((demand.permitted_iff low').mp before)
  have granted := (later.demand.permitted_iff low).mpr grants.granted
  refine ⟨s', served, later, ?_, _, ?_, traced.taken⟩
  · rcases about with load | same
    · rw [met, load]
      exact later.demand.permitted_load low granted
    · rw [met, same]
      exact granted
  · have few := lacking_le_walk s.mem root (gpa.toNat / 4096)
    rw [← walk_eq_pageWalk] at few
    exact Nat.le_trans few levels

/-! ### One try -/

/-- A try of an access: it ends with all that it needs, or with something that is missing. -/
def Tried (pages : σ → List U64) (root : Ppn) (s : Mm σ) (needs : List Need) (result : Option U64)
    (tried : Try × Memory) : Prop :=
  Later pages root s { s with mem := tried.2 } ∧
    (tried.1 = .inr result ∧ (∀ need ∈ needs, met root { s with mem := tried.2 } need = true) ∨
      ∃ need ∈ needs, tried.1 = .inl need ∧ met root { s with mem := tried.2 } need = false)

/-- The first need is not met, and the try ends there. -/
theorem Tried.missing (demand : Demand pages root s) {need : Need}
    (refused : met root s need = false) (needs : List Need) (result : Option U64) :
    Tried pages root s (need :: needs) result (.inl need, s.mem) :=
  ⟨Later.refl demand, Or.inr ⟨need, List.mem_cons_self, rfl, refused⟩⟩

/-- The first need is met, and the try goes on. -/
theorem Tried.next (demand : Demand pages root s) {need : Need} (low : need.1.toNat < 2 ^ 39)
    (allowed : met root s need = true) {needs : List Need} {result : Option U64}
    {tried : Try × Memory}
    (others : Tried pages root { s with mem := markUsed s.mem root need.1 need.2 } needs result tried) :
    Tried pages root s (need :: needs) result tried := by
  obtain ⟨later, ended⟩ := others
  have marked := (demand.secondStage_some _ low allowed).2
  refine ⟨marked.trans later, ?_⟩
  rcases ended with ⟨done, all⟩ | ⟨other, member, stopped, refused⟩
  · refine Or.inl ⟨done, List.forall_mem_cons.mpr ⟨?_, all⟩⟩
    exact (marked.trans later).keeps _ _ low allowed
  · exact Or.inr ⟨other, List.mem_cons_of_mem _ member, stopped, refused⟩

/-- The access itself, behind the walk. -/
theorem lastAccess_tried (demand : Demand pages root s) (gva : U64) (kind : AccessKind)
    (ended : Nat × U64) (low : ∀ gpa, guestLeaf gva kind ended = some gpa → gpa.toNat < 2 ^ 39) :
    Tried pages root s (lastNeed gva kind ended) (guestLeaf gva kind ended)
      (lastAccess root gva kind ended s.mem) := by
  rw [lastNeed, lastAccess]
  cases target : guestLeaf gva kind ended with
  | none => exact ⟨Later.refl demand, Or.inl ⟨rfl, fun need none => absurd none (by simp)⟩⟩
  | some gpa =>
    have small := low gpa target
    dsimp only
    rw [Option.map_some, Option.toList_some]
    cases allowed : met root s (gpa, kind) with
    | false =>
      rw [secondStage_none allowed]
      exact Tried.missing demand allowed [] _
    | true =>
      obtain ⟨goes, later⟩ := demand.secondStage_some (gpa, kind) small allowed
      rw [goes]
      exact Tried.next demand small allowed
        ⟨Later.refl later.demand, Or.inl ⟨rfl, fun need none => absurd none (by simp)⟩⟩

/-- The slots that are left of the walk from a level on. -/
def slotsBelow (gva : U64) : Nat → List Index
  | 0 => []
  | level + 1 => vpn level gva :: slotsBelow gva level

/-- There is one for each level. -/
theorem slotsBelow_length (gva : U64) (level : Nat) : (slotsBelow gva level).length = level := by
  induction level with
  | zero => rfl
  | succ level ih => rw [slotsBelow, List.length_cons, ih]

/-- The entries of the guest's tables are below 512 GiB. -/
theorem Guest.entry_low {vroot : Ppn} (guest : Guest pages root (some vroot) s) {P : List Index}
    {page : Ppn} (short : P.length ≤ 2)
    (reached : Radix.descend child (tables s.mem) vroot P = some page) (index : Index) :
    (entryAddr page index).toNat < 2 ^ 39 := by
  have number := guest.low vroot rfl P page short reached
  have inside := index.isLt
  rw [entryAddr_toNat]
  omega

/-- An entry is what it was at the start, also when the walk has marked what it went through. -/
theorem Guest.entry_read {vroot : Ppn} {start : Mm σ} (guest : Guest pages root (some vroot) start)
    (later : Later pages root start s) {P : List Index} {page : Ppn} (short : P.length ≤ 2)
    (reached : Radix.descend child (tables start.mem) vroot P = some page) (index : Index)
    (allowed : met root s (entryAddr page index, .load) = true) :
    markUsed s.mem root (entryAddr page index) .load (entryAddr page index) =
      start.mem (entryAddr page index) := by
  have low := guest.entry_low short reached index
  have marked := (later.demand.secondStage_some (entryAddr page index, .load) low allowed).2
  exact guest.table_eq (later.trans marked) rfl short reached index

/-- The walk reads the entries that the guest's tables have had all the time. -/
theorem guestWalk_tried {vroot : Ppn} {start : Mm σ} (guest : Guest pages root (some vroot) start)
    (later : Later pages root start s) (gva : U64) (kind : AccessKind) {level : Nat} {P : List Index}
    {page : Ppn} (reached : Radix.descend child (tables start.mem) vroot P = some page)
    (within : P.length + level ≤ 2)
    (low : ∀ gpa, guestLeaf gva kind (Radix.walk child (tables start.mem) page (vpn level gva)
      (slotsBelow gva level)) = some gpa → gpa.toNat < 2 ^ 39) :
    Tried pages root s (walkNeeds gva kind start.mem level page)
      (guestLeaf gva kind (Radix.walk child (tables start.mem) page (vpn level gva)
        (slotsBelow gva level)))
      (guestWalk root gva kind level page s.mem) := by
  -- A table that is read is one of the guest, wherever the walk has got to.
  induction level generalizing s page P with
  | zero =>
    have short : P.length ≤ 2 := within
    rw [walkNeeds, guestWalk]
    cases allowed : met root s (entryAddr page (vpn 0 gva), .load) with
    | false =>
      rw [secondStage_none allowed]
      exact Tried.missing later.demand allowed _ _
    | true =>
      have fits := guest.entry_low short reached (vpn 0 gva)
      obtain ⟨goes, marked⟩ := later.demand.secondStage_some
        (entryAddr page (vpn 0 gva), .load) fits allowed
      rw [goes]
      dsimp only
      rw [guest.entry_read later short reached _ allowed]
      exact Tried.next later.demand fits allowed (lastAccess_tried marked.demand gva kind _ low)
  | succ level ih =>
    have short : P.length ≤ 2 := by omega
    rw [walkNeeds, guestWalk]
    cases allowed : met root s (entryAddr page (vpn (level + 1) gva), .load) with
    | false =>
      rw [secondStage_none allowed]
      exact Tried.missing later.demand allowed _ _
    | true =>
      have fits := guest.entry_low short reached (vpn (level + 1) gva)
      obtain ⟨goes, marked⟩ := later.demand.secondStage_some
        (entryAddr page (vpn (level + 1) gva), .load) fits allowed
      rw [slotsBelow, Radix.walk] at low ⊢
      rw [goes]
      dsimp only
      rw [guest.entry_read later short reached _ allowed]
      refine Tried.next later.demand fits allowed ?_
      -- The entry leads on, or the walk ends with it.
      have entry : start.mem (entryAddr page (vpn (level + 1) gva)) =
          tables start.mem page (vpn (level + 1) gva) := rfl
      rw [entry]
      cases leads : child (tables start.mem page (vpn (level + 1) gva)) with
      | none =>
        rw [leads] at low
        dsimp only at low ⊢
        rw [slotsBelow_length] at low ⊢
        exact lastAccess_tried marked.demand gva kind _ low
      | some next =>
        rw [leads] at low
        have further : Radix.descend child (tables start.mem) vroot (P ++ [vpn (level + 1) gva]) =
            some next := by
          rw [Radix.descend_concat, reached]
          exact leads
        refine ih (later.trans marked) further ?_ low
        rw [List.length_append, List.length_singleton]
        omega

/-- A try of an access, whatever was served before. -/
theorem tryAccess_tried {start : Mm σ} (guest : Guest pages root vsatp start)
    (later : Later pages root start s) (gva : U64) (kind : AccessKind)
    (low : ∀ gpa, firstStage vsatp start.mem gva kind = some gpa → gpa.toNat < 2 ^ 39) :
    Tried pages root s (accessNeeds vsatp start.mem gva kind) (firstStage vsatp start.mem gva kind)
      (tryAccess root vsatp gva kind s.mem) := by
  -- Without a first stage the access is its own need.
  cases vsatp with
  | none =>
    have small := low gva rfl
    rw [accessNeeds, tryAccess]
    cases allowed : met root s (gva, kind) with
    | false =>
      rw [secondStage_none allowed]
      exact Tried.missing later.demand allowed [] _
    | true =>
      obtain ⟨goes, marked⟩ := later.demand.secondStage_some (gva, kind) small allowed
      rw [goes]
      exact Tried.next later.demand small allowed
        ⟨Later.refl marked.demand, Or.inl ⟨rfl, fun need none => absurd none (by simp)⟩⟩
  | some vroot =>
    rw [accessNeeds, tryAccess]
    rw [firstStage] at low ⊢
    cases proper : canonical gva with
    | false => exact ⟨Later.refl later.demand, Or.inl ⟨rfl, fun need none => absurd none (by simp)⟩⟩
    | true =>
      rw [proper] at low
      have root_ : Radix.descend child (tables start.mem) vroot [] = some vroot := rfl
      exact guestWalk_tried guest later gva kind root_ (Nat.le_refl 2) low

/-- An access to a low address is a low need. -/
theorem lastNeed_low {gva : U64} {kind : AccessKind} {ended : Nat × U64}
    (low : ∀ gpa, guestLeaf gva kind ended = some gpa → gpa.toNat < 2 ^ 39) :
    ∀ need ∈ lastNeed gva kind ended,
      need.1.toNat < 2 ^ 39 ∧ (need.2 = .load ∨ need.2 = kind) := by
  intro need member
  rw [lastNeed] at member
  obtain ⟨gpa, goes, rfl⟩ := Option.map_eq_some_iff.mp (Option.mem_toList.mp member)
  exact ⟨low gpa goes, Or.inr rfl⟩

/-- The walk goes down the tables of the guest. -/
theorem walkNeeds_low {vroot : Ppn} (guest : Guest pages root (some vroot) s) (gva : U64)
    (kind : AccessKind) {level : Nat} {P : List Index} {page : Ppn}
    (reached : Radix.descend child (tables s.mem) vroot P = some page)
    (within : P.length + level ≤ 2)
    (low : ∀ gpa, guestLeaf gva kind (Radix.walk child (tables s.mem) page (vpn level gva)
      (slotsBelow gva level)) = some gpa → gpa.toNat < 2 ^ 39) :
    ∀ need ∈ walkNeeds gva kind s.mem level page,
      need.1.toNat < 2 ^ 39 ∧ (need.2 = .load ∨ need.2 = kind) := by
  -- The induction follows the walk, one table of the guest at each level.
  induction level generalizing P page with
  | zero =>
    have first := guest.entry_low within reached (vpn 0 gva)
    exact List.forall_mem_cons.mpr ⟨⟨first, Or.inl rfl⟩, lastNeed_low low⟩
  | succ level ih =>
    have first := guest.entry_low (by omega) reached (vpn (level + 1) gva)
    rw [slotsBelow, Radix.walk] at low
    refine List.forall_mem_cons.mpr ⟨⟨first, Or.inl rfl⟩, ?_⟩
    have entry : s.mem (entryAddr page (vpn (level + 1) gva)) =
        tables s.mem page (vpn (level + 1) gva) := rfl
    rw [entry]
    cases leads : child (tables s.mem page (vpn (level + 1) gva)) with
    | none =>
      rw [leads] at low
      dsimp only at low
      rw [slotsBelow_length] at low
      exact lastNeed_low low
    | some next =>
      rw [leads] at low
      have further : Radix.descend child (tables s.mem) vroot (P ++ [vpn (level + 1) gva]) =
          some next := by
        rw [Radix.descend_concat, reached]
        exact leads
      refine ih further ?_ low
      rw [List.length_append, List.length_singleton]
      omega

/-- What an access needs is below 512 GiB, and is a load or the access itself. -/
theorem accessNeeds_low (guest : Guest pages root vsatp s) (gva : U64) (kind : AccessKind)
    (low : ∀ gpa, firstStage vsatp s.mem gva kind = some gpa → gpa.toNat < 2 ^ 39) :
    ∀ need ∈ accessNeeds vsatp s.mem gva kind,
      need.1.toNat < 2 ^ 39 ∧ (need.2 = .load ∨ need.2 = kind) := by
  cases vsatp with
  | none =>
    intro need member
    obtain rfl := List.mem_singleton.mp member
    exact ⟨low gva rfl, Or.inr rfl⟩
  | some vroot =>
    rw [accessNeeds]
    rw [firstStage] at low
    cases proper : canonical gva with
    | false => exact fun need none => absurd none (by simp)
    | true =>
      rw [proper] at low
      have root_ : Radix.descend child (tables s.mem) vroot [] = some vroot := rfl
      exact walkNeeds_low guest gva kind root_ (Nat.le_refl 2) low

/-- There are at most four needs. -/
theorem accessNeeds_length (vsatp : Option Ppn) (mem : Memory) (gva : U64) (kind : AccessKind) :
    (accessNeeds vsatp mem gva kind).length ≤ 4 := by
  cases vsatp with
  | none => exact Nat.le_add_left 1 3
  | some page =>
    rw [accessNeeds]
    split
    · exact walkNeeds_length gva kind mem 2 page
    · exact Nat.zero_le 4

/-! ### Whole accesses -/

variable {alloc : AllocPgtable σ} {fuel : Nat}

/-- What is known of the tries of an access. -/
theorem accessServed (supplies : Supplies alloc pages) (fueled : 512 ≤ fuel) {start : Mm σ}
    (mid : Mm σ) (guest : Guest pages root vsatp start) (gva : U64) (kind : AccessKind)
    (low : ∀ gpa, firstStage vsatp start.mem gva kind = some gpa → gpa.toNat < 2 ^ 39) :
    Retry.Served (attemptAccess root vsatp gva kind) (serveFault alloc fuel root gva kind)
      (accessNeeds vsatp start.mem gva kind) (met root) (Affords root pages)
      (fun s => Later pages root start s ∧ Later pages root mid s)
      (firstStage vsatp start.mem gva kind) where
  tries s := by
    rintro ⟨later, onward⟩
    obtain ⟨after, ended⟩ := tryAccess_tried guest later gva kind low
    refine ⟨⟨later.trans after, onward.trans after⟩, fun need member => ?_, ended⟩
    exact after.keeps _ _ (accessNeeds_low guest gva kind low need member).1
  serves s := by
    rintro ⟨later, onward⟩ need member refused available
    obtain ⟨small, about⟩ := accessNeeds_low guest gva kind low need member
    obtain ⟨s', served, after, now, -⟩ :=
      later.demand.serveFault supplies fueled gva small about refused available
    refine ⟨s', served, ⟨later.trans after, onward.trans after⟩, fun other known => ?_, now⟩
    exact after.keeps _ _ (accessNeeds_low guest gva kind low other known).1

/-- An access ends with what the guest's tables say, after as many faults as it had needs unmet. -/
theorem guestAccess_ends (supplies : Supplies alloc pages) (fueled : 512 ≤ fuel) {start : Mm σ}
    (guest : Guest pages root vsatp start) (later : Later pages root start s) (gva : U64)
    (kind : AccessKind)
    (low : ∀ gpa, firstStage vsatp start.mem gva kind = some gpa → gpa.toNat < 2 ^ 39)
    {tries : Nat} (enough : Retry.unmet (accessNeeds vsatp start.mem gva kind) (met root) s < tries)
    (supplied : AccessSupplied alloc fuel root vsatp pages tries gva kind s) :
    ∃ faults s', guestAccess alloc fuel root vsatp tries gva kind s =
        some (faults, firstStage vsatp start.mem gva kind, s') ∧
      faults ≤ Retry.unmet (accessNeeds vsatp start.mem gva kind) (met root) s ∧
      Later pages root start s' ∧ Later pages root s s' ∧
      ∀ need ∈ accessNeeds vsatp start.mem gva kind, met root s' need = true := by
  obtain ⟨faults, s', ran, bound, ⟨after, onward⟩, all⟩ := Retry.loop_ends
    (accessServed supplies fueled s guest gva kind low) ⟨later, Later.refl later.demand⟩ enough
    supplied
  exact ⟨faults, s', ran, bound, after, onward, all⟩

/-- Five tries are enough. -/
theorem unmet_lt_five (root : Ppn) (vsatp : Option Ppn) (mem : Memory) (gva : U64)
    (kind : AccessKind) (s : Mm σ) : Retry.unmet (accessNeeds vsatp mem gva kind) (met root) s < 5 :=
  Nat.lt_succ_of_le (Nat.le_trans List.countP_le_length (accessNeeds_length vsatp mem gva kind))

/-- A run of accesses, seen from a state that came before it. -/
theorem guestAccesses_ends (supplies : Supplies alloc pages) (fueled : 512 ≤ fuel) {start : Mm σ}
    (guest : Guest pages root vsatp start) (later : Later pages root start s)
    (accesses : List (U64 × AccessKind))
    (low : ∀ access ∈ accesses, ∀ gpa,
      firstStage vsatp start.mem access.1 access.2 = some gpa → gpa.toNat < 2 ^ 39)
    (supplied : AccessesSupplied alloc fuel root vsatp pages 5 accesses s) :
    ∃ results s', guestAccesses alloc fuel root vsatp 5 accesses s = some (results, s') ∧
      results.map Prod.snd =
        accesses.map (fun access => firstStage vsatp start.mem access.1 access.2) ∧
      (∀ result ∈ results, result.1 ≤ 4) ∧ Later pages root start s' ∧ Later pages root s s' ∧
      ∀ access ∈ accesses, ∀ need ∈ accessNeeds vsatp start.mem access.1 access.2,
        met root s' need = true := by
  induction accesses generalizing s with
  | nil =>
    exact ⟨[], s, rfl, rfl, fun _ none => absurd none List.not_mem_nil, later,
      Later.refl later.demand, fun _ none => absurd none List.not_mem_nil⟩
  | cons access rest ih =>
    obtain ⟨gva, kind⟩ := access
    obtain ⟨first, others⟩ := List.forall_mem_cons.mp low
    obtain ⟨here, onwards⟩ := supplied
    have few := unmet_lt_five root vsatp start.mem gva kind s
    obtain ⟨faults, s', ran, bound, after, onward, all⟩ := guestAccess_ends supplies fueled guest
      later gva kind first few here
    obtain ⟨results, final, goes, same, most, end_, further, kept⟩ :=
      ih after others (onwards _ _ _ ran)
    refine ⟨(faults, firstStage vsatp start.mem gva kind) :: results, final, ?_, ?_, ?_,
      end_, ?_, ?_⟩
    · rw [guestAccesses, ran]
      dsimp only
      rw [goes]
      rfl
    · rw [List.map_cons, List.map_cons, same]
    · exact List.forall_mem_cons.mpr ⟨by dsimp only; omega, most⟩
    · exact onward.trans further
    · refine List.forall_mem_cons.mpr ⟨fun need member => ?_, kept⟩
      -- What the second stage permits now it still permits in the end.
      exact further.keeps _ _ (accessNeeds_low guest gva kind first need member).1 (all need member)

/--
Demand paging is invisible to the guest: of whatever accesses it makes, one after the other, it gets
what its own tables say, and these never change, as long as each fault finds pages for its tables.
An access takes four guest-page faults at most, and none when it is made again. What is no table of
the hypervisor keeps its content.
-/
theorem guestAccesses_transparent (supplies : Supplies alloc pages) (fueled : 512 ≤ fuel)
    (guest : Guest pages root vsatp s) (accesses : List (U64 × AccessKind))
    (low : ∀ access ∈ accesses, ∀ gpa,
      firstStage vsatp s.mem access.1 access.2 = some gpa → gpa.toNat < 2 ^ 39)
    (supplied : AccessesSupplied alloc fuel root vsatp pages 5 accesses s) :
    ∃ results s', guestAccesses alloc fuel root vsatp 5 accesses s = some (results, s') ∧
      results.map Prod.snd =
        accesses.map (fun access => firstStage vsatp s.mem access.1 access.2) ∧
      (∀ result ∈ results, result.1 ≤ 4) ∧ Guest pages root vsatp s' ∧
      (∀ gva kind, firstStage vsatp s'.mem gva kind = firstStage vsatp s.mem gva kind) ∧
      (∀ access ∈ accesses, ∃ s'', guestAccess alloc fuel root vsatp 1 access.1 access.2 s' =
        some (0, firstStage vsatp s.mem access.1 access.2, s'')) ∧
      ∀ page, Radix.Unreached child (tables s.mem) root 2 page → ¬ Unused pages s page →
        tables s'.mem page = tables s.mem page := by
  obtain ⟨results, s', ran, same, most, later, _, all⟩ := guestAccesses_ends supplies fueled guest
    (Later.refl guest.demand) accesses low supplied
  refine ⟨results, s', ran, same, most, later.guest guest,
    fun gva kind => later.firstStage guest gva kind, fun access member => ?_,
    fun page outside unused => (later.spares page outside unused).1⟩
  -- Everything that the access needs is there.
  have none : Retry.unmet (accessNeeds vsatp s.mem access.1 access.2) (met root) s' = 0 :=
    List.countP_eq_zero.mpr fun need known => by simp [all access member need known]
  have again := Retry.supplied_of_met
    (accessServed supplies fueled s' guest access.1 access.2 (low access member))
    ⟨later, Later.refl later.demand⟩ (all access member) 1
  obtain ⟨faults, s'', ran', bound, _⟩ := guestAccess_ends supplies fueled guest later access.1
    access.2 (low access member) (show _ < 1 by omega) again
  rw [none] at bound
  exact ⟨s'', by rw [ran', Nat.le_zero.mp bound]⟩

/-- Each fault takes two pages at most. -/
theorem accessPaid (supplies : Supplies alloc pages) (fueled : 512 ≤ fuel) {start : Mm σ}
    (mid : Mm σ) (guest : Guest pages root vsatp start) (gva : U64) (kind : AccessKind)
    (low : ∀ gpa, firstStage vsatp start.mem gva kind = some gpa → gpa.toNat < 2 ^ 39) :
    Retry.Paid (attemptAccess root vsatp gva kind) (serveFault alloc fuel root gva kind)
      (accessNeeds vsatp start.mem gva kind) (met root) (Affords root pages)
      (fun s => Later pages root start s ∧ Later pages root mid s)
      (fun s => (pages s.pool).length) 2 where
  free _ := rfl
  pays s := by
    rintro ⟨later, -⟩ need member refused available s' taken
    obtain ⟨small, about⟩ := accessNeeds_low guest gva kind low need member
    obtain ⟨s'', served, -, -, spent, few, rest⟩ :=
      later.demand.serveFault supplies fueled gva small about refused available
    cases taken.symm.trans served
    rw [rest, List.length_drop]
    omega
  affordable s need enough := Nat.le_trans (Radix.walk_fst_le _ _ _) enough

/-- Eight free pages for each access are always enough. -/
theorem accessesSupplied_of_many (supplies : Supplies alloc pages) (fueled : 512 ≤ fuel)
    {start : Mm σ} (guest : Guest pages root vsatp start) (later : Later pages root start s)
    (accesses : List (U64 × AccessKind))
    (low : ∀ access ∈ accesses, ∀ gpa,
      firstStage vsatp start.mem access.1 access.2 = some gpa → gpa.toNat < 2 ^ 39)
    (many : 8 * accesses.length ≤ (pages s.pool).length) :
    AccessesSupplied alloc fuel root vsatp pages 5 accesses s := by
  induction accesses generalizing s with
  | nil => trivial
  | cons access rest ih =>
    obtain ⟨gva, kind⟩ := access
    obtain ⟨first, others⟩ := List.forall_mem_cons.mp low
    rw [List.length_cons] at many
    have few := unmet_lt_five root vsatp start.mem gva kind s
    have known := accessServed supplies fueled s guest gva kind first
    have paid := accessPaid supplies fueled s guest gva kind first
    have now := And.intro later (Later.refl later.demand)
    -- At most four needs are unmet, and two pages serve each.
    have here : AccessSupplied alloc fuel root vsatp pages 5 gva kind s :=
      Retry.supplied_of_budget known paid now (by omega)
    refine ⟨here, fun faults result s' ran => ?_⟩
    obtain ⟨faults', s'', ran', bound, after, -⟩ :=
      guestAccess_ends supplies fueled guest later gva kind first few here
    cases ran.symm.trans ran'
    have left := Retry.loop_pays known paid now here ran
    exact ih after others (by omega)

end Kept

/-- A table of the guest that maps the first GiB of its memory to itself. -/
def guestRoot : Ppn := 0x80310

/-- The entry of that superpage. -/
def guestSuperpage : U64 := pfnEntry 0x80000 (pageKernel ||| _PAGE_EXEC)

/-- The memory with that table, an empty second stage and eight pages for its tables. -/
def guestStart : Mm (List U64) where
  mem := Function.update (fun _ => 0) (entryAddr guestRoot 2) guestSuperpage
  pool := (List.range 8).map fun i => frameAddr (0x80320 + BitVec.ofNat 44 i)
  touched := []

/-- The tables of the second stage are empty, and beside the one of the guest. -/
theorem guestStart_guest : Guest id hsPgDir (some guestRoot) guestStart := by
  have other (page : Ppn) (index : Index) (apart : page ≠ guestRoot) :
      tables guestStart.mem page index = 0 := by
    rw [tables, guestStart]
    dsimp only
    rw [Function.update_of_ne fun same => apart (entryAddr_injective same).1]
  have blank : ∀ index, tables guestStart.mem hsPgDir index = 0 := fun index =>
    other hsPgDir index (by decide)
  have frames : ∀ p ∈ guestStart.pool, ∃ page, p = frameAddr page ∧ page ≠ hsPgDir ∧
      page ≠ guestRoot := by
    intro p member
    obtain ⟨i, inside, rfl⟩ := List.mem_map.mp member
    refine ⟨_, rfl, ?_⟩
    have all : ∀ i ∈ List.range 8, (0x80320 : Ppn) + BitVec.ofNat 44 i ≠ hsPgDir ∧
        (0x80320 : Ppn) + BitVec.ofNat 44 i ≠ guestRoot := by decide
    exact all i inside
  -- No entry of the guest's table leads to another table.
  have leads (index : Index) : child (tables guestStart.mem guestRoot index) = none := by
    by_cases here : index = 2
    · subst here
      rw [tables, guestStart]
      dsimp only
      rw [Function.update_self]
      decide
    · rw [tables, guestStart]
      dsimp only
      rw [Function.update_of_ne fun same => here (entryAddr_injective same).2]
      decide
  have alone {P : List Index} {page : Ppn}
      (located : Radix.descend child (tables guestStart.mem) guestRoot P = some page) :
      page = guestRoot := by
    cases P with
    | nil => exact (Option.some.inj located).symm
    | cons index rest =>
      rw [Radix.descend, leads] at located
      cases located
  refine ⟨Demand.empty blank (by decide) fun p member => ?_, ?_, ?_⟩
  · obtain ⟨page, frame, apart, _⟩ := frames p member
    exact ⟨page, frame, apart⟩
  · rintro _ ⟨⟩ P page _ located
    rw [alone located]
    refine ⟨fun Q _ reached => ?_, fun unused => ?_⟩
    · have same := (descend_of_blank blank reached).2
      exact absurd same (by decide)
    · obtain ⟨page, frame, _, apart⟩ := frames _ unused
      exact apart (frameAddr_injective frame).symm
  · rintro _ ⟨⟩ P page _ located
    rw [alone located]
    decide

/-- A load of the guest goes where its table says. -/
theorem guestAccesses_transparent_superpage :
    ∃ results s', guestAccesses listed 512 hsPgDir (some guestRoot) 5 [(0x80000123, .load)]
        guestStart = some (results, s') ∧
      results.map Prod.snd = [some 0x80000123] := by
  have goes : firstStage (some guestRoot) guestStart.mem 0x80000123 .load = some 0x80000123 := by
    decide
  have low : ∀ access ∈ [((0x80000123 : U64), AccessKind.load)], ∀ gpa,
      firstStage (some guestRoot) guestStart.mem access.1 access.2 = some gpa →
      gpa.toNat < 2 ^ 39 := by
    intro access member gpa found
    rw [List.mem_singleton.mp member, goes] at found
    rw [← Option.some_inj.mp found]
    decide
  obtain ⟨results, s', ran, same, _⟩ := guestAccesses_transparent listed_supplies (Nat.le_refl 512)
    guestStart_guest [(0x80000123, .load)] low
    (accessesSupplied_of_many listed_supplies (Nat.le_refl 512) guestStart_guest
      (Later.refl guestStart_guest.demand) _ low (by decide))
  refine ⟨results, s', ran, ?_⟩
  rw [same]
  exact congrArg (fun result => [result]) goes

end Benos
