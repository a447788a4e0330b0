import Benos.Mm.SectionCorrect
import Benos.Mm.Stage2

/-! Where the sections of the boot code lead, and that mappings elsewhere leave them alone. -/

namespace Benos

open Sv39

/-- The end of the section that holds the last address in front of an end. -/
def sectionsEnd (end_ : U64) : Nat := (end_.toNat + (2 ^ 21 - 1)) / 2 ^ 21 * 2 ^ 21

/-- The addresses of the sections of a range, of which the walk reads 39 bits. -/
def InSections (start end_ va : U64) : Prop :=
  start.toNat ≤ va.toNat % 2 ^ 39 ∧ va.toNat % 2 ^ 39 < sectionsEnd end_

instance (start end_ va : U64) : Decidable (InSections start end_ va) :=
  inferInstanceAs (Decidable (_ ∧ _))

/-- A call of `__create_section_mapping` on an empty directory. -/
structure SectionRequest (h : Hart) (root : Ppn) : Prop where
  directory : h.get .a0 = frameAddr root
  fits : root.toNat + 1 < 2 ^ 44
  blank : ∀ index, h.mem (entryAddr root index) = 0 ∧ h.mem (entryAddr (root + 1) index) = 0
  physAligned : (h.get .a1).toNat % 2 ^ 21 = 0
  virtAligned : (h.get .a2).toNat % 2 ^ 21 = 0
  nonempty : (h.get .a2).toNat < (h.get .a3).toNat
  region : ((h.get .a3).toNat - 1) / 2 ^ 30 = (h.get .a2).toNat / 2 ^ 30
  low : (h.get .a3).toNat ≤ 2 ^ 39
  /-- Physical addresses have 56 bits. -/
  physical : (h.get .a1).toNat + (sectionsEnd (h.get .a3) - (h.get .a2).toNat) ≤ 2 ^ 56
  permission : LeafProt (h.get .a4)
  stack : Aligned (h.get .sp)
  apart : ∀ index, h.get .sp - 8 ≠ entryAddr root index ∧
    h.get .sp - 8 ≠ entryAddr (root + 1) index

/-- An address is mapped by a section, at its distance from the start, with the given permission. -/
def SectionMapped (mem : Memory) (root : Ppn) (phys start prot va : U64) : Prop :=
  ∃ entry, translate mem root va = some (1, entry) ∧
    target 1 entry va = phys.toNat + (va.toNat % 2 ^ 39 - start.toNat) ∧
    ∀ i < 10, entry.getLsbD i = prot.getLsbD i

/-- A call with such arguments has sections from the one of its start to that of its end. -/
theorem SectionRequest.call {h : Hart} {root : Ppn} (request : SectionRequest h root) :
    SectionCall h root ((h.get .a2).toNat / 2 ^ 21)
      (((h.get .a3).toNat + (2 ^ 21 - 1)) / 2 ^ 21) := by
  -- The bounds are whole numbers of sections.
  have virt := request.virtAligned
  have nonempty := request.nonempty
  have region := request.region
  have low := request.low
  refine ⟨request.directory, request.fits, by omega, ?_, by omega, ?_, by omega, request.stack,
    request.apart, request.blank⟩
  · intro n
    omega
  · rw [Nat.div_div_eq_div_mul]
    omega

/-! ### The entry of a section -/

section Entry

variable {phys prot : U64} {first n : Nat} (aligned : phys.toNat % 2 ^ 21 = 0)
  (physical : phys.toNat + (n - first + 1) * 2 ^ 21 ≤ 2 ^ 56) (permission : LeafProt prot)

include physical

/-- The page number in the entry is that of the start of the section. -/
theorem sectionPmd_number :
    (pfnDown (phys + BitVec.ofNat 64 ((n - first) * 2 ^ 21))).toNat =
      phys.toNat / 4096 + (n - first) * 512 := by
  -- The address of a section is a physical one and does not wrap.
  have address : (phys + BitVec.ofNat 64 ((n - first) * 2 ^ 21)).toNat =
      phys.toNat + (n - first) * 2 ^ 21 := by
    rw [BitVec.toNat_add, BitVec.toNat_ofNat]
    omega
  rw [pfnDown_toNat, address]
  omega

include permission

/-- A section leads to no table. -/
theorem sectionPmd_child : child (sectionPmd phys prot first n) = none :=
  permission.child_entry (by rw [sectionPmd_number physical]; omega)

/-- Its low bits are the permission. -/
theorem sectionPmd_prot {i : Nat} (within : i < 10) :
    (sectionPmd phys prot first n).getLsbD i = prot.getLsbD i :=
  pfnEntry_getLsbD (by rw [sectionPmd_number physical]; omega) permission.low within

/-- The page it names is the first one of the section. -/
theorem sectionPmd_ppn :
    (ppn (sectionPmd phys prot first n)).toNat = phys.toNat / 4096 + (n - first) * 512 := by
  have number := sectionPmd_number physical
  rw [sectionPmd, pfnPmd, ppn_pfnEntry (by omega) permission.low, number]

include aligned

/-- It is a leaf of 2 MiB. -/
theorem sectionPmd_leaf :
    leaf (1, sectionPmd phys prot first n) = some (1, sectionPmd phys prot first n) := by
  have number := sectionPmd_number physical
  have isLeaf_ : isLeaf (sectionPmd phys prot first n) = true :=
    permission.isLeaf_entry (by omega)
  -- A physical start at a multiple of 2 MiB stays one by whole sections.
  have isAligned_ : isAligned 1 (sectionPmd phys prot first n) = true := by
    rw [isAligned, sectionPmd_ppn physical permission, beq_iff_eq]
    omega
  rw [leaf, isLeaf_, isAligned_]
  rfl

/-- Addresses of the section are translated at their distance from its start. -/
theorem sectionPmd_target {va : U64} (inside : va.toNat % 2 ^ 39 / 2 ^ 21 = n) (above : first ≤ n) :
    target 1 (sectionPmd phys prot first n) va =
      phys.toNat + (va.toNat % 2 ^ 39 - first * 2 ^ 21) := by
  -- A section has 512 pages, and its first page has a multiple of that as its number.
  rw [target, sectionPmd_ppn physical permission, Nat.pow_one]
  omega

end Entry

/-! ### Mappings beside the sections -/

/-- A directory whose walks end at a section, or are not blocked. -/
structure Divided {σ : Type} (pages : σ → List U64) (root : Ppn) (first last : Nat)
    (entry : Nat → U64) (s : Mm σ) : Prop where
  sound : Sound pages root s
  sections : ∀ n, InSlots first last n → pageWalk s.mem root n = (1, entry (n % 2 ^ 27 / 2 ^ 9))
  clear : ∀ n, ¬ InSlots first last n → Clear s.mem root n

section Divided

variable {σ : Type} {pages : σ → List U64} {root : Ppn} {first last : Nat} {entry : Nat → U64}
  {s : Mm σ}

/-- Only the two pages of a directory matter. -/
theorem Sectioned.congr {mem mem' : Memory} (sectioned : Sectioned mem root first last entry)
    (same : ∀ page index, page = root ∨ page = root + 1 →
      mem' (entryAddr page index) = mem (entryAddr page index)) :
    Sectioned mem' root first last entry := by
  -- Every field is about one entry of one of the pages.
  refine ⟨?_, fun index apart => ?_, fun n lower upper => ?_, fun index apart => ?_⟩
  · rw [same _ _ (Or.inl rfl), sectioned.top]
  · rw [same _ _ (Or.inl rfl), sectioned.noTop index apart]
  · rw [same _ _ (Or.inr rfl), sectioned.sections n lower upper]
  · rw [same _ _ (Or.inr rfl), sectioned.noSections index apart]

/-- With pages that are neither of the two it is divided. -/
theorem Sectioned.divided (sectioned : Sectioned s.mem root first last entry)
    (fits : root.toNat + 1 < 2 ^ 44)
    (ended : ∀ n, first ≤ n → n < last → child (entry n) = none)
    (region : (last - 1) / 512 = first / 512) (low : last ≤ 2 ^ 18)
    (distinct : (pages s.pool).Nodup)
    (fresh : ∀ p ∈ pages s.pool, ∃ page, p = frameAddr page ∧ page ≠ root ∧ page ≠ root + 1) :
    Divided pages root first last entry s :=
  ⟨sectioned.sound fits ended distinct fresh,
    fun _ inside => sectioned.walk_inside ended region inside,
    fun _ outside => Or.inr (sectioned.walk_outside ended region low outside)⟩

/-- A mapping beside the sections finds its tables, and the directory is divided as before. -/
theorem Divided.mapping {alloc : AllocPgtable σ} {Fine Failed : σ → Prop}
    (provision : Provision alloc pages Fine Failed) (divided : Divided pages root first last entry s)
    (used : ∀ n, first ≤ n → n < last → entry n ≠ 0) (phys prot : U64) {virt size : U64}
    (window : Window virt size)
    (apart : ∀ va, InRange virt size va → ¬ InSlots first last (va.toNat / 4096))
    (enough : (lacking s.mem root (rangePaths virt size)).card ≤ (pages s.pool).length) {fuel : Nat}
    (fueled : 512 ≤ fuel) :
    ∃ s', createPgdMapping alloc prot fuel (frameAddr root) phys virt size s = some s' ∧
      Traced pages Fine root ((pageAlignDown virt).toNat / 4096)
        (endNat (pageAlignUp (virt + size)) / 4096) (pagePte phys virt prot)
        (rangePaths virt size) s s' ∧
      Divided pages root first last entry s' := by
  have clear : ∀ va, InRange virt size va → Unblocked s.mem root va := by
    intro va inside
    rw [Unblocked, walk_eq_pageWalk]
    exact divided.clear _ (apart va inside)
  obtain ⟨s', ran, outcome⟩ := createPgdMapping_range phys prot provision divided.sound window
    clear fueled
  have traced := outcome.traced enough
  refine ⟨s', ran, traced, traced.sound, ?_, ?_⟩
  · intro n inside
    -- No page of the range has the indices of a page of a section.
    have others := traced.others n fun m lower upper same => by
      obtain ⟨page, within⟩ := inRange_page lower upper
      have outside := apart _ within
      rw [page, Nat.mul_div_cancel m (by decide), InSlots, ← same] at outside
      exact outside inside
    rw [divided.sections n inside] at others
    rcases others with same | ⟨-, empty, -⟩
    · exact same
    · exact absurd empty (used _ inside.1 inside.2)
  · intro n outside
    by_cases mapped : ∃ m, (pageAlignDown virt).toNat / 4096 ≤ m ∧
        m < endNat (pageAlignUp (virt + size)) / 4096 ∧ n % 2 ^ 27 = m % 2 ^ 27
    · -- A page of the range ends in the last level.
      obtain ⟨m, lower, upper, same⟩ := mapped
      rw [Clear, pageWalk_congr same, traced.mapped m lower upper]
      exact Or.inl rfl
    · exact traced.toExtends.clear
        (fun m lower upper same => mapped ⟨m, lower, upper, same⟩) (divided.clear n outside)

end Divided

/-! ### The whole function -/

/-- An address belongs to the sections when its page does. -/
theorem inSections_iff {start end_ va : U64} (aligned : start.toNat % 2 ^ 21 = 0) :
    InSections start end_ va ↔ InSlots (start.toNat / 2 ^ 21)
      ((end_.toNat + (2 ^ 21 - 1)) / 2 ^ 21) (va.toNat / 4096) := by
  rw [InSections, InSlots, sectionsEnd]
  omega

namespace SectionRequest

variable {h : Hart} {root : Ppn} (request : SectionRequest h root)

include request

/-- Every section lies in physical memory. -/
theorem within {n : Nat} (upper : n < ((h.get .a3).toNat + (2 ^ 21 - 1)) / 2 ^ 21) :
    (h.get .a1).toNat + (n - (h.get .a2).toNat / 2 ^ 21 + 1) * 2 ^ 21 ≤ 2 ^ 56 := by
  have aligned := request.virtAligned
  have nonempty := request.nonempty
  have physical := request.physical
  rw [sectionsEnd] at physical
  -- The section ends where the last one does, or earlier.
  omega

/-- No section leads to a table. -/
theorem ended (n : Nat) (_ : (h.get .a2).toNat / 2 ^ 21 ≤ n)
    (upper : n < ((h.get .a3).toNat + (2 ^ 21 - 1)) / 2 ^ 21) :
    child (sectionPmd (h.get .a1) (h.get .a4) ((h.get .a2).toNat / 2 ^ 21) n) = none :=
  sectionPmd_child (request.within upper) request.permission

/-- Every section is a leaf, so its entry is not empty. -/
theorem used (n : Nat) (_ : (h.get .a2).toNat / 2 ^ 21 ≤ n)
    (upper : n < ((h.get .a3).toNat + (2 ^ 21 - 1)) / 2 ^ 21) :
    sectionPmd (h.get .a1) (h.get .a4) ((h.get .a2).toNat / 2 ^ 21) n ≠ 0 := by
  have leaf_ := sectionPmd_leaf request.physAligned (request.within upper) request.permission
  -- An empty entry is no leaf.
  intro empty
  rw [leaf_of_empty empty] at leaf_
  cases leaf_

/-- The walk of an address of the sections gives its place in them. -/
theorem mapped {mem : Memory} {va : U64} (inside : InSlots ((h.get .a2).toNat / 2 ^ 21)
      (((h.get .a3).toNat + (2 ^ 21 - 1)) / 2 ^ 21) (va.toNat / 4096))
    (walked : pageWalk mem root (va.toNat / 4096) =
      (1, sectionPmd (h.get .a1) (h.get .a4) ((h.get .a2).toNat / 2 ^ 21)
        (va.toNat / 4096 % 2 ^ 27 / 2 ^ 9))) :
    SectionMapped mem root (h.get .a1) (h.get .a2) (h.get .a4) va := by
  have aligned := request.virtAligned
  have physical := request.within inside.2
  have translated := sectionPmd_target request.physAligned physical request.permission
    (show va.toNat % 2 ^ 39 / 2 ^ 21 = _ by omega) inside.1
  -- The walk ends at the entry of the section, which is a leaf of 2 MiB.
  refine ⟨_, ?_, ?_, fun i low => sectionPmd_prot physical request.permission low⟩
  · rw [Sv39.translate, walk_eq_pageWalk, walked]
    exact sectionPmd_leaf request.physAligned physical request.permission
  · rw [translated]
    omega

end SectionRequest

/-- A mapping on the same directory, of a range that keeps off the sections. -/
structure Elsewhere {σ : Type} (alloc : AllocPgtable σ) (pages : σ → List U64) (root : Ppn)
    (start end_ virt size : U64) (s : Mm σ) : Prop where
  supplies : Supplies alloc pages
  distinct : (pages s.pool).Nodup
  fresh : ∀ p ∈ pages s.pool, ∃ page, p = frameAddr page ∧ page ≠ root ∧ page ≠ root + 1
  window : Window virt size
  apart : ∀ va, InRange virt size va → ¬ InSections start end_ va
  /-- There is a page for each table that the range lacks. -/
  enough : (lacking s.mem root (rangePaths virt size)).card ≤ (pages s.pool).length

/--
`__create_section_mapping` ends and changes nothing but its stack slot and the two pages of the
directory. Every address of the sections is then mapped at its distance from the start, no other
address is mapped, and a mapping elsewhere leaves the sections as they are.
-/
theorem createSectionMapping_maps {h : Hart} {root : Ppn} {fuel : Nat}
    (request : SectionRequest h root) (fueled : 512 ≤ fuel) :
    ∃ h', createSectionMapping fuel h = some h' ∧
      (∀ addr, addr ≠ h.get .sp - 8 → (∀ index, addr ≠ entryAddr root index) →
        (∀ index, addr ≠ entryAddr (root + 1) index) → h'.mem addr = h.mem addr) ∧
      (∀ va, InSections (h.get .a2) (h.get .a3) va →
        SectionMapped h'.mem root (h.get .a1) (h.get .a2) (h.get .a4) va) ∧
      (∀ va, ¬ InSections (h.get .a2) (h.get .a3) va → translate h'.mem root va = none) ∧
      ∀ {σ : Type} (alloc : AllocPgtable σ) (pages : σ → List U64) (s : Mm σ)
        (phys virt size prot : U64),
        (∀ page index, page = root ∨ page = root + 1 →
          s.mem (entryAddr page index) = h'.mem (entryAddr page index)) →
        Elsewhere alloc pages root (h.get .a2) (h.get .a3) virt size s →
        ∃ s', createPgdMapping alloc prot fuel (frameAddr root) phys virt size s = some s' ∧
          ∀ va, InSections (h.get .a2) (h.get .a3) va →
            translate s'.mem root va = translate h'.mem root va := by
  have call := request.call
  have aligned := request.virtAligned
  have ended := request.ended
  obtain ⟨h', ran, -, -, frame, sectioned⟩ := createSectionMapping_sections call fueled
  refine ⟨h', ran, frame, ?_, ?_, ?_⟩
  · intro va inside
    have slots := (inSections_iff aligned).mp inside
    exact request.mapped slots (sectioned.walk_inside ended call.region slots)
  · intro va outside
    rw [Sv39.translate, walk_eq_pageWalk]
    exact leaf_of_empty
      (sectioned.walk_outside ended call.region call.low (mt (inSections_iff aligned).mpr outside))
  · intro σ alloc pages s phys virt size prot unchanged elsewhere
    -- Whatever else has been written since, the two pages are a divided directory.
    have divided := (sectioned.congr unchanged).divided request.fits ended call.region call.low
      elsewhere.distinct elsewhere.fresh
    obtain ⟨s', mapped, -, kept⟩ := divided.mapping elsewhere.supplies.provision request.used phys
      prot elsewhere.window
      (fun va within => mt (inSections_iff aligned).mpr (elsewhere.apart va within))
      elsewhere.enough fueled
    refine ⟨s', mapped, fun va inside => ?_⟩
    have slots := (inSections_iff aligned).mp inside
    rw [Sv39.translate, Sv39.translate, walk_eq_pageWalk, walk_eq_pageWalk,
      kept.sections _ slots, sectioned.walk_inside ended call.region slots]

/-- A hart with the arguments of `__create_section_mapping`, and its stack below the directory. -/
def sectionHart (start end_ : U64) : Hart :=
  { x := fun
      | .a0 => frameAddr idmapPgDir
      | .a1 => 0x80200000
      | .a2 => start
      | .a3 => end_
      | .a4 => sectionKernelRwx
      | .sp => 0x80203000
      | _ => 0
    csr := fun _ => 0
    pc := 0
    mem := fun _ => 0
    supervisor := true
    virt := false }

/-- What lies below the stack lies in front of both pages. -/
theorem stack_apart {place : U64} (below : place.toNat < 0x80203000) (index : Index) :
    place ≠ entryAddr idmapPgDir index ∧ place ≠ entryAddr (idmapPgDir + 1) index := by
  have first : idmapPgDir.toNat = 0x80203 := rfl
  have second : (idmapPgDir + 1).toNat = 0x80204 := rfl
  -- The directory starts where the stack ends.
  refine ⟨ne_entryAddr_of_lt ?_ index, ne_entryAddr_of_lt ?_ index⟩
  · rw [first]
    omega
  · rw [second]
    omega

theorem sectionHart_request {start end_ : U64} (aligned : start.toNat % 2 ^ 21 = 0)
    (nonempty : start.toNat < end_.toNat)
    (region : (end_.toNat - 1) / 2 ^ 30 = start.toNat / 2 ^ 30) (low : end_.toNat ≤ 2 ^ 39) :
    SectionRequest (sectionHart start end_) idmapPgDir := by
  have physical : (0x80200000 : U64).toNat + (sectionsEnd end_ - start.toNat) ≤ 2 ^ 56 := by
    have phys : (0x80200000 : U64).toNat = 0x80200000 := rfl
    rw [sectionsEnd, phys]
    omega
  -- The rest is about the fixed registers.
  have permission : LeafProt sectionKernelRwx := ⟨by decide, by decide⟩
  have stack : Aligned (0x80203000 : U64) := by decide
  have below : ((0x80203000 : U64) - 8).toNat < 0x80203000 := by decide
  have physAligned : (0x80200000 : U64).toNat % 2 ^ 21 = 0 := by decide
  exact ⟨rfl, by decide, fun _ => ⟨rfl, rfl⟩, physAligned, aligned, nonempty, region, low, physical,
    permission, stack, stack_apart below⟩

/-- The sections of the boot, and the serial port mapped beside them. -/
theorem createSectionMapping_maps_boot :
    ∃ h' s', createSectionMapping 512 (sectionHart 0x80200000 0x81000000) = some h' ∧
      SectionMapped h'.mem idmapPgDir 0x80200000 0x80200000 sectionKernelRwx 0x80312345 ∧
      createPgdMapping listed pageKernel 512 (frameAddr idmapPgDir) 0x10000000 0x10000000 0x1000
        { unmapped with mem := h'.mem } = some s' ∧
      translate s'.mem idmapPgDir 0x80312345 = translate h'.mem idmapPgDir 0x80312345 := by
  have request : SectionRequest (sectionHart 0x80200000 0x81000000) idmapPgDir :=
    sectionHart_request (by decide) (by decide) (by decide) (by decide)
  obtain ⟨h', ran, -, inside, -, later⟩ := createSectionMapping_maps request (Nat.le_refl 512)
  have window : Window 0x10000000 0x1000 := ⟨by decide, by decide⟩
  have distinct : unmapped.pool.Nodup := by decide
  have fresh : ∀ p ∈ unmapped.pool,
      ∃ page, p = frameAddr page ∧ page ≠ idmapPgDir ∧ page ≠ idmapPgDir + 1 := by
    intro p member
    rcases List.mem_cons.mp member with rfl | rest
    · exact ⟨_, rfl, by decide, by decide⟩
    · rw [List.mem_singleton.mp rest]
      exact ⟨_, rfl, by decide, by decide⟩
  -- The port lies far below the memory.
  have apart : ∀ va, InRange 0x10000000 0x1000 va →
      ¬ InSections ((sectionHart 0x80200000 0x81000000).get .a2)
        ((sectionHart 0x80200000 0x81000000).get .a3) va := by
    rintro va ⟨lower, upper⟩ ⟨above, -⟩
    have stop : endNat (pageAlignUp ((0x10000000 : U64) + 0x1000)) = 0x10001000 := by decide
    have start : ((sectionHart 0x80200000 0x81000000).get .a2).toNat = 0x80200000 := rfl
    omega
  have enough : rangeTables 0x10000000 0x1000 ≤ unmapped.pool.length := by decide
  obtain ⟨s', mapped, kept⟩ := later listed id { unmapped with mem := h'.mem } 0x10000000
    0x10000000 0x1000 pageKernel (fun _ _ _ => rfl)
    ⟨listed_supplies, distinct, fresh, window, apart,
      (lacking_le_tablesNeeded _ _ _ _).trans enough⟩
  exact ⟨h', s', ran, inside 0x80312345 (by decide), mapped, kept 0x80312345 (by decide)⟩

/-- An address of the upper half is mapped by sections that end below 512 GiB. -/
theorem createSectionMapping_maps_upper :
    ¬ ∀ (h h' : Hart) (root : Ppn), SectionRequest h root → createSectionMapping 512 h = some h' →
      ∀ va, ¬ ((h.get .a2).toNat ≤ va.toNat ∧ va.toNat < (h.get .a3).toNat) →
        translate h'.mem root va = none := by
  intro claimed
  have request : SectionRequest (sectionHart 0x4000000000 0x4000200000) idmapPgDir :=
    sectionHart_request (by decide) (by decide) (by decide) (by decide)
  obtain ⟨h', ran, -, -, -, sectioned⟩ :=
    createSectionMapping_sections request.call (Nat.le_refl 512)
  have unmapped_ := claimed _ h' _ request ran 0xFFFFFFC000000000 (by decide)
  -- The address has the indices of the first one of the section.
  have slots : InSlots (0x4000000000 / 2 ^ 21) ((0x4000200000 + (2 ^ 21 - 1)) / 2 ^ 21)
      ((0xFFFFFFC000000000 : U64).toNat / 4096) := ⟨by decide, by decide⟩
  obtain ⟨entry, translated, -⟩ := request.mapped slots
    (sectioned.walk_inside request.ended request.call.region slots)
  rw [unmapped_] at translated
  cases translated

end Benos
