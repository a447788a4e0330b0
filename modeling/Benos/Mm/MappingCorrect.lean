import Benos.Mm.MappingLoops

/-! Translation correctness of the page-table builder, over the walks the hardware makes. -/

namespace Benos

open Sv39

variable {σ : Type}

/-- An address of the page-rounded range, whose end may be the top of the address space. -/
def InRange (virt size va : U64) : Prop :=
  (pageAlignDown virt).toNat ≤ va.toNat ∧ va.toNat < endNat (pageAlignUp (virt + size))

instance (virt size va : U64) : Decidable (InRange virt size va) :=
  inferInstanceAs (Decidable (_ ∧ _))

/-- The page-rounded range is not empty and stays inside one window of 512 GiB. -/
structure Window (virt size : U64) : Prop where
  nonempty : (pageAlignDown virt).toNat < endNat (pageAlignUp (virt + size))
  one : (endNat (pageAlignUp (virt + size)) - 1) / 2 ^ 39 = (pageAlignDown virt).toNat / 2 ^ 39

/-- Two addresses with the same index on every level, which no walk can tell apart. -/
def SameIndices (va other : U64) : Prop := ∀ level < 3, vpn level va = vpn level other

/-- The walk of an address is not blocked: every directory entry it meets is empty or a pointer. -/
def Unblocked (mem : Memory) (root : Ppn) (va : U64) : Prop :=
  (walk mem root va).1 = 0 ∨ (walk mem root va).2 = 0

/-- The entry an address of the range is given. -/
def rangePte (phys virt prot va : U64) : U64 :=
  pfnPte (pfnDown (pageAlignDown phys + (pageAlignDown va - pageAlignDown virt))) prot

/-- The table pages the range of a mapping can need. -/
def rangeTables (virt size : U64) : Nat :=
  tablesNeeded ((pageAlignDown virt).toNat / 4096) (endNat (pageAlignUp (virt + size)) / 4096)

/-- Addresses share their indices exactly when their pages agree modulo the window. -/
theorem sameIndices_iff {va other : U64} :
    SameIndices va other ↔ va.toNat / 4096 % 2 ^ 27 = other.toNat / 4096 % 2 ^ 27 := by
  have levels : SameIndices va other ↔
      vpn 0 va = vpn 0 other ∧ vpn 1 va = vpn 1 other ∧ vpn 2 va = vpn 2 other := by
    constructor
    · intro same
      exact ⟨same 0 (by decide), same 1 (by decide), same 2 (by decide)⟩
    · rintro ⟨zero, one, two⟩ level below
      rcases level with _ | _ | _ | level
      · exact zero
      · exact one
      · exact two
      · omega
  -- The three indices are the digits of the page number in base 512.
  rw [levels]
  simp only [vpn_eq, slot_eq_iff, Nat.reduceMul, Nat.reduceAdd, Nat.reducePow]
  omega

/-- Page numbers that differ by whole windows have the same walk. -/
theorem pageWalk_congr {mem : Memory} {root : Ppn} {n m : Nat} (same : n % 2 ^ 27 = m % 2 ^ 27) :
    pageWalk mem root n = pageWalk mem root m := by
  have top : slot (n / 2 ^ 18) = slot (m / 2 ^ 18) := slot_eq_iff.mpr (by omega)
  have middle : slot (n / 2 ^ 9) = slot (m / 2 ^ 9) := slot_eq_iff.mpr (by omega)
  have last : slot n = slot m := slot_eq_iff.mpr (by omega)
  -- The three indices are the same.
  rw [pageWalk, pageWalk, top, middle, last]

/-- Addresses with the same indices are walked through the same entries. -/
theorem SameIndices.walk_eq {va other : U64} (same : SameIndices va other) (mem : Memory)
    (root : Ppn) : walk mem root va = walk mem root other := by
  rw [walk_eq_pageWalk, walk_eq_pageWalk]
  exact pageWalk_congr (sameIndices_iff.mp same)

/-- The start of a range is a page boundary. -/
theorem rangeStart_pages (virt : U64) :
    (pageAlignDown virt).toNat = (pageAlignDown virt).toNat / 4096 * 4096 := by
  rw [pageAlignDown_toNat, Nat.mul_div_cancel _ (by decide)]

/-- The end of a range is a page boundary, possibly the one at the top of the address space. -/
theorem rangeEnd_pages (virt size : U64) :
    endNat (pageAlignUp (virt + size)) = endNat (pageAlignUp (virt + size)) / 4096 * 4096 ∧
      endNat (pageAlignUp (virt + size)) ≤ 2 ^ 64 := by
  have ends := pageAlignUp_toNat (virt + size)
  have bound := (pageAlignUp (virt + size)).isLt
  have top := endNat_eq (pageAlignUp (virt + size))
  -- The end is rounded to a page, or is the end of the address space.
  split at top <;> omega

/-- A page number of the range is the page of an address of the range. -/
theorem inRange_page {virt size : U64} {m : Nat}
    (lower : (pageAlignDown virt).toNat / 4096 ≤ m)
    (upper : m < endNat (pageAlignUp (virt + size)) / 4096) :
    (BitVec.ofNat 64 (m * 4096)).toNat = m * 4096 ∧
      InRange virt size (BitVec.ofNat 64 (m * 4096)) := by
  obtain ⟨_, bound⟩ := rangeEnd_pages virt size
  have start := rangeStart_pages virt
  -- The page number is small enough for its address not to wrap.
  have value : (BitVec.ofNat 64 (m * 4096)).toNat = m * 4096 := by
    rw [BitVec.toNat_ofNat]
    omega
  exact ⟨value, by omega, by omega⟩

/-- A walk that ends at an empty entry finds no leaf. -/
theorem leaf_of_empty {ended : Nat × U64} (empty : ended.2 = 0) : leaf ended = none := by
  have invalid : isLeaf 0 = false := by decide
  rw [leaf, empty, invalid]
  rfl

/-- A walk that may only move between empty entries translates as before. -/
theorem translate_of_kept {mem mem' : Memory} {root : Ppn} {va : U64}
    (kept : Radix.Kept 0 (walk mem root va) (walk mem' root va)) :
    (walk mem' root va).2 = (walk mem root va).2 ∧
      translate mem' root va = translate mem root va := by
  rcases kept with same | ⟨_, before, after⟩
  · rw [Sv39.translate, Sv39.translate, same]
    exact ⟨rfl, rfl⟩
  · -- An empty entry is no leaf, whatever the level.
    rw [Sv39.translate, Sv39.translate, leaf_of_empty before, leaf_of_empty after, before, after]
    exact ⟨rfl, rfl⟩

/-- With no entry no path leaves the root. -/
theorem descend_of_blank {mem : Memory} {root page : Ppn} {P : List Index}
    (blank : ∀ index, tables mem root index = 0)
    (located : Radix.descend child (tables mem) root P = some page) : P = [] ∧ page = root := by
  cases P with
  | nil => exact ⟨rfl, (Option.some.inj located).symm⟩
  | cons index rest =>
    -- An empty entry leads nowhere.
    rw [Radix.descend, blank index, child_zero] at located
    cases located

/-- An empty root with fresh frames beside it is a sound place to start. -/
theorem Sound.empty {pages : σ → List U64} {root : Ppn} {s : Mm σ}
    (blank : ∀ index, tables s.mem root index = 0) (distinct : (pages s.pool).Nodup)
    (fresh : ∀ p ∈ pages s.pool, ∃ page, p = frameAddr page ∧ page ≠ root) :
    Sound pages root s := by
  refine ⟨?_, distinct, ?_⟩
  · -- The only table is the root.
    intro P Q page _ _ locatedP locatedQ
    rw [(descend_of_blank blank locatedP).1, (descend_of_blank blank locatedQ).1]
  · intro p member
    obtain ⟨page, frame, other⟩ := fresh p member
    exact ⟨page, frame, fun P _ located => other (descend_of_blank blank located).2⟩

/-- A walk from an empty root ends there. -/
theorem walk_of_blank {mem : Memory} {root : Ppn} (blank : ∀ index, tables mem root index = 0)
    (va : U64) : walk mem root va = (2, 0) := by
  rw [walk, Radix.walk, blank, child_zero]
  rfl

section Correct

variable {alloc : AllocPgtable σ} {pages : σ → List U64} {root : Ppn} (phys prot : U64)
  {virt size : U64} {s : Mm σ} {fuel : Nat}

/-- The paths to the tables that the range of a mapping needs. -/
def rangePaths (virt size : U64) : Finset (List Index) :=
  tablePaths ((pageAlignDown virt).toNat / 4096) (endNat (pageAlignUp (virt + size)) / 4096)

/-- The entry of a page, counted from the first page of the range. -/
def pagePte (phys virt prot : U64) (n : Nat) : U64 :=
  pfnPte (pfnDown (pageAlignDown phys +
    BitVec.ofNat 64 ((n - (pageAlignDown virt).toNat / 4096) * 4096))) prot

/-- The mapping of one window, with or without the tables that it needs. -/
theorem createPgdMapping_range {Fine Failed : σ → Prop}
    (provision : Provision alloc pages Fine Failed) (sound : Sound pages root s)
    (window : Window virt size) (clear : ∀ va, InRange virt size va → Unblocked s.mem root va)
    (fueled : 512 ≤ fuel) :
    ∃ s', createPgdMapping alloc prot fuel (frameAddr root) phys virt size s = some s' ∧
      Outcome pages Fine Failed root ((pageAlignDown virt).toNat / 4096)
        (endNat (pageAlignUp (virt + size)) / 4096) (pagePte phys virt prot)
        (rangePaths virt size) s s' := by
  have nonempty := window.nonempty
  have one := window.one
  have start := rangeStart_pages virt
  have aligned := (rangeEnd_pages virt size).1
  -- A window lies below one entry of the root, which is what the loops need.
  refine createPgdMapping_outcome provision sound fueled (by omega) (by omega) start aligned
    (fun _ _ => rfl) ?_
  intro n lower upper
  -- Each page of the range is met by an address in it.
  obtain ⟨page, inside⟩ := inRange_page lower upper
  have met := clear (BitVec.ofNat 64 (n * 4096)) inside
  rw [Unblocked, walk_eq_pageWalk, page, Nat.mul_div_cancel n (by decide)] at met
  exact met

/-- With pages enough the mapping of one window is made. -/
theorem createPgdMapping_window (supplies : Supplies alloc pages) (sound : Sound pages root s)
    (window : Window virt size) (clear : ∀ va, InRange virt size va → Unblocked s.mem root va)
    (enough : rangeTables virt size ≤ (pages s.pool).length) (fueled : 512 ≤ fuel) :
    ∃ s', createPgdMapping alloc prot fuel (frameAddr root) phys virt size s = some s' ∧
      Extends pages root ((pageAlignDown virt).toNat / 4096)
        (endNat (pageAlignUp (virt + size)) / 4096) (pagePte phys virt prot)
        (rangeTables virt size) s s' := by
  -- The tables that are lacking are some of those that the range can need.
  have needed : (lacking s.mem root (rangePaths virt size)).card ≤ rangeTables virt size :=
    lacking_le_tablesNeeded _ _ _ _
  obtain ⟨s', ran, outcome⟩ := createPgdMapping_range phys prot supplies.provision sound window
    clear fueled
  exact ⟨s', ran, (outcome.traced (needed.trans enough)).toExtends.weaken needed⟩

/-- The walk of an address of the range ends at its entry. -/
theorem Extends.walk_inside {spent : Nat} {s' : Mm σ}
    (mapped : Extends pages root ((pageAlignDown virt).toNat / 4096)
      (endNat (pageAlignUp (virt + size)) / 4096) (pagePte phys virt prot) spent s s') {va : U64}
    (inside : InRange virt size va) : walk s'.mem root va = (0, rangePte phys virt prot va) := by
  obtain ⟨lower, upper⟩ := inside
  have start := rangeStart_pages virt
  have aligned := (rangeEnd_pages virt size).1
  have here := pageAlignDown_toNat va
  rw [walk_eq_pageWalk, mapped.mapped (va.toNat / 4096) (Nat.div_le_div_right lower) (by omega)]
  -- The pages before the address are the distance between the two rounded addresses.
  have distance : BitVec.ofNat 64
      ((va.toNat / 4096 - (pageAlignDown virt).toNat / 4096) * 4096) =
      pageAlignDown va - pageAlignDown virt := by
    apply BitVec.eq_of_toNat_eq
    have bound := (pageAlignDown va).isLt
    rw [BitVec.toNat_ofNat, BitVec.toNat_sub]
    omega
  rw [pagePte, distance]
  rfl

/-- The walk of any other address is kept. -/
theorem Extends.walk_outside {pte : Nat → U64} {spent : Nat} {s' : Mm σ}
    (mapped : Extends pages root ((pageAlignDown virt).toNat / 4096)
      (endNat (pageAlignUp (virt + size)) / 4096) pte spent s s') {va : U64}
    (apart : ∀ other, InRange virt size other → ¬ SameIndices va other) :
    Radix.Kept 0 (walk s.mem root va) (walk s'.mem root va) := by
  rw [walk_eq_pageWalk, walk_eq_pageWalk]
  apply mapped.others
  intro m lower upper same
  -- A page of the range with the same indices belongs to an address of the range.
  obtain ⟨page, inside⟩ := inRange_page lower upper
  apply apart (BitVec.ofNat 64 (m * 4096)) inside
  rw [sameIndices_iff, page, Nat.mul_div_cancel m (by decide)]
  exact same

/--
`__create_pgd_mapping` terminates, and the walk of every address of the range then ends in the
last level at the entry for its own page. An address with the same indices as one of the range is
remapped with it, all others translate as before, and no entry pointer is dereferenced outside its
table.
-/
theorem createPgdMapping_translates (supplies : Supplies alloc pages) (sound : Sound pages root s)
    (window : Window virt size) (clear : ∀ va, InRange virt size va → Unblocked s.mem root va)
    (enough : rangeTables virt size ≤ (pages s.pool).length) (fueled : 512 ≤ fuel) :
    ∃ s', createPgdMapping alloc prot fuel (frameAddr root) phys virt size s = some s' ∧
      createVsPgdMapping alloc prot fuel (frameAddr root) phys virt size s = some s' ∧
      (∀ va, InRange virt size va → walk s'.mem root va = (0, rangePte phys virt prot va)) ∧
      (∀ va other, InRange virt size other → SameIndices va other →
        walk s'.mem root va = (0, rangePte phys virt prot other)) ∧
      (∀ va, (∀ other, InRange virt size other → ¬ SameIndices va other) →
        (walk s'.mem root va).2 = (walk s.mem root va).2 ∧
        translate s'.mem root va = translate s.mem root va) ∧
      ∀ access ∈ s'.touched, access ∈ s.touched ∨ InTable access := by
  -- The call for the guest's tables is the same text, so one run serves both.
  obtain ⟨s', ran, mapped⟩ := createPgdMapping_window phys prot supplies sound window clear
    enough fueled
  refine ⟨s', ran, ran, fun _ inside => mapped.walk_inside phys prot inside, ?_,
    fun _ apart => translate_of_kept (mapped.walk_outside apart), mapped.touched⟩
  -- An alias is walked as the address of the range whose indices it has.
  intro va other inside same
  rw [same.walk_eq, mapped.walk_inside phys prot inside]

end Correct

/-! ### The supply of the kernel -/

/-- The free pages, in the order in which `get_free_page` finds them. -/
def PageAlloc.freePages (alloc : PageAlloc) : List U64 :=
  ((List.finRange nrPages).filter fun i => alloc.memMap i == 0).map alloc.pageAddr

/-- `early_pgtable_alloc` hands out the free pages in this order, as long as there are any. -/
theorem earlyPgtableAlloc_supplies : Supplies earlyPgtableAlloc PageAlloc.freePages := by
  refine ⟨fun mem alloc p rest supply => ?_⟩
  obtain ⟨i, others, filtered, rfl, rfl⟩ : ∃ i others,
      (List.finRange nrPages).filter (fun i => alloc.memMap i == 0) = i :: others ∧
        alloc.pageAddr i = p ∧ others.map alloc.pageAddr = rest :=
    List.map_eq_cons_iff.mp supply
  -- The free pages in front of it are none, and those behind are the rest.
  obtain ⟨front, back, split, taken, free, rfl⟩ := List.filter_eq_cons_iff.mp filtered
  -- The page that is handed out is the first one whose flag is clear.
  have found : alloc.firstFree = some i := by
    rw [PageAlloc.firstFree]
    exact List.find?_eq_some_iff_append.mpr ⟨free, front, back, split, by simpa using taken⟩
  have given := PageAlloc.getFreePage_some found
  have distinct : (front ++ i :: back).Nodup := split ▸ List.nodup_finRange nrPages
  obtain ⟨-, tail, apart⟩ := List.nodup_append.mp distinct
  simp only [earlyPgtableAlloc, given, true_and]
  -- With its flag set the page is no longer free, and the flags of the others are as before.
  have unflagged : ∀ j, j ≠ i → (alloc.setMap i 1).memMap j = alloc.memMap j :=
    fun j other => PageAlloc.setMap_other alloc 1 other
  have before : front.filter (fun j => (alloc.setMap i 1).memMap j == 0) = [] := by
    refine List.filter_eq_nil_iff.mpr fun j member => ?_
    rw [unflagged j (apart j member i List.mem_cons_self)]
    exact taken j member
  have after : back.filter (fun j => (alloc.setMap i 1).memMap j == 0) =
      back.filter fun j => alloc.memMap j == 0 := by
    refine List.filter_congr fun j member => ?_
    rw [unflagged j fun same => (List.nodup_cons.mp tail).1 (same ▸ member)]
  have flagged : ((alloc.setMap i 1).memMap i == 0) = false := by
    rw [PageAlloc.setMap_self]
    rfl
  rw [PageAlloc.freePages, split, List.filter_append, before, List.nil_append, List.filter_cons,
    flagged, if_neg Bool.false_ne_true, after]
  rfl

/-! ### A directory that starts empty -/

/-- An allocation function that hands out a list of pages. -/
def listed : AllocPgtable (List U64) := fun mem supply =>
  (supply.headD 0, clearPage mem (supply.headD 0), supply.tail)

theorem listed_supplies : Supplies listed id := by
  refine ⟨fun mem pool p rest supply => ?_⟩
  rw [id_eq] at supply
  -- The first page of the list is cleared and handed out.
  subst supply
  exact ⟨rfl, rfl, rfl⟩

/-- The page of `idmap_pg_dir`, with memory empty and two free pages behind it. -/
def idmapPgDir : Ppn := 0x80203

/-- The state before the first mapping is made. -/
def unmapped : Mm (List U64) :=
  { mem := fun _ => 0, pool := [frameAddr 0x80300, frameAddr 0x80301], touched := [] }

/-- The free pages are frames other than the directory. -/
theorem unmapped_fresh {root : Ppn} (first : 0x80300 ≠ root) (second : 0x80301 ≠ root) :
    ∀ p ∈ id unmapped.pool, ∃ page, p = frameAddr page ∧ page ≠ root := by
  intro p member
  -- There are two pages.
  rcases List.mem_cons.mp member with rfl | rest
  · exact ⟨_, rfl, first⟩
  · rw [List.mem_singleton.mp rest]
    exact ⟨_, rfl, second⟩

theorem unmapped_sound : Sound id idmapPgDir unmapped :=
  Sound.empty (fun _ => rfl) (by decide) (unmapped_fresh (by decide) (by decide))

theorem unmapped_unblocked (va : U64) : Unblocked unmapped.mem idmapPgDir va :=
  Or.inr (congrArg Prod.snd (walk_of_blank (fun _ => rfl) va))

/-- The mapping of the serial port translates its registers to themselves, in the upper half too. -/
theorem createPgdMapping_translates_uart :
    ∃ s', createPgdMapping listed pageKernel 512 (frameAddr idmapPgDir) 0x10000000 0x10000000
        0x1000 unmapped = some s' ∧ walk s'.mem idmapPgDir 0x10000005 = (0, 0x40000E7) ∧
      walk s'.mem idmapPgDir 0xFFFFFF8010000005 = (0, 0x40000E7) ∧
      translate s'.mem idmapPgDir 0x10001000 = none := by
  -- The device takes one page, with nothing mapped yet.
  have window : Window 0x10000000 0x1000 := ⟨by decide, by decide⟩
  have inside : InRange 0x10000000 0x1000 0x10000005 := ⟨by decide, by decide⟩
  obtain ⟨s', ran, _, mapped, aliases, others, _⟩ := createPgdMapping_translates 0x10000000
    pageKernel listed_supplies unmapped_sound window
    (fun va _ => unmapped_unblocked va) (by decide) (Nat.le_refl 512)
  refine ⟨s', ran, ?_, ?_, ?_⟩
  · rw [mapped 0x10000005 inside]
    decide
  · rw [aliases 0xFFFFFF8010000005 0x10000005 inside (sameIndices_iff.mpr (by decide))]
    decide
  · -- The next page has other indices than all of the range, and was not mapped before.
    have apart : ∀ other, InRange 0x10000000 0x1000 other → ¬ SameIndices 0x10001000 other := by
      intro other within same
      have lower : 0x10000000 ≤ other.toNat := within.1
      have upper : other.toNat < 0x10001000 := within.2
      have page := sameIndices_iff.mp same
      rw [show (0x10001000 : U64).toNat = 0x10001000 from rfl] at page
      omega
    rw [(others 0x10001000 apart).2, Sv39.translate, walk_of_blank (fun _ => rfl)]
    decide

/--
An address outside the range is not always left alone: mapping the page at 256 GiB also maps the
lowest page of the upper half, whose indices are the same.
-/
theorem createPgdMapping_moves_alias :
    ¬ ∀ (root : Ppn) (s : Mm (List U64)) (phys virt size prot : U64), Sound id root s →
      Window virt size → (∀ va, InRange virt size va → Unblocked s.mem root va) →
      rangeTables virt size ≤ s.pool.length →
      ∃ s', createPgdMapping listed prot 512 (frameAddr root) phys virt size s = some s' ∧
        ∀ va, ¬ InRange virt size va → translate s'.mem root va = translate s.mem root va := by
  intro claimed
  have window : Window 0x4000000000 0x1000 := ⟨by decide, by decide⟩
  obtain ⟨s', ran, kept⟩ := claimed idmapPgDir unmapped 0 0x4000000000 0x1000 pageKernel
    unmapped_sound window (fun va _ => unmapped_unblocked va) (by decide)
  obtain ⟨s'', ran', mapped⟩ := createPgdMapping_window 0 pageKernel listed_supplies
    unmapped_sound window (fun va _ => unmapped_unblocked va) (by decide)
    (Nat.le_refl 512)
  obtain rfl : s' = s'' := Option.some.inj (ran.symm.trans ran')
  have alias_ := kept 0xFFFFFFC000000000 (by decide)
  have page : (0xFFFFFFC000000000 : U64).toNat / 4096 % 2 ^ 27 = 2 ^ 26 % 2 ^ 27 := by decide
  -- Before the mapping nothing was mapped, and afterwards the address has the entry of the range.
  have before : walk unmapped.mem idmapPgDir 0xFFFFFFC000000000 = (2, 0) :=
    walk_of_blank (fun _ => rfl) _
  rw [Sv39.translate, Sv39.translate, before, walk_eq_pageWalk, pageWalk_congr page,
    mapped.mapped (2 ^ 26) (by decide) (by decide)] at alias_
  exact absurd alias_ (by decide)

end Benos
