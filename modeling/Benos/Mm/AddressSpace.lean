import Benos.Lib.Overlay
import Benos.Mm.SectionRuns

/-! What a directory makes of all addresses at once, and what a run of mappings does to that. -/

namespace Benos

open Sv39

/-- Where an address leads: a physical address, and the attribute bits of the entry. -/
structure Mapped where
  physical : Nat
  attributes : BitVec 10
  deriving DecidableEq

/-- The address space of a directory, as its walks see it: they read 39 bits of an address. -/
def addressSpace (mem : Memory) (root : Ppn) (va : U64) : Option Mapped :=
  (translate mem root va).map fun (level, entry) => ⟨target level entry va, entry.setWidth 10⟩

/-- The address space of a hart, which walks for canonical addresses only. -/
def hartSpace (mem : Memory) (root : Ppn) (va : U64) : Option Mapped :=
  if canonical va then addressSpace mem root va else none

/-- The bytes of the pages of a range. -/
def rangeBytes (virt size : U64) : Nat :=
  endNat (pageAlignUp (virt + size)) - (pageAlignDown virt).toNat

/-- The part of an address space that a mapping makes, where 39 bits of an address count. -/
def rangePart (phys virt size prot va : U64) : Option Mapped :=
  let start := (pageAlignDown virt).toNat % 2 ^ 39
  let offset := va.toNat % 2 ^ 39 - start
  if start ≤ va.toNat % 2 ^ 39 ∧ offset < rangeBytes virt size then
    some ⟨(pageAlignDown phys).toNat + offset, prot.setWidth 10⟩
  else none

/-- A range with physical memory for it, and attributes of a leaf. -/
structure Mappable (phys virt size prot : U64) : Prop where
  window : Window virt size
  permission : LeafProt prot
  /-- Physical addresses have 56 bits. -/
  physical : (pageAlignDown phys).toNat + rangeBytes virt size ≤ 2 ^ 56

section Mapping

variable {phys virt size prot : U64}

/-- The entry of the last level for a page of a range leads where the range says. -/
theorem pagePte_place (mappable : Mappable phys virt size prot) {va : U64} {m : Nat}
    (lower : (pageAlignDown virt).toNat / 4096 ≤ m)
    (upper : m < endNat (pageAlignUp (virt + size)) / 4096)
    (same : va.toNat / 4096 % 2 ^ 27 = m % 2 ^ 27) :
    leaf (0, pagePte phys virt prot m) = some (0, pagePte phys virt prot m) ∧
      rangePart phys virt size prot va =
        some ⟨target 0 (pagePte phys virt prot m) va, (pagePte phys virt prot m).setWidth 10⟩ := by
  have physical := mappable.physical
  have one := mappable.window.one
  have start := rangeStart_pages virt
  have stop := rangeEnd_pages virt size
  have base := pageAlignDown_toNat phys
  rw [rangeBytes] at physical
  -- The physical address of the page does not wrap.
  have number : (pfnDown (pageAlignDown phys +
      BitVec.ofNat 64 ((m - (pageAlignDown virt).toNat / 4096) * 4096))).toNat =
      phys.toNat / 4096 + (m - (pageAlignDown virt).toNat / 4096) := by
    have address : (pageAlignDown phys +
        BitVec.ofNat 64 ((m - (pageAlignDown virt).toNat / 4096) * 4096)).toNat =
        (pageAlignDown phys).toNat + (m - (pageAlignDown virt).toNat / 4096) * 4096 := by
      rw [BitVec.toNat_add, BitVec.toNat_ofNat]
      omega
    rw [pfnDown_toNat, address]
    omega
  have fits : (pfnDown (pageAlignDown phys +
      BitVec.ofNat 64 ((m - (pageAlignDown virt).toNat / 4096) * 4096))).toNat < 2 ^ 44 := by
    rw [number]
    omega
  have isLeaf_ : isLeaf (pagePte phys virt prot m) = true :=
    mappable.permission.isLeaf_entry (Nat.lt_trans fits (by decide))
  have named : (ppn (pagePte phys virt prot m)).toNat =
      phys.toNat / 4096 + (m - (pageAlignDown virt).toNat / 4096) := by
    rw [pagePte, pfnPte, ppn_pfnEntry fits mappable.permission.low, number]
  have attributes : (pagePte phys virt prot m).setWidth 10 = prot.setWidth 10 := by
    apply BitVec.eq_of_getLsbD_eq
    intro i within
    rw [BitVec.getLsbD_setWidth, BitVec.getLsbD_setWidth, pagePte, pfnPte,
      pfnEntry_getLsbD (Nat.lt_trans fits (by decide)) mappable.permission.low within]
  have inside : (pageAlignDown virt).toNat % 2 ^ 39 ≤ va.toNat % 2 ^ 39 ∧
      va.toNat % 2 ^ 39 - (pageAlignDown virt).toNat % 2 ^ 39 < rangeBytes virt size := by
    rw [rangeBytes]
    omega
  -- A leaf of the last level is always aligned.
  refine ⟨by simp [leaf, isLeaf_, isAligned, Nat.mod_one], ?_⟩
  rw [rangePart, if_pos inside, attributes]
  refine congrArg some (congrArg (Mapped.mk · _) ?_)
  rw [target, named, Nat.pow_zero, Nat.div_one, Nat.mod_one]
  omega

/-- An address with no page of the range for its indices is none that the range maps. -/
theorem rangePart_outside (window : Window virt size) {va : U64}
    (apart : ∀ m, (pageAlignDown virt).toNat / 4096 ≤ m →
      m < endNat (pageAlignUp (virt + size)) / 4096 → va.toNat / 4096 % 2 ^ 27 ≠ m % 2 ^ 27) :
    rangePart phys virt size prot va = none := by
  have one := window.one
  have start := rangeStart_pages virt
  have stop := (rangeEnd_pages virt size).1
  -- The page at the distance of the address would be one of the range.
  refine if_neg fun ⟨above, below⟩ => apart ((pageAlignDown virt).toNat / 4096 +
    (va.toNat % 2 ^ 39 - (pageAlignDown virt).toNat % 2 ^ 39) / 4096) ?_ ?_ ?_
  all_goals
    rw [rangeBytes] at below
    omega

variable {σ : Type} {alloc : AllocPgtable σ} {pages : σ → List U64} {root : Ppn} {s : Mm σ}
  {fuel : Nat}

/-- The address space behind a mapping has the part of the mapping laid over what it was. -/
theorem Extends.addressSpace {spent : Nat} {s' : Mm σ}
    (mapped : Extends pages root ((pageAlignDown virt).toNat / 4096)
      (endNat (pageAlignUp (virt + size)) / 4096) (pagePte phys virt prot) spent s s')
    (mappable : Mappable phys virt size prot) (va : U64) :
    Benos.addressSpace s'.mem root va =
      (rangePart phys virt size prot va).or (Benos.addressSpace s.mem root va) := by
  -- The address has the indices of a page of the range, or of none.
  by_cases inside : ∃ m, (pageAlignDown virt).toNat / 4096 ≤ m ∧
      m < endNat (pageAlignUp (virt + size)) / 4096 ∧ va.toNat / 4096 % 2 ^ 27 = m % 2 ^ 27
  · obtain ⟨m, lower, upper, same⟩ := inside
    obtain ⟨found, part⟩ := pagePte_place mappable lower upper same
    have walked : walk s'.mem root va = (0, pagePte phys virt prot m) := by
      rw [walk_eq_pageWalk, pageWalk_congr same, mapped.mapped m lower upper]
    rw [Benos.addressSpace, Sv39.translate, walked, found, part, Option.some_or]
    rfl
  · have apart : ∀ m, (pageAlignDown virt).toNat / 4096 ≤ m →
        m < endNat (pageAlignUp (virt + size)) / 4096 →
        va.toNat / 4096 % 2 ^ 27 ≠ m % 2 ^ 27 :=
      fun m lower upper same => inside ⟨m, lower, upper, same⟩
    have kept := mapped.others _ apart
    rw [← walk_eq_pageWalk, ← walk_eq_pageWalk] at kept
    rw [rangePart_outside mappable.window apart, Option.none_or, Benos.addressSpace,
      Benos.addressSpace, (translate_of_kept kept).2]

/-- The part of the address space that a call makes. -/
def MapCall.part (call : MapCall) : U64 → Option Mapped :=
  rangePart call.phys call.virt call.size call.prot

/-- The tables that a run of calls can need. -/
def callTables (calls : List MapCall) : Nat :=
  (calls.map fun call => rangeTables call.virt call.size).sum

/-- What a run of calls does: each lays its part over the address space, and the rest stays. -/
structure Laid (pages : σ → List U64) (root : Ppn) (calls : List MapCall) (s s' : Mm σ) : Prop where
  sound : Sound pages root s'
  space : addressSpace s'.mem root =
    Overlay.overlay (calls.map MapCall.part) (addressSpace s.mem root)
  touched : ∀ access ∈ s'.touched, access ∈ s.touched ∨ InTable access
  /-- A table that was not there before is on a page of the supply. -/
  made : ∀ P page, P.length ≤ 2 → Radix.descend child (tables s'.mem) root P = some page →
    Radix.descend child (tables s.mem) root P = some page ∨ Unused pages s page
  spares : Radix.Spares child (tables s.mem) (tables s'.mem) root 2 (Unused pages s)
  supply : ∃ spent ≤ callTables calls, pages s'.pool = (pages s.pool).drop spent

namespace Laid

variable {calls : List MapCall} {s' : Mm σ}

/-- What is still to be handed out was so before. -/
theorem unused (laid : Laid pages root calls s s') (page : Ppn) (left : Unused pages s' page) :
    Unused pages s page := by
  obtain ⟨spent, _, rest⟩ := laid.supply
  rw [Unused, rest] at left
  exact List.mem_of_mem_drop left

/-- No call does nothing. -/
theorem nil (sound : Sound pages root s) : Laid pages root [] s s :=
  ⟨sound, rfl, fun _ => Or.inl, fun _ _ _ => Or.inl, Radix.Spares.refl, 0, Nat.zero_le _, rfl⟩

/-- One call and then the others. -/
theorem cons {Fine : σ → Prop} {call : MapCall} {mid : Mm σ}
    (first : Traced pages Fine root ((pageAlignDown call.virt).toNat / 4096)
      (endNat (pageAlignUp (call.virt + call.size)) / 4096)
      (pagePte call.phys call.virt call.prot) (rangePaths call.virt call.size) s mid)
    (mappable : Mappable call.phys call.virt call.size call.prot)
    (rest : Laid pages root calls mid s') : Laid pages root (call :: calls) s s' := by
  have unused := first.toExtends.unused
  -- The first call is laid below the others.
  refine ⟨rest.sound, ?_, fun access member => ?_, fun P page within located => ?_,
    first.spares.trans rest.spares unused, ?_⟩
  · rw [rest.space, List.map_cons, Overlay.overlay_cons]
    exact congrArg _ (funext (first.toExtends.addressSpace mappable))
  · rcases rest.touched access member with before | now
    · exact first.toExtends.touched access before
    · exact Or.inr now
  · rcases rest.made P page within located with before | made
    · exact (first.made P page within before).imp_right And.right
    · exact Or.inr (unused page made)
  · obtain ⟨spent, few, left⟩ := rest.supply
    refine ⟨(lacking s.mem root (rangePaths call.virt call.size)).card + spent, ?_, ?_⟩
    · rw [callTables, List.map_cons, List.sum_cons]
      exact Nat.add_le_add (lacking_le_tablesNeeded _ _ _ _) few
    · rw [left, first.taken, List.drop_drop]

end Laid

/-- A run of calls ends, and has done what it should. -/
theorem mapCalls_run (supplies : Supplies alloc pages) (fueled : 512 ≤ fuel)
    (sound : Sound pages root s) {calls : List MapCall}
    (mappable : ∀ call ∈ calls, Mappable call.phys call.virt call.size call.prot)
    (clear : ∀ call ∈ calls, ∀ va, InRange call.virt call.size va → Unblocked s.mem root va)
    (enough : callTables calls ≤ (pages s.pool).length) :
    ∃ s', Transition.run (mapStep alloc fuel root) calls s = some s' ∧
      Laid pages root calls s s' := by
  induction calls generalizing s with
  | nil => exact ⟨s, rfl, Laid.nil sound⟩
  | cons call rest ih =>
    obtain ⟨first, others⟩ := List.forall_mem_cons.mp mappable
    obtain ⟨here, onward⟩ := List.forall_mem_cons.mp clear
    rw [callTables, List.map_cons, List.sum_cons] at enough
    have needed : (lacking s.mem root (rangePaths call.virt call.size)).card ≤
        rangeTables call.virt call.size := lacking_le_tablesNeeded _ _ _ _
    obtain ⟨mid, ran, outcome⟩ := createPgdMapping_range call.phys call.prot supplies.provision
      sound first.window here fueled
    have mapped := outcome.traced (by omega)
    have step : mapStep alloc fuel root call s = some mid := by rw [mapStep, MapCall.run_eq, ran]
    -- No address becomes blocked, whether the call maps it or not.
    have unblocked : ∀ va, Unblocked s.mem root va → Unblocked mid.mem root va := by
      intro va clear_
      rw [Unblocked, walk_eq_pageWalk] at clear_ ⊢
      by_cases inside : ∃ m, (pageAlignDown call.virt).toNat / 4096 ≤ m ∧
          m < endNat (pageAlignUp (call.virt + call.size)) / 4096 ∧
          va.toNat / 4096 % 2 ^ 27 = m % 2 ^ 27
      · obtain ⟨m, lower, upper, same⟩ := inside
        rw [pageWalk_congr same, mapped.mapped m lower upper]
        exact Or.inl rfl
      · exact mapped.toExtends.clear
          (fun m lower upper same => inside ⟨m, lower, upper, same⟩) clear_
    obtain ⟨s', goes, laid⟩ := ih mapped.sound others
      (fun next member va inside => unblocked va (onward next member va inside))
      (by rw [mapped.taken, List.length_drop, callTables]; omega)
    refine ⟨s', ?_, Laid.cons mapped first laid⟩
    rw [Transition.run_cons, step, Option.bind_some, goes]

/--
What a run of mappings makes of the address space is what their parts say, each laid over those
before it. Mappings that do not overlap can be made in any order.
-/
theorem mapCalls_overlay (supplies : Supplies alloc pages) (fueled : 512 ≤ fuel)
    (sound : Sound pages root s) (calls : List MapCall)
    (mappable : ∀ call ∈ calls, Mappable call.phys call.virt call.size call.prot)
    (clear : ∀ call ∈ calls, ∀ va, InRange call.virt call.size va → Unblocked s.mem root va)
    (enough : callTables calls ≤ (pages s.pool).length) :
    ∃ s', Transition.run (mapStep alloc fuel root) calls s = some s' ∧
      addressSpace s'.mem root =
        Overlay.overlay (calls.map MapCall.part) (addressSpace s.mem root) ∧
      (∀ access ∈ s'.touched, access ∈ s.touched ∨ InTable access) ∧
      ∀ other, calls.Perm other → (calls.map MapCall.part).Pairwise Overlay.Apart →
        ∃ s'', Transition.run (mapStep alloc fuel root) other s = some s'' ∧
          addressSpace s''.mem root = addressSpace s'.mem root := by
  obtain ⟨s', ran, laid⟩ := mapCalls_run supplies fueled sound mappable clear enough
  refine ⟨s', ran, laid.space, laid.touched, fun other same apart => ?_⟩
  have sum : callTables calls = callTables other := by
    rw [callTables, callTables]
    exact (same.map _).sum_eq
  -- The other order has the same calls, so it needs as many tables.
  obtain ⟨s'', ran', laid'⟩ := mapCalls_run supplies fueled sound
    (fun call member => mappable call (same.mem_iff.mpr member))
    (fun call member => clear call (same.mem_iff.mpr member)) (sum ▸ enough)
  exact ⟨s'', ran', by rw [laid'.space, laid.space, Overlay.overlay_perm (same.map _) apart]⟩

end Mapping

theorem leafProt_pageKernel : LeafProt pageKernel := ⟨by decide, by decide⟩

/-- The mapping of the timer's registers. -/
def clintCall : MapCall := .direct 0x2000000 0x2000000 0x10000 pageKernel

theorem clintCall_mappable :
    Mappable clintCall.phys clintCall.virt clintCall.size clintCall.prot :=
  ⟨⟨by decide, by decide⟩, leafProt_pageKernel, by decide⟩

theorem uartCall_mappable : Mappable uartCall.phys uartCall.virt uartCall.size uartCall.prot :=
  ⟨uartCall_window, leafProt_pageKernel, by decide⟩

/-- Two devices are mapped in either order. -/
theorem mapCalls_overlay_devices :
    ∃ s' s'', Transition.run (mapStep earlyPgtableAlloc 512 idmapPgDir) [clintCall, uartCall]
        (unmappedWith 0) = some s' ∧
      Transition.run (mapStep earlyPgtableAlloc 512 idmapPgDir) [uartCall, clintCall]
        (unmappedWith 0) = some s'' ∧
      addressSpace s'.mem idmapPgDir 0x10000005 = some ⟨0x10000005, 0xE7⟩ ∧
      addressSpace s''.mem idmapPgDir = addressSpace s'.mem idmapPgDir := by
  have free : (unmappedWith 0).pool.freePages.length = 4096 := poolWith_zero_length
  have tables_ : callTables [clintCall, uartCall] = 4 := by decide
  obtain ⟨s', ran, space, _, swapped⟩ := mapCalls_overlay earlyPgtableAlloc_supplies
    (Nat.le_refl 512) (unmappedWith_sound 0) [clintCall, uartCall]
    (by simp [clintCall_mappable, uartCall_mappable]) (fun _ _ va _ => unmappedWith_unblocked 0 va)
    (by rw [free, tables_]; decide)
  have apart : ([clintCall, uartCall].map MapCall.part).Pairwise Overlay.Apart := by
    refine List.pairwise_pair.mpr fun va => ?_
    -- An address that the serial port covers lies above the timer.
    by_cases low : va.toNat % 2 ^ 39 < 0x10000000
    · exact Or.inr (if_neg fun inside => absurd inside.1 (Nat.not_le.mpr low))
    · refine Or.inl (if_neg fun ⟨_, below⟩ => ?_)
      have bytes : rangeBytes clintCall.virt clintCall.size = 0x10000 := by decide
      have start : (pageAlignDown clintCall.virt).toNat % 2 ^ 39 = 0x2000000 := by decide
      omega
  obtain ⟨s'', ran', same⟩ := swapped [uartCall, clintCall] (List.Perm.swap _ _ _) apart
  refine ⟨s', s'', ran, ran', ?_, same⟩
  rw [space]
  have covered : uartCall.part 0x10000005 = some ⟨0x10000005, 0xE7⟩ := by decide
  -- The serial port comes last.
  show Overlay.overlay ([clintCall.part] ++ uartCall.part :: []) _ _ = _
  exact Overlay.overlay_of_some covered fun _ none_ => absurd none_ List.not_mem_nil

end Benos
