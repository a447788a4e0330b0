import Benos.Mm.SectionMapped

/-! `create_page_table` leaves a directory with the sections of the kernel's memory. -/

namespace Benos

open Sv39

/-- Where the linker and `_start` put the directory, the kernel and the stack. -/
structure BootLayout (text : BootText) (h : Hart) (root : Ppn) : Prop where
  directory : text.idmapPgDir = frameAddr root
  /-- The two pages of the directory. -/
  pages : text.idmapPgEnd.toNat = text.idmapPgDir.toNat + 2 * 4096
  fits : root.toNat + 1 < 2 ^ 44
  inMemory : ddrBase.toNat ≤ text.textBoot.toNat ∧ text.textBoot.toNat < ddrEnd.toNat
  stack : Aligned (h.get .sp)
  /-- The return addresses of the two functions are saved elsewhere. -/
  apart : ∀ offset ∈ [(8 : U64), 24], ∀ index, h.get .sp - offset ≠ entryAddr root index ∧
    h.get .sp - offset ≠ entryAddr (root + 1) index

/-! ### The clearing -/

/-- `.loop1` with `n` words behind it, as seen from the start of the loop. -/
structure AtWord (dir : Nat) (before : Hart) (n : Nat) (h : Hart) : Prop where
  a0 : (h.get .a0).toNat = dir + 8 * n
  kept : ∀ r, r ≠ .a0 → h.get r = before.get r
  cleared : ∀ addr : U64, (∃ k < n, addr.toNat = dir + 8 * k) → h.mem addr = 0
  others : ∀ addr : U64, (∀ k < n, addr.toNat ≠ dir + 8 * k) → h.mem addr = before.mem addr

/-- One round of the loop clears one word. -/
theorem AtWord.round {dir n : Nat} {before h : Hart} (aligned : dir % 8 = 0)
    (low : dir + 8 * (n + 1) < 2 ^ 64) (at_ : AtWord dir before n h) :
    ∃ h', Hart.bootExecs loop1 h = some h' ∧ AtWord dir before (n + 1) h' := by
  have here := at_.a0
  have place : Aligned (h.get .a0) := by
    rw [Aligned, here]
    omega
  -- The word is stored, and the address moves on.
  obtain ⟨h₁, stored, mem, get⟩ :=
    @Hart.exec_sd_at h .zero .a0 0 _ (BitVec.add_zero (h.get .a0)) place
  rw [Hart.get_zero] at mem
  have eight : (8 : U64).toNat = 8 := rfl
  refine ⟨h₁.set .a0 (h₁.get .a0 + 8), ?_, ?_, ?_, ?_, ?_⟩
  · rw [loop1, Hart.bootExecs, Transition.run_cons, Hart.bootExec, stored, Option.bind_some,
      Transition.run_cons, Hart.bootExec, Hart.exec, Option.bind_some, Transition.run_nil]
  · rw [Hart.get_set_self _ _ (by decide), get, BitVec.toNat_add, here, eight]
    omega
  · intro r other
    rw [Hart.get_set_of_ne _ _ other, get, at_.kept r other]
  · rintro addr ⟨k, below, at_k⟩
    rw [Hart.mem_set, mem]
    by_cases now : addr = h.get .a0
    · rw [now, Function.update_self]
    · -- An earlier word has been cleared before.
      rw [Function.update_of_ne now]
      refine at_.cleared addr ⟨k, ?_, at_k⟩
      have last : k ≠ n := by
        rintro rfl
        exact now (BitVec.eq_of_toNat_eq (at_k.trans here.symm))
      omega
  · intro addr outside
    have now : addr ≠ h.get .a0 := by
      rintro rfl
      exact outside n (Nat.lt_succ_self n) here
    rw [Hart.mem_set, mem, Function.update_of_ne now]
    exact at_.others addr fun k below => outside k (by omega)

/-- `.loop1` clears the words up to the end. -/
theorem loop1_cleared {dir count fuel : Nat} {h : Hart} (starts : (h.get .a0).toNat = dir)
    (ends : (h.get .a1).toNat = dir + 8 * count) (aligned : dir % 8 = 0)
    (low : dir + 8 * count < 2 ^ 63) (some_ : 0 < count) (fueled : count ≤ fuel) :
    ∃ h', Hart.bltLoop loop1 .a0 .a1 fuel h = some h' ∧ AtWord dir h count h' := by
  have start : AtWord dir h 0 h :=
    ⟨starts, fun _ _ => rfl, fun _ ⟨_, below, _⟩ => absurd below (Nat.not_lt_zero _),
      fun _ _ => rfl⟩
  refine @Hart.bltLoop_invariant loop1 .a0 .a1 (AtWord dir h) count (fun {n h₁} more at_ => ?_)
    fuel 0 h some_ (by omega) start
  obtain ⟨h₂, ran, next⟩ := at_.round aligned (by omega)
  refine ⟨h₂, ran, next, ?_⟩
  -- The branch is taken as long as the next word is in front of the end.
  have address := next.a0
  have end_ : h₂.get .a1 = h.get .a1 := next.kept .a1 (by decide)
  rw [Hart.blt_iff (by omega) (by rw [end_]; omega), address, end_, ends]
  omega

/-- The words of the two pages of a directory are its entries. -/
theorem entryAddr_word {root : Ppn} (fits : root.toNat + 1 < 2 ^ 44) {k : Nat} (below : k < 1024) :
    ∃ page index, (page = root ∨ page = root + 1) ∧
      (entryAddr page index).toNat = (frameAddr root).toNat + 8 * k := by
  have next := (frameAddr_succ fits).1
  -- The first 512 words are the first page.
  rcases Nat.lt_or_ge k 512 with first | second
  · refine ⟨root, slot k, Or.inl rfl, ?_⟩
    rw [entryAddr_toNat, frameAddr_toNat, slot_toNat]
    omega
  · refine ⟨root + 1, slot (k - 512), Or.inr rfl, ?_⟩
    rw [entryAddr_toNat, frameAddr_toNat, slot_toNat, next]
    omega

/-- After the loop both pages are empty, and the rest of memory is as before. -/
theorem AtWord.blank {root : Ppn} (fits : root.toNat + 1 < 2 ^ 44) {before h : Hart}
    (done : AtWord (frameAddr root).toNat before 1024 h) :
    (∀ index, h.mem (entryAddr root index) = 0 ∧ h.mem (entryAddr (root + 1) index) = 0) ∧
      ∀ addr, (∀ index, addr ≠ entryAddr root index ∧ addr ≠ entryAddr (root + 1) index) →
        h.mem addr = before.mem addr := by
  have next := (frameAddr_succ fits).1
  refine ⟨fun index => ⟨done.cleared _ ⟨index.toNat, ?_, ?_⟩,
    done.cleared _ ⟨512 + index.toNat, ?_, ?_⟩⟩, fun addr outside => ?_⟩
  · omega
  · rw [entryAddr_toNat, frameAddr_toNat]
    omega
  · omega
  · rw [entryAddr_toNat, frameAddr_toNat, next]
    omega
  · refine done.others addr fun k below at_k => ?_
    -- An address that was cleared would be an entry.
    obtain ⟨page, index, inside, place⟩ := entryAddr_word fits below
    have same : addr = entryAddr page index := BitVec.eq_of_toNat_eq (at_k.trans place.symm)
    rcases inside with rfl | rfl
    · exact (outside index).1 same
    · exact (outside index).2 same

/-! ### The whole function -/

/-- The start of the section that holds the first instruction. -/
def BootText.start (text : BootText) : U64 := text.textBoot &&& sectionMask

/-- The start is a multiple of 2 MiB. -/
theorem BootText.start_toNat (text : BootText) :
    text.start.toNat = text.textBoot.toNat / 2 ^ 21 * 2 ^ 21 := by
  have mask : sectionMask = ~~~(BitVec.ofNat 64 (2 ^ 21 - 1)) := by decide
  rw [BootText.start, mask, Word.and_not_low_toNat _ 21 (by decide)]

/-- The arguments are the sections from the first instruction to the end of memory. -/
theorem arguments_set (text : BootText) (h : Hart) :
    ∃ h', Hart.bootExecs text.arguments h = some h' ∧ h'.mem = h.mem ∧
      h'.get .a0 = text.idmapPgDir ∧ h'.get .a1 = text.start ∧ h'.get .a2 = text.start ∧
      h'.get .a3 = ddrEnd ∧ h'.get .a4 = sectionKernelRwx ∧ h'.get .sp = h.get .sp := by
  -- The end of memory is a multiple of 2 MiB and is not rounded.
  have end_ : (ddrEnd + sectionSize - 1) &&& sectionMask = ddrEnd := by decide
  refine ⟨_, rfl, ?_, ?_, ?_, ?_, ?_, ?_, ?_⟩
  · simp
  · simp
  · simp [BootText.start]
  · simp [BootText.start]
  · simp only [Hart.get_set_self, Hart.get_set_of_ne, ne_eq, reduceCtorEq, not_false_eq_true]
    exact end_
  · simp
  · simp

/-- Clearing the directory leaves the return address in its place. -/
theorem clearing_cleared {text : BootText} {h : Hart} {root : Ppn} {fuel : Nat}
    (layout : BootLayout text h root) (fueled : 1024 ≤ fuel) :
    ∃ h₁ h₂, Hart.bootExecs text.clearing h = some h₁ ∧
      Hart.bltLoop loop1 .a0 .a1 fuel h₁ = some h₂ ∧ h₂.get .sp = h.get .sp - 16 ∧
      h₂.mem (h.get .sp - 8) = h.get .ra ∧
      ∀ index, h₂.mem (entryAddr root index) = 0 ∧ h₂.mem (entryAddr (root + 1) index) = 0 := by
  obtain ⟨h₁, saved, mem, sp, kept⟩ := prologue_saved layout.stack
  have base := layout.directory
  have bound := root.isLt
  have pages := layout.pages
  have frame := frameAddr_toNat root
  have fits := layout.fits
  rw [base] at pages
  -- The bounds of the loop are those of the directory.
  have run := @loop1_cleared (frameAddr root).toNat 1024 fuel
    ((h₁.set .a0 text.idmapPgDir).set .a1 text.idmapPgEnd) (by simp [base]) (by simp [pages])
    (by omega) (by omega) (by decide) fueled
  obtain ⟨h₂, loop, done⟩ := run
  obtain ⟨blank, others⟩ := done.blank fits
  refine ⟨_, h₂, ?_, loop, ?_, ?_, blank⟩
  · have whole : text.clearing = text.clearing.take 2 ++ text.clearing.drop 2 := rfl
    have front : Hart.bootExecs (text.clearing.take 2) h = some h₁ := saved
    rw [whole, Hart.bootExecs_append, front]
    rfl
  · rw [done.kept .sp (by decide)]
    simpa using sp
  · rw [others _ (layout.apart 8 (by decide))]
    simp [mem]

/-- The call of `__create_section_mapping` is one for sections of an empty directory. -/
theorem BootLayout.request {text : BootText} {h h₃ : Hart} {root : Ppn}
    (layout : BootLayout text h root)
    (blank : ∀ index, h₃.mem (entryAddr root index) = 0 ∧ h₃.mem (entryAddr (root + 1) index) = 0)
    (a0 : h₃.get .a0 = text.idmapPgDir) (a1 : h₃.get .a1 = text.start)
    (a2 : h₃.get .a2 = text.start) (a3 : h₃.get .a3 = ddrEnd)
    (a4 : h₃.get .a4 = sectionKernelRwx) (sp : h₃.get .sp = h.get .sp - 16) :
    SectionRequest h₃ root := by
  have start := text.start_toNat
  obtain ⟨lower, upper⟩ := layout.inMemory
  have base : ddrBase.toNat = 0x80000000 := by decide
  have end_ : ddrEnd.toNat = 0x81000000 := by decide
  -- The stack slot of the inner function lies below that of the outer one.
  have below : h₃.get .sp - 8 = h.get .sp - 24 := by
    rw [sp, BitVec.sub_sub]
    rfl
  -- The rights of the sections are those of a leaf.
  have permission : LeafProt sectionKernelRwx := ⟨by decide, by decide⟩
  have physical : text.start.toNat + (sectionsEnd ddrEnd - text.start.toNat) ≤ 2 ^ 56 := by
    rw [sectionsEnd, end_]
    omega
  -- The range is that of the memory, and fits into one entry of the root.
  refine ⟨a0.trans layout.directory, layout.fits, blank, ?_, ?_, ?_, ?_, ?_, ?_,
    a4.symm ▸ permission, ?_, ?_⟩
  · rw [a1]
    omega
  · rw [a2]
    omega
  · rw [a2, a3]
    omega
  · rw [a2, a3]
    omega
  · rw [a3]
    omega
  · rw [a1, a2, a3]
    exact physical
  · rw [sp]
    have sixteen : (16 : U64).toNat = 16 := rfl
    have stack := layout.stack
    unfold Aligned at *
    rw [BitVec.toNat_sub, sixteen]
    omega
  · rw [below]
    exact layout.apart 24 (by decide)

/--
`create_page_table` ends and returns with its stack, and the directory has a section for every
2 MiB from the first instruction to the end of memory, and nothing else.
-/
theorem createPageTable_sections {text : BootText} {h : Hart} {root : Ppn} {fuel : Nat}
    (layout : BootLayout text h root) (fueled : 1024 ≤ fuel) :
    ∃ h' call, createPageTable text fuel h = some h' ∧ h'.pc = h.get .ra ∧
      h'.get .sp = h.get .sp ∧ SectionRequest call root ∧ call.get .a1 = text.start ∧
      call.get .a2 = text.start ∧ call.get .a3 = ddrEnd ∧ call.get .a4 = sectionKernelRwx ∧
      Sectioned h'.mem root (text.start.toNat / 2 ^ 21) ((ddrEnd.toNat + (2 ^ 21 - 1)) / 2 ^ 21)
        (sectionPmd text.start sectionKernelRwx (text.start.toNat / 2 ^ 21)) := by
  obtain ⟨h₁, h₂, clearing, loop, sp₂, saved, blank⟩ := clearing_cleared layout fueled
  obtain ⟨h₃, arguments, mem₃, a0, a1, a2, a3, a4, sp₃⟩ := arguments_set text h₂
  have request := layout.request (mem₃ ▸ blank) a0 a1 a2 a3 a4 (sp₃.trans sp₂)
  have below : h₃.get .sp - 8 = h.get .sp - 24 := by
    rw [sp₃, sp₂, BitVec.sub_sub]
    rfl
  -- The call makes the sections and gives the stack back.
  obtain ⟨h₄, ran, -, sp₄, frame, sectioned⟩ :=
    createSectionMapping_sections request.call (Nat.le_trans (by decide) fueled)
  -- The return address of the outer function is still in its place.
  have place : h₄.get .sp + 8 = h.get .sp - 8 := by
    rw [sp₄, sp₃, sp₂, BitVec.sub_eq_add_neg, BitVec.sub_eq_add_neg, BitVec.add_assoc]
    rfl
  have other : h.get .sp - 8 ≠ h.get .sp - 24 := by
    intro same
    rw [BitVec.sub_eq_add_neg, BitVec.sub_eq_add_neg, BitVec.add_right_inj] at same
    exact absurd same (by decide)
  have outside := layout.apart 8 (by decide)
  have kept : h₄.mem (h.get .sp - 8) = h.get .ra := by
    rw [frame _ (below ▸ other) (fun index => (outside index).1) fun index => (outside index).2,
      mem₃, saved]
  obtain ⟨h₅, tail, mem₅, ra₅, sp₅⟩ := sectionTail_restored place layout.stack.sub_eight
  refine ⟨{ h₅ with pc := h₅.get .ra }, h₃, ?_, ?_, ?_, request, a1, a2, a3, a4, ?_⟩
  · exact Hart.chain clearing (Hart.chain loop (Hart.chain arguments (Hart.chain ran
      (Hart.chain tail rfl))))
  · exact ra₅.trans kept
  · show h₅.get .sp = _
    rw [sp₅, sp₄, sp₃, sp₂, BitVec.sub_add_cancel]
  · show Sectioned h₅.mem root _ _ _
    rw [a1, a2, a3, a4] at sectioned
    rwa [mem₅]

end Benos
