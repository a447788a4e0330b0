import Benos.Mm.MappingCorrect
import Benos.Mm.Section

/-! What the boot code leaves in the two pages of the directory. -/

namespace Benos

open Sv39

namespace Hart

/-- A block in two parts runs one part after the other. -/
theorem bootExecs_append (first second : List BootInstr) (h : Hart) :
    bootExecs (first ++ second) h = (bootExecs first h).bind (bootExecs second) :=
  Transition.run_append bootExec first second h

/-- A store changes one word of memory and no register. -/
theorem exec_sd_at {h : Hart} {rs base : Reg} {offset addr : U64}
    (place : h.get base + offset = addr) (aligned : Aligned addr) :
    ∃ h', exec (.sd rs offset base) h = some h' ∧
      h'.mem = Function.update h.mem addr (h.get rs) ∧ ∀ r, h'.get r = h.get r := by
  subst place
  exact ⟨_, exec_sd aligned, rfl, fun _ => rfl⟩

/-- On numbers without a sign the comparison is that of addresses. -/
theorem blt_iff {h : Hart} {rs1 rs2 : Reg} (first : (h.get rs1).toNat < 2 ^ 63)
    (second : (h.get rs2).toNat < 2 ^ 63) :
    h.blt rs1 rs2 = true ↔ (h.get rs1).toNat < (h.get rs2).toNat := by
  rw [blt, BitVec.slt_eq_decide, decide_eq_true_eq, BitVec.toInt_eq_toNat_of_lt (by omega),
    BitVec.toInt_eq_toNat_of_lt (by omega), Int.ofNat_lt]

/-- A loop whose rounds are counted by an invariant ends when the count is full. -/
theorem bltLoop_invariant {block : List BootInstr} {rs1 rs2 : Reg} {Inv : Nat → Hart → Prop}
    {last : Nat}
    (round : ∀ {k h}, k < last → Inv k h → ∃ h', bootExecs block h = some h' ∧ Inv (k + 1) h' ∧
      (h'.blt rs1 rs2 = true ↔ k + 1 < last)) :
    ∀ {fuel k h}, k < last → last - k ≤ fuel → Inv k h →
      ∃ h', bltLoop block rs1 rs2 fuel h = some h' ∧ Inv last h' := by
  intro fuel
  -- One round of fuel pays for one round of the loop.
  induction fuel with
  | zero =>
    intro k h below fueled
    omega
  | succ fuel ih =>
    intro k h below fueled holds
    obtain ⟨h₁, ran, after, branches⟩ := round below holds
    rw [bltLoop, ran]
    rcases Nat.lt_or_ge (k + 1) last with more | done
    · obtain ⟨h', rest, finally_⟩ := ih more (by omega) after
      exact ⟨h', by simp only [branches.mpr more, if_true, rest], finally_⟩
    · -- The branch is not taken, and this was the last round.
      obtain rfl : k + 1 = last := by omega
      have falls : ¬ h₁.blt rs1 rs2 = true := fun taken =>
        absurd (branches.mp taken) (Nat.lt_irrefl _)
      exact ⟨h₁, by simp only [falls, if_false, Bool.false_eq_true], after⟩

end Hart

/-! ### One section -/

/-- The index of a section, in bytes, and the entry at that place. -/
theorem entryAddr_of_pmdIndex (table : Ppn) (va : U64) :
    frameAddr table + pmdIndex va <<< 3 = entryAddr table (slot (va.toNat / 2 ^ 21)) := by
  -- Eight bytes are three bits.
  have scaled : pmdIndex va <<< 3 = pmdIndex va * entrySize := by
    rw [BitVec.shiftLeft_eq_mul_twoPow]
    rfl
  rw [scaled]
  exact frameAddr_add (index_toNat rfl)

/-- Entries are words of their own. -/
theorem entryAddr_aligned (page : Ppn) (index : Index) : Aligned (entryAddr page index) := by
  rw [Aligned, entryAddr_toNat]
  omega

/-- An address in front of a page is none of its entries. -/
theorem ne_entryAddr_of_lt {addr : U64} {page : Ppn} (before : addr.toNat < page.toNat * 4096)
    (index : Index) : addr ≠ entryAddr page index := by
  rintro rfl
  rw [entryAddr_toNat] at before
  omega

/-- One round of `.loop2` writes one entry and steps to the next section. -/
theorem loop2_round {h : Hart} {table : Ppn} (base : h.get .a6 = frameAddr table) :
    ∃ h', Hart.bootExecs loop2 h = some h' ∧
      h'.mem = Function.update h.mem (entryAddr table (slot ((h.get .a2).toNat / 2 ^ 21)))
        (pfnEntry (pfnDown (h.get .a1)) (h.get .a4)) ∧
      h'.get .a1 = h.get .a1 + sectionSize ∧ h'.get .a2 = h.get .a2 + sectionSize ∧
      ∀ r, r ∉ [Reg.t0, .t1, .t2, .a1, .a2, .a7] → h'.get r = h.get r := by
  -- First the address and the entry are computed.
  obtain ⟨h₁, front, mem₁, value, address, others₁⟩ :
      ∃ h₁, Hart.bootExecs (loop2.take 8) h = some h₁ ∧ h₁.mem = h.mem ∧
        h₁.get .t1 = pfnEntry (pfnDown (h.get .a1)) (h.get .a4) ∧
        h₁.get .t2 = h.get .a6 + pmdIndex (h.get .a2) <<< 3 ∧
        ∀ r, r ∉ [Reg.t0, .t1, .t2, .a7] → h₁.get r = h.get r := by
    refine ⟨_, rfl, ?_, ?_, ?_, ?_⟩
    · simp
    · simp [pfnEntry, pfnDown]
    · simp [pmdIndex]
    · intro r other
      simp only [List.mem_cons, not_or, List.not_mem_nil, not_false_eq_true, and_true] at other
      simp [other]
  rw [base, entryAddr_of_pmdIndex] at address
  have place : h₁.get .t2 + 0 = entryAddr table (slot ((h.get .a2).toNat / 2 ^ 21)) :=
    (BitVec.add_zero _).trans address
  -- Then the entry is stored, and both addresses move on.
  obtain ⟨h₂, store, mem₂, get₂⟩ := @Hart.exec_sd_at h₁ .t1 .t2 0 _ place (entryAddr_aligned _ _)
  rw [mem₁, value] at mem₂
  have a1 := others₁ .a1 (by decide)
  have a2 := others₁ .a2 (by decide)
  have whole : loop2 = loop2.take 8 ++ loop2.drop 8 := (List.take_append_drop 8 loop2).symm
  rw [whole, Hart.bootExecs_append, front, Option.bind_some]
  show ∃ h', (Hart.exec (.sd .t1 0 .t2) h₁).bind (Hart.bootExecs (loop2.drop 9)) = some h' ∧ _
  rw [store, Option.bind_some]
  refine ⟨_, rfl, ?_, ?_, ?_, ?_⟩
  · simp [mem₂]
  · simp [get₂, a1]
  · simp [get₂, a2]
  · intro r other
    simp only [List.mem_cons, not_or, List.not_mem_nil, not_false_eq_true, and_true] at other
    simp [other, get₂, others₁ r]

/-- The entry of a section, counted from the first one. -/
def sectionPmd (phys prot : U64) (first n : Nat) : U64 :=
  pfnPmd (pfnDown (phys + BitVec.ofNat 64 ((n - first) * 2 ^ 21))) prot

/-- The loop at the start of section `n`, as seen from the start of the loop. -/
structure AtSection (table : Ppn) (first : Nat) (before : Hart) (n : Nat) (h : Hart) : Prop where
  a1 : h.get .a1 = before.get .a1 + BitVec.ofNat 64 ((n - first) * 2 ^ 21)
  a2 : (h.get .a2).toNat = n * 2 ^ 21
  kept : ∀ r, r ∉ [Reg.t0, .t1, .t2, .a1, .a2, .a7] → h.get r = before.get r
  filled : ∀ m, first ≤ m → m < n →
    h.mem (entryAddr table (slot m)) = sectionPmd (before.get .a1) (before.get .a4) first m
  others : ∀ addr, (∀ m, first ≤ m → m < n → addr ≠ entryAddr table (slot m)) →
    h.mem addr = before.mem addr

/-- Two sections of one region of 1 GiB have different entries. -/
theorem entryAddr_slot_ne {table : Ppn} {n m : Nat} (region : n / 512 = m / 512) (other : n ≠ m) :
    entryAddr table (slot n) ≠ entryAddr table (slot m) := by
  intro same
  have indices := slot_eq_iff.mp (entryAddr_injective same).2
  omega

/-- One round of the loop fills one section. -/
theorem AtSection.round {table : Ppn} {first n : Nat} {before h : Hart}
    (base : before.get .a6 = frameAddr table) (above : first ≤ n)
    (region : n / 512 = first / 512) (low : (n + 1) * 2 ^ 21 < 2 ^ 64)
    (at_ : AtSection table first before n h) :
    ∃ h', Hart.bootExecs loop2 h = some h' ∧ AtSection table first before (n + 1) h' := by
  have here : h.get .a6 = frameAddr table := (at_.kept .a6 (by decide)).trans base
  obtain ⟨h', ran, mem, a1, a2, kept⟩ := loop2_round here
  have prot := at_.kept .a4 (by decide)
  have place : (h.get .a2).toNat / 2 ^ 21 = n := by
    rw [at_.a2, Nat.mul_div_cancel _ (Nat.two_pow_pos 21)]
  rw [place, at_.a1, prot] at mem
  refine ⟨h', ran, ?_, ?_, ?_, ?_, ?_⟩
  · -- The physical address goes on by the size of a section.
    have step : (n + 1 - first) * 2 ^ 21 = (n - first) * 2 ^ 21 + 2 ^ 21 := by omega
    rw [a1, at_.a1, step, BitVec.ofNat_add, BitVec.add_assoc]
    rfl
  · have size : sectionSize.toNat = 2 ^ 21 := rfl
    rw [a2, BitVec.toNat_add, at_.a2, size]
    omega
  · intro r other
    rw [kept r other, at_.kept r other]
  · intro m lower upper
    rw [mem]
    by_cases last : m = n
    · rw [last, Function.update_self]
      rfl
    · -- An earlier entry is another one.
      have earlier : m / 512 = n / 512 := by
        have lowest : first / 512 ≤ m / 512 := Nat.div_le_div_right lower
        have highest : m / 512 ≤ n / 512 := Nat.div_le_div_right (by omega)
        omega
      rw [Function.update_of_ne (entryAddr_slot_ne earlier last)]
      exact at_.filled m lower (by omega)
  · intro addr outside
    rw [mem, Function.update_of_ne (outside n above (Nat.lt_succ_self n))]
    exact at_.others addr fun m lower upper => outside m lower (by omega)

/-- `.loop2` fills the sections that start before the end. -/
theorem loop2_sections {table : Ppn} {first last fuel : Nat} {h : Hart}
    (base : h.get .a6 = frameAddr table) (starts : (h.get .a2).toNat = first * 2 ^ 21)
    (ends : ∀ n, n * 2 ^ 21 < (h.get .a3).toNat ↔ n < last) (some_ : first < last)
    (region : (last - 1) / 512 = first / 512) (low : last ≤ 2 ^ 18) (fueled : 512 ≤ fuel) :
    ∃ h', Hart.bltLoop loop2 .a2 .a3 fuel h = some h' ∧ AtSection table first h last h' := by
  have start : AtSection table first h first h := by
    refine ⟨by simp, starts, fun _ _ => rfl, ?_, fun _ _ => rfl⟩
    intro m lower upper
    omega
  have stop : (h.get .a3).toNat ≤ last * 2 ^ 21 :=
    Nat.not_lt.mp (mt (ends last).mp (Nat.lt_irrefl last))
  have run := @Hart.bltLoop_invariant loop2 .a2 .a3
    (fun n h' => first ≤ n ∧ AtSection table first h n h') last ?_ fuel first h some_ (by omega)
    ⟨Nat.le_refl first, start⟩
  · obtain ⟨h', ran, -, done⟩ := run
    exact ⟨h', ran, done⟩
  · intro n h₁ more ⟨lower, at_⟩
    have middle : n / 512 = first / 512 := by
      have lowest : first / 512 ≤ n / 512 := Nat.div_le_div_right lower
      have highest : n / 512 ≤ (last - 1) / 512 := Nat.div_le_div_right (by omega)
      omega
    obtain ⟨h₂, ran, next⟩ := at_.round base lower middle (by omega)
    refine ⟨h₂, ran, ⟨by omega, next⟩, ?_⟩
    -- The branch is taken when the next section starts before the end.
    have address := next.a2
    have end_ := next.kept .a3 (by decide)
    rw [Hart.blt_iff (by omega) (by rw [end_]; omega), address, end_]
    exact ends (n + 1)

/-! ### The whole function -/

/-- The page behind a page of the physical address space. -/
theorem frameAddr_succ {root : Ppn} (fits : root.toNat + 1 < 2 ^ 44) :
    (root + 1).toNat = root.toNat + 1 ∧ frameAddr root + pageSize = frameAddr (root + 1) := by
  have one : (1 : Ppn).toNat = 1 := rfl
  have number : (root + 1).toNat = root.toNat + 1 := by
    rw [BitVec.toNat_add, one, Nat.mod_eq_of_lt fits]
  refine ⟨number, ?_⟩
  -- A frame number that does not wrap makes an address that does not wrap.
  apply BitVec.eq_of_toNat_eq
  rw [BitVec.toNat_add, frameAddr_toNat, frameAddr_toNat, number, pageSize_toNat]
  omega

/-- The two pages of a directory are different ones. -/
theorem ne_succ {root : Ppn} (fits : root.toNat + 1 < 2 ^ 44) : root ≠ root + 1 := by
  have next := (frameAddr_succ fits).1
  -- Their numbers differ by one.
  intro same
  rw [← same] at next
  omega

/-- Below 512 GiB the index of the directory needs no mask. -/
theorem entryAddr_of_pgdShift {root : Ppn} {va : U64} (low : va.toNat < 2 ^ 39) :
    frameAddr root + (va >>> pgdirShift) <<< 3 = entryAddr root (slot (va.toNat / 2 ^ 30)) := by
  have scaled : (va >>> pgdirShift) <<< 3 = (va >>> pgdirShift) * entrySize := by
    rw [BitVec.shiftLeft_eq_mul_twoPow]
    rfl
  -- Nothing is left above the nine bits of the index.
  have index : (va >>> pgdirShift).toNat = (slot (va.toNat / 2 ^ 30)).toNat := by
    rw [slot_toNat, pgdirShift, Word.ushiftRight_toNat]
    omega
  rw [scaled]
  exact frameAddr_add index

/-- A call of `__create_section_mapping` on an empty directory, for sections of one region. -/
structure SectionCall (h : Hart) (root : Ppn) (first last : Nat) : Prop where
  directory : h.get .a0 = frameAddr root
  fits : root.toNat + 1 < 2 ^ 44
  starts : (h.get .a2).toNat = first * 2 ^ 21
  ends : ∀ n, n * 2 ^ 21 < (h.get .a3).toNat ↔ n < last
  nonempty : first < last
  region : (last - 1) / 512 = first / 512
  low : last ≤ 2 ^ 18
  stack : Aligned (h.get .sp)
  apart : ∀ index, h.get .sp - 8 ≠ entryAddr root index ∧
    h.get .sp - 8 ≠ entryAddr (root + 1) index
  blank : ∀ index, h.mem (entryAddr root index) = 0 ∧ h.mem (entryAddr (root + 1) index) = 0

/-- The two pages of a directory in which nothing but sections has been mapped. -/
structure Sectioned (mem : Memory) (root : Ppn) (first last : Nat) (entry : Nat → U64) : Prop where
  top : mem (entryAddr root (slot (first / 512))) =
    pfnPgd (pfnDown (frameAddr (root + 1))) pageTable
  noTop : ∀ index, index ≠ slot (first / 512) → mem (entryAddr root index) = 0
  sections : ∀ n, first ≤ n → n < last → mem (entryAddr (root + 1) (slot n)) = entry n
  noSections : ∀ index, (∀ n, first ≤ n → n < last → index ≠ slot n) →
    mem (entryAddr (root + 1) index) = 0

/-- The place of the return address is aligned as the stack is. -/
theorem Aligned.sub_eight {sp : U64} (stack : Aligned sp) : Aligned (sp - 8) := by
  have eight : (8 : U64).toNat = 8 := rfl
  -- Eight divides the size of the address space, so wrapping does no harm.
  unfold Aligned at *
  rw [BitVec.toNat_sub, eight]
  omega

/-- A function starts by saving its return address below the stack of its caller. -/
theorem prologue_saved {h : Hart} (stack : Aligned (h.get .sp)) :
    ∃ h', Hart.bootExecs [.plain (.addi .sp .sp (-16)), .plain (.sd .ra 8 .sp)] h = some h' ∧
      h'.mem = Function.update h.mem (h.get .sp - 8) (h.get .ra) ∧
      h'.get .sp = h.get .sp - 16 ∧ ∀ r ≠ Reg.sp, h'.get r = h.get r := by
  have place : (h.set .sp (h.get .sp + -16)).get .sp + 8 = h.get .sp - 8 := by
    rw [Hart.get_set_self _ _ (by decide), BitVec.add_assoc, BitVec.sub_eq_add_neg]
    rfl
  -- The stack pointer goes down first, and the store is relative to it.
  obtain ⟨h', saved, mem, get⟩ := @Hart.exec_sd_at _ .ra .sp 8 _ place stack.sub_eight
  refine ⟨h', ?_, ?_, ?_, fun r other => ?_⟩
  · rw [Hart.bootExecs, Transition.run_cons, Hart.bootExec, Hart.exec, Option.bind_some,
      Transition.run_cons, Hart.bootExec, saved, Option.bind_some, Transition.run_nil]
  · rw [mem, Hart.mem_set, Hart.get_set_of_ne _ _ (by decide)]
  · rw [get, Hart.get_set_self _ _ (by decide)]
    exact (BitVec.sub_eq_add_neg _ _).symm
  · rw [get, Hart.get_set_of_ne _ _ other]

/-- The head of the function saves the return address and points the directory to the next page. -/
theorem sectionHead_filled {h : Hart} {root : Ppn} {first last : Nat}
    (call : SectionCall h root first last) :
    ∃ h', Hart.bootExecs sectionHead h = some h' ∧
      h'.mem = Function.update (Function.update h.mem (h.get .sp - 8) (h.get .ra))
        (entryAddr root (slot (first / 512))) (pfnPgd (pfnDown (frameAddr (root + 1))) pageTable) ∧
      h'.get .sp = h.get .sp - 16 ∧ h'.get .a6 = frameAddr (root + 1) ∧
      ∀ r ∈ [Reg.a1, .a2, .a3, .a4], h'.get r = h.get r := by
  -- The return address goes to the stack.
  obtain ⟨h₁, saved, mem₁, sp₁, kept₁⟩ := prologue_saved call.stack
  -- Then the address and the entry of the directory are computed.
  obtain ⟨h₂, middle, mem₂, value, address, base, others₂⟩ :
      ∃ h₂, Hart.bootExecs ((sectionHead.drop 2).take 8) h₁ = some h₂ ∧ h₂.mem = h₁.mem ∧
        h₂.get .t1 = pfnPgd (pfnDown (h₁.get .a0 + pageSize)) pageTable ∧
        h₂.get .t2 = h₁.get .a0 + (h₁.get .a2 >>> pgdirShift) <<< 3 ∧
        h₂.get .a6 = h₁.get .a0 + pageSize ∧
        ∀ r, r ∉ [Reg.t0, .t1, .t2, .a5, .a6] → h₂.get r = h₁.get r := by
    refine ⟨_, rfl, ?_, ?_, ?_, ?_, ?_⟩
    · simp
    · simp [pfnPgd, pfnEntry, pfnDown]
    · simp
    · simp
    · intro r other
      simp only [List.mem_cons, not_or, List.not_mem_nil, not_false_eq_true, and_true] at other
      simp [other]
  have a0 : h₁.get .a0 = frameAddr root := (kept₁ .a0 (by decide)).trans call.directory
  have a2 : h₁.get .a2 = h.get .a2 := kept₁ .a2 (by decide)
  -- The entry is the one of the first section's gigabyte.
  have region : (h.get .a2).toNat / 2 ^ 30 = first / 512 := by
    rw [call.starts]
    omega
  have low : (h.get .a2).toNat < 2 ^ 39 := by
    have below := call.nonempty
    have top := call.low
    rw [call.starts]
    omega
  rw [a0, (frameAddr_succ call.fits).2] at value base
  rw [a0, a2, entryAddr_of_pgdShift low, region] at address
  have place : h₂.get .t2 + 0 = entryAddr root (slot (first / 512)) :=
    (BitVec.add_zero _).trans address
  -- The last instruction stores it.
  obtain ⟨h₃, stored, mem₃, get₃⟩ := @Hart.exec_sd_at _ .t1 .t2 0 _ place (entryAddr_aligned _ _)
  refine ⟨h₃, ?_, ?_, ?_, ?_, ?_⟩
  · have whole : sectionHead = sectionHead.take 2 ++ ((sectionHead.drop 2).take 8 ++
        sectionHead.drop 10) := rfl
    have front : Hart.bootExecs (sectionHead.take 2) h = some h₁ := saved
    rw [whole, Hart.bootExecs_append, front, Option.bind_some, Hart.bootExecs_append, middle,
      Option.bind_some]
    show (Hart.exec (.sd .t1 0 .t2) h₂).bind some = _
    rw [stored, Option.bind_some]
  · rw [mem₃, value, mem₂, mem₁]
  · rw [get₃, others₂ .sp (by decide), sp₁]
  · rw [get₃, base]
  · intro r argument
    have outside : r ∉ [Reg.t0, .t1, .t2, .a5, .a6] ∧ r ≠ .sp := by
      revert r
      decide
    rw [get₃, others₂ r outside.1, kept₁ r outside.2]

/-- The end of a function takes the return address from the stack. -/
theorem sectionTail_restored {h : Hart} {place : U64} (slot_ : h.get .sp + 8 = place)
    (aligned : Aligned place) :
    ∃ h', Hart.bootExecs sectionTail h = some h' ∧ h'.mem = h.mem ∧
      h'.get .ra = h.mem place ∧ h'.get .sp = h.get .sp + 16 := by
  subst slot_
  -- The load comes first, from the stack as it was left.
  refine ⟨(h.set .ra (h.mem (h.get .sp + 8))).set .sp (h.get .sp + 16), ?_, ?_, ?_, ?_⟩
  · rw [sectionTail, Hart.bootExecs, Transition.run_cons, Hart.bootExec, Hart.exec_ld aligned,
      Option.bind_some, Transition.run_cons, Hart.bootExec, Hart.exec, Option.bind_some,
      Hart.get_set_of_ne _ _ (by decide), Transition.run_nil]
  · rw [Hart.mem_set, Hart.mem_set]
  · rw [Hart.get_set_of_ne _ _ (by decide), Hart.get_set_self _ _ (by decide)]
  · rw [Hart.get_set_self _ _ (by decide)]

/-- The sections of a region fill the page behind an empty directory. -/
theorem Sectioned.of_filled {mem mem' : Memory} {root : Ppn} {first last : Nat} {entry : Nat → U64}
    (fits : root.toNat + 1 < 2 ^ 44)
    (blank : ∀ index, mem (entryAddr root index) = 0 ∧ mem (entryAddr (root + 1) index) = 0)
    (top : mem' (entryAddr root (slot (first / 512))) =
      pfnPgd (pfnDown (frameAddr (root + 1))) pageTable)
    (sections : ∀ n, first ≤ n → n < last → mem' (entryAddr (root + 1) (slot n)) = entry n)
    (others : ∀ page index, page = root ∨ page = root + 1 →
      entryAddr page index ≠ entryAddr root (slot (first / 512)) →
      (∀ n, first ≤ n → n < last → entryAddr page index ≠ entryAddr (root + 1) (slot n)) →
      mem' (entryAddr page index) = mem (entryAddr page index)) :
    Sectioned mem' root first last entry := by
  have other := ne_succ fits
  refine ⟨top, ?_, sections, ?_⟩
  · -- An entry that was not written is as empty as before.
    intro index apart
    rw [others root index (Or.inl rfl), (blank index).1]
    · exact fun same => apart (entryAddr_injective same).2
    · exact fun n _ _ same => other (entryAddr_injective same).1
  · intro index apart
    rw [others (root + 1) index (Or.inr rfl), (blank index).2]
    · exact fun same => other (entryAddr_injective same).1.symm
    · exact fun n lower upper same => apart n lower upper (entryAddr_injective same).2

/-- `__create_section_mapping` ends, keeps its stack, and writes the entries of its sections. -/
theorem createSectionMapping_sections {h : Hart} {root : Ppn} {first last fuel : Nat}
    (call : SectionCall h root first last) (fueled : 512 ≤ fuel) :
    ∃ h', createSectionMapping fuel h = some h' ∧ h'.pc = h.get .ra ∧ h'.get .sp = h.get .sp ∧
      (∀ addr, addr ≠ h.get .sp - 8 → (∀ index, addr ≠ entryAddr root index) →
        (∀ index, addr ≠ entryAddr (root + 1) index) → h'.mem addr = h.mem addr) ∧
      Sectioned h'.mem root first last (sectionPmd (h.get .a1) (h.get .a4) first) := by
  obtain ⟨h₁, head, mem₁, sp₁, base, kept₁⟩ := sectionHead_filled call
  have a1 := kept₁ .a1 (by decide)
  have a2 := kept₁ .a2 (by decide)
  have a3 := kept₁ .a3 (by decide)
  have a4 := kept₁ .a4 (by decide)
  obtain ⟨h₂, loop, at_⟩ := loop2_sections base (a2 ▸ call.starts) (a3 ▸ call.ends) call.nonempty
    call.region call.low fueled
  -- The stack is no entry of either page, so the return address is still there.
  have place : h₂.get .sp + 8 = h.get .sp - 8 := by
    rw [at_.kept .sp (by decide), sp₁, BitVec.sub_eq_add_neg, BitVec.sub_eq_add_neg,
      BitVec.add_assoc]
    rfl
  obtain ⟨h₃, tail, mem₃, ra₃, sp₃⟩ := sectionTail_restored place call.stack.sub_eight
  have saved : h₂.mem (h.get .sp - 8) = h.get .ra := by
    rw [at_.others _ fun n _ _ => (call.apart (slot n)).2, mem₁,
      Function.update_of_ne (call.apart (slot (first / 512))).1, Function.update_self]
  refine ⟨{ h₃ with pc := h₃.get .ra }, ?_, ?_, ?_, ?_, ?_⟩
  · simp only [createSectionMapping, head, loop, tail, Option.bind_eq_bind, Option.bind_some]
  · exact ra₃.trans saved
  · show h₃.get .sp = _
    rw [sp₃, at_.kept .sp (by decide), sp₁, BitVec.sub_add_cancel]
  · -- Only the stack slot and entries of the two pages were written.
    intro addr notStack notRoot notNext
    show h₃.mem addr = _
    rw [mem₃, at_.others addr fun n _ _ => notNext (slot n), mem₁,
      Function.update_of_ne (notRoot (slot (first / 512))), Function.update_of_ne notStack]
  · show Sectioned h₃.mem root first last _
    rw [mem₃]
    -- The root has its entry, and the next page those of the sections.
    refine Sectioned.of_filled call.fits call.blank ?_ ?_ ?_
    · have apart : ∀ n, first ≤ n → n < last →
          entryAddr root (slot (first / 512)) ≠ entryAddr (root + 1) (slot n) :=
        fun n _ _ same => ne_succ call.fits (entryAddr_injective same).1
      rw [at_.others _ apart, mem₁, Function.update_self]
    · intro n lower upper
      rw [at_.filled n lower upper, a1, a4]
    · rintro page index inside notTop notSection
      rw [at_.others _ notSection, mem₁, Function.update_of_ne notTop, Function.update_of_ne]
      rcases inside with rfl | rfl
      · exact (call.apart index).1.symm
      · exact (call.apart index).2.symm

/-! ### The walks -/

/-- The pages of the sections, by their numbers, of which the walk reads 27 bits. -/
def InSlots (first last n : Nat) : Prop := first ≤ n % 2 ^ 27 / 2 ^ 9 ∧ n % 2 ^ 27 / 2 ^ 9 < last

namespace Sectioned

variable {mem : Memory} {root : Ppn} {first last : Nat} {entry : Nat → U64}
  (sectioned : Sectioned mem root first last entry)
  (ended : ∀ n, first ≤ n → n < last → child (entry n) = none)

include sectioned

/-- The only table below the root is the next page. -/
theorem child_top : child (mem (entryAddr root (slot (first / 512)))) = some (root + 1) := by
  rw [sectioned.top]
  exact child_pfnEntry (root + 1)

/-- The next page is reached from the root. -/
theorem descend_next :
    Radix.descend child (tables mem) root [slot (first / 512)] = some (root + 1) := by
  rw [Radix.descend, tables, sectioned.child_top]
  rfl

include ended

/-- Sections lead to no further table. -/
theorem child_next (index : Index) : child (mem (entryAddr (root + 1) index)) = none := by
  -- An entry of the next page is that of a section, or empty.
  by_cases used : ∃ n, first ≤ n ∧ n < last ∧ index = slot n
  · obtain ⟨n, lower, upper, rfl⟩ := used
    rw [sectioned.sections n lower upper]
    exact ended n lower upper
  · rw [sectioned.noSections index fun n lower upper same => used ⟨n, lower, upper, same⟩]
    exact child_zero

/-- The tables are the root and the next page. -/
theorem descend_cases {P : List Index} {page : Ppn}
    (located : Radix.descend child (tables mem) root P = some page) :
    P = [] ∧ page = root ∨ P = [slot (first / 512)] ∧ page = root + 1 := by
  cases P with
  | nil => exact Or.inl ⟨rfl, (Option.some.inj located).symm⟩
  | cons index rest =>
    by_cases top : index = slot (first / 512)
    · subst top
      rw [Radix.descend, tables, sectioned.child_top, Option.bind_some] at located
      cases rest with
      | nil => exact Or.inr ⟨rfl, (Option.some.inj located).symm⟩
      | cons next more =>
        -- No path goes on below the next page.
        rw [Radix.descend, tables, sectioned.child_next ended] at located
        cases located
    · rw [Radix.descend, tables, sectioned.noTop index top, child_zero] at located
      cases located

/-- The walk of a page in a section ends at the section. -/
theorem walk_inside (region : (last - 1) / 512 = first / 512) {n : Nat}
    (inside : InSlots first last n) :
    pageWalk mem root n = (1, entry (n % 2 ^ 27 / 2 ^ 9)) := by
  obtain ⟨lower, upper⟩ := inside
  -- All sections share the entry of the root.
  have top : slot (n / 2 ^ 18) = slot (first / 512) := by
    rw [slot_eq_iff]
    omega
  have place : slot (n / 2 ^ 9) = slot (n % 2 ^ 27 / 2 ^ 9) := by
    rw [slot_eq_iff]
    omega
  have path : [slot (n / 2 ^ 18), slot (n / 2 ^ 9), slot n] =
      [slot (first / 512)] ++ slot (n / 2 ^ 9) :: slot n :: [] := by
    rw [top]
    rfl
  rw [pageWalk_blocked path sectioned.descend_next (sectioned.child_next ended _), place,
    sectioned.sections _ lower upper]
  rfl

/-- The walk of any other page ends at an empty entry. -/
theorem walk_outside (region : (last - 1) / 512 = first / 512) (low : last ≤ 2 ^ 18) {n : Nat}
    (outside : ¬ InSlots first last n) : (pageWalk mem root n).2 = 0 := by
  by_cases top : slot (n / 2 ^ 18) = slot (first / 512)
  · have path : [slot (n / 2 ^ 18), slot (n / 2 ^ 9), slot n] =
        [slot (first / 512)] ++ slot (n / 2 ^ 9) :: slot n :: [] := by
      rw [top]
      rfl
    rw [pageWalk_blocked path sectioned.descend_next (sectioned.child_next ended _)]
    refine sectioned.noSections _ fun m lower upper same => outside ?_
    -- In the same region a section with the same index is the same section.
    have tops := slot_eq_iff.mp top
    have indices := slot_eq_iff.mp same
    have lowest : first / 512 ≤ m / 512 := Nat.div_le_div_right lower
    have highest : m / 512 ≤ (last - 1) / 512 := Nat.div_le_div_right (by omega)
    have number : n % 2 ^ 27 / 2 ^ 9 = m := by omega
    rw [InSlots, number]
    exact ⟨lower, upper⟩
  · have path : [slot (n / 2 ^ 18), slot (n / 2 ^ 9), slot n] =
        [] ++ slot (n / 2 ^ 18) :: slot (n / 2 ^ 9) :: [slot n] := rfl
    have empty := sectioned.noTop _ top
    rw [pageWalk_blocked path rfl (by rw [empty]; exact child_zero)]
    exact empty

end Sectioned

/-- With pages that are neither of the two the directory is a sound place to go on from. -/
theorem Sectioned.sound {σ : Type} {pages : σ → List U64} {s : Mm σ} {root : Ppn}
    {first last : Nat} {entry : Nat → U64} (fits : root.toNat + 1 < 2 ^ 44)
    (sectioned : Sectioned s.mem root first last entry)
    (ended : ∀ n, first ≤ n → n < last → child (entry n) = none) (distinct : (pages s.pool).Nodup)
    (fresh : ∀ p ∈ pages s.pool, ∃ page, p = frameAddr page ∧ page ≠ root ∧ page ≠ root + 1) :
    Sound pages root s := by
  refine ⟨?_, distinct, ?_⟩
  · -- Each of the two tables has one path.
    intro P Q page _ _ locatedP locatedQ
    rcases sectioned.descend_cases ended locatedP with ⟨rfl, rfl⟩ | ⟨rfl, rfl⟩
    · rcases sectioned.descend_cases ended locatedQ with ⟨rfl, -⟩ | ⟨-, same⟩
      · rfl
      · exact absurd same (ne_succ fits)
    · rcases sectioned.descend_cases ended locatedQ with ⟨-, same⟩ | ⟨rfl, -⟩
      · exact absurd same.symm (ne_succ fits)
      · rfl
  · intro p member
    obtain ⟨page, frame, notRoot, notNext⟩ := fresh p member
    refine ⟨page, frame, fun P _ located => ?_⟩
    rcases sectioned.descend_cases ended located with ⟨-, same⟩ | ⟨-, same⟩
    · exact notRoot same
    · exact notNext same

end Benos
