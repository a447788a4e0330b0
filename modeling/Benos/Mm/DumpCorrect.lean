import Benos.Lib.Spans
import Benos.Mm.Dump
import Benos.Mm.MappingLoops

/-! The page-table dump says of every address what the hardware walk finds there. -/

namespace Benos

open Sv39

/-! ### The attributes -/

/-- A part of a word adds nothing to it. -/
theorem or_and_self_left (x y : U64) : x ||| (x &&& y) = x := by
  ext i
  simp only [BitVec.getElem_or, BitVec.getElem_and]
  cases x[i] <;> rfl

/-- What is in a mask stays in it when others are added. -/
theorem foldl_mask_kept {x : U64} (bits : List ProtBits) {mask : U64} (inside : mask &&& x = x) :
    bits.foldl (fun mask bits => mask ||| bits.mask) mask &&& x = x := by
  induction bits generalizing mask with
  | nil => exact inside
  | cons first rest ih =>
    refine ih ?_
    rw [BitVec.and_comm, BitVec.and_or_distrib_left, BitVec.and_comm x mask, inside]
    -- Adding a part of it changes nothing.
    exact or_and_self_left x first.mask

/-- After `pg_level_init` the mask of a level has all the bits of its attributes. -/
theorem pgLevelInit_mask (masks : Nat → U64) (level : Nat) {bits : ProtBits}
    (known : bits ∈ pteBits) : pgLevelInit masks level &&& bits.mask = bits.mask := by
  obtain ⟨before, behind, split⟩ := List.append_of_mem known
  rw [pgLevelInit, split, List.foldl_append, List.foldl_cons]
  -- What comes after the bits in the list only adds to the mask.
  refine foldl_mask_kept behind ?_
  rw [BitVec.and_comm, BitVec.and_or_distrib_left, BitVec.and_self, BitVec.or_comm]
  exact or_and_self_left bits.mask _

/-- So masking an entry with it loses no attribute. -/
theorem dumpProt_masked (masks : Nat → U64) (level : Nat) (val : U64) :
    dumpProt (val &&& pgLevelInit masks level) = dumpProt val := by
  refine List.map_congr_left fun bits known => ?_
  rw [BitVec.and_assoc, pgLevelInit_mask masks level known]

/-! ### The unit -/

/-- The loop over units ends for every size that is not zero, and keeps the size. -/
theorem unitLoop_some {fuel : Nat} {delta : U64} (unit : Nat) (nonzero : delta.toNat ≠ 0)
    (small : delta.toNat < 1024 ^ fuel) :
    ∃ delta' shifts, unitLoop fuel delta unit = some (delta', unit + shifts) ∧
      delta.toNat = delta'.toNat * 1024 ^ shifts := by
  induction fuel generalizing delta unit with
  | zero => omega
  | succ fuel ih =>
    have low : (delta &&& 1023).toNat = delta.toNat % 1024 :=
      Word.and_low_toNat delta 10 (by decide)
    have shifted : (delta >>> 10).toNat = delta.toNat / 1024 := Word.ushiftRight_toNat delta 10
    rw [unitLoop]
    split
    · rename_i multiple
      rw [multiple] at low
      have even : delta.toNat % 1024 = 0 := low.symm
      -- The size is a multiple of the next unit, which is not zero either.
      rw [Nat.pow_succ] at small
      obtain ⟨delta', shifts, ran, size⟩ :=
        @ih (delta >>> 10) (unit + 1) (by rw [shifted]; omega) (by rw [shifted]; omega)
      refine ⟨delta', shifts + 1, by rw [ran, Nat.add_assoc, Nat.add_comm 1], ?_⟩
      rw [Nat.pow_succ, ← Nat.mul_assoc, ← size, shifted]
      omega
    · exact ⟨delta, 0, rfl, by simp⟩

/-! ### What is reported -/

/-- The range a line is about. -/
def Line.report : Line → Option Report
  | .marker _ => none
  | .range report => some report

/-- The lines about ranges. -/
def Dump.reports (d : Dump) : List Report := d.lines.filterMap Line.report

/-- What a line says of its range. -/
def Report.span (r : Report) : Spans.Span (String × List String) :=
  { lo := r.start.toNat, hi := r.end_.toNat, label := (r.name, r.prot) }

/-- The size of the range is the one that is printed. -/
def Report.Sized (r : Report) : Prop :=
  r.end_.toNat = r.start.toNat + r.delta.toNat * 1024 ^ (r.unit + 1)

/-- A walk that ends at a last-level entry that is not zero, or at a leaf above it. -/
def Resolved (ended : Nat × U64) : Prop :=
  ended.1 = 0 ∧ ended.2 ≠ 0 ∨ ended.1 = 1 ∧ pmdLeaf ended.2 = true

instance (ended : Nat × U64) : Decidable (Resolved ended) :=
  inferInstanceAs (Decidable (_ ∨ _))

/-- What there is to say of the entry that a walk ends at. -/
def told (ended : Nat × U64) : Option (String × List String) :=
  if Resolved ended then some (pgLevelName (2 - ended.1), dumpProt ended.2) else none

/-- What there is to say of an address. -/
def shown (mem : Memory) (root : Ppn) (addr : Nat) : Option (String × List String) :=
  told (pageWalk mem root (addr / 4096))

/-- A part of the dump that tells the pages of a range. -/
structure Told (mem : Memory) (root : Ppn) (lo hi : Nat) (d d' : Dump) : Prop where
  reports : ∃ more, d'.reports = d.reports ++ more ∧
    Spans.Tells (shown mem root) (lo * 4096) (hi * 4096) (more.map Report.span) ∧
    ∀ r ∈ more, r.Sized
  touched : ∀ access ∈ d'.touched, access ∈ d.touched ∨ InTree mem root access

namespace Told

variable {mem : Memory} {root : Ppn} {lo mid hi : Nat} {d d' d'' : Dump}

/-- Two parts next to each other. -/
theorem trans (first : Told mem root lo mid d d') (second : Told mem root mid hi d' d'')
    (lower : lo ≤ mid) (upper : mid ≤ hi) : Told mem root lo hi d d'' := by
  obtain ⟨early, added, tells, sized⟩ := first.reports
  obtain ⟨late, added', tells', sized'⟩ := second.reports
  -- The second part goes on where the first one has stopped.
  refine ⟨⟨early ++ late, ?_, ?_, ?_⟩, ?_⟩
  · rw [added', added, List.append_assoc]
  · rw [List.map_append]
    exact tells.append tells' (by omega) (by omega)
  · intro r member
    rcases List.mem_append.mp member with before | behind
    · exact sized r before
    · exact sized' r behind
  · intro access member
    rcases second.touched access member with middle | inside
    · exact first.touched access middle
    · exact Or.inr inside

/-- Reading an entry of the tree before a part of the dump. -/
theorem touch {P : List Index} {page : Ppn} (index : Index) (short : P.length ≤ 2)
    (located : Radix.descend child (tables mem) root P = some page)
    (part : Told mem root lo hi (d.touch (frameAddr page) (entryAddr page index)) d') :
    Told mem root lo hi d d' := by
  refine ⟨part.reports, fun access member => ?_⟩
  -- The entry read in front belongs to a table that the root leads to.
  rcases part.touched access member with before | inside
  · rcases List.mem_cons.mp before with rfl | older
    · exact Or.inr ⟨P, page, index, short, located, rfl, rfl⟩
    · exact Or.inl older
  · exact Or.inr inside

end Told

/-- The marker at an address is no report. -/
theorem reports_markers (start : U64) :
    ((addressMarkers.filter fun marker => start == marker.startAddress).map
      fun marker => Line.marker marker.name).filterMap Line.report = [] := by
  rw [List.filterMap_map]
  exact List.filterMap_eq_nil_iff.mpr fun _ _ => rfl

/-- An entry that all walks of a range end at is reported for that range, unless it is zero. -/
theorem printPgtable_told {mem : Memory} {root : Ppn} {lo hi fuel level : Nat} {start end_ val : U64}
    (masks : Nat → U64) (d : Dump) (fueled : 3 ≤ fuel) (some_ : lo < hi) (small : hi ≤ 2 ^ 27)
    (starts : start.toNat = lo * 4096) (ends : end_.toNat = hi * 4096)
    (walks : ∀ n, lo ≤ n → n < hi → pageWalk mem root n = (2 - level, val)) (known : level ≤ 2)
    (resolved : val ≠ 0 → Resolved (2 - level, val)) :
    ∃ d', printPgtable (pgLevelInit masks) fuel start end_ level val d = some d' ∧
      Told mem root lo hi d d' := by
  have spoken : ∀ a, lo * 4096 ≤ a → a < hi * 4096 → shown mem root a = told (2 - level, val) := by
    intro a above below
    rw [shown, walks (a / 4096) (by omega) (by omega)]
  rw [printPgtable]
  dsimp only
  by_cases empty : val = 0
  · rw [if_pos empty]
    refine ⟨_, rfl, ⟨[], ?_, Spans.Tells.nil fun a above below => ?_, by simp⟩, fun _ => Or.inl⟩
    · simp only [Dump.reports, List.filterMap_append, reports_markers, List.append_nil]
    · rw [spoken a above below, told, if_neg]
      simp [Resolved, empty, pmdLeaf, pmdPresent]
  · rw [if_neg empty]
    -- The size is a number of pages that is not zero, so a unit is found for it.
    have distance : ((end_ - start) >>> 10).toNat = (hi - lo) * 4 := by
      have bound := start.isLt
      rw [Word.ushiftRight_toNat, BitVec.toNat_sub, starts, ends]
      omega
    have grown : 1024 ^ 3 ≤ 1024 ^ fuel := Nat.pow_le_pow_right (by decide) fueled
    obtain ⟨delta, shifts, ran, size⟩ :=
      unitLoop_some 0 (show ((end_ - start) >>> 10).toNat ≠ 0 by omega)
        (show ((end_ - start) >>> 10).toNat < 1024 ^ fuel by omega)
    rw [ran, Option.map_some]
    let r : Report :=
      { start, end_, delta
        unit := 0 + shifts
        name := pgLevelName level
        prot := dumpProt (val &&& pgLevelInit masks level) }
    refine ⟨_, rfl, ⟨[r], ?_, ?_, ?_⟩, fun _ => Or.inl⟩
    · simp only [Dump.reports, List.filterMap_append, reports_markers, List.append_nil]
      rfl
    · -- The range and the attributes are those of the entry.
      have label : told (2 - level, val) = some (pgLevelName level, dumpProt val) := by
        rw [told, if_pos (resolved empty), Nat.sub_sub_self known]
      have span : r.span = ⟨lo * 4096, hi * 4096, (pgLevelName level, dumpProt val)⟩ := by
        rw [Report.span, starts, ends, ← dumpProt_masked masks level val]
      rw [List.map_singleton, span]
      refine Spans.Tells.single (by omega) fun a above below => ?_
      rw [spoken a above below, label]
    · intro r member
      obtain rfl := List.mem_singleton.mp member
      show end_.toNat = start.toNat + delta.toNat * 1024 ^ (0 + shifts + 1)
      rw [starts, ends, Nat.zero_add, Nat.pow_succ, ← Nat.mul_assoc, ← size, distance]
      omega

/-! ### The loops -/

/-- A walk that is led to a table of the last level ends there. -/
theorem pageWalk_last {mem : Memory} {root table : Ppn} {n : Nat}
    (located : Radix.descend child (tables mem) root [slot (n / 2 ^ 18), slot (n / 2 ^ 9)] =
      some table) : pageWalk mem root n = (0, tables mem table (slot n)) := by
  have path : [slot (n / 2 ^ 18), slot (n / 2 ^ 9), slot n] =
      [slot (n / 2 ^ 18), slot (n / 2 ^ 9)] ++ slot n :: [] := rfl
  rw [pageWalk, Radix.walk_of_descend (slot n) [] path located, Radix.walk]

section Loops

variable {mem : Memory} {root : Ppn} (masks : Nat → U64)

/-- The page after a page within the space. -/
theorem next_page {addr : U64} {n : Nat} (at_ : addr.toNat = n * 4096) (small : n < 2 ^ 27) :
    (addr + pageSize).toNat = (n + 1) * 4096 := by
  rw [BitVec.toNat_add, pageSize_toNat]
  omega

/-- An entry of the last level is told for its page. -/
theorem printPte_told {table : Ppn} {fuel n : Nat} {addr next : U64} (d : Dump) (fueled : 3 ≤ fuel)
    (small : n < 2 ^ 27) (at_ : addr.toNat = n * 4096) (ends : next.toNat = (n + 1) * 4096)
    (located : Radix.descend child (tables mem) root [slot (n / 2 ^ 18), slot (n / 2 ^ 9)] =
      some table) :
    ∃ d', printPgtable (pgLevelInit masks) fuel addr next 2 (mem (entryAddr table (slot n)))
        (d.touch (frameAddr table) (entryAddr table (slot n))) = some d' ∧
      Told mem root n (n + 1) d d' := by
  obtain ⟨d', printed, part⟩ := printPgtable_told masks
    (d.touch (frameAddr table) (entryAddr table (slot n))) fueled (Nat.lt_succ_self n) small at_ ends
    (fun m above below => by
      obtain rfl : m = n := by omega
      exact pageWalk_last located)
    (Nat.le_refl 2) (fun some_ => Or.inl ⟨rfl, some_⟩)
  -- Reading the entry was an access to a table of the tree.
  have short : [slot (n / 2 ^ 18), slot (n / 2 ^ 9)].length ≤ 2 := Nat.le_refl 2
  exact ⟨d', printed, part.touch (slot n) short located⟩

/-- The loop of `walk_pte` tells one page after the other. -/
theorem walkPteLoop_told {table : Ppn} (count : Nat) :
    ∀ {fuel lo hi : Nat} {addr end_ : U64} (d : Dump), hi = lo + (count + 1) →
      count + 3 < fuel → hi ≤ 2 ^ 27 → hi ≤ (lo / 2 ^ 9 + 1) * 2 ^ 9 →
      addr.toNat = lo * 4096 → end_.toNat = hi * 4096 →
      Radix.descend child (tables mem) root [slot (lo / 2 ^ 18), slot (lo / 2 ^ 9)] = some table →
      ∃ d', walkPteLoop mem (pgLevelInit masks) fuel (frameAddr table) (entryAddr table (slot lo))
          addr end_ d = some d' ∧ Told mem root lo hi d d' := by
  -- One round tells page `lo`; the others are the loop from the next page on.
  induction count with
  | zero =>
    intro fuel lo hi addr end_ d range fueled small within at_ ends located
    obtain ⟨fuel, rfl⟩ : ∃ k, fuel = k + 1 := ⟨fuel - 1, by omega⟩
    have next : (addr + pageSize).toNat = (lo + 1) * 4096 := next_page at_ (by omega)
    -- The next address is the end, and the loop stops.
    have last : addr + pageSize = end_ := BitVec.eq_of_toNat_eq (by rw [next, ends, range])
    obtain ⟨d₁, printed, part⟩ := printPte_told masks d (show 3 ≤ fuel by omega)
      (show lo < 2 ^ 27 by omega) at_ next located
    refine ⟨d₁, ?_, range ▸ part⟩
    rw [last] at printed
    simp only [walkPteLoop, printed, last, bne_self_eq_false, Bool.false_eq_true, if_false]
  | succ count ih =>
    intro fuel lo hi addr end_ d range fueled small within at_ ends located
    obtain ⟨fuel, rfl⟩ : ∃ k, fuel = k + 1 := ⟨fuel - 1, by omega⟩
    have next : (addr + pageSize).toNat = (lo + 1) * 4096 := next_page at_ (by omega)
    -- The next address is not the end yet.
    have more : addr + pageSize ≠ end_ := by
      intro same
      rw [same, ends] at next
      omega
    obtain ⟨d₁, printed, part⟩ := printPte_told masks d (show 3 ≤ fuel by omega)
      (show lo < 2 ^ 27 by omega) at_ next located
    -- The next page shares both directory entries with this one.
    have sameMiddle : (lo + 1) / 2 ^ 9 = lo / 2 ^ 9 := by omega
    have sameTop : (lo + 1) / 2 ^ 18 = lo / 2 ^ 18 := by omega
    rw [← sameMiddle, ← sameTop] at located
    obtain ⟨d', ran, rest⟩ := ih d₁ (show hi = lo + 1 + (count + 1) by omega)
      (show count + 3 < fuel by omega) small (by rw [sameMiddle]; exact within) next ends located
    refine ⟨d', ?_, part.trans rest (Nat.le_succ lo) (by omega)⟩
    -- The next entry is the one of the next page.
    have stepped : entryAddr table (slot lo) + entrySize = entryAddr table (slot (lo + 1)) :=
      entryAddr_next (by rw [slot_toNat, slot_toNat]; omega)
    simp only [walkPteLoop, printed, stepped, bne_iff_ne, ne_eq, more, not_false_eq_true, if_true]
    exact ran

/-- `walk_pte` tells the pages of one last-level table. -/
theorem walkPte_told {page table : Ppn} {fuel lo hi : Nat} {addr end_ : U64} (d : Dump)
    (fueled : 516 ≤ fuel) (some_ : lo < hi) (small : hi ≤ 2 ^ 27)
    (within : (hi - 1) / 2 ^ 9 = lo / 2 ^ 9) (at_ : addr.toNat = lo * 4096)
    (ends : end_.toNat = hi * 4096)
    (located : Radix.descend child (tables mem) root [slot (lo / 2 ^ 18)] = some page)
    (points : child (mem (entryAddr page (slot (lo / 2 ^ 9)))) = some table) :
    ∃ d', walkPte mem (pgLevelInit masks) fuel (frameAddr page)
        (entryAddr page (slot (lo / 2 ^ 9))) addr end_ d = some d' ∧ Told mem root lo hi d d' := by
  have below : Radix.descend child (tables mem) root [slot (lo / 2 ^ 18), slot (lo / 2 ^ 9)] =
      some table := by
    rw [show [slot (lo / 2 ^ 18), slot (lo / 2 ^ 9)] = [slot (lo / 2 ^ 18)] ++ [slot (lo / 2 ^ 9)]
      from rfl, Radix.descend_concat, located]
    exact points
  -- The pointer entry is the next step of the path.
  have pageNumber : addr.toNat / 2 ^ 12 = lo := by omega
  obtain ⟨d', ran, part⟩ := walkPteLoop_told masks (hi - lo - 1)
    (d.touch (frameAddr page) (entryAddr page (slot (lo / 2 ^ 9)))) (by omega)
    (show hi - lo - 1 + 3 < fuel by omega) small (by omega) at_ ends below
  have short : [slot (lo / 2 ^ 18)].length ≤ 2 := Nat.le_succ 1
  refine ⟨d', ?_, part.touch (slot (lo / 2 ^ 9)) short located⟩
  simp only [walkPte, pmdPagePaddr, entryPagePaddr_of_child points, getPtepFromPmdp_eq addr points,
    pageNumber]
  exact ran

/-- The loop over the entries of a directory tells block after block. -/
theorem dumpLoop_told (levelAddrEnd : U64 → U64 → U64)
    (body : (entryp addr next : U64) → Dump → Option Dump) (w first last : Nat) (page : Ppn)
    (cuts : ∀ addr end_, endNat (levelAddrEnd addr end_) =
      min ((addr.toNat / 2 ^ (12 + w) + 1) * 2 ^ (12 + w)) (endNat end_))
    (small : last ≤ 2 ^ 27) (directory : (last - 1) / 2 ^ w / 512 = first / 2 ^ w / 512)
    (body_told : ∀ {lo mid addr next} (d : Dump), first ≤ lo → lo < mid → mid ≤ last →
      (mid - 1) / 2 ^ w = lo / 2 ^ w → addr.toNat = lo * 4096 → next.toNat = mid * 4096 →
      ∃ d', body (entryAddr page (slot (lo / 2 ^ w))) addr next d = some d' ∧
        Told mem root lo mid d d') :
    ∀ {fuel lo addr end_} (d : Dump), first ≤ lo → lo < last → blocks w lo last ≤ fuel →
      addr.toNat = lo * 4096 → end_.toNat = last * 4096 →
      ∃ d', dumpLoop levelAddrEnd body fuel (entryAddr page (slot (lo / 2 ^ w))) addr end_ d =
        some d' ∧ Told mem root lo last d d' := by
  intro fuel
  -- One round tells up to the cut; the rounds left are the loop from the cut on.
  induction fuel with
  | zero =>
    intro lo _ _ _ _ _ fueled
    exact absurd fueled (Nat.not_succ_le_zero _)
  | succ fuel ih =>
    intro lo addr end_ d above below fueled at_ ends
    have cutAbove := lt_cut (w := w) below
    have cutBelow := cut_le w lo last
    have endsNat : endNat end_ = last * 4096 := by
      rw [endNat_eq, ends, if_neg (by omega)]
    -- The round ends where the block ends, or the range.
    have next : (levelAddrEnd addr end_).toNat = cut w lo last * 4096 :=
      toNat_of_endNat (endNat_cut cuts at_ endsNat) (by omega)
    obtain ⟨d₁, ran, part⟩ := body_told d above cutAbove cutBelow (cut_block below) at_ next
    rcases Nat.lt_or_ge (cut w lo last) last with more | done
    · -- The loop goes on in the next block, with the next entry.
      have unfinished : levelAddrEnd addr end_ ≠ end_ := by
        intro same
        rw [same, ends] at next
        omega
      have stepped := @entryAddr_cut page w first lo last above more directory
      have paid := blocks_first below more
      obtain ⟨d', rest, remaining⟩ := ih d₁ (Nat.le_trans above (Nat.le_of_lt cutAbove)) more
        (by omega) next ends
      refine ⟨d', ?_, part.trans remaining (Nat.le_of_lt cutAbove) cutBelow⟩
      rw [← stepped] at rest
      simp only [dumpLoop, ran, bne_iff_ne, ne_eq, unfinished, not_false_eq_true, if_true]
      exact rest
    · have whole : cut w lo last = last := Nat.le_antisymm cutBelow done
      have finished : levelAddrEnd addr end_ = end_ :=
        BitVec.eq_of_toNat_eq (by rw [next, ends, whole])
      rw [whole] at part
      rw [finished] at ran
      refine ⟨d₁, ?_, part⟩
      simp only [dumpLoop, finished, ran, bne_self_eq_false, Bool.false_eq_true, if_false]

/-- The directories of a table that can be dumped. -/
structure Dumpable (mem : Memory) (root : Ppn) : Prop where
  pgd : ∀ i, tables mem root i = 0 ∨ ∃ page, child (tables mem root i) = some page
  pmd : ∀ i page, child (tables mem root i) = some page → ∀ j, tables mem page j = 0 ∨
    pmdLeaf (tables mem page j) = true ∨ ∃ table, child (tables mem page j) = some table

/-- The bits that make an entry a leaf. -/
theorem pageLeaf_getLsbD (i : Nat) :
    _PAGE_LEAF.getLsbD i = (decide (i = 1) || decide (i = 2) || decide (i = 3)) := by
  -- Inside the word there are 64 bits to compare.
  by_cases low : i < 64
  · revert i
    decide
  · rw [BitVec.getLsbD_of_ge _ _ (by omega)]
    simp only [Bool.false_eq, Bool.or_eq_false_iff, decide_eq_false_iff_not]
    omega

/-- A pointer is no leaf. -/
theorem pmdLeaf_of_child {entry : U64} {page : Ppn} (points : child entry = some page) :
    pmdLeaf entry = false := by
  unfold child at points
  split at points
  · rename_i pointer
    simp only [isReadable, isWritable, isExecutable, Bool.and_eq_true, Bool.not_eq_true'] at pointer
    obtain ⟨⟨⟨⟨-, readable⟩, writable⟩, executable⟩, -⟩ := pointer
    -- Without the three permissions nothing is left of the mask.
    have none : entry &&& _PAGE_LEAF = 0 := by
      apply BitVec.eq_of_getLsbD_eq
      intro i _
      rw [BitVec.getLsbD_and, pageLeaf_getLsbD]
      rcases i with _ | _ | _ | _ | i <;> simp_all
    simp [pmdLeaf, none]
  · cases points

/-- One round of `walk_pmd` tells one block of 2 MiB. -/
theorem walkPmdEntry_told (dumpable : Dumpable mem root) {page : Ppn} {fuel lo hi : Nat}
    {addr next : U64} (d : Dump) (fueled : 516 ≤ fuel) (some_ : lo < hi) (small : hi ≤ 2 ^ 27)
    (within : (hi - 1) / 2 ^ 9 = lo / 2 ^ 9) (at_ : addr.toNat = lo * 4096)
    (ends : next.toNat = hi * 4096)
    (points : child (mem (entryAddr root (slot (lo / 2 ^ 18)))) = some page) :
    ∃ d', walkPmdEntry mem (pgLevelInit masks) fuel (frameAddr page)
        (entryAddr page (slot (lo / 2 ^ 9))) addr next d = some d' ∧ Told mem root lo hi d d' := by
  have located : Radix.descend child (tables mem) root [slot (lo / 2 ^ 18)] = some page := by
    rw [Radix.descend, tables, points]
    rfl
  have short : [slot (lo / 2 ^ 18)].length ≤ 2 := Nat.le_succ 1
  rw [walkPmdEntry]
  by_cases ended : child (mem (entryAddr page (slot (lo / 2 ^ 9)))) = none
  · -- The walks of the whole block end here, at nothing or at a leaf.
    have shape : mem (entryAddr page (slot (lo / 2 ^ 9))) = 0 ∨
        pmdLeaf (mem (entryAddr page (slot (lo / 2 ^ 9)))) = true := by
      rcases dumpable.pmd (slot (lo / 2 ^ 18)) page points (slot (lo / 2 ^ 9)) with
        empty | leaf | ⟨table, below⟩
      · exact Or.inl empty
      · exact Or.inr leaf
      · rw [tables, ended] at below
        cases below
    have walks : ∀ n, lo ≤ n → n < hi →
        pageWalk mem root n = (1, mem (entryAddr page (slot (lo / 2 ^ 9)))) := by
      intro n above below
      have middle : n / 2 ^ 9 = lo / 2 ^ 9 := by omega
      have top : n / 2 ^ 18 = lo / 2 ^ 18 := by omega
      have path : [slot (n / 2 ^ 18), slot (n / 2 ^ 9), slot n] =
          [slot (lo / 2 ^ 18)] ++ slot (lo / 2 ^ 9) :: slot n :: [] := by rw [middle, top]; rfl
      exact pageWalk_blocked path located ended
    -- So one line tells the whole block.
    obtain ⟨d', ran, part⟩ := printPgtable_told masks
      (d.touch (frameAddr page) (entryAddr page (slot (lo / 2 ^ 9)))) (show 3 ≤ fuel by omega) some_
      small at_ ends walks (show 1 ≤ 2 by decide)
      fun some_ => Or.inr ⟨rfl, shape.resolve_left some_⟩
    refine ⟨d', ?_, part.touch _ short located⟩
    have closed : (pmdNone (mem (entryAddr page (slot (lo / 2 ^ 9)))) ||
        pmdLeaf (mem (entryAddr page (slot (lo / 2 ^ 9))))) = true := by
      rcases shape with empty | leaf
      · rw [pmdNone, empty]
        rfl
      · rw [leaf, Bool.or_true]
    simp only [closed, if_true]
    exact ran
  · -- The entry points to a table of pages, and is no leaf.
    obtain ⟨table, below⟩ := Option.ne_none_iff_exists'.mp ended
    have open_ : (pmdNone (mem (entryAddr page (slot (lo / 2 ^ 9)))) ||
        pmdLeaf (mem (entryAddr page (slot (lo / 2 ^ 9))))) = false := by
      rw [pmdLeaf_of_child below, pmdNone, beq_false_of_ne (child_ne_zero below), Bool.or_self]
    obtain ⟨d', ran, part⟩ := walkPte_told masks
      (d.touch (frameAddr page) (entryAddr page (slot (lo / 2 ^ 9)))) fueled some_ small within at_
      ends located below
    refine ⟨d', ?_, part.touch _ short located⟩
    simp only [open_, Bool.false_eq_true, if_false]
    exact ran

/-- `walk_pmd` tells the part below one entry of the root. -/
theorem walkPmd_told (dumpable : Dumpable mem root) {page : Ppn} {fuel lo hi : Nat}
    {addr end_ : U64} (d : Dump) (fueled : 516 ≤ fuel) (some_ : lo < hi) (small : hi ≤ 2 ^ 27)
    (within : (hi - 1) / 2 ^ 18 = lo / 2 ^ 18) (at_ : addr.toNat = lo * 4096)
    (ends : end_.toNat = hi * 4096)
    (points : child (mem (entryAddr root (slot (lo / 2 ^ 18)))) = some page) :
    ∃ d', walkPmd mem (pgLevelInit masks) fuel (frameAddr root)
        (entryAddr root (slot (lo / 2 ^ 18))) addr end_ d = some d' ∧ Told mem root lo hi d d' := by
  have entryNumber : addr.toNat / 2 ^ 21 = lo / 2 ^ 9 := by omega
  obtain ⟨d', ran, part⟩ := dumpLoop_told pmdAddrEnd
    (walkPmdEntry mem (pgLevelInit masks) fuel (frameAddr page)) 9 lo hi page endNat_pmdAddrEnd small
    (by omega)
    (fun {at_' mid _ _} d above below upper inside addrs nexts => by
      have top : at_' / 2 ^ 18 = lo / 2 ^ 18 := by omega
      rw [← top] at points
      exact walkPmdEntry_told masks dumpable d fueled below (by omega) inside addrs nexts points)
    (d.touch (frameAddr root) (entryAddr root (slot (lo / 2 ^ 18)))) (Nat.le_refl lo) some_
    (show blocks 9 lo hi ≤ fuel by rw [blocks]; omega) at_ ends
  -- The loop starts at the entry of the first address.
  refine ⟨d', ?_, part.touch (P := []) _ (Nat.zero_le 2) rfl⟩
  simp only [walkPmd, pgdPagePaddr, entryPagePaddr_of_child points, getPmdpFromPgdp_eq addr points,
    entryNumber]
  exact ran

/-- One round of `walk_pgd` tells one block of 1 GiB. -/
theorem walkPgdEntry_told (dumpable : Dumpable mem root) {fuel lo hi : Nat} {addr next : U64}
    (d : Dump) (fueled : 516 ≤ fuel) (some_ : lo < hi) (small : hi ≤ 2 ^ 27)
    (within : (hi - 1) / 2 ^ 18 = lo / 2 ^ 18) (at_ : addr.toNat = lo * 4096)
    (ends : next.toNat = hi * 4096) :
    ∃ d', walkPgdEntry mem (pgLevelInit masks) fuel (frameAddr root)
        (entryAddr root (slot (lo / 2 ^ 18))) addr next d = some d' ∧ Told mem root lo hi d d' := by
  rw [walkPgdEntry]
  rcases dumpable.pgd (slot (lo / 2 ^ 18)) with empty | ⟨page, points⟩
  · have zero : mem (entryAddr root (slot (lo / 2 ^ 18))) = 0 := empty
    -- The walks of the whole block end at the empty entry.
    have walks : ∀ n, lo ≤ n → n < hi →
        pageWalk mem root n = (2, mem (entryAddr root (slot (lo / 2 ^ 18)))) := by
      intro n above below
      have top : n / 2 ^ 18 = lo / 2 ^ 18 := by omega
      have path : [slot (n / 2 ^ 18), slot (n / 2 ^ 9), slot n] =
          [] ++ slot (lo / 2 ^ 18) :: slot (n / 2 ^ 9) :: [slot n] := by rw [top]; rfl
      exact pageWalk_blocked path rfl (by rw [zero]; exact child_zero)
    obtain ⟨d', ran, part⟩ := printPgtable_told masks
      (d.touch (frameAddr root) (entryAddr root (slot (lo / 2 ^ 18)))) (show 3 ≤ fuel by omega)
      some_ small at_ ends walks (Nat.zero_le 2) fun some_ => absurd zero some_
    refine ⟨d', ?_, part.touch (P := []) _ (Nat.zero_le 2) rfl⟩
    have none_ : pgdNone (mem (entryAddr root (slot (lo / 2 ^ 18)))) = true := by
      rw [pgdNone, zero]
      rfl
    simp only [none_, if_true]
    exact ran
  · -- The entry points to a table, which is walked.
    obtain ⟨d', ran, part⟩ := walkPmd_told masks dumpable
      (d.touch (frameAddr root) (entryAddr root (slot (lo / 2 ^ 18)))) fueled some_ small within at_
      ends points
    refine ⟨d', ?_, part.touch (P := []) _ (Nat.zero_le 2) rfl⟩
    have some_ : pgdNone (mem (entryAddr root (slot (lo / 2 ^ 18)))) = false :=
      beq_false_of_ne (child_ne_zero points)
    simp only [some_, Bool.false_eq_true, if_false]
    exact ran

end Loops

/-- Whether a line is about an address. -/
def Report.Covers (r : Report) (va : U64) : Prop := r.start.toNat ≤ va.toNat ∧ va.toNat < r.end_.toNat

/-- What a walk of the hardware says of an address. -/
theorem shown_eq (mem : Memory) (root : Ppn) (va : U64) :
    shown mem root va.toNat = told (walk mem root va) := by
  rw [shown, walk_eq_pageWalk]

/-- Something is said exactly of the addresses whose walk ends at an entry that counts. -/
theorem told_isSome (ended : Nat × U64) : (told ended).isSome = true ↔ Resolved ended := by
  rw [told]
  -- Only resolved walks are told.
  split
  · exact iff_of_true rfl ‹_›
  · exact iff_of_false (by simp) ‹_›

/-- What is said of an address is what its entry says. -/
theorem told_some {ended : Nat × U64} {label : String × List String}
    (said : told ended = some label) : label = (pgLevelName (2 - ended.1), dumpProt ended.2) := by
  rw [told] at said
  -- What is told is the name and the attributes of the entry.
  split at said
  · exact (Option.some.inj said).symm
  · cases said

/--
For every table of empty entries, leaves of 2 MiB and pointers, and every range of pages within the
39-bit space, `walk_pgd` after `pg_level_init` ends, reads entries of tables that the root leads to, and reports ranges
that come in increasing order and do not overlap. They cover exactly the addresses that a hardware
walk resolves, each under the level and with the attributes of the entry that the walk ends at.
-/
theorem walkPgd_truthful {mem : Memory} {root : Ppn} (dumpable : Dumpable mem root)
    (masks : Nat → U64) {start size : U64} (aligned : start.toNat % 4096 = 0)
    (whole : size.toNat % 4096 = 0) (positive : 0 < size.toNat)
    (within : start.toNat + size.toNat ≤ 2 ^ 39) {fuel : Nat} (fueled : 516 ≤ fuel) :
    ∃ d, walkPgd mem (pgLevelInit masks) fuel (frameAddr root) start size ⟨[], []⟩ = some d ∧
      (∀ access ∈ d.touched, InTree mem root access) ∧
      d.reports.Pairwise (fun r later => r.end_.toNat ≤ later.start.toNat) ∧
      (∀ va : U64, start.toNat ≤ va.toNat → va.toNat < start.toNat + size.toNat →
        ((∃ r ∈ d.reports, r.Covers va) ↔ Resolved (walk mem root va))) ∧
      ∀ r ∈ d.reports, start.toNat ≤ r.start.toNat ∧ r.start.toNat < r.end_.toNat ∧
        r.end_.toNat ≤ start.toNat + size.toNat ∧ r.Sized ∧
        ∀ va, r.Covers va → r.name = pgLevelName (2 - (walk mem root va).1) ∧
          r.prot = dumpProt (walk mem root va).2 := by
  -- In pages the range goes from `lo` to `hi`.
  obtain ⟨lo, starts⟩ : ∃ lo, start.toNat = lo * 4096 := ⟨start.toNat / 4096, by omega⟩
  obtain ⟨hi, stops⟩ : ∃ hi, start.toNat + size.toNat = hi * 4096 :=
    ⟨(start.toNat + size.toNat) / 4096, by omega⟩
  have ends : (start + size).toNat = hi * 4096 := by
    rw [BitVec.toNat_add]
    omega
  have entryNumber : start.toNat / 2 ^ 30 = lo / 2 ^ 18 := by omega
  obtain ⟨d, ran, part⟩ := dumpLoop_told pgdAddrEnd
    (walkPgdEntry mem (pgLevelInit masks) fuel (frameAddr root)) 18 lo hi root endNat_pgdAddrEnd
    (by omega) (by omega)
    (fun d above below upper inside addrs nexts =>
      walkPgdEntry_told masks dumpable d fueled below (by omega) inside addrs nexts)
    ⟨[], []⟩ (Nat.le_refl lo) (by omega) (show blocks 18 lo hi ≤ fuel by rw [blocks]; omega) starts
    ends
  -- As the dump begins empty, what it reports is what this walk has added.
  obtain ⟨more, added, tells, sized⟩ := part.reports
  obtain rfl : d.reports = more := added
  refine ⟨d, by rw [walkPgd, pgdOffsetRaw_eq, entryNumber]; exact ran, ?_, ?_, ?_, ?_⟩
  · intro access member
    rcases part.touched access member with none_ | inside
    · cases none_
    · exact inside
  · exact List.pairwise_map.mp tells.ordered
  · -- What is covered is what has something to be said of it.
    intro va above below
    rw [← told_isSome, ← shown_eq, ← tells.covered_iff (by omega) (by omega)]
    constructor
    · rintro ⟨r, member, covers⟩
      exact ⟨r.span, List.mem_map_of_mem member, covers⟩
    · rintro ⟨span, member, covers⟩
      obtain ⟨r, among, rfl⟩ := List.mem_map.mp member
      exact ⟨r, among, covers⟩
  · -- A line says of each of its addresses what the walk of that address ends at.
    intro r member
    have spans := List.mem_map_of_mem (f := Report.span) member
    obtain ⟨above, some_, below⟩ := tells.inside r.span spans
    refine ⟨starts ▸ above, some_, stops ▸ below, sized r member, fun va covers => ?_⟩
    have said := tells.correct r.span spans va.toNat covers
    rw [shown_eq] at said
    exact Prod.mk.inj (told_some said)

/-- A table with one leaf of 2 MiB, at the second place of the third directory. -/
def exampleSection : Memory :=
  Function.update (Function.update (fun _ => 0) (entryAddr 0x80201 1) 0x200000cf)
    (entryAddr 0x80200 2) (pfnEntry (pfnDown (frameAddr 0x80201)) pageTable)

/-- It can be dumped. -/
theorem exampleSection_dumpable : Dumpable exampleSection 0x80200 := by
  have stores : tables exampleSection = Radix.set (Radix.set (fun _ _ => 0) 0x80201 1 0x200000cf)
      0x80200 2 (pfnEntry (pfnDown (frameAddr 0x80201)) pageTable) := by
    rw [exampleSection, tables_update, tables_update]
    rfl
  have pgd (i : Index) : tables exampleSection 0x80200 i =
      if i = 2 then pfnEntry (pfnDown (frameAddr 0x80201)) pageTable else 0 := by
    rw [stores]
    by_cases here : i = 2
    · rw [if_pos here, here, Radix.set_self]
    · rw [if_neg here, Radix.set_other _ _ fun both => here both.2,
        Radix.set_other _ _ fun both => absurd both.1 (by decide)]
  refine ⟨fun i => ?_, fun i page points j => ?_⟩
  · rw [pgd]
    split
    · exact Or.inr ⟨_, child_pfnEntry 0x80201⟩
    · exact Or.inl rfl
  · rw [pgd] at points
    split at points
    · -- The only directory below the root holds the leaf, and nothing else.
      obtain rfl : 0x80201 = page := Option.some.inj ((child_pfnEntry 0x80201).symm.trans points)
      rw [stores, Radix.set_other _ _ fun both => absurd both.1 (by decide)]
      by_cases here : j = 1
      · rw [here, Radix.set_self]
        exact Or.inr (Or.inl (by decide))
      · rw [Radix.set_other _ _ fun both => here both.2]
        exact Or.inl rfl
    · rw [child_zero] at points
      cases points

/-- Its dump has a line about the leaf. -/
theorem walkPgd_truthful_section :
    ∃ d, walkPgd exampleSection (pgLevelInit fun _ => 0) 516 (frameAddr 0x80200) 0x80000000
        0x1000000 ⟨[], []⟩ = some d ∧ ∃ r ∈ d.reports, r.Covers 0x80200000 := by
  obtain ⟨d, ran, _, _, covered, _⟩ := walkPgd_truthful exampleSection_dumpable (fun _ => 0)
    (show (0x80000000 : U64).toNat % 4096 = 0 by decide)
    (show (0x1000000 : U64).toNat % 4096 = 0 by decide) (by decide) (by decide)
    (Nat.le_refl 516)
  -- An address is covered when its walk is resolved, which the example decides.
  exact ⟨d, ran, (covered 0x80200000 (by decide) (by decide)).mpr (by decide)⟩

end Benos
