import Benos.Mm.MappingTrace

/-! The three nested loops of the builder, each split at the boundaries of its level. -/

namespace Benos

open Sv39

variable {σ : Type}

/-- The walk for a page is not blocked: it reaches the last level or stops at an empty entry. -/
def Clear (mem : Memory) (root : Ppn) (n : Nat) : Prop :=
  (pageWalk mem root n).1 = 0 ∨ (pageWalk mem root n).2 = 0

/-- The physical address carried along from page `lo` gives every later page its entry. -/
def Carries (prot : U64) (pte : Nat → U64) (lo : Nat) (phys : U64) : Prop :=
  ∀ n, lo ≤ n → pte n = pfnPte (pfnDown (phys + BitVec.ofNat 64 ((n - lo) * 4096))) prot

/-- Advancing the physical address by the pages done carries the rest. -/
theorem Carries.advance {prot phys : U64} {pte : Nat → U64} {lo mid : Nat}
    (carries : Carries prot pte lo phys) (later : lo ≤ mid) :
    Carries prot pte mid (phys + BitVec.ofNat 64 ((mid - lo) * 4096)) := by
  intro n above
  -- The physical address goes on by as many pages as the virtual one.
  have total : (mid - lo) * 4096 + (n - mid) * 4096 = (n - lo) * 4096 := by omega
  have joined : phys + BitVec.ofNat 64 ((mid - lo) * 4096) + BitVec.ofNat 64 ((n - mid) * 4096) =
      phys + BitVec.ofNat 64 ((n - lo) * 4096) := by
    simp only [BitVec.add_assoc, ← BitVec.ofNat_add, total]
  have entry := carries n (by omega)
  rw [← joined] at entry
  exact entry

/-- An end below the top of the address space is an address. -/
theorem toNat_of_endNat {word : U64} {v : Nat} (ends : endNat word = v) (below : v < 2 ^ 64) :
    word.toNat = v := by
  rw [endNat_eq] at ends
  split at ends <;> omega

/-- The distance from an address to a later end, in pages. -/
theorem sub_eq_pages {next addr : U64} {lo mid : Nat} (from_ : addr.toNat = lo * 4096)
    (reaches : endNat next = mid * 4096) (later : lo ≤ mid) :
    next - addr = BitVec.ofNat 64 ((mid - lo) * 4096) := by
  apply BitVec.eq_of_toNat_eq
  have nextBound := next.isLt
  rw [endNat_eq] at reaches
  rw [BitVec.toNat_sub, BitVec.toNat_ofNat, from_]
  -- The end of the address space is written as zero.
  split at reaches <;> omega

/-- The number of blocks of `2 ^ w` pages a range of pages meets. -/
def blocks (w lo hi : Nat) : Nat := (hi - 1) / 2 ^ w - lo / 2 ^ w + 1

/-- Where a range is cut first: at the end of its first block, or at its own end. -/
def cut (w lo hi : Nat) : Nat := min ((lo / 2 ^ w + 1) * 2 ^ w) hi

theorem lt_cut {w lo hi : Nat} (some_ : lo < hi) : lo < cut w lo hi := by
  have below : lo < (lo / 2 ^ w + 1) * 2 ^ w := by
    rw [Nat.mul_comm]
    exact Nat.lt_mul_div_succ lo (Nat.two_pow_pos w)
  -- Both the boundary and the end lie behind the start.
  exact Nat.lt_min.mpr ⟨below, some_⟩

theorem cut_le (w lo hi : Nat) : cut w lo hi ≤ hi := Nat.min_le_right _ _

/-- The part before the cut lies in one block. -/
theorem cut_block {w lo hi : Nat} (some_ : lo < hi) :
    (cut w lo hi - 1) / 2 ^ w = lo / 2 ^ w := by
  -- The cut is at the end of the block at the latest, and its last page still inside.
  have above := lt_cut (w := w) some_
  have upper : cut w lo hi ≤ (lo / 2 ^ w + 1) * 2 ^ w := Nat.min_le_left _ _
  have inside : cut w lo hi - 1 < 2 ^ w * (lo / 2 ^ w + 1) := by
    rw [Nat.mul_comm]
    omega
  have lower : lo / 2 ^ w ≤ (cut w lo hi - 1) / 2 ^ w := Nat.div_le_div_right (by omega)
  have less := Nat.div_lt_of_lt_mul inside
  omega

/-- A cut before the end of the range starts the next block. -/
theorem cut_next {w lo hi : Nat} (more : cut w lo hi < hi) :
    cut w lo hi / 2 ^ w = lo / 2 ^ w + 1 := by
  -- The range goes on, so it was cut at the boundary.
  have here : cut w lo hi = (lo / 2 ^ w + 1) * 2 ^ w := by
    rw [cut] at more ⊢
    omega
  rw [here, Nat.mul_div_cancel _ (Nat.two_pow_pos w)]

/-- A cut is a block boundary, unless it is the end of the range. -/
theorem blocks_cut {w v lo hi : Nat} (finer : v ≤ w) (some_ : lo < hi) (more : cut w lo hi < hi) :
    blocks v lo (cut w lo hi) + blocks v (cut w lo hi) hi = blocks v lo hi := by
  have above := lt_cut (w := w) some_
  -- Measured in smaller blocks the cut is at a multiple of the block size.
  obtain ⟨k, boundary⟩ : ∃ k, cut w lo hi = k * 2 ^ v := by
    refine ⟨(lo / 2 ^ w + 1) * 2 ^ (w - v), ?_⟩
    rw [Nat.mul_assoc, ← Nat.pow_add, Nat.sub_add_cancel finer]
    rw [cut] at more ⊢
    omega
  have positive := Nat.two_pow_pos v
  have size : 0 < k := by
    rcases Nat.eq_zero_or_pos k with rfl | pos
    · omega
    · exact pos
  -- The cut is the first page of block `k`, and the page before it the last of the block before.
  have last : (k * 2 ^ v - 1) / 2 ^ v = k - 1 := by
    rw [Nat.div_eq_iff positive]
    have step : k * 2 ^ v = (k - 1) * 2 ^ v + 2 ^ v := by
      rw [← Nat.succ_mul]
      congr 1
      omega
    omega
  have first : k * 2 ^ v / 2 ^ v = k := Nat.mul_div_cancel k positive
  have start : lo / 2 ^ v ≤ (k * 2 ^ v - 1) / 2 ^ v := Nat.div_le_div_right (by omega)
  have finish : k * 2 ^ v / 2 ^ v ≤ (hi - 1) / 2 ^ v := Nat.div_le_div_right (by omega)
  rw [boundary, blocks, blocks, blocks, last, first]
  omega

/-- The macro returns the end of the block, or that of the range. -/
theorem endNat_cut {levelAddrEnd : U64 → U64 → U64} {w lo last : Nat} {addr end_ : U64}
    (cuts : ∀ addr end_, endNat (levelAddrEnd addr end_) =
      min ((addr.toNat / 2 ^ (12 + w) + 1) * 2 ^ (12 + w)) (endNat end_))
    (at_ : addr.toNat = lo * 4096) (ends : endNat end_ = last * 4096) :
    endNat (levelAddrEnd addr end_) = cut w lo last * 4096 := by
  have pageNumber : addr.toNat / 2 ^ (12 + w) = lo / 2 ^ w := by
    rw [at_, Nat.pow_add, Nat.mul_comm lo, ← Nat.div_div_eq_div_mul,
      Nat.mul_div_cancel_left _ (by decide)]
  -- Addresses are pages scaled by the size of a page.
  rw [cuts, pageNumber, ends, cut, Nat.pow_add, Nat.mul_comm (2 ^ 12), ← Nat.mul_assoc]
  exact Nat.mul_min_mul_right _ _ _

/-- The following block belongs to the next entry of the same directory. -/
theorem entryAddr_cut {page : Ppn} {w first lo last : Nat} (above : first ≤ lo)
    (more : cut w lo last < last) (directory : (last - 1) / 2 ^ w / 512 = first / 2 ^ w / 512) :
    entryAddr page (slot (lo / 2 ^ w)) + entrySize =
      entryAddr page (slot (cut w lo last / 2 ^ w)) := by
  have step : cut w lo last / 2 ^ w = lo / 2 ^ w + 1 := cut_next more
  have lower : first / 2 ^ w ≤ lo / 2 ^ w := Nat.div_le_div_right above
  have upper : cut w lo last / 2 ^ w ≤ (last - 1) / 2 ^ w := Nat.div_le_div_right (by omega)
  -- Within one directory the index grows by one.
  refine entryAddr_next ?_
  rw [slot_toNat, slot_toNat, step]
  omega

/-- One round of the fuel pays for one block. -/
theorem blocks_first {w lo last : Nat} (below : lo < last) (more : cut w lo last < last) :
    1 + blocks w (cut w lo last) last = blocks w lo last := by
  have parts := blocks_cut (Nat.le_refl w) below more
  have one : blocks w lo (cut w lo last) = 1 := by
    rw [blocks, cut_block below, Nat.sub_self]
  -- Up to the first boundary there is one block.
  rw [← parts, one]

/-! ### The loops -/

/-- The loop carries an invariant from block to block, and ends at the end of its range. -/
theorem splitLoop_invariant {levelAddrEnd : U64 → U64 → U64}
    {body : (table entryp addr next phys : U64) → Mm σ → Option (Mm σ)} {w first last : Nat}
    {table : U64} {Inv : Nat → (entryp phys : U64) → Mm σ → Prop}
    (cuts : ∀ {lo addr end_}, lo < last → addr.toNat = lo * 4096 → endNat end_ = last * 4096 →
      endNat (levelAddrEnd addr end_) = cut w lo last * 4096)
    (round : ∀ {lo entryp addr next phys s}, first ≤ lo → lo < last → addr.toNat = lo * 4096 →
      endNat next = cut w lo last * 4096 → Inv lo entryp phys s →
      ∃ s', body table entryp addr next phys s = some s' ∧ Inv (cut w lo last) (entryp + entrySize)
        (phys + BitVec.ofNat 64 ((cut w lo last - lo) * 4096)) s') :
    ∀ {fuel lo entryp addr end_ phys s}, first ≤ lo → lo < last → blocks w lo last ≤ fuel →
      addr.toNat = lo * 4096 → endNat end_ = last * 4096 → Inv lo entryp phys s →
      ∃ entryp' phys' s', splitLoop levelAddrEnd body fuel table entryp addr end_ phys s = some s' ∧
        Inv last entryp' phys' s' := by
  intro fuel
  -- One round goes up to the cut; the rounds left are the loop from the cut on.
  induction fuel with
  | zero =>
    intro lo _ _ _ _ _ _ _ fueled
    exact absurd fueled (Nat.not_succ_le_zero _)
  | succ fuel ih =>
    intro lo entryp addr end_ phys s above below fueled at_ ends holds
    have cutAbove := lt_cut (w := w) below
    have cutBelow := cut_le w lo last
    have next := cuts below at_ ends
    obtain ⟨s₁, ran, after⟩ := round above below at_ next holds
    rw [← sub_eq_pages at_ next (Nat.le_of_lt cutAbove)] at after
    -- The range goes on behind the cut, or it ends in this block.
    rcases Nat.lt_or_ge (cut w lo last) last with more | done
    · have nextAddr : (levelAddrEnd addr end_).toNat = cut w lo last * 4096 := by
        refine toNat_of_endNat next ?_
        have top := (end_ - 1).isLt
        rw [endNat] at ends
        omega
      -- The cut is in front of the end, so there is another round.
      have unfinished : levelAddrEnd addr end_ ≠ end_ := by
        intro same
        rw [same, ends] at next
        omega
      have paid := blocks_first below more
      obtain ⟨entryp', phys', s', rest, finally_⟩ := ih (Nat.le_trans above (Nat.le_of_lt cutAbove))
        more (by omega) nextAddr ends after
      refine ⟨entryp', phys', s', ?_, finally_⟩
      simp only [splitLoop, ran, bne_iff_ne, ne_eq, unfinished, not_false_eq_true, if_true]
      exact rest
    · -- The cut is the end, and the loop stops.
      have whole : cut w lo last = last := Nat.le_antisymm cutBelow done
      have finished : levelAddrEnd addr end_ = end_ := by
        rw [← endNat_inj, next, ends, whole]
      rw [whole] at after
      refine ⟨_, _, s₁, ?_, after⟩
      rw [finished] at ran
      simp only [splitLoop, finished, ran, bne_self_eq_false, Bool.false_eq_true, if_false]

/-- The loop over last-level entries is cut at every page. -/
theorem allocInitPteLoop_eq (prot : U64) (fuel : Nat) (table ptep addr end_ phys : U64)
    (s : Mm σ) :
    allocInitPteLoop prot fuel table ptep addr end_ phys s =
      splitLoop (fun addr _ => addr + pageSize)
        (fun table ptep _ _ phys s => some (s.store table ptep (pfnPte (pfnDown phys) prot)))
        fuel table ptep addr end_ phys s := by
  induction fuel generalizing ptep addr phys s with
  | zero => rfl
  | succ fuel ih =>
    -- The step of the physical address is the distance to the next page.
    have step : addr + pageSize - addr = pageSize := by
      rw [BitVec.add_comm, BitVec.add_sub_cancel]
    rw [allocInitPteLoop, splitLoop]
    simp only [ih, step]

/-- A page ends its own block. -/
theorem endNat_pageEnd {lo last : Nat} {addr : U64} (below : lo < last)
    (at_ : addr.toNat = lo * 4096) : endNat (addr + pageSize) = cut 0 lo last * 4096 := by
  rw [endNat_next at_, cut, Nat.pow_zero, Nat.div_one, Nat.mul_one, Nat.min_eq_left below]

section Loops

variable {alloc : AllocPgtable σ} {pages : σ → List U64} {Fine Failed : σ → Prop} {root : Ppn}
  {prot : U64} {pte : Nat → U64}

/-- What was clear and was not mapped by a part of the builder is still clear. -/
theorem Extends.clear {lo hi spent n : Nat} {s s' : Mm σ}
    (part : Extends pages root lo hi pte spent s s')
    (outside : ∀ m, lo ≤ m → m < hi → n % 2 ^ 27 ≠ m % 2 ^ 27) (clear : Clear s.mem root n) :
    Clear s'.mem root n := by
  -- The walk is the same, or ends at another empty entry.
  rcases part.others n outside with same | ⟨_, _, empty⟩
  · rw [Clear, same]
    exact clear
  · exact Or.inr empty

/-- A clear walk that cannot follow a directory entry found it empty. -/
theorem entry_of_clear {mem : Memory} {n : Nat} {P : List Index} {page : Ppn} {index next : Index}
    {more : List Index} (clear : Clear mem root n)
    (path : [slot (n / 2 ^ 18), slot (n / 2 ^ 9), slot n] = P ++ index :: next :: more)
    (located : Radix.descend child (tables mem) root P = some page)
    (blocked : child (mem (entryAddr page index)) = none) : mem (entryAddr page index) = 0 := by
  have ended := pageWalk_blocked path located blocked
  -- A walk that ends early finds an entry of zero.
  rcases clear with last | empty
  · rw [ended] at last
    exact absurd last (Nat.succ_ne_zero _)
  · rwa [ended] at empty

/-- The tables an entry of a directory still needs: one if it is empty. -/
def missing (entry : U64) : Nat := if entry = 0 then 1 else 0

/-- A loop goes on to its end when its body does, though the supply has failed. -/
theorem splitLoop_failed {levelAddrEnd : U64 → U64 → U64}
    {body : (table entryp addr next phys : U64) → Mm σ → Option (Mm σ)} {w lo last fuel : Nat}
    {table entryp addr end_ phys : U64} {s : Mm σ}
    (cuts : ∀ {lo addr end_}, lo < last → addr.toNat = lo * 4096 → endNat end_ = last * 4096 →
      endNat (levelAddrEnd addr end_) = cut w lo last * 4096)
    (body_failed : ∀ {at_ table entryp addr next phys s}, lo ≤ at_ → at_ < last →
      addr.toNat = at_ * 4096 → endNat next = cut w at_ last * 4096 → Failed s.pool →
      ∃ s', body table entryp addr next phys s = some s' ∧ Failed s'.pool)
    (some_ : lo < last) (fueled : blocks w lo last ≤ fuel) (starts : addr.toNat = lo * 4096)
    (ends : endNat end_ = last * 4096) (failed : Failed s.pool) :
    ∃ s', splitLoop levelAddrEnd body fuel table entryp addr end_ phys s = some s' ∧
      Failed s'.pool := by
  -- The invariant is the failure itself, which every round keeps.
  obtain ⟨_, _, s', ran, failed'⟩ := @splitLoop_invariant σ levelAddrEnd body w lo last table
    (fun _ _ _ s => Failed s.pool) cuts
    (fun above below at_ next before => body_failed above below at_ next before)
    fuel lo entryp addr end_ phys s (Nat.le_refl lo) some_ fueled starts ends failed
  exact ⟨s', ran, failed'⟩

/-- A loop has the outcome of its blocks, in the tables that its range needs. -/
theorem splitLoop_outcome {levelAddrEnd : U64 → U64 → U64}
    {body : (table entryp addr next phys : U64) → Mm σ → Option (Mm σ)} {w lo last fuel : Nat}
    {addr end_ phys : U64} {s : Mm σ} (needs : Nat → Nat → Finset (List Index))
    (joined : ∀ {mid hi}, lo ≤ mid → mid ≤ hi → needs lo mid ∪ needs mid hi = needs lo hi)
    (none_ : needs lo lo = ∅) (short : ∀ {mid hi}, ∀ P ∈ needs mid hi, P.length ≤ 2)
    {P : List Index} {page : Ppn} (within : P.length ≤ 2)
    (cuts : ∀ {lo addr end_}, lo < last → addr.toNat = lo * 4096 → endNat end_ = last * 4096 →
      endNat (levelAddrEnd addr end_) = cut w lo last * 4096)
    (body_failed : ∀ {at_ table entryp addr next phys s}, lo ≤ at_ → at_ < last →
      addr.toNat = at_ * 4096 → endNat next = cut w at_ last * 4096 → Failed s.pool →
      ∃ s', body table entryp addr next phys s = some s' ∧ Failed s'.pool)
    (body_outcome : ∀ {at_ addr next phys s}, lo ≤ at_ → at_ < last → addr.toNat = at_ * 4096 →
      endNat next = cut w at_ last * 4096 → Carries prot pte at_ phys → Sound pages root s →
      Radix.descend child (tables s.mem) root P = some page →
      (∀ n, at_ ≤ n → n < cut w at_ last → Clear s.mem root n) →
      ∃ s', body (frameAddr page) (entryAddr page (slot (at_ / 2 ^ w))) addr next phys s = some s' ∧
        Outcome pages Fine Failed root at_ (cut w at_ last) pte (needs at_ (cut w at_ last)) s s')
    (window : last ≤ lo + 2 ^ 27) (directory : (last - 1) / 2 ^ w / 512 = lo / 2 ^ w / 512)
    (some_ : lo < last) (fueled : blocks w lo last ≤ fuel) (starts : addr.toNat = lo * 4096)
    (ends : endNat end_ = last * 4096) (carries : Carries prot pte lo phys)
    (sound : Sound pages root s) (located : Radix.descend child (tables s.mem) root P = some page)
    (clear : ∀ n, lo ≤ n → n < last → Clear s.mem root n) :
    ∃ s', splitLoop levelAddrEnd body fuel (frameAddr page) (entryAddr page (slot (lo / 2 ^ w)))
        addr end_ phys s = some s' ∧
      Outcome pages Fine Failed root lo last pte (needs lo last) s s' := by
  have start : Traced pages Fine root lo lo pte (needs lo lo) s s := none_ ▸ Traced.refl sound
  have run := @splitLoop_invariant σ levelAddrEnd body w lo last (frameAddr page)
    (fun at_ entryp phys s₁ => (at_ < last → entryp = entryAddr page (slot (at_ / 2 ^ w))) ∧
      Carries prot pte at_ phys ∧ Outcome pages Fine Failed root lo at_ pte (needs lo at_) s s₁)
    cuts ?_ fuel lo _ addr end_ phys s (Nat.le_refl lo) some_ fueled starts ends
    ⟨fun _ => rfl, carries, Or.inl start⟩
  · obtain ⟨_, _, s', ran, _, _, outcome⟩ := run
    exact ⟨s', ran, outcome⟩
  · rintro at_ entryp addr next phys s₁ above below addrs nexts ⟨entry, carried, before⟩
    have cutAbove := lt_cut (w := w) below
    have cutBelow := cut_le w at_ last
    have union := joined above (Nat.le_of_lt cutAbove)
    rw [entry below]
    -- The next block has the next entry of the same table.
    have onward : cut w at_ last < last → entryAddr page (slot (at_ / 2 ^ w)) + entrySize =
        entryAddr page (slot (cut w at_ last / 2 ^ w)) := fun more =>
      entryAddr_cut above more directory
    have carries' := carried.advance (Nat.le_of_lt cutAbove)
    rcases before with traced | ⟨few, failed⟩
    · obtain ⟨s₂, ran, outcome⟩ := body_outcome above below addrs nexts carried traced.sound
        (traced.keeps P page within located)
        (fun n lower upper => traced.toExtends.clear (fun m _ _ => by omega)
          (clear n (by omega) (by omega)))
      exact ⟨s₂, ran, onward, carries', union ▸ traced.andThen outcome above
        (Nat.le_of_lt cutAbove) (by omega) short⟩
    · -- The supply has run out, and the loop goes on with whatever it was given.
      obtain ⟨s₂, ran, failed'⟩ := body_failed above below addrs nexts failed
      exact ⟨s₂, ran, onward, carries', union ▸ outcome_of_failed few
        Finset.subset_union_left failed'⟩

/-! ### The three levels -/

/-- The loop over last-level entries needs no table. -/
theorem allocInitPteLoop_traced {page : Ppn} {fuel lo hi : Nat} {addr end_ phys : U64} {s : Mm σ}
    (sound : Sound pages root s) (fueled : 512 ≤ fuel) (some_ : lo < hi)
    (within : (hi - 1) / 2 ^ 9 = lo / 2 ^ 9) (at_ : addr.toNat = lo * 4096)
    (ends : endNat end_ = hi * 4096) (carries : Carries prot pte lo phys)
    (located : Radix.descend child (tables s.mem) root [slot (lo / 2 ^ 18), slot (lo / 2 ^ 9)] =
      some page) (clear : ∀ n, lo ≤ n → n < hi → Clear s.mem root n) :
    ∃ s', allocInitPteLoop prot fuel (frameAddr page) (entryAddr page (slot lo)) addr end_ phys s =
        some s' ∧ Traced pages Fine root lo hi pte ∅ s s' := by
  have whole : lo / 2 ^ 0 = lo := Nat.div_one lo
  have number : blocks 0 lo hi ≤ fuel := by
    rw [blocks, Nat.pow_zero, Nat.div_one, Nat.div_one]
    omega
  have run := @splitLoop_outcome σ pages Fine (fun _ => False) root prot pte
    (fun addr _ => addr + pageSize)
    (fun table ptep _ _ phys s => some (s.store table ptep (pfnPte (pfnDown phys) prot)))
    0 lo hi fuel addr end_ phys s (fun _ _ => ∅) (fun _ _ => Finset.empty_union ∅) rfl (by simp)
    [slot (lo / 2 ^ 18), slot (lo / 2 ^ 9)] page (Nat.le_refl 2)
    (fun below at_ _ => endNat_pageEnd below at_) (fun _ _ _ _ failed => failed.elim)
    ?_ (by omega) (by omega) some_ number at_ ends carries sound located clear
  · obtain ⟨s', ran, outcome⟩ := run
    rw [whole, ← allocInitPteLoop_eq] at ran
    rcases outcome with traced | ⟨_, failed⟩
    · exact ⟨s', ran, traced⟩
    · exact failed.elim
  · intro n addr next phys s lower upper _ _ carried sound there _
    -- Page `n` has its entry in the same table as page `lo`.
    have middle : n / 2 ^ 9 = lo / 2 ^ 9 := by omega
    have top : n / 2 ^ 18 = lo / 2 ^ 18 := by omega
    rw [← middle, ← top] at there
    have entry : pfnPte (pfnDown phys) prot = pte n := by
      rw [carried n (Nat.le_refl n)]
      simp
    have one : cut 0 n hi = n + 1 := by
      rw [cut, Nat.pow_zero, Nat.div_one, Nat.mul_one, Nat.min_eq_left upper]
    refine ⟨_, rfl, Or.inl ?_⟩
    rw [one, entry, Nat.pow_zero, Nat.div_one]
    exact Traced.setPte sound there

/-- The path through an entry of a clear walk lacks a table exactly when the entry is empty. -/
theorem lacking_entry {mem : Memory} {n : Nat} {P : List Index} {page : Ppn} {index next : Index}
    {more : List Index} (clear : Clear mem root n)
    (path : [slot (n / 2 ^ 18), slot (n / 2 ^ 9), slot n] = P ++ index :: next :: more)
    (located : Radix.descend child (tables mem) root P = some page) :
    (lacking mem root {P ++ [index]}).card = missing (mem (entryAddr page index)) := by
  have through : Radix.descend child (tables mem) root (P ++ [index]) =
      child (mem (entryAddr page index)) := by
    rw [Radix.descend_concat, located]
    rfl
  rw [lacking, Finset.filter_singleton, through, missing]
  -- On a clear walk an entry is a pointer or empty.
  cases points : child (mem (entryAddr page index)) with
  | none =>
    have empty := entry_of_clear clear path located points
    simp [empty]
  | some table =>
    rw [if_neg (child_ne_zero points), if_neg (Option.some_ne_none table), Finset.card_empty]

/-- Opening a directory entry finds its table, or makes it if the supply has a page. -/
theorem openEntry_outcome (provision : Provision alloc pages Fine Failed) {entryNone : U64 → Bool}
    (empties : ∀ entry, entryNone entry = (entry == 0)) {s : Mm σ} (sound : Sound pages root s)
    {n : Nat} (lo : Nat) {P : List Index} {page : Ppn} {index next : Index} {more : List Index}
    (clear : Clear s.mem root n)
    (path : [slot (n / 2 ^ 18), slot (n / 2 ^ 9), slot n] = P ++ index :: next :: more)
    (located : Radix.descend child (tables s.mem) root P = some page) :
    Outcome pages Fine Failed root lo lo pte {P ++ [index]} s
      (s.openEntry alloc entryNone (frameAddr page) (entryAddr page index)) := by
  -- Only directories above the last level are opened.
  have within : P.length < 2 := by
    have lengths := congrArg List.length path
    simp only [List.length_append, List.length_cons, List.length_nil] at lengths
    omega
  have short : ∀ Q ∈ ({P ++ [index]} : Finset (List Index)), Q.length ≤ 2 := by
    intro Q member
    rw [Finset.mem_singleton.mp member, List.length_append, List.length_singleton]
    exact within
  have read : Traced pages Fine root lo lo pte ∅ s
      (s.touch (frameAddr page) (entryAddr page index)) :=
    Traced.touch sound (Nat.le_of_lt within) located
  have same : (s.touch (frameAddr page) (entryAddr page index)).mem = s.mem := rfl
  have count := lacking_entry clear path located
  rw [Mm.openEntry, empties, same]
  by_cases empty : s.mem (entryAddr page index) = 0
  · rw [missing, if_pos empty] at count
    simp only [empty, beq_self_eq_true, if_true]
    rcases Nat.lt_or_ge (pages s.pool).length 1 with few | available
    · -- There is no page left, and what is returned instead is used.
      refine Or.inr ⟨by omega, provision.fails s.mem s.pool ?_⟩
      exact List.eq_nil_of_length_eq_zero (by omega)
    · have made : Traced pages Fine root lo lo pte {P ++ [index]} _ _ :=
        Traced.allocTable provision read.sound within located empty available
      have both := read.trans made (Nat.le_refl lo) (Nat.le_refl lo) (Nat.le_add_right lo _)
      rw [Finset.empty_union] at both
      exact Or.inl both
  · -- The entry names the table already, and only the access is recorded.
    rw [missing, if_neg empty] at count
    simp only [beq_false_of_ne empty, Bool.false_eq_true, if_false]
    refine Or.inl (read.enlarge (Finset.empty_subset _) short fun Q member _ => ?_)
    cases there : Radix.descend child (tables s.mem) root Q with
    | some table => exact ⟨table, rfl⟩
    | none =>
      have lacks : Q ∈ lacking s.mem root {P ++ [index]} := mem_lacking.mpr ⟨member, there⟩
      rw [Finset.card_eq_zero.mp count] at lacks
      cases lacks

/-- The table that was opened is the one its entry names. -/
theorem Traced.opened {lo : Nat} {s s' : Mm σ} {P : List Index} {page : Ppn} {index : Index}
    (part : Traced pages Fine root lo lo pte {P ++ [index]} s s') (within : P.length ≤ 2)
    (located : Radix.descend child (tables s.mem) root P = some page) :
    ∃ table, Radix.descend child (tables s'.mem) root (P ++ [index]) = some table ∧
      child (s'.mem (entryAddr page index)) = some table := by
  obtain ⟨table, leads⟩ := part.reached _ (Finset.mem_singleton_self _)
  refine ⟨table, leads, ?_⟩
  -- The path to the directory did not change.
  rw [Radix.descend_concat, part.keeps P page within located] at leads
  exact leads

/-- Opening an entry does not undo a failure. -/
theorem openEntry_failed (provision : Provision alloc pages Fine Failed) {entryNone : U64 → Bool}
    {s : Mm σ} {table entry : U64} (failed : Failed s.pool) :
    Failed (s.openEntry alloc entryNone table entry).pool := by
  rw [Mm.openEntry]
  -- Only an empty entry asks the supply for a page.
  split
  · exact provision.sticky _ _ failed
  · exact failed

/-- The loop over last-level entries ends whatever it was given. -/
theorem allocInitPteLoop_failed {fuel lo hi : Nat} {table ptep addr end_ phys : U64} {s : Mm σ}
    (fueled : 512 ≤ fuel) (some_ : lo < hi) (within : (hi - 1) / 2 ^ 9 = lo / 2 ^ 9)
    (at_ : addr.toNat = lo * 4096) (ends : endNat end_ = hi * 4096) (failed : Failed s.pool) :
    ∃ s', allocInitPteLoop prot fuel table ptep addr end_ phys s = some s' ∧ Failed s'.pool := by
  have number : blocks 0 lo hi ≤ fuel := by
    rw [blocks, Nat.pow_zero, Nat.div_one, Nat.div_one]
    omega
  -- The last level takes no page at all.
  rw [allocInitPteLoop_eq]
  exact splitLoop_failed (fun below at_ _ => endNat_pageEnd below at_)
    (fun _ _ _ _ before => ⟨_, rfl, before⟩) some_ number at_ ends failed

/-- So does `alloc_init_pte`. -/
theorem allocInitPte_failed (provision : Provision alloc pages Fine Failed) {fuel lo hi : Nat}
    {table pmdp addr end_ phys : U64} {s : Mm σ} (fueled : 512 ≤ fuel) (some_ : lo < hi)
    (within : (hi - 1) / 2 ^ 9 = lo / 2 ^ 9) (at_ : addr.toNat = lo * 4096)
    (ends : endNat end_ = hi * 4096) (failed : Failed s.pool) :
    ∃ s', allocInitPte alloc prot fuel table pmdp addr end_ phys s = some s' ∧ Failed s'.pool :=
  allocInitPteLoop_failed fueled some_ within at_ ends (openEntry_failed provision failed)

/-- The loop over directory entries ends whatever it was given. -/
theorem allocInitPmdLoop_failed (provision : Provision alloc pages Fine Failed) {fuel lo hi : Nat}
    {table pmdp addr end_ phys : U64} {s : Mm σ} (fueled : 512 ≤ fuel) (some_ : lo < hi)
    (within : (hi - 1) / 2 ^ 18 = lo / 2 ^ 18) (at_ : addr.toNat = lo * 4096)
    (ends : endNat end_ = hi * 4096) (failed : Failed s.pool) :
    ∃ s', splitLoop pmdAddrEnd (allocInitPte alloc prot fuel) fuel table pmdp addr end_ phys s =
      some s' ∧ Failed s'.pool := by
  have number : blocks 9 lo hi ≤ fuel := by
    rw [blocks]
    omega
  -- Each round is one entry of the directory.
  exact splitLoop_failed (fun _ at_ ends => endNat_cut endNat_pmdAddrEnd at_ ends)
    (fun _ below addrs nexts before => allocInitPte_failed provision fueled (lt_cut below)
      (cut_block below) addrs nexts before)
    some_ number at_ ends failed

/-- So does `alloc_init_pmd`. -/
theorem allocInitPmd_failed (provision : Provision alloc pages Fine Failed) {fuel lo hi : Nat}
    {table pgdp addr end_ phys : U64} {s : Mm σ} (fueled : 512 ≤ fuel) (some_ : lo < hi)
    (within : (hi - 1) / 2 ^ 18 = lo / 2 ^ 18) (at_ : addr.toNat = lo * 4096)
    (ends : endNat end_ = hi * 4096) (failed : Failed s.pool) :
    ∃ s', allocInitPmd alloc prot fuel table pgdp addr end_ phys s = some s' ∧ Failed s'.pool :=
  allocInitPmdLoop_failed provision fueled some_ within at_ ends (openEntry_failed provision failed)

/-- `alloc_init_pte` maps the pages of one last-level table. -/
theorem allocInitPte_outcome (provision : Provision alloc pages Fine Failed) {fuel lo hi : Nat}
    {addr end_ phys : U64} {s : Mm σ} {page : Ppn} (sound : Sound pages root s)
    (fueled : 512 ≤ fuel) (some_ : lo < hi) (within : (hi - 1) / 2 ^ 9 = lo / 2 ^ 9)
    (at_ : addr.toNat = lo * 4096) (ends : endNat end_ = hi * 4096)
    (carries : Carries prot pte lo phys)
    (located : Radix.descend child (tables s.mem) root [slot (lo / 2 ^ 18)] = some page)
    (clear : ∀ n, lo ≤ n → n < hi → Clear s.mem root n) :
    ∃ s', allocInitPte alloc prot fuel (frameAddr page) (entryAddr page (slot (lo / 2 ^ 9)))
        addr end_ phys s = some s' ∧
      Outcome pages Fine Failed root lo hi pte (tablePaths lo hi) s s' := by
  have path : [slot (lo / 2 ^ 18), slot (lo / 2 ^ 9), slot lo] =
      [slot (lo / 2 ^ 18)] ++ slot (lo / 2 ^ 9) :: slot lo :: [] := rfl
  -- The range needs the table below the entry, besides the one the entry is in.
  have own : {[slot (lo / 2 ^ 18)] ++ [slot (lo / 2 ^ 9)]} ⊆ tablePaths lo hi := by
    rw [Finset.singleton_subset_iff, mem_tablePaths]
    exact ⟨lo, Nat.le_refl lo, some_, Or.inr rfl⟩
  obtain ⟨s₁, opening⟩ : ∃ s₁, s.openEntry alloc pmdNone (frameAddr page)
      (entryAddr page (slot (lo / 2 ^ 9))) = s₁ := ⟨_, rfl⟩
  have outcome : Outcome pages Fine Failed root lo lo pte _ s s₁ := opening ▸
    openEntry_outcome provision (fun _ => rfl) sound lo (clear lo (Nat.le_refl lo) some_) path
      located
  rcases outcome with opened | ⟨few, failed⟩
  · obtain ⟨table, reached, points⟩ := opened.opened (Nat.le_succ 1) located
    -- Then the loop fills the table.
    obtain ⟨s', ran, filled⟩ := allocInitPteLoop_traced opened.sound fueled some_ within at_ ends
      carries reached fun n lower upper => opened.toExtends.clear (fun m _ _ => by omega)
        (clear n lower upper)
    have pageNumber : addr.toNat / 2 ^ 12 = lo := by omega
    refine ⟨s', ?_, Or.inl ((opened.trans filled (Nat.le_refl lo) (Nat.le_of_lt some_)
      (by omega)).enlarge ?_ (fun _ => tablePaths_short) ?_)⟩
    · simp only [allocInitPte, opening, pmdPagePaddr, entryPagePaddr_of_child points,
        getPtepFromPmdp_eq addr points, pageNumber]
      exact ran
    · rw [Finset.union_empty]
      exact own
    · -- Of the tables that are needed this one was opened, and the ones above were there.
      intro Q member other
      rw [Finset.union_empty, Finset.mem_singleton] at other
      obtain ⟨n, lower, upper, rfl | rfl⟩ := mem_tablePaths.mp member
      · have top : n / 2 ^ 18 = lo / 2 ^ 18 := by omega
        rw [top]
        exact ⟨page, located⟩
      · have top : n / 2 ^ 18 = lo / 2 ^ 18 := by omega
        have middle : n / 2 ^ 9 = lo / 2 ^ 9 := by omega
        exact absurd (by rw [top, middle]; rfl) other
  · -- The supply was empty, and what follows stays in what has failed.
    obtain ⟨s', ran, failed'⟩ := allocInitPteLoop_failed fueled some_ within at_ ends failed
    refine ⟨s', ?_, outcome_of_failed few own failed'⟩
    simp only [allocInitPte, opening]
    exact ran

/-- `alloc_init_pmd` maps the pages below one entry of the root. -/
theorem allocInitPmd_outcome (provision : Provision alloc pages Fine Failed) {fuel lo hi : Nat}
    {addr end_ phys : U64} {s : Mm σ} (sound : Sound pages root s) (fueled : 512 ≤ fuel)
    (some_ : lo < hi) (within : (hi - 1) / 2 ^ 18 = lo / 2 ^ 18) (at_ : addr.toNat = lo * 4096)
    (ends : endNat end_ = hi * 4096) (carries : Carries prot pte lo phys)
    (clear : ∀ n, lo ≤ n → n < hi → Clear s.mem root n) :
    ∃ s', allocInitPmd alloc prot fuel (frameAddr root) (entryAddr root (slot (lo / 2 ^ 18)))
        addr end_ phys s = some s' ∧
      Outcome pages Fine Failed root lo hi pte (tablePaths lo hi) s s' := by
  have path : [slot (lo / 2 ^ 18), slot (lo / 2 ^ 9), slot lo] =
      [] ++ slot (lo / 2 ^ 18) :: slot (lo / 2 ^ 9) :: [slot lo] := rfl
  -- The range needs the table below the entry of the root.
  have own : {[] ++ [slot (lo / 2 ^ 18)]} ⊆ tablePaths lo hi := by
    rw [Finset.singleton_subset_iff, mem_tablePaths]
    exact ⟨lo, Nat.le_refl lo, some_, Or.inl rfl⟩
  obtain ⟨s₁, opening⟩ : ∃ s₁, s.openEntry alloc pgdNone (frameAddr root)
      (entryAddr root (slot (lo / 2 ^ 18))) = s₁ := ⟨_, rfl⟩
  have outcome : Outcome pages Fine Failed root lo lo pte _ s s₁ := opening ▸
    openEntry_outcome provision (fun _ => rfl) sound lo (clear lo (Nat.le_refl lo) some_) path rfl
  rcases outcome with opened | ⟨few, failed⟩
  · obtain ⟨table, reached, points⟩ := opened.opened (Nat.zero_le 2) rfl
    -- Then the loop opens one table of leaves for each block below it.
    have run := @splitLoop_outcome σ pages Fine Failed root prot pte pmdAddrEnd
      (allocInitPte alloc prot fuel) 9 lo hi fuel addr end_ phys s₁ tablePaths tablePaths_union
      (tablePaths_self lo) (fun _ => tablePaths_short) [slot (lo / 2 ^ 18)] table (Nat.le_succ 1)
      (fun _ at_ ends => endNat_cut endNat_pmdAddrEnd at_ ends)
      (fun _ below addrs nexts before => allocInitPte_failed provision fueled (lt_cut below)
        (cut_block below) addrs nexts before)
      ?_ (by omega) (by omega) some_ (by rw [blocks]; omega) at_ ends carries opened.sound reached
      fun n lower upper => opened.toExtends.clear (fun m _ _ => by omega) (clear n lower upper)
    · obtain ⟨s', ran, filled⟩ := run
      have union := Finset.union_eq_right.mpr own
      refine ⟨s', ?_, union ▸ opened.andThen filled (Nat.le_refl lo) (Nat.le_of_lt some_)
        (by omega) fun _ => tablePaths_short⟩
      have pageNumber : addr.toNat / 2 ^ 21 = lo / 2 ^ 9 := by omega
      simp only [allocInitPmd, opening, pgdPagePaddr, entryPagePaddr_of_child points,
        getPmdpFromPgdp_eq addr points, pageNumber]
      exact ran
    · -- A block is below the same entry of the root as the range.
      intro n addr next phys s₂ lower below addrs nexts carried sound' there clear'
      have top : n / 2 ^ 18 = lo / 2 ^ 18 := by omega
      rw [← top] at there
      exact allocInitPte_outcome provision sound' fueled (lt_cut below) (cut_block below) addrs
        nexts carried there clear'
  · -- Without a page for the table the loops run on and map nothing.
    obtain ⟨s', ran, failed'⟩ := allocInitPmdLoop_failed provision fueled some_ within at_ ends
      failed
    refine ⟨s', ?_, outcome_of_failed few own failed'⟩
    simp only [allocInitPmd, opening]
    exact ran

/-- `__create_pgd_mapping` maps every page of its range, if it gets the tables that are lacking. -/
theorem createPgdMapping_outcome (provision : Provision alloc pages Fine Failed) {fuel lo hi : Nat}
    {phys virt size : U64} {s : Mm σ} (sound : Sound pages root s) (fueled : 512 ≤ fuel)
    (some_ : lo < hi) (within : (hi - 1) / 2 ^ 27 = lo / 2 ^ 27)
    (starts : (pageAlignDown virt).toNat = lo * 4096)
    (ends : endNat (pageAlignUp (virt + size)) = hi * 4096)
    (carries : Carries prot pte lo (pageAlignDown phys))
    (clear : ∀ n, lo ≤ n → n < hi → Clear s.mem root n) :
    ∃ s', createPgdMapping alloc prot fuel (frameAddr root) phys virt size s = some s' ∧
      Outcome pages Fine Failed root lo hi pte (tablePaths lo hi) s s' := by
  -- The outer loop cuts the range where the index of the root changes.
  have run := @splitLoop_outcome σ pages Fine Failed root prot pte pgdAddrEnd
    (allocInitPmd alloc prot fuel) 18 lo hi fuel _ _ (pageAlignDown phys) s tablePaths
    tablePaths_union (tablePaths_self lo) (fun _ => tablePaths_short) [] root (Nat.zero_le 2)
    (fun _ at_ ends => endNat_cut endNat_pgdAddrEnd at_ ends)
    (fun _ below addrs nexts before => allocInitPmd_failed provision fueled (lt_cut below)
      (cut_block below) addrs nexts before)
    (fun _ below addrs nexts carried sound' _ clear' => allocInitPmd_outcome provision sound' fueled
      (lt_cut below) (cut_block below) addrs nexts carried clear')
    (by omega) (by omega) some_ (by rw [blocks]; omega) starts ends carries sound rfl clear
  -- The code starts from the address itself and not from the one rounded down.
  have pageNumber : virt.toNat / 2 ^ 30 = lo / 2 ^ 18 := by
    rw [pageAlignDown_toNat] at starts
    omega
  rw [createPgdMapping, pgdOffsetRaw_eq, pageNumber]
  exact run

/-! ### With pages enough -/

/-- The table pages a range can need: one for every directory entry it meets, on both levels. -/
def tablesNeeded (lo hi : Nat) : Nat := blocks 18 lo hi + blocks 9 lo hi

/-- The blocks that a range meets, by their numbers. -/
theorem card_image_blocks (lo hi w : Nat) (path : Nat → List Index) :
    ((Finset.Ico lo hi).image fun n => path (n / 2 ^ w)).card ≤ blocks w lo hi := by
  have inside : (Finset.Ico lo hi).image (fun n => path (n / 2 ^ w)) ⊆
      (Finset.Icc (lo / 2 ^ w) ((hi - 1) / 2 ^ w)).image path := by
    intro P member
    obtain ⟨n, range, rfl⟩ := Finset.mem_image.mp member
    obtain ⟨lower, upper⟩ := Finset.mem_Ico.mp range
    refine Finset.mem_image_of_mem path (Finset.mem_Icc.mpr ⟨?_, ?_⟩)
    · exact Nat.div_le_div_right lower
    · exact Nat.div_le_div_right (by omega)
  -- There are no more paths than blocks.
  refine (Finset.card_le_card inside).trans (Finset.card_image_le.trans ?_)
  rw [Nat.card_Icc, blocks]
  omega

/-- A range lacks no more tables than it can need. -/
theorem lacking_le_tablesNeeded (mem : Memory) (root : Ppn) (lo hi : Nat) :
    (lacking mem root (tablePaths lo hi)).card ≤ tablesNeeded lo hi := by
  have levels : tablePaths lo hi ⊆
      (Finset.Ico lo hi).image (fun n => [slot (n / 2 ^ 18)]) ∪
        (Finset.Ico lo hi).image fun n => [slot (n / 2 ^ 9 / 2 ^ 9), slot (n / 2 ^ 9)] := by
    intro P member
    obtain ⟨n, lower, upper, rfl | rfl⟩ := mem_tablePaths.mp member
    · exact Finset.mem_union_left _
        (Finset.mem_image_of_mem _ (Finset.mem_Ico.mpr ⟨lower, upper⟩))
    · refine Finset.mem_union_right _
        (Finset.mem_image.mpr ⟨n, Finset.mem_Ico.mpr ⟨lower, upper⟩, ?_⟩)
      rw [Nat.div_div_eq_div_mul]
      rfl
  have top := card_image_blocks lo hi 18 fun block => [slot block]
  have middle := card_image_blocks lo hi 9 fun block => [slot (block / 2 ^ 9), slot block]
  -- At most one table for each block of each level is lacking.
  calc (lacking mem root (tablePaths lo hi)).card
      ≤ (tablePaths lo hi).card := Finset.card_filter_le _ _
    _ ≤ _ := Finset.card_le_card levels
    _ ≤ _ := Finset.card_union_le _ _
    _ ≤ tablesNeeded lo hi := Nat.add_le_add top middle

/-- One page lacks at most the tables that its walk did not reach. -/
theorem lacking_le_walk (mem : Memory) (root : Ppn) (n : Nat) :
    (lacking mem root (tablePaths n (n + 1))).card ≤ (pageWalk mem root n).1 := by
  have paths : tablePaths n (n + 1) =
      {[slot (n / 2 ^ 18)], [slot (n / 2 ^ 18), slot (n / 2 ^ 9)]} := by
    rw [tablePaths, Nat.Ico_succ_singleton, Finset.singleton_biUnion]
  rw [paths, pageWalk, Radix.walk]
  cases first : child (tables mem root (slot (n / 2 ^ 18))) with
  | none => exact (Finset.card_filter_le _ _).trans Finset.card_le_two
  | some table =>
    have top : Radix.descend child (tables mem) root [slot (n / 2 ^ 18)] = some table := by
      rw [Radix.descend, first]
      rfl
    have both : Radix.descend child (tables mem) root [slot (n / 2 ^ 18), slot (n / 2 ^ 9)] =
        child (tables mem table (slot (n / 2 ^ 9))) := by
      rw [Radix.descend, first]
      exact @Radix.descend_concat _ _ _ child (tables mem) table [] (slot (n / 2 ^ 9))
    -- The first table is there, so only the second one may be lacking.
    rw [lacking, Finset.filter_insert, top, if_neg (Option.some_ne_none table),
      Finset.filter_singleton, both]
    show _ ≤ (Radix.walk child (tables mem) table (slot (n / 2 ^ 9)) [slot n]).1
    rw [Radix.walk]
    cases second : child (tables mem table (slot (n / 2 ^ 9))) with
    | none => exact Nat.le_of_eq (Finset.card_singleton _)
    | some last => exact Nat.zero_le _

/-- An outcome with pages enough found every table. -/
theorem Outcome.traced {lo hi : Nat} {paths : Finset (List Index)} {s s' : Mm σ}
    (outcome : Outcome pages Fine Failed root lo hi pte paths s s')
    (enough : (lacking s.mem root paths).card ≤ (pages s.pool).length) :
    Traced pages Fine root lo hi pte paths s s' := by
  rcases outcome with traced | ⟨few, -⟩
  · exact traced
  · exact absurd few (Nat.not_lt.mpr enough)

/-- One page from an aligned address on ends at the next page. -/
theorem endNat_onePage {addr : U64} (aligned : addr.toNat % 4096 = 0) :
    endNat (pageAlignUp (addr + pageSize)) = (addr.toNat / 4096 + 1) * 4096 := by
  have bound := addr.isLt
  rw [endNat_eq, pageAlignUp_toNat, BitVec.toNat_add, pageSize_toNat]
  -- The last page of the address space ends at its end.
  split <;> omega

/-- `__create_pgd_mapping` of `PAGE_SIZE` bytes writes one entry, that of the page given. -/
theorem createPgdMapping_onePage (supplies : Supplies alloc pages) {fuel : Nat}
    {phys virt : U64} {s : Mm σ} (sound : Sound pages root s) (fueled : 512 ≤ fuel)
    (aligned : virt.toNat % 4096 = 0) (clear : Clear s.mem root (virt.toNat / 4096))
    (available : (pageWalk s.mem root (virt.toNat / 4096)).1 ≤ (pages s.pool).length) :
    ∃ s', createPgdMapping alloc prot fuel (frameAddr root) phys virt pageSize s = some s' ∧
      Traced pages (fun _ => True) root (virt.toNat / 4096) (virt.toNat / 4096 + 1)
        (fun _ => pfnPte (pfnDown phys) prot)
        (tablePaths (virt.toNat / 4096) (virt.toNat / 4096 + 1)) s s' := by
  have starts : (pageAlignDown virt).toNat = virt.toNat / 4096 * 4096 := pageAlignDown_toNat virt
  have carries : Carries prot (fun m => pfnPte (pfnDown (pageAlignDown phys +
      BitVec.ofNat 64 ((m - virt.toNat / 4096) * 4096))) prot) (virt.toNat / 4096)
      (pageAlignDown phys) := fun _ _ => rfl
  obtain ⟨s', ran, outcome⟩ := createPgdMapping_outcome supplies.provision sound fueled
    (Nat.lt_succ_self _) (by omega) starts (endNat_onePage aligned) carries
    fun n lower upper => by
      obtain rfl : n = virt.toNat / 4096 := by omega
      exact clear
  -- Rounding the physical address down does not change its page.
  have number : pfnDown (pageAlignDown phys) = pfnDown phys := by
    apply BitVec.eq_of_toNat_eq
    rw [pfnDown_toNat, pfnDown_toNat, pageAlignDown_toNat, Nat.mul_div_cancel _ (by decide)]
  refine ⟨s', ran, (outcome.traced ((lacking_le_walk _ _ _).trans available)).entries
    fun m above below => ?_⟩
  obtain rfl : m = virt.toNat / 4096 := by omega
  simp [number]

end Loops

end Benos
