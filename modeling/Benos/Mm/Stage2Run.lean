import Benos.Mm.Stage2

/-! Whole runs of a guest: every page is granted by at most two faults and never taken back. -/

namespace Benos

open Sv39

variable {σ : Type}

/-! ### Entries -/

/-- An entry that maps page `n` to itself, readable and executable by the guest. -/
structure Identical (n : Nat) (entry : U64) : Prop where
  page : (ppn entry).toNat = n
  valid : isValid entry = true
  readable : isReadable entry = true
  executable : isExecutable entry = true
  user : isUser entry = true

/-- The faults a page can still raise, by the entry its walk ends at. -/
def faultsLeft (entry : U64) : Nat :=
  if entry = 0 then 2 else if isWritable entry then 0 else 1

namespace Identical

variable {n : Nat} {entry : U64}

/-- An entry of a page is not an empty one. -/
theorem ne_zero (identical : Identical n entry) : entry ≠ 0 := by
  rintro rfl
  exact absurd identical.valid (by decide)

/-- Only stores to a page that is not writable can still fault. -/
theorem permits_iff (identical : Identical n entry) (kind : AccessKind) :
    permits kind entry = true ↔ kind = .store → faultsLeft entry = 0 := by
  rw [faultsLeft, if_neg identical.ne_zero]
  cases kind <;>
    simp [permits, identical.user, identical.readable, identical.executable]

/-- A leaf of the last level is always aligned. -/
theorem leaf (identical : Identical n entry) : Sv39.leaf (0, entry) = some (0, entry) := by
  have leaf : isLeaf entry = true := by
    simp [isLeaf, identical.valid, identical.readable]
  simp [Sv39.leaf, leaf, isAligned, Nat.mod_one]

/-- A mapped page has at most one fault left. -/
theorem faultsLeft_le (identical : Identical n entry) : faultsLeft entry ≤ 1 := by
  rw [faultsLeft, if_neg identical.ne_zero]
  split <;> omega

/-- The hardware bits change neither the page nor a permission. -/
theorem markUsed (identical : Identical n entry) (kind : AccessKind) :
    Identical n (entry ||| usedBits kind) ∧
      faultsLeft (entry ||| usedBits kind) = faultsLeft entry := by
  -- The hardware sets bits 6 and 7 only, above those that are read here.
  have bits : ∀ i < 5, (entry ||| usedBits kind).getLsbD i = entry.getLsbD i := by
    intro i low
    have clear : (usedBits kind).getLsbD i = false := by
      rcases i with _ | _ | _ | _ | _ | i
      · cases kind <;> decide
      · cases kind <;> decide
      · cases kind <;> decide
      · cases kind <;> decide
      · cases kind <;> decide
      · omega
    rw [BitVec.getLsbD_or, clear, Bool.or_false]
  -- The page number lies above them.
  have named : ppn (entry ||| usedBits kind) = ppn entry := by
    have clear : (usedBits kind).extractLsb' 10 44 = 0#44 := by cases kind <;> decide
    rw [ppn, BitVec.extractLsb'_or, clear, BitVec.or_zero, ppn]
  have kept : Identical n (entry ||| usedBits kind) :=
    ⟨by rw [named, identical.page], by rw [isValid, bits 0 (by decide)]; exact identical.valid,
      by rw [isReadable, bits 1 (by decide)]; exact identical.readable,
      by rw [isExecutable, bits 3 (by decide)]; exact identical.executable,
      by rw [isUser, bits 4 (by decide)]; exact identical.user⟩
  refine ⟨kept, ?_⟩
  rw [faultsLeft, faultsLeft, if_neg kept.ne_zero, if_neg identical.ne_zero, isWritable,
    bits 2 (by decide), isWritable]

end Identical

/-- The entry the handler writes, by the kind of access. -/
theorem identical_written {n : Nat} {pfn : U64} (kind : AccessKind) (page : pfn.toNat = n)
    (below : n < 2 ^ 27) :
    Identical n (pfnPte pfn
      (if kind.cause == causeStoreGuestPageFault then pageWriteExec else pageReadExec)) ∧
    faultsLeft (pfnPte pfn
      (if kind.cause == causeStoreGuestPageFault then pageWriteExec else pageReadExec)) =
        if kind = .store then 0 else 1 := by
  generalize attributes : (if kind.cause == causeStoreGuestPageFault then pageWriteExec
    else pageReadExec) = prot
  have prots : prot.toNat < 2 ^ 10 ∧ prot.getLsbD 0 = true ∧ prot.getLsbD 1 = true ∧
      prot.getLsbD 3 = true ∧ prot.getLsbD 4 = true ∧
      prot.getLsbD 2 = decide (kind = .store) := by
    rw [← attributes]
    cases kind <;> decide
  -- Both attributes are valid, readable, executable and for user mode.
  obtain ⟨low, zero, one, three, four, two⟩ := prots
  have number : pfn.toNat < 2 ^ 54 := by omega
  have written : Identical n (pfnPte pfn prot) := by
    refine ⟨?_, ?_, ?_, ?_, ?_⟩
    · rw [pfnPte, ppn_pfnEntry (by omega) low, page]
    · rw [isValid, pfnPte, pfnEntry_getLsbD number low (by decide), zero]
    · rw [isReadable, pfnPte, pfnEntry_getLsbD number low (by decide), one]
    · rw [isExecutable, pfnPte, pfnEntry_getLsbD number low (by decide), three]
    · rw [isUser, pfnPte, pfnEntry_getLsbD number low (by decide), four]
  -- Only a store leaves nothing to fault for.
  refine ⟨written, ?_⟩
  rw [faultsLeft, if_neg written.ne_zero, isWritable, pfnPte,
    pfnEntry_getLsbD number low (by decide), two]
  simp

/-- The handler recovers the faulting page, whatever the low bits of `stval`. -/
theorem faultAddr_toNat (gpa stval : U64) :
    ((((gpa >>> 2) <<< 2) ||| (stval &&& 0x3)) &&& pageMask).toNat = gpa.toNat / 4096 * 4096 := by
  have bound := gpa.isLt
  -- `htval` holds the address without its two low bits, which `stval` has.
  have low : (stval &&& 0x3).toNat < 2 ^ 2 := by
    have masked : (stval &&& 0x3).toNat = stval.toNat % 2 ^ 2 :=
      Word.and_low_toNat stval 2 (by decide)
    rw [masked]
    exact Nat.mod_lt _ (by decide)
  have high : ((gpa >>> 2) <<< 2).toNat = (gpa.toNat / 2 ^ 2) <<< 2 := by
    rw [BitVec.toNat_shiftLeft, Word.ushiftRight_toNat, Nat.mod_eq_of_lt]
    rw [Nat.shiftLeft_eq]
    omega
  have joined : (((gpa >>> 2) <<< 2) ||| (stval &&& 0x3)).toNat =
      gpa.toNat / 2 ^ 2 * 2 ^ 2 + (stval &&& 0x3).toNat := by
    rw [BitVec.toNat_or, high, ← Nat.shiftLeft_add_eq_or_of_lt low, Nat.shiftLeft_eq]
  have rounded := pageAlignDown_toNat (((gpa >>> 2) <<< 2) ||| (stval &&& 0x3))
  rw [pageAlignDown] at rounded
  rw [rounded, joined]
  omega

/-! ### One event -/

/-- Below 512 GiB the walk starts in the first page of the root. -/
theorem rootPage_low {root : Ppn} {gpa : U64} (low : gpa.toNat < 2 ^ 39) :
    rootPage root gpa = root := by
  -- The two bits that choose among the four pages of the root are zero.
  have zero : gpa.extractLsb' 39 2 = 0#2 := by
    apply BitVec.eq_of_toNat_eq
    rw [BitVec.extractLsb'_toNat, Nat.shiftRight_eq_div_pow, BitVec.toNat_ofNat]
    omega
  rw [rootPage, zero]
  exact BitVec.add_zero root

/-- Below 512 GiB the translation is the walk of an ordinary tree. -/
theorem translateGuest_eq {mem : Memory} {root : Ppn} {gpa : U64} (low : gpa.toNat < 2 ^ 39) :
    translateGuest mem root gpa = leaf (pageWalk mem root (gpa.toNat / 4096)) := by
  rw [translateGuest, if_pos (by omega), rootPage_low low, Sv39.translate, walk_eq_pageWalk]

/-- The state of a page: unmapped, or mapped to itself in the last level. -/
def PageState (mem : Memory) (root : Ppn) (n : Nat) : Prop :=
  (pageWalk mem root n).2 = 0 ∨
    (pageWalk mem root n).1 = 0 ∧ Identical n (pageWalk mem root n).2

/-- What every state of a run keeps. -/
structure Demand (pages : σ → List U64) (root : Ppn) (s : Mm σ) : Prop where
  sound : Sound pages root s
  state : ∀ n < 2 ^ 27, PageState s.mem root n

section Page

variable {mem : Memory} {root : Ppn} {gpa : U64}

/-- An unmapped page permits nothing. -/
theorem permitted_of_empty (low : gpa.toNat < 2 ^ 39)
    (empty : (pageWalk mem root (gpa.toNat / 4096)).2 = 0) (kind : AccessKind) :
    permitted mem root gpa kind = false := by
  rw [permitted, translateGuest_eq low, leaf_of_empty empty]

/-- A mapped page permits what its entry permits. -/
theorem permitted_of_identical (low : gpa.toNat < 2 ^ 39)
    (last : (pageWalk mem root (gpa.toNat / 4096)).1 = 0)
    (identical : Identical (gpa.toNat / 4096) (pageWalk mem root (gpa.toNat / 4096)).2)
    (kind : AccessKind) :
    permitted mem root gpa kind = permits kind (pageWalk mem root (gpa.toNat / 4096)).2 := by
  have walked : pageWalk mem root (gpa.toNat / 4096) =
      (0, (pageWalk mem root (gpa.toNat / 4096)).2) := Prod.ext last rfl
  rw [permitted, translateGuest_eq low, walked, identical.leaf]

/-- A permitted access to a mapped page is one that translates to itself. -/
theorem granted_of_identical (low : gpa.toNat < 2 ^ 39)
    (last : (pageWalk mem root (gpa.toNat / 4096)).1 = 0)
    (identical : Identical (gpa.toNat / 4096) (pageWalk mem root (gpa.toNat / 4096)).2)
    {kind : AccessKind} (permits_ : permits kind (pageWalk mem root (gpa.toNat / 4096)).2 = true) :
    Granted mem root gpa kind := by
  have walked : pageWalk mem root (gpa.toNat / 4096) =
      (0, (pageWalk mem root (gpa.toNat / 4096)).2) := Prod.ext last rfl
  -- The leaf is of the smallest kind, so the offset is that inside of the page.
  refine ⟨0, (pageWalk mem root (gpa.toNat / 4096)).2, ?_, ?_, identical.user, permits_⟩
  · rw [translateGuest_eq low, walked, identical.leaf]
  · rw [target, identical.page]
    simp only [Nat.pow_zero, Nat.div_one, Nat.mod_one]
    omega

end Page

/-- What one event does: its page gets an entry of its own with as many faults fewer as it raised. -/
structure Grants (pages : σ → List U64) (root : Ppn) (event : GuestEvent) (entry : U64) (spent : Nat)
    (s s' : Mm σ) : Prop where
  low : event.gpa.toNat < 2 ^ 39
  identical : Identical event.page entry
  extends_ : Extends pages root event.page (event.page + 1) (fun _ => entry) spent s s'
  pays : faultsLeft entry + (if event.faultsOn event.page then 1 else 0) ≤
    faultsLeft (pageWalk s.mem root event.page).2
  serves : ∀ gpa stval kind, event = .fault gpa stval kind → permits kind entry = true

section Step

variable {alloc : AllocPgtable σ} {pages : σ → List U64} {fuel : Nat} {root : Ppn}
  {s s' : Mm σ}

/-- The handler writes the entry of one page, and makes the tables for it. -/
theorem stage2PageFault_traced (supplies : Supplies alloc pages) (fueled : 512 ≤ fuel)
    (demand : Demand pages root s) {gpa : U64} (stval : U64) (kind : AccessKind)
    (low : gpa.toNat < 2 ^ 39) (available : (walk s.mem root gpa).1 ≤ (pages s.pool).length) :
    ∃ pfn s', pfn.toNat = gpa.toNat / 4096 ∧
      stage2PageFault alloc fuel (frameAddr root) (gpa >>> 2) stval kind.cause s = some s' ∧
      Traced pages (fun _ => True) root (gpa.toNat / 4096) (gpa.toNat / 4096 + 1)
        (fun _ => pfnPte pfn
          (if kind.cause == causeStoreGuestPageFault then pageWriteExec else pageReadExec))
        (tablePaths (gpa.toNat / 4096) (gpa.toNat / 4096 + 1)) s s' := by
  have inside : gpa.toNat / 4096 < 2 ^ 27 := by omega
  have fault := faultAddr_toNat gpa stval
  unfold stage2PageFault setupHgPageTable
  dsimp only
  generalize (((gpa >>> 2) <<< 2) ||| (stval &&& 0x3)) &&& pageMask = faultAddr at fault ⊢
  -- Whatever page of the guest it is, the address is that of its start.
  have aligned : faultAddr.toNat % 4096 = 0 := by
    rw [fault]
    exact Nat.mul_mod_left _ _
  have page : faultAddr.toNat / 4096 = gpa.toNat / 4096 := by
    rw [fault, Nat.mul_div_cancel _ (by decide)]
  have number : (pfnDown faultAddr).toNat = gpa.toNat / 4096 := (pfnDown_toNat faultAddr).trans page
  generalize (if kind.cause == causeStoreGuestPageFault then pageWriteExec else pageReadExec) = prot
  have clear : Clear s.mem root (faultAddr.toNat / 4096) := by
    rw [page]
    rcases demand.state _ inside with empty | ⟨last, _⟩
    · exact Or.inr empty
    · exact Or.inl last
  rw [walk_eq_pageWalk, ← page] at available
  obtain ⟨s', ran, mapped⟩ :=
    createPgdMapping_onePage supplies demand.sound fueled aligned clear available
  rw [page] at mapped
  exact ⟨pfnDown faultAddr, s', number, ran, mapped⟩

/-- The handler serves a fault that the hardware can raise. -/
theorem stage2PageFault_grants (supplies : Supplies alloc pages) (fueled : 512 ≤ fuel)
    (demand : Demand pages root s) {gpa stval : U64} {kind : AccessKind}
    (low : gpa.toNat < 2 ^ 39) (refused : permitted s.mem root gpa kind = false)
    (available : (walk s.mem root gpa).1 ≤ (pages s.pool).length) :
    ∃ entry spent s', stage2PageFault alloc fuel (frameAddr root) (gpa >>> 2) stval kind.cause s =
        some s' ∧ Grants pages root (.fault gpa stval kind) entry spent s s' := by
  have inside : gpa.toNat / 4096 < 2 ^ 27 := by omega
  obtain ⟨pfn, s', number, ran, mapped⟩ :=
    stage2PageFault_traced supplies fueled demand stval kind low available
  obtain ⟨written, left⟩ := identical_written kind number inside
  generalize (if kind.cause == causeStoreGuestPageFault then pageWriteExec else pageReadExec) =
    prot at written left mapped
  refine ⟨pfnPte pfn prot, _, s', ran, low, written, mapped.toExtends, ?_, ?_⟩
  · -- A page that still refuses the access has more faults left than its new entry.
    have faulted : GuestEvent.faultsOn (GuestEvent.page (.fault gpa stval kind))
        (.fault gpa stval kind) = true := beq_self_eq_true _
    rw [faulted, if_pos rfl, left]
    rcases demand.state _ inside with empty | ⟨last, identical⟩
    · show _ ≤ faultsLeft (pageWalk s.mem root (gpa.toNat / 4096)).2
      rw [empty]
      split <;> decide
    · rw [permitted_of_identical low last identical] at refused
      have unmet := mt (identical.permits_iff kind).mpr (by rw [refused]; exact Bool.false_ne_true)
      obtain ⟨store, remains⟩ := Classical.not_imp.mp unmet
      rw [if_pos store]
      show _ ≤ faultsLeft (pageWalk s.mem root (gpa.toNat / 4096)).2
      omega
  · intro gpa' stval' kind' same
    cases same
    rw [written.permits_iff, left]
    exact fun store => if_pos store

/-- The hardware update is a store to the entry of the page, which is one of the last level. -/
theorem markUsed_eq (demand : Demand pages root s) {gpa : U64} {kind : AccessKind}
    (low : gpa.toNat < 2 ^ 39) (allowed : permitted s.mem root gpa kind = true) :
    ∃ page, Radix.descend child (tables s.mem) root
        [slot (gpa.toNat / 4096 / 2 ^ 18), slot (gpa.toNat / 4096 / 2 ^ 9)] = some page ∧
      Identical (gpa.toNat / 4096) (pageWalk s.mem root (gpa.toNat / 4096)).2 ∧
      markUsed s.mem root gpa kind =
        Function.update s.mem (entryAddr page (slot (gpa.toNat / 4096)))
          ((pageWalk s.mem root (gpa.toNat / 4096)).2 ||| usedBits kind) := by
  have inside : gpa.toNat / 4096 < 2 ^ 27 := by omega
  rcases demand.state _ inside with empty | ⟨last, identical⟩
  · rw [permitted_of_empty low empty] at allowed
    cases allowed
  · -- The walk ends in the last level.
    obtain ⟨P, page, index, path, reached, located, ended⟩ := Radix.locate_of_walk _ last
    obtain ⟨rfl, rfl⟩ : P = [slot (gpa.toNat / 4096 / 2 ^ 18), slot (gpa.toNat / 4096 / 2 ^ 9)] ∧
        index = slot (gpa.toNat / 4096) := by
      have joined : P ++ [index] =
          [slot (gpa.toNat / 4096 / 2 ^ 18), slot (gpa.toNat / 4096 / 2 ^ 9)] ++
            [slot (gpa.toNat / 4096)] := path.symm
      have split := List.append_inj' joined rfl
      exact ⟨split.1, (List.cons.inj split.2).1⟩
    have value : s.mem (entryAddr page (slot (gpa.toNat / 4096))) =
        (pageWalk s.mem root (gpa.toNat / 4096)).2 := ended.symm
    -- The entry that the hardware marks is the one that the walk has ended at.
    have there : Radix.locate child (tables s.mem) (rootPage root gpa) (vpn 2 gpa)
        [vpn 1 gpa, vpn 0 gpa] = (page, slot (gpa.toNat / 4096)) := by
      rw [← located, rootPage_low low, vpn_eq, vpn_eq, vpn_eq,
        Nat.div_div_eq_div_mul, Nat.div_div_eq_div_mul]
      rfl
    refine ⟨page, reached, identical, ?_⟩
    rw [markUsed, there]
    exact congrArg (fun entry => Function.update s.mem _ (entry ||| usedBits kind)) value

/-- The hardware update of an entry grants its page what it was granted before. -/
theorem markUsed_grants (demand : Demand pages root s) {gpa : U64} {kind : AccessKind}
    (low : gpa.toNat < 2 ^ 39) (allowed : permitted s.mem root gpa kind = true) :
    ∃ entry, Grants pages root (.access gpa kind) entry 0 s
      { s with mem := markUsed s.mem root gpa kind } := by
  obtain ⟨page, reached, identical, marked⟩ := markUsed_eq demand low allowed
  obtain ⟨kept, left⟩ := identical.markUsed kind
  -- As a store to the last level it keeps what such stores keep.
  have stored : Extends pages root (gpa.toNat / 4096) (gpa.toNat / 4096 + 1)
      (fun _ => (pageWalk s.mem root (gpa.toNat / 4096)).2 ||| usedBits kind) 0 s _ :=
    Extends.setPte demand.sound reached
  refine ⟨_, low, kept, ?_, ?_, fun _ _ _ same => by cases same⟩
  · rw [marked]
    exact ⟨⟨stored.sound.unshared, stored.sound.distinct, stored.sound.fresh⟩, stored.keeps,
      stored.mapped, stored.others, stored.supply, fun _ member => Or.inl member⟩
  · show _ ≤ faultsLeft (pageWalk s.mem root (gpa.toNat / 4096)).2
    rw [left]
    exact Nat.le_refl _

/-- The hardware update spares every page that is no table of the tree. -/
theorem markUsed_spares (demand : Demand pages root s) {gpa : U64} {kind : AccessKind}
    (low : gpa.toNat < 2 ^ 39) (allowed : permitted s.mem root gpa kind = true) :
    Radix.Spares child (tables s.mem) (tables (markUsed s.mem root gpa kind)) root 2
      (Unused pages s) := by
  obtain ⟨page, reached, _, marked⟩ := markUsed_eq demand low allowed
  rw [marked, tables_update]
  exact Radix.spares_set_leaf demand.sound.unshared rfl reached

/-- Every event grants its page an entry. -/
theorem guestStep_grants (supplies : Supplies alloc pages) (fueled : 512 ≤ fuel)
    (demand : Demand pages root s) {event : GuestEvent}
    (took : guestStep alloc pages fuel root event s = some s') :
    ∃ entry spent, Grants pages root event entry spent s s' := by
  -- A fault is served by the handler, and an access that is granted sets bits only.
  cases event with
  | fault gpa stval kind =>
    simp only [guestStep] at took
    split at took
    · rename_i raised
      obtain ⟨low, refused, available⟩ := raised
      obtain ⟨entry, spent, s'', ran, grants⟩ :=
        stage2PageFault_grants supplies fueled demand low refused available
      obtain rfl : s'' = s' := Option.some.inj (ran.symm.trans took)
      exact ⟨entry, spent, grants⟩
    · cases took
  | access gpa kind =>
    simp only [guestStep] at took
    split at took
    · rename_i passed
      obtain ⟨entry, grants⟩ := markUsed_grants demand passed.1 passed.2
      cases took
      exact ⟨entry, 0, grants⟩
    · cases took

/-- An event grants its own page an entry and leaves the entry of every other page alone. -/
theorem Grants.walks {event : GuestEvent} {entry : U64} {spent : Nat}
    (grants : Grants pages root event entry spent s s') {n : Nat} (inside : n < 2 ^ 27) :
    (n = event.page ∧ pageWalk s'.mem root n = (0, entry)) ∨
      (n ≠ event.page ∧ Radix.Kept 0 (pageWalk s.mem root n) (pageWalk s'.mem root n)) := by
  have low := grants.low
  have page : event.page = event.gpa.toNat / 4096 := rfl
  -- The event wrote to the leaf of its own page; the other walks are kept.
  by_cases here : n = event.page
  · exact Or.inl ⟨here, grants.extends_.mapped n (by omega) (by omega)⟩
  · refine Or.inr ⟨here, grants.extends_.others n fun m _ _ => ?_⟩
    omega

/-- Every event keeps the invariant. -/
theorem Grants.demand {event : GuestEvent} {entry : U64} {spent : Nat}
    (grants : Grants pages root event entry spent s s') (demand : Demand pages root s) :
    Demand pages root s' := by
  refine ⟨grants.extends_.sound, fun n inside => ?_⟩
  -- The page of the event is now mapped to itself, and the others are in the state they were in.
  rcases grants.walks inside with ⟨rfl, mapped⟩ | ⟨_, same | ⟨_, _, empty⟩⟩
  · exact Or.inr ⟨by rw [mapped], by rw [mapped]; exact grants.identical⟩
  · rw [PageState, same]
    exact demand.state n inside
  · exact Or.inl empty

/-- No event raises the number of faults a page has left, and each fault lowers it. -/
theorem Grants.faultsLeft_le {event : GuestEvent} {entry : U64} {spent : Nat}
    (grants : Grants pages root event entry spent s s') {n : Nat} (inside : n < 2 ^ 27) :
    faultsLeft (pageWalk s'.mem root n).2 + (if event.faultsOn n then 1 else 0) ≤
      faultsLeft (pageWalk s.mem root n).2 := by
  rcases grants.walks inside with ⟨rfl, mapped⟩ | ⟨other, kept⟩
  · rw [mapped]
    exact grants.pays
  · -- On another page the event is not seen as a fault.
    have silent : event.faultsOn n = false := by
      cases event with
      | fault gpa stval kind => exact beq_false_of_ne fun same => other same.symm
      | access gpa kind => rfl
    rw [silent]
    -- That page has the entry it had, or had none and still has none.
    rcases kept with same | ⟨_, before, after⟩
    · rw [same]
      simp
    · rw [before, after]
      simp

/-- A page that is granted an access is mapped to itself. -/
theorem Demand.identical_of_granted (demand : Demand pages root s) {gpa : U64} {kind : AccessKind}
    (low : gpa.toNat < 2 ^ 39) (granted : Granted s.mem root gpa kind) :
    (pageWalk s.mem root (gpa.toNat / 4096)).1 = 0 ∧
      Identical (gpa.toNat / 4096) (pageWalk s.mem root (gpa.toNat / 4096)).2 ∧
      permits kind (pageWalk s.mem root (gpa.toNat / 4096)).2 = true := by
  obtain ⟨level, entry, found, _, _, permits_⟩ := granted
  rw [translateGuest_eq low] at found
  -- Every page is empty or mapped to itself, and an empty one grants nothing.
  rcases demand.state _ (show gpa.toNat / 4096 < 2 ^ 27 by omega) with empty | ⟨last, identical⟩
  · rw [leaf_of_empty empty] at found
    cases found
  · have walked : pageWalk s.mem root (gpa.toNat / 4096) =
        (0, (pageWalk s.mem root (gpa.toNat / 4096)).2) := Prod.ext last rfl
    rw [walked, identical.leaf] at found
    cases found
    exact ⟨last, identical, permits_⟩

/-- No event takes back what a page was granted. -/
theorem Grants.keeps {event : GuestEvent} {entry : U64} {spent : Nat}
    (grants : Grants pages root event entry spent s s') (demand : Demand pages root s) {gpa : U64}
    {kind : AccessKind} (low : gpa.toNat < 2 ^ 39) (granted : Granted s.mem root gpa kind) :
    Granted s'.mem root gpa kind := by
  have inside : gpa.toNat / 4096 < 2 ^ 27 := by omega
  obtain ⟨last, identical, permits_⟩ := demand.identical_of_granted low granted
  have fewer := grants.faultsLeft_le inside
  rcases grants.walks inside with ⟨here, mapped⟩ | ⟨_, same | ⟨above, _, _⟩⟩
  · -- The entry may have been rewritten, but not with more faults left.
    rw [mapped] at fewer
    dsimp only at fewer
    have written : Identical (gpa.toNat / 4096) entry := here ▸ grants.identical
    apply granted_of_identical low
    · rw [mapped]
    · rw [mapped]
      exact written
    · rw [mapped, written.permits_iff]
      intro store
      have none_ := (identical.permits_iff kind).mp permits_ store
      omega
  · -- Another page, whose walk is as it was.
    apply granted_of_identical low
    · rw [same]
      exact last
    · rw [same]
      exact identical
    · rw [same]
      exact permits_
  · omega

end Step

/-! ### Whole runs -/

section Run

variable {alloc : AllocPgtable σ} {pages : σ → List U64} {fuel : Nat} {root : Ppn}
  {start s : Mm σ} {events : List GuestEvent}

/-- One event keeps the invariant. -/
theorem guestStep_demand (supplies : Supplies alloc pages) (fueled : 512 ≤ fuel)
    {before after : Mm σ} {event : GuestEvent} (demand : Demand pages root before)
    (took : guestStep alloc pages fuel root event before = some after) :
    Demand pages root after := by
  obtain ⟨entry, spent, grants⟩ := guestStep_grants supplies fueled demand took
  exact grants.demand demand

/-- Every run keeps the invariant. -/
theorem run_demand (supplies : Supplies alloc pages) (fueled : 512 ≤ fuel)
    (demand : Demand pages root start)
    (ran : Transition.run (guestStep alloc pages fuel root) events start = some s) :
    Demand pages root s := by
  exact Transition.run_invariant
    (fun _ _ _ demand took => guestStep_demand supplies fueled demand took) demand ran

/-- What is granted is granted to the end of every run. -/
theorem run_granted (supplies : Supplies alloc pages) (fueled : 512 ≤ fuel)
    (demand : Demand pages root start) {gpa : U64} {kind : AccessKind}
    (low : gpa.toNat < 2 ^ 39) (granted : Granted start.mem root gpa kind)
    (ran : Transition.run (guestStep alloc pages fuel root) events start = some s) :
    Granted s.mem root gpa kind := by
  -- What was granted rides along with the invariant.
  have keeps : ∀ event before after,
      Demand pages root before ∧ Granted before.mem root gpa kind →
      guestStep alloc pages fuel root event before = some after →
      Demand pages root after ∧ Granted after.mem root gpa kind := by
    intro event before after held took
    obtain ⟨entry, spent, grants⟩ := guestStep_grants supplies fueled held.1 took
    exact ⟨grants.demand held.1, grants.keeps held.1 low held.2⟩
  exact (Transition.run_invariant keeps ⟨demand, granted⟩ ran).2

/-- No page faults more than twice in a run. -/
theorem run_faults (supplies : Supplies alloc pages) (fueled : 512 ≤ fuel)
    (demand : Demand pages root start)
    (ran : Transition.run (guestStep alloc pages fuel root) events start = some s) {page : Nat}
    (inside : page < 2 ^ 27) : events.countP (GuestEvent.faultsOn page) ≤ 2 := by
  -- Each fault on the page lowers the faults that its entry has left.
  have pays : ∀ event before after, Demand pages root before →
      guestStep alloc pages fuel root event before = some after →
      faultsLeft (pageWalk after.mem root page).2 +
          (if event.faultsOn page then 1 else 0) ≤
        faultsLeft (pageWalk before.mem root page).2 := by
    intro event before after held took
    obtain ⟨entry, spent, grants⟩ := guestStep_grants supplies fueled held took
    exact grants.faultsLeft_le inside
  have total := Transition.run_potential
    (fun _ _ _ held took => guestStep_demand supplies fueled held took) pays demand ran
  have atMost : faultsLeft (pageWalk start.mem root page).2 ≤ 2 := by
    rw [faultsLeft]
    split
    · exact Nat.le_refl 2
    · split <;> omega
  omega

/-- A fault that is served grants the access it was raised for. -/
theorem Grants.granted {gpa stval : U64} {kind : AccessKind} {entry : U64} {spent : Nat}
    {s' : Mm σ} (grants : Grants pages root (.fault gpa stval kind) entry spent s s') :
    Granted s'.mem root gpa kind := by
  have low : gpa.toNat < 2 ^ 39 := grants.low
  have mapped := grants.extends_.mapped (gpa.toNat / 4096) (Nat.le_refl _) (Nat.lt_succ_self _)
  apply granted_of_identical low
  · rw [mapped]
  · rw [mapped]
    exact grants.identical
  · rw [mapped]
    exact grants.serves gpa stval kind rfl

/-- A guest address that is translated is translated to itself. -/
theorem Demand.target_eq (demand : Demand pages root s) {gpa : U64} {level : Nat} {entry : U64}
    (low : gpa.toNat < 2 ^ 39) (found : translateGuest s.mem root gpa = some (level, entry)) :
    target level entry gpa = gpa.toNat ∧ isUser entry = true := by
  rw [translateGuest_eq low] at found
  rcases demand.state _ (show gpa.toNat / 4096 < 2 ^ 27 by omega) with empty | ⟨last, identical⟩
  · rw [leaf_of_empty empty] at found
    cases found
  · -- Every mapped page can be read, and what a load is granted says where it goes.
    have readable := (identical.permits_iff .load).mpr (fun store => by cases store)
    obtain ⟨_, _, found', same, user, _⟩ := granted_of_identical low last identical readable
    rw [translateGuest_eq low, found] at found'
    cases found'
    exact ⟨same, user⟩

/-- The empty table, with fresh frames to hand out, is where every run starts. -/
theorem Demand.empty (blank : ∀ index, tables start.mem root index = 0)
    (distinct : (pages start.pool).Nodup)
    (fresh : ∀ p ∈ pages start.pool, ∃ page, p = frameAddr page ∧ page ≠ root) :
    Demand pages root start := by
  refine ⟨Sound.empty blank distinct fresh, fun n _ => Or.inl ?_⟩
  have empty : child (tables start.mem root (slot (n / 2 ^ 18))) = none := by
    rw [blank, child_zero]
  rw [pageWalk, Radix.walk, empty]
  exact blank _

/--
From the empty table on, in every state a guest below 512 GiB can reach: a fault the hardware can
raise is served and grants its access; what is mapped is mapped to itself and stays granted; and
no page has been faulted on more than twice.
-/
theorem guest_demandPaging (supplies : Supplies alloc pages) (fueled : 512 ≤ fuel)
    (blank : ∀ index, tables start.mem root index = 0) (distinct : (pages start.pool).Nodup)
    (fresh : ∀ p ∈ pages start.pool, ∃ page, p = frameAddr page ∧ page ≠ root)
    (ran : Transition.run (guestStep alloc pages fuel root) events start = some s) :
    (∀ gpa stval kind, gpa.toNat < 2 ^ 39 → permitted s.mem root gpa kind = false →
      (walk s.mem root gpa).1 ≤ (pages s.pool).length →
      ∃ s', guestStep alloc pages fuel root (.fault gpa stval kind) s = some s') ∧
    (∀ gpa stval kind s', guestStep alloc pages fuel root (.fault gpa stval kind) s = some s' →
      Granted s'.mem root gpa kind) ∧
    (∀ gpa level entry, gpa.toNat < 2 ^ 39 → translateGuest s.mem root gpa = some (level, entry) →
      target level entry gpa = gpa.toNat ∧ isUser entry = true) ∧
    (∀ more s' gpa kind, gpa.toNat < 2 ^ 39 →
      Transition.run (guestStep alloc pages fuel root) more s = some s' →
      Granted s.mem root gpa kind → Granted s'.mem root gpa kind) ∧
    ∀ page < 2 ^ 27, events.countP (GuestEvent.faultsOn page) ≤ 2 := by
  have initial : Demand pages root start := Demand.empty blank distinct fresh
  have demand := run_demand supplies fueled initial ran
  refine ⟨fun gpa stval kind low refused available => ?_, fun gpa stval kind s' took => ?_,
    fun gpa level entry low found => demand.target_eq low found,
    fun more s' gpa kind low further granted =>
      run_granted supplies fueled demand low granted further,
    fun page inside => run_faults supplies fueled initial ran inside⟩
  · -- The handler never gets stuck while there are pages for the tables.
    obtain ⟨_, _, s', served, _⟩ :=
      stage2PageFault_grants supplies fueled demand low refused available
    exact ⟨s', by rw [guestStep, if_pos ⟨low, refused, available⟩, served]⟩
  · obtain ⟨entry, spent, grants⟩ := guestStep_grants supplies fueled demand took
    exact grants.granted

end Run

/-- The first page of `hs_pg_dir`. -/
def hsPgDir : Ppn := 0x80204

/-- A load and then a store at one address, each of which faults before it is made. -/
def exampleAccesses : List GuestEvent :=
  [.fault 0x80000123 0x123 .load, .access 0x80000123 .load, .fault 0x80000123 0x123 .store,
    .access 0x80000123 .store]

/--
The page faults twice and not a third time. The load is granted by the first fault and stays so,
the store is granted by the second one, and the page is mapped to itself.
-/
theorem guest_demandPaging_page :
    ∃ s, Transition.run (guestStep listed id 512 hsPgDir) exampleAccesses unmapped = some s ∧
      exampleAccesses.countP (GuestEvent.faultsOn 0x80000) = 2 ∧
      (∀ more s', Transition.run (guestStep listed id 512 hsPgDir) more s = some s' →
        (exampleAccesses ++ more).countP (GuestEvent.faultsOn 0x80000) = 2 ∧
        Granted s'.mem hsPgDir 0x80000123 .load ∧ Granted s'.mem hsPgDir 0x80000123 .store) ∧
      ∀ level entry, translateGuest s.mem hsPgDir 0x80000123 = some (level, entry) →
        target level entry 0x80000123 = 0x80000123 := by
  have blank : ∀ index, tables unmapped.mem hsPgDir index = 0 := fun _ => rfl
  have paging {events : List GuestEvent} {s : Mm (List U64)}
      (ran : Transition.run (guestStep listed id 512 hsPgDir) events unmapped = some s) :=
    guest_demandPaging listed_supplies (Nat.le_refl 512) blank (by decide)
      (unmapped_fresh (by decide) (by decide)) ran
  have runs : (Transition.run (guestStep listed id 512 hsPgDir) exampleAccesses unmapped).isSome =
      true := by decide +kernel
  obtain ⟨s, ran⟩ := Option.isSome_iff_exists.mp runs
  -- A fault of the run grants its access, and what comes behind it does not take that back.
  have stays {front back more : List GuestEvent} {gpa stval : U64} {kind : AccessKind}
      {s' : Mm (List U64)} (split : front ++ .fault gpa stval kind :: back = exampleAccesses)
      (low : gpa.toNat < 2 ^ 39)
      (further : Transition.run (guestStep listed id 512 hsPgDir) more s = some s') :
      Granted s'.mem hsPgDir gpa kind := by
    rw [← split, Transition.run_append] at ran
    obtain ⟨before, toBefore, rest⟩ := Option.bind_eq_some_iff.mp ran
    obtain ⟨after, took, fromAfter⟩ := Option.bind_eq_some_iff.mp rest
    have toAfter : Transition.run (guestStep listed id 512 hsPgDir)
        (front ++ [.fault gpa stval kind]) unmapped = some after := by
      rw [Transition.run_append, toBefore, Option.bind_some, Transition.run_cons, took]
      rfl
    refine (paging toAfter).2.2.2.1 (back ++ more) s' gpa kind low ?_
      ((paging toBefore).2.1 gpa stval kind after took)
    rw [Transition.run_append, fromAfter]
    exact further
  have two : exampleAccesses.countP (GuestEvent.faultsOn 0x80000) = 2 := by decide
  have low : (0x80000123 : U64).toNat < 2 ^ 39 := by decide
  refine ⟨s, ran, two, fun more s' further => ⟨?_, ?_, ?_⟩, fun level entry found =>
    ((paging ran).2.2.1 _ _ _ low found).1⟩
  · -- Two faults were raised already, and there are no more than two.
    have whole : Transition.run (guestStep listed id 512 hsPgDir) (exampleAccesses ++ more)
        unmapped = some s' := by
      rw [Transition.run_append, ran]
      exact further
    have most := (paging whole).2.2.2.2 0x80000 (by decide)
    rw [List.countP_append, two] at most ⊢
    omega
  · exact stays (show [] ++ _ = _ from rfl) low further
  · exact stays (show exampleAccesses.take 2 ++ _ = _ from rfl) low further

end Benos
