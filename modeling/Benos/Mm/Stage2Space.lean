import Benos.Mm.Stage2Run

/-! The whole address space of the guest, whose root table is four pages. -/

namespace Benos

open Sv39

variable {σ : Type}

/-! ### The root of four pages -/

/-- One of the four pages of the root table. -/
def rootPart (root : Ppn) (part : BitVec 2) : Ppn := root + part.setWidth 44

/-- The tables of the second stage: four trees of their own, as the builder makes trees. -/
structure Stage2Tables (pages : σ → List U64) (root : Ppn) (s : Mm σ) : Prop where
  /-- The root table is 16 KiB aligned. -/
  aligned : root.toNat % 4 = 0
  sound : ∀ part, Sound pages (rootPart root part) s
  apart : ∀ part other P Q page, part ≠ other → P.length ≤ 2 → Q.length ≤ 2 →
    Radix.descend child (tables s.mem) (rootPart root part) P = some page →
    Radix.descend child (tables s.mem) (rootPart root other) Q ≠ some page
  /-- Every entry of a directory is empty or names a table. -/
  clear : ∀ part n, Clear s.mem (rootPart root part) n

section Tables

variable {alloc : AllocPgtable σ} {pages : σ → List U64} {root : Ppn} {s s' : Mm σ}

@[simp] theorem rootPart_zero (root : Ppn) : rootPart root 0 = root := BitVec.add_zero root

/-- The bits of an address that choose its part of the root. -/
theorem rootPage_eq (root : Ppn) (gpa : U64) :
    rootPage root gpa = rootPart root (gpa.extractLsb' 39 2) := rfl

/-- A page of the upper parts is neither in the first tree nor still to be handed out. -/
theorem Stage2Tables.beside (tabled : Stage2Tables pages root s) {part : BitVec 2}
    (upper : part ≠ 0) :
    Radix.Beside child (tables s.mem) root 2 (Unused pages s) (rootPart root part) := by
  intro P page within located
  -- The first part shares no table with another one, nor does the supply.
  refine ⟨fun Q short reached => ?_, fun left => ?_⟩
  · have lower : Radix.descend child (tables s.mem) (rootPart root 0) Q = some page := by
      rw [rootPart_zero]
      exact reached
    exact tabled.apart part 0 P Q page upper within short located lower
  · obtain ⟨fresh, frame, outside⟩ := (tabled.sound part).fresh _ left
    obtain rfl := frameAddr_injective frame
    exact outside P within located

/-- A mapping keeps the four trees as they have to be. -/
theorem Stage2Tables.keeps (tabled : Stage2Tables pages root s) {n spent : Nat}
    {pte : Nat → U64} (mapped : Extends pages root n (n + 1) pte spent s s')
    (spares : Radix.Spares child (tables s.mem) (tables s'.mem) root 2 (Unused pages s)) :
    Stage2Tables pages root s' := by
  -- The trees of the other pages of the root are beside what was written.
  have same : ∀ part, part ≠ 0 → ∀ P : List Index, P.length ≤ 2 →
      Radix.descend child (tables s'.mem) (rootPart root part) P =
        Radix.descend child (tables s.mem) (rootPart root part) P :=
    fun part upper P within => spares.descend (tabled.beside upper) within
  have beside : ∀ part, part ≠ 0 → Radix.Beside child (tables s'.mem) root 2 (Unused pages s')
      (rootPart root part) := fun part upper =>
    spares.beside (tabled.beside upper) mapped.unused
  refine ⟨tabled.aligned, fun part => ?_, ?_, fun part m => ?_⟩
  · by_cases upper : part = 0
    · rw [upper, rootPart_zero]
      exact mapped.sound
    · -- The other trees are what they were.
      refine ⟨fun P Q page shortP shortQ locatedP locatedQ => ?_, mapped.sound.distinct, ?_⟩
      · rw [same part upper P shortP] at locatedP
        rw [same part upper Q shortQ] at locatedQ
        exact (tabled.sound part).unshared P Q page shortP shortQ locatedP locatedQ
      · intro p left
        obtain ⟨page, rfl, -⟩ := mapped.sound.fresh p left
        refine ⟨page, rfl, fun P within located => ?_⟩
        exact (beside part upper P page within located).2 left
  · -- Two trees of which neither is the first were apart before.
    intro part other P Q page different shortP shortQ locatedP locatedQ
    by_cases first : part = 0
    · -- A page of the first tree is in none of the others.
      subst first
      rw [rootPart_zero] at locatedP
      exact (beside other (Ne.symm different) Q page shortQ locatedQ).1 P shortP locatedP
    · by_cases second : other = 0
      · subst second
        rw [rootPart_zero] at locatedQ
        exact (beside part first P page shortP locatedP).1 Q shortQ locatedQ
      · rw [same part first P shortP] at locatedP
        rw [same other second Q shortQ] at locatedQ
        exact tabled.apart part other P Q page different shortP shortQ locatedP locatedQ
  · by_cases upper : part = 0
    · subst upper
      have before := tabled.clear 0 m
      rw [rootPart_zero] at before ⊢
      -- A walk of the first tree that was clear is clear, and the mapped page has its entry.
      by_cases here : m % 2 ^ 27 = n % 2 ^ 27
      · refine Or.inl ?_
        rw [pageWalk_congr here, mapped.mapped n (Nat.le_refl n) (Nat.lt_succ_self n)]
      · exact mapped.clear (fun k above below => by
          obtain rfl : k = n := by omega
          exact here) before
    · have kept : pageWalk s'.mem (rootPart root part) m = pageWalk s.mem (rootPart root part) m :=
        spares.walk (tabled.beside upper) (Nat.le_refl 2)
      rw [Clear, kept]
      exact tabled.clear part m

end Tables

/-! ### One page -/

/-- `set_stage2_page_mapping`. -/
def setStage2PageMapping (alloc : AllocPgtable σ) (fuel : Nat) (hsPgDir gpa hpa size prot : U64)
    (s : Mm σ) : Option (Mm σ) :=
  createPgdMapping alloc prot fuel hsPgDir hpa gpa size s

/-- The page of a guest address is translated to the page of a host address. -/
def ReachesPage (mem : Memory) (root : Ppn) (gpa hpa : U64) : Prop :=
  ∀ addr : U64, addr.toNat / 4096 = gpa.toNat / 4096 →
    ∃ level entry, translateGuest mem root addr = some (level, entry) ∧
      target level entry addr = hpa.toNat / 4096 * 4096 + addr.toNat % 4096

/-- One page is mapped, and every other page of the 41 bits is translated as before. -/
def MapsPage (root : Ppn) (gpa hpa : U64) (s s' : Mm σ) : Prop :=
  ReachesPage s'.mem root gpa hpa ∧
    ∀ other : U64, other.toNat < 2 ^ 41 → other.toNat / 4096 ≠ gpa.toNat / 4096 →
      translateGuest s'.mem root other = translateGuest s.mem root other

/-- The entry written for a page is a leaf that names it. -/
theorem Sv39.LeafProt.entry {prot hpa : U64} (permission : LeafProt prot) (fits : hpa.toNat < 2 ^ 56) :
    Sv39.leaf (0, pfnPte (pfnDown hpa) prot) = some (0, pfnPte (pfnDown hpa) prot) ∧
      (ppn (pfnPte (pfnDown hpa) prot)).toNat = hpa.toNat / 4096 := by
  have number : (pfnDown hpa).toNat = hpa.toNat / 4096 := pfnDown_toNat hpa
  have small : (pfnDown hpa).toNat < 2 ^ 44 := by omega
  refine ⟨?_, by rw [pfnPte, ppn_pfnEntry small permission.low, number]⟩
  -- On the last level every page is aligned.
  have leaf : isLeaf (pfnPte (pfnDown hpa) prot) = true := permission.isLeaf_entry (by omega)
  simp [Sv39.leaf, leaf, isAligned, Nat.mod_one]

/-- The address below 512 GiB with the indices of a guest address. -/
def lowAlias (gpa : U64) : U64 := BitVec.ofNat 64 (gpa.toNat % 2 ^ 39)

/-- Behind the first 512 GiB the walk starts in another part of the root. -/
theorem rootPage_upper {root : Ppn} {gpa : U64} (inside : gpa.toNat < 2 ^ 41)
    (high : 2 ^ 39 ≤ gpa.toNat) : ∃ part, part ≠ 0 ∧ rootPage root gpa = rootPart root part := by
  refine ⟨gpa.extractLsb' 39 2, fun zero => ?_, rfl⟩
  -- The two bits are zero below 512 GiB only.
  have bits := congrArg BitVec.toNat zero
  rw [BitVec.extractLsb'_toNat, Nat.shiftRight_eq_div_pow] at bits
  change _ = 0 at bits
  omega

section Page

variable {pages : σ → List U64} {root : Ppn} {s s' : Mm σ} {n spent : Nat} {entry : U64}

/-- What the mapping of page `n` does to the four trees. -/
structure PageMapped (pages : σ → List U64) (root : Ppn) (n : Nat) (entry : U64) (s s' : Mm σ) :
    Prop where
  before : Stage2Tables pages root s
  first : ∃ spent, Extends pages root n (n + 1) (fun _ => entry) spent s s'
  spares : Radix.Spares child (tables s.mem) (tables s'.mem) root 2 (Unused pages s)
  leaf : Sv39.leaf (0, entry) = some (0, entry)

/-- Behind the first 512 GiB nothing changes. -/
theorem PageMapped.upper (mapped : PageMapped pages root n entry s s') {addr : U64}
    (inside : addr.toNat < 2 ^ 41) (high : 2 ^ 39 ≤ addr.toNat) :
    translateGuest s'.mem root addr = translateGuest s.mem root addr := by
  obtain ⟨part, upper, there⟩ : ∃ part, part ≠ 0 ∧ rootPage root addr = rootPart root part :=
    rootPage_upper inside high
  -- The hardware goes through another page of the root, whose tree is untouched.
  have same : walk s'.mem (rootPart root part) addr = walk s.mem (rootPart root part) addr :=
    mapped.spares.walk (mapped.before.beside upper) (Nat.le_refl 2)
  rw [translateGuest, translateGuest, if_pos inside, if_pos inside, there, Sv39.translate,
    Sv39.translate, same]

/-- Below, the page with the indices of page `n` gets the entry, whatever the bits above. -/
theorem PageMapped.here (mapped : PageMapped pages root n entry s s') {addr : U64}
    (low : addr.toNat < 2 ^ 39) (same : addr.toNat / 4096 = n % 2 ^ 27) :
    translateGuest s'.mem root addr = some (0, entry) := by
  obtain ⟨spent, extends_⟩ := mapped.first
  -- The address has the indices of the page that was mapped.
  have indices : addr.toNat / 4096 % 2 ^ 27 = n % 2 ^ 27 := by omega
  rw [translateGuest_eq low, pageWalk_congr indices,
    extends_.mapped n (Nat.le_refl n) (Nat.lt_succ_self n)]
  exact mapped.leaf

/-- Every other page below is translated as before. -/
theorem PageMapped.elsewhere (mapped : PageMapped pages root n entry s s') {addr : U64}
    (low : addr.toNat < 2 ^ 39) (other : addr.toNat / 4096 ≠ n % 2 ^ 27) :
    translateGuest s'.mem root addr = translateGuest s.mem root addr := by
  obtain ⟨spent, extends_⟩ := mapped.first
  have inside : addr.toNat < 2 ^ 41 := by omega
  rw [translateGuest, translateGuest, if_pos inside, if_pos inside, rootPage_low low]
  refine (translate_of_kept ?_).2
  -- The hardware walks the tables that the software has written to, on another page.
  rw [walk_eq_pageWalk, walk_eq_pageWalk]
  exact extends_.others _ fun m above below => by omega

end Page

section Space

variable {alloc : AllocPgtable σ} {pages : σ → List U64} {root : Ppn} {s : Mm σ} {fuel : Nat}
  {gpa hpa prot : U64}

/-- A mapping of one page ends, and works on the first of the four trees. -/
theorem setStage2PageMapping_mapped (supplies : Supplies alloc pages)
    (tabled : Stage2Tables pages root s) (permission : LeafProt prot)
    (aligned : gpa.toNat % 4096 = 0) (fits : hpa.toNat < 2 ^ 56)
    (available : (walk s.mem root gpa).1 ≤ (pages s.pool).length) (fueled : 512 ≤ fuel) :
    ∃ s', setStage2PageMapping alloc fuel (frameAddr root) gpa hpa pageSize prot s = some s' ∧
      PageMapped pages root (gpa.toNat / 4096) (pfnPte (pfnDown hpa) prot) s s' ∧
      Stage2Tables pages root s' := by
  have sound : Sound pages root s := rootPart_zero root ▸ tabled.sound 0
  have clear : Clear s.mem root (gpa.toNat / 4096) := by
    have all := tabled.clear 0 (gpa.toNat / 4096)
    rwa [rootPart_zero] at all
  rw [walk_eq_pageWalk] at available
  -- Only the tables of the first page of the root are touched.
  obtain ⟨s', ran, only⟩ :=
    createPgdMapping_onePage supplies sound fueled aligned clear available
  exact ⟨s', ran, ⟨tabled, ⟨_, only.toExtends⟩, only.spares, (permission.entry fits).1⟩,
    tabled.keeps only.toExtends only.spares⟩

/--
`set_stage2_page_mapping` of one page maps it, and no other of the 2 TiB, just when the page lies
in the first 512 GiB, or was translated to the host page before while its alias there already had
the entry that is written.
-/
theorem setStage2PageMapping_maps_iff (supplies : Supplies alloc pages)
    (tabled : Stage2Tables pages root s) (permission : LeafProt prot)
    (aligned : gpa.toNat % 4096 = 0) (inside : gpa.toNat < 2 ^ 41) (fits : hpa.toNat < 2 ^ 56)
    (available : (walk s.mem root gpa).1 ≤ (pages s.pool).length) (fueled : 512 ≤ fuel) :
    ∃ s', setStage2PageMapping alloc fuel (frameAddr root) gpa hpa pageSize prot s = some s' ∧
      setupHgPageTable alloc fuel (frameAddr root) gpa hpa pageSize prot s = some s' ∧
      Stage2Tables pages root s' ∧
      (MapsPage root gpa hpa s s' ↔ gpa.toNat < 2 ^ 39 ∨
        (ReachesPage s.mem root gpa hpa ∧
          translateGuest s.mem root (lowAlias gpa) = some (0, pfnPte (pfnDown hpa) prot))) := by
  obtain ⟨s', ran, mapped, tabled'⟩ := setStage2PageMapping_mapped supplies tabled permission
    aligned fits available fueled
  have alias_ : (lowAlias gpa).toNat = gpa.toNat % 2 ^ 39 := by
    rw [lowAlias, BitVec.toNat_ofNat]
    omega
  refine ⟨s', ran, ran, tabled', ?_⟩
  -- Below 512 GiB the entry is written where the hardware looks for it.
  by_cases low : gpa.toNat < 2 ^ 39
  · refine iff_of_true ⟨fun addr same => ?_, fun other within different => ?_⟩ (Or.inl low)
    · refine ⟨0, _, mapped.here (by omega) (by omega), ?_⟩
      rw [target, (permission.entry fits).2]
      simp only [Nat.pow_zero, Nat.div_one, Nat.mod_one, Nat.mul_one, Nat.add_zero]
    · rcases Nat.lt_or_ge other.toNat (2 ^ 39) with below | high
      · exact mapped.elsewhere below (by omega)
      · exact mapped.upper within high
  · constructor
    · rintro ⟨reaches, others⟩
      refine Or.inr ⟨fun addr same => ?_, ?_⟩
      · -- The page itself is translated as before.
        rw [← mapped.upper (by omega) (by omega)]
        exact reaches addr same
      · -- What has changed is its alias, which was therefore as it is now.
        rw [← others (lowAlias gpa) (by omega) (by omega)]
        exact mapped.here (by omega) (by omega)
    · rintro (below | ⟨reaches, same⟩)
      · exact absurd below low
      · refine ⟨fun addr page => ?_, fun other within different => ?_⟩
        · rw [mapped.upper (by omega) (by omega)]
          exact reaches addr page
        · rcases Nat.lt_or_ge other.toNat (2 ^ 39) with below | high
          · by_cases here : other.toNat / 4096 = gpa.toNat / 4096 % 2 ^ 27
            · -- The alias is given the entry that it has.
              have page : other.toNat / 4096 = (lowAlias gpa).toNat / 4096 := by omega
              rw [mapped.here below here, ← same, translateGuest_eq (by omega),
                translateGuest_eq below, page]
            · exact mapped.elsewhere below here
          · exact mapped.upper within high

end Space

/-! ### From an empty root on -/

/-- The parts of the root are different pages. -/
theorem rootPart_injective {root : Ppn} {part other : BitVec 2}
    (same : rootPart root part = rootPart root other) : part = other := by
  have widths : part.setWidth 44 = other.setWidth 44 := (BitVec.add_right_inj root).mp same
  -- The number of the part is small enough to be kept by the wider type.
  have values := congrArg BitVec.toNat widths
  have partBound := part.isLt
  have otherBound := other.isLt
  rw [BitVec.toNat_setWidth, BitVec.toNat_setWidth, Nat.mod_eq_of_lt (by omega),
    Nat.mod_eq_of_lt (by omega)] at values
  exact BitVec.eq_of_toNat_eq values

/-- `hs_pg_dir` as the kernel starts with it, and a supply of other pages. -/
structure BlankRoot (pages : σ → List U64) (root : Ppn) (s : Mm σ) : Prop where
  aligned : root.toNat % 4 = 0
  blank : ∀ part index, tables s.mem (rootPart root part) index = 0
  distinct : (pages s.pool).Nodup
  fresh : ∀ p ∈ pages s.pool, ∃ page, p = frameAddr page ∧ ∀ part, page ≠ rootPart root part

section Blank

variable {alloc : AllocPgtable σ} {pages : σ → List U64} {root : Ppn} {s : Mm σ} {fuel : Nat}

/-- The walk from an empty page of the root ends there. -/
theorem BlankRoot.translate (blank : BlankRoot pages root s) (gpa : U64) :
    translateGuest s.mem root gpa = none := by
  rw [translateGuest]
  -- Every part of the root is empty.
  split
  · rw [Sv39.translate, rootPage_eq, walk_of_blank (blank.blank _)]
    exact leaf_of_empty rfl
  · rfl

/-- Four empty pages are four trees. -/
theorem BlankRoot.tabled (blank : BlankRoot pages root s) : Stage2Tables pages root s := by
  -- With no entry no path leaves a page of the root.
  have alone : ∀ part P page,
      Radix.descend child (tables s.mem) (rootPart root part) P = some page →
      page = rootPart root part := by
    intro part P page located
    cases P with
    | nil => exact (Option.some.inj located).symm
    | cons index rest =>
      rw [Radix.descend, blank.blank part index, child_zero] at located
      cases located
  refine ⟨blank.aligned, fun part => ?_, ?_, fun part n => Or.inr ?_⟩
  · refine Sound.empty (blank.blank part) blank.distinct fun p left => ?_
    obtain ⟨page, frame, other⟩ := blank.fresh p left
    exact ⟨page, frame, other part⟩
  · intro part other P Q page different _ _ locatedP locatedQ
    -- The four pages of the root are four pages.
    have same := (alone part P page locatedP).symm.trans (alone other Q page locatedQ)
    exact different (rootPart_injective same)
  · rw [pageWalk, Radix.walk, blank.blank, child_zero]

/-- The arguments of one call for one page. -/
structure PageRequest where
  gpa : U64
  hpa : U64
  prot : U64

/-- A call with arguments that name pages and a permission, and with the tables it needs. -/
structure PageRequest.Served (pages : σ → List U64) (root : Ppn) (request : PageRequest)
    (s : Mm σ) : Prop where
  aligned : request.gpa.toNat % 4096 = 0
  fits : request.hpa.toNat < 2 ^ 56
  permission : LeafProt request.prot
  available : (walk s.mem root request.gpa).1 ≤ (pages s.pool).length

/-- One call. -/
def PageRequest.step (alloc : AllocPgtable σ) (fuel : Nat) (root : Ppn) (request : PageRequest)
    (s : Mm σ) : Option (Mm σ) :=
  setStage2PageMapping alloc fuel (frameAddr root) request.gpa request.hpa pageSize request.prot s

/--
Whatever pages are mapped, the tables stay trees, and no address behind the first 512 GiB is ever
translated.
-/
theorem stage2_upper_unmapped (supplies : Supplies alloc pages) (fueled : 512 ≤ fuel)
    (blank : BlankRoot pages root s) {requests : List PageRequest} {s' : Mm σ}
    (ran : Transition.run (PageRequest.step alloc fuel root) requests s = some s')
    (served : ∀ earlier request later mid, requests = earlier ++ request :: later →
      Transition.run (PageRequest.step alloc fuel root) earlier s = some mid →
      request.Served pages root mid) :
    Stage2Tables pages root s' ∧
      ∀ gpa : U64, 2 ^ 39 ≤ gpa.toNat → translateGuest s'.mem root gpa = none := by
  have keeps : ∀ (request : PageRequest) (mid next : Mm σ),
      (Stage2Tables pages root mid ∧
        ∀ gpa : U64, 2 ^ 39 ≤ gpa.toNat → translateGuest mid.mem root gpa = none) →
      request.Served pages root mid → request.step alloc fuel root mid = some next →
      Stage2Tables pages root next ∧
        ∀ gpa : U64, 2 ^ 39 ≤ gpa.toNat → translateGuest next.mem root gpa = none := by
    rintro request mid next ⟨tabled, unmapped⟩ allowed taken
    obtain ⟨next', ran', mapped, tabled'⟩ := setStage2PageMapping_mapped supplies tabled
      allowed.permission allowed.aligned allowed.fits allowed.available fueled
    obtain rfl : next' = next := Option.some.inj (ran'.symm.trans taken)
    refine ⟨tabled', fun gpa high => ?_⟩
    -- Below 2 TiB the call leaves the upper addresses alone; above it nothing is translated.
    rcases Nat.lt_or_ge gpa.toNat (2 ^ 41) with inside | outside
    · rw [mapped.upper inside high]
      exact unmapped gpa high
    · rw [translateGuest, if_neg (by omega)]
  exact Transition.run_invariant_on keeps ⟨blank.tabled, fun gpa _ => blank.translate gpa⟩ ran
    served

end Blank

/-- The state in which `hs_pg_dir` is empty. -/
theorem unmapped_blankRoot : BlankRoot id hsPgDir unmapped := by
  -- The two pages of the supply are none of the root's.
  have others : ∀ part, (0x80300 : Ppn) ≠ rootPart hsPgDir part ∧ 0x80301 ≠ rootPart hsPgDir part := by
    decide
  refine ⟨by decide, fun _ _ => rfl, by decide, fun p left => ?_⟩
  rcases List.mem_cons.mp left with rfl | rest
  · exact ⟨_, rfl, fun part => (others part).1⟩
  · rw [List.mem_singleton.mp rest]
    exact ⟨_, rfl, fun part => (others part).2⟩

theorem leafProt_pageWriteExec : LeafProt pageWriteExec := ⟨by decide, by decide⟩

theorem unmapped_available (gpa : U64) : (walk unmapped.mem hsPgDir gpa).1 ≤ unmapped.pool.length :=
  Nat.le_of_eq (congrArg Prod.fst (walk_of_blank (fun _ => rfl) gpa))

/-- A page in the first 512 GiB is mapped. -/
theorem setStage2PageMapping_maps_low :
    ∃ s', setStage2PageMapping listed 512 (frameAddr hsPgDir) 0x80500000 0x80600000 pageSize
        pageWriteExec unmapped = some s' ∧ MapsPage hsPgDir 0x80500000 0x80600000 unmapped s' := by
  obtain ⟨s', ran, -, -, maps⟩ := setStage2PageMapping_maps_iff listed_supplies
    unmapped_blankRoot.tabled leafProt_pageWriteExec
    (show (0x80500000 : U64).toNat % 4096 = 0 by decide) (by decide)
    (show (0x80600000 : U64).toNat < 2 ^ 56 by decide) (unmapped_available _) (Nat.le_refl 512)
  -- The page lies below 512 GiB.
  exact ⟨s', ran, maps.mpr (Or.inl (by decide))⟩

/-- The page at 512 GiB is not mapped. -/
theorem setStage2PageMapping_misses_upper :
    ¬ ∀ (root : Ppn) (s : Mm (List U64)) (gpa hpa prot : U64), Stage2Tables id root s →
      LeafProt prot → gpa.toNat % 4096 = 0 → gpa.toNat < 2 ^ 41 → hpa.toNat < 2 ^ 56 →
      (walk s.mem root gpa).1 ≤ s.pool.length →
      ∃ s', setStage2PageMapping listed 512 (frameAddr root) gpa hpa pageSize prot s = some s' ∧
        MapsPage root gpa hpa s s' := by
  intro always
  let gpa : U64 := 0x8000000000
  obtain ⟨s', ran, reaches, -⟩ := always hsPgDir unmapped gpa 0x80600000 pageWriteExec
    unmapped_blankRoot.tabled leafProt_pageWriteExec (by decide) (by decide) (by decide)
    (unmapped_available gpa)
  obtain ⟨s'', ran', mapped, -⟩ := setStage2PageMapping_mapped listed_supplies
    unmapped_blankRoot.tabled leafProt_pageWriteExec (show gpa.toNat % 4096 = 0 by decide)
    (show (0x80600000 : U64).toNat < 2 ^ 56 by decide) (unmapped_available gpa) (Nat.le_refl 512)
  obtain rfl : s' = s'' := Option.some.inj (ran.symm.trans ran')
  -- It was not translated before, and nothing behind the first 512 GiB has changed.
  obtain ⟨level, entry, translated, -⟩ := reaches gpa rfl
  rw [mapped.upper (by decide) (by decide), unmapped_blankRoot.translate] at translated
  cases translated

end Benos
