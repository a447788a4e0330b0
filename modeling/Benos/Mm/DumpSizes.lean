import Benos.Lib.Transition
import Benos.Mm.DumpCorrect

/-! The sizes that the dump prints: the ranges it is about, and the unit that is found for each. -/

namespace Benos

open Sv39

/-! ### What the walks print -/

/-- `units`. -/
def units : String := "KMGT"

/-- The arguments of a call of `print_pgtable`. -/
structure PrintCall where
  start : U64
  end_ : U64
  level : Nat
  val : U64
deriving DecidableEq

/-- From one round of a `do … while (entryp++, addr = next, addr != end)` loop to the next. -/
def Round (next : U64 → U64) (end_ : U64) (at_ later : U64 × U64) : Prop :=
  next at_.2 ≠ end_ ∧ later = (at_.1 + entrySize, next at_.2)

/-- The entries and addresses that the rounds of such a loop begin with. -/
def Rounds (next : U64 → U64) (end_ entryp addr : U64) : U64 × U64 → Prop :=
  Relation.ReflTransGen (Round next end_) (entryp, addr)

section Prints

variable (mem : Memory)

/-- The calls that `walk_pte` makes. -/
def WalkPtePrints (pmdp start end_ : U64) (call : PrintCall) : Prop :=
  ∃ ptep addr, Rounds (· + pageSize) end_ (getPtepFromPmdp mem pmdp start) start (ptep, addr) ∧
    call = ⟨addr, addr + pageSize, 2, mem ptep⟩

/-- The calls that `walk_pmd` makes, itself or in `walk_pte`. -/
def WalkPmdPrints (pgdp start end_ : U64) (call : PrintCall) : Prop :=
  ∃ pmdp addr,
    Rounds (pmdAddrEnd · end_) end_ (getPmdpFromPgdp mem pgdp start) start (pmdp, addr) ∧
    if pmdNone (mem pmdp) || pmdLeaf (mem pmdp) then
      call = ⟨addr, pmdAddrEnd addr end_, 1, mem pmdp⟩
    else WalkPtePrints mem pmdp addr (pmdAddrEnd addr end_) call

/-- The calls that `walk_pgd` makes, itself or in `walk_pmd`. -/
def WalkPgdPrints (pgd start size : U64) (call : PrintCall) : Prop :=
  ∃ pgdp addr,
    Rounds (pgdAddrEnd · (start + size)) (start + size) (pgdOffsetRaw pgd start) start
      (pgdp, addr) ∧
    if pgdNone (mem pgdp) then call = ⟨addr, pgdAddrEnd addr (start + size), 0, mem pgdp⟩
    else WalkPmdPrints mem pgdp addr (pgdAddrEnd addr (start + size)) call

end Prints

/-- The loop over units ends, at one of the units, and the size is exact in that unit. -/
def PrintCall.Sized (call : PrintCall) : Prop :=
  ∃ delta unit,
    (∃ bound, ∀ fuel ≥ bound,
      unitLoop fuel ((call.end_ - call.start) >>> 10) 0 = some (delta, unit)) ∧
    unit < units.length ∧ delta.toNat * 1024 ^ (unit + 1) = (call.end_ - call.start).toNat

/-- What some round does is done by the first one, or by one of those that follow. -/
theorem exists_rounds {next : U64 → U64} {end_ entryp addr : U64} {does : U64 → U64 → Prop} :
    (∃ entryp' addr', Rounds next end_ entryp addr (entryp', addr') ∧ does entryp' addr') ↔
      does entryp addr ∨ next addr ≠ end_ ∧
        ∃ entryp' addr', Rounds next end_ (entryp + entrySize) (next addr) (entryp', addr') ∧
          does entryp' addr' := by
  constructor
  · rintro ⟨entryp', addr', reached, done⟩
    -- The round is the first one, or the loop has gone on from there.
    rcases Relation.ReflTransGen.cases_head reached with same | ⟨later, ⟨unfinished, rfl⟩, rest⟩
    · obtain ⟨rfl, rfl⟩ := Prod.mk.inj same
      exact Or.inl done
    · exact Or.inr ⟨unfinished, entryp', addr', rest, done⟩
  · rintro (done | ⟨unfinished, entryp', addr', rest, done⟩)
    · exact ⟨entryp, addr, Relation.ReflTransGen.refl, done⟩
    · exact ⟨entryp', addr', Relation.ReflTransGen.head ⟨unfinished, rfl⟩ rest, done⟩

/-! ### The loop over units -/

/-- A loop that has ended ends the same way with more fuel. -/
theorem unitLoop_mono {fuel more : Nat} {delta : U64} {unit : Nat} {found : U64 × Nat}
    (ran : unitLoop fuel delta unit = some found) (enough : fuel ≤ more) :
    unitLoop more delta unit = some found := by
  induction fuel generalizing more delta unit with
  | zero => cases ran
  | succ fuel ih =>
    obtain ⟨more, rfl⟩ := Nat.exists_eq_add_of_le' (Nat.lt_of_lt_of_le fuel.succ_pos enough)
    rw [unitLoop] at ran ⊢
    -- Both take the same branch, and the shorter one has gone on.
    split
    · rename_i multiple
      rw [if_pos multiple] at ran
      exact ih ran (by omega)
    · rename_i last
      rw [if_neg last] at ran
      exact ran

/-- It ends in one way only, whatever the fuel is. -/
theorem unitLoop_unique {fuel other : Nat} {delta : U64} {unit : Nat} {found found' : U64 × Nat}
    (ran : unitLoop fuel delta unit = some found) (ran' : unitLoop other delta unit = some found') :
    found = found' := by
  have longer := unitLoop_mono ran (Nat.le_max_left fuel other)
  rw [unitLoop_mono ran' (Nat.le_max_right fuel other)] at longer
  exact (Option.some.inj longer).symm

/-- On a size of zero it does not end: the guard looks at `units[1]`, whatever the unit is. -/
theorem unitLoop_zero (fuel unit : Nat) : unitLoop fuel 0 unit = none := by
  induction fuel generalizing unit with
  | zero => rfl
  | succ fuel ih =>
    rw [unitLoop, if_pos (by decide)]
    exact ih (unit + 1)

/-- The size of a range without addresses is zero. -/
theorem unitLoop_empty (fuel : Nat) (start : U64) :
    unitLoop fuel ((start - start) >>> 10) 0 = none := by
  have zero : (start - start) >>> 10 = 0 := by rw [BitVec.sub_self]; rfl
  rw [zero, unitLoop_zero]

/-- So such a range has no unit. -/
theorem not_sized_empty (start : U64) (level : Nat) (val : U64) :
    ¬ (PrintCall.mk start start level val).Sized := by
  rintro ⟨delta, unit, ⟨bound, ran⟩, -⟩
  -- Where the loop would have ended it has not.
  have found := ran bound (Nat.le_refl bound)
  dsimp only at found
  rw [unitLoop_empty] at found
  cases found

/-- From one page up to a gigabyte every number of pages has a unit. -/
theorem sized_of_pages {call : PrintCall} (pages : Nat)
    (size : (call.end_ - call.start).toNat = pages * 4096) (some_ : 0 < pages)
    (small : pages ≤ 2 ^ 18) : call.Sized := by
  have kilobytes : ((call.end_ - call.start) >>> 10).toNat = pages * 4 := by
    rw [Word.ushiftRight_toNat, size]
    omega
  -- The loop keeps the size, and ends within three units.
  obtain ⟨delta, shifts, ran, exact_⟩ :=
    @unitLoop_some 3 ((call.end_ - call.start) >>> 10) 0 (by omega) (by omega)
  refine ⟨delta, 0 + shifts, ⟨3, fun fuel enough => unitLoop_mono ran enough⟩, ?_, ?_⟩
  · -- The fourth unit would need a thousand gigabytes.
    have few : 1024 ^ shifts < 1024 ^ 3 := by
      have positive : 0 < delta.toNat := by
        rcases Nat.eq_zero_or_pos delta.toNat with zero | positive
        · rw [zero, Nat.zero_mul] at exact_
          omega
        · exact positive
      have := Nat.le_mul_of_pos_left (1024 ^ shifts) positive
      omega
    have := (Nat.pow_lt_pow_iff_right (by decide)).mp few
    show 0 + shifts < 4
    omega
  · -- Shifting the ten bits out again gives the size in bytes.
    rw [Nat.zero_add, Nat.pow_succ, ← Nat.mul_assoc, ← exact_, kilobytes, size]
    omega

/-! ### The calls and the lines -/

/-- The line that a call prints. -/
def PrintCall.Reports (masks : Nat → U64) (call : PrintCall) (r : Report) : Prop :=
  call.val ≠ 0 ∧ ∃ fuel delta unit,
    unitLoop fuel ((call.end_ - call.start) >>> 10) 0 = some (delta, unit) ∧
    r = { start := call.start, end_ := call.end_, delta, unit
          name := pgLevelName call.level
          prot := dumpProt (call.val &&& masks call.level) }

/-- What is printed between two states of a dump: one line for each call with an entry. -/
structure Prints (masks : Nat → U64) (calls : PrintCall → Prop) (d d' : Dump) : Prop where
  reports : ∀ r, r ∈ d'.reports ↔ r ∈ d.reports ∨ ∃ call, calls call ∧ call.Reports masks r
  ended : ∀ call, calls call → call.val ≠ 0 → ∃ r, call.Reports masks r

namespace Prints

variable {masks : Nat → U64} {first second calls : PrintCall → Prop} {d d' d'' : Dump}

/-- Two parts, one after the other. -/
theorem trans (early : Prints masks first d d') (late : Prints masks second d' d'')
    (both : ∀ call, calls call ↔ first call ∨ second call) : Prints masks calls d d'' where
  reports r := by
    rw [late.reports, early.reports, or_assoc]
    refine or_congr_right ?_
    -- A call of the whole is one of either part.
    simp only [both, or_and_right, exists_or]
  ended call printed val := by
    rcases (both call).mp printed with before | behind
    · exact early.ended call before val
    · exact late.ended call behind val

/-- The same calls, described another way. -/
theorem congr (part : Prints masks first d d') (same : ∀ call, calls call ↔ first call) :
    Prints masks calls d d' where
  reports r := by
    rw [part.reports]
    simp only [same]
  ended call printed val := part.ended call ((same call).mp printed) val

/-- Reading an entry prints nothing. -/
theorem of_touch {table entry : U64} (part : Prints masks calls (d.touch table entry) d') :
    Prints masks calls d d' := ⟨part.reports, part.ended⟩

section Rounds

variable (does : U64 → U64 → PrintCall → Prop) {next : U64 → U64} {end_ entryp addr : U64}

/-- The first round, with the rounds that follow it. -/
theorem more (head : Prints masks (does entryp addr) d d') (unfinished : next addr ≠ end_)
    (rest : Prints masks (fun call => ∃ entryp' addr',
      Rounds next end_ (entryp + entrySize) (next addr) (entryp', addr') ∧
        does entryp' addr' call) d' d'') :
    Prints masks (fun call => ∃ entryp' addr', Rounds next end_ entryp addr (entryp', addr') ∧
      does entryp' addr' call) d d'' :=
  head.trans rest fun _ => exists_rounds.trans (or_congr_right (and_iff_right unfinished))

/-- A first round that no other one follows. -/
theorem last (head : Prints masks (does entryp addr) d d') (finished : next addr = end_) :
    Prints masks (fun call => ∃ entryp' addr', Rounds next end_ entryp addr (entryp', addr') ∧
      does entryp' addr' call) d d' :=
  head.congr fun _ => exists_rounds.trans (or_iff_left fun more => more.1 finished)

end Rounds

end Prints

section Calls

variable {mem : Memory} {masks : Nat → U64}

/-- `print_pgtable` prints its own call. -/
theorem printPgtable_prints {fuel level : Nat} {start end_ val : U64} {d d' : Dump}
    (ran : printPgtable masks fuel start end_ level val d = some d') :
    Prints masks (· = ⟨start, end_, level, val⟩) d d' := by
  rw [printPgtable] at ran
  dsimp only at ran
  by_cases empty : val = 0
  · rw [if_pos empty] at ran
    cases ran
    -- The marker is no line about a range, and the call has no other one.
    refine ⟨fun r => ?_, fun call printed val => absurd (printed ▸ empty) val⟩
    simp only [Dump.reports, List.filterMap_append, reports_markers, List.append_nil]
    refine (or_iff_left ?_).symm
    rintro ⟨_, rfl, some_, -⟩
    exact some_ empty
  · rw [if_neg empty] at ran
    obtain ⟨⟨delta, unit⟩, found, rfl⟩ := Option.map_eq_some_iff.mp ran
    refine ⟨fun r => ?_, ?_⟩
    · -- The one line that is added is that of the call.
      simp only [Dump.reports, List.filterMap_append, reports_markers, List.append_nil]
      rw [List.mem_append]
      refine or_congr_right ⟨fun member => ?_, ?_⟩
      · exact ⟨_, rfl, empty, fuel, delta, unit, found, List.mem_singleton.mp member⟩
      · rintro ⟨_, rfl, -, other, delta', unit', found', rfl⟩
        -- The fuel of this call has found the same unit.
        obtain ⟨rfl, rfl⟩ := Prod.mk.inj (unitLoop_unique found found')
        exact List.mem_singleton_self _
    · rintro _ rfl -
      exact ⟨_, empty, fuel, delta, unit, found, rfl⟩

/-- A loop prints what its rounds print. -/
theorem dumpLoop_prints {levelAddrEnd : U64 → U64 → U64}
    {body : (entryp addr next : U64) → Dump → Option Dump}
    {calls : (entryp addr next : U64) → PrintCall → Prop}
    (body_prints : ∀ {entryp addr next d d'}, body entryp addr next d = some d' →
      Prints masks (calls entryp addr next) d d') {fuel : Nat} {entryp addr end_ : U64}
    {d d' : Dump} (ran : dumpLoop levelAddrEnd body fuel entryp addr end_ d = some d') :
    Prints masks (fun call => ∃ entryp' addr',
      Rounds (levelAddrEnd · end_) end_ entryp addr (entryp', addr') ∧
        calls entryp' addr' (levelAddrEnd addr' end_) call) d d' := by
  induction fuel generalizing entryp addr d with
  | zero => cases ran
  | succ fuel ih =>
    rw [dumpLoop] at ran
    dsimp only at ran
    split at ran
    · cases ran
    · rename_i d₁ round
      have head := body_prints round
      -- The rounds that follow, if any, begin at the next entry.
      split at ran
      · rename_i unfinished
        exact Prints.more (fun entryp addr => calls entryp addr (levelAddrEnd addr end_)) head
          (bne_iff_ne.mp unfinished) (ih ran)
      · rename_i finished
        cases ran
        exact Prints.last (fun entryp addr => calls entryp addr (levelAddrEnd addr end_)) head
          (by simpa using finished)

/-- The loop of `walk_pte` prints a page in each round. -/
theorem walkPteLoop_prints {fuel : Nat} {table ptep addr end_ : U64} {d d' : Dump}
    (ran : walkPteLoop mem masks fuel table ptep addr end_ d = some d') :
    Prints masks (fun call => ∃ ptep' addr',
      Rounds (· + pageSize) end_ ptep addr (ptep', addr') ∧
        call = ⟨addr', addr' + pageSize, 2, mem ptep'⟩) d d' := by
  induction fuel generalizing ptep addr d with
  | zero => cases ran
  | succ fuel ih =>
    rw [walkPteLoop] at ran
    dsimp only at ran
    split at ran
    · cases ran
    · rename_i d₁ round
      -- Reading the entry prints nothing.
      have head := (printPgtable_prints round).of_touch
      split at ran
      · rename_i unfinished
        exact Prints.more (fun ptep addr => (· = ⟨addr, addr + pageSize, 2, mem ptep⟩)) head
          (bne_iff_ne.mp unfinished) (ih ran)
      · rename_i finished
        cases ran
        exact Prints.last (fun ptep addr => (· = ⟨addr, addr + pageSize, 2, mem ptep⟩)) head
          (by simpa using finished)

/-- One round of `walk_pmd` prints its entry, or leaves it to `walk_pte`. -/
theorem walkPmdEntry_prints {fuel : Nat} {table pmdp addr next : U64} {d d' : Dump}
    (ran : walkPmdEntry mem masks fuel table pmdp addr next d = some d') :
    Prints masks (fun call => if pmdNone (mem pmdp) || pmdLeaf (mem pmdp) then
      call = ⟨addr, next, 1, mem pmdp⟩ else WalkPtePrints mem pmdp addr next call) d d' := by
  rw [walkPmdEntry] at ran
  split at ran
  · rename_i closed
    simp only [closed, if_true]
    exact (printPgtable_prints ran).of_touch
  · rename_i open_
    simp only [open_]
    -- The entry is read a second time by `walk_pte`.
    exact (walkPteLoop_prints ran).of_touch.of_touch

/-- One round of `walk_pgd` prints its entry, or leaves it to `walk_pmd`. -/
theorem walkPgdEntry_prints {fuel : Nat} {table pgdp addr next : U64} {d d' : Dump}
    (ran : walkPgdEntry mem masks fuel table pgdp addr next d = some d') :
    Prints masks (fun call => if pgdNone (mem pgdp) then call = ⟨addr, next, 0, mem pgdp⟩
      else WalkPmdPrints mem pgdp addr next call) d d' := by
  rw [walkPgdEntry] at ran
  split at ran
  · rename_i none_
    simp only [none_, if_true]
    exact (printPgtable_prints ran).of_touch
  · rename_i some_
    simp only [some_]
    exact (dumpLoop_prints walkPmdEntry_prints ran).of_touch.of_touch

/-- A dump that ends has a line for each of its calls with an entry, and no other lines. -/
theorem walkPgd_prints {fuel : Nat} {pgd start size : U64} {d d' : Dump}
    (ran : walkPgd mem masks fuel pgd start size d = some d') :
    Prints masks (WalkPgdPrints mem pgd start size) d d' :=
  dumpLoop_prints walkPgdEntry_prints ran

end Calls

/-! ### The ranges of a request -/

/-- A round that starts in a range of pages ends in it, at most `2 ^ w` pages further on. -/
def Advances (w last : Nat) (next : U64 → U64) : Prop :=
  ∀ n addr, n < last → addr.toNat = n * 4096 →
    ∃ m, n < m ∧ m ≤ last ∧ m ≤ n + 2 ^ w ∧ endNat (next addr) = m * 4096

/-- The macros do so. -/
theorem advances_cut {levelAddrEnd : U64 → U64 → U64} {w last : Nat} {end_ : U64}
    (cuts : ∀ addr end_, endNat (levelAddrEnd addr end_) =
      min ((addr.toNat / 2 ^ (12 + w) + 1) * 2 ^ (12 + w)) (endNat end_))
    (ends : endNat end_ = last * 4096) : Advances w last (levelAddrEnd · end_) := by
  intro n addr below at_
  refine ⟨cut w n last, lt_cut below, cut_le w n last, ?_, endNat_cut cuts at_ ends⟩
  -- The end of the block is the first multiple of its size behind the start.
  have block : cut w n last ≤ (n / 2 ^ w + 1) * 2 ^ w := Nat.min_le_left _ _
  have inside : n / 2 ^ w * 2 ^ w ≤ n := Nat.div_mul_le_self n (2 ^ w)
  rw [Nat.succ_mul] at block
  omega

section Ranges

variable {mem : Memory} {w lo last : Nat} {next : U64 → U64} {addr entryp end_ : U64}

/-- Each round begins at a page of the range. -/
theorem Advances.inside (advances : Advances w last next) (ends : endNat end_ = last * 4096)
    (starts : addr.toNat = lo * 4096) (below : lo < last) {at_ : U64 × U64}
    (reached : Rounds next end_ entryp addr at_) : ∃ n < last, at_.2.toNat = n * 4096 := by
  refine @Transition.reachable_invariant (U64 × U64) _
    (fun at_ => ∃ n < last, at_.2.toNat = n * 4096) (fun state later held taken => ?_) _ _
    ⟨lo, below, starts⟩ reached
  obtain ⟨n, inside, here⟩ := held
  obtain ⟨unfinished, rfl⟩ := taken
  obtain ⟨m, -, upper, -, there⟩ := advances n state.2 inside here
  -- A round that ends where the range does is the last one.
  have more : m ≠ last := by
    rintro rfl
    exact unfinished (endNat_inj.mp (there.trans ends.symm))
  have room : last * 4096 ≤ 2 ^ 64 := by
    have bound := end_.isLt
    rw [endNat_eq] at ends
    split at ends <;> omega
  exact ⟨m, by omega, toNat_of_endNat there (by omega)⟩

/-- The range of a round has a unit. -/
theorem Advances.sized (advances : Advances w last next) (small : w ≤ 18) {n : Nat}
    (inside : n < last) (at_ : addr.toNat = n * 4096) (level : Nat) (val : U64) :
    (PrintCall.mk addr (next addr) level val).Sized := by
  obtain ⟨m, above, -, block, ends⟩ := advances n addr inside at_
  have width : 2 ^ w ≤ 2 ^ 18 := Nat.pow_le_pow_right (by decide) small
  refine sized_of_pages (m - n) ?_ (by omega) (by omega)
  show (next addr - addr).toNat = (m - n) * 4096
  -- The subtraction of the two words is the number of pages between them.
  rw [sub_eq_pages at_ ends (Nat.le_of_lt above), BitVec.toNat_ofNat]
  exact Nat.mod_eq_of_lt (by omega)

/-- `walk_pte` prints one page at a time. -/
theorem WalkPtePrints.sized {pmdp start : U64} {call : PrintCall}
    (printed : WalkPtePrints mem pmdp start end_ call) : call.Sized := by
  obtain ⟨ptep, addr, -, rfl⟩ := printed
  refine sized_of_pages 1 ?_ (by decide) (by decide)
  show (addr + pageSize - addr).toNat = 1 * 4096
  rw [BitVec.add_comm, BitVec.add_sub_cancel, pageSize_toNat]

/-- `walk_pmd` prints parts of its range of at most 2 MiB. -/
theorem WalkPmdPrints.sized {pgdp start : U64} (starts : start.toNat = lo * 4096)
    (ends : endNat end_ = last * 4096) (below : lo < last) {call : PrintCall}
    (printed : WalkPmdPrints mem pgdp start end_ call) : call.Sized := by
  obtain ⟨pmdp, addr, reached, printed⟩ := printed
  have advances : Advances 9 last (pmdAddrEnd · end_) := advances_cut endNat_pmdAddrEnd ends
  obtain ⟨n, inside, at_⟩ := advances.inside ends starts below reached
  -- An entry that is a table is left to `walk_pte`.
  split at printed
  · rw [printed]
    exact advances.sized (by decide) inside at_ 1 _
  · exact printed.sized

/-- `walk_pgd` prints parts of its range of at most 1 GiB. -/
theorem WalkPgdPrints.sized {pgd start size : U64} (starts : start.toNat = lo * 4096)
    (ends : endNat (start + size) = last * 4096) (below : lo < last) {call : PrintCall}
    (printed : WalkPgdPrints mem pgd start size call) : call.Sized := by
  obtain ⟨pgdp, addr, reached, printed⟩ := printed
  have advances : Advances 18 last (pgdAddrEnd · (start + size)) :=
    advances_cut endNat_pgdAddrEnd ends
  obtain ⟨n, inside, at_⟩ := advances.inside ends starts below reached
  split at printed
  · rw [printed]
    exact advances.sized (by decide) inside at_ 0 _
  · -- What is left to `walk_pmd` is not empty either.
    obtain ⟨m, above, -, -, there⟩ := advances n addr inside at_
    exact printed.sized at_ there above

end Ranges

/-! ### Empty requests -/

/-- A macro with both arguments the same gives them back, unless they are zero. -/
theorem levelAddrEnd_self {levelAddrEnd : U64 → U64 → U64} {k : Nat} {addr : U64}
    (cuts : ∀ addr end_, endNat (levelAddrEnd addr end_) =
      min ((addr.toNat / 2 ^ k + 1) * 2 ^ k) (endNat end_))
    (nonzero : addr ≠ 0) : levelAddrEnd addr addr = addr := by
  have value : addr.toNat ≠ 0 := fun zero => nonzero (BitVec.eq_of_toNat_eq zero)
  have here : endNat addr = addr.toNat := by rw [endNat_eq, if_neg value]
  -- The end of the block lies behind every address of it.
  have boundary : addr.toNat < (addr.toNat / 2 ^ k + 1) * 2 ^ k := by
    rw [Nat.mul_comm]
    exact Nat.lt_mul_div_succ _ (Nat.two_pow_pos _)
  refine endNat_inj.mp ?_
  rw [cuts, here]
  exact Nat.min_eq_right (Nat.le_of_lt boundary)

section Empty

variable {mem : Memory} {start : U64}

/-- Of an empty range `walk_pmd` prints a leaf as a range of its own, and nothing else. -/
theorem walkPmdPrints_empty {pgdp : U64} (nonzero : start ≠ 0) {call : PrintCall} :
    WalkPmdPrints mem pgdp start start call ↔
      if pmdNone (mem (getPmdpFromPgdp mem pgdp start)) ||
          pmdLeaf (mem (getPmdpFromPgdp mem pgdp start)) then
        call = ⟨start, start, 1, mem (getPmdpFromPgdp mem pgdp start)⟩
      else WalkPtePrints mem (getPmdpFromPgdp mem pgdp start) start start call := by
  have finished : pmdAddrEnd start start = start := levelAddrEnd_self endNat_pmdAddrEnd nonzero
  -- The first round ends at the end, so it is the only one.
  rw [WalkPmdPrints, exists_rounds, or_iff_left fun more => more.1 finished, finished]

/-- Of an empty request `walk_pgd` looks at one entry. -/
theorem walkPgdPrints_empty {pgd : U64} (nonzero : start ≠ 0) {call : PrintCall} :
    WalkPgdPrints mem pgd start 0 call ↔
      if pgdNone (mem (pgdOffsetRaw pgd start)) then
        call = ⟨start, start, 0, mem (pgdOffsetRaw pgd start)⟩
      else WalkPmdPrints mem (pgdOffsetRaw pgd start) start start call := by
  have finished : pgdAddrEnd start start = start := levelAddrEnd_self endNat_pgdAddrEnd nonzero
  have ends : start + 0 = start := BitVec.add_zero start
  rw [WalkPgdPrints, ends, exists_rounds, or_iff_left fun more => more.1 finished, finished]

/-- So a leaf at the start of an empty request is printed with a range that is empty. -/
theorem walkPgdPrints_leaf {pgd : U64} (nonzero : start ≠ 0)
    (some_ : ¬ pgdNone (mem (pgdOffsetRaw pgd start)) = true)
    (leaf : pmdLeaf (mem (getPmdpFromPgdp mem (pgdOffsetRaw pgd start) start)) = true) :
    ∃ val, val ≠ 0 ∧ WalkPgdPrints mem pgd start 0 ⟨start, start, 1, val⟩ := by
  refine ⟨mem (getPmdpFromPgdp mem (pgdOffsetRaw pgd start) start), fun zero => ?_, ?_⟩
  · -- An empty entry is not present.
    rw [zero] at leaf
    exact absurd leaf (by decide)
  · rw [walkPgdPrints_empty nonzero, if_neg some_, walkPmdPrints_empty nonzero, leaf, Bool.or_true,
      if_pos rfl]

/-- An empty request goes well exactly if its first entry leads to no leaf. -/
theorem sizes_empty_iff {pgd : U64} (nonzero : start ≠ 0) :
    (∀ call, WalkPgdPrints mem pgd start 0 call → call.val ≠ 0 → call.Sized) ↔
      pgdNone (mem (pgdOffsetRaw pgd start)) = true ∨
        pmdLeaf (mem (getPmdpFromPgdp mem (pgdOffsetRaw pgd start) start)) = false := by
  constructor
  · intro sized
    by_contra outside
    rw [not_or, Bool.not_eq_false] at outside
    obtain ⟨val, present, printed⟩ := walkPgdPrints_leaf nonzero outside.1 outside.2
    exact not_sized_empty start 1 val (sized _ printed present)
  · intro condition call printed val
    -- Only calls with an entry matter, and an entry that is neither empty nor a leaf is a table.
    rw [walkPgdPrints_empty nonzero] at printed
    split at printed
    · rename_i none_
      rw [printed] at val
      exact absurd (beq_iff_eq.mp none_) val
    · rename_i some_
      have open_ := condition.resolve_left some_
      rw [walkPmdPrints_empty nonzero, open_, Bool.or_false] at printed
      split at printed
      · rename_i none_
        rw [printed] at val
        exact absurd (beq_iff_eq.mp none_) val
      · -- From a table of the last level whole pages are printed, even though none was asked for.
        exact printed.sized

end Empty

/-- A request that is not empty ends behind its start. -/
theorem WalkPgdPrints.sized_of_nonempty {mem : Memory} {pgd start size : U64}
    (aligned : start.toNat % 4096 = 0) (whole : size.toNat % 4096 = 0)
    (within : start.toNat + size.toNat ≤ 2 ^ 39) (some_ : size ≠ 0) {call : PrintCall}
    (printed : WalkPgdPrints mem pgd start size call) : call.Sized := by
  have positive : size.toNat ≠ 0 := fun zero => some_ (BitVec.eq_of_toNat_eq zero)
  have starts : start.toNat = start.toNat / 4096 * 4096 := by omega
  -- Within the space the sum does not wrap, and it is not zero.
  have sum : (start + size).toNat = start.toNat + size.toNat := by
    rw [BitVec.toNat_add]
    exact Nat.mod_eq_of_lt (by omega)
  have ends : endNat (start + size) = (start.toNat + size.toNat) / 4096 * 4096 := by
    rw [endNat_eq, sum, if_neg (by omega)]
    omega
  exact printed.sized starts ends (by omega)

/-- At zero an empty request is the largest: an end of zero is the top of the address space. -/
theorem WalkPgdPrints.sized_of_zero {mem : Memory} {pgd : U64} {call : PrintCall}
    (printed : WalkPgdPrints mem pgd 0 0 call) : call.Sized := by
  have starts : (0 : U64).toNat = 0 * 4096 := rfl
  have ends : endNat (0 + 0) = 2 ^ 52 * 4096 := by decide
  exact printed.sized starts ends (by decide)

/--
For every table and every page-aligned request within the 39-bit space: for each range with an entry
that is not empty the loop over units ends at one of `units`, and the size is exact in it, if and
only if the request is not empty, or starts at zero, or its first entry leads to no leaf above the
last level. If the request is not empty, the ranges of empty entries have such a unit too.
-/
theorem walkPgd_sizes_iff (mem : Memory) (pgd : U64) {start size : U64}
    (aligned : start.toNat % 4096 = 0) (whole : size.toNat % 4096 = 0)
    (within : start.toNat + size.toNat ≤ 2 ^ 39) :
    ((∀ call, WalkPgdPrints mem pgd start size call → call.val ≠ 0 → call.Sized) ↔
      size ≠ 0 ∨ start = 0 ∨ pgdNone (mem (pgdOffsetRaw pgd start)) = true ∨
        pmdLeaf (mem (getPmdpFromPgdp mem (pgdOffsetRaw pgd start) start)) = false) ∧
    (size ≠ 0 → ∀ call, WalkPgdPrints mem pgd start size call → call.Sized) := by
  have nonempty : size ≠ 0 → ∀ call, WalkPgdPrints mem pgd start size call → call.Sized :=
    fun some_ _ printed => printed.sized_of_nonempty aligned whole within some_
  refine ⟨?_, nonempty⟩
  -- Only where nothing is asked for does the first entry matter.
  by_cases some_ : size = 0
  · subst some_
    rw [or_iff_right (not_not_intro rfl)]
    by_cases zero : start = 0
    · subst zero
      exact iff_of_true (fun _ printed _ => printed.sized_of_zero) (Or.inl rfl)
    · rw [or_iff_right zero]
      exact sizes_empty_iff zero
  · exact iff_of_true (fun call printed _ => nonempty some_ call printed) (Or.inl some_)

/-- A request for a leaf prints it with a unit. -/
theorem walkPgd_sizes_section :
    ∃ call, WalkPgdPrints exampleSection (frameAddr 0x80200) 0x80200000 0x200000 call ∧
      call = ⟨0x80200000, 0x80400000, 1, 0x200000cf⟩ ∧ call.Sized := by
  -- The first round of `walk_pgd` leaves it to `walk_pmd`, which prints it in its first round.
  have printed : WalkPgdPrints exampleSection (frameAddr 0x80200) 0x80200000 0x200000
      ⟨0x80200000, 0x80400000, 1, 0x200000cf⟩ := by
    refine exists_rounds.mpr (Or.inl ?_)
    rw [if_neg (by decide)]
    refine exists_rounds.mpr (Or.inl ?_)
    rw [if_pos (by decide)]
    decide
  have sized := (walkPgd_sizes_iff exampleSection (frameAddr 0x80200)
    (show (0x80200000 : U64).toNat % 4096 = 0 by decide)
    (show (0x200000 : U64).toNat % 4096 = 0 by decide) (by decide)).2 (by decide)
  exact ⟨_, printed, rfl, sized _ printed⟩

/-- Of an empty request at the leaf the leaf is printed, and the loop over units does not end. -/
theorem walkPgd_sizes_empty :
    ¬ ∀ (mem : Memory) (pgd start size : U64), start.toNat % 4096 = 0 → size.toNat % 4096 = 0 →
      start.toNat + size.toNat ≤ 2 ^ 39 → ∀ call, WalkPgdPrints mem pgd start size call →
        call.val ≠ 0 → call.Sized := by
  intro always
  obtain ⟨val, present, printed⟩ : ∃ val, val ≠ 0 ∧
      WalkPgdPrints exampleSection (frameAddr 0x80200) 0x80200000 0
        ⟨0x80200000, 0x80200000, 1, val⟩ :=
    walkPgdPrints_leaf (by decide) (by decide) (by decide)
  exact not_sized_empty 0x80200000 1 val
    (always _ _ _ _ (by decide) (by decide) (by decide) _ printed present)

/-! ### The dump itself -/

section Dump

variable {mem : Memory} {masks : Nat → U64} {pgd start size : U64}

/-- At a leaf the dump of an empty request does not end. -/
theorem walkPgd_empty_none (nonzero : start ≠ 0)
    (some_ : ¬ pgdNone (mem (pgdOffsetRaw pgd start)) = true)
    (leaf : pmdLeaf (mem (getPmdpFromPgdp mem (pgdOffsetRaw pgd start) start)) = true) (fuel : Nat)
    (d : Dump) : walkPgd mem masks fuel pgd start 0 d = none := by
  rw [Option.eq_none_iff_forall_ne_some]
  intro d' ran
  obtain ⟨val, present, printed⟩ := walkPgdPrints_leaf nonzero some_ leaf
  -- There would be a line about the leaf, for which the loop over units has ended.
  obtain ⟨_, -, fuel, delta, unit, found, -⟩ := (walkPgd_prints ran).ended _ printed present
  dsimp only at found
  rw [unitLoop_empty] at found
  cases found

/-- In a dump that ends every line has one of the units, and the exact size in it. -/
theorem walkPgd_lines_sized {fuel : Nat} {d : Dump} (aligned : start.toNat % 4096 = 0)
    (whole : size.toNat % 4096 = 0) (within : start.toNat + size.toNat ≤ 2 ^ 39)
    (ran : walkPgd mem masks fuel pgd start size ⟨[], []⟩ = some d) :
    ∀ r ∈ d.reports, r.unit < units.length ∧
      r.delta.toNat * 1024 ^ (r.unit + 1) = (r.end_ - r.start).toNat := by
  intro r member
  obtain ⟨call, printed, present, other, delta, unit, found, rfl⟩ :=
    (((walkPgd_prints ran).reports r).mp member).resolve_left List.not_mem_nil
  have sized : call.Sized := by
    by_cases some_ : size = 0
    · subst some_
      by_cases zero : start = 0
      · subst zero
        exact printed.sized_of_zero
      · refine (sizes_empty_iff zero).mpr ?_ call printed present
        -- Otherwise the dump would not have ended.
        by_contra outside
        rw [not_or, Bool.not_eq_false] at outside
        rw [walkPgd_empty_none zero outside.1 outside.2] at ran
        cases ran
    · exact printed.sized_of_nonempty aligned whole within some_
  -- The line has what the loop over units has found.
  obtain ⟨delta', unit', ⟨bound, ended⟩, inside, exact_⟩ := sized
  obtain ⟨rfl, rfl⟩ := Prod.mk.inj (unitLoop_unique found (ended bound (Nat.le_refl bound)))
  exact ⟨inside, exact_⟩

end Dump

end Benos
