import Benos.Kallsyms.Offset
import Mathlib.Data.Finset.Lattice.Fold
import Mathlib.Order.Lattice.Nat

/-!
`kallsyms_lookup`: the symbol around an address, its name and its size.

The indices of the search are `unsigned long` and stay below twice a 32-bit number, so that they are
counted without overflow.
-/

namespace Benos.Kallsyms

/-- The tables that the kernel is linked with. -/
structure Tables extends Arrays where
  kallsymsAddresses : Nat → U64
  kallsymsNumSyms : BitVec 32
  kallsymsTokenTable : Nat → BitVec 8
  kallsymsTokenIndex : Nat → BitVec 16
  /-- `.asciz` ends every token with a zero. -/
  terminated : ∀ code : BitVec 8,
    ∃ n, kallsymsTokenTable ((kallsymsTokenIndex code.toNat).toNat + n) = 0

/-- `is_kernel`, from the two symbols of the linker. -/
def isKernel (stext etext addr : U64) : Bool := stext ≤ addr ∧ addr ≤ etext

/-- What `kallsyms_lookup` tells about an address. -/
structure Found where
  symbolsize : U64
  offset : U64
  namebuf : Nat → BitVec 8

namespace Tables

variable (k : Tables)

/-- The loop over the characters of one token; the first of all characters is skipped. -/
def writeToken : Nat → Nat → Bool → List (BitVec 8) → Option (Bool × List (BitVec 8))
  | 0, _, _, _ => none
  | fuel + 1, tptr, skippedFirst, result =>
    let c := k.kallsymsTokenTable tptr
    if c = 0 then some (skippedFirst, result)
    else writeToken fuel (tptr + 1) true (if skippedFirst then result ++ [c] else result)

/-- The loop over the `len` tokens of a record. -/
def expandFrom (fuel : Nat) : Nat → Nat → Bool → List (BitVec 8) → Option (List (BitVec 8))
  | 0, _, _, result => some (result ++ [0])
  | len + 1, data, skippedFirst, result =>
    let tptr := (k.kallsymsTokenIndex (k.kallsymsNames data).toNat).toNat
    match k.writeToken fuel tptr skippedFirst result with
    | none => none
    | some (skippedFirst, result) => expandFrom fuel len (data + 1) skippedFirst result

/-- `kallsyms_expand_symbol`: the offset it returns, and the bytes it writes one by one. -/
def kallsymsExpandSymbol (fuel : Nat) (off : BitVec 32) : Option (BitVec 32 × List (BitVec 8)) :=
  let len := k.kallsymsNames off.toNat
  (k.expandFrom fuel len.toNat (off.toNat + 1) false []).map fun written =>
    (off + (len.setWidth 32 + 1), written)

/-- The binary search of `kallsyms_lookup`. -/
def search (addr : U64) (low high : Nat) : Nat :=
  if high - low > 1 then
    let mid := (low + high) / 2
    if k.kallsymsAddresses mid ≤ addr then search addr mid high else search addr low mid
  else low
termination_by high - low
decreasing_by all_goals omega

/-- The search for the next symbol that is not an alias, from index `i` on; zero for none. -/
def symbolEnd (low i : Nat) : U64 :=
  if i < k.kallsymsNumSyms.toNat then
    if k.kallsymsAddresses low < k.kallsymsAddresses i then k.kallsymsAddresses i
    else symbolEnd low (i + 1)
  else 0
termination_by k.kallsymsNumSyms.toNat - i

/-- `kallsyms_lookup`, which finds nothing for an address outside of the kernel. -/
def kallsymsLookup (fuel : Nat) (stext etext addr : U64) (namebuf : Nat → BitVec 8) :
    Option (Option Found) :=
  let namebuf := Function.update namebuf (ksymNameLen - 1) 0
  let namebuf := Function.update namebuf 0 0
  if isKernel stext etext addr then
    let low := k.search addr 0 k.kallsymsNumSyms.toNat
    match k.kallsymsExpandSymbol fuel (k.getSymbolOffset (BitVec.ofNat 64 low)) with
    | none => none
    | some (_, written) =>
      some (some {
        symbolsize := k.symbolEnd low (low + 1) - k.kallsymsAddresses low
        offset := addr - k.kallsymsAddresses low
        namebuf := fun i => written[i]?.getD (namebuf i) })
  else some none

/-! ### Writing a name -/

/-- How many characters a token has. -/
def tokenLength (code : BitVec 8) : Nat := Nat.find (k.terminated code)

/-- The characters of a token. -/
def token (code : BitVec 8) : List (BitVec 8) :=
  (List.range (k.tokenLength code)).map fun i =>
    k.kallsymsTokenTable ((k.kallsymsTokenIndex code.toNat).toNat + i)

/-- As many rounds as the longest token needs. -/
def rounds : Nat := (Finset.range 256).sup fun i => k.tokenLength (BitVec.ofNat 8 i) + 1

/-- No token is longer than that. -/
theorem tokenLength_lt (code : BitVec 8) : k.tokenLength code < k.rounds := by
  have known : code.toNat ∈ Finset.range 256 := Finset.mem_range.mpr code.isLt
  -- There is a code for each of the 256 indices.
  have least := Finset.le_sup (f := fun i => k.tokenLength (BitVec.ofNat 8 i) + 1) known
  rw [BitVec.ofNat_toNat, BitVec.setWidth_eq] at least
  exact least

/-- One more character is written unless it is the first of all. -/
theorem tail_append (seen : List (BitVec 8)) (c : BitVec 8) :
    (if !seen.isEmpty then seen.tail ++ [c] else seen.tail) = (seen ++ [c]).tail := by
  cases seen <;> rfl

/-- The loop over a token writes its characters, the first of all characters excepted. -/
theorem writeToken_eq (tptr : Nat) {more : Nat} (full : ∀ i < more, k.kallsymsTokenTable (tptr + i) ≠ 0)
    (ended : k.kallsymsTokenTable (tptr + more) = 0) {fuel : Nat} (enough : more < fuel)
    (seen : List (BitVec 8)) :
    k.writeToken fuel tptr (!seen.isEmpty) seen.tail =
      some (!(seen ++ (List.range more).map fun i => k.kallsymsTokenTable (tptr + i)).isEmpty,
        (seen ++ (List.range more).map fun i => k.kallsymsTokenTable (tptr + i)).tail) := by
  -- What was seen so far tells both what was written and whether anything was skipped.
  induction more generalizing tptr fuel seen with
  | zero =>
    obtain ⟨fuel, rfl⟩ := Nat.exists_eq_add_of_le' enough
    rw [Nat.add_zero] at ended
    simp [writeToken, ended]
  | succ more ih =>
    obtain ⟨fuel, rfl⟩ := Nat.exists_eq_add_of_le' (Nat.lt_of_le_of_lt (Nat.zero_le _) enough)
    have first : k.kallsymsTokenTable tptr ≠ 0 := full 0 (by omega)
    have shift (i : Nat) : tptr + 1 + i = tptr + (i + 1) := by omega
    have later := ih (tptr + 1) (fun i inside => by rw [shift]; exact full (i + 1) (by omega))
      (by rw [shift]; exact ended) (show more < fuel by omega) (seen ++ [k.kallsymsTokenTable tptr])
    -- From the first character on there is something that was seen.
    have marked : (!(seen ++ [k.kallsymsTokenTable tptr]).isEmpty) = true := by
      cases seen <;> rfl
    -- The characters behind the first one are those from the next place on.
    have chars : (List.range (more + 1)).map (fun i => k.kallsymsTokenTable (tptr + i)) =
        k.kallsymsTokenTable tptr ::
          (List.range more).map fun i => k.kallsymsTokenTable (tptr + 1 + i) := by
      rw [List.range_succ_eq_map, List.map_cons, List.map_map, Nat.add_zero]
      congr 1
      exact List.map_congr_left fun i _ => by rw [shift]; rfl
    rw [writeToken, if_neg first, tail_append, chars, ← marked, later, List.append_assoc, List.singleton_append]

/-- The characters of a record: those of its tokens one behind the other. -/
def recordText (off : Nat) : List (BitVec 8) :=
  (List.range (k.kallsymsNames off).toNat).flatMap fun i =>
    k.token (k.kallsymsNames (off + 1 + i))

/-- The loop over a record writes the characters of its tokens. -/
theorem expandFrom_eq {fuel : Nat} (enough : k.rounds ≤ fuel) (len data : Nat)
    (seen : List (BitVec 8)) :
    k.expandFrom fuel len data (!seen.isEmpty) seen.tail =
      some ((seen ++ (List.range len).flatMap fun i => k.token (k.kallsymsNames (data + i))).tail ++
        [0]) := by
  induction len generalizing data seen with
  | zero => simp [expandFrom]
  | succ len ih =>
    let code := k.kallsymsNames data
    have short : k.tokenLength code < fuel := Nat.lt_of_lt_of_le (k.tokenLength_lt code) enough
    -- The token ends at its first zero, which is found in time.
    have token := k.writeToken_eq (k.kallsymsTokenIndex code.toNat).toNat
      (fun i inside => Nat.find_min (k.terminated code) inside) (Nat.find_spec (k.terminated code))
      short seen
    -- The tokens behind the first one are those of the codes behind.
    have tokens : (List.range (len + 1)).flatMap (fun i => k.token (k.kallsymsNames (data + i))) =
        k.token code ++ (List.range len).flatMap fun i =>
          k.token (k.kallsymsNames (data + 1 + i)) := by
      rw [List.range_succ_eq_map, List.flatMap_cons, List.flatMap_map]
      congr 2
      funext i
      rw [show data + 1 + i = data + (i + 1) by omega]
    rw [expandFrom, token]
    dsimp only
    rw [ih, tokens, List.append_assoc]
    rfl

/-- `kallsyms_expand_symbol` writes the record without its first character, and a zero. -/
theorem kallsymsExpandSymbol_eq {fuel : Nat} (enough : k.rounds ≤ fuel) (off : BitVec 32) :
    k.kallsymsExpandSymbol fuel off =
      some (off + ((k.kallsymsNames off.toNat).setWidth 32 + 1),
        (k.recordText off.toNat).tail ++ [0]) := by
  have written := k.expandFrom_eq enough (k.kallsymsNames off.toNat).toNat (off.toNat + 1) []
  exact congrArg (Option.map _) written

/-! ### The search -/

/-- The addresses do not decrease. -/
def Sorted : Prop :=
  ∀ i j, i ≤ j → j < k.kallsymsNumSyms.toNat → k.kallsymsAddresses i ≤ k.kallsymsAddresses j

/-- An index is the greatest one whose address is not above an address. -/
def Greatest (addr : U64) (low : Nat) : Prop :=
  low < k.kallsymsNumSyms.toNat ∧ k.kallsymsAddresses low ≤ addr ∧
    ∀ i < k.kallsymsNumSyms.toNat, k.kallsymsAddresses i ≤ addr → i ≤ low

/-- The binary search ends at the greatest index between its bounds. -/
theorem search_spec {k : Tables} (sorted : k.Sorted) {addr : U64} {low high : Nat} (span : low < high)
    (inside : high ≤ k.kallsymsNumSyms.toNat) (below : k.kallsymsAddresses low ≤ addr)
    (above : ∀ i, high ≤ i → i < k.kallsymsNumSyms.toNat → addr < k.kallsymsAddresses i) :
    k.Greatest addr (k.search addr low high) := by
  -- Both bounds keep what is known of them until nothing is left between them.
  induction low, high using search.induct k addr with
  | case1 low high more mid reached ih =>
    rw [search, if_pos more]
    dsimp only
    rw [if_pos reached]
    exact ih (by omega) inside reached above
  | case2 low high more mid passed ih =>
    rw [search, if_pos more]
    dsimp only
    rw [if_neg passed]
    -- What is behind the middle is above the address too.
    refine ih (by omega) (by omega) below fun i behind within => ?_
    exact Nat.lt_of_lt_of_le (BitVec.not_le.mp passed) (sorted mid i behind within)
  | case3 low high done =>
    rw [search, if_neg done]
    -- Nothing is left between the bounds, so what is behind the lower one is above.
    refine ⟨by omega, below, fun i within reached => ?_⟩
    by_contra beyond
    exact absurd reached (BitVec.not_le.mpr (above i (by omega) within))

/-- In front of the first symbol the search ends at the first. -/
theorem search_front {k : Tables} {addr : U64} {high : Nat}
    (above : ∀ i < high, addr < k.kallsymsAddresses i) : k.search addr 0 high = 0 := by
  induction high using Nat.strong_induction_on with
  | _ high ih =>
    rw [search]
    by_cases more : high - 0 > 1
    · -- The middle is above the address, and the search stays in front of it.
      have passed : ¬ k.kallsymsAddresses ((0 + high) / 2) ≤ addr :=
        BitVec.not_le.mpr (above _ (by omega))
      rw [if_pos more]
      dsimp only
      rw [if_neg passed]
      exact ih _ (by omega) fun i inside => above i (by omega)
    · exact if_neg more

/-- The search for the end of a symbol stops at the first greater address. -/
theorem symbolEnd_found {k : Tables} {low i next : Nat} (behind : i ≤ next)
    (inside : next < k.kallsymsNumSyms.toNat)
    (greater : k.kallsymsAddresses low < k.kallsymsAddresses next)
    (aliases : ∀ j, i ≤ j → j < next → k.kallsymsAddresses j ≤ k.kallsymsAddresses low) :
    k.symbolEnd low i = k.kallsymsAddresses next := by
  induction i using symbolEnd.induct k low with
  | case1 i within stop =>
    -- Nothing in front of `next` is greater.
    have here : i = next := by
      by_contra other
      exact absurd stop (BitVec.not_lt.mpr (aliases i (Nat.le_refl _) (by omega)))
    rw [symbolEnd, if_pos within, if_pos stop, here]
  | case2 i within pass ih =>
    have other : i ≠ next := fun equal => pass (by rw [equal]; exact greater)
    rw [symbolEnd, if_pos within, if_neg pass]
    exact ih (by omega) fun j later => aliases j (by omega)
  | case3 i outside => omega

/-- Where no address is greater it runs off the table. -/
theorem symbolEnd_none {k : Tables} {low i : Nat}
    (aliases : ∀ j, i ≤ j → j < k.kallsymsNumSyms.toNat →
      k.kallsymsAddresses j ≤ k.kallsymsAddresses low) : k.symbolEnd low i = 0 := by
  induction i using symbolEnd.induct k low with
  | case1 i within stop =>
    -- It cannot stop, as nothing is greater.
    exact absurd stop (BitVec.not_lt.mpr (aliases i (Nat.le_refl _) within))
  | case2 i within pass ih =>
    rw [symbolEnd, if_pos within, if_neg pass]
    exact ih fun j later => aliases j (by omega)
  | case3 i outside => rw [symbolEnd, if_neg outside]

/-- The loops of `kallsyms_lookup` end, and what it tells is told by the search. -/
theorem kallsymsLookup_eq {fuel : Nat} (enough : k.rounds ≤ fuel) {stext etext addr : U64}
    (accepted : isKernel stext etext addr = true) (namebuf : Nat → BitVec 8) :
    ∃ found, k.kallsymsLookup fuel stext etext addr namebuf = some (some found) ∧
      found.symbolsize = k.symbolEnd (k.search addr 0 k.kallsymsNumSyms.toNat)
          (k.search addr 0 k.kallsymsNumSyms.toNat + 1) -
        k.kallsymsAddresses (k.search addr 0 k.kallsymsNumSyms.toNat) ∧
      found.offset = addr - k.kallsymsAddresses (k.search addr 0 k.kallsymsNumSyms.toNat) := by
  rw [kallsymsLookup, if_pos accepted]
  dsimp only
  rw [k.kallsymsExpandSymbol_eq enough]
  exact ⟨_, rfl, rfl, rfl⟩

/-- Two symbols without a name, at the start and at the end of a page of code. -/
def twoSymbols : Tables where
  kallsymsNames := fun _ => 0
  kallsymsMarkers := fun _ => 0
  kallsymsAddresses := fun i => if i = 0 then 0x80200000 else 0x80201000
  kallsymsNumSyms := 2
  kallsymsTokenTable := fun _ => 0
  kallsymsTokenIndex := fun _ => 0
  terminated := fun _ => ⟨0, rfl⟩

/-- They are in order. -/
theorem twoSymbols_sorted : twoSymbols.Sorted := by
  intro i j order inside
  have two : j < 2 := inside
  have all : ∀ j < 2, ∀ i ≤ j, twoSymbols.kallsymsAddresses i ≤ twoSymbols.kallsymsAddresses j := by
    decide
  exact all j two i order

/-! ### The symbol around an address -/

section

variable {k : Tables} (sorted : k.Sorted) (entries : 0 < k.kallsymsNumSyms.toNat)
include sorted

/-- A greater address is behind the index, and the first one ends the symbol. -/
theorem symbolEnd_after {low : Nat} (known : low < k.kallsymsNumSyms.toNat)
    (some_ : ∃ i < k.kallsymsNumSyms.toNat, k.kallsymsAddresses low < k.kallsymsAddresses i) :
    ∃ next < k.kallsymsNumSyms.toNat, k.kallsymsAddresses low < k.kallsymsAddresses next ∧
      (∀ i < next, k.kallsymsAddresses i ≤ k.kallsymsAddresses low) ∧
      k.symbolEnd low (low + 1) = k.kallsymsAddresses next := by
  -- The first of the greater addresses.
  obtain ⟨inside, greater⟩ := Nat.find_spec some_
  have aliases : ∀ i < Nat.find some_, k.kallsymsAddresses i ≤ k.kallsymsAddresses low := by
    intro i before
    by_contra above
    exact Nat.find_min some_ before ⟨Nat.lt_trans before inside, BitVec.not_le.mp above⟩
  -- In front of the symbol and at it no address is greater.
  have behind : low + 1 ≤ Nat.find some_ := by
    by_contra front
    exact absurd (sorted (Nat.find some_) low (by omega) known) (BitVec.not_le.mpr greater)
  exact ⟨_, inside, greater, aliases,
    symbolEnd_found behind inside greater fun j _ before => aliases j before⟩

include entries

/-- From the first symbol on the search selects the greatest index. -/
theorem search_greatest {addr : U64} (first : k.kallsymsAddresses 0 ≤ addr) :
    k.Greatest addr (k.search addr 0 k.kallsymsNumSyms.toNat) :=
  search_spec sorted entries (Nat.le_refl _) first fun i behind inside => absurd inside (by omega)

/--
For an address of the kernel that is not in front of the first symbol `kallsyms_lookup` ends and
tells about the last symbol that is not behind the address: how far the address is from it and, if
a later symbol has another address, how far the first such symbol is, which is further.
-/
theorem kallsymsLookup_enclosing {stext etext addr : U64}
    (accepted : isKernel stext etext addr = true) (first : k.kallsymsAddresses 0 ≤ addr)
    (namebuf : Nat → BitVec 8) :
    ∃ low, low = k.search addr 0 k.kallsymsNumSyms.toNat ∧ k.Greatest addr low ∧
      ∃ bound, ∀ fuel ≥ bound, ∃ found,
        k.kallsymsLookup fuel stext etext addr namebuf = some (some found) ∧
        found.offset = addr - k.kallsymsAddresses low ∧
        ((∃ i < k.kallsymsNumSyms.toNat, k.kallsymsAddresses low < k.kallsymsAddresses i) →
          ∃ next < k.kallsymsNumSyms.toNat,
            k.kallsymsAddresses low < k.kallsymsAddresses next ∧
            (∀ i < next, k.kallsymsAddresses i ≤ k.kallsymsAddresses low) ∧
            found.symbolsize = k.kallsymsAddresses next - k.kallsymsAddresses low ∧
            found.offset < found.symbolsize) := by
  have greatest := search_greatest sorted entries first
  refine ⟨_, rfl, greatest, k.rounds, fun fuel enough => ?_⟩
  obtain ⟨found, looked, size, offset⟩ := k.kallsymsLookup_eq enough accepted namebuf
  refine ⟨found, looked, offset, fun some_ => ?_⟩
  obtain ⟨known, below, last⟩ := greatest
  obtain ⟨next, inside, greater, aliases, ended⟩ := symbolEnd_after sorted known some_
  rw [ended] at size
  refine ⟨next, inside, greater, aliases, size, ?_⟩
  -- The next symbol is behind the selected one, and so it is above the address.
  have above : addr < k.kallsymsAddresses next := by
    by_contra reached
    have within := last next inside (BitVec.not_lt.mp reached)
    exact absurd (sorted next _ within known) (BitVec.not_le.mpr greater)
  rw [offset, size]
  bv_omega

omit sorted entries in
/-- An address in the page is in the first symbol, which ends with the page. -/
theorem kallsymsLookup_enclosing_page : ∃ bound, ∀ fuel ≥ bound, ∃ found,
    twoSymbols.kallsymsLookup fuel 0x80200000 0x80201000 0x80200010 (fun _ => 0) =
      some (some found) ∧ found.offset = 0x10 ∧ found.symbolsize = 0x1000 := by
  obtain ⟨low, -, ⟨known, below, _⟩, bound, looks⟩ := kallsymsLookup_enclosing twoSymbols_sorted
    (by decide) (show isKernel 0x80200000 0x80201000 0x80200010 = true by decide)
    (show twoSymbols.kallsymsAddresses 0 ≤ 0x80200010 by decide) fun _ => 0
  -- The second symbol is behind the address.
  have two : low < 2 := known
  obtain rfl : low = 0 := by
    by_contra other
    obtain rfl : low = 1 := by omega
    exact absurd below (by decide)
  refine ⟨bound, fun fuel enough => ?_⟩
  obtain ⟨found, looked, offset, after⟩ := looks fuel enough
  obtain ⟨next, inside, greater, _, size, _⟩ := after ⟨1, by decide, by decide⟩
  have both : next < 2 := inside
  obtain rfl : next = 1 := by
    by_contra other
    obtain rfl : next = 0 := by omega
    exact absurd greater (by decide)
  exact ⟨found, looked, offset, size⟩

/-- The size that `kallsyms_lookup` tells is the distance to an address that is not out of reach. -/
def SizeSane (k : Tables) (stext etext addr : U64) (namebuf : Nat → BitVec 8) : Prop :=
  ∃ low, low = k.search addr 0 k.kallsymsNumSyms.toNat ∧ ∃ bound, ∀ fuel ≥ bound, ∃ found,
    k.kallsymsLookup fuel stext etext addr namebuf = some (some found) ∧
    ∃ ended : U64, k.kallsymsAddresses low ≤ ended ∧
      (ended ≤ etext ∨ ended ≤ k.kallsymsAddresses (k.kallsymsNumSyms.toNat - 1)) ∧
      found.symbolsize = ended - k.kallsymsAddresses low

/-- The search selects a symbol of the table, the first one for an address in front of all. -/
theorem search_known (addr : U64) :
    k.Greatest addr (k.search addr 0 k.kallsymsNumSyms.toNat) ∨
      addr < k.kallsymsAddresses 0 ∧ k.search addr 0 k.kallsymsNumSyms.toNat = 0 := by
  by_cases first : k.kallsymsAddresses 0 ≤ addr
  · exact Or.inl (search_greatest sorted entries first)
  · have front := BitVec.not_le.mp first
    refine Or.inr ⟨front, search_front fun i inside => ?_⟩
    exact Nat.lt_of_lt_of_le front (sorted 0 i (Nat.zero_le _) inside)

/-- A symbol with a greater address is there for the selected one if the last one is behind it. -/
theorem search_later_iff (addr : U64) :
    (∃ i < k.kallsymsNumSyms.toNat,
        k.kallsymsAddresses (k.search addr 0 k.kallsymsNumSyms.toNat) < k.kallsymsAddresses i) ↔
      addr < k.kallsymsAddresses (k.kallsymsNumSyms.toNat - 1) ∧
        k.kallsymsAddresses 0 < k.kallsymsAddresses (k.kallsymsNumSyms.toNat - 1) := by
  have last : k.kallsymsNumSyms.toNat - 1 < k.kallsymsNumSyms.toNat := by omega
  have most {i : Nat} (inside : i < k.kallsymsNumSyms.toNat) :=
    sorted i (k.kallsymsNumSyms.toNat - 1) (by omega) last
  rcases search_known sorted entries addr with ⟨known, below, greatest⟩ | ⟨front, zero⟩
  · have first := sorted 0 _ (Nat.zero_le _) known
    constructor
    · -- A later symbol is no greater than the last one.
      rintro ⟨i, inside, greater⟩
      have above := Nat.lt_of_lt_of_le greater (most inside)
      refine ⟨?_, Nat.lt_of_le_of_lt first above⟩
      -- If the last symbol were not behind the address, it would have been selected.
      by_contra reached
      have here := greatest _ last (BitVec.not_lt.mp reached)
      exact absurd (sorted _ _ here known) (BitVec.not_le.mpr above)
    · exact fun behind => ⟨_, last, Nat.lt_of_le_of_lt below behind.1⟩
  · rw [zero]
    constructor
    · rintro ⟨i, inside, greater⟩
      have above := Nat.lt_of_lt_of_le greater (most inside)
      exact ⟨Nat.lt_trans front above, above⟩
    · exact fun behind => ⟨_, last, behind.2⟩

/--
The size is sane exactly if the last symbol is behind the address, and behind the first symbol, or
the table holds nothing but zeros.
-/
theorem sizeSane_iff {stext etext addr : U64} (accepted : isKernel stext etext addr = true)
    (namebuf : Nat → BitVec 8) :
    SizeSane k stext etext addr namebuf ↔
      k.kallsymsAddresses (k.kallsymsNumSyms.toNat - 1) = 0 ∨
      addr < k.kallsymsAddresses (k.kallsymsNumSyms.toNat - 1) ∧
        k.kallsymsAddresses 0 < k.kallsymsAddresses (k.kallsymsNumSyms.toNat - 1) := by
  have last : k.kallsymsNumSyms.toNat - 1 < k.kallsymsNumSyms.toNat := by omega
  have known : k.search addr 0 k.kallsymsNumSyms.toNat < k.kallsymsNumSyms.toNat := by
    rcases search_known sorted entries addr with greatest | ⟨_, zero⟩
    · exact greatest.1
    · rw [zero]
      exact entries
  have least := sorted (k.search addr 0 k.kallsymsNumSyms.toNat) _ (Nat.le_sub_one_of_lt known) last
  rw [← search_later_iff sorted entries addr]
  by_cases later : ∃ i < k.kallsymsNumSyms.toNat,
      k.kallsymsAddresses (k.search addr 0 k.kallsymsNumSyms.toNat) < k.kallsymsAddresses i
  · -- The end of the symbol is where a later one begins.
    obtain ⟨next, inside, greater, _, ended⟩ := symbolEnd_after sorted known later
    refine iff_of_true ⟨_, rfl, k.rounds, fun fuel enough => ?_⟩ (Or.inr later)
    obtain ⟨found, looked, size, _⟩ := k.kallsymsLookup_eq enough accepted namebuf
    rw [ended] at size
    exact ⟨found, looked, _, BitVec.le_of_lt greater,
      Or.inr (sorted next _ (by omega) last), size⟩
  · rw [or_iff_left later]
    -- The scan runs off the table and leaves zero behind.
    have aliases : ∀ i < k.kallsymsNumSyms.toNat, k.kallsymsAddresses i ≤
        k.kallsymsAddresses (k.search addr 0 k.kallsymsNumSyms.toNat) := by
      intro i inside
      by_contra above
      exact later ⟨i, inside, BitVec.not_le.mp above⟩
    have none := symbolEnd_none fun j
      (_ : k.search addr 0 k.kallsymsNumSyms.toNat + 1 ≤ j) inside => aliases j inside
    constructor
    · rintro ⟨low, rfl, bound, sane⟩
      obtain ⟨found, looked, ended, reached, _, size⟩ := sane (max bound k.rounds) (le_max_left _ _)
      obtain ⟨same, looked', size', _⟩ :=
        k.kallsymsLookup_eq (le_max_right bound k.rounds) accepted namebuf
      rw [looked, Option.some_inj, Option.some_inj] at looked'
      rw [← looked', none, size] at size'
      -- Zero minus the address is an end without wrapping only at address zero.
      have zero := aliases _ last
      bv_omega
    · intro zero
      refine ⟨_, rfl, k.rounds, fun fuel enough => ?_⟩
      obtain ⟨found, looked, size, _⟩ := k.kallsymsLookup_eq enough accepted namebuf
      rw [none] at size
      rw [zero] at least
      exact ⟨found, looked, 0, least, Or.inl (Nat.zero_le _), size⟩

end

/-- The page of code has a size, as its end is a symbol behind it. -/
theorem sizeSane_page : SizeSane twoSymbols 0x80200000 0x80201000 0x80200010 fun _ => 0 :=
  (sizeSane_iff twoSymbols_sorted (by decide) (by decide) _).mpr (Or.inr (by decide))

/-- The last symbol has no end, and the size is below zero. -/
theorem not_sizeSane_last : ¬ ∀ (k : Tables) (stext etext addr : U64) (namebuf : Nat → BitVec 8),
    k.Sorted → 0 < k.kallsymsNumSyms.toNat → isKernel stext etext addr = true →
      SizeSane k stext etext addr namebuf := by
  intro sane
  have accepted : isKernel 0x80200000 0x80201000 0x80201000 = true := by decide
  have sorted := twoSymbols_sorted
  obtain ⟨low, selected, bound, looks⟩ :=
    sane twoSymbols 0x80200000 0x80201000 0x80201000 (fun _ => 0) sorted (by decide) accepted
  have greatest := search_greatest sorted (by decide)
    (show twoSymbols.kallsymsAddresses 0 ≤ 0x80201000 by decide)
  rw [← selected] at greatest
  obtain ⟨known, _, last⟩ := greatest
  -- The last symbol is at the address itself, and so it is selected.
  obtain rfl : low = 1 := by
    have two : low < 2 := known
    have one := last 1 (by decide) (by decide)
    omega
  obtain ⟨found, looked, ended, reached, _, size⟩ := looks (max bound twoSymbols.rounds) (le_max_left _ _)
  obtain ⟨same, looked', size', _⟩ := twoSymbols.kallsymsLookup_eq
    (le_max_right bound twoSymbols.rounds) accepted fun _ => 0
  -- There is no index behind the last one, so the end of the symbol is never set.
  have none : twoSymbols.symbolEnd 1 2 = 0 := symbolEnd_none fun j behind inside => by
    have two : j < 2 := inside
    omega
  rw [looked, Option.some_inj, Option.some_inj] at looked'
  rw [← looked', ← selected, none, size] at size'
  have address : twoSymbols.kallsymsAddresses 1 = 0x80201000 := rfl
  rw [address] at reached size'
  bv_omega

end Tables

end Benos.Kallsyms
