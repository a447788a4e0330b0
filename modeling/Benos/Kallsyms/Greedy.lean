import Benos.Kallsyms.RoundTrip
import Mathlib.Algebra.Order.BigOperators.Group.List

/-!
Which tokens `scripts/kallsyms` makes. Its counts of pairs are kept up to date as the names change,
and what it does with them is byte pair encoding: the most frequent pair of all comes next.
-/

namespace Benos.Kallsyms

open PairTokens

/-- How many characters the words have. -/
def size (words : List (List (BitVec 8))) : Nat := (words.map List.length).sum

/-- The pairs with an index are the most frequent ones, and none with a lower index is as frequent. -/
structure MostFrequent (words : List (List (BitVec 8))) (index : Nat) : Prop where
  occurs : 0 < total words index
  most : ∀ i, total words i ≤ total words index
  first : ∀ i < index, total words i < total words index

/--
What byte pair encoding makes of some words with the codes below a number, the greatest one first:
every free code stands for the pair that is the most frequent one at its turn, until the codes or
the pairs are used up.
-/
inductive Encoded (free : BitVec 8 → Prop) :
    Nat → List (List (BitVec 8)) → List (List (BitVec 8)) → Prop
  | full {words} : Encoded free 0 words words
  | done {i words} : free (BitVec.ofNat 8 i) → (∀ index, total words index = 0) →
      Encoded free (i + 1) words words
  | skip {i words after} : ¬ free (BitVec.ofNat 8 i) → Encoded free i words after →
      Encoded free (i + 1) words after
  | token {i words after} (pair : BitVec 8 × BitVec 8) : free (BitVec.ofNat 8 i) →
      MostFrequent words (profitIndex pair) →
      Encoded free i (words.map (substitute pair.1 pair.2 (BitVec.ofNat 8 i))) after →
      Encoded free (i + 1) words after

/-! ### Counts -/

/-- A word has no more pairs than characters. -/
theorem pairs_length_le (word : List (BitVec 8)) : (pairs word).length ≤ word.length := by
  induction word using pairs.induct with
  | case1 x y rest ih =>
    rw [pairs, List.length_cons, List.length_cons]
    exact Nat.succ_le_succ ih
  | case2 word short => rcases eq_of_short short with rfl | ⟨x, rfl⟩ <;> simp [pairs]

/-- So a pair is counted no more often than there are characters. -/
theorem total_le_size (words : List (List (BitVec 8))) (i : Nat) : total words i ≤ size words := by
  refine List.sum_le_sum fun word _ => ?_
  exact Nat.le_trans List.countP_le_length (pairs_length_le word)

/-- Replacing a pair adds no characters. -/
theorem size_substitute_le (pair : BitVec 8 × BitVec 8) (idx : BitVec 8)
    (words : List (List (BitVec 8))) :
    size (words.map (substitute pair.1 pair.2 idx)) ≤ size words := by
  rw [size, List.map_map]
  exact List.sum_le_sum fun word _ => substitute_length_le _ _ _ word

/-- The index of a pair is below `0x10000`. -/
theorem profitIndex_lt (pair : BitVec 8 × BitVec 8) : profitIndex pair < 0x10000 := by
  have first := pair.1.isLt
  have second := pair.2.isLt
  rw [profitIndex, Nat.shiftLeft_eq]
  omega

/-- Nothing is counted behind the indices of pairs. -/
theorem total_of_large {words : List (List (BitVec 8))} {i : Nat} (large : 0x10000 ≤ i) :
    total words i = 0 := by
  by_contra counted
  obtain ⟨_, _, pair, _, rfl⟩ := exists_of_total counted
  exact absurd (profitIndex_lt pair) (Nat.not_lt.mpr large)

/-! ### The best token -/

/-- The index is a part of what the loop ends with, however many indices there are. -/
theorem bestIndexBelow_eq (tokenProfit : Nat → BitVec 32) (n : Nat) :
    bestIndexBelow tokenProfit n = (bestBelow tokenProfit n).1 := rfl

/-- `find_best_token` runs over the indices of all pairs. -/
theorem findBestToken_eq (tokenProfit : Nat → BitVec 32) :
    findBestToken tokenProfit = (bestBelow tokenProfit 0x10000).1 :=
  -- The indices need not be counted out.
  bestIndexBelow_eq tokenProfit 0x10000

/-- One more index is the best so far if its profit is greater. -/
theorem bestBelow_succ (tokenProfit : Nat → BitVec 32) (n : Nat) :
    bestBelow tokenProfit (n + 1) =
      if (bestBelow tokenProfit n).2.slt (tokenProfit n) then (n, tokenProfit n)
      else bestBelow tokenProfit n := by
  rw [bestBelow, List.range_succ, List.foldl_append]
  rfl

/-- As long as no count overflows the loop has the first of the greatest profits. -/
theorem bestBelow_spec {tokenProfit : Nat → BitVec 32} {count : Nat → Nat}
    (counted : ∀ i, tokenProfit i = BitVec.ofNat 32 (count i)) (small : ∀ i, count i < 2 ^ 31)
    {n : Nat} (some_ : 0 < n) :
    (bestBelow tokenProfit n).2 = tokenProfit (bestBelow tokenProfit n).1 ∧
      (∀ i < n, count i ≤ count (bestBelow tokenProfit n).1) ∧
      ∀ i < (bestBelow tokenProfit n).1, count i < count (bestBelow tokenProfit n).1 := by
  have value (i : Nat) : (tokenProfit i).toInt = count i := by
    have := small i
    have number : (tokenProfit i).toNat = count i := by
      rw [counted, BitVec.toNat_ofNat]
      omega
    rw [BitVec.toInt_eq_toNat_of_lt (by omega), number]
  obtain ⟨n, rfl⟩ := Nat.exists_eq_succ_of_ne_zero (Nat.ne_of_gt some_)
  induction n with
  | zero =>
    -- The first count is not negative, and so it is better than what the loop begins with.
    have better : (bestBelow tokenProfit 0).2.slt (tokenProfit 0) = true := by
      have start : (bestBelow tokenProfit 0).2.toInt = -10000 := rfl
      rw [BitVec.slt_iff_toInt_lt, value, start]
      omega
    rw [Nat.succ_eq_add_one, bestBelow_succ, if_pos better]
    exact ⟨rfl, fun i first => by rw [Nat.lt_one_iff.mp first], fun i none => absurd none (by simp)⟩
  | succ n ih =>
    obtain ⟨profit, most, first⟩ := ih (Nat.succ_pos n)
    rw [Nat.succ_eq_add_one] at profit most first ⊢
    rw [bestBelow_succ]
    by_cases better : (bestBelow tokenProfit (n + 1)).2.slt (tokenProfit (n + 1)) = true
    · rw [if_pos better]
      rw [profit, BitVec.slt_iff_toInt_lt, value, value] at better
      refine ⟨rfl, fun i inside => ?_, fun i before => ?_⟩
      · rcases Nat.eq_or_lt_of_le (Nat.le_of_lt_succ inside) with rfl | less
        · exact Nat.le_refl _
        · have := most i less
          dsimp only
          omega
      · have := most i before
        dsimp only
        omega
    · rw [if_neg better]
      rw [profit, BitVec.slt_iff_toInt_lt, value, value] at better
      refine ⟨profit, fun i inside => ?_, first⟩
      rcases Nat.eq_or_lt_of_le (Nat.le_of_lt_succ inside) with rfl | less
      · omega
      · exact most i less

/-- `find_best_token` finds the most frequent pairs, or there is no pair. -/
theorem findBestToken_spec {tokenProfit : Nat → BitVec 32} {words : List (List (BitVec 8))}
    (counted : ∀ i, tokenProfit i = BitVec.ofNat 32 (total words i)) (small : size words < 2 ^ 31) :
    (tokenProfit (findBestToken tokenProfit) ≠ 0 → MostFrequent words (findBestToken tokenProfit)) ∧
      (tokenProfit (findBestToken tokenProfit) = 0 → ∀ i, total words i = 0) := by
  have below (i : Nat) : total words i < 2 ^ 31 := Nat.lt_of_le_of_lt (total_le_size words i) small
  obtain ⟨_, most, first⟩ := bestBelow_spec counted below (show 0 < 0x10000 by omega)
  rw [← findBestToken_eq] at most first
  -- No index is better, as nothing is counted behind the loop.
  have all (i : Nat) : total words i ≤ total words (findBestToken tokenProfit) := by
    rcases Nat.lt_or_ge i 0x10000 with inside | behind
    · exact most i inside
    · rw [total_of_large behind]
      exact Nat.zero_le _
  have zero : tokenProfit (findBestToken tokenProfit) = 0 ↔
      total words (findBestToken tokenProfit) = 0 := by
    have := below (findBestToken tokenProfit)
    rw [counted]
    constructor
    · intro none
      have number := congrArg BitVec.toNat none
      rw [BitVec.toNat_ofNat, Nat.mod_eq_of_lt (by omega)] at number
      exact number
    · intro none
      rw [none]
      rfl
  refine ⟨fun worth => ⟨Nat.pos_of_ne_zero fun none => worth (zero.mpr none), all, first⟩,
    fun none i => ?_⟩
  have := all i
  rw [zero.mp none] at this
  omega

/-! ### The loop -/

namespace Generator

variable {texts : List (List (BitVec 8))} {g : Generator}

/-- The words of the names as they are compressed. -/
abbrev words (g : Generator) : List (List (BitVec 8)) := g.table.map SymBuffer.word

/-- A pair that occurs does not end with a zero. -/
theorem Valid.second_ne {i : Nat} (valid : g.Valid texts (i + 1)) {pair : BitVec 8 × BitVec 8}
    (occurs : 0 < total g.words (profitIndex pair)) : pair.2 ≠ 0 := by
  obtain ⟨word, inside, other, neighbours, same⟩ := exists_of_total (Nat.ne_of_gt occurs)
  have equal : other = pair := by rw [← pair_of_profitIndex other, same, pair_of_profitIndex]
  subst equal
  obtain ⟨value, rank, compressed⟩ := valid.compressed
  obtain ⟨front, back, split⟩ := mem_pairs neighbours
  have used := compressed.used word inside other.2 (by rw [split]; simp)
  exact fun null => used (null ▸ rule_unused (valid.zero (Nat.succ_pos i)))

/-- The loop of `optimize_result` is byte pair encoding with the codes that are free. -/
theorem optimizeFrom_encoded {free : BitVec 8 → Prop} {left : Nat} (few : left ≤ 256)
    (valid : g.Valid texts left) (small : size g.words < 2 ^ 31)
    (rows : ∀ i < left, free (BitVec.ofNat 8 i) ↔ g.bestTableLen (BitVec.ofNat 8 i) = 0) :
    Encoded free left g.words (optimizeFrom left g).words := by
  induction left generalizing g with
  | zero => exact .full
  | succ i ih =>
    have row := rows i (Nat.lt_succ_self i)
    rw [optimizeFrom]
    dsimp only
    by_cases empty : g.bestTableLen (BitVec.ofNat 8 i) = 0
    · rw [if_pos empty]
      obtain ⟨worth, none⟩ := findBestToken_spec valid.counted small
      by_cases best : g.tokenProfit (findBestToken g.tokenProfit) = 0
      · rw [if_pos best]
        exact .done (row.mpr empty) (none best)
      · rw [if_neg best]
        have frequent := worth best
        -- The index is that of a pair in some word.
        obtain ⟨word, inside, pair, neighbours, same⟩ :=
          exists_of_total (Nat.ne_of_gt frequent.occurs)
        have filled := valid.fill (by omega) empty best
        rw [← same] at filled frequent ⊢
        rw [pair_of_profitIndex] at filled ⊢
        obtain ⟨-, words, -⟩ := compressSymbols_spec (valid.second_ne frequent.occurs)
          (BitVec.ofNat 8 i) valid.padded g.tokenProfit
        refine .token pair (row.mpr empty) frequent ?_
        have later := ih (by omega) filled (by
            rw [Generator.words, words]
            exact Nat.lt_of_le_of_lt (size_substitute_le pair _ _) small) fun j less => by
          -- The row that is filled is not one of those that are still to come.
          have other : BitVec.ofNat 8 j ≠ BitVec.ofNat 8 i := by
            intro equal
            have number := congrArg BitVec.toNat equal
            rw [BitVec.toNat_ofNat, BitVec.toNat_ofNat, Nat.mod_eq_of_lt (by omega),
              Nat.mod_eq_of_lt (by omega)] at number
            omega
          dsimp only
          rw [Function.update_of_ne other]
          exact rows j (by omega)
        rw [← words]
        exact later
    · rw [if_neg empty]
      exact .skip (fun isFree => empty (row.mp isFree))
        (ih (by omega) (valid.mono (Nat.le_succ i)) small fun j less => rows j (by omega))

/-- The loop empties no row. -/
theorem optimizeFrom_keeps {c : BitVec 8} (left : Nat) (used : g.bestTableLen c ≠ 0) :
    (optimizeFrom left g).bestTableLen c ≠ 0 := by
  induction left generalizing g with
  | zero => exact used
  | succ i ih =>
    rw [optimizeFrom]
    dsimp only
    split
    · split
      · exact used
      · refine ih ?_
        dsimp only
        by_cases here : c = BitVec.ofNat 8 i
        · rw [here, Function.update_self]
          decide
        · rw [Function.update_of_ne here]
          exact used
    · exact ih used

end Generator

/-- Either byte pair encoding has used all codes, or there is no pair left. -/
theorem Generator.optimizeFrom_ends {g : Generator} (left : Nat) :
    (∀ i < left, (optimizeFrom left g).bestTableLen (BitVec.ofNat 8 i) ≠ 0) ∨
      (optimizeFrom left g).tokenProfit (findBestToken (optimizeFrom left g).tokenProfit) = 0 := by
  induction left generalizing g with
  | zero => exact Or.inl fun i less => absurd less (Nat.not_lt_zero i)
  | succ i ih =>
    rw [optimizeFrom]
    dsimp only
    -- A code that has a row now is there at the end.
    have now {g : Generator} (used : g.bestTableLen (BitVec.ofNat 8 i) ≠ 0) :
        (∀ j < i + 1, (optimizeFrom i g).bestTableLen (BitVec.ofNat 8 j) ≠ 0) ∨
          (optimizeFrom i g).tokenProfit (findBestToken (optimizeFrom i g).tokenProfit) = 0 := by
      refine ih.imp_left fun rows j less => ?_
      rcases Nat.eq_or_lt_of_le (Nat.le_of_lt_succ less) with rfl | before
      · exact optimizeFrom_keeps j used
      · exact rows j before
    split
    · split
      · next best => exact Or.inr best
      · refine now ?_
        dsimp only
        rw [Function.update_self]
        decide
    · next used => exact now used

/-- Words are encoded one by one, and none becomes longer. -/
theorem Encoded.shorter {free : BitVec 8 → Prop} {left : Nat} {words after : List (List (BitVec 8))}
    (encoded : Encoded free left words after) :
    List.Forall₂ (fun word (code : List (BitVec 8)) => code.length ≤ word.length) words after := by
  induction encoded with
  | full => exact List.forall₂_same.mpr fun _ _ => Nat.le_refl _
  | done _ _ => exact List.forall₂_same.mpr fun _ _ => Nat.le_refl _
  | skip _ _ ih => exact ih
  | token pair _ _ _ ih =>
    rw [List.forall₂_map_left_iff] at ih
    exact ih.imp fun word _ less => Nat.le_trans less (substitute_length_le _ _ _ word)

/-- A word without pairs is a single character at most. -/
theorem short_of_total {words : List (List (BitVec 8))} (none : ∀ i, total words i = 0) :
    ∀ word ∈ words, word.length ≤ 1 := by
  intro word member
  by_contra long
  match word, long with
  | x :: y :: rest, _ =>
    have counted := none (profitIndex (x, y))
    have here := List.sum_eq_zero_iff_forall_eq_nat.mp counted _ (List.mem_map_of_mem member)
    exact List.countP_eq_zero.mp here (x, y) List.mem_cons_self (decide_eq_true rfl)
  | [], long => exact long (by simp)
  | [x], long => exact long (by simp)

/--
`optimize_token_table` is byte pair encoding with the codes that are no characters of names, though
it counts the pairs only once and then follows the changes: every token is for the first of the most
frequent pairs of its time. No name becomes longer, and in the end either all codes are used or every
name is a single one.
-/
theorem optimizeTokenTable_encoded {table : List SymBuffer} (some_ : table ≠ [])
    (padded : ∀ s ∈ table, s.Padded) (full : ∀ s ∈ table, 0 ∉ s.word)
    (small : size (table.map SymBuffer.word) < 2 ^ 31) :
    ∃ g, optimizeTokenTable table = some g ∧
      Encoded (fun c => c ∉ table.flatMap SymBuffer.word) 256 (table.map SymBuffer.word) g.words ∧
      List.Forall₂ (fun word (code : List (BitVec 8)) => code.length ≤ word.length)
        (table.map SymBuffer.word) g.words ∧
      ((∀ c, g.bestTableLen c ≠ 0) ∨ ∀ word ∈ g.words, word.length ≤ 1) := by
  obtain ⟨same, -, rows⟩ := insertRealSymbolsInTable_spec (buildInitialTokTable table)
  have kept : (insertRealSymbolsInTable (buildInitialTokTable table)).table = table := same
  have valid := insertRealSymbolsInTable_valid padded full
  -- The codes that are free are those that are no characters.
  have row (i : Nat) : BitVec.ofNat 8 i ∉ table.flatMap SymBuffer.word ↔
      (insertRealSymbolsInTable (buildInitialTokTable table)).bestTableLen (BitVec.ofNat 8 i) = 0 := by
    rw [(rows (BitVec.ofNat 8 i)).1]
    show _ ↔ (if _ ∈ table.flatMap SymBuffer.word then 1 else 0) = 0
    by_cases used : BitVec.ofNat 8 i ∈ table.flatMap SymBuffer.word
    · rw [if_pos used]
      exact iff_of_false (fun free => free used) (by omega)
    · rw [if_neg used]
      exact iff_of_true used rfl
  have encoded : Encoded (fun c => c ∉ table.flatMap SymBuffer.word) 256 _ _ :=
    Generator.optimizeFrom_encoded (Nat.le_refl 256) valid
      (by rw [Generator.words, kept]; exact small) fun i _ => row i
  rw [Generator.words, kept] at encoded
  rw [optimizeTokenTable, kept, if_neg some_]
  refine ⟨_, rfl, encoded, encoded.shorter, ?_⟩
  rcases Generator.optimizeFrom_ends 256 with all | none
  · -- Every byte is one of the codes.
    refine Or.inl fun c => ?_
    have here := all c.toNat c.isLt
    rwa [BitVec.ofNat_toNat, BitVec.setWidth_eq] at here
  · right
    refine short_of_total ?_
    refine (findBestToken_spec (Generator.optimizeFrom_valid (Nat.le_refl _) valid).counted ?_).2 none
    -- The names have no more characters than at first.
    have lengths := encoded.shorter
    refine Nat.lt_of_le_of_lt ?_ small
    exact List.Forall₂.sum_le_sum (List.forall₂_map_left_iff.mpr (List.forall₂_map_right_iff.mpr
      lengths.flip))

/-- Of the name `papa` a single code is left, for there are more codes than pairs. -/
theorem optimizeTokenTable_encoded_papa :
    ∃ g, optimizeTokenTable [papa.buffer] = some g ∧
      Encoded (fun c => c ∉ [papa.buffer].flatMap SymBuffer.word) 256
        ([papa.buffer].map SymBuffer.word) g.words ∧
      ((∀ c, g.bestTableLen c ≠ 0) ∨ ∀ word ∈ g.words, word.length ≤ 1) := by
  obtain ⟨g, optimized, encoded, _, ended⟩ := optimizeTokenTable_encoded
    (show [papa.buffer] ≠ [] by simp)
    (fun s member => List.mem_singleton.mp member ▸ papa.buffer_padded)
    (fun s member => List.mem_singleton.mp member ▸ by decide) (by decide)
  exact ⟨g, optimized, encoded, ended⟩

end Benos.Kallsyms
