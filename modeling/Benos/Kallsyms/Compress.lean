import Benos.Kallsyms.Generator
import Mathlib.Algebra.BigOperators.Group.List.Basic
import Mathlib.Data.BitVec
import Mathlib.Tactic.LinearCombination

/-! The compression of `scripts/kallsyms` only ever makes tokens that spell what they replace. -/

namespace Benos.Kallsyms

open PairTokens

/-! ### The loop over one symbol -/

/-- The window of the loop is the word and some of the zeros behind it. -/
theorem take_padded (word : List (BitVec 8)) {j m : Nat} (inside : j ≤ m) :
    (word ++ List.replicate m (0 : BitVec 8)).take (word.length + j) =
      word ++ List.replicate j 0 := by
  rw [List.take_length_add_append, List.take_replicate, Nat.min_eq_left inside]

/-- Without an occurrence of the token the loop changes nothing. -/
theorem compressFrom_none {str : BitVec 8 × BitVec 8} {idx : BitVec 8} {p1 : List (BitVec 8)}
    {size : Nat} (found : find str.1 str.2 (p1.take size) = none) :
    compressFrom str idx p1 size = (p1, 0) := by
  rw [compressFrom]
  split
  · rfl
  · next other =>
    rw [found] at other
    cases other

/-- With an occurrence it replaces this one, moves what is behind it, and goes on there. -/
theorem compressFrom_some {str : BitVec 8 × BitVec 8} {idx : BitVec 8}
    {p1 moved : List (BitVec 8)} {size left p2 : Nat}
    (found : find str.1 str.2 (p1.take size) = some p2) (remains : size - (p2 + 1) = left)
    (memmove : (p1.drop (p2 + 2)).take left ++ p1.drop (p2 + 1 + left) = moved) :
    compressFrom str idx p1 size =
      if left < 2 then (p1.take p2 ++ idx :: moved, 1)
      else
        (p1.take p2 ++ idx :: (compressFrom str idx moved left).1,
          (compressFrom str idx moved left).2 + 1) := by
  subst remains memmove
  rw [compressFrom]
  split
  · next other =>
    rw [found] at other
    cases other
  · -- The place that the loop has found is the one that is known.
    next place other =>
    obtain rfl : p2 = place := by
      rw [found] at other
      exact Option.some_inj.mp other
    rfl

/-- What is moved is the rest of the word with one zero more behind it. -/
theorem moved_padded {word : List (BitVec 8)} {j m p2 : Nat} (inside : j ≤ m)
    (behind : p2 + 1 < word.length) :
    ((word ++ List.replicate (m + 1) (0 : BitVec 8)).drop (p2 + 2)).take
          ((word.drop (p2 + 2)).length + (j + 1)) ++
        (word ++ List.replicate (m + 1) (0 : BitVec 8)).drop
          (p2 + 1 + ((word.drop (p2 + 2)).length + (j + 1))) =
      word.drop (p2 + 2) ++ List.replicate (m + 1 + 1) 0 := by
  have dropped : (word ++ List.replicate (m + 1) (0 : BitVec 8)).drop (p2 + 2) =
      word.drop (p2 + 2) ++ List.replicate (m + 1) 0 :=
    List.drop_append_of_le_length (by omega)
  -- The byte at the end of the window stays where it was.
  have window : p2 + 1 + ((word.drop (p2 + 2)).length + (j + 1)) = word.length + j := by
    rw [List.length_drop]
    omega
  have padding : j + 1 + (m + 1 - j) = m + 1 + 1 := by omega
  rw [window, List.drop_length_add_append, List.drop_replicate, dropped,
    take_padded _ (show j + 1 ≤ m + 1 by omega), List.append_assoc,
    List.replicate_append_replicate, padding]

/--
The loop replaces the token in a word, and leaves one more zero behind it for each replacement. It
may look at as many zeros as it has made, as no token has a zero in it.
-/
theorem compressFrom_eq {str : BitVec 8 × BitVec 8} (full : str.2 ≠ 0) (idx : BitVec 8)
    (word : List (BitVec 8)) {j m : Nat} (inside : j ≤ m) :
    ∃ replaced, compressFrom str idx (word ++ List.replicate (m + 1) 0) (word.length + j) =
        (substitute str.1 str.2 idx word ++ List.replicate (m + 1 + replaced) 0, replaced) ∧
      (substitute str.1 str.2 idx word).length + replaced = word.length := by
  induction length : word.length using Nat.strong_induction_on generalizing word j m with
  | _ _ ih =>
    subst length
    -- Looking at zeros finds no more than looking at the word alone.
    have window := take_padded word (show j ≤ m + 1 by omega)
    have looked : find str.1 str.2 ((word ++ List.replicate (m + 1) 0).take (word.length + j)) =
        find str.1 str.2 word := by
      rw [window, find_append_replicate full]
    cases found : find str.1 str.2 word with
    | none =>
      rw [found] at looked
      -- The token is not there, and nothing is replaced.
      refine ⟨0, ?_, ?_⟩
      · rw [compressFrom_none looked, substitute_none found]
      · rw [substitute_none found, Nat.add_zero]
    | some p2 =>
      rw [found] at looked
      -- The loop goes on with what is behind the token, and sees one zero more.
      have behind := (find_some found).2
      have rest : (word.drop (p2 + 2)).length = word.length - (p2 + 2) := List.length_drop
      have left : word.length + j - (p2 + 1) = (word.drop (p2 + 2)).length + (j + 1) := by omega
      have front : (word ++ List.replicate (m + 1) (0 : BitVec 8)).take p2 = word.take p2 :=
        List.take_append_of_le_length (by omega)
      have length : (word.take p2).length = p2 := by
        rw [List.length_take]
        omega
      rw [compressFrom_some looked left (moved_padded inside behind), substitute_some found, front]
      by_cases done : (word.drop (p2 + 2)).length + (j + 1) < 2
      · -- Only the end of the word is left, and the loop stops.
        have none : word.drop (p2 + 2) = [] := List.eq_nil_of_length_eq_zero (by omega)
        rw [if_pos done, none]
        refine ⟨1, ?_, ?_⟩
        · simp [substitute]
        · rw [List.length_append, length]
          rw [none] at rest
          simp [substitute] at rest ⊢
          omega
      · -- The loop goes on with a shorter word, as its end is moved down.
        obtain ⟨replaced, after, shorter⟩ := ih _ (by omega) (word.drop (p2 + 2))
          (show j + 1 ≤ m + 1 by omega) rfl
        rw [if_neg done, after]
        refine ⟨replaced + 1, ?_, ?_⟩
        · have zeros : m + 1 + 1 + replaced = m + 1 + (replaced + 1) := by omega
          rw [List.append_assoc, List.cons_append, zeros]
        · rw [List.length_append, List.length_cons, length]
          omega

/-! ### One symbol -/

/-- A name ends where its length says, and nothing but zeros is behind it, one at least. -/
def SymBuffer.Padded (s : SymBuffer) : Prop := ∃ m, s.sym = s.word ++ List.replicate (m + 1) 0

/-- As many bytes count as the length says. -/
theorem SymBuffer.Padded.word_length {s : SymBuffer} (padded : s.Padded) :
    s.word.length = s.len := by
  obtain ⟨m, sym⟩ := padded
  have longer := congrArg List.length sym
  rw [List.length_append, List.length_replicate] at longer
  -- At least one zero is left, so no byte of the name is cut off.
  rw [SymBuffer.word, List.length_take] at longer ⊢
  omega

/-- A symbol is compressed by replacing the token in its name. -/
theorem compressSymbol_spec {str : BitVec 8 × BitVec 8} (full : str.2 ≠ 0) (idx : BitVec 8)
    {s : SymBuffer} (padded : s.Padded) :
    (compressSymbol str idx s).Padded ∧
      (compressSymbol str idx s).word = substitute str.1 str.2 idx s.word := by
  have length := padded.word_length
  obtain ⟨m, sym⟩ := padded
  obtain ⟨replaced, after, shorter⟩ := compressFrom_eq full idx s.word (Nat.zero_le m)
  rw [← sym, Nat.add_zero, length] at after
  -- The length goes down by one for each replacement.
  have left : s.len - replaced = (substitute str.1 str.2 idx s.word).length := by omega
  have word : (compressSymbol str idx s).word = substitute str.1 str.2 idx s.word := by
    rw [SymBuffer.word, compressSymbol, after]
    dsimp only
    rw [left, List.take_left]
  refine ⟨⟨m + replaced, ?_⟩, word⟩
  rw [word, compressSymbol, after, Nat.add_right_comm]

/-! ### The counts -/

/-- How often pairs with an index are in a word. -/
def occurrences (word : List (BitVec 8)) (i : Nat) : Nat :=
  (pairs word).countP fun pair => profitIndex pair = i

/-- The pairs with an index are counted as often as they occur. -/
theorem countPairs_eq (by_ : BitVec 32) (word : List (BitVec 8)) (profit : Nat → BitVec 32)
    (i : Nat) : countPairs by_ word profit i = profit i + BitVec.ofNat 32 (occurrences word i) * by_ := by
  unfold countPairs occurrences
  induction pairs word generalizing profit with
  | nil => simp
  | cons pair rest ih =>
    rw [List.foldl_cons, ih, List.countP_cons]
    -- The pair is counted at its own index and at no other.
    by_cases here : profitIndex pair = i
    · rw [here, Function.update_self, if_pos (decide_eq_true rfl), BitVec.ofNat_add,
        BitVec.add_mul, BitVec.one_mul, BitVec.add_assoc, BitVec.add_comm by_]
    · rw [Function.update_of_ne (Ne.symm here), if_neg (by simpa using here), Nat.add_zero]

/-- `learn_symbol` adds what occurs in the symbol. -/
theorem learnSymbol_eq (s : SymBuffer) (profit : Nat → BitVec 32) (i : Nat) :
    learnSymbol s profit i = profit i + BitVec.ofNat 32 (occurrences s.word i) := by
  rw [learnSymbol, countPairs_eq, mul_one]

/-- `forget_symbol` takes it away. -/
theorem forgetSymbol_eq (s : SymBuffer) (profit : Nat → BitVec 32) (i : Nat) :
    forgetSymbol s profit i = profit i - BitVec.ofNat 32 (occurrences s.word i) := by
  rw [forgetSymbol, countPairs_eq, mul_neg, mul_one, sub_eq_add_neg]

/-- How often pairs with an index are in all words. -/
def total (words : List (List (BitVec 8))) (i : Nat) : Nat :=
  (words.map fun word => occurrences word i).sum

/-- The words are counted one by one. -/
theorem total_cons (word : List (BitVec 8)) (rest : List (List (BitVec 8))) (i : Nat) :
    total (word :: rest) i = occurrences word i + total rest i := by
  rw [total, List.map_cons, List.sum_cons, total]

/-- The symbols are compressed one by one, and the counts follow. -/
theorem compressSymbols_spec {str : BitVec 8 × BitVec 8} (full : str.2 ≠ 0) (idx : BitVec 8)
    {table : List SymBuffer} (padded : ∀ s ∈ table, s.Padded) (profit : Nat → BitVec 32) :
    (∀ s ∈ (compressSymbols str idx table profit).1, s.Padded) ∧
      (compressSymbols str idx table profit).1.map SymBuffer.word =
        (table.map SymBuffer.word).map (substitute str.1 str.2 idx) ∧
      ∀ i, (compressSymbols str idx table profit).2 i +
          BitVec.ofNat 32 (total (table.map SymBuffer.word) i) =
        profit i +
          BitVec.ofNat 32 (total ((compressSymbols str idx table profit).1.map SymBuffer.word) i) := by
  induction table generalizing profit with
  | nil => exact ⟨fun s member => absurd member List.not_mem_nil, rfl, fun i => rfl⟩
  | cons s rest ih =>
    obtain ⟨first, later⟩ := List.forall_mem_cons.mp padded
    rw [compressSymbols]
    cases found : find str.1 str.2 s.word with
    | none =>
      -- Without the token neither the symbol nor the counts change.
      obtain ⟨padded, words, counts⟩ := ih later profit
      refine ⟨List.forall_mem_cons.mpr ⟨first, padded⟩, ?_, fun i => ?_⟩
      · simp only [List.map_cons, words, substitute_none found]
      · have count := counts i
        simp only [List.map_cons, total_cons, BitVec.ofNat_add]
        linear_combination count
    | some _ =>
      obtain ⟨padded, words, counts⟩ := ih later
        (learnSymbol (compressSymbol str idx s) (forgetSymbol s profit))
      obtain ⟨still, word⟩ := compressSymbol_spec full idx first
      refine ⟨List.forall_mem_cons.mpr ⟨still, padded⟩, ?_, fun i => ?_⟩
      · simp only [List.map_cons, words, word]
      · have count := counts i
        rw [learnSymbol_eq, forgetSymbol_eq] at count
        simp only [List.map_cons, total_cons, BitVec.ofNat_add]
        linear_combination count

/-- What is counted occurs in a word. -/
theorem exists_of_total {words : List (List (BitVec 8))} {i : Nat} (counted : total words i ≠ 0) :
    ∃ word ∈ words, ∃ pair ∈ pairs word, profitIndex pair = i := by
  -- Otherwise each word adds nothing.
  by_contra none
  push Not at none
  refine counted (List.sum_eq_zero fun count member => ?_)
  obtain ⟨word, inside, rfl⟩ := List.mem_map.mp member
  exact List.countP_eq_zero.mpr fun pair pairs => by simpa using none word inside pair pairs

/-- The index of a pair tells the pair. -/
theorem pair_of_profitIndex (pair : BitVec 8 × BitVec 8) :
    (BitVec.ofNat 8 (profitIndex pair), BitVec.ofNat 8 (profitIndex pair >>> 8)) = pair := by
  have first := pair.1.isLt
  have second := pair.2.isLt
  have index : profitIndex pair = pair.1.toNat + pair.2.toNat * 256 := by
    rw [profitIndex, Nat.shiftLeft_eq]
  -- The two bytes of the index are the two codes.
  refine Prod.ext (BitVec.eq_of_toNat_eq ?_) (BitVec.eq_of_toNat_eq ?_)
  · rw [index, BitVec.toNat_ofNat]
    omega
  · rw [index, Nat.shiftRight_eq_div_pow, BitVec.toNat_ofNat]
    omega

/-! ### The table of tokens -/

/-- What a row of `best_table` makes of its code. -/
def Generator.rule (g : Generator) (c : BitVec 8) : Rule (BitVec 8) :=
  match g.bestTableLen c with
  | 0 => .unused
  | 1 => .literal
  | _ => .pair (g.bestTable c).1 (g.bestTable c).2

/-- Every row is empty, a character, or two codes. -/
def Generator.Rows (g : Generator) : Prop :=
  ∀ c, g.bestTableLen c = 0 ∨ g.bestTableLen c = 1 ∧ (g.bestTable c).1 = c ∨ g.bestTableLen c = 2

/--
The generator with so many codes still to be looked at: the names end where they should, the counts
are right, zero stands for nothing, and the names spell what they did at first.
-/
structure Generator.Valid (texts : List (List (BitVec 8))) (left : Nat) (g : Generator) : Prop where
  padded : ∀ s ∈ g.table, s.Padded
  counted : ∀ i, g.tokenProfit i = BitVec.ofNat 32 (total (g.table.map SymBuffer.word) i)
  rows : g.Rows
  zero : 0 < left → g.bestTableLen 0 = 0
  compressed : ∃ value rank,
    Compressed g.rule value rank (256 - left) texts (g.table.map SymBuffer.word)

namespace Generator

variable {texts : List (List (BitVec 8))} {g : Generator}

/-- A code without a row stands for nothing. -/
theorem rule_unused {c : BitVec 8} (empty : g.bestTableLen c = 0) : g.rule c = .unused := by
  rw [rule, empty]
  rfl

/-- A code with one byte stands for itself. -/
theorem rule_literal {c : BitVec 8} (one : g.bestTableLen c = 1) : g.rule c = .literal := by
  rw [rule, one]
  rfl

/-- A code with two bytes stands for them. -/
theorem rule_pair {c : BitVec 8} (two : g.bestTableLen c = 2) :
    g.rule c = .pair (g.bestTable c).1 (g.bestTable c).2 := by
  rw [rule, two]
  rfl

/-- Fewer codes to look at are no less valid. -/
theorem Valid.mono {left fewer : Nat} (valid : g.Valid texts left) (less : fewer ≤ left) :
    g.Valid texts fewer where
  padded := valid.padded
  counted := valid.counted
  rows := valid.rows
  zero more := valid.zero (Nat.lt_of_lt_of_le more less)
  compressed := by
    obtain ⟨value, rank, compressed⟩ := valid.compressed
    exact ⟨value, rank, { compressed with
      steps := fun code => Nat.le_trans (compressed.steps code) (Nat.sub_le_sub_left less 256) }⟩

/-- A row with two codes stands for them, and no other code changes. -/
theorem rule_update (table : List SymBuffer) (profit : Nat → BitVec 32) (idx : BitVec 8)
    (str : BitVec 8 × BitVec 8) :
    rule { table, tokenProfit := profit
           bestTable := Function.update g.bestTable idx str
           bestTableLen := Function.update g.bestTableLen idx 2 } =
      Function.update g.rule idx (.pair str.1 str.2) := by
  funext c
  -- The rows differ in the one that was filled.
  by_cases here : c = idx
  · rw [here, Function.update_self, rule]
    dsimp only
    rw [Function.update_self, Function.update_self]
    rfl
  · rw [Function.update_of_ne here, rule]
    dsimp only
    rw [Function.update_of_ne here, Function.update_of_ne here]
    rfl

/-- A row is filled with a pair that occurs, and every symbol is compressed by it. -/
theorem Valid.fill {i best : Nat} (few : i < 256) (valid : g.Valid texts (i + 1))
    (empty : g.bestTableLen (BitVec.ofNat 8 i) = 0) (worth : g.tokenProfit best ≠ 0) :
    let str := (BitVec.ofNat 8 best, BitVec.ofNat 8 (best >>> 8))
    Valid texts i
      { table := (compressSymbols str (BitVec.ofNat 8 i) g.table g.tokenProfit).1
        tokenProfit := (compressSymbols str (BitVec.ofNat 8 i) g.table g.tokenProfit).2
        bestTable := Function.update g.bestTable (BitVec.ofNat 8 i) str
        bestTableLen := Function.update g.bestTableLen (BitVec.ofNat 8 i) 2 } := by
  -- What has a profit was counted, so it is a pair of neighbours in a name.
  have counted : total (g.table.map SymBuffer.word) best ≠ 0 := by
    intro none
    rw [valid.counted, none] at worth
    exact worth rfl
  obtain ⟨word, inside, pair, neighbours, rfl⟩ := exists_of_total counted
  rw [pair_of_profitIndex]
  obtain ⟨value, rank, compressed⟩ := valid.compressed
  have zero : g.bestTableLen 0 = 0 := valid.zero (Nat.succ_pos i)
  have full : pair.2 ≠ 0 := by
    obtain ⟨front, back, split⟩ := mem_pairs neighbours
    have used := compressed.used word inside pair.2 (by rw [split]; simp)
    exact fun null => used (null ▸ rule_unused zero)
  obtain ⟨padded, words, counts⟩ :=
    compressSymbols_spec full (BitVec.ofNat 8 i) valid.padded g.tokenProfit
  refine ⟨padded, fun at_ => ?_, fun c => ?_, fun more => ?_, ?_⟩
  · have count := counts at_
    rw [valid.counted] at count
    linear_combination count
  · dsimp only
    by_cases here : c = BitVec.ofNat 8 i
    · rw [here, Function.update_self]
      exact Or.inr (Or.inr rfl)
    · rw [Function.update_of_ne here, Function.update_of_ne here]
      exact valid.rows c
  · -- Zero is the last code that is looked at.
    have other : (0 : BitVec 8) ≠ BitVec.ofNat 8 i := by
      intro same
      have number := congrArg BitVec.toNat same
      rw [BitVec.toNat_ofNat, Nat.mod_eq_of_lt few] at number
      exact absurd number (Nat.ne_of_lt more)
    dsimp only
    rw [Function.update_of_ne other]
    exact zero
  · have steps : 256 - i = 256 - (i + 1) + 1 := by omega
    rw [rule_update, words, steps]
    exact ⟨_, _, compressed.step (rule_unused empty) inside neighbours⟩

/-- The loop of `optimize_result` keeps it all. -/
theorem optimizeFrom_valid {left : Nat} (few : left ≤ 256) (valid : g.Valid texts left) :
    (optimizeFrom left g).Valid texts 0 := by
  induction left generalizing g with
  | zero => exact valid
  | succ i ih =>
    rw [optimizeFrom]
    dsimp only
    split
    · -- A free code ends the loop or takes the best pair, and a row that is there stays.
      next empty =>
      split
      · exact valid.mono (Nat.zero_le _)
      · next worth => exact ih (by omega) (valid.fill few empty worth)
    · exact ih (by omega) (valid.mono (Nat.le_succ i))

end Generator

/-! ### The generator -/

/-- The names are learnt one by one. -/
theorem learnSymbols_eq (table : List SymBuffer) (profit : Nat → BitVec 32) (i : Nat) :
    table.foldl (fun profit s => learnSymbol s profit) profit i =
      profit i + BitVec.ofNat 32 (total (table.map SymBuffer.word) i) := by
  induction table generalizing profit with
  | nil => exact (BitVec.add_zero _).symm
  | cons s rest ih =>
    -- The first name is learnt before the others, and sums do not care.
    rw [List.foldl_cons, ih, learnSymbol_eq, List.map_cons, total_cons, BitVec.ofNat_add,
      BitVec.add_assoc]

/-- Every character that is used gets a row of its own, and no other code has one. -/
theorem insertRealSymbolsInTable_spec (g : Generator) :
    (insertRealSymbolsInTable g).table = g.table ∧
      (insertRealSymbolsInTable g).tokenProfit = g.tokenProfit ∧
      ∀ c, ((insertRealSymbolsInTable g).bestTableLen c =
          if c ∈ g.table.flatMap SymBuffer.word then 1 else 0) ∧
        (c ∈ g.table.flatMap SymBuffer.word →
          ((insertRealSymbolsInTable g).bestTable c).1 = c) := by
  rw [insertRealSymbolsInTable]
  -- The loop is seen from its end: the last character is the last row that is written.
  induction g.table.flatMap SymBuffer.word using List.reverseRecOn with
  | nil => exact ⟨rfl, rfl, fun c => ⟨rfl, fun member => absurd member List.not_mem_nil⟩⟩
  | append_singleton front last ih =>
    obtain ⟨table, profit, rows⟩ := ih
    rw [List.foldl_append, List.foldl_cons, List.foldl_nil]
    refine ⟨table, profit, fun c => ?_⟩
    dsimp only
    obtain ⟨length, literal⟩ := rows c
    -- The last character overwrites its own row, with the same bytes if it came before.
    by_cases here : c = last
    · rw [here, Function.update_self, Function.update_self, if_pos (by simp)]
      exact ⟨rfl, fun _ => rfl⟩
    · rw [Function.update_of_ne here, Function.update_of_ne here, length]
      have same : c ∈ front ++ [last] ↔ c ∈ front := by simp [here]
      simp only [same]
      exact ⟨trivial, literal⟩

/-- So a character that is used stands for itself, and every other code for nothing. -/
theorem rule_insertRealSymbolsInTable (g : Generator) (c : BitVec 8) :
    (insertRealSymbolsInTable g).rule c =
      if c ∈ g.table.flatMap SymBuffer.word then .literal else .unused := by
  obtain ⟨-, -, rows⟩ := insertRealSymbolsInTable_spec g
  by_cases used : c ∈ g.table.flatMap SymBuffer.word
  · rw [if_pos used]
    exact Generator.rule_literal ((rows c).1.trans (if_pos used))
  · rw [if_neg used]
    exact Generator.rule_unused ((rows c).1.trans (if_neg used))

/-- In front of the rounds a table of names without a zero is valid. -/
theorem insertRealSymbolsInTable_valid {table : List SymBuffer} (padded : ∀ s ∈ table, s.Padded)
    (full : ∀ s ∈ table, 0 ∉ s.word) :
    (insertRealSymbolsInTable (buildInitialTokTable table)).Valid (table.map SymBuffer.word) 256 := by
  obtain ⟨same, profit, rows⟩ := insertRealSymbolsInTable_spec (buildInitialTokTable table)
  have kept : (insertRealSymbolsInTable (buildInitialTokTable table)).table = table := same
  have row := rule_insertRealSymbolsInTable (buildInitialTokTable table)
  refine ⟨by rw [kept]; exact padded, fun i => ?_, fun c => ?_, fun _ => ?_, ?_⟩
  · -- The counts start at zero, and every name is learnt once.
    rw [profit, kept]
    exact (learnSymbols_eq table _ i).trans (BitVec.zero_add _)
  · obtain ⟨length, itself⟩ := rows c
    rw [length]
    by_cases used : c ∈ table.flatMap SymBuffer.word
    · exact Or.inr (Or.inl ⟨if_pos used, itself used⟩)
    · exact Or.inl (if_neg used)
  · -- No name has a zero in it, so zero has no row.
    rw [(rows 0).1]
    refine if_neg fun used => ?_
    obtain ⟨s, member, inside⟩ := List.mem_flatMap.mp used
    exact full s member inside
  · -- No step has been made yet: every code in use is a literal.
    rw [kept]
    refine ⟨_, _, Compressed.start (fun c => ?_) (fun text member c inside => ?_) fun c used => ?_⟩
    · rw [row]
      exact ite_eq_or_eq _ _ _
    · obtain ⟨s, known, rfl⟩ := List.mem_map.mp member
      rw [row]
      exact if_pos (List.mem_flatMap.mpr ⟨s, known, inside⟩)
    · rw [row] at used
      by_cases inside : c ∈ table.flatMap SymBuffer.word
      · obtain ⟨s, known, here⟩ := List.mem_flatMap.mp inside
        exact ⟨s.word, List.mem_map_of_mem known, here⟩
      · rw [if_neg (show c ∉ (buildInitialTokTable table).table.flatMap SymBuffer.word from inside)]
          at used
        cases used

/-- What the generator has made of a table of names without a zero is valid, whatever the rounds. -/
theorem optimizeTokenTable_valid {table : List SymBuffer} (some_ : table ≠ [])
    (padded : ∀ s ∈ table, s.Padded) (full : ∀ s ∈ table, 0 ∉ s.word) :
    ∃ g, optimizeTokenTable table = some g ∧ g.Valid (table.map SymBuffer.word) 0 := by
  have kept : (insertRealSymbolsInTable (buildInitialTokTable table)).table = table :=
    (insertRealSymbolsInTable_spec (buildInitialTokTable table)).1
  rw [optimizeTokenTable, kept, if_neg some_]
  exact ⟨_, rfl, Generator.optimizeFrom_valid (Nat.le_refl _)
    (insertRealSymbolsInTable_valid padded full)⟩

end Benos.Kallsyms
