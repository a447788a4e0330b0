import Mathlib.Data.List.Infix
import Mathlib.Logic.Function.Basic
import Mathlib.Tactic.Common

/-!
Compression of words by tokens: a code that is not used yet comes to stand for two neighbouring
codes, in every word, as often as wanted. Every word still spells the text that it spelt at first.
-/

namespace PairTokens

variable {α β : Type*}

/-! ### Pairs of neighbours -/

/-- The pairs of neighbours in a word, from left to right. -/
def pairs : List α → List (α × α)
  | x :: y :: rest => (x, y) :: pairs (y :: rest)
  | _ => []

/-- A word without neighbours has at most one code. -/
theorem eq_of_short {word : List α} (short : ∀ x y rest, word = x :: y :: rest → False) :
    word = [] ∨ ∃ x, word = [x] := by
  cases word with
  | nil => exact Or.inl rfl
  | cons x rest =>
    cases rest with
    | nil => exact Or.inr ⟨x, rfl⟩
    | cons y rest => exact absurd rfl (short x y rest)

/-- A pair of neighbours stands somewhere in the word. -/
theorem mem_pairs {x y : α} {word : List α} (member : (x, y) ∈ pairs word) :
    ∃ front rest, word = front ++ x :: y :: rest := by
  induction word using pairs.induct with
  -- The pair is the first one of the word, or one of those behind.
  | case1 u v rest ih =>
    rcases List.mem_cons.mp member with here | later
    · obtain ⟨rfl, rfl⟩ := Prod.mk.inj here
      exact ⟨[], rest, rfl⟩
    · obtain ⟨front, back, split⟩ := ih later
      exact ⟨u :: front, back, by rw [split]; rfl⟩
  | case2 word short =>
    rcases eq_of_short short with rfl | ⟨u, rfl⟩ <;> simp [pairs] at member

variable [DecidableEq α]

/-- How many places are in front of the first occurrence of a pair. -/
def find (a b : α) : List α → Option Nat
  | x :: y :: rest => if x = a ∧ y = b then some 0 else (find a b (y :: rest)).map (· + 1)
  | _ => none

/-- A word with every occurrence of a pair replaced by a code, from left to right. -/
def substitute (a b c : α) : List α → List α
  | x :: y :: rest =>
    if x = a ∧ y = b then c :: substitute a b c rest else x :: substitute a b c (y :: rest)
  | rest => rest

/-- What is found is a pair of neighbours with its second place inside of the word. -/
theorem find_some {a b : α} {word : List α} {at_ : Nat} (found : find a b word = some at_) :
    (a, b) ∈ pairs word ∧ at_ + 1 < word.length := by
  induction word using pairs.induct generalizing at_ with
  | case1 x y rest ih =>
    rw [find] at found
    split at found
    · -- The pair is at the front.
      next here =>
        obtain rfl : 0 = at_ := Option.some_inj.mp found
        rw [← here.1, ← here.2]
        exact ⟨List.mem_cons_self, by simp⟩
    · -- It is later, one place on from where the rest of the word has it.
      obtain ⟨place, later, rfl⟩ := Option.map_eq_some_iff.mp found
      obtain ⟨member, inside⟩ := ih later
      exact ⟨List.mem_cons_of_mem _ member, Nat.succ_lt_succ inside⟩
  | case2 word short =>
    rcases eq_of_short short with rfl | ⟨x, rfl⟩ <;> simp [find] at found

/-- Replacing goes on behind the first occurrence. -/
theorem substitute_eq (a b c : α) (word : List α) :
    substitute a b c word = match find a b word with
      | none => word
      | some at_ => word.take at_ ++ c :: substitute a b c (word.drop (at_ + 2)) := by
  induction word using pairs.induct with
  | case1 x y rest ih =>
    rw [substitute, find]
    by_cases here : x = a ∧ y = b
    · rw [if_pos here, if_pos here]
      rfl
    · -- One code is passed over, and the rest goes the same way.
      rw [if_neg here, if_neg here, ih]
      cases find a b (y :: rest) <;> rfl
  | case2 word short => rcases eq_of_short short with rfl | ⟨x, rfl⟩ <;> rfl

/-- A word without the pair stays as it is. -/
theorem substitute_none {a b : α} {word : List α} (found : find a b word = none) (c : α) :
    substitute a b c word = word := by rw [substitute_eq, found]

/-- Behind the first occurrence a word is replaced on its own. -/
theorem substitute_some {a b : α} {word : List α} {at_ : Nat} (found : find a b word = some at_)
    (c : α) : substitute a b c word =
      word.take at_ ++ c :: substitute a b c (word.drop (at_ + 2)) := by rw [substitute_eq, found]

/-- Replacing makes a word no longer. -/
theorem substitute_length_le (a b c : α) (word : List α) :
    (substitute a b c word).length ≤ word.length := by
  induction word using substitute.induct a b with
  | case1 x y rest here ih =>
    rw [substitute, if_pos here, List.length_cons, List.length_cons, List.length_cons]
    omega
  | case2 x y rest other ih =>
    rw [substitute, if_neg other, List.length_cons, List.length_cons]
    exact Nat.succ_le_succ ih
  | case3 word short => rcases eq_of_short short with rfl | ⟨x, rfl⟩ <;> exact Nat.le_refl _

/-- Padding behind a word is no part of a pair whose second code is another. -/
theorem find_append_replicate {a b z : α} (other : b ≠ z) (word : List α) (n : Nat) :
    find a b (word ++ List.replicate n z) = find a b word := by
  induction word using pairs.induct with
  | case1 x y rest ih =>
    rw [List.cons_append, List.cons_append, find, find, ← List.cons_append, ih]
  | case2 word short =>
    -- At most one code stands in front of the padding.
    have padding (n : Nat) : find a b (List.replicate n z) = none := by
      induction n with
      | zero => rfl
      | succ n ih =>
        cases n with
        | zero => rfl
        | succ n =>
          rw [List.replicate_succ, List.replicate_succ, find, if_neg fun pair => other pair.2.symm,
            ← List.replicate_succ, ih]
          rfl
    -- No pair begins with the last code either, for a zero would be its second.
    rcases eq_of_short short with rfl | ⟨x, rfl⟩
    · exact padding n
    · cases n with
      | zero => rfl
      | succ n =>
        rw [List.replicate_succ, List.singleton_append, find,
          if_neg fun pair => other pair.2.symm, ← List.replicate_succ, padding]
        rfl

/-- A code that stands for the pair spells what the pair did. -/
theorem flatMap_substitute {a b c : α} {value : α → List β} (joined : value c = value a ++ value b)
    (word : List α) : (substitute a b c word).flatMap value = word.flatMap value := by
  induction word using substitute.induct a b with
  | case1 x y rest here ih =>
    -- The code in place of the pair spells what the two of them did.
    rw [substitute, if_pos here, List.flatMap_cons, ih, joined, here.1, here.2, List.flatMap_cons,
      List.flatMap_cons, List.append_assoc]
  | case2 x y rest other ih =>
    rw [substitute, if_neg other, List.flatMap_cons, ih, ← List.flatMap_cons]
  | case3 word short => rcases eq_of_short short with rfl | ⟨x, rfl⟩ <;> rfl

/-- Nothing but the code comes into a word. -/
theorem mem_substitute {a b c x : α} {word : List α} (member : x ∈ substitute a b c word) :
    x = c ∨ x ∈ word := by
  induction word using substitute.induct a b with
  | case1 u v rest here ih =>
    -- The code itself is in the word now, and so is what is behind the pair.
    rw [substitute, if_pos here] at member
    rcases List.mem_cons.mp member with code | later
    · exact Or.inl code
    · exact (ih later).imp_right fun old => List.mem_cons_of_mem _ (List.mem_cons_of_mem _ old)
  | case2 u v rest other ih =>
    rw [substitute, if_neg other] at member
    rcases List.mem_cons.mp member with first | later
    · exact Or.inr (first ▸ List.mem_cons_self)
    · exact (ih later).imp_right (List.mem_cons_of_mem _)
  | case3 word short =>
    rcases eq_of_short short with rfl | ⟨u, rfl⟩ <;> exact Or.inr member

omit [DecidableEq α]

/-! ### Rules and what they spell -/

/-- What a code stands for: nothing yet, itself, or two codes. -/
inductive Rule (α : Type*) where
  | unused
  | literal
  | pair (first second : α)

/-- What a code spells, with rules used at most so deep. -/
def expand (rule : α → Rule α) : Nat → α → Option (List α)
  | 0, _ => none
  | depth + 1, code =>
    match rule code with
    | .unused => some []
    | .literal => some [code]
    | .pair first second =>
      match expand rule depth first, expand rule depth second with
      | some front, some back => some (front ++ back)
      | _, _ => none

/--
After some steps of compression the words over the codes in use spell the texts, what a code spells
is part of a text, and a pair was made of codes that were in use before.
-/
structure Compressed (rule : α → Rule α) (value : α → List α) (rank : α → Nat) (steps : Nat)
    (texts words : List (List α)) : Prop where
  unused : ∀ code, rule code = .unused → value code = []
  literal : ∀ code, rule code = .literal → value code = [code]
  pair : ∀ code first second, rule code = .pair first second →
    value code = value first ++ value second ∧ rank first < rank code ∧ rank second < rank code
  used : ∀ word ∈ words, ∀ code ∈ word, rule code ≠ .unused
  pairUsed : ∀ code first second, rule code = .pair first second →
    rule first ≠ .unused ∧ rule second ≠ .unused
  part : ∀ code, rule code ≠ .unused → ∃ text ∈ texts, value code <:+: text
  steps : ∀ code, rank code ≤ steps
  spells : words.map (·.flatMap value) = texts

namespace Compressed

variable {rule : α → Rule α} {value : α → List α} {rank : α → Nat} {steps : Nat}
  {texts words : List (List α)}

/-- With rules used deep enough every code is spelt out. -/
theorem expand_eq (compressed : Compressed rule value rank steps texts words) {depth : Nat}
    {code : α} (deep : rank code < depth) : expand rule depth code = some (value code) := by
  induction depth generalizing code with
  | zero => exact absurd deep (Nat.not_lt_zero _)
  | succ depth ih =>
    rw [expand]
    cases here : rule code with
    | unused => exact congrArg some (compressed.unused code here).symm
    | literal => exact congrArg some (compressed.literal code here).symm
    | pair first second =>
      -- Both codes rank below, so one level less is deep enough for them.
      obtain ⟨joined, below, beneath⟩ := compressed.pair code first second here
      rw [joined]
      dsimp only
      rw [ih (by omega), ih (by omega)]

/-- Before the first step every code in use stands for itself. -/
theorem start (literals : ∀ code, rule code = .literal ∨ rule code = .unused)
    (used : ∀ text ∈ texts, ∀ code ∈ text, rule code = .literal)
    (part : ∀ code, rule code = .literal → ∃ text ∈ texts, code ∈ text) :
    Compressed rule (fun code => match rule code with | .literal => [code] | _ => []) (fun _ => 0) 0
      texts texts where
  unused := fun code here => by rw [here]
  literal := fun code here => by rw [here]
  pair := fun code first second here => by
    rcases literals code with other | other <;> rw [other] at here <;> cases here
  used := fun word member code inside here => by
    rw [used word member code inside] at here
    cases here
  pairUsed := fun code first second here => by
    rcases literals code with other | other <;> rw [other] at here <;> cases here
  part := fun code here => by
    obtain ⟨text, member, inside⟩ := part code ((literals code).resolve_right here)
    obtain ⟨front, back, split⟩ := List.append_of_mem inside
    refine ⟨text, member, front, back, ?_⟩
    rw [(literals code).resolve_right here, split]
    simp
  steps := fun _ => Nat.le_refl _
  spells := by
    refine (List.map_congr_left fun text member => ?_).trans (List.map_id _)
    -- A text of literals spells itself.
    have same : ∀ code ∈ text, (match rule code with | .literal => [code] | _ => []) = [code] :=
      fun code inside => by rw [used text member code inside]
    rw [List.flatMap_congr same]
    exact List.flatMap_singleton' text

section Step

variable [DecidableEq α] {a b c : α}

/-- What belongs to a code in use is left as it is by what comes to belong to an unused code. -/
theorem update_used {γ : Type*} (fresh : rule c = .unused) {code : α} (used : rule code ≠ .unused)
    (f : α → γ) (x : γ) : Function.update f c x code = f code :=
  -- A code that is in use is not the unused one.
  Function.update_of_ne (fun same : code = c => used (same ▸ fresh)) x f

/-- A new code spells what its two codes do, and ranks above all others. -/
theorem step_pair (compressed : Compressed rule value rank steps texts words)
    (fresh : rule c = .unused) (usedA : rule a ≠ .unused) (usedB : rule b ≠ .unused)
    {code first second : α}
    (here : Function.update rule c (.pair a b) code = .pair first second) :
    Function.update value c (value a ++ value b) code =
        Function.update value c (value a ++ value b) first ++
          Function.update value c (value a ++ value b) second ∧
      Function.update rank c (steps + 1) first < Function.update rank c (steps + 1) code ∧
      Function.update rank c (steps + 1) second < Function.update rank c (steps + 1) code := by
  by_cases new : code = c
  · rw [new, Function.update_self] at here
    obtain ⟨rfl, rfl⟩ := Rule.pair.inj here
    rw [new, Function.update_self, Function.update_self, update_used fresh usedA,
      update_used fresh usedB, update_used fresh usedA, update_used fresh usedB]
    exact ⟨rfl, Nat.lt_succ_of_le (compressed.steps _), Nat.lt_succ_of_le (compressed.steps _)⟩
  · -- An older pair is made of codes in use, and nothing changes for those.
    rw [Function.update_of_ne new] at here
    obtain ⟨usedFirst, usedSecond⟩ := compressed.pairUsed code first second here
    rw [Function.update_of_ne new, Function.update_of_ne new, update_used fresh usedFirst,
      update_used fresh usedSecond, update_used fresh usedFirst, update_used fresh usedSecond]
    exact compressed.pair code first second here

/-- After a step a pair is still made of codes in use. -/
theorem step_pairUsed (compressed : Compressed rule value rank steps texts words)
    (fresh : rule c = .unused) (usedA : rule a ≠ .unused) (usedB : rule b ≠ .unused)
    {code first second : α}
    (here : Function.update rule c (.pair a b) code = .pair first second) :
    Function.update rule c (.pair a b) first ≠ .unused ∧
      Function.update rule c (.pair a b) second ≠ .unused := by
  have still {code : α} (used : rule code ≠ .unused) :
      Function.update rule c (.pair a b) code ≠ .unused := by
    rw [update_used fresh used]
    exact used
  by_cases new : code = c
  · rw [new, Function.update_self] at here
    obtain ⟨rfl, rfl⟩ := Rule.pair.inj here
    exact ⟨still usedA, still usedB⟩
  · rw [Function.update_of_ne new] at here
    obtain ⟨usedFirst, usedSecond⟩ := compressed.pairUsed code first second here
    exact ⟨still usedFirst, still usedSecond⟩

/-- After a step the words are made of codes in use, the new one among them. -/
theorem step_used (compressed : Compressed rule value rank steps texts words)
    (fresh : rule c = .unused) {word : List α} (member : word ∈ words.map (substitute a b c))
    {code : α} (inside : code ∈ word) : Function.update rule c (.pair a b) code ≠ .unused := by
  intro here
  obtain ⟨old, earlier, rfl⟩ := List.mem_map.mp member
  rcases mem_substitute inside with rfl | before
  · rw [Function.update_self] at here
    cases here
  · -- A code that was in the word stands for what it did.
    have used := compressed.used old earlier code before
    rw [update_used fresh used] at here
    exact used here

/-- A new code spells a part of a text, as its two codes are neighbours in a word. -/
theorem step_part (compressed : Compressed rule value rank steps texts words) {word : List α}
    (member : word ∈ words) (neighbours : (a, b) ∈ pairs word) {code : α}
    (here : Function.update rule c (.pair a b) code ≠ .unused) :
    ∃ text ∈ texts, Function.update value c (value a ++ value b) code <:+: text := by
  by_cases new : code = c
  · obtain ⟨front, back, split⟩ := mem_pairs neighbours
    rw [new, Function.update_self]
    -- The word spells a text, its front and its back the parts around the pair.
    refine ⟨word.flatMap value, ?_, front.flatMap value, back.flatMap value, ?_⟩
    · rw [← compressed.spells]
      exact List.mem_map_of_mem member
    · rw [split]
      simp
  · rw [Function.update_of_ne new] at here ⊢
    exact compressed.part code here

/-- The words spell the same texts after a step. -/
theorem step_spells (compressed : Compressed rule value rank steps texts words)
    (fresh : rule c = .unused) (usedA : rule a ≠ .unused) (usedB : rule b ≠ .unused) :
    (words.map (substitute a b c)).map (·.flatMap (Function.update value c (value a ++ value b))) =
      texts := by
  have joined : Function.update value c (value a ++ value b) c =
      Function.update value c (value a ++ value b) a ++
        Function.update value c (value a ++ value b) b := by
    rw [update_used fresh usedA, update_used fresh usedB, Function.update_self]
  rw [List.map_map, ← compressed.spells]
  refine List.map_congr_left fun old member => ?_
  rw [Function.comp_apply, flatMap_substitute joined]
  -- The new code is in no old word.
  exact List.flatMap_congr fun code inside =>
    update_used fresh (compressed.used old member code inside) _ _

/-- A step makes an unused code stand for a pair of neighbours, in all words. -/
theorem step (compressed : Compressed rule value rank steps texts words)
    (fresh : rule c = .unused) {word : List α} (member : word ∈ words)
    (neighbours : (a, b) ∈ pairs word) :
    Compressed (Function.update rule c (.pair a b)) (Function.update value c (value a ++ value b))
      (Function.update rank c (steps + 1)) (steps + 1) texts (words.map (substitute a b c)) := by
  obtain ⟨front, back, split⟩ := mem_pairs neighbours
  have usedA : rule a ≠ .unused := compressed.used word member a (by rw [split]; simp)
  have usedB : rule b ≠ .unused := compressed.used word member b (by rw [split]; simp)
  refine ⟨fun code here => ?_, fun code here => ?_,
    fun _ _ _ => compressed.step_pair fresh usedA usedB,
    fun _ member' _ => compressed.step_used fresh member',
    fun _ _ _ => compressed.step_pairUsed fresh usedA usedB,
    fun _ => compressed.step_part member neighbours, fun code => ?_,
    compressed.step_spells fresh usedA usedB⟩
  -- The new code is a pair, neither unused nor a literal.
  · by_cases new : code = c
    · rw [new, Function.update_self] at here
      cases here
    · rw [Function.update_of_ne new] at here ⊢
      exact compressed.unused code here
  · by_cases new : code = c
    · rw [new, Function.update_self] at here
      cases here
    · rw [Function.update_of_ne new] at here ⊢
      exact compressed.literal code here
  · by_cases new : code = c
    · rw [new, Function.update_self]
    · rw [Function.update_of_ne new]
      exact Nat.le_succ_of_le (compressed.steps code)

end Step

end Compressed

end PairTokens
