import Mathlib.Data.Int.Order.Basic
import Mathlib.Data.List.Sort
import Mathlib.Data.Prod.Lex

/-!
Comparison functions with three outcomes, as sorting procedures take them, and the keys they order by.

If such a function orders by a key that tells the elements apart, there is one way to sort them, and
it does not matter which procedure does.
-/

namespace Comparator

variable {α κ ι : Type*} [LinearOrder κ] [LinearOrder ι]

/-- Among some elements a comparison is negative, zero or positive as their keys compare. -/
def OrdersBy (member : α → Prop) (compare : α → α → Int) (key : α → κ) : Prop :=
  ∀ a b, member a → member b →
    (compare a b < 0 ↔ key a < key b) ∧ (0 < compare a b ↔ key b < key a)

/-- A list in which nothing compares as greater than what is behind it. -/
def Ordered (compare : α → α → Int) (list : List α) : Prop :=
  list.Pairwise fun a b => compare a b ≤ 0

/-- The difference of two numbers orders by the numbers. -/
theorem ordersBy_sub (member : α → Prop) (number : α → Int) :
    OrdersBy member (fun a b => number a - number b) number := by
  intro a b _ _
  -- The sign of a difference tells which number is the greater one.
  dsimp only
  constructor <;> omega

namespace OrdersBy

variable {member : α → Prop} {compare next : α → α → Int} {key : α → κ} {later : α → ι}

/-- Elements compare as equal when their keys are. -/
theorem eq_zero_iff (orders : OrdersBy member compare key) {a b : α} (first : member a)
    (second : member b) : compare a b = 0 ↔ key a = key b := by
  obtain ⟨below, above⟩ := orders a b first second
  constructor
  · intro zero
    -- Neither key is the smaller one.
    refine le_antisymm (not_lt.mp fun less => ?_) (not_lt.mp fun less => ?_)
    · exact absurd (above.mpr less) (by omega)
    · exact absurd (below.mpr less) (by omega)
  · intro same
    have notBelow : ¬ compare a b < 0 := fun less => (below.mp less).ne same
    have notAbove : ¬ 0 < compare a b := fun less => (above.mp less).ne' same
    omega

/-- What does not compare as greater has no greater key. -/
theorem nonpos_iff (orders : OrdersBy member compare key) {a b : α} (first : member a)
    (second : member b) : compare a b ≤ 0 ↔ key a ≤ key b := by
  rw [← not_lt, ← not_lt, (orders a b first second).2]

/-- A second comparison that decides between equals orders by the two keys one after the other. -/
theorem orElse (orders : OrdersBy member compare key) (decides : OrdersBy member next later) :
    OrdersBy member (fun a b => if compare a b ≠ 0 then compare a b else next a b)
      fun a => toLex (key a, later a) := by
  intro a b first second
  obtain ⟨below, above⟩ := orders a b first second
  obtain ⟨lower, upper⟩ := decides a b first second
  have equal := orders.eq_zero_iff first second
  simp only [Prod.Lex.toLex_lt_toLex]
  by_cases same : compare a b = 0
  · -- The first keys are equal, and the second comparison counts.
    have keys := equal.mp same
    simp [same, keys, lower, upper]
  · have differ : key a ≠ key b := fun keys => same (equal.mpr keys)
    simp [same, differ, differ.symm, below, above]

/-- A sorted list is ordered by the keys. -/
theorem pairwise (orders : OrdersBy member compare key) {list : List α}
    (all : ∀ a ∈ list, member a) (ordered : Ordered compare list) :
    list.Pairwise fun a b => key a ≤ key b := by
  refine List.Pairwise.imp_of_mem (fun first second small => ?_) ordered
  exact (orders.nonpos_iff (all _ first) (all _ second)).mp small

/-- Sorting by the comparison orders. -/
theorem ordered_mergeSort (orders : OrdersBy member compare key) {list : List α}
    (all : ∀ a ∈ list, member a) :
    Ordered compare (list.mergeSort fun a b => decide (compare a b ≤ 0)) := by
  have agree : ∀ a ∈ list, ∀ b ∈ list,
      decide (compare a b ≤ 0) = decide (key a ≤ key b) := fun a first b second =>
    decide_eq_decide.mpr (orders.nonpos_iff (all a first) (all b second))
  -- The keys of the sorted list are the sorted keys, and those are in order.
  have keys := List.map_mergeSort (s := fun m n : κ => decide (m ≤ n)) (f := key) agree
  have sorted := @List.pairwise_mergeSort _ (fun m n : κ => decide (m ≤ n))
    (fun a b c => by simpa using le_trans) (fun a b => by simpa using le_total a b) (list.map key)
  rw [← keys, List.pairwise_map] at sorted
  refine List.Pairwise.imp_of_mem (fun first second small => ?_) sorted
  rw [List.mem_mergeSort] at first second
  exact (orders.nonpos_iff (all _ first) (all _ second)).mpr (of_decide_eq_true small)

/-- There is one way to sort a list whose keys tell its elements apart. -/
theorem ordered_unique (orders : OrdersBy member compare key) {list sorted : List α}
    (all : ∀ a ∈ list, member a) (apart : ∀ a ∈ list, ∀ b ∈ list, key a = key b → a = b)
    (ordered : Ordered compare list) (other : Ordered compare sorted) (perm : sorted.Perm list) :
    sorted = list := by
  have known : ∀ a ∈ sorted, a ∈ list := fun a inside => perm.mem_iff.mp inside
  refine List.Perm.eq_of_pairwise (fun a b first second below above => ?_)
    (orders.pairwise (fun a inside => all a (known a inside)) other) (orders.pairwise all ordered)
    perm
  exact apart a (known a first) b second (le_antisymm below above)

end OrdersBy

end Comparator
