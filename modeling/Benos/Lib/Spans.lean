import Mathlib.Data.List.Basic
import Mathlib.Tactic.Common

/-! Lists of labelled ranges that tell a partial function, each value over a range it is constant on. -/

namespace Spans

variable {α : Type*}

/-- A range of numbers, without its end, and what is said about all of them. -/
structure Span (α : Type*) where
  lo : Nat
  hi : Nat
  label : α

/-- Whether a number is in the range. -/
def Span.Covers (span : Span α) (n : Nat) : Prop := span.lo ≤ n ∧ n < span.hi

/-- The ranges come in order, lie apart, and say of a part of the numbers all there is to say. -/
structure Tells (value : Nat → Option α) (lo hi : Nat) (spans : List (Span α)) : Prop where
  inside : ∀ span ∈ spans, lo ≤ span.lo ∧ span.lo < span.hi ∧ span.hi ≤ hi
  ordered : spans.Pairwise fun first second => first.hi ≤ second.lo
  correct : ∀ span ∈ spans, ∀ n, span.Covers n → value n = some span.label
  complete : ∀ n, lo ≤ n → n < hi → (value n).isSome → ∃ span ∈ spans, span.Covers n

namespace Tells

variable {value : Nat → Option α} {lo mid hi : Nat} {first second spans : List (Span α)}

/-- Where there is nothing to say, nothing is said. -/
theorem nil (nothing : ∀ n, lo ≤ n → n < hi → value n = none) : Tells value lo hi [] where
  inside := by simp
  ordered := List.Pairwise.nil
  correct := by simp
  complete n above below has := by
    rw [nothing n above below] at has
    cases has

/-- One value over the whole range is one span. -/
theorem single {label : α} (some_ : lo < hi)
    (same : ∀ n, lo ≤ n → n < hi → value n = some label) : Tells value lo hi [⟨lo, hi, label⟩] where
  inside := by simp [some_]
  ordered := List.pairwise_singleton _ _
  correct span member n covers := by
    obtain rfl := List.mem_singleton.mp member
    exact same n covers.1 covers.2
  complete n above below _ := ⟨_, List.mem_singleton_self _, above, below⟩

/-- Two parts next to each other are told one after the other. -/
theorem append (left : Tells value lo mid first) (right : Tells value mid hi second)
    (lower : lo ≤ mid) (upper : mid ≤ hi) : Tells value lo hi (first ++ second) where
  inside span member := by
    rcases List.mem_append.mp member with early | late
    · have := left.inside span early
      omega
    · have := right.inside span late
      omega
  ordered := by
    refine List.pairwise_append.mpr ⟨left.ordered, right.ordered, fun span early other late => ?_⟩
    -- The middle lies between them.
    have := left.inside span early
    have := right.inside other late
    omega
  correct span member := by
    rcases List.mem_append.mp member with early | late
    · exact left.correct span early
    · exact right.correct span late
  complete n above below has := by
    rcases Nat.lt_or_ge n mid with before | behind
    · obtain ⟨span, member, covers⟩ := left.complete n above before has
      exact ⟨span, List.mem_append_left _ member, covers⟩
    · obtain ⟨span, member, covers⟩ := right.complete n behind below has
      exact ⟨span, List.mem_append_right _ member, covers⟩

/-- The numbers that are covered are those with a value. -/
theorem covered_iff (tells : Tells value lo hi spans) {n : Nat} (above : lo ≤ n) (below : n < hi) :
    (∃ span ∈ spans, span.Covers n) ↔ (value n).isSome := by
  refine ⟨fun ⟨span, member, covers⟩ => ?_, tells.complete n above below⟩
  rw [tells.correct span member n covers]
  rfl

end Tells

end Spans
