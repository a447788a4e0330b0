import Mathlib.Data.List.Basic
import Mathlib.Data.List.Perm.Basic

/-! Partial functions laid over each other: where parts overlap, the last one counts. -/

namespace Overlay

variable {α β : Type*}

/-- A base with parts laid over it, one after the other. -/
def overlay : List (α → Option β) → (α → Option β) → α → Option β
  | [], base => base
  | part :: rest, base => overlay rest fun a => (part a).or (base a)

@[simp] theorem overlay_nil (base : α → Option β) : overlay [] base = base := rfl

@[simp] theorem overlay_cons (part : α → Option β) (rest : List (α → Option β))
    (base : α → Option β) :
    overlay (part :: rest) base = overlay rest fun a => (part a).or (base a) := rfl

/-- Parts over parts over a base. -/
theorem overlay_append (first second : List (α → Option β)) (base : α → Option β) :
    overlay (first ++ second) base = overlay second (overlay first base) := by
  induction first generalizing base with
  | nil => rfl
  | cons part rest ih => rw [List.cons_append, overlay_cons, overlay_cons, ih]

/-- Where no part covers, the base shows. -/
theorem overlay_of_none {parts : List (α → Option β)} {base : α → Option β} {a : α}
    (bare : ∀ part ∈ parts, part a = none) : overlay parts base a = base a := by
  induction parts generalizing base with
  | nil => rfl
  | cons part rest ih =>
    obtain ⟨first, others⟩ := List.forall_mem_cons.mp bare
    rw [overlay_cons, ih others, first, Option.none_or]

/-- Where a part covers and no later one does, that part shows. -/
theorem overlay_of_some {earlier later : List (α → Option β)} {part base : α → Option β} {a : α}
    {b : β} (covers : part a = some b) (last : ∀ other ∈ later, other a = none) :
    overlay (earlier ++ part :: later) base a = some b := by
  induction earlier generalizing base with
  | nil => rw [List.nil_append, overlay_cons, overlay_of_none last, covers, Option.some_or]
  | cons first rest ih => rw [List.cons_append, overlay_cons, ih]

/-- Two parts that cover no point both. -/
def Apart (part other : α → Option β) : Prop := ∀ a, part a = none ∨ other a = none

theorem Apart.symm {part other : α → Option β} (apart : Apart part other) : Apart other part :=
  fun a => (apart a).symm

/-- Parts that are apart can be laid in any order. -/
theorem overlay_perm {parts other : List (α → Option β)} (same : parts.Perm other)
    (apart : parts.Pairwise Apart) (base : α → Option β) :
    overlay parts base = overlay other base := by
  induction same generalizing base with
  | nil => rfl
  | cons part _ ih =>
    rw [overlay_cons, overlay_cons]
    exact ih (List.pairwise_cons.mp apart).2 _
  | swap part first rest =>
    rw [overlay_cons, overlay_cons, overlay_cons, overlay_cons]
    -- At each point one of the two covers nothing.
    refine congrArg (overlay rest) (funext fun a => ?_)
    rcases (List.pairwise_cons.mp apart).1 part List.mem_cons_self a with none_ | none_
    · rw [none_, Option.none_or, Option.none_or]
    · rw [none_, Option.none_or, Option.none_or]
  | trans first _ ihFirst ihSecond =>
    rw [ihFirst apart, ihSecond (apart.perm first Apart.symm)]

end Overlay
