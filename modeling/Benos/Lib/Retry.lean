import Mathlib.Data.List.Basic
import Mathlib.Tactic.Common

/-!
Work that is tried again and again: a try ends, or it names something that it needs and lacks, which
is supplied before the next try.

If nothing that was supplied is taken away, there are no more tries than needs, and one. Whether a
need can be supplied is asked when it comes up.
-/

namespace Retry

variable {σ ν ρ : Type*}

/-- Trying until a try ends, so many times at most: how often something was supplied, and the end. -/
def loop (attempt : σ → (ν ⊕ ρ) × σ) (serve : ν → σ → Option σ) : Nat → σ → Option (Nat × ρ × σ)
  | 0, _ => none
  | tries + 1, s =>
    match attempt s with
    | (.inr result, s) => some (0, result, s)
    | (.inl need, s) =>
      (serve need s).bind fun s =>
        (loop attempt serve tries s).map fun (served, ended) => (served + 1, ended)

/-- Whatever comes up in so many tries can be supplied at that time. -/
def Supplied (attempt : σ → (ν ⊕ ρ) × σ) (serve : ν → σ → Option σ) (affords : σ → ν → Prop) :
    Nat → σ → Prop
  | 0, _ => True
  | tries + 1, s =>
    match attempt s with
    | (.inr _, _) => True
    | (.inl need, s) =>
      affords s need ∧ ∀ s', serve need s = some s' → Supplied attempt serve affords tries s'

/--
What is known of tries: the needs that there can be, when one of them is met and when it can be
supplied, and what holds of every state.
-/
structure Served (attempt : σ → (ν ⊕ ρ) × σ) (serve : ν → σ → Option σ) (needs : List ν)
    (met : σ → ν → Bool) (affords : σ → ν → Prop) (holds : σ → Prop) (result : ρ) : Prop where
  /-- A try takes nothing away, and it ends with the result if all needs are met. -/
  tries : ∀ s, holds s → holds (attempt s).2 ∧
    (∀ need ∈ needs, met s need = true → met (attempt s).2 need = true) ∧
    ((attempt s).1 = .inr result ∧ (∀ need ∈ needs, met (attempt s).2 need = true) ∨
      ∃ need ∈ needs, (attempt s).1 = .inl need ∧ met (attempt s).2 need = false)
  /-- A need is met when it has been served, and no other one is taken away. -/
  serves : ∀ s, holds s → ∀ need ∈ needs, met s need = false → affords s need →
    ∃ s', serve need s = some s' ∧ holds s' ∧
      (∀ other ∈ needs, met s other = true → met s' other = true) ∧ met s' need = true

variable {attempt : σ → (ν ⊕ ρ) × σ} {serve : ν → σ → Option σ} {needs : List ν}
  {met : σ → ν → Bool} {affords : σ → ν → Prop} {holds : σ → Prop} {result : ρ}

/-- The needs that are not met. -/
def unmet (needs : List ν) (met : σ → ν → Bool) (s : σ) : Nat := needs.countP fun need => !met s need

/-- What is met stays met, and so no more needs are unmet. -/
theorem unmet_le {s s' : σ} (kept : ∀ need ∈ needs, met s need = true → met s' need = true) :
    unmet needs met s' ≤ unmet needs met s := by
  refine List.countP_mono_left fun need member missing => ?_
  cases before : met s need with
  | false => rfl
  | true =>
    -- It would still be met.
    rw [kept need member before] at missing
    cases missing

/-- One need more is met. -/
theorem unmet_lt {s s' : σ} (kept : ∀ need ∈ needs, met s need = true → met s' need = true)
    {need : ν} (member : need ∈ needs) (missing : met s need = false) (served : met s' need = true) :
    unmet needs met s' < unmet needs met s := by
  induction needs with
  | nil => cases member
  | cons first rest ih =>
    obtain ⟨here, later⟩ := List.forall_mem_cons.mp kept
    have less := unmet_le later
    rw [unmet, unmet] at less ⊢
    rw [List.countP_cons, List.countP_cons]
    rcases List.mem_cons.mp member with rfl | behind
    · -- The need is the first one.
      rw [missing, served]
      simpa using Nat.lt_succ_of_le less
    · have fewer := ih later behind
      rw [unmet, unmet] at fewer
      cases before : met s first with
      | true =>
        rw [here before]
        simpa using fewer
      | false =>
        cases met s' first <;> simp <;> omega

/-- There are as many services as unmet needs at most, and the loop ends with the result. -/
theorem loop_ends (known : Served attempt serve needs met affords holds result) {tries : Nat}
    {s : σ} (start : holds s) (enough : unmet needs met s < tries)
    (supplied : Supplied attempt serve affords tries s) :
    ∃ served s', loop attempt serve tries s = some (served, result, s') ∧
      served ≤ unmet needs met s ∧ holds s' ∧ ∀ need ∈ needs, met s' need = true := by
  induction tries generalizing s with
  | zero => exact absurd enough (Nat.not_lt_zero _)
  | succ tries ih =>
    obtain ⟨kept, stays, ended⟩ := known.tries _ start
    rw [Supplied] at supplied
    rw [loop]
    cases tried : attempt s with
    | mk outcome s' =>
      rw [tried] at kept stays ended supplied
      dsimp only at kept stays ended supplied
      rcases ended with ⟨rfl, all⟩ | ⟨need, member, rfl, missing⟩
      · exact ⟨0, s', rfl, Nat.zero_le _, kept, all⟩
      · -- The need is one of those that were not met at first, and it can be served.
        obtain ⟨affordable, later⟩ := supplied
        have fewer := unmet_le stays
        obtain ⟨next, served, left, keeps, now⟩ :=
          known.serves s' kept need member missing affordable
        have less := unmet_lt keeps member missing now
        obtain ⟨more, final, ran, bound, rest, ended⟩ := ih left (by omega) (later next served)
        refine ⟨more + 1, final, ?_, by omega, rest, ended⟩
        dsimp only
        rw [served, Option.bind_some, ran]
        rfl

/-- Where every need is met, nothing has to be supplied. -/
theorem supplied_of_met (known : Served attempt serve needs met affords holds result) {s : σ}
    (start : holds s) (all : ∀ need ∈ needs, met s need = true) (tries : Nat) :
    Supplied attempt serve affords tries s := by
  cases tries with
  | zero => trivial
  | succ tries =>
    obtain ⟨-, stays, ended⟩ := known.tries _ start
    rw [Supplied]
    cases tried : attempt s with
    | mk outcome s' =>
      rw [tried] at stays ended
      rcases ended with ⟨rfl, -⟩ | ⟨need, member, -, missing⟩
      · trivial
      · -- What is met stays met.
        rw [stays need member (all need member)] at missing
        cases missing

section Budget

variable {budget : σ → Nat} {cost : Nat}

/-- A budget that tries leave alone, and of which each service takes so much at most. -/
structure Paid (attempt : σ → (ν ⊕ ρ) × σ) (serve : ν → σ → Option σ) (needs : List ν)
    (met : σ → ν → Bool) (affords : σ → ν → Prop) (holds : σ → Prop) (budget : σ → Nat)
    (cost : Nat) : Prop where
  free : ∀ s, budget (attempt s).2 = budget s
  pays : ∀ s, holds s → ∀ need ∈ needs, met s need = false → affords s need →
    ∀ s', serve need s = some s' → budget s ≤ budget s' + cost
  affordable : ∀ s need, cost ≤ budget s → affords s need

/-- Enough for every need that is not met is enough. -/
theorem supplied_of_budget (known : Served attempt serve needs met affords holds result)
    (paid : Paid attempt serve needs met affords holds budget cost) {tries : Nat} {s : σ}
    (start : holds s) (enough : cost * unmet needs met s ≤ budget s) :
    Supplied attempt serve affords tries s := by
  induction tries generalizing s with
  | zero => trivial
  | succ tries ih =>
    obtain ⟨kept, stays, ended⟩ := known.tries _ start
    have same := paid.free s
    rw [Supplied]
    cases tried : attempt s with
    | mk outcome s' =>
      rw [tried] at kept stays ended same
      dsimp only at kept stays ended same
      rcases ended with ⟨rfl, -⟩ | ⟨need, member, rfl, missing⟩
      · trivial
      · have fewer := unmet_le stays
        -- The need is one of the unmet ones, and the budget covers all of these.
        have some_ : 0 < unmet needs met s' :=
          List.countP_pos_iff.mpr ⟨need, member, by simp [missing]⟩
        have covered : cost * unmet needs met s' ≤ budget s' :=
          same ▸ Nat.le_trans (Nat.mul_le_mul_left cost fewer) enough
        have one : cost ≤ budget s' := Nat.le_trans (Nat.le_mul_of_pos_right cost some_) covered
        have affordable := paid.affordable s' need one
        refine ⟨affordable, fun next served => ?_⟩
        obtain ⟨next', served', left, keeps, now⟩ :=
          known.serves s' kept need member missing affordable
        cases served.symm.trans served'
        -- When it is served one fewer is unmet, and no more than its cost is gone.
        have less := unmet_lt keeps member missing now
        have taken := paid.pays s' kept need member missing affordable next served
        have rest : cost * (unmet needs met next + 1) ≤ cost * unmet needs met s' :=
          Nat.mul_le_mul_left cost less
        rw [Nat.mul_succ] at rest
        exact ih left (by omega)

/-- What a loop takes of the budget is for its services. -/
theorem loop_pays (known : Served attempt serve needs met affords holds result)
    (paid : Paid attempt serve needs met affords holds budget cost) {tries served : Nat} {s s' : σ}
    {ended : ρ} (start : holds s) (supplied : Supplied attempt serve affords tries s)
    (ran : loop attempt serve tries s = some (served, ended, s')) :
    budget s ≤ budget s' + cost * served := by
  induction tries generalizing s served with
  | zero => cases ran
  | succ tries ih =>
    obtain ⟨kept, -, outcomes⟩ := known.tries _ start
    have same := paid.free s
    rw [Supplied] at supplied
    rw [loop] at ran
    cases tried : attempt s with
    | mk outcome mid =>
      rw [tried] at kept outcomes same supplied ran
      dsimp only at kept outcomes same supplied ran
      rcases outcomes with ⟨rfl, -⟩ | ⟨need, member, rfl, missing⟩
      · cases ran
        exact Nat.le_of_eq same.symm
      · obtain ⟨affordable, later⟩ := supplied
        obtain ⟨next, taken, left, -, -⟩ :=
          known.serves mid kept need member missing affordable
        have one := paid.pays mid kept need member missing affordable next taken
        dsimp only at ran
        rw [taken, Option.bind_some] at ran
        obtain ⟨⟨more, final⟩, rest, same_⟩ := Option.map_eq_some_iff.mp ran
        cases same_
        -- One cost for this service, and those of the rest.
        have others := ih left (later next taken) rest
        dsimp only
        rw [Nat.mul_succ]
        omega

end Budget

end Retry
