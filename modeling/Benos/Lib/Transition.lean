import Mathlib.Logic.Relation

/-! Runs of labelled transition systems, and the induction every invariant rests on. -/

namespace Transition

variable {σ ι : Type*}

/-- Taking the labelled steps of a list in order, stopping at a step that is not enabled. -/
def run (step : ι → σ → Option σ) : List ι → σ → Option σ
  | [], state => some state
  | label :: rest, state => (step label state).bind (run step rest)

@[simp] theorem run_nil (step : ι → σ → Option σ) (state : σ) :
    run step [] state = some state := rfl

@[simp] theorem run_cons (step : ι → σ → Option σ) (label : ι) (rest : List ι) (state : σ) :
    run step (label :: rest) state = (step label state).bind (run step rest) := rfl

/-- A run over an appended list is the second run from where the first one ended. -/
theorem run_append (step : ι → σ → Option σ) (first second : List ι) (state : σ) :
    run step (first ++ second) state = (run step first state).bind (run step second) := by
  -- The first step is the same on both sides, and so is stopping at it.
  induction first generalizing state with
  | nil => rfl
  | cons label rest ih =>
    simp only [List.cons_append, run_cons]
    cases step label state with
    | none => rfl
    | some next => simpa using ih next

/-- What every enabled step keeps, every run keeps. -/
theorem run_invariant {step : ι → σ → Option σ} {holds : σ → Prop}
    (keeps : ∀ label state next, holds state → step label state = some next → holds next)
    {labels : List ι} {start final : σ} (initial : holds start)
    (ran : run step labels start = some final) : holds final := by
  -- The induction peels the first step, which the invariant survives.
  induction labels generalizing start with
  | nil =>
    cases ran
    exact initial
  | cons label rest ih =>
    simp only [run_cons, Option.bind_eq_some_iff] at ran
    obtain ⟨next, taken, ran⟩ := ran
    exact ih (keeps label start next initial taken) ran

/-- What every allowed step keeps, every run of allowed steps keeps. -/
theorem run_invariant_on {step : ι → σ → Option σ} {allowed : ι → σ → Prop} {holds : σ → Prop}
    (keeps : ∀ label state next, holds state → allowed label state →
      step label state = some next → holds next)
    {labels : List ι} {start final : σ} (initial : holds start)
    (ran : run step labels start = some final)
    (all : ∀ earlier label later mid, labels = earlier ++ label :: later →
      run step earlier start = some mid → allowed label mid) : holds final := by
  induction labels generalizing start with
  | nil =>
    cases ran
    exact initial
  | cons label rest ih =>
    simp only [run_cons, Option.bind_eq_some_iff] at ran
    obtain ⟨next, taken, ran⟩ := ran
    -- The first step starts from the empty run, and the others from one step later.
    have first : allowed label start := all [] label rest start rfl rfl
    refine ih (keeps label start next initial first taken) ran
      fun earlier later_label later mid split before => ?_
    refine all (label :: earlier) later_label later mid (by rw [split, List.cons_append]) ?_
    rw [run_cons, taken, Option.bind_some]
    exact before

/-- A run is allowed if its first step is, and the rest from where that step leads. -/
theorem allowed_cons {step : ι → σ → Option σ} {allowed : ι → σ → Prop} {label : ι}
    {rest : List ι} {start next : σ} (first : allowed label start)
    (taken : step label start = some next)
    (others : ∀ earlier label' later mid, rest = earlier ++ label' :: later →
      run step earlier next = some mid → allowed label' mid)
    (earlier : List ι) (label' : ι) (later : List ι) (mid : σ)
    (split : label :: rest = earlier ++ label' :: later)
    (before : run step earlier start = some mid) : allowed label' mid := by
  -- The step in question is the first one, or one of the others.
  cases earlier with
  | nil =>
    cases split
    cases before
    exact first
  | cons head tail =>
    cases split
    rw [run_cons, taken, Option.bind_some] at before
    exact others tail label' later mid rfl before

/-- Steps that each lower a potential are no more than the potential the run used up. -/
theorem run_potential {step : ι → σ → Option σ} {holds : σ → Prop} {paid : ι → Bool}
    {potential : σ → Nat}
    (keeps : ∀ label state next, holds state → step label state = some next → holds next)
    (pays : ∀ label state next, holds state → step label state = some next →
      potential next + (if paid label then 1 else 0) ≤ potential state)
    {labels : List ι} {start final : σ} (initial : holds start)
    (ran : run step labels start = some final) :
    potential final + labels.countP paid ≤ potential start := by
  induction labels generalizing start with
  | nil =>
    cases ran
    simp
  | cons label rest ih =>
    simp only [run_cons, Option.bind_eq_some_iff] at ran
    obtain ⟨next, taken, ran⟩ := ran
    -- What the first step pays adds to what the others pay.
    have first := pays label start next initial taken
    have others := ih (keeps label start next initial taken) ran
    rw [List.countP_cons]
    omega

/-- What a run costs, by the price of each step in the state that it is taken in. -/
def cost (step : ι → σ → Option σ) (price : ι → σ → Nat) : List ι → σ → Nat
  | [], _ => 0
  | label :: rest, state => price label state + (step label state).elim 0 (cost step price rest)

/-- What the labels of a run come to, each at its price. -/
def total (price : ι → Nat) : List ι → Nat
  | [] => 0
  | label :: rest => price label + total price rest

/-- A step that stays possible and lowers a potential until it stops leads to where it stops. -/
theorem run_stops {step : ι → σ → Option σ} {label : ι} {holds stopped : σ → Prop}
    {potential : σ → Nat}
    (goes : ∀ state, holds state → ¬ stopped state →
      ∃ next, step label state = some next ∧ holds next ∧ potential next < potential state)
    {start : σ} (initial : holds start) :
    ∃ count ≤ potential start, ∃ final,
      run step (List.replicate count label) start = some final ∧ holds final ∧ stopped final := by
  -- The induction is on what is left of the potential.
  induction left : potential start using Nat.strongRecOn generalizing start with
  | ind bound ih =>
    subst left
    by_cases here : stopped start
    · exact ⟨0, Nat.zero_le _, start, rfl, initial, here⟩
    · obtain ⟨next, taken, onward, lower⟩ := goes start initial here
      obtain ⟨count, few, final, ran, there⟩ := ih (potential next) lower onward rfl
      refine ⟨count + 1, by omega, final, ?_, there⟩
      rw [List.replicate_succ, run_cons, taken]
      exact ran

/-- A run of a restricted system is a run of the system it restricts. -/
theorem run_mono {narrow wide : ι → σ → Option σ}
    (allowed : ∀ label state next, narrow label state = some next → wide label state = some next)
    {labels : List ι} {start final : σ} (ran : run narrow labels start = some final) :
    run wide labels start = some final := by
  -- Every step of the narrow system is the same step of the wide one.
  induction labels generalizing start with
  | nil => exact ran
  | cons label rest ih =>
    simp only [run_cons, Option.bind_eq_some_iff] at ran ⊢
    obtain ⟨next, taken, ran⟩ := ran
    exact ⟨next, allowed label start next taken, ih ran⟩

/-- Labels that an observer does not see can be left out of a run without the observer noticing. -/
theorem run_erase {step : ι → σ → Option σ} {visible : ι → Bool} {alike : σ → σ → Prop}
    (hidden : ∀ label left right next, visible label = false → alike left right →
      step label left = some next → alike next right)
    (seen : ∀ label left right next, visible label = true → alike left right →
      step label left = some next → ∃ next', step label right = some next' ∧ alike next next')
    {labels : List ι} {left right final : σ} (initial : alike left right)
    (ran : run step labels left = some final) :
    ∃ final', run step (labels.filter visible) right = some final' ∧ alike final final' := by
  induction labels generalizing left right with
  | nil =>
    cases ran
    exact ⟨right, rfl, initial⟩
  | cons label rest ih =>
    simp only [run_cons, Option.bind_eq_some_iff] at ran
    obtain ⟨next, taken, ran⟩ := ran
    cases shown : visible label with
    | false =>
      -- The step changes nothing that the other run could see, which stays where it is.
      rw [List.filter_cons_of_neg (by simp [shown])]
      exact ih (hidden label left right next shown initial taken) ran
    | true =>
      -- The other run takes the same step.
      obtain ⟨next', taken', alike_next⟩ := seen label left right next shown initial taken
      obtain ⟨final', ran', alike_final⟩ := ih alike_next ran
      refine ⟨final', ?_, alike_final⟩
      rw [List.filter_cons_of_pos shown, run_cons, taken']
      exact ran'

/-! ### Runs that are watched -/

variable {τ : Type*}

/-- A step next to a record of the run, which it cannot read. -/
def watched (step : ι → σ → Option σ) (watch : ι → σ → σ → τ → τ) (label : ι) (state : σ × τ) :
    Option (σ × τ) :=
  (step label state.1).map fun next => (next, watch label state.1 next state.2)

/-- A watched step is the step, and the record follows. -/
theorem watched_some {step : ι → σ → Option σ} {watch : ι → σ → σ → τ → τ} {label : ι}
    {state next : σ × τ} (taken : watched step watch label state = some next) :
    step label state.1 = some next.1 ∧ next.2 = watch label state.1 next.1 state.2 := by
  -- The record is a function of the two states.
  obtain ⟨after, stepped, rfl⟩ := Option.map_eq_some_iff.mp taken
  exact ⟨stepped, rfl⟩

/-- Watching a run does not change it. -/
theorem run_of_watched {step : ι → σ → Option σ} {watch : ι → σ → σ → τ → τ} {labels : List ι}
    {start final : σ × τ} (ran : run (watched step watch) labels start = some final) :
    run step labels start.1 = some final.1 := by
  induction labels generalizing start with
  | nil =>
    cases ran
    rfl
  | cons label rest ih =>
    simp only [run_cons, Option.bind_eq_some_iff] at ran ⊢
    obtain ⟨next, taken, ran⟩ := ran
    -- Each step is one of the system that is watched.
    exact ⟨next.1, (watched_some taken).1, ih ran⟩

/-- What every step of a relation keeps holds in every state reached from where it held. -/
theorem reachable_invariant {step : σ → σ → Prop} {holds : σ → Prop}
    (keeps : ∀ state next, holds state → step state next → holds next) {start final : σ}
    (initial : holds start) (reached : Relation.ReflTransGen step start final) : holds final := by
  induction reached with
  | refl => exact initial
  | tail _ taken ih => exact keeps _ _ ih taken

end Transition
