import Mathlib.Data.List.Induction

/-! Traces whose labels may open an epoch, and what has happened since the latest one. -/

namespace Trace

variable {ι δ : Type*} (opens : ι → Option δ) (hits : δ → ι → Prop)

/-- The epoch that the latest opening label of a trace opened. -/
def latest (trace : List ι) : Option δ :=
  trace.foldl (fun epoch label => (opens label).or epoch) none

/-- A trace whose latest opening label opened an epoch, with what came after it. -/
def Opened (trace : List ι) (epoch : δ) (after : List ι) : Prop :=
  ∃ before label, trace = before ++ label :: after ∧ opens label = some epoch ∧
    ∀ later ∈ after, opens later = none

/-- Some label after the latest opening one hit the epoch it opened. -/
def HitSince (trace : List ι) : Prop :=
  ∃ epoch after, Opened opens trace epoch after ∧ ∃ label ∈ after, hits epoch label

variable {opens hits}

@[simp] theorem latest_nil : latest opens [] = none := rfl

@[simp] theorem latest_snoc (trace : List ι) (label : ι) :
    latest opens (trace ++ [label]) = (opens label).or (latest opens trace) := by
  simp only [latest, List.foldl_append, List.foldl_cons, List.foldl_nil]

/-- Nothing is opened in the empty trace. -/
theorem not_opened_nil {epoch : δ} {after : List ι} : ¬ Opened opens [] epoch after := by
  rintro ⟨before, label, split, -⟩
  simp at split

/-- An opening label at the end of a trace leaves nothing after it. -/
theorem opened_snoc_open {trace : List ι} {label : ι} {epoch : δ} {after : List ι}
    {new : δ} (opened : opens label = some new) :
    Opened opens (trace ++ [label]) epoch after ↔ epoch = new ∧ after = [] := by
  constructor
  · rintro ⟨before, first, split, opens_first, quiet⟩
    rcases List.eq_nil_or_concat after with rfl | ⟨rest, final, rfl⟩
    · have same : label = first := by simpa using (List.append_inj' split rfl).2
      rw [← same, opened] at opens_first
      exact ⟨(Option.some.inj opens_first).symm, rfl⟩
    · -- The last label after the opening one would be this one, which opens.
      have ends : trace ++ [label] = (before ++ first :: rest) ++ [final] := by simpa using split
      have same : label = final := by simpa using (List.append_inj' ends rfl).2
      have none := quiet final (by simp)
      rw [← same, opened] at none
      cases none
  · rintro ⟨rfl, rfl⟩
    exact ⟨trace, label, rfl, opened, by simp⟩

/-- Any other label at the end of a trace is one more label after the opening one. -/
theorem opened_snoc_other {trace : List ι} {label : ι} {epoch : δ} {after : List ι}
    (other : opens label = none) :
    Opened opens (trace ++ [label]) epoch after ↔
      ∃ rest, after = rest ++ [label] ∧ Opened opens trace epoch rest := by
  constructor
  · rintro ⟨before, first, split, opens_first, quiet⟩
    rcases List.eq_nil_or_concat after with rfl | ⟨rest, final, rfl⟩
    · -- The opening label would be the last one, which opens nothing.
      have same : label = first := by simpa using (List.append_inj' split rfl).2
      rw [← same, other] at opens_first
      cases opens_first
    · have ends : trace ++ [label] = (before ++ first :: rest) ++ [final] := by simpa using split
      obtain ⟨shorter, same⟩ := List.append_inj' ends rfl
      have same : label = final := by simpa using same
      refine ⟨rest, by simp [same], before, first, shorter, opens_first, ?_⟩
      exact fun later member => quiet later (by simp [member])
  · -- An epoch of the trace goes on over the new label, which opens none.
    rintro ⟨rest, rfl, before, first, rfl, opens_first, quiet⟩
    refine ⟨before, first, by simp, opens_first, ?_⟩
    intro later member
    rcases List.mem_append.mp member with earlier | at_end
    · exact quiet later earlier
    · rw [List.mem_singleton.mp at_end, other]

/-- The latest epoch is the one that has labels after it, if only none. -/
theorem latest_eq_some {trace : List ι} {epoch : δ} :
    latest opens trace = some epoch ↔ ∃ after, Opened opens trace epoch after := by
  induction trace using List.reverseRecOn with
  | nil => simp [not_opened_nil]
  | append_singleton trace last ih =>
    rw [latest_snoc]
    cases opened : opens last with
    | some new =>
      -- The last label opens an epoch itself, so nothing before it matters.
      simp only [Option.some_or, opened_snoc_open opened, Option.some.injEq]
      exact ⟨fun same => ⟨[], same.symm, rfl⟩, fun ⟨_, same, _⟩ => same.symm⟩
    | none =>
      simp only [Option.none_or, ih, opened_snoc_other opened]
      exact ⟨fun ⟨rest, before⟩ => ⟨_, rest, rfl, before⟩, fun ⟨_, rest, _, before⟩ => ⟨rest, before⟩⟩

/-- The empty trace has hit nothing. -/
theorem not_hitSince_nil : ¬ HitSince opens hits [] := by
  rintro ⟨epoch, after, opened, -⟩
  exact not_opened_nil opened

/-- An opening label starts an epoch that nothing has hit. -/
theorem not_hitSince_open {trace : List ι} {label : ι} {new : δ} (opened : opens label = some new) :
    ¬ HitSince opens hits (trace ++ [label]) := by
  rintro ⟨epoch, after, split, later, member, -⟩
  obtain ⟨-, rfl⟩ := (opened_snoc_open opened).mp split
  cases member

/-- Any other label adds only the hit it makes itself. -/
theorem hitSince_other {trace : List ι} {label : ι} (other : opens label = none) :
    HitSince opens hits (trace ++ [label]) ↔
      HitSince opens hits trace ∨ ∃ epoch, latest opens trace = some epoch ∧ hits epoch label := by
  constructor
  · rintro ⟨epoch, after, split, later, member, hit⟩
    obtain ⟨rest, rfl, opened⟩ := (opened_snoc_other other).mp split
    -- The hit is either the last label or one that was there before.
    rcases List.mem_append.mp member with earlier | at_end
    · exact .inl ⟨epoch, rest, opened, later, earlier, hit⟩
    · rw [List.mem_singleton.mp at_end] at hit
      exact .inr ⟨epoch, latest_eq_some.mpr ⟨rest, opened⟩, hit⟩
  · rintro (⟨epoch, after, opened, later, member, hit⟩ | ⟨epoch, opened, hit⟩)
    · exact ⟨epoch, after ++ [label], (opened_snoc_other other).mpr ⟨after, rfl, opened⟩, later,
        by simp [member], hit⟩
    · obtain ⟨rest, opened⟩ := latest_eq_some.mp opened
      exact ⟨epoch, rest ++ [label], (opened_snoc_other other).mpr ⟨rest, rfl, opened⟩, label,
        by simp, hit⟩

end Trace
