import Mathlib.Data.Finset.Card
import Mathlib.Order.Interval.Finset.Nat
import Benos.Mm.MappingSpec

/-! The tables that a range of pages lacks, and the pages that a mapping takes for them. -/

namespace Benos

open Sv39

variable {σ : Type}

/-- The paths to the tables that the walks of a range of pages pass through. -/
def tablePaths (lo hi : Nat) : Finset (List Index) :=
  (Finset.Ico lo hi).biUnion fun n => {[slot (n / 2 ^ 18)], [slot (n / 2 ^ 18), slot (n / 2 ^ 9)]}

/-- Those of some paths that lead nowhere yet. -/
def lacking (mem : Memory) (root : Ppn) (paths : Finset (List Index)) : Finset (List Index) :=
  paths.filter fun P => Radix.descend child (tables mem) root P = none

/-- The pages that are still to be handed out. -/
def Unused (pages : σ → List U64) (s : Mm σ) (page : Ppn) : Prop := frameAddr page ∈ pages s.pool

/-- An access to a table that the root leads to. -/
def InTree (mem : Memory) (root : Ppn) (access : Access) : Prop :=
  ∃ P page index, P.length ≤ 2 ∧ Radix.descend child (tables mem) root P = some page ∧
    access.table = frameAddr page ∧ access.entry = entryAddr page index

/-- A supply with what its successes keep, and with what its failures leave behind for good. -/
structure Provision (alloc : AllocPgtable σ) (pages : σ → List U64) (Fine Failed : σ → Prop) : Prop
    extends Supplies alloc pages where
  fine : ∀ mem pool, pages pool ≠ [] → Fine pool → Fine (alloc mem pool).2.2
  fails : ∀ mem pool, pages pool = [] → Failed (alloc mem pool).2.2
  sticky : ∀ mem pool, Failed pool → Failed (alloc mem pool).2.2

/-- A part of the builder that found every table it needed, or a page for it. -/
structure Traced (pages : σ → List U64) (Fine : σ → Prop) (root : Ppn) (lo hi : Nat)
    (pte : Nat → U64) (paths : Finset (List Index)) (s s' : Mm σ) : Prop
    extends Extends pages root lo hi pte (lacking s.mem root paths).card s s' where
  short : ∀ P ∈ paths, P.length ≤ 2
  enough : (lacking s.mem root paths).card ≤ (pages s.pool).length
  /-- One page was taken for each table that was lacking. -/
  taken : pages s'.pool = (pages s.pool).drop (lacking s.mem root paths).card
  reached : ∀ P ∈ paths, ∃ page, Radix.descend child (tables s'.mem) root P = some page
  /-- A table that was not there before is one of these, on a page of the supply. -/
  made : ∀ P page, P.length ≤ 2 → Radix.descend child (tables s'.mem) root P = some page →
    Radix.descend child (tables s.mem) root P = some page ∨ P ∈ paths ∧ Unused pages s page
  visited : ∀ access ∈ s'.touched, access ∈ s.touched ∨ InTree s'.mem root access
  spares : Radix.Spares child (tables s.mem) (tables s'.mem) root 2 (Unused pages s)
  fine : Fine s.pool → Fine s'.pool

/-- The tables that are needed are found or made, or the supply runs out and fails. -/
def Outcome (pages : σ → List U64) (Fine Failed : σ → Prop) (root : Ppn) (lo hi : Nat)
    (pte : Nat → U64) (paths : Finset (List Index)) (s s' : Mm σ) : Prop :=
  Traced pages Fine root lo hi pte paths s s' ∨
    (pages s.pool).length < (lacking s.mem root paths).card ∧ Failed s'.pool

/-- A supply without a record of its failures. -/
theorem Supplies.provision {alloc : AllocPgtable σ} {pages : σ → List U64}
    (supplies : Supplies alloc pages) : Provision alloc pages (fun _ => True) fun _ => True :=
  { supplies with
    fine := fun _ _ _ _ => trivial
    fails := fun _ _ _ => trivial
    sticky := fun _ _ _ => trivial }

/-! ### Paths -/

/-- A path of a range belongs to one of its pages. -/
theorem mem_tablePaths {lo hi : Nat} {P : List Index} :
    P ∈ tablePaths lo hi ↔ ∃ n, lo ≤ n ∧ n < hi ∧
      (P = [slot (n / 2 ^ 18)] ∨ P = [slot (n / 2 ^ 18), slot (n / 2 ^ 9)]) := by
  simp only [tablePaths, Finset.mem_biUnion, Finset.mem_Ico, Finset.mem_insert,
    Finset.mem_singleton, and_assoc]

/-- Paths to tables have one index or two. -/
theorem tablePaths_short {lo hi : Nat} {P : List Index} (member : P ∈ tablePaths lo hi) :
    P.length ≤ 2 := by
  obtain ⟨n, -, -, rfl | rfl⟩ := mem_tablePaths.mp member
  · exact Nat.le_succ 1
  · exact Nat.le_refl 2

/-- An empty range needs no table. -/
theorem tablePaths_self (lo : Nat) : tablePaths lo lo = ∅ := by
  rw [tablePaths, Finset.Ico_self, Finset.biUnion_empty]

/-- The tables of a range are those of its two parts. -/
theorem tablePaths_union {lo mid hi : Nat} (lower : lo ≤ mid) (upper : mid ≤ hi) :
    tablePaths lo mid ∪ tablePaths mid hi = tablePaths lo hi := by
  rw [tablePaths, tablePaths, ← Finset.union_biUnion, Finset.Ico_union_Ico_eq_Ico lower upper,
    tablePaths]

/-- A path that is lacking is among the given ones and leads nowhere. -/
theorem mem_lacking {mem : Memory} {root : Ppn} {paths : Finset (List Index)} {P : List Index} :
    P ∈ lacking mem root paths ↔
      P ∈ paths ∧ Radix.descend child (tables mem) root P = none := Finset.mem_filter

/-- More paths lack at least as many tables. -/
theorem lacking_mono (mem : Memory) (root : Ppn) {paths more : Finset (List Index)}
    (less : paths ⊆ more) : (lacking mem root paths).card ≤ (lacking mem root more).card :=
  Finset.card_le_card (Finset.filter_subset_filter _ less)

/-- Paths that are there make no difference. -/
theorem lacking_enlarge {mem : Memory} {root : Ppn} {paths more : Finset (List Index)}
    (less : paths ⊆ more)
    (present : ∀ P ∈ more, P ∉ paths →
      ∃ page, Radix.descend child (tables mem) root P = some page) :
    lacking mem root more = lacking mem root paths := by
  ext P
  rw [mem_lacking, mem_lacking]
  constructor
  · rintro ⟨member, nowhere⟩
    refine ⟨?_, nowhere⟩
    -- A path that is not among the given ones leads somewhere.
    by_contra outside
    obtain ⟨page, located⟩ := present P member outside
    rw [located] at nowhere
    cases nowhere
  · rintro ⟨member, nowhere⟩
    exact ⟨less member, nowhere⟩

/-! ### Laws -/

/-- What a part of the builder leaves in the supply was in the supply. -/
theorem Extends.unused {pages : σ → List U64} {root : Ppn} {lo hi spent : Nat} {pte : Nat → U64}
    {s s' : Mm σ} (part : Extends pages root lo hi pte spent s s') (page : Ppn)
    (left : Unused pages s' page) : Unused pages s page := by
  obtain ⟨k, -, rest⟩ := part.supply
  rw [Unused, rest] at left
  exact List.mem_of_mem_drop left

namespace Traced

variable {pages : σ → List U64} {Fine : σ → Prop} {root : Ppn} {lo mid hi : Nat} {pte : Nat → U64}
  {paths more : Finset (List Index)} {s s' s'' : Mm σ}

/-- An access to a table is one to the same table after a part of the builder. -/
theorem inTree (part : Traced pages Fine root lo hi pte paths s s') {access : Access}
    (before : InTree s.mem root access) : InTree s'.mem root access := by
  obtain ⟨P, page, index, short, located, table, entry⟩ := before
  exact ⟨P, page, index, short, part.keeps P page short located, table, entry⟩

/-- The tables a second part lacks are those that the first one did not make. -/
theorem lacking_union (part : Traced pages Fine root lo hi pte paths s s')
    (short : ∀ P ∈ more, P.length ≤ 2) :
    (lacking s.mem root (paths ∪ more)).card =
      (lacking s.mem root paths).card + (lacking s'.mem root more).card := by
  have split : lacking s.mem root (paths ∪ more) =
      lacking s.mem root paths ∪ lacking s'.mem root more := by
    ext P
    simp only [Finset.mem_union, mem_lacking]
    constructor
    · rintro ⟨member, nowhere⟩
      by_cases first : P ∈ paths
      · exact Or.inl ⟨first, nowhere⟩
      · have later := member.resolve_left first
        refine Or.inr ⟨later, ?_⟩
        -- The first part makes no other tables than its own.
        cases located : Radix.descend child (tables s'.mem) root P with
        | none => rfl
        | some page =>
          rcases part.made P page (short P later) located with before | ⟨own, -⟩
          · rw [before] at nowhere
            cases nowhere
          · exact absurd own first
    · rintro (⟨first, nowhere⟩ | ⟨later, nowhere⟩)
      · exact ⟨Or.inl first, nowhere⟩
      · refine ⟨Or.inr later, ?_⟩
        cases located : Radix.descend child (tables s.mem) root P with
        | none => rfl
        | some page =>
          rw [part.keeps P page (short P later) located] at nowhere
          cases nowhere
  have apart : Disjoint (lacking s.mem root paths) (lacking s'.mem root more) := by
    refine Finset.disjoint_left.mpr fun P first later => ?_
    -- What the first part needed is there when it is done.
    obtain ⟨page, located⟩ := part.reached P (mem_lacking.mp first).1
    have nowhere := (mem_lacking.mp later).2
    rw [located] at nowhere
    cases nowhere
  rw [split, Finset.card_union_of_disjoint apart]

/-- Two parts that map adjacent ranges of one window. -/
theorem trans (first : Traced pages Fine root lo mid pte paths s s')
    (second : Traced pages Fine root mid hi pte more s' s'') (lower : lo ≤ mid) (upper : mid ≤ hi)
    (window : hi ≤ lo + 2 ^ 27) : Traced pages Fine root lo hi pte (paths ∪ more) s s'' := by
  -- The second part lacks what the first one did not make.
  have count := first.lacking_union second.short
  have left := second.enough
  rw [first.taken, List.length_drop] at left
  have total := first.enough
  refine ⟨?_, ?_, ?_, ?_, ?_, ?_, ?_, ?_, fun before => second.fine (first.fine before)⟩
  · rw [count]
    exact first.toExtends.trans second.toExtends lower upper window
  · intro P member
    rcases Finset.mem_union.mp member with early | late
    · exact first.short P early
    · exact second.short P late
  · omega
  · rw [second.taken, first.taken, List.drop_drop, count]
  · intro P member
    rcases Finset.mem_union.mp member with early | late
    · obtain ⟨page, located⟩ := first.reached P early
      exact ⟨page, second.keeps P page (first.short P early) located⟩
    · exact second.reached P late
  · -- A new table was made by one of the parts, from what was in the supply at first.
    intro P page within located
    rcases second.made P page within located with middle | ⟨late, fresh⟩
    · rcases first.made P page within middle with before | ⟨early, fresh⟩
      · exact Or.inl before
      · exact Or.inr ⟨Finset.mem_union_left _ early, fresh⟩
    · exact Or.inr ⟨Finset.mem_union_right _ late, first.toExtends.unused page fresh⟩
  · -- What the first part touched is in the tree after the second.
    intro access member
    rcases second.visited access member with middle | inside
    · exact (first.visited access middle).imp id second.inTree
    · exact Or.inr inside
  · exact first.spares.trans second.spares first.toExtends.unused

/-- Tables that were there before may be counted as needed. -/
theorem enlarge (part : Traced pages Fine root lo hi pte paths s s') (less : paths ⊆ more)
    (short : ∀ P ∈ more, P.length ≤ 2)
    (present : ∀ P ∈ more, P ∉ paths →
      ∃ page, Radix.descend child (tables s.mem) root P = some page) :
    Traced pages Fine root lo hi pte more s s' := by
  -- A path that is there adds nothing to what is lacking.
  have count : (lacking s.mem root more).card = (lacking s.mem root paths).card := by
    rw [lacking_enlarge less present]
  refine ⟨by rw [count]; exact part.toExtends, short, by rw [count]; exact part.enough,
    by rw [count]; exact part.taken, ?_, ?_, part.visited, part.spares, part.fine⟩
  · intro P member
    by_cases own : P ∈ paths
    · exact part.reached P own
    · obtain ⟨page, located⟩ := present P member own
      exact ⟨page, part.keeps P page (short P member) located⟩
  · intro P page within located
    exact (part.made P page within located).imp id fun ⟨own, fresh⟩ => ⟨less own, fresh⟩

/-- Only the entries of the range matter. -/
theorem entries (part : Traced pages Fine root lo hi pte paths s s') {other : Nat → U64}
    (agree : ∀ n, lo ≤ n → n < hi → pte n = other n) :
    Traced pages Fine root lo hi other paths s s' :=
  { part with toExtends := part.toExtends.entries agree }

/-- Reading an entry of a table of the tree. -/
theorem touch (sound : Sound pages root s) {P : List Index} {page : Ppn} {index : Index}
    (within : P.length ≤ 2) (located : Radix.descend child (tables s.mem) root P = some page) :
    Traced pages Fine root lo lo pte ∅ s (s.touch (frameAddr page) (entryAddr page index)) := by
  refine ⟨(Extends.touch sound).weaken (Nat.zero_le _), by simp, Nat.zero_le _, rfl, by simp,
    fun _ _ _ => Or.inl, ?_, Radix.Spares.refl, id⟩
  -- The only new access is the one to the given table.
  intro access member
  rcases List.mem_cons.mp member with rfl | older
  · exact Or.inr ⟨P, page, index, within, located, rfl, rfl⟩
  · exact Or.inl older

/-- Doing nothing is a part that maps nothing. -/
theorem refl (sound : Sound pages root s) : Traced pages Fine root lo lo pte ∅ s s := by
  refine ⟨⟨sound, fun _ _ _ => id, fun n above below => by omega, fun n _ => Radix.Kept.refl 0 _,
    ⟨0, Nat.zero_le _, rfl⟩, fun _ => Or.inl⟩, by simp, Nat.zero_le _, rfl, by simp,
    fun _ _ _ => Or.inl, fun _ => Or.inl, Radix.Spares.refl, id⟩

/-- Writing an entry of the last level needs no table that is not there. -/
theorem setPte (sound : Sound pages root s) {n : Nat} {page : Ppn}
    (located : Radix.descend child (tables s.mem) root [slot (n / 2 ^ 18), slot (n / 2 ^ 9)] =
      some page) :
    Traced pages Fine root n (n + 1) pte ∅ s
      (s.store (frameAddr page) (entryAddr page (slot n)) (pte n)) := by
  have short : [slot (n / 2 ^ 18), slot (n / 2 ^ 9)].length ≤ 2 := Nat.le_refl 2
  have written : Extends pages root n (n + 1) pte 0 s _ := Extends.setPte sound located
  have stored : tables (s.store (frameAddr page) (entryAddr page (slot n)) (pte n)).mem =
      Radix.set (tables s.mem) page (slot n) (pte n) := tables_update _ _ _ _
  refine ⟨written.weaken (Nat.zero_le _), by simp, Nat.zero_le _, rfl, by simp, ?_, ?_, ?_, id⟩
  · intro Q at_ within reached
    -- An entry of the last level leads nowhere, so no path is new.
    rw [stored, Radix.descend_set_leaf sound.unshared rfl located within] at reached
    exact Or.inl reached
  · intro access member
    rcases List.mem_cons.mp member with rfl | older
    · exact Or.inr ⟨_, page, slot n, short, written.keeps _ page short located, rfl, rfl⟩
    · exact Or.inl older
  · rw [stored]
    exact Radix.spares_set_leaf sound.unshared rfl located

/-- An empty entry of a directory gets a table, whose path was lacking. -/
theorem allocTable {alloc : AllocPgtable σ} {Failed : σ → Prop}
    (provision : Provision alloc pages Fine Failed) (sound : Sound pages root s) {P : List Index}
    {page : Ppn} {index : Index} (within : P.length < 2)
    (located : Radix.descend child (tables s.mem) root P = some page)
    (empty : s.mem (entryAddr page index) = 0) (available : 1 ≤ (pages s.pool).length) :
    Traced pages Fine root lo lo pte {P ++ [index]} s
      (s.allocTable alloc (frameAddr page) (entryAddr page index)) := by
  obtain ⟨fresh, rest, supply, pool, linked, linkable⟩ :=
    Extends.allocTable_link provision.toSupplies sound within located empty available
  obtain ⟨made, table, leads⟩ : Extends pages root lo lo pte 1 s _ ∧ _ :=
    Extends.allocTable provision.toSupplies sound within located empty available
  -- The path through the empty entry led nowhere, so one table was lacking.
  have nowhere : Radix.descend child (tables s.mem) root (P ++ [index]) = none := by
    rw [Radix.descend_concat, located, Option.bind_some, tables, empty, child_zero]
  have one : (lacking s.mem root {P ++ [index]}).card = 1 := by
    rw [lacking, Finset.filter_true_of_mem fun Q member => by
      rw [Finset.mem_singleton.mp member, nowhere], Finset.card_singleton]
  have unused : Unused pages s fresh := by
    rw [Unused, supply]
    exact List.mem_cons_self
  refine ⟨one ▸ made, ?_, one ▸ available, ?_, ?_, ?_, ?_, ?_, ?_⟩
  · intro Q member
    rw [Finset.mem_singleton.mp member, List.length_append, List.length_singleton]
    exact within
  · rw [pool, one, supply]
    rfl
  · intro Q member
    rw [Finset.mem_singleton.mp member]
    exact ⟨table, leads⟩
  · -- A path that is new goes through the entry, to the page that was taken.
    intro Q at_ shortQ reached
    rw [linked] at reached
    rcases linkable.descend_cases shortQ reached with before | ⟨rfl, rfl⟩
    · exact Or.inl before
    · exact Or.inr ⟨Finset.mem_singleton_self _, unused⟩
  · intro access member
    rcases List.mem_cons.mp member with rfl | older
    · have kept := made.keeps P page (Nat.le_of_lt within) located
      exact Or.inr ⟨P, page, index, Nat.le_of_lt within, kept, rfl, rfl⟩
    · exact Or.inl older
  · rw [linked]
    exact linkable.spares unused
  · -- The supply was not empty, so this was no failure.
    refine provision.fine s.mem s.pool ?_
    rw [supply]
    exact List.cons_ne_nil _ _

/-- After a part that found its tables, the outcome of the next one is that of both. -/
theorem andThen {Failed : σ → Prop} (first : Traced pages Fine root lo mid pte paths s s')
    (second : Outcome pages Fine Failed root mid hi pte more s' s'') (lower : lo ≤ mid)
    (upper : mid ≤ hi) (window : hi ≤ lo + 2 ^ 27) (short : ∀ P ∈ more, P.length ≤ 2) :
    Outcome pages Fine Failed root lo hi pte (paths ∪ more) s s'' := by
  rcases second with traced | ⟨few, failed⟩
  · exact Or.inl (first.trans traced lower upper window)
  · refine Or.inr ⟨?_, failed⟩
    -- What the first part took is missing from the supply of the second.
    rw [first.taken, List.length_drop] at few
    have total := first.enough
    rw [first.lacking_union short]
    omega

end Traced

/-- Once the supply has run out, it has run out for the whole range. -/
theorem outcome_of_failed {pages : σ → List U64} {Fine Failed : σ → Prop} {root : Ppn}
    {lo hi : Nat} {pte : Nat → U64} {paths more : Finset (List Index)} {s s' : Mm σ}
    (few : (pages s.pool).length < (lacking s.mem root paths).card) (less : paths ⊆ more)
    (failed : Failed s'.pool) : Outcome pages Fine Failed root lo hi pte more s s' :=
  Or.inr ⟨Nat.lt_of_lt_of_le few (lacking_mono s.mem root less), failed⟩

end Benos
