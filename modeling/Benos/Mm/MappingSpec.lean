import Benos.Mm.Sv39Laws

/-! What one mapping may change: the pages of its range, and nothing any other walk can see. -/

namespace Benos

open Sv39

variable {σ : Type}

/-- The function behind `alloc_pgtable` hands out a list of pages in order, each one cleared. -/
structure Supplies (alloc : AllocPgtable σ) (pages : σ → List U64) : Prop where
  next : ∀ mem pool p rest, pages pool = p :: rest →
    (alloc mem pool).1 = p ∧ (alloc mem pool).2.1 = clearPage mem p ∧
      pages (alloc mem pool).2.2 = rest

/-- The walk for a page number, whose indices repeat every 512 GiB. -/
def pageWalk (mem : Memory) (root : Ppn) (n : Nat) : Nat × U64 :=
  Radix.walk child (tables mem) root (slot (n / 2 ^ 18)) [slot (n / 2 ^ 9), slot n]

/-- The hardware walk of an address is the walk for its page number. -/
theorem walk_eq_pageWalk (mem : Memory) (root : Ppn) (va : U64) :
    walk mem root va = pageWalk mem root (va.toNat / 4096) := by
  rw [walk, pageWalk, vpn_eq, vpn_eq, vpn_eq, Nat.div_div_eq_div_mul, Nat.div_div_eq_div_mul]
  rfl

/-- A walk that cannot follow a directory entry ends at it. -/
theorem pageWalk_blocked {mem : Memory} {root page : Ppn} {n : Nat} {P : List Index}
    {index next : Index} {more : List Index}
    (path : [slot (n / 2 ^ 18), slot (n / 2 ^ 9), slot n] = P ++ index :: next :: more)
    (located : Radix.descend child (tables mem) root P = some page)
    (blocked : child (mem (entryAddr page index)) = none) :
    pageWalk mem root n = (more.length + 1, mem (entryAddr page index)) := by
  have here : child (tables mem page index) = none := blocked
  rw [pageWalk, Radix.walk_of_descend index (next :: more) path located, Radix.walk, here]
  rfl

/-- The table pages form a tree, and the pages still to be handed out lie outside it. -/
structure Sound (pages : σ → List U64) (root : Ppn) (s : Mm σ) : Prop where
  unshared : Radix.Unshared child (tables s.mem) root 2
  distinct : (pages s.pool).Nodup
  fresh : ∀ p ∈ pages s.pool, ∃ page, p = frameAddr page ∧
    Radix.Unreached child (tables s.mem) root 2 page

/-- An access that stays inside the 512 entries of its table. -/
def InTable (access : Access) : Prop :=
  ∃ page index, access.table = frameAddr page ∧ access.entry = entryAddr page index

/-- What a part of the builder does to the walks: it maps a range of pages and keeps the rest. -/
structure Extends (pages : σ → List U64) (root : Ppn) (lo hi : Nat) (pte : Nat → U64)
    (spent : Nat) (s s' : Mm σ) : Prop where
  sound : Sound pages root s'
  /-- Every table page is still reached along its path. -/
  keeps : ∀ P page, P.length ≤ 2 → Radix.descend child (tables s.mem) root P = some page →
    Radix.descend child (tables s'.mem) root P = some page
  /-- Pages of the range end at their new entry in the last level. -/
  mapped : ∀ n, lo ≤ n → n < hi → pageWalk s'.mem root n = (0, pte n)
  /-- Pages outside the range end where they ended, or at another empty entry. -/
  others : ∀ n, (∀ m, lo ≤ m → m < hi → n % 2 ^ 27 ≠ m % 2 ^ 27) →
    Radix.Kept 0 (pageWalk s.mem root n) (pageWalk s'.mem root n)
  /-- At most `spent` pages were taken from the supply. -/
  supply : ∃ k ≤ spent, pages s'.pool = (pages s.pool).drop k
  touched : ∀ access ∈ s'.touched, access ∈ s.touched ∨ InTable access

namespace Extends

variable {pages : σ → List U64} {root : Ppn} {lo mid hi spent more : Nat} {pte : Nat → U64}
  {s s' s'' : Mm σ}

/-- Two parts that map adjacent ranges of one window together map the joined range. -/
theorem trans (first : Extends pages root lo mid pte spent s s')
    (second : Extends pages root mid hi pte more s' s'') (lower : lo ≤ mid) (upper : mid ≤ hi)
    (window : hi ≤ lo + 2 ^ 27) : Extends pages root lo hi pte (spent + more) s s'' := by
  refine ⟨second.sound, ?_, ?_, ?_, ?_, ?_⟩
  · intro P page short located
    exact second.keeps P page short (first.keeps P page short located)
  · intro n above below
    rcases Nat.lt_or_ge n mid with early | late
    · -- The second part lies elsewhere in the window, and a last-level entry cannot move.
      have kept := second.others n fun m _ _ => by omega
      rw [first.mapped n above early] at kept
      rcases kept with same | ⟨positive, _⟩
      · exact same
      · exact absurd positive (Nat.lt_irrefl 0)
    · exact second.mapped n late below
  · -- A page outside of both parts is kept by each.
    intro n outside
    exact (first.others n fun m above below => outside m above (by omega)).trans
      (second.others n fun m above below => outside m (by omega) below)
  · obtain ⟨j, boundJ, restJ⟩ := first.supply
    obtain ⟨k, boundK, restK⟩ := second.supply
    exact ⟨j + k, by omega, by rw [restK, restJ, List.drop_drop]⟩
  · intro access member
    rcases second.touched access member with middle | inside
    · exact first.touched access middle
    · exact Or.inr inside

/-- A larger allowance for table pages is still an allowance. -/
theorem weaken (part : Extends pages root lo hi pte spent s s') (allowed : spent ≤ more) :
    Extends pages root lo hi pte more s s' := by
  obtain ⟨k, bound, rest⟩ := part.supply
  exact { part with supply := ⟨k, by omega, rest⟩ }

/-- Only the entries of the range matter. -/
theorem entries (part : Extends pages root lo hi pte spent s s') {other : Nat → U64}
    (agree : ∀ n, lo ≤ n → n < hi → pte n = other n) :
    Extends pages root lo hi other spent s s' :=
  { part with
    mapped := fun n above below => agree n above below ▸ part.mapped n above below }

/-- An empty range may be placed anywhere. -/
theorem move (part : Extends pages root lo lo pte spent s s') (at_ : Nat) :
    Extends pages root at_ at_ pte spent s s' :=
  { part with
    mapped := fun _ above below => absurd (Nat.lt_of_le_of_lt above below) (Nat.lt_irrefl at_)
    others := fun n _ => part.others n fun _ above below =>
      absurd (Nat.lt_of_le_of_lt above below) (Nat.lt_irrefl lo) }

/-- Reading an entry changes nothing but the record of accesses. -/
theorem touch (sound : Sound pages root s) {page : Ppn} {index : Index} :
    Extends pages root lo lo pte 0 s (s.touch (frameAddr page) (entryAddr page index)) := by
  refine ⟨⟨sound.unshared, sound.distinct, sound.fresh⟩, fun _ _ _ located => located,
    fun n above below => absurd (Nat.lt_of_le_of_lt above below) (Nat.lt_irrefl lo),
    fun n _ => Radix.Kept.refl 0 _, ⟨0, Nat.le_refl 0, rfl⟩, ?_⟩
  -- An access is noted, and the tables are as they were.
  intro access member
  rcases List.mem_cons.mp member with rfl | older
  · exact Or.inr ⟨page, index, rfl, rfl⟩
  · exact Or.inl older

/-- In terms of tables, an empty entry that gets a table is one link to a page of the supply. -/
theorem allocTable_link {alloc : AllocPgtable σ} (supplies : Supplies alloc pages)
    (sound : Sound pages root s) {P : List Index} {page : Ppn} {index : Index}
    (short : P.length < 2) (located : Radix.descend child (tables s.mem) root P = some page)
    (empty : s.mem (entryAddr page index) = 0) (available : 1 ≤ (pages s.pool).length) :
    ∃ fresh rest, pages s.pool = frameAddr fresh :: rest ∧
      pages (s.allocTable alloc (frameAddr page) (entryAddr page index)).pool = rest ∧
      tables (s.allocTable alloc (frameAddr page) (entryAddr page index)).mem =
        Radix.link (tables s.mem) page index fresh 0
          (pfnEntry (pfnDown (frameAddr fresh)) pageTable) ∧
      Radix.Linkable child (tables s.mem) root 2 P page index fresh 0
        (pfnEntry (pfnDown (frameAddr fresh)) pageTable) := by
  obtain ⟨p, rest, supply⟩ : ∃ p rest, pages s.pool = p :: rest :=
    List.exists_cons_of_length_pos available
  -- The page that is handed out is cleared and has no path to it.
  obtain ⟨returned, cleared, remaining⟩ := supplies.next s.mem s.pool p rest supply
  obtain ⟨fresh, frame, unreached⟩ := sound.fresh p (by simp [supply])
  have linked : tables (s.allocTable alloc (frameAddr page) (entryAddr page index)).mem =
      Radix.link (tables s.mem) page index fresh 0
        (pfnEntry (pfnDown (frameAddr fresh)) pageTable) := by
    simp only [Mm.allocTable, Mm.store, tables_update, returned, cleared, frame,
      tables_clearPage, Radix.link]
  exact ⟨fresh, rest, frame ▸ supply, remaining, linked,
    ⟨sound.unshared, short, located, empty, unreached, child_zero, child_pfnEntry fresh⟩⟩

/-- An empty entry of a directory gets a fresh table, which no walk can tell from before. -/
theorem allocTable {alloc : AllocPgtable σ} (supplies : Supplies alloc pages)
    (sound : Sound pages root s) {P : List Index} {page : Ppn} {index : Index}
    (short : P.length < 2) (located : Radix.descend child (tables s.mem) root P = some page)
    (empty : s.mem (entryAddr page index) = 0) (available : 1 ≤ (pages s.pool).length) :
    Extends pages root lo lo pte 1 s
      (s.allocTable alloc (frameAddr page) (entryAddr page index)) ∧
    ∃ table, Radix.descend child
      (tables (s.allocTable alloc (frameAddr page) (entryAddr page index)).mem) root
      (P ++ [index]) = some table := by
  obtain ⟨fresh, rest, supply, pool, linked, linkable⟩ :=
    allocTable_link supplies sound short located empty available
  -- The supply holds the new table no longer.
  have unused := (List.nodup_cons.mp (supply ▸ sound.distinct)).1
  -- What linking an empty table keeps is said by the library, field by field.
  refine ⟨⟨⟨?_, ?_, ?_⟩, ?_, ?_, ?_, ⟨1, Nat.le_refl 1, ?_⟩, ?_⟩, fresh, ?_⟩
  · rw [linked]
    exact linkable.unshared_link
  · rw [pool]
    exact (List.nodup_cons.mp (supply ▸ sound.distinct)).2
  · -- A page that is still in the supply is another one than the new table.
    intro q member
    rw [pool] at member
    obtain ⟨other, same, outside⟩ := sound.fresh q (by simp [supply, member])
    refine ⟨other, same, ?_⟩
    rw [linked]
    refine linkable.unreached_link outside fun equal => unused ?_
    rw [← equal, ← same]
    exact member
  · intro Q at_ within reached
    rw [linked]
    exact linkable.descend_keeps within reached
  · -- No page of the window is mapped yet.
    intro n above below
    omega
  · intro n _
    rw [pageWalk, pageWalk, linked]
    exact linkable.walk_kept rfl
  · rw [pool, supply]
    rfl
  · -- The one entry that is touched is one of the tree.
    intro access member
    rcases List.mem_cons.mp member with rfl | older
    · exact Or.inr ⟨page, index, rfl, rfl⟩
    · exact Or.inl older
  · rw [linked]
    exact linkable.descend_self

/-- Writing an entry of the last level maps exactly one page of the window. -/
theorem setPte (sound : Sound pages root s) {n : Nat} {page : Ppn}
    (located : Radix.descend child (tables s.mem) root [slot (n / 2 ^ 18), slot (n / 2 ^ 9)] =
      some page) :
    Extends pages root n (n + 1) pte 0 s
      (s.store (frameAddr page) (entryAddr page (slot n)) (pte n)) := by
  have written : tables (s.store (frameAddr page) (entryAddr page (slot n)) (pte n)).mem =
      Radix.set (tables s.mem) page (slot n) (pte n) := tables_update _ _ _ _
  -- An entry of the last level leads nowhere, so no path changes.
  have descends : ∀ Q : List Index, Q.length ≤ 2 →
      Radix.descend child (Radix.set (tables s.mem) page (slot n) (pte n)) root Q =
        Radix.descend child (tables s.mem) root Q :=
    fun Q within => Radix.descend_set_leaf sound.unshared rfl located within
  refine ⟨⟨?_, sound.distinct, ?_⟩, ?_, ?_, ?_, ⟨0, Nat.le_refl 0, rfl⟩, ?_⟩
  · rw [written]
    exact Radix.unshared_set_leaf sound.unshared rfl located
  · intro p member
    obtain ⟨other, same, outside⟩ := sound.fresh p member
    refine ⟨other, same, fun Q within => ?_⟩
    rw [written, descends Q within]
    exact outside Q within
  · intro Q at_ within reached
    rw [written, descends Q within]
    exact reached
  · -- The window is the one page.
    intro m above below
    have same : m = n := by omega
    subst same
    rw [pageWalk, written]
    have short : [slot (m / 2 ^ 18), slot (m / 2 ^ 9)].length ≤ 2 := Nat.le_refl 2
    exact Radix.walk_set_leaf sound.unshared short located rfl
  · intro m outside
    -- A different page of the window differs in one of its three indices.
    have other := outside n (Nat.le_refl n) (Nat.lt_succ_self n)
    refine Or.inl ?_
    rw [pageWalk, pageWalk, written]
    have short : [slot (n / 2 ^ 18), slot (n / 2 ^ 9)].length ≤ 2 := Nat.le_refl 2
    refine Radix.walk_set sound.unshared short located (Nat.le_refl 2) ?_
    rintro ⟨tail, path⟩
    simp only [List.cons_append, List.nil_append, List.cons.injEq, slot_eq_iff] at path
    omega
  · intro access member
    rcases List.mem_cons.mp member with rfl | older
    · exact Or.inr ⟨page, slot n, rfl, rfl⟩
    · exact Or.inl older

end Extends

end Benos
