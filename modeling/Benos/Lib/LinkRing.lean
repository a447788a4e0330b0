import Mathlib.Data.List.Chain
import Mathlib.Data.List.Nodup
import Mathlib.Logic.Function.Basic

/-!
Circular doubly linked lists threaded through two link functions.

A ring is a head and its members in forward order. Consecutive nodes, the head closing the circle,
are linked both ways, and no node occurs twice.
-/

namespace LinkRing

variable {Node : Type*}

/-- Neighbours, seen from both sides. -/
def Linked (next prev : Node → Node) (x y : Node) : Prop := next x = y ∧ prev y = x

/-- Following one link from the head passes the given nodes and comes back to the head. -/
def Reads (link : Node → Node) (head : Node) (members : List Node) : Prop :=
  List.IsChain (fun x y => link x = y) (head :: (members ++ [head]))

end LinkRing

/-- A circular doubly linked list. -/
structure LinkRing {Node : Type*} (next prev : Node → Node) (head : Node) (members : List Node) :
    Prop where
  nodup : (head :: members).Nodup
  links : List.IsChain (LinkRing.Linked next prev) (head :: (members ++ [head]))

namespace LinkRing

variable {Node : Type*} {next prev next' prev' : Node → Node} {head : Node}
  {members front back : List Node}

/-- Links depend on the forward link of all nodes but the last, and on the other one of the rest. -/
theorem links_congr {nodes : List Node} (links : List.IsChain (Linked next prev) nodes)
    (forward : ∀ x ∈ nodes.dropLast, next' x = next x)
    (backward : ∀ y ∈ nodes.tail, prev' y = prev y) :
    List.IsChain (Linked next' prev') nodes := by
  rw [List.isChain_iff_forall_rel_of_append_cons_cons] at links ⊢
  intro x y before after split
  -- In a link the first node is not the last of the chain, and the second not the first.
  obtain ⟨ahead, behind⟩ := links split
  have last : x ∈ nodes.dropLast := by
    rw [split, List.dropLast_append_of_ne_nil (by simp)]
    simp
  have first : y ∈ nodes.tail := by
    rw [split]
    cases before with
    | nil => simp
    | cons z before => simp
  exact ⟨(forward x last).trans ahead, (backward y first).trans behind⟩

/-- Links elsewhere do not matter. -/
theorem congr (ring : LinkRing next prev head members)
    (forward : ∀ x ∈ head :: members, next' x = next x)
    (backward : ∀ x ∈ head :: members, prev' x = prev x) : LinkRing next' prev' head members := by
  refine ⟨ring.nodup, links_congr ring.links ?_ ?_⟩
  · -- Closing the ring adds the head at its end, which has no forward link of its own.
    intro x member
    rw [← List.cons_append, List.dropLast_concat] at member
    exact forward x member
  · intro y member
    rw [List.tail_cons, List.mem_append, List.mem_singleton] at member
    exact backward y (List.mem_cons.mpr (member.symm))

/-- The forward links read the members in order. -/
theorem forward (ring : LinkRing next prev head members) : Reads next head members :=
  ring.links.imp fun _ _ linked => linked.1

/-- The backward links read the members in reverse order. -/
theorem backward (ring : LinkRing next prev head members) : Reads prev head members.reverse := by
  have reversed : head :: (members.reverse ++ [head]) = (head :: (members ++ [head])).reverse := by
    simp
  rw [Reads, reversed, List.isChain_reverse]
  exact ring.links.imp fun _ _ linked => linked.2

/-- A head linked to itself has no members. -/
theorem empty (ahead : next head = head) (behind : prev head = head) : LinkRing next prev head [] :=
  ⟨List.nodup_singleton head, List.isChain_pair.mpr ⟨ahead, behind⟩⟩

section Seam

variable {x z : Node} {pre post : List Node}

/-- At a seam of the circle no other node leads forward from its left side or back from its right. -/
theorem seam_apart (nodup : (head :: (front ++ back)).Nodup) (before : head :: front = pre ++ [x])
    (after : back ++ [head] = z :: post) :
    (∀ u ∈ pre, u ≠ x) ∧ (∀ v ∈ front, v ≠ z) ∧ (∀ u ∈ back, u ≠ x) ∧ ∀ v ∈ post, v ≠ z := by
  -- No node occurs twice in the ring, on either side of the seam or across it.
  have lower : (pre ++ [x]).Nodup := by
    rw [← before]
    exact nodup.sublist (List.Sublist.cons_cons head (List.sublist_append_left front back))
  have upper : (z :: post).Nodup := by
    rw [← after, List.nodup_append_comm, List.singleton_append]
    exact nodup.sublist (List.Sublist.cons_cons head (List.sublist_append_right front back))
  have apart : ∀ u ∈ head :: front, ∀ v ∈ back, u ≠ v := by
    rw [← List.cons_append] at nodup
    exact (List.nodup_append.mp nodup).2.2
  refine ⟨?_, ?_, ?_, ?_⟩
  · -- Before the seam a node is not the last one of its side.
    intro u ahead
    exact (List.nodup_append.mp lower).2.2 u ahead x (List.mem_singleton_self x)
  · rintro v ahead rfl
    -- The node behind the seam is the head or one of the nodes after it.
    have behind : v ∈ back ++ [head] := after ▸ List.mem_cons_self
    rcases List.mem_append.mp behind with later | closing
    · exact apart v (List.mem_cons_of_mem head ahead) v later rfl
    · rw [List.mem_singleton.mp closing] at ahead
      exact (List.nodup_cons.mp nodup).1 (List.mem_append_left back ahead)
  · intro u behind
    have member : x ∈ head :: front := by simp [before]
    exact (apart x member u behind).symm
  · rintro v behind rfl
    exact (List.nodup_cons.mp upper).1 behind

/-- The links of a circle fall apart at a seam. -/
theorem around_seam (before : head :: front = pre ++ [x]) (after : back ++ [head] = z :: post)
    (middle : List Node) :
    head :: ((front ++ (middle ++ back)) ++ [head]) = pre ++ x :: (middle ++ z :: post) := by
  rw [List.append_assoc, List.append_assoc, after, ← List.cons_append, before, List.append_assoc]
  rfl

end Seam

section Insert

variable [DecidableEq Node] {new x z : Node} {pre post : List Node}

/-- A new node linked in between two neighbours. -/
theorem insert (ring : LinkRing next prev head (front ++ back)) (before : head :: front = pre ++ [x])
    (after : back ++ [head] = z :: post) (fresh : new ∉ head :: (front ++ back)) :
    Linked next prev x z ∧
      LinkRing (Function.update (Function.update next new z) x new)
        (Function.update (Function.update prev z new) new x) head (front ++ new :: back) := by
  have links := ring.links
  rw [show front ++ back = front ++ ([] ++ back) from rfl, around_seam before after,
    List.nil_append, List.isChain_append_cons_cons] at links
  -- The ring is a chain up to `x`, the link to be cut, and a chain from `z` on.
  obtain ⟨lower, seam, upper⟩ := links
  obtain ⟨preX, frontZ, backX, postZ⟩ := seam_apart ring.nodup before after
  -- The new node is on neither side of the seam.
  have freshLower : new ∉ pre ++ [x] := before ▸ fun node => fresh (List.mem_append_left back node)
  have freshUpper : new ∉ z :: post := by
    rw [← after]
    intro node
    rcases List.mem_append.mp node with later | closing
    · exact fresh (List.mem_cons_of_mem head (List.mem_append_right front later))
    · exact fresh (List.mem_singleton.mp closing ▸ List.mem_cons_self)
  refine ⟨seam, ?_, ?_⟩
  · -- The new node is not among the old ones.
    rw [← List.cons_append, List.nodup_middle]
    exact List.nodup_cons.mpr ⟨fresh, ring.nodup⟩
  · rw [show front ++ new :: back = front ++ ([new] ++ back) from rfl, around_seam before after,
      List.singleton_append, List.isChain_append_cons_cons, List.isChain_cons_cons]
    have newX : new ≠ x := fun same => freshLower (by simp [same])
    have newZ : z ≠ new := fun same => freshUpper (same ▸ List.mem_cons_self)
    -- Only the forward link of `x` and the backward link of `z` change, next to the new node.
    refine ⟨links_congr lower ?_ ?_, ⟨by simp, by simp⟩, ⟨by simp [newX], by simp [newZ]⟩,
      links_congr upper ?_ ?_⟩
    · -- Four times: a link on the inside of a chain is not one that was written.
      intro u ahead
      rw [List.dropLast_concat] at ahead
      have notNew : u ≠ new := fun same => freshLower (same ▸ List.mem_append_left [x] ahead)
      rw [Function.update_of_ne (preX u ahead), Function.update_of_ne notNew]
    · intro v ahead
      rw [← before, List.tail_cons] at ahead
      have notNew : v ≠ new :=
        fun same => freshLower (before ▸ same ▸ List.mem_cons_of_mem head ahead)
      rw [Function.update_of_ne notNew, Function.update_of_ne (frontZ v ahead)]
    · intro u behind
      rw [← after, List.dropLast_concat] at behind
      have notNew : u ≠ new :=
        fun same => freshUpper (after ▸ same ▸ List.mem_append_left [head] behind)
      rw [Function.update_of_ne (backX u behind), Function.update_of_ne notNew]
    · intro v behind
      rw [List.tail_cons] at behind
      have notNew : v ≠ new := fun same => freshUpper (same ▸ List.mem_cons_of_mem z behind)
      rw [Function.update_of_ne notNew, Function.update_of_ne (postZ v behind)]

/-- Linking a new node in behind the head. -/
theorem insertFirst (ring : LinkRing next prev head members) (fresh : new ∉ head :: members) :
    LinkRing (Function.update (Function.update next new (next head)) head new)
      (Function.update (Function.update prev (next head) new) new head) head (new :: members) := by
  -- The seam is behind the head.
  obtain ⟨z, post, after⟩ : ∃ z post, members ++ [head] = z :: post :=
    List.exists_cons_of_ne_nil (by simp)
  have before : [head] = [] ++ [head] := rfl
  have ring' : LinkRing next prev head ([] ++ members) := ring
  obtain ⟨seam, inserted⟩ := LinkRing.insert ring' before after fresh
  rw [seam.1]
  exact inserted

/-- Linking a new node in before the head, behind all members. -/
theorem insertLast (ring : LinkRing next prev head members) (fresh : new ∉ head :: members) :
    LinkRing (Function.update (Function.update next new head) (prev head) new)
      (Function.update (Function.update prev head new) new (prev head)) head
      (members ++ [new]) := by
  -- The seam is in front of the head.
  obtain ⟨pre, x, before⟩ : ∃ pre x, head :: members = pre ++ [x] :=
    ⟨_, _, (List.dropLast_append_getLast (List.cons_ne_nil head members)).symm⟩
  have ring' : LinkRing next prev head (members ++ []) := by rwa [List.append_nil]
  obtain ⟨seam, inserted⟩ := LinkRing.insert ring' before (by rfl) (by rwa [List.append_nil])
  rw [seam.2]
  exact inserted

end Insert

section Remove

variable [DecidableEq Node] {x : Node}

/-- Unlinking a member joins its two neighbours. -/
theorem remove (ring : LinkRing next prev head members) (member : x ∈ members) :
    LinkRing (Function.update next (prev x) (next x)) (Function.update prev (next x) (prev x)) head
      (members.erase x) := by
  obtain ⟨front, back, rfl⟩ := List.append_of_mem member
  obtain ⟨pre, u, before⟩ : ∃ pre u, head :: front = pre ++ [u] :=
    ⟨_, _, (List.dropLast_append_getLast (List.cons_ne_nil head front)).symm⟩
  obtain ⟨z, post, after⟩ : ∃ z post, back ++ [head] = z :: post :=
    List.exists_cons_of_ne_nil (by simp)
  have links := ring.links
  rw [show front ++ x :: back = front ++ ([x] ++ back) from rfl, around_seam before after,
    List.singleton_append, List.isChain_append_cons_cons, List.isChain_cons_cons] at links
  -- The neighbours of the removed node are the ends of the two chains that stay.
  obtain ⟨lower, ⟨_, behind⟩, ⟨ahead, _⟩, upper⟩ := links
  -- Without the removed node the others still occur once each.
  obtain ⟨outside, nodup⟩ : x ∉ head :: (front ++ back) ∧ (head :: (front ++ back)).Nodup := by
    have whole := ring.nodup
    rw [← List.cons_append, List.nodup_middle] at whole
    exact List.nodup_cons.mp whole
  have absent : x ∉ front :=
    fun early => outside (List.mem_cons_of_mem head (List.mem_append_left back early))
  -- The node stands where the list was split, and nowhere before.
  have erased : (front ++ x :: back).erase x = front ++ back := by
    rw [List.erase_append_right _ absent, List.erase_cons_head]
  obtain ⟨preU, frontZ, backU, postZ⟩ := seam_apart nodup before after
  rw [erased, behind, ahead]
  refine ⟨nodup, ?_⟩
  rw [show front ++ back = front ++ ([] ++ back) from rfl, around_seam before after,
    List.nil_append, List.isChain_append_cons_cons]
  -- Neither chain has a link that was written to on its inside.
  refine ⟨links_congr lower ?_ ?_, ⟨by simp, by simp⟩, links_congr upper ?_ ?_⟩
  · intro w member
    rw [List.dropLast_concat] at member
    rw [Function.update_of_ne (preU w member)]
  · intro w member
    rw [← before, List.tail_cons] at member
    rw [Function.update_of_ne (frontZ w member)]
  · intro w member
    rw [← after, List.dropLast_concat] at member
    rw [Function.update_of_ne (backU w member)]
  · intro w member
    rw [List.tail_cons] at member
    rw [Function.update_of_ne (postZ w member)]

end Remove

end LinkRing
