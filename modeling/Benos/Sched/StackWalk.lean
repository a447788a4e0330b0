import Benos.Lib.Transition
import Benos.Sched.StackTrace

/-! `walk_stackframe` over any memory: it climbs the stack, so it comes to an end. -/

namespace Benos

section

variable (text etext : U64) (fn : U64 → Bool) (mem : Memory)

namespace Walk

/-- The two words of `struct stackframe` that a round reads before the next one. -/
def loads (w : Walk) : List U64 := [w.fp - 16, w.fp - 16 + 8]

/-- A round of the loop that does not break, and the variables of the next round. -/
def Continues (w next : Walk) : Prop :=
  kernelText text etext w.pc = true ∧ fn w.pc = false ∧ ¬ w.Invalid ∧ next = w.up mem

/-- The rounds that a walk comes to. -/
def Reaches : Walk → Walk → Prop := Relation.ReflTransGen (Continues text etext fn mem)

/-- The stack of a walk lies below a limit: its first stack pointer, and every word it reads. -/
structure StackBelow (limit : Nat) (w : Walk) : Prop where
  sp : w.sp.toNat < limit
  loads : ∀ at_ next, Reaches text etext fn mem w at_ → Continues text etext fn mem at_ next →
    ∀ addr ∈ at_.loads, addr.toNat < limit

end Walk

end

variable {text etext : U64} {fn : U64 → Bool} {mem : Memory} {limit fuel : Nat}

/-! ### One round -/

/-- A round that continues passes its address, and leaves the rest to the next one. -/
theorem walkStackframe_continues {w next : Walk} (more : w.Continues text etext fn mem next)
    (fuel : Nat) : walkStackframe text etext fn mem (fuel + 1) w =
      (walkStackframe text etext fn mem fuel next).map (w.pc :: ·) := by
  obtain ⟨inText, quiet, valid, rfl⟩ := more
  rw [walkStackframe, if_neg (not_not_intro inText), if_neg (by rw [quiet]; decide), if_neg valid]

/-- Any other round ends the walk. -/
theorem walkStackframe_stops {w : Walk} (stops : ∀ next, ¬ w.Continues text etext fn mem next)
    (fuel : Nat) : walkStackframe text etext fn mem (fuel + 1) w =
      some ([w.pc].takeWhile (kernelText text etext)) := by
  rw [walkStackframe, List.takeWhile_cons]
  by_cases inText : kernelText text etext w.pc = true
  · rw [if_neg (not_not_intro inText), inText]
    -- The callback has asked to stop, or the frame pointer is not taken for one.
    by_cases asked : fn w.pc = true
    · rw [if_pos asked]
      rfl
    · have invalid : w.Invalid := by
        by_contra valid
        exact stops _ ⟨inText, Bool.eq_false_iff.mpr asked, valid, rfl⟩
      rw [if_neg asked, if_pos invalid]
      rfl
  · rw [if_pos inText, if_neg inText]

/-- The addresses passed are in the kernel, on any memory. -/
theorem walkStackframe_inText {w : Walk} {passed : List U64}
    (walked : walkStackframe text etext fn mem fuel w = some passed) :
    ∀ pc ∈ passed, kernelText text etext pc = true := by
  induction fuel generalizing w passed with
  | zero => cases walked
  | succ fuel ih =>
    -- A round passes its own address at most.
    by_cases more : ∃ next, w.Continues text etext fn mem next
    · obtain ⟨next, more⟩ := more
      rw [walkStackframe_continues more] at walked
      obtain ⟨rest, others, rfl⟩ := Option.map_eq_some_iff.mp walked
      -- The first address has been tested, and the others by the rounds that follow.
      rw [List.forall_mem_cons]
      exact ⟨more.1, ih others⟩
    · rw [walkStackframe_stops (not_exists.mp more)] at walked
      cases walked
      exact fun pc member => List.mem_takeWhile_imp member

/-! ### All rounds -/

namespace Walk

/-- The next frame is sixteen bytes further up at least, as long as the test does not wrap. -/
theorem Continues.climbs {w next : Walk} (more : w.Continues text etext fn mem next)
    (fits : w.sp.toNat + 16 < 2 ^ 64) : w.sp.toNat + 16 ≤ next.sp.toNat := by
  obtain ⟨-, -, valid, rfl⟩ := more
  -- The frame pointer that has passed the test is the next stack pointer.
  have above : w.sp + 16 ≤ w.fp := BitVec.not_lt.mp fun low => valid (Or.inl low)
  rw [BitVec.le_def, BitVec.toNat_add] at above
  have size : (16 : U64).toNat = 16 := rfl
  rw [size, Nat.mod_eq_of_lt fits] at above
  exact above

/-- The stack pointer of each round comes with the words read before, or was the first. -/
theorem StackBelow.sp_lt {w at_ : Walk} (below : w.StackBelow text etext fn mem limit)
    (reached : w.Reaches text etext fn mem at_) : at_.sp.toNat < limit + 8 := by
  rcases Relation.ReflTransGen.cases_tail reached with same | ⟨last, reached, more⟩
  · rw [same]
    exact Nat.lt_add_right 8 below.sp
  · have read := below.loads last at_ reached more (last.fp - 16 + 8)
      (List.mem_cons_of_mem _ (List.mem_singleton_self _))
    have next : at_.sp = last.fp := by rw [more.2.2.2, up]
    rw [next]
    -- The word above the saved frame pointer is eight bytes below the next stack pointer.
    bv_omega

/-- Below a limit that leaves room every round that continues climbs. -/
theorem StackBelow.climbs {w at_ next : Walk} (below : w.StackBelow text etext fn mem limit)
    (fits : limit + 24 ≤ 2 ^ 64) (reached : w.Reaches text etext fn mem at_)
    (more : at_.Continues text etext fn mem next) : at_.sp.toNat + 16 ≤ next.sp.toNat := by
  have := below.sp_lt reached
  exact more.climbs (by omega)

/-- Where all words and the first pointers are below the limit, so is the stack of the walk. -/
theorem stackBelow_of_words {w : Walk} (fits : limit + 16 ≤ 2 ^ 64) (sp : w.sp.toNat < limit)
    (fp : w.fp.toNat < limit) (words : ∀ addr, (mem addr).toNat < limit) :
    w.StackBelow text etext fn mem limit := by
  refine ⟨sp, fun at_ next reached more addr member => ?_⟩
  -- Each pointer of a later round is one of an earlier round, or a word of the memory.
  have small : at_.sp.toNat < limit ∧ at_.fp.toNat < limit := by
    refine @Transition.reachable_invariant Walk _ (fun w => w.sp.toNat < limit ∧ w.fp.toNat < limit)
      (fun state next held more => ?_) w at_ ⟨sp, fp⟩ reached
    rw [more.2.2.2]
    exact ⟨held.2, words _⟩
  -- A frame pointer that has passed the test has room for the two words below it.
  have above := more.climbs (by omega)
  rw [more.2.2.2, up] at above
  dsimp only at above
  rw [loads, List.mem_cons, List.mem_singleton] at member
  rcases member with rfl | rfl
  · -- The saved frame pointer lies sixteen bytes below, and the return address eight.
    bv_omega
  · bv_omega

end Walk

/-- Each round takes sixteen bytes of the room that is left, so there are no more than fit in it. -/
theorem Walk.StackBelow.walkStackframe_ends {w : Walk}
    (below : w.StackBelow text etext fn mem limit) (fits : limit + 24 ≤ 2 ^ 64) (n : Nat)
    {at_ : Walk} (reached : w.Reaches text etext fn mem at_)
    (room : limit + 8 ≤ at_.sp.toNat + 16 * (n + 1)) :
    ∃ passed, ∀ fuel > n, walkStackframe text etext fn mem fuel at_ = some passed := by
  induction n generalizing at_ with
  | zero =>
    refine ⟨[at_.pc].takeWhile (kernelText text etext), fun fuel enough => ?_⟩
    obtain ⟨fuel, rfl⟩ := Nat.exists_eq_add_of_le' enough
    -- One more round would be above everything that the walk can read.
    refine walkStackframe_stops (fun next more => ?_) fuel
    have climbs := below.climbs fits reached more
    have := below.sp_lt (reached.tail more)
    omega
  | succ n ih =>
    by_cases more : ∃ next, at_.Continues text etext fn mem next
    · obtain ⟨next, more⟩ := more
      have climbs := below.climbs fits reached more
      -- The next round has one unit of room less.
      obtain ⟨rest, walked⟩ := ih (reached.tail more) (by omega)
      refine ⟨at_.pc :: rest, fun fuel enough => ?_⟩
      obtain ⟨fuel, rfl⟩ := Nat.exists_eq_add_of_le' (Nat.lt_of_le_of_lt (Nat.zero_le _) enough)
      rw [walkStackframe_continues more, walked fuel (by omega)]
      rfl
    · -- Otherwise this round is the last one.
      refine ⟨[at_.pc].takeWhile (kernelText text etext), fun fuel enough => ?_⟩
      obtain ⟨fuel, rfl⟩ := Nat.exists_eq_add_of_le' (Nat.lt_of_le_of_lt (Nat.zero_le _) enough)
      exact walkStackframe_stops (not_exists.mp more) fuel

/--
On any memory, whatever the saved frame pointers are: as long as the stack is below `2 ^ 39` each
round that continues climbs by sixteen bytes at least, so the walk ends, after `2 ^ 35` rounds and
one at most. Its callback is given addresses of the kernel only.
-/
theorem walkStackframe_terminates {w : Walk} (below : w.StackBelow text etext fn mem (2 ^ 39)) :
    (∀ at_ next, w.Reaches text etext fn mem at_ → at_.Continues text etext fn mem next →
      at_.sp.toNat + 16 ≤ next.sp.toNat) ∧
    ∃ passed, (∀ fuel > 2 ^ 35, walkStackframe text etext fn mem fuel w = some passed) ∧
      ∀ pc ∈ passed, text ≤ pc ∧ pc < etext := by
  have fits : 2 ^ 39 + 24 ≤ 2 ^ 64 := by decide
  refine ⟨fun at_ next reached more => below.climbs fits reached more, ?_⟩
  obtain ⟨passed, walked⟩ :=
    below.walkStackframe_ends fits (2 ^ 35) Relation.ReflTransGen.refl (by omega)
  refine ⟨passed, walked, fun pc member => ?_⟩
  -- What was passed has been tested first.
  exact of_decide_eq_true (walkStackframe_inText (walked _ (Nat.lt_succ_self _)) pc member)

/-- A saved frame pointer that names its own frame does not keep the walk from ending. -/
theorem walkStackframe_terminates_cycle : ∃ passed, ∀ fuel > 2 ^ 35,
    walkStackframe 0x80200000 0x80202000 printTraceAddress (fun _ => 0x80201000) fuel
      ⟨0x80200004, 0x80200ff0, 0x80201000⟩ = some passed := by
  -- All words are the same address, far below the limit.
  have below : (Walk.mk 0x80200004 0x80200ff0 0x80201000).StackBelow 0x80200000 0x80202000
      printTraceAddress (fun _ => 0x80201000) (2 ^ 39) :=
    Walk.stackBelow_of_words (by decide) (by decide) (by decide) fun _ => by decide
  obtain ⟨_, passed, walked, _⟩ := walkStackframe_terminates below
  exact ⟨passed, walked⟩

/-- At the top of the address space the test wraps, and such a pointer keeps the walk going. -/
theorem walkStackframe_wraps {pc : U64} (inText : kernelText text etext pc = true)
    (quiet : fn pc = false) (saved : mem (-32) = -16) (ra : mem (-24) = pc + 4) (fuel : Nat) :
    walkStackframe text etext fn mem fuel ⟨pc, -16, -16⟩ = none := by
  induction fuel with
  | zero => rfl
  | succ fuel ih =>
    -- The next round is this one again.
    have again : (Walk.mk pc (-16) (-16)).Continues text etext fn mem ⟨pc, -16, -16⟩ := by
      -- Sixteen bytes further up is zero, which no frame pointer is below.
      have valid : ¬ ((-16 : U64) < -16 + 16 ∨ (-16 : U64) &&& 0xf ≠ 0) := by decide
      have frame : (-16 : U64) - 16 = -32 ∧ (-16 : U64) - 16 + 8 = -24 := by decide
      refine ⟨inText, quiet, valid, ?_⟩
      rw [Walk.up]
      dsimp only
      rw [frame.2, frame.1, saved, ra, BitVec.add_sub_cancel]
    rw [walkStackframe_continues again, ih]
    rfl

end Benos
