import Mathlib.Data.List.Basic
import Mathlib.Tactic.Common
import Mathlib.Tactic.Ring

/-! Numbers as bytes, the lowest one first. -/

namespace LittleEndian

/-- The lowest bytes of a number. -/
def split (width n : Nat) : List (BitVec 8) :=
  (List.range width).map fun i => BitVec.ofNat 8 (n / 256 ^ i)

/-- The number that bytes spell. -/
def combine : List (BitVec 8) → Nat
  | [] => 0
  | byte :: rest => byte.toNat + 256 * combine rest

@[simp] theorem split_length (width n : Nat) : (split width n).length = width := by
  rw [split, List.length_map, List.length_range]

/-- A byte is read at its own place. -/
theorem split_getElem? {width n i : Nat} (inside : i < width) :
    (split width n)[i]? = some (BitVec.ofNat 8 (n / 256 ^ i)) := by
  rw [split, List.getElem?_map, List.getElem?_range inside, Option.map_some]

theorem split_succ (width n : Nat) :
    split (width + 1) n = BitVec.ofNat 8 n :: split width (n / 256) := by
  rw [split, List.range_succ_eq_map, List.map_cons, List.map_map, Nat.pow_zero, Nat.div_one, split]
  -- Every later byte is one place lower in the rest of the number.
  congr 1
  refine List.map_congr_left fun i _ => ?_
  simp only [Function.comp_apply, Nat.succ_eq_add_one]
  rw [Nat.pow_succ', Nat.div_div_eq_div_mul]

/-- Bytes spell the number they were taken from, as far as they reach. -/
theorem combine_split (width n : Nat) : combine (split width n) = n % 256 ^ width := by
  induction width generalizing n with
  | zero => simp [split, combine, Nat.mod_one]
  | succ width ih =>
    have byte : (BitVec.ofNat 8 n).toNat = n % 256 := BitVec.toNat_ofNat n 8
    rw [split_succ, combine, ih, byte, Nat.pow_succ', Nat.mod_mul]

/-- Four bytes read in the middle of a split number spell its part from there on. -/
theorem combine_range {width n start : Nat} {bytes : Nat → BitVec 8} {length : Nat}
    (held : ∀ i < width, bytes i = BitVec.ofNat 8 (n / 256 ^ i)) (inside : start + length ≤ width) :
    combine ((List.range length).map fun i => bytes (start + i)) =
      n / 256 ^ start % 256 ^ length := by
  rw [← combine_split, split]
  congr 1
  refine List.map_congr_left fun i member => ?_
  have within := List.mem_range.mp member
  rw [held (start + i) (by omega), Nat.pow_add, Nat.div_div_eq_div_mul]

end LittleEndian
