import Mathlib.Algebra.GroupWithZero.Nat
import Mathlib.Data.List.Basic
import Mathlib.Tactic.Common

/-! Records of different sizes laid out one behind the other. -/

namespace Records

variable {ρ β : Type*} (encode : ρ → List β) (records : List ρ)

/-- Where a record begins: behind all that come before it. -/
def offset (k : Nat) : Nat := ((records.take k).map fun record => (encode record).length).sum

variable {encode records}

@[simp] theorem offset_zero : offset encode records 0 = 0 := rfl

/-- The next record begins where this one ends. -/
theorem offset_succ {k : Nat} {record : ρ} (found : records[k]? = some record) :
    offset encode records (k + 1) = offset encode records k + (encode record).length := by
  rw [offset, List.take_add_one, found]
  simp [offset]

/-- Records that are not empty begin one behind the other. -/
theorem offset_lt (full : ∀ record ∈ records, encode record ≠ []) {j k : Nat} (before : j < k)
    (within : k ≤ records.length) : offset encode records j < offset encode records k := by
  induction k with
  | zero => omega
  | succ k ih =>
    have inside : k < records.length := by omega
    have found := List.getElem?_eq_getElem inside
    have here := List.length_pos_iff.mpr (full _ (List.getElem_mem inside))
    rw [offset_succ found]
    -- The last record is not empty, whether or not it is the one in question.
    rcases Nat.lt_or_ge j k with earlier | same
    · have := ih earlier (by omega)
      omega
    · have equal : j = k := by omega
      rw [equal]
      omega

/-- An offset is no more than so many of the largest records. -/
theorem offset_le {bound : Nat} (small : ∀ record ∈ records, (encode record).length ≤ bound)
    (k : Nat) : offset encode records k ≤ k * bound := by
  induction k with
  | zero => simp
  | succ k ih =>
    cases found : records[k]? with
    | none =>
      -- Behind the last record the offset no longer grows.
      have past := List.getElem?_eq_none_iff.mp found
      rw [offset, List.take_of_length_le (by omega)]
      rw [offset, List.take_of_length_le past] at ih
      exact Nat.le_trans ih (Nat.mul_le_mul_right _ (Nat.le_succ _))
    | some record =>
      have here := small record (List.mem_of_getElem? found)
      rw [offset_succ found, Nat.succ_mul]
      omega

/-- Records of one size begin at its multiples. -/
theorem offset_const {size : Nat} (same : ∀ record, (encode record).length = size) {k : Nat}
    (within : k ≤ records.length) : offset encode records k = size * k := by
  induction k with
  | zero => simp
  | succ k ih =>
    have found := List.getElem?_eq_getElem (show k < records.length by omega)
    rw [offset_succ found, ih (by omega), same, Nat.mul_succ]

/-- What a record holds is read from where it begins on. -/
theorem flatMap_getElem? {k i : Nat} {record : ρ} (found : records[k]? = some record)
    (inside : i < (encode record).length) :
    (records.flatMap encode)[offset encode records k + i]? = (encode record)[i]? := by
  induction records generalizing k with
  | nil => simp at found
  | cons first rest ih =>
    -- Either the record is the first, or the first is skipped as a whole.
    cases k with
    | zero =>
      obtain rfl : first = record := by simpa using found
      rw [offset_zero, Nat.zero_add, List.flatMap_cons, List.getElem?_append_left inside]
    | succ k =>
      rw [List.getElem?_cons_succ] at found
      have behind : offset encode (first :: rest) (k + 1) =
          (encode first).length + offset encode rest k := by
        simp [offset]
      rw [behind, List.flatMap_cons, Nat.add_assoc, List.getElem?_append_right (by omega),
        Nat.add_sub_cancel_left]
      exact ih found

end Records
