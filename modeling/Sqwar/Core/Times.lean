import Mathlib.Data.Int.Order.Basic
import Mathlib.Order.Lattice

/-!
# Timestamps

The code keeps times in `double`s that are never NaN, so that they are linearly ordered. Of their
arithmetic it relies on one law: with gradual underflow the sign of a difference is exact.
-/

set_option autoImplicit false

namespace Sqwar

/-- The times that the code names, and the subtraction it rebases them with. -/
structure Times (T : Type*) [LinearOrder T] where
  zero : T
  /-- `-1`, the unset start time and the mark of a stop frame -/
  minusOne : T
  sub : T → T → T
  minusOne_lt : minusOne < zero
  sub_lt_zero {a b : T} : sub a b < zero ↔ a < b

/-- Whole seconds. -/
def seconds : Times ℤ where
  zero := 0
  minusOne := -1
  sub := (· - ·)
  minusOne_lt := by decide
  sub_lt_zero := by omega

end Sqwar
