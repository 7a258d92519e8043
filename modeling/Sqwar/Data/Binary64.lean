import Sqwar.Data.LittleEndian

/-!
# The order of double bit patterns

A binary64 number is given by its bit pattern. Comparison needs no arithmetic: apart from NaNs
the patterns are signed magnitudes, and numbers compare as these do.
-/

set_option autoImplicit false

namespace Data

/-- A binary64 bit pattern. -/
abbrev Binary64 := Word 8

namespace Binary64

/-- The pattern without its sign bit. -/
def magnitude (x : Binary64) : ℕ := x % 2 ^ 63

/-- All exponent bits are set, and some bit of the significand. -/
def IsNaN (x : Binary64) : Prop := 2047 * 2 ^ 52 < x.magnitude

instance (x : Binary64) : Decidable x.IsNaN := inferInstanceAs (Decidable (_ < _))

/-- The signed magnitude; both zeros have the same. -/
def key (x : Binary64) : ℤ := if (x : ℕ) < 2 ^ 63 then x.magnitude else -x.magnitude

/-- The comparison `x < y`, false as soon as one side is a NaN. -/
def Less (x y : Binary64) : Prop := ¬ x.IsNaN ∧ ¬ y.IsNaN ∧ x.key < y.key

instance (x y : Binary64) : Decidable (x.Less y) := inferInstanceAs (Decidable (_ ∧ _ ∧ _))

/-- Numbers are totally ordered. -/
theorem not_less_iff {x y : Binary64} (hx : ¬ x.IsNaN) (hy : ¬ y.IsNaN) :
    ¬ y.Less x ↔ x.key ≤ y.key := by
  simp [Less, hx, hy]

end Binary64

end Data
