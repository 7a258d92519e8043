import Mathlib.Algebra.Order.Floor.Semifield
import Mathlib.Tactic.Positivity
import Mathlib.Tactic.Ring
import Sqwar.Data.LittleEndian

/-!
# Dyadic cells

Each level of a grid on the unit interval halves the cells of the one above it. The cell of a
position is an integral part; the cells of the levels above are its own, divided, and the cell of
any level lies in those above it.
-/

set_option autoImplicit false

namespace Data

variable {K : Type*} [Field K] [LinearOrder K] [IsStrictOrderedRing K] [FloorSemiring K]

/-- The cell of a position. -/
def cell (level : ℕ) (position : K) : ℕ := ⌊position * 2 ^ level⌋₊

variable {level more : ℕ} {position : K}

/-- The last cell ends before 1. -/
theorem cell_lt_iff (nonneg : 0 ≤ position) : cell level position < 2 ^ level ↔ position < 1 := by
  have pos : (0 : K) < 2 ^ level := by positivity
  rw [cell, Nat.floor_lt (mul_nonneg nonneg pos.le), Nat.cast_pow, Nat.cast_ofNat]
  exact mul_lt_iff_lt_one_left pos

theorem cell_le_two_pow (le : position ≤ 1) : cell level position ≤ 2 ^ level := by
  refine Nat.floor_le_of_le ?_
  rw [Nat.cast_pow, Nat.cast_ofNat]
  exact mul_le_of_le_one_left (by positivity) le

/-- **Division of the cells**: the cell of a level above holds a block of cells. -/
theorem cell_add_div : cell (level + more) position / 2 ^ more = cell level position := by
  have whole : position * 2 ^ (level + more) / (2 ^ more : ℕ) = position * 2 ^ level := by
    rw [pow_add, Nat.cast_pow, Nat.cast_ofNat, ← mul_assoc]
    exact mul_div_cancel_right₀ _ (pow_ne_zero _ two_ne_zero)
  rw [cell, cell, ← whole, Nat.floor_div_natCast]

/-- A position lies in its cell. -/
theorem cell_le (nonneg : 0 ≤ position) : (cell level position : K) / 2 ^ level ≤ position := by
  have pos : (0 : K) < 2 ^ level := by positivity
  rw [div_le_iff₀ pos]
  exact Nat.floor_le (mul_nonneg nonneg pos.le)

theorem lt_cell_add_one : position < ((cell level position : K) + 1) / 2 ^ level := by
  have pos : (0 : K) < 2 ^ level := by positivity
  rw [lt_div_iff₀ pos]
  exact Nat.lt_floor_add_one _

/-- The cell of a level above begins earlier. -/
theorem cell_le_cell_add : (cell level position : K) / 2 ^ level ≤
    (cell (level + more) position : K) / 2 ^ (level + more) := by
  have block := Nat.div_mul_le_self (cell (level + more) position) (2 ^ more)
  rw [cell_add_div] at block
  have block : (cell level position : K) * 2 ^ more ≤ cell (level + more) position := by
    exact_mod_cast block
  rw [pow_add, div_le_div_iff₀ (by positivity) (by positivity)]
  calc (cell level position : K) * (2 ^ level * 2 ^ more)
      = cell level position * 2 ^ more * 2 ^ level := by ring
    _ ≤ cell (level + more) position * 2 ^ level := by gcongr

/-- The cell of a level above ends later. -/
theorem cell_add_add_one_le : ((cell (level + more) position : K) + 1) / 2 ^ (level + more) ≤
    ((cell level position : K) + 1) / 2 ^ level := by
  have block := Nat.lt_div_mul_add (a := cell (level + more) position) (Nat.two_pow_pos more)
  rw [cell_add_div] at block
  have block : (cell (level + more) position : K) + 1 ≤ (cell level position + 1) * 2 ^ more := by
    rw [add_one_mul]
    exact_mod_cast block
  rw [pow_add, div_le_div_iff₀ (by positivity) (by positivity)]
  calc ((cell (level + more) position : K) + 1) * 2 ^ level
      ≤ (cell level position + 1) * 2 ^ more * 2 ^ level := by gcongr
    _ = (cell level position + 1) * (2 ^ level * 2 ^ more) := by ring

end Data
