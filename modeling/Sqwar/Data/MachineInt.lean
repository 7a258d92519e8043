import Mathlib.Tactic.Linarith
import Sqwar.Data.LittleEndian

/-!
# Machine integers of 32 bits

Unsigned results are reduced to their low 32 bits. A signed result that does not fit is undefined,
which ends a computation in `Option`; `wrap32` is what the machine makes of it.
-/

set_option autoImplicit false

namespace Data

/-- An unsigned result. -/
def uint32 (n : ℕ) : ℕ := n % 2 ^ 32

/-- The values of a signed integer. -/
def IsInt32 (z : ℤ) : Prop := -2 ^ 31 ≤ z ∧ z < 2 ^ 31

/-- Comparisons of naturals stop at a variable, where those of integers would unfold the bound. -/
instance (z : ℤ) : Decidable (IsInt32 z) :=
  decidable_of_iff (z.toNat < 2 ^ 31 ∧ (-z).toNat ≤ 2 ^ 31) (by unfold IsInt32; omega)

theorem isInt32_of_lt {n : ℕ} (fits : n < 2 ^ 31) : IsInt32 n := ⟨by omega, by omega⟩

/-- A signed result. -/
def int32 (z : ℤ) : Option ℤ := if IsInt32 z then some z else none

/-- A signed result of operands that are not negative. -/
def nat32 (n : ℕ) : Option ℕ := if n < 2 ^ 31 then some n else none

/-- A signed result, wrapped around where it does not fit. -/
def wrap32 (z : ℤ) : ℤ := Int.bmod z (2 ^ 32)

variable {z z' : ℤ} {n n' d : ℕ}

theorem uint32_of_lt (fits : n < 2 ^ 32) : uint32 n = n := Nat.mod_eq_of_lt fits

/-- A product that wraps has another quotient by any divisor. -/
theorem uint32_div_lt (pos : 0 < d) (small : d ≤ 2 ^ 32) (wraps : 2 ^ 32 ≤ n) :
    uint32 n / d < n / d := by
  have lower : uint32 n + d ≤ n := by
    have := Nat.div_add_mod n (2 ^ 32)
    have : 1 ≤ n / 2 ^ 32 := (Nat.one_le_div_iff (by decide)).mpr wraps
    unfold uint32
    omega
  calc uint32 n / d < (uint32 n + d) / d := by
        rw [Nat.add_div_right _ pos]
        exact Nat.lt_succ_self _
    _ ≤ n / d := Nat.div_le_div_right lower

@[simp] theorem int32_eq_some_iff : int32 z = some z' ↔ IsInt32 z ∧ z = z' := by
  rw [int32, Option.ite_none_right_eq_some, Option.some.injEq]

theorem int32_of_isInt32 (fits : IsInt32 z) : int32 z = some z := if_pos fits

theorem int32_add (fits : n + n' < 2 ^ 31) : int32 (n + n') = some ((n + n' : ℕ) : ℤ) := by
  rw [← Nat.cast_add]
  exact int32_of_isInt32 (isInt32_of_lt fits)

theorem int32_mul (fits : n * n' < 2 ^ 31) : int32 (n * n') = some ((n * n' : ℕ) : ℤ) := by
  rw [← Nat.cast_mul]
  exact int32_of_isInt32 (isInt32_of_lt fits)

@[simp] theorem nat32_eq_some_iff : nat32 n = some n' ↔ n < 2 ^ 31 ∧ n = n' := by
  rw [nat32, Option.ite_none_right_eq_some, Option.some.injEq]

theorem nat32_of_lt (fits : n < 2 ^ 31) : nat32 n = some n := if_pos fits

theorem wrap32_of_isInt32 (fits : IsInt32 z) : wrap32 z = z := by
  obtain ⟨lower, upper⟩ := fits
  exact Int.bmod_eq_of_le (by simpa using lower) (by simpa using upper)

/-- The first result that does not fit comes out negative. -/
theorem wrap32_of_overflow (tooLarge : 2 ^ 31 ≤ z) (next : z < 2 ^ 32) : wrap32 z = z - 2 ^ 32 := by
  rw [wrap32, ← Int.sub_bmod_right]
  exact Int.bmod_eq_of_le (by norm_num at *; linarith) (by norm_num at *; linarith)

theorem isInt32_wrap32 : IsInt32 (wrap32 z) := ⟨Int.le_bmod (by decide), Int.bmod_lt (by decide)⟩

@[simp] theorem wrap32_wrap32_mul : wrap32 (wrap32 z * z') = wrap32 (z * z') := Int.bmod_mul_bmod

@[simp] theorem wrap32_wrap32_add : wrap32 (wrap32 z + z') = wrap32 (z + z') := Int.bmod_add_bmod

/-- The four bytes of a signed integer, as a number. -/
def int32Word (z : ℤ) : Word 4 :=
  ⟨(z % 2 ^ 32).toNat, by
    have := Int.emod_lt_of_pos z (show (0 : ℤ) < 2 ^ 32 by decide)
    omega⟩

theorem wrap32_int32Word (fits : IsInt32 z) : wrap32 (int32Word z : ℕ) = z := by
  have nonneg : 0 ≤ z % 2 ^ 32 := Int.emod_nonneg z (by decide)
  rw [int32Word, Int.toNat_of_nonneg nonneg, wrap32]
  exact (Int.emod_bmod z (2 ^ 32)).trans (wrap32_of_isInt32 fits)

end Data
