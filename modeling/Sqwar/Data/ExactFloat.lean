import Mathlib.Algebra.Order.Floor.Ring
import Mathlib.Data.Rat.Floor
import Mathlib.Tactic.Linarith

/-!
# Floats with exact arithmetic

A float is NaN, an infinity or a number; the arithmetic on numbers is exact, so nothing overflows
and a zero has no sign. A number is converted to an integer by truncation.
-/

set_option autoImplicit false

namespace Data

/-- A float whose numbers are rational. -/
inductive ExactFloat
  | nan
  | inf (negative : Bool)
  | num (q : ℚ)
  deriving DecidableEq, Repr

namespace ExactFloat

def isNaN : ExactFloat → Bool
  | nan => true
  | _ => false

def isInf : ExactFloat → Bool
  | inf _ => true
  | _ => false

instance : Add ExactFloat where
  add
    | nan, _ => nan
    | _, nan => nan
    | inf s, inf t => if s = t then inf s else nan
    | inf s, num _ => inf s
    | num _, inf t => inf t
    | num p, num q => num (p + q)

instance : Div ExactFloat where
  div
    | nan, _ => nan
    | _, nan => nan
    | inf _, inf _ => nan
    | inf s, num q => inf (s ^^ decide (q < 0))
    | num _, inf _ => num 0
    | num p, num q =>
      if q = 0 then if p = 0 then nan else inf (decide (p < 0)) else num (p / q)

@[simp] theorem isNaN_nan : nan.isNaN = true := rfl

@[simp] theorem isNaN_inf (s : Bool) : (inf s).isNaN = false := rfl

@[simp] theorem isNaN_num (q : ℚ) : (num q).isNaN = false := rfl

@[simp] theorem isInf_nan : nan.isInf = false := rfl

@[simp] theorem isInf_inf (s : Bool) : (inf s).isInf = true := rfl

@[simp] theorem isInf_num (q : ℚ) : (num q).isInf = false := rfl

@[simp] theorem num_add_num (p q : ℚ) : num p + num q = num (p + q) := rfl

theorem num_div_num {p q : ℚ} (nonzero : q ≠ 0) : num p / num q = num (p / q) := if_neg nonzero

theorem isNaN_iff {v : ExactFloat} : v.isNaN ↔ v = nan := by
  cases v <;> simp

/-- A missing value is NaN. -/
def ofOption : Option ℚ → ExactFloat
  | none => nan
  | some q => num q

@[simp] theorem ofOption_none : ofOption none = nan := rfl

@[simp] theorem ofOption_some (q : ℚ) : ofOption (some q) = num q := rfl

end ExactFloat

/-! ### Conversion -/

/-- A number without its fraction. -/
def truncate (q : ℚ) : ℤ := if 0 ≤ q then ⌊q⌋ else ⌈q⌉

/-- `fmod(q, 1)`. -/
def fraction (q : ℚ) : ℚ := q - truncate q

/-- The conversion to `uint8_t`, modulo 256. -/
def toByte (q : ℚ) : UInt8 := UInt8.ofInt (truncate q)

variable {q : ℚ}

theorem truncate_of_nonneg (nonneg : 0 ≤ q) : truncate q = ⌊q⌋ := if_pos nonneg

theorem fraction_nonneg (nonneg : 0 ≤ q) : 0 ≤ fraction q := by
  rw [fraction, truncate_of_nonneg nonneg]
  exact Int.fract_nonneg q

theorem fraction_lt_one (nonneg : 0 ≤ q) : fraction q < 1 := by
  rw [fraction, truncate_of_nonneg nonneg]
  exact Int.fract_lt_one q

theorem truncate_add_fraction (q : ℚ) : truncate q + fraction q = q := by
  rw [fraction]
  exact add_sub_cancel _ _

theorem fraction_between (q : ℚ) : -1 < fraction q ∧ fraction q < 1 := by
  rcases le_or_gt 0 q with nonneg | negative
  · have := fraction_nonneg nonneg
    exact ⟨by linarith, fraction_lt_one nonneg⟩
  · rw [fraction, truncate, if_neg negative.not_ge]
    have := Int.le_ceil q
    have := Int.ceil_lt_add_one q
    exact ⟨by linarith, by linarith⟩

/-- A number is truncated to -1 just behind -2. -/
theorem truncate_eq_neg_one_iff : truncate q = -1 ↔ -2 < q ∧ q ≤ -1 := by
  rw [truncate]
  split_ifs with nonneg
  · have := Int.floor_nonneg.mpr nonneg
    constructor
    · omega
    · intro ⟨_, low⟩
      linarith
  · rw [Int.ceil_eq_iff]
    norm_num

/-- A number is converted to its whole part modulo 256. -/
theorem toNat_toByte_eq_emod (q : ℚ) : ((toByte q).toNat : ℤ) = truncate q % 256 := by
  have nonneg : 0 ≤ truncate q % 256 := Int.emod_nonneg _ (by decide)
  have small : truncate q % 256 < 256 := Int.emod_lt_of_pos _ (by decide)
  have fits : (truncate q % 2 ^ 8).toNat < 2 ^ 8 := by omega
  rw [toByte, UInt8.ofInt, UInt8.toNat_ofNat_of_lt' fits]
  exact Int.toNat_of_nonneg nonneg

/-- A number that fits is converted to its floor. -/
theorem toNat_toByte (nonneg : 0 ≤ q) (small : q < 256) : ((toByte q).toNat : ℤ) = ⌊q⌋ := by
  rw [toNat_toByte_eq_emod, truncate_of_nonneg nonneg]
  exact Int.emod_eq_of_lt (Int.floor_nonneg.mpr nonneg) (Int.floor_lt.mpr (by exact_mod_cast small))

theorem truncate_between (above : -255 < q) (below : q < 255) :
    -255 < truncate q ∧ truncate q < 255 := by
  rw [truncate]
  split_ifs with nonneg
  · have := Int.floor_nonneg.mpr nonneg
    exact ⟨by omega, Int.floor_lt.mpr (by exact_mod_cast below)⟩
  · have : ⌈q⌉ ≤ 0 := Int.ceil_le.mpr (by exact_mod_cast (not_le.mp nonneg).le)
    exact ⟨Int.lt_ceil.mpr (by exact_mod_cast above), by omega⟩

/-- The byte 255 stands for -1 among the numbers that are not further from 0. -/
theorem toByte_eq_255_iff (above : -255 < q) (below : q < 255) :
    toByte q = 255 ↔ -2 < q ∧ q ≤ -1 := by
  have value := toNat_toByte_eq_emod q
  obtain ⟨low, high⟩ := truncate_between above below
  rw [← truncate_eq_neg_one_iff, ← UInt8.toNat_inj, show (255 : UInt8).toNat = 255 from rfl]
  omega

end Data
