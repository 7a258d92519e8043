import Mathlib.Algebra.Order.Group.PosPart
import Mathlib.Algebra.Order.Pi
import Mathlib.Algebra.Order.Ring.Defs
import Mathlib.LinearAlgebra.Matrix.DotProduct
import Mathlib.Order.Interval.Set.Basic
import Mathlib.Tactic.Linarith

/-!
# Images of boxes

Over a box, a linear form is least at the corner that the signs of its coefficients choose. So the
images of two corners bound the image of a box under a matrix exactly if, in every row, the negative
coefficients do not outweigh the positive ones.
-/

set_option autoImplicit false

namespace Data

variable {ι κ R : Type*} [Fintype ι] [CommRing R] [LinearOrder R] [IsStrictOrderedRing R]
  {a lo hi low high p : ι → R}

omit [Fintype ι] [IsStrictOrderedRing R] in
/-- The corner of a box where a linear form is least. -/
def leastCorner (a lo hi : ι → R) : ι → R := fun j => if 0 ≤ a j then lo j else hi j

omit [Fintype ι] [IsStrictOrderedRing R] in
theorem leastCorner_mem (nonempty : lo ≤ hi) : leastCorner a lo hi ∈ Set.Icc lo hi := by
  refine ⟨fun j => ?_, fun j => ?_⟩ <;> unfold leastCorner <;> split_ifs
  · exact le_rfl
  · exact nonempty j
  · exact nonempty j
  · exact le_rfl

theorem dotProduct_leastCorner : a ⬝ᵥ leastCorner a lo hi = a⁺ ⬝ᵥ lo - a⁻ ⬝ᵥ hi := by
  simp only [dotProduct, ← Finset.sum_sub_distrib]
  refine Finset.sum_congr rfl fun j _ => ?_
  rw [leastCorner, Pi.posPart_apply, Pi.negPart_apply]
  split_ifs with sign
  · rw [posPart_eq_self.mpr sign, negPart_eq_zero.mpr sign, zero_mul, sub_zero]
  · rw [posPart_eq_zero.mpr (le_of_not_ge sign), negPart_eq_neg.mpr (le_of_not_ge sign), zero_mul,
      neg_mul, zero_sub, neg_neg]

theorem dotProduct_eq_posPart_sub_negPart (a p : ι → R) : a ⬝ᵥ p = a⁺ ⬝ᵥ p - a⁻ ⬝ᵥ p := by
  rw [← sub_dotProduct, posPart_sub_negPart]

/-- Nowhere in the box is the form less. -/
theorem dotProduct_leastCorner_le (inside : p ∈ Set.Icc lo hi) :
    a ⬝ᵥ leastCorner a lo hi ≤ a ⬝ᵥ p := by
  rw [dotProduct_leastCorner, dotProduct_eq_posPart_sub_negPart a p]
  exact sub_le_sub (dotProduct_le_dotProduct_of_nonneg_left inside.1 (posPart_nonneg a))
    (dotProduct_le_dotProduct_of_nonneg_left inside.2 (negPart_nonneg a))

/-- **A lower bound over a box**: what the negative coefficients take away from the value at a point
is at most what the positive ones add to it. -/
theorem forall_dotProduct_ge_iff (nonempty : lo ≤ hi) :
    (∀ p ∈ Set.Icc lo hi, a ⬝ᵥ low ≤ a ⬝ᵥ p) ↔ a⁻ ⬝ᵥ (hi - low) ≤ a⁺ ⬝ᵥ (lo - low) := by
  have least : (∀ p ∈ Set.Icc lo hi, a ⬝ᵥ low ≤ a ⬝ᵥ p) ↔
      a ⬝ᵥ low ≤ a ⬝ᵥ leastCorner a lo hi :=
    ⟨fun bound => bound _ (leastCorner_mem nonempty),
      fun bound p inside => bound.trans (dotProduct_leastCorner_le inside)⟩
  rw [least, dotProduct_leastCorner, dotProduct_eq_posPart_sub_negPart a low, dotProduct_sub,
    dotProduct_sub]
  constructor <;> intro h <;> linarith

/-- **An upper bound over a box.** -/
theorem forall_dotProduct_le_iff (nonempty : lo ≤ hi) :
    (∀ p ∈ Set.Icc lo hi, a ⬝ᵥ p ≤ a ⬝ᵥ high) ↔ a⁻ ⬝ᵥ (high - lo) ≤ a⁺ ⬝ᵥ (high - hi) := by
  -- the lower bound of the opposite form
  have opposite := @forall_dotProduct_ge_iff _ _ _ _ _ _ (-a) lo hi high nonempty
  simp only [neg_dotProduct, neg_le_neg_iff, negPart_neg, posPart_neg] at opposite
  rw [opposite, dotProduct_sub, dotProduct_sub, dotProduct_sub, dotProduct_sub]
  constructor <;> intro h <;> linarith

/-- Without negative coefficients, the lowest and the highest corner of a larger box are bounds. -/
theorem negPart_dotProduct_le (nonneg : 0 ≤ a) {v w : ι → R} (below : 0 ≤ w) :
    a⁻ ⬝ᵥ v ≤ a⁺ ⬝ᵥ w := by
  rw [negPart_eq_zero.mpr nonneg, zero_dotProduct]
  exact dotProduct_nonneg_of_nonneg (posPart_nonneg a) below

/-- **The image of a box** lies between the images of two points. -/
theorem forall_mulVec_mem_iff {A : Matrix κ ι R} (nonempty : lo ≤ hi) :
    (∀ p ∈ Set.Icc lo hi, A.mulVec low ≤ A.mulVec p ∧ A.mulVec p ≤ A.mulVec high) ↔
      ∀ r, (A r)⁻ ⬝ᵥ (hi - low) ≤ (A r)⁺ ⬝ᵥ (lo - low) ∧
        (A r)⁻ ⬝ᵥ (high - lo) ≤ (A r)⁺ ⬝ᵥ (high - hi) := by
  constructor
  · intro bounds r
    exact ⟨(forall_dotProduct_ge_iff nonempty).mp fun p inside => (bounds p inside).1 r,
      (forall_dotProduct_le_iff nonempty).mp fun p inside => (bounds p inside).2 r⟩
  · intro rows p inside
    exact ⟨fun r => (forall_dotProduct_ge_iff nonempty).mpr (rows r).1 p inside,
      fun r => (forall_dotProduct_le_iff nonempty).mpr (rows r).2 p inside⟩

end Data
