import Mathlib.Algebra.Field.Defs
import Mathlib.Algebra.Order.Group.Unbundled.Abs
import Mathlib.LinearAlgebra.Matrix.Notation
import Mathlib.Tactic.FinCases
import Mathlib.Tactic.LinearCombination
import Mathlib.Tactic.NormNum
import Mathlib.Tactic.Ring
import Sqwar.Alignment.Derivatives

/-!
# Motions in gmtl

The types of gmtl that the alignment uses: quaternions, matrices of column vectors and points. The
matrix of a product of unit quaternions is the product of their matrices, so the right factor is
applied first.
-/

set_option autoImplicit false

open scoped Matrix

namespace Sqwar.Alignment

variable {K : Type*} [Field K]

/-- `lengthSquared`. -/
def lengthSquared (v : Fin 3 → K) : K := v 0 * v 0 + v 1 * v 1 + v 2 * v 2

/-! ### Quaternions -/

/-- `Quat`. -/
@[ext]
structure Quat (K : Type*) where
  x : K
  y : K
  z : K
  w : K
  deriving DecidableEq

namespace Quat

/-- `make` of a quaternion from an `AxisAngle`. -/
def make (trig : Trig K) (angle : K) (axis : Fin 3 → K) : Quat K :=
  let half_angle := angle * (1 / 2)
  let sin_half_angle := trig.sin half_angle
  ⟨sin_half_angle * axis 0, sin_half_angle * axis 1, sin_half_angle * axis 2, trig.cos half_angle⟩

/-- `operator*` of quaternions. -/
def mul (q1 q2 : Quat K) : Quat K :=
  ⟨q1.w * q2.x + q1.x * q2.w + q1.y * q2.z - q1.z * q2.y,
    q1.w * q2.y + q1.y * q2.w + q1.z * q2.x - q1.x * q2.z,
    q1.w * q2.z + q1.z * q2.w + q1.x * q2.y - q1.y * q2.x,
    q1.w * q2.w - q1.x * q2.x - q1.y * q2.y - q1.z * q2.z⟩

instance : Mul (Quat K) := ⟨mul⟩

/-- `makeRot` of a matrix from a quaternion: its rotation part, which `setRot` writes. -/
def rotation (q : Quat K) : Matrix (Fin 3) (Fin 3) K :=
  let xs := q.x + q.x
  let ys := q.y + q.y
  let zs := q.z + q.z
  let xx := q.x * xs
  let xy := q.x * ys
  let xz := q.x * zs
  let yy := q.y * ys
  let yz := q.y * zs
  let zz := q.z * zs
  let wx := q.w * xs
  let wy := q.w * ys
  let wz := q.w * zs
  !![1 - (yy + zz), xy - wz, xz + wy;
    xy + wz, 1 - (xx + zz), yz - wx;
    xz - wy, yz + wx, 1 - (xx + yy)]

/-- The squared length of a quaternion. -/
def normSq (q : Quat K) : K := q.w ^ 2 + q.x ^ 2 + q.y ^ 2 + q.z ^ 2

variable {q1 q2 : Quat K}

theorem normSq_mul : (q1 * q2).normSq = q1.normSq * q2.normSq := by
  change (mul q1 q2).normSq = _
  simp only [normSq, mul]
  ring

/-- The same matrix without the assumption that the quaternion has length one. -/
def conjugation (q : Quat K) : Matrix (Fin 3) (Fin 3) K :=
  !![q.w ^ 2 + q.x ^ 2 - q.y ^ 2 - q.z ^ 2, 2 * (q.x * q.y - q.w * q.z),
      2 * (q.x * q.z + q.w * q.y);
    2 * (q.x * q.y + q.w * q.z), q.w ^ 2 - q.x ^ 2 + q.y ^ 2 - q.z ^ 2,
      2 * (q.y * q.z - q.w * q.x);
    2 * (q.x * q.z - q.w * q.y), 2 * (q.y * q.z + q.w * q.x),
      q.w ^ 2 - q.x ^ 2 - q.y ^ 2 + q.z ^ 2]

theorem conjugation_mul : (q1 * q2).conjugation = q1.conjugation * q2.conjugation := by
  change (mul q1 q2).conjugation = _
  ext i j
  fin_cases i <;> fin_cases j <;>
    simp [conjugation, mul, Matrix.mul_apply, Fin.sum_univ_three] <;> ring

theorem rotation_eq_conjugation (unit : q1.normSq = 1) : q1.rotation = q1.conjugation := by
  rw [normSq] at unit
  ext i j
  -- only the entries on the diagonal need the length
  fin_cases i <;> fin_cases j <;> simp [rotation, conjugation]
  all_goals first | linear_combination -unit | ring

/-- **The right factor is applied first.** -/
theorem rotation_mul (unit1 : q1.normSq = 1) (unit2 : q2.normSq = 1) :
    (q1 * q2).rotation = q1.rotation * q2.rotation := by
  have unit : (q1 * q2).normSq = 1 := by rw [normSq_mul, unit1, unit2, one_mul]
  rw [rotation_eq_conjugation unit, rotation_eq_conjugation unit1, rotation_eq_conjugation unit2,
    conjugation_mul]

end Quat

/-! ### Matrices -/

/-- `makeRot`. -/
def makeRot (q : Quat K) : Matrix (Fin 4) (Fin 4) K :=
  let r := q.rotation
  !![r 0 0, r 0 1, r 0 2, 0;
    r 1 0, r 1 1, r 1 2, 0;
    r 2 0, r 2 1, r 2 2, 0;
    0, 0, 0, 1]

/-- `makeTrans`. -/
def makeTrans (trans : Fin 3 → K) : Matrix (Fin 4) (Fin 4) K :=
  !![1, 0, 0, trans 0;
    0, 1, 0, trans 1;
    0, 0, 1, trans 2;
    0, 0, 0, 1]

/-- `xform` of a point: with one as its last coordinate, which the result is divided by if it is not
close to zero. -/
def xform [LinearOrder K] (matrix : Matrix (Fin 4) (Fin 4) K) (point : Fin 3 → K) : Fin 3 → K :=
  let temp_result := matrix *ᵥ ![point 0, point 1, point 2, 1]
  if |temp_result 3 - 0| ≤ 1 / 10000 then ![temp_result 0, temp_result 1, temp_result 2]
  else
    let w_coord_div := 1 / temp_result 3
    ![temp_result 0 * w_coord_div, temp_result 1 * w_coord_div, temp_result 2 * w_coord_div]

theorem xform_makeTrans [LinearOrder K] [IsStrictOrderedRing K]
    (trans point : Fin 3 → K) : xform (makeTrans trans) point = point + trans := by
  have last : (makeTrans trans *ᵥ ![point 0, point 1, point 2, 1]) 3 = 1 := by
    simp [makeTrans, Matrix.mulVec, dotProduct, Fin.sum_univ_four]
  have far : ¬ |(1 : K) - 0| ≤ 1 / 10000 := by
    norm_num
  rw [xform, last, if_neg far]
  ext i
  fin_cases i <;> simp [makeTrans, Matrix.mulVec, dotProduct, Fin.sum_univ_four]

/-- **A point is moved, then rotated** by the product of a rotation and a translation. -/
theorem xform_makeRot_mul_makeTrans [LinearOrder K] [IsStrictOrderedRing K] (q : Quat K)
    (trans point : Fin 3 → K) :
    xform (makeRot q * makeTrans trans) point = q.rotation *ᵥ (point + trans) := by
  have last : ((makeRot q * makeTrans trans) *ᵥ ![point 0, point 1, point 2, 1]) 3 = 1 := by
    simp [makeRot, makeTrans, Matrix.mul_apply, Matrix.mulVec, dotProduct, Fin.sum_univ_four]
  have far : ¬ |(1 : K) - 0| ≤ 1 / 10000 := by
    norm_num
  rw [xform, last, if_neg far]
  ext i
  fin_cases i <;>
    simp [makeRot, makeTrans, Matrix.mul_apply, Matrix.mulVec, dotProduct, Fin.sum_univ_four,
      Fin.sum_univ_three] <;> ring

end Sqwar.Alignment
