import Mathlib.Analysis.SpecialFunctions.Trigonometric.Deriv
import Mathlib.LinearAlgebra.Matrix.Notation
import Mathlib.Tactic.FinCases
import Mathlib.Tactic.Ring
import Sqwar.Alignment.Derivatives
import Sqwar.Data.LeastSquares

/-!
# The gradient of the alignment

The residuals in the derivatives are those of a motion, a rotation of the source and a translation.
With these, the expanded formulas are the chain rule: the rotation of `GetDerivatives` is a product
of rotations about the axes x, y and x, that of `GetDerivatives2` is a rotation about an axis if
that has length one.
-/

set_option autoImplicit false

open scoped Matrix

namespace Sqwar.Alignment

open Data

variable {K : Type*} [Field K]

/-! ### The motions -/

/-- A rotation about the x axis. -/
def rotX (c s : K) : Matrix (Fin 3) (Fin 3) K := !![1, 0, 0; 0, c, -s; 0, s, c]

/-- A rotation about the y axis. -/
def rotY (c s : K) : Matrix (Fin 3) (Fin 3) K := !![c, 0, s; 0, 1, 0; -s, 0, c]

/-- The matrix whose entries multiply the source in the residuals of `GetDerivatives`. -/
def eulerMatrix (trig : Trig K) (rotateVec : Fin 3 → K) : Matrix (Fin 3) (Fin 3) K :=
  let cosrx := trig.cos (rotateVec 0)
  let sinrx := trig.sin (rotateVec 0)
  let cosry := trig.cos (rotateVec 1)
  let sinry := trig.sin (rotateVec 1)
  let cosrz := trig.cos (rotateVec 2)
  let sinrz := trig.sin (rotateVec 2)
  !![cosry, sinrx * sinry, cosrx * sinry;
    sinry * sinrz, cosrx * cosrz - cosry * sinrx * sinrz, -cosrz * sinrx - cosrx * cosry * sinrz;
    -cosrz * sinry, cosry * cosrz * sinrx + cosrx * sinrz, cosrx * cosry * cosrz - sinrx * sinrz]

/-- The matrix whose entries multiply the source in the residuals of `GetDerivatives2`. -/
def axisAngleMatrix (trig : Trig K) (rotateVec : Fin 4 → K) : Matrix (Fin 3) (Fin 3) K :=
  let cos_r := trig.cos (rotateVec 3)
  let sin_r := trig.sin (rotateVec 3)
  let ux := rotateVec 0
  let uy := rotateVec 1
  let uz := rotateVec 2
  !![ux * ux * (1 - cos_r) + cos_r, ux * uy * (1 - cos_r) + uz * sin_r,
      ux * uz * (1 - cos_r) - uy * sin_r;
    ux * uy * (1 - cos_r) - uz * sin_r, uy * uy * (1 - cos_r) + cos_r,
      uy * uz * (1 - cos_r) + ux * sin_r;
    ux * uz * (1 - cos_r) + uy * sin_r, uy * uz * (1 - cos_r) - ux * sin_r,
      uz * uz * (1 - cos_r) + cos_r]

/-- What the motion leaves of the distance of two points. -/
def residual (R : Matrix (Fin 3) (Fin 3) K) (t : Fin 3 → K) (pair : (Fin 3 → K) × (Fin 3 → K)) :
    Fin 3 → K :=
  pair.1 - t - R *ᵥ pair.2

/-- The mean of the squared distances that the motion leaves. -/
def objective (ptsStart ptsEnd : List (Fin 3 → K)) (R : Matrix (Fin 3) (Fin 3) K)
    (t : Fin 3 → K) : K :=
  meanSquare ((ptsStart.zip ptsEnd).map (residual R t))

/-- The rotation of `GetDerivatives` is about the x axis, then the y axis, then the x axis. -/
theorem eulerMatrix_eq (trig : Trig K) (rotateVec : Fin 3 → K) : eulerMatrix trig rotateVec =
    rotX (trig.cos (rotateVec 2)) (trig.sin (rotateVec 2)) *
      rotY (trig.cos (rotateVec 1)) (trig.sin (rotateVec 1)) *
      rotX (trig.cos (rotateVec 0)) (trig.sin (rotateVec 0)) := by
  ext i j
  fin_cases i <;> fin_cases j <;>
    simp [eulerMatrix, rotX, rotY, Matrix.mul_apply, Fin.sum_univ_three] <;> ring

/-! ### The slopes of the motions -/

/-- The functions of real angles. -/
noncomputable def Trig.real : Trig ℝ := ⟨Real.cos, Real.sin⟩

variable {x c' d' : ℝ} {c d : ℝ → ℝ}

theorem hasDerivAt_rotX (cos : HasDerivAt c c' x) (sin : HasDerivAt d d' x) (i j : Fin 3) :
    HasDerivAt (fun s => rotX (c s) (d s) i j) (!![0, 0, 0; 0, c', -d'; 0, d', c'] i j) x := by
  fin_cases i <;> fin_cases j
  exacts [hasDerivAt_const x 1, hasDerivAt_const x 0, hasDerivAt_const x 0,
    hasDerivAt_const x 0, cos, sin.fun_neg, hasDerivAt_const x 0, sin, cos]

theorem hasDerivAt_rotY (cos : HasDerivAt c c' x) (sin : HasDerivAt d d' x) (i j : Fin 3) :
    HasDerivAt (fun s => rotY (c s) (d s) i j) (!![c', 0, d'; 0, 0, 0; -d', 0, c'] i j) x := by
  fin_cases i <;> fin_cases j
  exacts [cos, hasDerivAt_const x 0, sin, hasDerivAt_const x 0, hasDerivAt_const x 1,
    hasDerivAt_const x 0, sin.fun_neg, hasDerivAt_const x 0, cos]

/-- The slope of the rotation of `GetDerivatives`, where the angles move with some velocities. -/
noncomputable def eulerSlope (angles velocity : Fin 3 → ℝ) : Matrix (Fin 3) (Fin 3) ℝ :=
  let cos' := fun i => -Real.sin (angles i) * velocity i
  let sin' := fun i => Real.cos (angles i) * velocity i
  let outer := rotX (Real.cos (angles 2)) (Real.sin (angles 2))
  let middle := rotY (Real.cos (angles 1)) (Real.sin (angles 1))
  let inner := rotX (Real.cos (angles 0)) (Real.sin (angles 0))
  (!![0, 0, 0; 0, cos' 2, -sin' 2; 0, sin' 2, cos' 2] * middle +
      outer * !![cos' 1, 0, sin' 1; 0, 0, 0; -sin' 1, 0, cos' 1]) * inner +
    outer * middle * !![0, 0, 0; 0, cos' 0, -sin' 0; 0, sin' 0, cos' 0]

theorem hasDerivAt_eulerMatrix {angles : ℝ → Fin 3 → ℝ} {velocity : Fin 3 → ℝ}
    (moves : ∀ i, HasDerivAt (fun s => angles s i) (velocity i) x) (i j : Fin 3) :
    HasDerivAt (fun s => eulerMatrix .real (angles s) i j) (eulerSlope (angles x) velocity i j)
      x := by
  simp only [eulerMatrix_eq]
  have rotates := fun i => And.intro (moves i).cos (moves i).sin
  exact hasDerivAt_mul_apply
    (hasDerivAt_mul_apply (hasDerivAt_rotX (rotates 2).1 (rotates 2).2)
      (hasDerivAt_rotY (rotates 1).1 (rotates 1).2))
    (hasDerivAt_rotX (rotates 0).1 (rotates 0).2) i j

/-- The slope of the rotation of `GetDerivatives2`. -/
noncomputable def axisAngleSlope (rotateVec velocity : Fin 4 → ℝ) : Matrix (Fin 3) (Fin 3) ℝ :=
  let cos_r := Real.cos (rotateVec 3)
  let sin_r := Real.sin (rotateVec 3)
  let product := fun i j : Fin 4 =>
    (velocity i * rotateVec j + rotateVec i * velocity j) * (1 - cos_r) +
      rotateVec i * rotateVec j * (sin_r * velocity 3)
  let turn := fun i : Fin 4 => velocity i * sin_r + rotateVec i * (cos_r * velocity 3)
  let fade := -sin_r * velocity 3
  !![product 0 0 + fade, product 0 1 + turn 2, product 0 2 - turn 1;
    product 0 1 - turn 2, product 1 1 + fade, product 1 2 + turn 0;
    product 0 2 + turn 1, product 1 2 - turn 0, product 2 2 + fade]

theorem hasDerivAt_axisAngleMatrix {rotateVec : ℝ → Fin 4 → ℝ} {velocity : Fin 4 → ℝ}
    (moves : ∀ i, HasDerivAt (fun s => rotateVec s i) (velocity i) x) (i j : Fin 3) :
    HasDerivAt (fun s => axisAngleMatrix .real (rotateVec s) i j)
      (axisAngleSlope (rotateVec x) velocity i j) x := by
  have cos := (moves 3).cos
  have turn := fun i => (moves i).fun_mul (moves 3).sin
  have product := fun i j => ((moves i).fun_mul (moves j)).fun_mul (cos.const_sub 1)
  have product : ∀ i j, HasDerivAt
      (fun s => rotateVec s i * rotateVec s j * (1 - Real.cos (rotateVec s 3)))
      ((velocity i * rotateVec x j + rotateVec x i * velocity j) * (1 - Real.cos (rotateVec x 3)) +
        rotateVec x i * rotateVec x j * (Real.sin (rotateVec x 3) * velocity 3)) x :=
    fun i j => (product i j).congr_deriv (by ring)
  fin_cases i <;> fin_cases j
  exacts [(product 0 0).fun_add cos, (product 0 1).fun_add (turn 2), (product 0 2).fun_sub (turn 1),
    (product 0 1).fun_sub (turn 2), (product 1 1).fun_add cos, (product 1 2).fun_add (turn 0),
    (product 0 2).fun_add (turn 1), (product 1 2).fun_sub (turn 0), (product 2 2).fun_add cos]

/-! ### The chain rule for one pair -/

/-- The slope of the squared distance that a motion leaves, from those of the motion. -/
def slope (R R' : Matrix (Fin 3) (Fin 3) K) (t t' : Fin 3 → K)
    (pair : (Fin 3 → K) × (Fin 3 → K)) : K :=
  ∑ k, 2 * residual R t pair k * -(t' + R' *ᵥ pair.2) k

variable {rotate translate dst src : Fin 3 → ℝ} {rotateVec : Fin 4 → ℝ}

/-- **The formulas of `GetDerivatives`** are the chain rule, by the angles and by the
translation. -/
theorem derivatives_eq_slope :
    (∀ i, (derivatives .real rotate translate dst src).1 i =
        slope (eulerMatrix .real rotate) (eulerSlope rotate (Pi.single i 1)) translate 0
          (dst, src)) ∧
      ∀ i, (derivatives .real rotate translate dst src).2 i =
        slope (eulerMatrix .real rotate) 0 translate (Pi.single i 1) (dst, src) := by
  constructor <;> intro i <;> fin_cases i <;>
    simp [slope, residual, derivatives, eulerMatrix, eulerSlope, rotX, rotY, Trig.real,
      dotProduct, Fin.sum_univ_three] <;>
    ring

/-- **The formulas of `GetDerivatives2`** are the chain rule, by the axis and the angle, and by the
translation. -/
theorem derivatives2_eq_slope :
    (∀ i, (derivatives2 .real rotateVec translate dst src).1 i =
        slope (axisAngleMatrix .real rotateVec) (axisAngleSlope rotateVec (Pi.single i 1)) translate
          0 (dst, src)) ∧
      ∀ i, (derivatives2 .real rotateVec translate dst src).2 i =
        slope (axisAngleMatrix .real rotateVec) 0 translate (Pi.single i 1) (dst, src) := by
  constructor <;> intro i <;> fin_cases i <;>
    simp [slope, residual, derivatives2, axisAngleMatrix, axisAngleSlope, Trig.real,
      dotProduct, Fin.sum_univ_three] <;>
    ring

/-! ### The gradient -/

variable {ptsStart ptsEnd : List (Fin 3 → ℝ)}

theorem hasDerivAt_objective {R : ℝ → Matrix (Fin 3) (Fin 3) ℝ} {R' : Matrix (Fin 3) (Fin 3) ℝ}
    {t : ℝ → Fin 3 → ℝ} {t' : Fin 3 → ℝ}
    (rotation : ∀ i j, HasDerivAt (fun s => R s i j) (R' i j) x)
    (translation : ∀ i, HasDerivAt (fun s => t s i) (t' i) x)
    (sameLength : ptsStart.length = ptsEnd.length) :
    HasDerivAt (fun s => objective ptsStart ptsEnd (R s) (t s))
      (((ptsStart.zip ptsEnd).map (slope (R x) R' (t x) t')).sum / ptsStart.length) x := by
  have pairs : ((ptsStart.zip ptsEnd).length : ℝ) = ptsStart.length := by
    rw [List.length_zip, ← sameLength, min_self]
  rw [← pairs]
  exact hasDerivAt_meanSquare fun pair _ k =>
    hasDerivAt_residual rotation translation pair.2 pair.1 k

/-- The rotation moves. -/
theorem hasDerivAt_rotating {R : ℝ → Matrix (Fin 3) (Fin 3) ℝ} {R' : Matrix (Fin 3) (Fin 3) ℝ}
    (rotation : ∀ i j, HasDerivAt (fun s => R s i j) (R' i j) x) (translate : Fin 3 → ℝ)
    (sameLength : ptsStart.length = ptsEnd.length) :
    HasDerivAt (fun s => objective ptsStart ptsEnd (R s) translate)
      (((ptsStart.zip ptsEnd).map (slope (R x) R' translate 0)).sum / ptsStart.length) x :=
  hasDerivAt_objective rotation (fun i => hasDerivAt_const x (translate i)) sameLength

/-- A coordinate of the translation moves. -/
theorem hasDerivAt_translating (R : Matrix (Fin 3) (Fin 3) ℝ) (translate : Fin 3 → ℝ) (i : Fin 3)
    (sameLength : ptsStart.length = ptsEnd.length) :
    HasDerivAt (fun s => objective ptsStart ptsEnd R (Function.update translate i s))
      (((ptsStart.zip ptsEnd).map (slope R 0 translate (Pi.single i 1))).sum / ptsStart.length)
      (translate i) := by
  have moves := hasDerivAt_objective (fun j k => hasDerivAt_const (translate i) (R j k))
    (hasDerivAt_update translate i) sameLength
  rw [Function.update_eq_self] at moves
  exact moves

/-- **The derivatives of the alignment are the gradient** of the mean squared distance that the
motion leaves: by the angles and the translation in `GetDerivatives`, by the axis, the angle and the
translation in `GetDerivatives2`, one parameter moving at a time. -/
theorem getDerivatives_gradient {ptsStart ptsEnd : List (Fin 3 → ℝ)}
    (sameLength : ptsStart.length = ptsEnd.length) (rotate translate : Fin 3 → ℝ)
    (rotateVec : Fin 4 → ℝ) :
    (∀ i, HasDerivAt (fun s => objective ptsStart ptsEnd
          (eulerMatrix .real (Function.update rotate i s)) translate)
        ((getDerivatives .real ptsStart ptsEnd rotate translate).1 i) (rotate i)) ∧
      (∀ i, HasDerivAt (fun s => objective ptsStart ptsEnd
          (eulerMatrix .real rotate) (Function.update translate i s))
        ((getDerivatives .real ptsStart ptsEnd rotate translate).2 i) (translate i)) ∧
      (∀ i, HasDerivAt (fun s => objective ptsStart ptsEnd
          (axisAngleMatrix .real (Function.update rotateVec i s)) translate)
        ((getDerivatives2 .real ptsStart ptsEnd rotateVec translate).1 i) (rotateVec i)) ∧
      ∀ i, HasDerivAt (fun s => objective ptsStart ptsEnd
          (axisAngleMatrix .real rotateVec) (Function.update translate i s))
        ((getDerivatives2 .real ptsStart ptsEnd rotateVec translate).2 i) (translate i) := by
  refine ⟨fun i => ?_, fun i => ?_, fun i => ?_, fun i => ?_⟩
  · have turns := hasDerivAt_rotating
      (hasDerivAt_eulerMatrix (hasDerivAt_update rotate i)) translate sameLength
    rw [Function.update_eq_self] at turns
    rw [getDerivatives, scores_eq.1]
    simpa only [derivatives_eq_slope] using turns
  · rw [getDerivatives, scores_eq.2]
    simpa only [derivatives_eq_slope] using
      hasDerivAt_translating (eulerMatrix .real rotate) translate i sameLength
  · have turns := hasDerivAt_rotating
      (hasDerivAt_axisAngleMatrix (hasDerivAt_update rotateVec i)) translate sameLength
    rw [Function.update_eq_self] at turns
    rw [getDerivatives2, scores_eq.1]
    simpa only [derivatives2_eq_slope] using turns
  · rw [getDerivatives2, scores_eq.2]
    simpa only [derivatives2_eq_slope] using
      hasDerivAt_translating (axisAngleMatrix .real rotateVec) translate i sameLength

/-- The derivative by the first angle, for two pairs of points. -/
theorem getDerivatives_gradient_two_pairs :
    HasDerivAt (fun s => objective [![0, 0, 1], ![1, 0, 0]] [![0, 1, 0], ![1, 0, 0]]
        (eulerMatrix .real (Function.update 0 0 s)) 0)
      ((getDerivatives .real [![0, 0, 1], ![1, 0, 0]] [![0, 1, 0], ![1, 0, 0]] 0 0).1 0) 0 :=
  (@getDerivatives_gradient [![0, 0, 1], ![1, 0, 0]] [![0, 1, 0], ![1, 0, 0]] rfl 0 0 0).1 0

end Sqwar.Alignment
