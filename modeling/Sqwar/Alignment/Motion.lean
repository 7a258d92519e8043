import Mathlib.Analysis.SpecialFunctions.Trigonometric.Basic
import Sqwar.Alignment.Gmtl
import Sqwar.Alignment.Gradient

/-!
# The motion that the alignment applies

`AlignStep` builds a matrix from the angles and the translation that `BestFit` fitted. `BestFit`
rotates about the axes in the order of the angles and then moves; the products of `AlignStep` are
the other way around, they move first and rotate in the opposite order.
-/

set_option autoImplicit false

open scoped Matrix

namespace Sqwar.Alignment

variable {K : Type*} [Field K]

/-- The `transform` of `AlignStep`. -/
def alignTransform (trig : Trig K) (translate2 rotate2 : Fin 3 → K) : Matrix (Fin 4) (Fin 4) K :=
  let qx := Quat.make trig (rotate2 0) ![1, 0, 0]
  let qy := Quat.make trig (rotate2 1) ![0, 1, 0]
  let qz := Quat.make trig (rotate2 2) ![1, 0, 0]
  let q := qx * qy * qz
  let rotmat := makeRot q
  let trnsmat := makeTrans translate2
  rotmat * trnsmat

/-! ### The quaternions of real angles -/

variable {a b c angle : ℝ}

theorem normSq_make {axis : Fin 3 → ℝ} (unit : axis 0 ^ 2 + axis 1 ^ 2 + axis 2 ^ 2 = 1) :
    (Quat.make .real angle axis).normSq = 1 := by
  simp only [Quat.make, Quat.normSq, Trig.real]
  linear_combination Real.sin_sq_add_cos_sq (angle * (1 / 2)) +
    Real.sin (angle * (1 / 2)) ^ 2 * unit

/-- The functions of an angle by those of its half. -/
theorem half_angle (angle : ℝ) :
    Real.cos angle = 1 - 2 * Real.sin (angle * (1 / 2)) ^ 2 ∧
      Real.sin angle = 2 * Real.sin (angle * (1 / 2)) * Real.cos (angle * (1 / 2)) := by
  have twice : angle = 2 * (angle * (1 / 2)) := by ring
  constructor
  · conv_lhs => rw [twice, Real.cos_two_mul]
    linear_combination 2 * Real.sin_sq_add_cos_sq (angle * (1 / 2))
  · conv_lhs => rw [twice, Real.sin_two_mul]

theorem rotation_make_x :
    (Quat.make .real angle ![1, 0, 0]).rotation = rotX (Real.cos angle) (Real.sin angle) := by
  obtain ⟨cos, sin⟩ := half_angle angle
  rw [cos, sin]
  ext i j
  fin_cases i <;> fin_cases j <;> simp [Quat.make, Quat.rotation, Trig.real, rotX] <;> ring

theorem rotation_make_y :
    (Quat.make .real angle ![0, 1, 0]).rotation = rotY (Real.cos angle) (Real.sin angle) := by
  obtain ⟨cos, sin⟩ := half_angle angle
  rw [cos, sin]
  ext i j
  fin_cases i <;> fin_cases j <;> simp [Quat.make, Quat.rotation, Trig.real, rotY] <;> ring

/-- Rotations about the x axis, the y axis and the x axis, the last angle first. -/
noncomputable def turns (a b c : ℝ) : Matrix (Fin 3) (Fin 3) ℝ :=
  rotX (Real.cos a) (Real.sin a) * rotY (Real.cos b) (Real.sin b) *
    rotX (Real.cos c) (Real.sin c)

variable {translate2 rotate2 p : Fin 3 → ℝ}

/-- **What `AlignStep` does to a point.** -/
theorem xform_alignTransform : xform (alignTransform .real translate2 rotate2) p =
    turns (rotate2 0) (rotate2 1) (rotate2 2) *ᵥ (p + translate2) := by
  have unit_x : ∀ angle, (Quat.make .real angle ![1, 0, 0]).normSq = 1 := fun _ =>
    normSq_make (by simp)
  have unit_y : ∀ angle, (Quat.make .real angle ![0, 1, 0]).normSq = 1 := fun _ =>
    normSq_make (by simp)
  rw [alignTransform, xform_makeRot_mul_makeTrans, turns,
    Quat.rotation_mul (by rw [Quat.normSq_mul, unit_x, unit_y, one_mul]) (unit_x _),
    Quat.rotation_mul (unit_x _) (unit_y _), rotation_make_x, rotation_make_y, rotation_make_x]

/-- What `BestFit` rotates by. -/
theorem eulerMatrix_eq_turns :
    eulerMatrix .real rotate2 = turns (rotate2 2) (rotate2 1) (rotate2 0) :=
  eulerMatrix_eq .real rotate2

/-! ### The two orders of the angles -/

theorem turns_eq : turns a b c =
    !![Real.cos b, Real.sin b * Real.sin c, Real.sin b * Real.cos c;
      Real.sin a * Real.sin b, Real.cos a * Real.cos c - Real.sin a * Real.cos b * Real.sin c,
        -Real.cos a * Real.sin c - Real.sin a * Real.cos b * Real.cos c;
      -Real.cos a * Real.sin b, Real.sin a * Real.cos c + Real.cos a * Real.cos b * Real.sin c,
        Real.cos a * Real.cos b * Real.cos c - Real.sin a * Real.sin c] := by
  ext i j
  fin_cases i <;> fin_cases j <;>
    simp [turns, rotX, rotY, Matrix.mul_apply, Fin.sum_univ_three] <;> ring

/-- The orders differ in three ways. -/
theorem turns_comm_iff : turns a b c = turns c b a ↔
    Real.sin b * (Real.sin a - Real.sin c) = 0 ∧ Real.sin b * (Real.cos a - Real.cos c) = 0 ∧
      (Real.cos b - 1) * Real.sin (a - c) = 0 := by
  rw [Real.sin_sub, turns_eq, turns_eq]
  simp only [EmbeddingLike.apply_eq_iff_eq, Matrix.vecCons_inj, and_true, true_and]
  constructor
  · rintro ⟨⟨first, second⟩, ⟨_, _, third⟩, _⟩
    exact ⟨by linarith, by linarith, by linarith⟩
  · rintro ⟨sin, cos, middle⟩
    refine ⟨⟨?_, ?_⟩, ⟨?_, ?_, ?_⟩, ?_, ?_, ?_⟩
    all_goals linarith

/-- **The order of the angles matters**, up to a turn about the y axis by none or to the back, or
equal turns about the x axis. -/
theorem turns_comm_iff_cos : turns a b c = turns c b a ↔
    Real.cos b = 1 ∨ Real.cos (a - c) = 1 ∨ Real.cos b = -1 ∧ Real.sin (a - c) = 0 := by
  rw [turns_comm_iff]
  have circle_b := Real.sin_sq_add_cos_sq b
  have circle := Real.sin_sq_add_cos_sq (a - c)
  -- the distance of two points of the circle
  have chord : (Real.sin a - Real.sin c) ^ 2 + (Real.cos a - Real.cos c) ^ 2 =
      2 - 2 * Real.cos (a - c) := by
    rw [Real.cos_sub]
    linear_combination Real.sin_sq_add_cos_sq a + Real.sin_sq_add_cos_sq c
  constructor
  · rintro ⟨sin, cos, middle⟩
    by_cases zero : Real.sin b = 0
    · have square : (Real.cos b - 1) * (Real.cos b + 1) = 0 := by
        rw [zero] at circle_b
        linarith
      rcases mul_eq_zero.mp square with none | back
      · exact .inl (sub_eq_zero.mp none)
      · rcases mul_eq_zero.mp middle with none | straight
        · exact .inl (sub_eq_zero.mp none)
        · exact .inr (.inr ⟨eq_neg_of_add_eq_zero_left back, straight⟩)
    · rw [(mul_eq_zero.mp sin).resolve_left zero, (mul_eq_zero.mp cos).resolve_left zero] at chord
      exact .inr (.inl (by linarith))
  · rintro (none | equal | ⟨back, straight⟩)
    · have zero : Real.sin b = 0 := by
        rw [none] at circle_b
        exact pow_eq_zero_iff two_ne_zero |>.mp (by linarith)
      simp [zero, none]
    · rw [equal] at chord circle
      have straight : Real.sin (a - c) = 0 := pow_eq_zero_iff two_ne_zero |>.mp (by linarith)
      have sin_eq : Real.sin a - Real.sin c = 0 := by nlinarith
      have cos_eq : Real.cos a - Real.cos c = 0 := by nlinarith
      simp [straight, sin_eq, cos_eq]
    · have zero : Real.sin b = 0 := by
        rw [back] at circle_b
        exact pow_eq_zero_iff two_ne_zero |>.mp (by linarith)
      simp [zero, straight]

/-! ### The motion that was fitted -/

/-- Motions are the same if they rotate and move the same way. -/
theorem mulVec_add_eq_iff {A B : Matrix (Fin 3) (Fin 3) ℝ} {t : Fin 3 → ℝ} :
    (∀ p, A *ᵥ (p + t) = B *ᵥ p + t) ↔ A = B ∧ B *ᵥ t = t := by
  constructor
  · intro same
    have moved : A *ᵥ t = t := by simpa using same 0
    have rotation : A = B := by
      refine Matrix.ext_of_mulVec_single fun i => ?_
      have := same (Pi.single i 1)
      rwa [Matrix.mulVec_add, moved, add_left_inj] at this
    exact ⟨rotation, rotation ▸ moved⟩
  · rintro ⟨rfl, fixed⟩ p
    rw [Matrix.mulVec_add, fixed]

/-- **When `AlignStep` applies the motion that was fitted**: if the two orders of the angles are the
same rotation, and this leaves the translation where it is. -/
theorem alignTransform_iff (translate2 rotate2 : Fin 3 → ℝ) :
    (∀ p, xform (alignTransform .real translate2 rotate2) p =
        eulerMatrix .real rotate2 *ᵥ p + translate2) ↔
      (Real.cos (rotate2 1) = 1 ∨ Real.cos (rotate2 0 - rotate2 2) = 1 ∨
          Real.cos (rotate2 1) = -1 ∧ Real.sin (rotate2 0 - rotate2 2) = 0) ∧
        eulerMatrix .real rotate2 *ᵥ translate2 = translate2 := by
  simp only [xform_alignTransform]
  rw [mulVec_add_eq_iff, eulerMatrix_eq_turns, turns_comm_iff_cos]

/-- **The fitted motion is not applied.** Half a turn about the x axis moves the translation to the
other side, and a quarter turn about the x axis before half a turn about the y axis is not the one
after it. -/
theorem alignTransform_half_turn :
    xform (alignTransform .real ![0, 1, 0] ![Real.pi, 0, 0]) 0 ≠
        eulerMatrix .real ![Real.pi, 0, 0] *ᵥ 0 + ![0, 1, 0] ∧
      xform (alignTransform .real 0 ![Real.pi / 2, Real.pi, 0]) ![0, 1, 0] ≠
        eulerMatrix .real ![Real.pi / 2, Real.pi, 0] *ᵥ ![0, 1, 0] + 0 := by
  constructor
  · intro same
    have second := congrFun same 1
    rw [xform_alignTransform, turns_eq, Matrix.mulVec_zero] at second
    simp [Matrix.mulVec, dotProduct, Fin.sum_univ_three] at second
    norm_num at second
  · intro same
    have third := congrFun same 2
    rw [xform_alignTransform, eulerMatrix_eq_turns, turns_eq, turns_eq] at third
    simp [Matrix.mulVec, dotProduct, Fin.sum_univ_three] at third
    norm_num at third

end Sqwar.Alignment
