import Mathlib.Analysis.Calculus.Deriv.Add
import Mathlib.Analysis.Calculus.Deriv.Mul
import Mathlib.Analysis.Calculus.Deriv.Pow
import Mathlib.Data.Matrix.Mul
import Mathlib.Topology.Algebra.Module.ModuleTopology
import Sqwar.Data.LittleEndian

/-!
# Least squares

The mean of squared lengths of residuals, and its derivative along a curve of the parameters: twice
the mean of the products of the residuals with their slopes. Residuals of an affine map get their
slopes from those of the matrix and of the translation.
-/

set_option autoImplicit false

open scoped Matrix

namespace Data

variable {ι κ l m n : Type*}

/-- The mean of the squared lengths. -/
def meanSquare {K : Type*} [Field K] [Fintype κ] (residuals : List (κ → K)) : K :=
  (residuals.map fun r => ∑ k, r k ^ 2).sum / residuals.length

/-! ### Derivatives along a curve -/

variable {samples : List ι} {x : ℝ}

theorem hasDerivAt_list_sum {f : ι → ℝ → ℝ} {f' : ι → ℝ}
    (each : ∀ i ∈ samples, HasDerivAt (f i) (f' i) x) :
    HasDerivAt (fun s => (samples.map fun i => f i s).sum) (samples.map f').sum x := by
  induction samples with
  | nil => exact hasDerivAt_const x 0
  | cons i samples ih =>
    obtain ⟨first, rest⟩ := List.forall_mem_cons.mp each
    simp only [List.map_cons, List.sum_cons]
    exact first.fun_add (ih rest)

/-- **The slope of a mean of squares.** -/
theorem hasDerivAt_meanSquare [Fintype κ] {residual : ι → ℝ → κ → ℝ} {slope : ι → κ → ℝ}
    (each : ∀ i ∈ samples, ∀ k, HasDerivAt (fun s => residual i s k) (slope i k) x) :
    HasDerivAt (fun s => meanSquare (samples.map fun i => residual i s))
      ((samples.map fun i => ∑ k, 2 * residual i x k * slope i k).sum / samples.length) x := by
  have squares : ∀ i ∈ samples, HasDerivAt (fun s => ∑ k, residual i s k ^ 2)
      (∑ k, 2 * residual i x k * slope i k) x := by
    intro i member
    refine HasDerivAt.fun_sum fun k _ => ?_
    exact ((each i member k).pow 2).congr_deriv (by simp)
  simp only [meanSquare, List.map_map, List.length_map]
  exact (hasDerivAt_list_sum squares).div_const _

/-- The slopes of a product of matrices. -/
theorem hasDerivAt_mul_apply [Fintype m] {A : ℝ → Matrix l m ℝ} {A' : Matrix l m ℝ}
    {B : ℝ → Matrix m n ℝ} {B' : Matrix m n ℝ}
    (left : ∀ i j, HasDerivAt (fun s => A s i j) (A' i j) x)
    (right : ∀ i j, HasDerivAt (fun s => B s i j) (B' i j) x) (i : l) (j : n) :
    HasDerivAt (fun s => (A s * B s) i j) ((A' * B x + A x * B') i j) x := by
  simp only [Matrix.add_apply, Matrix.mul_apply, ← Finset.sum_add_distrib]
  exact HasDerivAt.fun_sum fun k _ => (left i k).mul (right k j)

/-- The slope of the residual of an affine map. -/
theorem hasDerivAt_residual [Fintype n] {R : ℝ → Matrix m n ℝ} {R' : Matrix m n ℝ} {t : ℝ → m → ℝ}
    {t' : m → ℝ} (rotation : ∀ i j, HasDerivAt (fun s => R s i j) (R' i j) x)
    (translation : ∀ i, HasDerivAt (fun s => t s i) (t' i) x) (src : n → ℝ) (dst : m → ℝ) (i : m) :
    HasDerivAt (fun s => (dst - t s - R s *ᵥ src) i) (-(t' + R' *ᵥ src) i) x := by
  have moved : HasDerivAt (fun s => (R s *ᵥ src) i) ((R' *ᵥ src) i) x :=
    HasDerivAt.fun_sum fun j _ => (rotation i j).mul_const (src j)
  exact (((translation i).const_sub (dst i)).fun_sub moved).congr_deriv (neg_add' _ _).symm

/-- The slopes of the coordinates, where one of them moves. -/
theorem hasDerivAt_update [DecidableEq κ] (v : κ → ℝ) (i k : κ) :
    HasDerivAt (fun s => Function.update v i s k) ((Pi.single i 1 : κ → ℝ) k) (v i) := by
  by_cases same : k = i
  · subst same
    simpa using hasDerivAt_id' (v k)
  · simpa [same] using hasDerivAt_const (v i) (v k)

end Data
