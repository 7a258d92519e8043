import Mathlib.Algebra.BigOperators.Group.List.Basic
import Mathlib.Algebra.Field.Defs
import Mathlib.Algebra.Group.Pi.Basic
import Mathlib.Data.Fin.VecNotation
import Sqwar.Data.LittleEndian

/-!
# The derivatives of the alignment

`GetDerivatives` and `GetDerivatives2` add up, over the pairs of points, the expanded derivatives of
a squared distance by the parameters of a motion, and divide by the number of pairs. The functions
of angles are those of the library.
-/

set_option autoImplicit false

namespace Sqwar.Alignment

variable {K ι : Type*}

/-- `cos` and `sin`. -/
structure Trig (K : Type*) where
  cos : K → K
  sin : K → K

variable [Field K]

/-- The loop over the pairs of points, for lists of one length: what the body adds to `ud` and `td`
for each pair is added up, and the sums are multiplied by `invlen`. -/
def scores (body : (Fin 3 → K) → (Fin 3 → K) → (ι → K) × (Fin 3 → K))
    (ptsStart ptsEnd : List (Fin 3 → K)) : (ι → K) × (Fin 3 → K) :=
  let invlen := 1 / (ptsStart.length : K)
  let (ud, td) := (ptsStart.zip ptsEnd).foldl
    (fun sums pair =>
      let derivs := body pair.1 pair.2
      (sums.1 + derivs.1, sums.2 + derivs.2)) (0, 0)
  (fun i => ud i * invlen, fun i => td i * invlen)

/-- The loop body of `GetDerivatives`. -/
def derivatives (trig : Trig K) (rotateVec translate dst src : Fin 3 → K) :
    (Fin 3 → K) × (Fin 3 → K) :=
  let tx := translate 0
  let ty := translate 1
  let tz := translate 2
  let cosrx := trig.cos (rotateVec 0)
  let sinrx := trig.sin (rotateVec 0)
  let cosry := trig.cos (rotateVec 1)
  let sinry := trig.sin (rotateVec 1)
  let cosrz := trig.cos (rotateVec 2)
  let sinrz := trig.sin (rotateVec 2)
  let x_src := src 0
  let y_src := src 1
  let z_src := src 2
  let x_dst := dst 0
  let y_dst := dst 1
  let z_dst := dst 2
  let derivrx :=
    2 * (-tx + x_dst - cosry * x_src - sinrx * sinry * y_src - cosrx * sinry * z_src) *
      (-cosrx * sinry * y_src + sinrx * sinry * z_src) +
      2 * (-(cosrx * cosry * cosrz - sinrx * sinrz) * y_src -
          (-cosry * cosrz * sinrx - cosrx * sinrz) * z_src) *
        (-tz + cosrz * sinry * x_src - (cosry * cosrz * sinrx + cosrx * sinrz) * y_src + z_dst -
          (cosrx * cosry * cosrz - sinrx * sinrz) * z_src) +
      2 * (-ty - sinry * sinrz * x_src + y_dst - (cosrx * cosrz - cosry * sinrx * sinrz) * y_src -
          (-cosrz * sinrx - cosrx * cosry * sinrz) * z_src) *
        (-(-cosrz * sinrx - cosrx * cosry * sinrz) * y_src -
          (-cosrx * cosrz + cosry * sinrx * sinrz) * z_src)
  let derivry :=
    2 * (sinry * x_src - cosry * sinrx * y_src - cosrx * cosry * z_src) *
      (-tx + x_dst - cosry * x_src - sinrx * sinry * y_src - cosrx * sinry * z_src) +
      2 * (-cosry * sinrz * x_src - sinrx * sinry * sinrz * y_src -
          cosrx * sinry * sinrz * z_src) *
        (-ty - sinry * sinrz * x_src + y_dst - (cosrx * cosrz - cosry * sinrx * sinrz) * y_src -
          (-cosrz * sinrx - cosrx * cosry * sinrz) * z_src) +
      2 * (cosry * cosrz * x_src + cosrz * sinrx * sinry * y_src + cosrx * cosrz * sinry * z_src) *
        (-tz + cosrz * sinry * x_src - (cosry * cosrz * sinrx + cosrx * sinrz) * y_src + z_dst -
          (cosrx * cosry * cosrz - sinrx * sinrz) * z_src)
  let derivrz :=
    2 * (-sinry * sinrz * x_src - (cosrx * cosrz - cosry * sinrx * sinrz) * y_src -
        (-cosrz * sinrx - cosrx * cosry * sinrz) * z_src) *
      (-tz + cosrz * sinry * x_src - (cosry * cosrz * sinrx + cosrx * sinrz) * y_src + z_dst -
        (cosrx * cosry * cosrz - sinrx * sinrz) * z_src) +
      2 * (-ty - sinry * sinrz * x_src + y_dst - (cosrx * cosrz - cosry * sinrx * sinrz) * y_src -
          (-cosrz * sinrx - cosrx * cosry * sinrz) * z_src) *
        (-cosrz * sinry * x_src - (-cosry * cosrz * sinrx - cosrx * sinrz) * y_src -
          (-cosrx * cosry * cosrz + sinrx * sinrz) * z_src)
  let derivtx :=
    -2 * (-tx + x_dst - cosry * x_src - sinrx * sinry * y_src - cosrx * sinry * z_src)
  let derivty :=
    -2 * (-ty - sinry * sinrz * x_src + y_dst - (cosrx * cosrz - cosry * sinrx * sinrz) * y_src -
        (-cosrz * sinrx - cosrx * cosry * sinrz) * z_src)
  let derivtz :=
    -2 * (-tz + cosrz * sinry * x_src - (cosry * cosrz * sinrx + cosrx * sinrz) * y_src + z_dst -
        (cosrx * cosry * cosrz - sinrx * sinrz) * z_src)
  (![derivrx, derivry, derivrz], ![derivtx, derivty, derivtz])

/-- `GetDerivatives`. -/
def getDerivatives (trig : Trig K) (ptsStart ptsEnd : List (Fin 3 → K))
    (rotateVec translate : Fin 3 → K) : (Fin 3 → K) × (Fin 3 → K) :=
  scores (derivatives trig rotateVec translate) ptsStart ptsEnd

/-- The loop body of `GetDerivatives2`. The angle is the last of the parameters. -/
def derivatives2 (trig : Trig K) (rotateVec : Fin 4 → K) (translate dst src : Fin 3 → K) :
    (Fin 4 → K) × (Fin 3 → K) :=
  let cos_r := trig.cos (rotateVec 3)
  let sin_r := trig.sin (rotateVec 3)
  let ux := rotateVec 0
  let uy := rotateVec 1
  let uz := rotateVec 2
  let tx := translate 0
  let ty := translate 1
  let tz := translate 2
  let x_src := src 0
  let y_src := src 1
  let z_src := src 2
  let x_dst := dst 0
  let y_dst := dst 1
  let z_dst := dst 2
  let dr :=
    2 * ((-tx) + x_dst - ((ux * ux) * (1 - cos_r) + cos_r) * x_src -
        (ux * uy * (1 - cos_r) + uz * sin_r) * y_src -
        (ux * uz * (1 - cos_r) - uy * sin_r) * z_src) *
      ((-((-sin_r) + (ux * ux) * sin_r)) * x_src - (uz * cos_r + ux * uy * sin_r) * y_src -
        ((-uy) * cos_r + ux * uz * sin_r) * z_src) +
      2 * ((-ty) - (ux * uy * (1 - cos_r) - uz * sin_r) * x_src + y_dst -
          ((uy * uy) * (1 - cos_r) + cos_r) * y_src -
          (uy * uz * (1 - cos_r) + ux * sin_r) * z_src) *
        ((-((-uz) * cos_r + ux * uy * sin_r)) * x_src - ((-sin_r) + (uy * uy) * sin_r) * y_src -
          (ux * cos_r + uy * uz * sin_r) * z_src) +
      2 * ((-tz) - (ux * uz * (1 - cos_r) + uy * sin_r) * x_src -
          (uy * uz * (1 - cos_r) - ux * sin_r) * y_src + z_dst -
          ((uz * uz) * (1 - cos_r) + cos_r) * z_src) *
        ((-(uy * cos_r + ux * uz * sin_r)) * x_src - ((-ux) * cos_r + uy * uz * sin_r) * y_src -
          ((-sin_r) + (uz * uz) * sin_r) * z_src)
  let dux :=
    2 * ((-uz) * (1 - cos_r) * x_src + sin_r * y_src) *
      ((-tz) - (ux * uz * (1 - cos_r) + uy * sin_r) * x_src -
        (uy * uz * (1 - cos_r) - ux * sin_r) * y_src + z_dst -
        ((uz * uz) * (1 - cos_r) + cos_r) * z_src) +
      2 * ((-uy) * (1 - cos_r) * x_src - sin_r * z_src) *
        ((-ty) - (ux * uy * (1 - cos_r) - uz * sin_r) * x_src + y_dst -
          ((uy * uy) * (1 - cos_r) + cos_r) * y_src -
          (uy * uz * (1 - cos_r) + ux * sin_r) * z_src) +
      2 * ((-2) * ux * (1 - cos_r) * x_src - uy * (1 - cos_r) * y_src - uz * (1 - cos_r) * z_src) *
        ((-tx) + x_dst - ((ux * ux) * (1 - cos_r) + cos_r) * x_src -
          (ux * uy * (1 - cos_r) + uz * sin_r) * y_src -
          (ux * uz * (1 - cos_r) - uy * sin_r) * z_src)
  let duy :=
    2 * ((-sin_r) * x_src - uz * (1 - cos_r) * y_src) *
      ((-tz) - (ux * uz * (1 - cos_r) + uy * sin_r) * x_src -
        (uy * uz * (1 - cos_r) - ux * sin_r) * y_src + z_dst -
        ((uz * uz) * (1 - cos_r) + cos_r) * z_src) +
      2 * ((-ux) * (1 - cos_r) * x_src - 2 * uy * (1 - cos_r) * y_src - uz * (1 - cos_r) * z_src) *
        ((-ty) - (ux * uy * (1 - cos_r) - uz * sin_r) * x_src + y_dst -
          ((uy * uy) * (1 - cos_r) + cos_r) * y_src -
          (uy * uz * (1 - cos_r) + ux * sin_r) * z_src) +
      2 * ((-ux) * (1 - cos_r) * y_src + sin_r * z_src) *
        ((-tx) + x_dst - ((ux * ux) * (1 - cos_r) + cos_r) * x_src -
          (ux * uy * (1 - cos_r) + uz * sin_r) * y_src -
          (ux * uz * (1 - cos_r) - uy * sin_r) * z_src)
  let duz :=
    2 * ((-ux) * (1 - cos_r) * x_src - uy * (1 - cos_r) * y_src - 2 * uz * (1 - cos_r) * z_src) *
      ((-tz) - (ux * uz * (1 - cos_r) + uy * sin_r) * x_src -
        (uy * uz * (1 - cos_r) - ux * sin_r) * y_src + z_dst -
        ((uz * uz) * (1 - cos_r) + cos_r) * z_src) +
      2 * (sin_r * x_src - uy * (1 - cos_r) * z_src) *
        ((-ty) - (ux * uy * (1 - cos_r) - uz * sin_r) * x_src + y_dst -
          ((uy * uy) * (1 - cos_r) + cos_r) * y_src -
          (uy * uz * (1 - cos_r) + ux * sin_r) * z_src) +
      2 * ((-sin_r) * y_src - ux * (1 - cos_r) * z_src) *
        ((-tx) + x_dst - ((ux * ux) * (1 - cos_r) + cos_r) * x_src -
          (ux * uy * (1 - cos_r) + uz * sin_r) * y_src -
          (ux * uz * (1 - cos_r) - uy * sin_r) * z_src)
  let dtx :=
    (-2) * ((-tx) + x_dst - ((ux * ux) * (1 - cos_r) + cos_r) * x_src -
        (ux * uy * (1 - cos_r) + uz * sin_r) * y_src -
        (ux * uz * (1 - cos_r) - uy * sin_r) * z_src)
  let dty :=
    (-2) * ((-ty) - (ux * uy * (1 - cos_r) - uz * sin_r) * x_src + y_dst -
        ((uy * uy) * (1 - cos_r) + cos_r) * y_src -
        (uy * uz * (1 - cos_r) + ux * sin_r) * z_src)
  let dtz :=
    (-2) * ((-tz) - (ux * uz * (1 - cos_r) + uy * sin_r) * x_src -
        (uy * uz * (1 - cos_r) - ux * sin_r) * y_src + z_dst -
        ((uz * uz) * (1 - cos_r) + cos_r) * z_src)
  (![dux, duy, duz, dr], ![dtx, dty, dtz])

/-- `GetDerivatives2`. -/
def getDerivatives2 (trig : Trig K) (ptsStart ptsEnd : List (Fin 3 → K))
    (rotateVec : Fin 4 → K) (translate : Fin 3 → K) : (Fin 4 → K) × (Fin 3 → K) :=
  scores (derivatives2 trig rotateVec translate) ptsStart ptsEnd

/-- The loop adds up. -/
theorem scores_eq {body : (Fin 3 → K) → (Fin 3 → K) → (ι → K) × (Fin 3 → K)}
    {ptsStart ptsEnd : List (Fin 3 → K)} :
    (∀ i, (scores body ptsStart ptsEnd).1 i =
        ((ptsStart.zip ptsEnd).map fun pair => (body pair.1 pair.2).1 i).sum / ptsStart.length) ∧
      ∀ i, (scores body ptsStart ptsEnd).2 i =
        ((ptsStart.zip ptsEnd).map fun pair => (body pair.1 pair.2).2 i).sum / ptsStart.length := by
  have sums : ∀ (pairs : List ((Fin 3 → K) × (Fin 3 → K))) (start : (ι → K) × (Fin 3 → K)),
      (∀ i, (pairs.foldl (fun sums pair => (sums.1 + (body pair.1 pair.2).1,
          sums.2 + (body pair.1 pair.2).2)) start).1 i =
        start.1 i + (pairs.map fun pair => (body pair.1 pair.2).1 i).sum) ∧
      ∀ i, (pairs.foldl (fun sums pair => (sums.1 + (body pair.1 pair.2).1,
          sums.2 + (body pair.1 pair.2).2)) start).2 i =
        start.2 i + (pairs.map fun pair => (body pair.1 pair.2).2 i).sum := by
    intro pairs
    induction pairs with
    | nil => simp
    | cons pair pairs ih => simp [ih, add_assoc]
  obtain ⟨first, second⟩ := sums (ptsStart.zip ptsEnd) (0, 0)
  constructor <;> intro i <;> rw [div_eq_mul_one_div]
  · exact congrArg (· * _) ((first i).trans (zero_add _))
  · exact congrArg (· * _) ((second i).trans (zero_add _))

end Sqwar.Alignment
