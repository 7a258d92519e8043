import Sqwar.Data.ExactFloat
import Sqwar.Data.Memory

/-!
# Depth pyramids

`DepthBuildLods` writes the levels of a pyramid one after another: it averages inverse depths and
inverts them back at the end. `ConvertDepthToYUV` allocates the levels, has them built and fills
the holes of each from the next coarser one, down to the depths themselves.

Sizes and indices are natural numbers here. In the source they are ints: `Depth.Checked` has the
calls that then end, those with a level and with a number of cells that is an int, and shows that
they are these ones.
-/

set_option autoImplicit false

namespace Sqwar.Depth

open Data Function

/-- The buffers of `ConvertDepthToYUV`: its argument `data` and its vector `lods`, and the vector
`dinv` of `DepthBuildLods`. -/
inductive Buffer | data | lods | dinv
  deriving DecidableEq, Repr

abbrev Floats := Memory Buffer ExactFloat

/-! ### `DepthBuildLods` -/

/-- `1.0f / *dptr` where there is a depth. -/
def inverse (v : ExactFloat) : ExactFloat :=
  if v.isNaN || v.isInf then .nan else .num 1 / v

/-- The loop that fills `dinv`. -/
def buildInverses (dbuf : Pointer Buffer) (depthWidth depthHeight : ℕ) (m : Floats) : Floats :=
  (List.range (depthWidth * depthHeight)).foldl
    (fun m i => update m (Pointer.base Buffer.dinv + i) (inverse (m (dbuf + i)))) m

/-- The loop over `v[4]`: `vf` and `t`. -/
def accumulate (v : List ExactFloat) : ExactFloat × ℚ :=
  v.foldl (fun (vf, t) vi => if vi.isNaN then (vf, t) else (vf + vi, t + 1)) (.num 0, 0)

/-- `(t > 0) ? (vf / t) : NAN`. -/
def average (v : List ExactFloat) : ExactFloat :=
  if (accumulate v).2 > 0 then (accumulate v).1 / .num (accumulate v).2 else .nan

/-- One level, read at `dsrc` and written at `dptr`. -/
def buildLevel (dsrc dptr : Pointer Buffer) (dsw dw dh : ℕ) (m : Floats) : Floats :=
  (grid dw dh).foldl (fun m (x, y) => update m (dptr + (y * dw + x)) (average
    [m (dsrc + (y * 2 * dsw + x * 2)), m (dsrc + (y * 2 * dsw + x * 2 + 1)),
      m (dsrc + ((y * 2 + 1) * dsw + x * 2)), m (dsrc + ((y * 2 + 1) * dsw + x * 2 + 1))])) m

/-- The loop over the levels. It also returns `dptr`, the end of what it has written. -/
def buildLevels (dsrc dptr : Pointer Buffer) (dsw dw dh : ℕ) (m : Floats) :
    Floats × Pointer Buffer :=
  -- `dsw` is halved like `dw`, so it stays the width of the level below
  if 16 ≤ dw then
    buildLevels dptr (dptr + dw * dh) (dsw / 2) (dw / 2) (dh / 2) (buildLevel dsrc dptr dsw dw dh m)
  else (m, dptr)
termination_by dw

/-- The last loop. -/
def invertLods (outpts dend : Pointer Buffer) (m : Floats) : Floats :=
  (List.range (dend.offset - outpts.offset)).foldl (fun m i => update m (outpts + i)
    (if (m (outpts + i)).isNaN then .nan else .num 1 / m (outpts + i))) m

/-- `DepthBuildLods`. -/
def depthBuildLods (dbuf outpts : Pointer Buffer) (depthWidth depthHeight : ℕ) (m : Floats) :
    Floats :=
  let (m, dend) := buildLevels (.base .dinv) outpts depthWidth (depthWidth / 2) (depthHeight / 2)
    (buildInverses dbuf depthWidth depthHeight m)
  invertLods outpts dend m

/-! ### Hole filling -/

/-- `DepthFillEmpty`. -/
def depthFillEmpty (lod1 lod0 : Pointer Buffer) (depthWidth0 depthHeight0 : ℕ) (m : Floats) :
    Floats :=
  let depthWidth1 := depthWidth0 / 2
  (grid depthWidth0 depthHeight0).foldl (fun m (x, y) =>
    if (m (lod0 + (y * depthWidth0 + x))).isNaN then
      update m (lod0 + (y * depthWidth0 + x)) (m (lod1 + (y / 2 * depthWidth1 + x / 2)))
    else m) m

/-- The levels `ConvertDepthToYUV` makes room for. -/
structure LodTable where
  size : ℕ
  lodOffsets : List ℕ
  lodSizes : List (ℕ × ℕ)
  deriving Repr

/-- The loop that allocates the levels. -/
def allocateLods (dw dh : ℕ) (table : LodTable) : LodTable :=
  if 16 ≤ dw then
    -- the sizes are halved before they are stored, so the last level may be narrower than 16
    allocateLods (dw / 2) (dh / 2)
      { size := table.size + dw / 2 * (dh / 2)
        lodOffsets := table.lodOffsets ++ [table.size + dw / 2 * (dh / 2)]
        lodSizes := table.lodSizes ++ [(dw / 2, dh / 2)] }
  else table
termination_by dw

def lodTable (width height : ℕ) : LodTable :=
  allocateLods width height { size := 0, lodOffsets := [0], lodSizes := [] }

/-- `lodSizes.size() - 1`, in `size_t`. -/
def sizeMinusOne (size : ℕ) : ℕ := if size = 0 then 2 ^ 64 - 1 else size - 1

/-- One pass of the loop over `lodIdx`. -/
def fillLod (table : LodTable) (m : Floats) (lodIdx : ℕ) : Floats :=
  -- from the coarsest level down, each from the one above it
  let idx1 := table.lodSizes.length - lodIdx - 1
  let (lodwidth, lodheight) := table.lodSizes.getD (idx1 - 1) (0, 0)
  depthFillEmpty (Pointer.base Buffer.lods + table.lodOffsets.getD idx1 0)
    (Pointer.base Buffer.lods + table.lodOffsets.getD (idx1 - 1) 0) lodwidth lodheight m

/-- `std::vector<float> lods(size)`: the new vector holds zeros. -/
def zeroLods (size : ℕ) (m : Floats) : Floats :=
  fun p => if p.buffer = .lods ∧ p.offset < size then .num 0 else m p

/-- What `ConvertDepthToYUV` does before it encodes: it fills the holes of `data`. -/
def fillHoles (width height : ℕ) (m : Floats) : Floats :=
  let table := lodTable width height
  let m := zeroLods table.size m
  let m := depthBuildLods (.base .data) (.base .lods) width height m
  let m := (List.range (sizeMinusOne table.lodSizes.length)).foldl (fillLod table) m
  depthFillEmpty (Pointer.base Buffer.lods + table.lodOffsets.getD 0 0) (.base .data) width height m

end Sqwar.Depth
