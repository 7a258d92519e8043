import Sqwar.Depth.Lods

/-!
# The depth codec

`ConvertDepthToYUV` scales depths to 0..254 and stores their integer parts as luma bytes. The
fractions of a block of two by two cells go to its U and V bytes: U averages those of the cells
that have the luma of the first cell with a depth, and V those of the others. `ConvertYUVToDepth`
splits the block in the same way, by luma alone.
-/

set_option autoImplicit false

namespace Sqwar.Depth

open Data

/-- The three planes; `ydata`, `udata` and `vdata` point to the starts of their buffers. -/
inductive Plane | y | u | v
  deriving DecidableEq, Repr

abbrev Bytes := Memory Plane UInt8

/-! ### Encoding -/

/-- What the loop over a block keeps for the U and V bytes. -/
structure Remainders where
  u_yval : ℤ
  u_remavg : ℚ
  u_remtot : ℚ
  v_yval : ℤ
  v_remavg : ℚ
  v_remtot : ℚ

def Remainders.start : Remainders where
  u_yval := -1
  u_remavg := 0
  u_remtot := 0
  v_yval := -1
  v_remavg := 0
  v_remtot := 0

def Remainders.addU (r : Remainders) (rem : ℚ) (y : UInt8) : Remainders :=
  { r with u_remavg := r.u_remavg + rem, u_remtot := r.u_remtot + 1, u_yval := y.toNat }

def Remainders.addV (r : Remainders) (rem : ℚ) (y : UInt8) : Remainders :=
  { r with v_remavg := r.v_remavg + rem, v_remtot := r.v_remtot + 1, v_yval := y.toNat }

/-- The body of the loop over a block: the luma byte of a cell and the remainders after it. -/
def encodeCell (scalar : ℚ) (r : Remainders) : ExactFloat → UInt8 × Remainders
  | .num d =>
    let sv := d * scalar
    let rem := fraction sv
    let y := toByte sv
    -- the first depth of the block decides what the U byte is for
    if r.u_yval < 0 ∨ r.u_yval = y.toNat then (y, r.addU rem y) else (y, r.addV rem y)
  | _ => (255, r)

/-- The loop over the cells of a block. -/
def encodeCells (scalar : ℚ) : Remainders → List ExactFloat → List UInt8 × Remainders
  | r, [] => ([], r)
  | r, v :: vs =>
    let (y, r) := encodeCell scalar r v
    let (ys, r) := encodeCells scalar r vs
    (y :: ys, r)

def Remainders.uByte (r : Remainders) : UInt8 :=
  if r.u_remtot > 0 then toByte (r.u_remavg / r.u_remtot * 255) else 0

def Remainders.vByte (r : Remainders) : UInt8 :=
  if r.v_remtot > 0 then toByte (r.v_remavg / r.v_remtot * 255) else 0

/-- What one block writes to the planes. -/
def encodeBlock (width : ℕ) (scalar : ℚ) (data : Floats) (j i : ℕ) :
    List (Pointer Plane × UInt8) :=
  let v := (quad (Pointer.base Buffer.data) width j i).map data
  let outy := quad (Pointer.base Plane.y) width j i
  let (ys, r) := encodeCells scalar .start v
  outy.zip ys ++ [(Pointer.base Plane.u + i * (width / 2) + j, r.uByte),
    (Pointer.base Plane.v + i * (width / 2) + j, r.vByte)]

/-- `ConvertDepthToYUV`, for a depth limit that is not zero: the buffers after it has filled the
holes, and the planes it has written. -/
def convertDepthToYUV (width height : ℕ) (maxDepth : ℚ) (data : Floats) (planes : Bytes) :
    Floats × Bytes :=
  let data := fillHoles width height data
  (data, (blocks width height).foldl
    (fun planes (j, i) => write planes (encodeBlock width (254 / maxDepth) data j i)) planes)

/-! ### Decoding -/

/-- The body of the loop over a block: the depth of a cell and `u_yval` after it. -/
def decodeCell (scalar u_rem v_rem : ℚ) (u_yval : ℤ) (y : UInt8) : ExactFloat × ℤ :=
  if y = 255 then (.nan, u_yval)
  -- the same split as in the encoder, by the luma bytes that are left of the depths
  else if u_yval < 0 ∨ u_yval = y.toNat then (.num ((y.toNat + u_rem) * scalar), y.toNat)
  else (.num ((y.toNat + v_rem) * scalar), u_yval)

/-- The loop over the cells of a block. -/
def decodeCells (scalar u_rem v_rem : ℚ) : ℤ → List UInt8 → List ExactFloat
  | _, [] => []
  | u_yval, y :: ys =>
    let (d, u_yval) := decodeCell scalar u_rem v_rem u_yval y
    d :: decodeCells scalar u_rem v_rem u_yval ys

variable {B : Type*}

/-- What one block writes to `depthData`. -/
def decodeBlock (width : ℕ) (scalar : ℚ) (planes : Bytes) (depthData : Pointer B) (j i : ℕ) :
    List (Pointer B × ExactFloat) :=
  let iny := (quad (Pointer.base Plane.y) width j i).map planes
  let u_rem : ℚ := (planes (Pointer.base Plane.u + i * (width / 2) + j)).toNat / 255
  let v_rem : ℚ := (planes (Pointer.base Plane.v + i * (width / 2) + j)).toNat / 255
  (quad depthData width j i).zip (decodeCells scalar u_rem v_rem (-1) iny)

/-- `ConvertYUVToDepth`. -/
def convertYUVToDepth [DecidableEq B] (width height : ℕ) (maxDepth : ℚ) (planes : Bytes)
    (depthData : Pointer B) (m : Memory B ExactFloat) : Memory B ExactFloat :=
  (blocks width height).foldl
    (fun m (j, i) => write m (decodeBlock width (maxDepth / 254) planes depthData j i)) m

end Sqwar.Depth
