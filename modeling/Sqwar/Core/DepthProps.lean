import Mathlib.Data.Vector.Basic
import Sqwar.Core.StdVector
import Sqwar.Data.Binary64

/-!
# Frame properties

`DepthDataProps` and `FaceDataProps` are copied to and from byte buffers as they lie in memory.
Both are packed without padding, the timestamp first.
-/

set_option autoImplicit false

namespace Sqwar

open Data

/-- `DepthDataProps`. -/
structure DepthDataProps where
  timestamp : Binary64
  vidWidth : Word 4
  vidHeight : Word 4
  vidMode : Word 4
  depthWidth : Word 4
  depthHeight : Word 4
  depthMode : Word 4
  deriving DecidableEq, Repr

/-- `sizeof(DepthDataProps)`. -/
def sizeofDepthDataProps : ℕ := 32

/-- The object's bytes. -/
def DepthDataProps.toBytes (props : DepthDataProps) : List UInt8 :=
  encodeLE 8 props.timestamp ++ encodeWords [props.vidWidth, props.vidHeight, props.vidMode,
    props.depthWidth, props.depthHeight, props.depthMode]

/-- The object that the bytes at its address spell. -/
def DepthDataProps.ofBytes (bytes : List UInt8) : DepthDataProps :=
  let (timestamp, bytes) := takeWord 8 bytes
  let (vidWidth, bytes) := takeWord 4 bytes
  let (vidHeight, bytes) := takeWord 4 bytes
  let (vidMode, bytes) := takeWord 4 bytes
  let (depthWidth, bytes) := takeWord 4 bytes
  let (depthHeight, bytes) := takeWord 4 bytes
  let (depthMode, _) := takeWord 4 bytes
  ⟨timestamp, vidWidth, vidHeight, vidMode, depthWidth, depthHeight, depthMode⟩

@[simp] theorem DepthDataProps.toBytes_length (props : DepthDataProps) :
    props.toBytes.length = sizeofDepthDataProps := by
  rw [toBytes, List.length_append, encodeLE_length, encodeWords_length]
  rfl

@[simp] theorem DepthDataProps.ofBytes_toBytes (props : DepthDataProps) :
    ofBytes props.toBytes = props := by
  simp only [ofBytes, toBytes, encodeWords_cons, takeWord_encodeLE]

/-- `FaceDataProps`. -/
structure FaceDataProps where
  timestamp : Binary64
  viewMatf : List.Vector (Word 4) 16
  wMatf : List.Vector (Word 4) 16
  projMatf : List.Vector (Word 4) 16
  deriving DecidableEq

/-- `sizeof(FaceDataProps)`. -/
def sizeofFaceDataProps : ℕ := 200

/-- The object's bytes. -/
def FaceDataProps.toBytes (props : FaceDataProps) : List UInt8 :=
  encodeLE 8 props.timestamp ++
    (encodeWords props.viewMatf.toList ++
      (encodeWords props.wMatf.toList ++ encodeWords props.projMatf.toList))

/-- A matrix read from the front of some bytes. -/
def takeMatrix (bytes : List UInt8) : List.Vector (Word 4) 16 × List UInt8 :=
  (⟨decodeWords 4 16 bytes, decodeWords_length 4 16 bytes⟩, bytes.drop 64)

/-- The object that the bytes at its address spell. -/
def FaceDataProps.ofBytes (bytes : List UInt8) : FaceDataProps :=
  let (timestamp, bytes) := takeWord 8 bytes
  let (viewMatf, bytes) := takeMatrix bytes
  let (wMatf, bytes) := takeMatrix bytes
  let (projMatf, _) := takeMatrix bytes
  ⟨timestamp, viewMatf, wMatf, projMatf⟩

@[simp] theorem takeMatrix_encodeWords (matrix : List.Vector (Word 4) 16) (rest : List UInt8) :
    takeMatrix (encodeWords matrix.toList ++ rest) = (matrix, rest) := by
  have count : matrix.toList.length = 16 := matrix.toList_length
  have words : decodeWords 4 16 (encodeWords matrix.toList ++ rest) = matrix.toList := by
    have decoded := decodeWords_encodeWords_append matrix.toList rest
    rwa [count] at decoded
  have length : (encodeWords matrix.toList).length = 64 := by rw [encodeWords_length, count]
  exact Prod.ext (Subtype.ext words) (List.drop_left' length)

@[simp] theorem FaceDataProps.toBytes_length (props : FaceDataProps) :
    props.toBytes.length = sizeofFaceDataProps := by
  simp only [toBytes, List.length_append, encodeLE_length, encodeWords_length,
    List.Vector.toList_length]
  rfl

@[simp] theorem FaceDataProps.ofBytes_toBytes (props : FaceDataProps) :
    ofBytes props.toBytes = props := by
  have last : takeMatrix (encodeWords props.projMatf.toList) = (props.projMatf, []) := by
    simpa using takeMatrix_encodeWords props.projMatf []
  simp only [ofBytes, toBytes, takeWord_encodeLE, takeMatrix_encodeWords, last]

end Sqwar
