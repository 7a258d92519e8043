import Mathlib.Data.List.GetD
import Sqwar.Data.MachineInt

/-!
# Video buffers

The bytes of a video frame start with a `YCrCbData`. The luma plane lies right behind it, and the
plane of Cb and Cr pairs as far behind the start of the luma plane as the two offsets are apart.
-/

set_option autoImplicit false

namespace Sqwar

open Data

/-- `YCrCbData`. -/
structure YCrCbData where
  yOffset : ℤ
  yRowBytes : ℤ
  cbCrOffset : ℤ
  cbCrRowBytes : ℤ
  deriving DecidableEq, Repr

/-- `sizeof(YCrCbData)`. -/
def sizeofYCrCbData : ℕ := 16

/-- The object's bytes. -/
def YCrCbData.toBytes (yuvData : YCrCbData) : List UInt8 :=
  encodeWords [int32Word yuvData.yOffset, int32Word yuvData.yRowBytes, int32Word yuvData.cbCrOffset,
    int32Word yuvData.cbCrRowBytes]

/-- The object that the bytes at its address spell. -/
def YCrCbData.ofBytes (bytes : List UInt8) : YCrCbData :=
  let (yOffset, bytes) := takeWord 4 bytes
  let (yRowBytes, bytes) := takeWord 4 bytes
  let (cbCrOffset, bytes) := takeWord 4 bytes
  let (cbCrRowBytes, _) := takeWord 4 bytes
  ⟨wrap32 yOffset, wrap32 yRowBytes, wrap32 cbCrOffset, wrap32 cbCrRowBytes⟩

@[simp] theorem YCrCbData.toBytes_length (yuvData : YCrCbData) :
    yuvData.toBytes.length = sizeofYCrCbData := by
  rw [toBytes, encodeWords_length]
  rfl

/-- The fields are integers of 32 bits. -/
structure YCrCbData.Fits (yuvData : YCrCbData) : Prop where
  yOffset : IsInt32 yuvData.yOffset
  yRowBytes : IsInt32 yuvData.yRowBytes
  cbCrOffset : IsInt32 yuvData.cbCrOffset
  cbCrRowBytes : IsInt32 yuvData.cbCrRowBytes

theorem YCrCbData.ofBytes_toBytes_append {yuvData : YCrCbData} (fits : yuvData.Fits)
    (rest : List UInt8) : ofBytes (yuvData.toBytes ++ rest) = yuvData := by
  simp only [ofBytes, toBytes, encodeWords_cons, List.append_assoc, takeWord_encodeLE,
    wrap32_int32Word fits.yOffset, wrap32_int32Word fits.yRowBytes,
    wrap32_int32Word fits.cbCrOffset, wrap32_int32Word fits.cbCrRowBytes]

/-- `cbCrOffset -= yOffset; yOffset = 0;`. -/
def YCrCbData.rebase (yuvData : YCrCbData) : Option YCrCbData := do
  let cbCrOffset ← int32 (yuvData.cbCrOffset - yuvData.yOffset)
  return { yuvData with cbCrOffset := cbCrOffset, yOffset := 0 }

theorem YCrCbData.rebase_eq_some_iff {yuvData rebased : YCrCbData} :
    yuvData.rebase = some rebased ↔ IsInt32 (yuvData.cbCrOffset - yuvData.yOffset) ∧
      { yuvData with cbCrOffset := yuvData.cbCrOffset - yuvData.yOffset, yOffset := 0 } =
        rebased := by
  simp only [rebase, Option.bind_eq_bind, Option.bind_eq_some_iff, int32_eq_some_iff,
    Option.pure_def, Option.some.injEq]
  constructor
  · rintro ⟨_, ⟨fits, rfl⟩, rfl⟩
    exact ⟨fits, rfl⟩
  · rintro ⟨fits, rfl⟩
    exact ⟨_, ⟨fits, rfl⟩, rfl⟩

/-- A `vidData`: the size of the vector, the header at its front and the bytes behind that. -/
structure VideoBuffer where
  size : ℕ
  header : YCrCbData
  data : ℕ → UInt8

namespace VideoBuffer

/-- The bytes of a vector. -/
def ofBytes (bytes : List UInt8) : VideoBuffer where
  size := bytes.length
  header := YCrCbData.ofBytes bytes
  data := fun i => bytes.getD (sizeofYCrCbData + i) 0

/-- An index, behind the header, of a byte of the vector. -/
def Inside (vid : VideoBuffer) (i : ℤ) : Prop := 0 ≤ i ∧ sizeofYCrCbData + i < vid.size

instance (vid : VideoBuffer) (i : ℤ) : Decidable (vid.Inside i) :=
  inferInstanceAs (Decidable (_ ∧ _))

/-- A byte of the vector, by its index behind the header. -/
def byte (vid : VideoBuffer) (i : ℤ) : Option UInt8 :=
  if vid.Inside i then some (vid.data i.toNat) else none

/-- Where the luma of a pixel lies. -/
def lumaIndex (vid : VideoBuffer) (x y : ℕ) : ℤ := y * vid.header.yRowBytes + x

/-- Where the Cb of a block of two by two pixels lies, before its Cr. -/
def cbCrIndex (vid : VideoBuffer) (x y : ℕ) : ℤ :=
  vid.header.cbCrOffset - vid.header.yOffset + y * vid.header.cbCrRowBytes + x * 2

/-- The luma of a pixel. -/
def luma (vid : VideoBuffer) (x y : ℕ) : Option UInt8 := vid.byte (vid.lumaIndex x y)

/-- The Cb and the Cr of a block of two by two pixels. -/
def cbCr (vid : VideoBuffer) (x y : ℕ) : Option UInt8 × Option UInt8 :=
  (vid.byte (vid.cbCrIndex x y), vid.byte (vid.cbCrIndex x y + 1))

/-- Both planes of a picture lie inside the vector. -/
structure PlanesInside (vid : VideoBuffer) (width height : ℕ) : Prop where
  luma : ∀ x < width, ∀ y < height, vid.Inside (vid.lumaIndex x y)
  cb : ∀ x < width / 2, ∀ y < height / 2, vid.Inside (vid.cbCrIndex x y)
  cr : ∀ x < width / 2, ∀ y < height / 2, vid.Inside (vid.cbCrIndex x y + 1)

variable {vid : VideoBuffer} {i : ℤ}

theorem byte_eq_some_iff {v : UInt8} :
    vid.byte i = some v ↔ vid.Inside i ∧ vid.data i.toNat = v := by
  rw [byte, Option.ite_none_right_eq_some, Option.some.injEq]

theorem byte_of_inside (inside : vid.Inside i) : vid.byte i = some (vid.data i.toNat) :=
  if_pos inside

/-- Two indices that hold the same byte whatever the bytes are the same. -/
theorem index_eq_of_forall {j : ℤ} (inside : vid.Inside j)
    (same : ∀ data, { vid with data := data }.byte i = { vid with data := data }.byte j) :
    i = j := by
  -- mark the byte at `j`
  have marked := (same fun n => if n = j.toNat then 1 else 0).trans
    (byte_eq_some_iff.mpr ⟨inside, if_pos rfl⟩)
  obtain ⟨⟨nonneg, -⟩, mark⟩ := byte_eq_some_iff.mp marked
  have here : i.toNat = j.toNat := by
    by_contra other
    exact absurd ((if_neg other).symm.trans mark) (by decide)
  have := inside.1
  omega

/-! ### Vectors of a header and what lies behind it -/

variable {header : YCrCbData} {plane : List UInt8}

theorem header_ofBytes (fits : header.Fits) (plane : List UInt8) :
    (ofBytes (header.toBytes ++ plane)).header = header :=
  YCrCbData.ofBytes_toBytes_append fits plane

theorem inside_ofBytes :
    (ofBytes (header.toBytes ++ plane)).Inside i ↔ 0 ≤ i ∧ i < plane.length := by
  have size : (ofBytes (header.toBytes ++ plane)).size = sizeofYCrCbData + plane.length := by
    rw [ofBytes, List.length_append, YCrCbData.toBytes_length]
  rw [Inside, size]
  omega

theorem byte_ofBytes (inside : (ofBytes (header.toBytes ++ plane)).Inside i) :
    (ofBytes (header.toBytes ++ plane)).byte i = some (plane.getD i.toNat 0) := by
  have behind : header.toBytes.length ≤ sizeofYCrCbData + i.toNat := by
    rw [YCrCbData.toBytes_length]
    exact Nat.le_add_right _ _
  rw [byte_of_inside inside]
  simp only [ofBytes]
  rw [List.getD_append_right _ _ _ _ behind, YCrCbData.toBytes_length, Nat.add_sub_cancel_left]

end VideoBuffer

end Sqwar
