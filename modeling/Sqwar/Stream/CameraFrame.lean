import Sqwar.Data.Copies
import Sqwar.Semantics.Loop
import Sqwar.Stream.Packing

/-!
# Frames from the camera

The frame handler of `ARDelegate` makes a `DepthData` of the pixel buffers of the camera. Behind a
header of its own it puts the video from the start of its luma on, and behind 16 floats about the
camera the depths. It copies as much as the vectors hold, not as much as the pixel buffers do.
-/

set_option autoImplicit false

namespace Sqwar.Stream

open Data

/-- `CVPixelBufferGetPixelFormatType`. -/
inductive PixelFormatType
  | yCbCr8BiPlanarFullRange420
  | depthFloat32
  | other (code : ℕ)
  deriving DecidableEq

/-- A `CVPixelBuffer`, without what it holds. No object has more bytes than its pointers can be
apart. -/
structure PixelBuffer where
  pixelFormatType : PixelFormatType
  width : ℕ
  height : ℕ
  dataSize : ℕ
  fits : dataSize < 2 ^ 63

/-- `AVDepthData`, with its `AVCameraCalibrationData`: a matrix by its columns, and the reference
dimensions as floats. -/
structure AVDepthData where
  depthDataMap : PixelBuffer
  intrinsicMatrix : Fin 3 → Fin 3 → Word 4
  referenceWidth : Word 4
  referenceHeight : Word 4

/-- `ARFrame`. -/
structure ARFrame where
  timestamp : Binary64
  capturedDepthData : Option AVDepthData
  capturedImage : PixelBuffer

/-- The objects that the handler copies from and to. -/
inductive CameraBuffer | pixelBuffer | depthBuffer | cbd | mtxarray | vidData | depthData
  deriving DecidableEq

/-- What lies in the objects and around them. Nothing around an object belongs to another one. -/
abbrev CameraMemory := Surroundings CameraBuffer UInt8

/-- `CFSwapInt32BigToHost` of the number at an offset. -/
def swapInt32BigToHost (pixels : ℤ → UInt8) (offset : ℤ) : ℤ :=
  wrap32 (decodeLE (slice pixels offset 4).reverse)

/-- The offsets and bytes per row of a `CVPlanarPixelBufferInfo_YCbCrBiPlanar`, which a pixel buffer
starts with. -/
def bufferInfo (pixels : ℤ → UInt8) : YCrCbData where
  yOffset := swapInt32BigToHost pixels 0
  yRowBytes := swapInt32BigToHost pixels 4
  cbCrOffset := swapInt32BigToHost pixels 8
  cbCrRowBytes := swapInt32BigToHost pixels 12

/-- `mtxarray`. -/
def AVDepthData.mtxarray (pDepthData : AVDepthData) : List (Word 4) :=
  ((List.finRange 3).flatMap fun i => (List.finRange 3).map (pDepthData.intrinsicMatrix i)) ++
    [pDepthData.referenceWidth, pDepthData.referenceHeight]

/-- The 16 floats in front of the depths, of which five stay zero. -/
def AVDepthData.header (pDepthData : AVDepthData) : List (Word 4) :=
  pDepthData.mtxarray ++ List.replicate 5 0

/-- The size of `vidData`, in the arithmetic of `size_t`. -/
def vidDataSize (datasize : ℕ) (cbd : YCrCbData) : ℕ :=
  ((datasize - cbd.yOffset + sizeofYCrCbData : ℤ) % 2 ^ 64).toNat

/-- A size as an unsigned integer. -/
def uint32Word (size : ℕ) : Word 4 := ⟨uint32 size, Nat.mod_lt _ (by decide)⟩

/-- What the handler hands to `OnDepthBuffer`: the properties and the sizes of the objects, the
copies that it has made and what they have left in memory. -/
structure Delivery where
  props : DepthDataProps
  extent : CameraBuffer → ℕ
  copies : List (Copy CameraBuffer)
  memory : CameraMemory

/-- The sizes of the objects in bytes. -/
def extents (pixelBuffer depthBuffer : PixelBuffer) (vidData depthData : ByteVector) :
    CameraBuffer → ℕ
  | .pixelBuffer => pixelBuffer.dataSize
  | .depthBuffer => depthBuffer.dataSize
  | .cbd => sizeofYCrCbData
  | .mtxarray => 11 * sizeofFloat
  | .vidData => vidData.bytes.length
  | .depthData => depthData.bytes.length

/-- The calls of `memcpy`. -/
def frameCopies (yOffset : ℤ) (vidData depthData : ByteVector) : List (Copy CameraBuffer) :=
  [⟨.vidData, 0, .cbd, 0, sizeofYCrCbData⟩,
    ⟨.vidData, sizeofYCrCbData, .pixelBuffer, yOffset, vidData.bytes.length⟩,
    ⟨.depthData, 0, .mtxarray, 0, 11 * sizeofFloat⟩,
    ⟨.depthData, ↑(16 * sizeofFloat), .depthBuffer, 0, depthData.bytes.length⟩]

/-- The properties of a frame. -/
def frameProps (timestamp : Binary64) (pixelBuffer depthBuffer : PixelBuffer) : DepthDataProps where
  timestamp := timestamp
  vidWidth := uint32Word pixelBuffer.width
  vidHeight := uint32Word pixelBuffer.height
  vidMode := 0
  depthWidth := uint32Word depthBuffer.width
  depthHeight := uint32Word depthBuffer.height
  depthMode := 0

/-- The objects before anything is copied. -/
def frameMemory (pDepthData : AVDepthData) (vidData depthData : ByteVector) (m : CameraMemory) :
    CameraMemory :=
  let m := store m .cbd (bufferInfo (m .pixelBuffer)).toBytes
  let m := store m .mtxarray (encodeWords pDepthData.mtxarray)
  store (store m .vidData vidData.bytes) .depthData depthData.bytes

/-- The body of the handler for buffers of the right formats. -/
def deliver (timestamp : Binary64) (pixelBuffer : PixelBuffer) (pDepthData : AVDepthData)
    (m : CameraMemory) : Except Fault Delivery := do
  let depthBuffer := pDepthData.depthDataMap
  let cbd := bufferInfo (m .pixelBuffer)
  let vidData ← ByteVector.empty.resize (vidDataSize pixelBuffer.dataSize cbd)
  let depthData ←
    ByteVector.empty.resize ((depthBuffer.dataSize / sizeofFloat + 16) * sizeofFloat)
  let copies := frameCopies cbd.yOffset vidData depthData
  return {
    props := frameProps timestamp pixelBuffer depthBuffer
    extent := extents pixelBuffer depthBuffer vidData depthData
    copies := copies
    memory := copies.foldl Copy.run (frameMemory pDepthData vidData depthData m) }

/-- `session:didUpdateFrame:`. It delivers nothing without depths, or if a format is another one. -/
def didUpdateFrame (frame : ARFrame) (m : CameraMemory) : Except Fault (Option Delivery) :=
  match frame.capturedDepthData with
  | none => .ok none
  | some pDepthData =>
    if frame.capturedImage.pixelFormatType = .yCbCr8BiPlanarFullRange420 ∧
        pDepthData.depthDataMap.pixelFormatType = .depthFloat32 then
      some <$> deliver frame.timestamp frame.capturedImage pDepthData m
    else .ok none

/-- The bytes of a vector. -/
def Delivery.bytes (delivery : Delivery) (b : CameraBuffer) : List UInt8 :=
  slice (delivery.memory b) 0 (delivery.extent b)

/-- The video as its consumers take it. -/
def Delivery.video (delivery : Delivery) : VideoBuffer := .ofBytes (delivery.bytes .vidData)

/-- What the consumers of a frame expect in its vectors: each has its header in front of what the
camera has captured, and the header of the video tells where its planes are. -/
structure Contents (pixelBuffer : PixelBuffer) (pDepthData : AVDepthData) (m : CameraMemory)
    (delivery : Delivery) : Prop where
  vidData : delivery.bytes .vidData = (bufferInfo (m .pixelBuffer)).toBytes ++
    slice (m .pixelBuffer) (bufferInfo (m .pixelBuffer)).yOffset
      (pixelBuffer.dataSize - (bufferInfo (m .pixelBuffer)).yOffset).toNat
  depthData : delivery.bytes .depthData = encodeWords pDepthData.header ++
    slice (m .depthBuffer) 0 pDepthData.depthDataMap.dataSize
  luma : ∀ i, delivery.video.Inside i → delivery.video.byte i =
    some (m .pixelBuffer ((bufferInfo (m .pixelBuffer)).yOffset + i))
  cbCr : ∀ rebased, delivery.video.header.rebase = some rebased → ∀ i,
    delivery.video.Inside (rebased.cbCrOffset + i) → delivery.video.byte (rebased.cbCrOffset + i) =
      some (m .pixelBuffer ((bufferInfo (m .pixelBuffer)).cbCrOffset + i))

/-- The frame is laid out for its consumers, and no copy has left its buffers. -/
structure LaidOut (pixelBuffer : PixelBuffer) (pDepthData : AVDepthData) (m : CameraMemory)
    (delivery : Delivery) : Prop extends Contents pixelBuffer pDepthData m delivery where
  inBounds : ∀ copy ∈ delivery.copies, copy.InBounds delivery.extent

/-! ### Deliveries -/

section Deliveries

variable {timestamp : Binary64} {pixelBuffer : PixelBuffer} {pDepthData : AVDepthData}
  {m : CameraMemory} {delivery : Delivery} {frame : ARFrame} {vidData depthData : ByteVector}

theorem bytes_of_resize {size : ℕ} {vector : ByteVector}
    (resize : ByteVector.empty.resize size = .ok vector) :
    vector.bytes = List.replicate size 0 := by
  by_cases within : size ≤ vectorMaxSize
  · rw [ByteVector.resize, dif_pos within] at resize
    rw [← Except.ok.inj resize]
    simp [ByteVector.empty]
  · rw [ByteVector.resize, dif_neg within] at resize
    cases resize

/-- A frame is delivered with vectors of the sizes that were asked for. -/
theorem deliver_eq_ok (delivers : deliver timestamp pixelBuffer pDepthData m = .ok delivery) :
    ∃ vidData depthData : ByteVector,
      vidData.bytes = List.replicate
        (vidDataSize pixelBuffer.dataSize (bufferInfo (m .pixelBuffer))) 0 ∧
      depthData.bytes = List.replicate
        ((pDepthData.depthDataMap.dataSize / sizeofFloat + 16) * sizeofFloat) 0 ∧
      delivery = {
        props := frameProps timestamp pixelBuffer pDepthData.depthDataMap
        extent := extents pixelBuffer pDepthData.depthDataMap vidData depthData
        copies := frameCopies (bufferInfo (m .pixelBuffer)).yOffset vidData depthData
        memory := (frameCopies (bufferInfo (m .pixelBuffer)).yOffset vidData depthData).foldl
          Copy.run (frameMemory pDepthData vidData depthData m) } := by
  obtain ⟨vidData, vidResized, rest⟩ := Semantics.bind_eq_ok_iff.mp delivers
  obtain ⟨depthData, depthResized, returned⟩ := Semantics.bind_eq_ok_iff.mp rest
  exact ⟨vidData, depthData, bytes_of_resize vidResized, bytes_of_resize depthResized,
    (Except.ok.inj returned).symm⟩

/-- Only frames with depths and of the right formats are delivered. -/
theorem didUpdateFrame_eq_some (handles : didUpdateFrame frame m = .ok (some delivery)) :
    ∃ pDepthData, frame.capturedDepthData = some pDepthData ∧
      deliver frame.timestamp frame.capturedImage pDepthData m = .ok delivery := by
  unfold didUpdateFrame at handles
  split at handles
  · cases handles
  · rename_i pDepthData captured
    refine ⟨pDepthData, captured, ?_⟩
    split_ifs at handles
    · cases delivers : deliver frame.timestamp frame.capturedImage pDepthData m with
      | error fault => rw [delivers] at handles; cases handles
      | ok delivered => rw [delivers] at handles; cases handles; rfl
    · cases handles

/-- The size of the video: the header, and the pixel buffer from its luma on. -/
theorem vidDataSize_eq {cbd : YCrCbData} (lower : 0 ≤ cbd.yOffset)
    (upper : cbd.yOffset ≤ pixelBuffer.dataSize) : vidDataSize pixelBuffer.dataSize cbd =
      sizeofYCrCbData + (pixelBuffer.dataSize - cbd.yOffset).toNat := by
  have fits := pixelBuffer.fits
  rw [vidDataSize, Int.emod_eq_of_lt (by unfold sizeofYCrCbData; omega)
    (by unfold sizeofYCrCbData; omega)]
  unfold sizeofYCrCbData
  omega

/-- **How far the copies go**: those of the video and of the depths are too long by the headers in
front of what they copy. -/
theorem past_of_deliver (delivers : deliver timestamp pixelBuffer pDepthData m = .ok delivery)
    (lower : 0 ≤ (bufferInfo (m .pixelBuffer)).yOffset)
    (upper : (bufferInfo (m .pixelBuffer)).yOffset ≤ pixelBuffer.dataSize)
    (floats : sizeofFloat ∣ pDepthData.depthDataMap.dataSize) :
    delivery.copies.map (fun copy => (copy.readsPast delivery.extent,
      copy.writesPast delivery.extent)) = [(0, 0), (16, 16), (0, 0), (64, 64)] := by
  obtain ⟨vidData, depthData, vidBytes, depthBytes, rfl⟩ := deliver_eq_ok delivers
  have vidLength := congrArg List.length vidBytes
  have depthLength := congrArg List.length depthBytes
  rw [List.length_replicate, vidDataSize_eq lower upper] at vidLength
  rw [List.length_replicate, Nat.add_mul, Nat.div_mul_cancel floats] at depthLength
  simp only [frameCopies, List.map_cons, List.map_nil, Copy.readsPast, Copy.writesPast, extents,
    vidLength, depthLength, sizeofYCrCbData, sizeofFloat, List.cons.injEq, Prod.mk.injEq, and_true]
  omega

/-- What is copied behind a header leaves its vector, whatever the header says. -/
theorem not_inBounds_of_behind
    (delivers : deliver timestamp pixelBuffer pDepthData m = .ok delivery) :
    ∀ copy ∈ delivery.copies, 0 < copy.dstStart → ¬ copy.InBounds delivery.extent := by
  obtain ⟨vidData, depthData, -, -, rfl⟩ := deliver_eq_ok delivers
  intro copy member behind inside
  have writes := inside.writesTo
  simp only [frameCopies, List.mem_cons, List.not_mem_nil, or_false] at member
  rcases member with rfl | rfl | rfl | rfl
  · exact absurd behind (by decide)
  · simp [extents, sizeofYCrCbData] at writes
  · exact absurd behind (by decide)
  · simp [extents, sizeofFloat] at writes

/-! ### What is copied -/

variable {yOffset i : ℤ}

theorem run_vidData (yOffset i : ℤ) (vidData depthData : ByteVector) (m : CameraMemory) :
    (frameCopies yOffset vidData depthData).foldl Copy.run m .vidData i =
      if 16 ≤ i ∧ i < 16 + vidData.bytes.length then m .pixelBuffer (yOffset + (i - 16))
      else if 0 ≤ i ∧ i < 16 then m .cbd i else m .vidData i := by
  simp [frameCopies, Copy.run, Copy.Writes, sizeofYCrCbData]

theorem run_depthData (yOffset i : ℤ) (vidData depthData : ByteVector) (m : CameraMemory) :
    (frameCopies yOffset vidData depthData).foldl Copy.run m .depthData i =
      if 64 ≤ i ∧ i < 64 + depthData.bytes.length then m .depthBuffer (i - 64)
      else if 0 ≤ i ∧ i < 44 then m .mtxarray i else m .depthData i := by
  simp [frameCopies, Copy.run, Copy.Writes, sizeofFloat]

section Memory

variable (pDepthData : AVDepthData) (vidData depthData : ByteVector) (m : CameraMemory)

theorem frameMemory_pixelBuffer :
    frameMemory pDepthData vidData depthData m .pixelBuffer = m .pixelBuffer := by
  simp [frameMemory, store_of_ne]

theorem frameMemory_depthBuffer :
    frameMemory pDepthData vidData depthData m .depthBuffer = m .depthBuffer := by
  simp [frameMemory, store_of_ne]

theorem slice_frameMemory_cbd :
    slice (frameMemory pDepthData vidData depthData m .cbd) 0 sizeofYCrCbData =
      (bufferInfo (m .pixelBuffer)).toBytes := by
  have stored := slice_store m .cbd (bufferInfo (m .pixelBuffer)).toBytes
  rw [YCrCbData.toBytes_length] at stored
  simpa [frameMemory, store_of_ne] using stored

theorem mtxarray_length : pDepthData.mtxarray.length = 11 := by
  simp [AVDepthData.mtxarray]

theorem slice_frameMemory_mtxarray :
    slice (frameMemory pDepthData vidData depthData m .mtxarray) 0 (11 * sizeofFloat) =
      encodeWords pDepthData.mtxarray := by
  have stored := slice_store (store m .cbd (bufferInfo (m .pixelBuffer)).toBytes) .mtxarray
    (encodeWords pDepthData.mtxarray)
  rw [encodeWords_length, mtxarray_length] at stored
  simpa [frameMemory, store_of_ne, sizeofFloat] using stored

variable {depthData} in
theorem frameMemory_depthData {n i : ℕ} (zeros : depthData.bytes = List.replicate n 0)
    (inside : i < n) : frameMemory pDepthData vidData depthData m .depthData i = 0 := by
  simp [frameMemory, store, zeros, inside]

end Memory

/-- The video of a delivery: the header and the pixel buffer from its luma on. -/
theorem bytes_vidData (delivers : deliver timestamp pixelBuffer pDepthData m = .ok delivery)
    (lower : 0 ≤ (bufferInfo (m .pixelBuffer)).yOffset)
    (upper : (bufferInfo (m .pixelBuffer)).yOffset ≤ pixelBuffer.dataSize) :
    delivery.bytes .vidData = (bufferInfo (m .pixelBuffer)).toBytes ++
      slice (m .pixelBuffer) (bufferInfo (m .pixelBuffer)).yOffset
        (pixelBuffer.dataSize - (bufferInfo (m .pixelBuffer)).yOffset).toNat := by
  obtain ⟨vidData, depthData, vidBytes, -, rfl⟩ := deliver_eq_ok delivers
  have length := congrArg List.length vidBytes
  rw [List.length_replicate, vidDataSize_eq lower upper] at length
  simp only [Delivery.bytes, extents]
  rw [length, slice_add]
  refine congrArg₂ _ ?_ ?_
  · rw [← slice_frameMemory_cbd pDepthData vidData depthData m]
    refine slice_congr fun i inside => ?_
    have small : i < 16 := inside
    rw [run_vidData, if_neg (by omega), if_pos (by omega)]
  · refine slice_congr fun i inside => ?_
    have behind : (0 : ℤ) + sizeofYCrCbData + i = 16 + i := rfl
    rw [behind, run_vidData, frameMemory_pixelBuffer, if_pos (by rw [length]; omega),
      add_sub_cancel_left]

/-- The depths of a delivery: the floats about the camera, zeros up to the 16th, and the depths. -/
theorem bytes_depthData (delivers : deliver timestamp pixelBuffer pDepthData m = .ok delivery)
    (floats : sizeofFloat ∣ pDepthData.depthDataMap.dataSize) :
    delivery.bytes .depthData =
      encodeWords pDepthData.header ++
        slice (m .depthBuffer) 0 pDepthData.depthDataMap.dataSize := by
  obtain ⟨vidData, depthData, -, depthBytes, rfl⟩ := deliver_eq_ok delivers
  have length := congrArg List.length depthBytes
  have inFront : encodeWords pDepthData.header =
      encodeWords pDepthData.mtxarray ++ List.replicate 20 0 := by
    rw [AVDepthData.header, encodeWords_append]
    rfl
  rw [List.length_replicate, Nat.add_mul, Nat.div_mul_cancel floats, Nat.add_comm] at length
  simp only [Delivery.bytes, extents]
  rw [length, slice_add, inFront, show 16 * sizeofFloat = 11 * sizeofFloat + 20 from rfl, slice_add]
  refine congrArg₂ _ (congrArg₂ _ ?_ ?_) ?_
  · rw [← slice_frameMemory_mtxarray pDepthData vidData depthData m]
    refine slice_congr fun i inside => ?_
    have small : i < 44 := inside
    rw [run_depthData, if_neg (by omega), if_pos (by omega)]
  · refine slice_eq_replicate fun i inside => ?_
    have behind : (0 : ℤ) + ↑(11 * sizeofFloat) + i = ↑(44 + i) := rfl
    rw [behind, run_depthData, if_neg (by omega), if_neg (by omega),
      frameMemory_depthData pDepthData vidData m depthBytes (by unfold sizeofFloat; omega)]
  · refine slice_congr fun i inside => ?_
    have behind : (0 : ℤ) + ↑(11 * sizeofFloat + 20) + i = 64 + i := rfl
    rw [behind, run_depthData, frameMemory_depthBuffer, if_pos (by rw [length]; omega),
      add_sub_cancel_left, zero_add]

theorem isInt32_swapInt32BigToHost (pixels : ℤ → UInt8) (offset : ℤ) :
    IsInt32 (swapInt32BigToHost pixels offset) := by
  rw [swapInt32BigToHost]
  exact isInt32_wrap32

theorem bufferInfo_fits (pixels : ℤ → UInt8) : (bufferInfo pixels).Fits := by
  constructor <;> simp only [bufferInfo, isInt32_swapInt32BigToHost]

/-- **What a frame holds**: all that its consumers expect, with the planes where its header says. -/
theorem contents_of_deliver (delivers : deliver timestamp pixelBuffer pDepthData m = .ok delivery)
    (lower : 0 ≤ (bufferInfo (m .pixelBuffer)).yOffset)
    (upper : (bufferInfo (m .pixelBuffer)).yOffset ≤ pixelBuffer.dataSize)
    (floats : sizeofFloat ∣ pDepthData.depthDataMap.dataSize) :
    Contents pixelBuffer pDepthData m delivery := by
  have video := bytes_vidData delivers lower upper
  have header : delivery.video.header = bufferInfo (m .pixelBuffer) := by
    rw [Delivery.video, video, VideoBuffer.header_ofBytes (bufferInfo_fits _)]
  have luma : ∀ i, delivery.video.Inside i → delivery.video.byte i =
      some (m .pixelBuffer ((bufferInfo (m .pixelBuffer)).yOffset + i)) := by
    intro i inside
    rw [Delivery.video, video] at inside ⊢
    obtain ⟨nonneg, below⟩ := VideoBuffer.inside_ofBytes.mp inside
    rw [slice_length] at below
    rw [VideoBuffer.byte_ofBytes inside, getD_slice (by omega), Int.toNat_of_nonneg nonneg]
  refine ⟨video, bytes_depthData delivers floats, luma, fun rebased isRebased i inside => ?_⟩
  obtain ⟨-, rfl⟩ := YCrCbData.rebase_eq_some_iff.mp isRebased
  rw [luma _ inside, header]
  ring_nf

/-- A byte of the video that a consumer reads is one of the camera's. -/
theorem Contents.of_byte (contents : Contents pixelBuffer pDepthData m delivery) {v : UInt8}
    (reads : delivery.video.byte i = some v) :
    v = m .pixelBuffer ((bufferInfo (m .pixelBuffer)).yOffset + i) := by
  have inside := (VideoBuffer.byte_eq_some_iff.mp reads).1
  exact Option.some.inj (reads.symm.trans (contents.luma i inside))

/-- **From the camera to the stream**: the second halves of the planes that are packed hold luma, Cb
and Cr of the camera. -/
theorem streamFrameBkg_of_contents (contents : Contents pixelBuffer pDepthData m delivery)
    {props : DepthDataProps} {depths : Depth.Floats} {packed : Depth.Bytes}
    (packs : streamFrameBkg props delivery.video depths = some packed) :
    ∃ rebased, delivery.video.header.rebase = some rebased ∧
      (∀ x < props.depthWidth.val, ∀ y < props.depthHeight.val, ∃ source,
        lumaSource props rebased x y = some source ∧
          packed (Pointer.base .y + (ySize props + (y * props.depthWidth.val + x))) =
            m .pixelBuffer ((bufferInfo (m .pixelBuffer)).yOffset + source)) ∧
      ∀ x < props.depthWidth.val / 2, ∀ y < props.depthHeight.val / 2, ∃ source,
        cbCrSource props rebased x y = some source ∧
          packed (Pointer.base .u + (uvSize props + (y * (props.depthWidth.val / 2) + x))) =
            m .pixelBuffer ((bufferInfo (m .pixelBuffer)).yOffset + source) ∧
          packed (Pointer.base .v + (uvSize props + (y * (props.depthWidth.val / 2) + x))) =
            m .pixelBuffer ((bufferInfo (m .pixelBuffer)).yOffset + (source + 1)) := by
  obtain ⟨rebased, isRebased, lumas, cbCrs, -⟩ := streamFrameBkg_spec packs
  refine ⟨rebased, isRebased, fun x inRow y inColumn => ?_, fun x inRow y inColumn => ?_⟩
  · obtain ⟨source, reads, luma⟩ := lumas x inRow y inColumn
    exact ⟨source, reads, contents.of_byte luma⟩
  · obtain ⟨source, reads, cb, cr⟩ := cbCrs x inRow y inColumn
    exact ⟨source, reads, contents.of_byte cb, contents.of_byte cr⟩

/-! ### Bounds -/

/-- Every frame of the right formats is delivered if its vectors are not too large. -/
theorem exists_delivery (captured : frame.capturedDepthData = some pDepthData)
    (videoFormat : frame.capturedImage.pixelFormatType = .yCbCr8BiPlanarFullRange420)
    (depthFormat : pDepthData.depthDataMap.pixelFormatType = .depthFloat32)
    (videoFits : vidDataSize frame.capturedImage.dataSize (bufferInfo (m .pixelBuffer)) ≤
      vectorMaxSize)
    (depthFits : (pDepthData.depthDataMap.dataSize / sizeofFloat + 16) * sizeofFloat ≤
      vectorMaxSize) :
    ∃ delivery, didUpdateFrame frame m = .ok (some delivery) ∧
      deliver frame.timestamp frame.capturedImage pDepthData m = .ok delivery := by
  obtain ⟨vidData, vidResized, -⟩ := ByteVector.empty.resize_eq_ok videoFits
  obtain ⟨depthData, depthResized, -⟩ := ByteVector.empty.resize_eq_ok depthFits
  have delivers : ∃ delivery,
      deliver frame.timestamp frame.capturedImage pDepthData m = .ok delivery :=
    ⟨_, Semantics.bind_eq_ok_iff.mpr ⟨vidData, vidResized,
      Semantics.bind_eq_ok_iff.mpr ⟨depthData, depthResized, rfl⟩⟩⟩
  obtain ⟨delivery, delivers⟩ := delivers
  refine ⟨delivery, ?_, delivers⟩
  rw [didUpdateFrame, captured]
  simp only [videoFormat, depthFormat, and_self, if_true, delivers]
  rfl

/-- The copy of the video leaves its buffers. -/
theorem not_laidOut_of_deliver
    (delivers : deliver timestamp pixelBuffer pDepthData m = .ok delivery) :
    ¬ LaidOut pixelBuffer pDepthData m delivery := by
  intro laidOut
  have video : ∃ copy ∈ delivery.copies, 0 < copy.dstStart := by
    obtain ⟨vidData, depthData, -, -, rfl⟩ := deliver_eq_ok delivers
    exact ⟨_, List.mem_cons_of_mem _ List.mem_cons_self, by simp [sizeofYCrCbData]⟩
  obtain ⟨copy, member, behind⟩ := video
  exact not_inBounds_of_behind delivers copy member behind (laidOut.inBounds copy member)

/-- **No frame is laid out** without a copy that leaves its buffers. -/
theorem not_laidOut (frame : ARFrame) (m : CameraMemory) :
    ¬ ∃ pDepthData delivery, frame.capturedDepthData = some pDepthData ∧
      didUpdateFrame frame m = .ok (some delivery) ∧
        LaidOut frame.capturedImage pDepthData m delivery := by
  rintro ⟨pDepthData, delivery, captured, handles, laidOut⟩
  obtain ⟨captured', same, delivers⟩ := didUpdateFrame_eq_some handles
  obtain rfl := Option.some.inj (captured.symm.trans same)
  exact not_laidOut_of_deliver delivers laidOut

end Deliveries

/-! ### A small frame -/

/-- Two by two pixels, behind their `CVPlanarPixelBufferInfo_YCbCrBiPlanar`. -/
def smallImage : PixelBuffer where
  pixelFormatType := .yCbCr8BiPlanarFullRange420
  width := 2
  height := 2
  dataSize := 22
  fits := by decide

/-- Their depths. -/
def smallDepths : AVDepthData where
  depthDataMap := {
    pixelFormatType := .depthFloat32
    width := 2
    height := 2
    dataSize := 16
    fits := by decide }
  intrinsicMatrix := fun _ _ => 0
  referenceWidth := 0
  referenceHeight := 0

def smallFrame : ARFrame := ⟨0, some smallDepths, smallImage⟩

/-- The luma of the pixels is at 16, and their Cb and Cr at 20. -/
def smallMemory : CameraMemory :=
  store (fun _ _ => 0) .pixelBuffer
    [0, 0, 0, 16, 0, 0, 0, 2, 0, 0, 0, 20, 0, 0, 0, 2, 50, 60, 70, 80, 128, 128]

theorem not_laidOut_smallFrame : bufferInfo (smallMemory .pixelBuffer) = ⟨16, 2, 20, 2⟩ ∧
    ∃ delivery, didUpdateFrame smallFrame smallMemory = .ok (some delivery) ∧
      ¬ LaidOut smallImage smallDepths smallMemory delivery := by
  have info : bufferInfo (smallMemory .pixelBuffer) = ⟨16, 2, 20, 2⟩ := by decide +kernel
  have captured : smallFrame.capturedDepthData = some smallDepths := rfl
  have videoFits : vidDataSize smallFrame.capturedImage.dataSize
      (bufferInfo (smallMemory .pixelBuffer)) ≤ vectorMaxSize := by
    rw [info]
    decide
  obtain ⟨delivery, handles, delivers⟩ := exists_delivery captured rfl rfl videoFits (by decide)
  exact ⟨info, delivery, handles, not_laidOut_of_deliver delivers⟩

end Sqwar.Stream
