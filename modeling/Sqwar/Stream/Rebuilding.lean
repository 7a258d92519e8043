import Mathlib.Tactic.Ring
import Sqwar.Core.VideoBuffer
import Sqwar.Depth.Codec

/-!
# Rebuilding frames from the stream

`FFmpegInputStreamer::ReadFrameYUV420` copies the planes of a decoded picture row by row, and
`Player::BackgroundThread` rebuilds a frame from the copies: it decodes the depths of the first
halves, and lays out the second halves as a video buffer.
-/

set_option autoImplicit false

namespace Sqwar.Stream

open Data Depth

/-! ### `FFmpegInputStreamer` -/

/-- A decoded picture: `AVFrame`. -/
structure AVFrame where
  linesize : Plane → ℕ
  data : Bytes

/-- `{ size, size / 2, size / 2 }`. -/
def planeSizes (size : ℕ) : Plane → ℕ
  | .y => size
  | .u => size / 2
  | .v => size / 2

def outLineSizes (width : ℕ) : Plane → ℕ := planeSizes width

def outHeights (height : ℕ) : Plane → ℕ := planeSizes height

/-- The loop over the rows of a plane. -/
def copyRows (width height : ℕ) (frame : AVFrame) (out : Bytes) (idx : Plane) : Bytes :=
  (grid (outLineSizes width idx) (outHeights height idx)).foldl (fun out c =>
    write out [(Pointer.base idx + (c.2 * outLineSizes width idx + c.1),
      frame.data (Pointer.base idx + (c.2 * frame.linesize idx + c.1)))]) out

/-- The loop over the planes. -/
def copyPlanes (width height : ℕ) (frame : AVFrame) (out : Bytes) : Bytes :=
  [Plane.y, .u, .v].foldl (copyRows width height frame) out

/-- The rows of all planes lie inside vectors of the given sizes. -/
def RowsInside (size : Plane → ℕ) (width height : ℕ) : Prop :=
  ∀ idx ∈ [Plane.y, .u, .v], outLineSizes width idx * outHeights height idx ≤ size idx

instance (size : Plane → ℕ) (width height : ℕ) : Decidable (RowsInside size width height) :=
  inferInstanceAs (Decidable (∀ idx ∈ _, _))

/-- What `ReadFrameYUV420` does with the first decoded picture, for vectors of zeros. -/
def copyFrame (size : Plane → ℕ) (width height : ℕ) (frame : AVFrame) : Option Bytes :=
  -- the number of rows is that of the stream, whatever the vectors have room for
  if RowsInside size width height then some (copyPlanes width height frame fun _ => 0) else none

/-! ### `Player` -/

/-- What the player knows about its stream. -/
structure StreamInfo where
  depthVals : ℕ → ExactFloat
  depthWidth : ℕ
  depthHeight : ℕ
  vidWidth : ℕ
  vidHeight : ℕ

/-- `Player::Initialize`, for a stream of the given size. -/
def StreamInfo.initialized (width height : ℕ) (depthVals : ℕ → ExactFloat) : StreamInfo where
  depthVals := depthVals
  depthWidth := width
  depthHeight := height / 2
  vidWidth := width
  vidHeight := height / 2

/-- A `DepthData`; its vector of depths has 16 other values in front of them. -/
structure DepthFrame where
  depthWidth : ℕ
  depthHeight : ℕ
  vidWidth : ℕ
  vidHeight : ℕ
  vidData : VideoBuffer
  depthSize : ℕ
  depthData : Memory Unit ExactFloat

/-- The frame before it is known whether there is a picture. -/
def StreamInfo.newFrame (info : StreamInfo) : Option DepthFrame := do
  let depthSize ← nat32 ((← nat32 (info.depthWidth * info.depthHeight)) + 16)
  return {
    depthWidth := info.depthWidth
    depthHeight := info.depthHeight
    vidWidth := info.vidWidth
    vidHeight := info.vidHeight
    -- nothing is stored yet in `vidData`; `resize` fills the depths with zeros
    vidData := { size := 0, header := ⟨0, 0, 0, 0⟩, data := fun _ => 0 }
    depthSize := depthSize
    depthData := fun p => if p.offset < 16 then info.depthVals p.offset else .num 0 }

/-- The luma of the video buffer, copied at once. -/
def copyLuma (ySize ysize : ℕ) (planes : Bytes) (vidData : ℕ → UInt8) : ℕ → UInt8 :=
  (List.range ysize).foldl
    (fun m i => write m [(i, planes (Pointer.base Plane.y + (ySize + i)))]) vidData

/-- The loops that bring Cb and Cr together. -/
def interleave (uvSize vidWidth vidHeight outuvdata : ℕ) (planes : Bytes) (vidData : ℕ → UInt8) :
    ℕ → UInt8 :=
  (grid (vidWidth / 2) (vidHeight / 2)).foldl (fun m c =>
    let curIn := uvSize + (c.2 * (vidWidth / 2) + c.1)
    let curOutUVPtr := outuvdata + (c.2 * vidWidth + c.1 * 2)
    write m [(curOutUVPtr, planes (Pointer.base Plane.u + curIn)),
      (curOutUVPtr + 1, planes (Pointer.base Plane.v + curIn))]) vidData

/-- What `Player::BackgroundThread` makes of the copies of a picture. -/
def StreamInfo.fillFrame (info : StreamInfo) (planes : Bytes) (frame : DepthFrame) :
    Option DepthFrame := do
  -- the members of `Player` are signed
  let ySize ← nat32 (info.depthWidth * info.depthHeight)
  let uvSize := ySize / 4
  let ysize ← nat32 (info.vidWidth * info.vidHeight)
  let usize := ysize / 4
  let cbCrOffset ← nat32 (sizeofYCrCbData + ysize)
  let header : YCrCbData := ⟨sizeofYCrCbData, info.vidWidth, cbCrOffset, info.vidWidth⟩
  let data := interleave uvSize info.vidWidth info.vidHeight (cbCrOffset - sizeofYCrCbData) planes
    (copyLuma ySize ysize planes fun _ => 0)
  return { frame with
    vidData := { size := ysize + usize * 2 + sizeofYCrCbData, header := header, data := data }
    depthData := convertYUVToDepth info.depthWidth info.depthHeight 10 planes
      (Pointer.base () + 16) frame.depthData }

/-- The sizes of the vectors `ydata`, `udata` and `vdata`. -/
def vectorSizes (ySize : ℕ) : Plane → ℕ
  | .y => ySize * 2
  | .u => ySize / 4 * 2
  | .v => ySize / 4 * 2

/-- The frame that a decoded picture becomes. -/
def StreamInfo.rebuild (info : StreamInfo) (width height : ℕ) (picture : AVFrame) :
    Option DepthFrame := do
  let frame ← info.newFrame
  let ySize ← nat32 (info.depthWidth * info.depthHeight)
  let planes ← copyFrame (vectorSizes ySize) width height picture
  info.fillFrame planes frame

/-! ### Copies -/

variable {width height x y : ℕ} {picture : AVFrame} {packed out : Bytes} {plane idx : Plane}

/-- The picture that the decoder returns is the one that was encoded. -/
def Carries (width height : ℕ) (packed : Bytes) (picture : AVFrame) : Prop :=
  ∀ plane, ∀ x < outLineSizes width plane, ∀ y < outHeights height plane,
    picture.data (Pointer.base plane + (y * picture.linesize plane + x)) =
      packed (Pointer.base plane + (y * outLineSizes width plane + x))

/-- A picture without gaps between its lines. -/
def tightPicture (width : ℕ) (packed : Bytes) : AVFrame where
  linesize := outLineSizes width
  data := packed

theorem carries_tightPicture : Carries width height packed (tightPicture width packed) :=
  fun _ _ _ _ _ => rfl

theorem copyRows_of_ne (other : plane ≠ idx) (i : ℕ) :
    copyRows width height picture out idx (Pointer.base plane + i) =
      out (Pointer.base plane + i) := by
  rw [copyRows, foldl_write]
  refine write_of_notMem _ fun byte written => ?_
  obtain ⟨c, -, member⟩ := List.mem_flatMap.mp written
  have same := (Prod.mk.inj (List.mem_singleton.mp member)).1
  exact other (congrArg Pointer.buffer same)

theorem copyRows_cell (inRow : x < outLineSizes width plane)
    (inColumn : y < outHeights height plane) :
    copyRows width height picture out plane
        (Pointer.base plane + (y * outLineSizes width plane + x)) =
      picture.data (Pointer.base plane + (y * picture.linesize plane + x)) := by
  rw [copyRows, foldl_write]
  refine write_of_mem _ (List.mem_flatMap.mpr
    ⟨(x, y), mem_grid.mpr ⟨inRow, inColumn⟩, List.mem_cons_self⟩) fun byte written => ?_
  obtain ⟨c, inside, member⟩ := List.mem_flatMap.mp written
  obtain ⟨same, rfl⟩ := Prod.mk.inj (List.mem_singleton.mp member)
  obtain ⟨rfl, rfl⟩ := cell_inj inRow (mem_grid.mp inside).1 (Pointer.add_inj.mp same)
  rfl

/-- **The copies.** Whatever the gaps between the lines of the decoded picture, its copy has the
planes that were encoded. -/
theorem copyPlanes_of_carries (carries : Carries width height packed picture) {i : ℕ}
    (inside : i < outLineSizes width plane * outHeights height plane) :
    copyPlanes width height picture out (Pointer.base plane + i) =
      packed (Pointer.base plane + i) := by
  obtain ⟨x, y, inRow, inColumn, rfl⟩ := exists_cell inside
  have copied : ∀ out, copyRows width height picture out plane
      (Pointer.base plane + (y * outLineSizes width plane + x)) =
        packed (Pointer.base plane + (y * outLineSizes width plane + x)) := fun out =>
    (copyRows_cell inRow inColumn).trans (carries plane x inRow y inColumn)
  -- the rows of each plane are written once, and the loops over the other planes leave them
  cases plane with
  | y =>
    refine (copyRows_of_ne (by decide) _).trans ((copyRows_of_ne (by decide) _).trans ?_)
    exact copied _
  | u => exact (copyRows_of_ne (by decide) _).trans (copied _)
  | v => exact copied _

/-! ### Video buffers -/

variable {w h ySize ysize uvSize vidWidth vidHeight outuvdata i : ℕ} {planes : Bytes}
  {m : ℕ → UInt8}

theorem copyLuma_of_lt (inside : i < ysize) :
    copyLuma ySize ysize planes m i = planes (Pointer.base Plane.y + (ySize + i)) := by
  rw [copyLuma, foldl_write]
  refine write_of_mem _ (List.mem_flatMap.mpr
    ⟨i, List.mem_range.mpr inside, List.mem_cons_self⟩) fun byte written => ?_
  obtain ⟨j, -, member⟩ := List.mem_flatMap.mp written
  obtain ⟨rfl, rfl⟩ := Prod.mk.inj (List.mem_singleton.mp member)
  rfl

theorem interleave_of_lt (before : i < outuvdata) :
    interleave uvSize vidWidth vidHeight outuvdata planes m i = m i := by
  rw [interleave, foldl_write]
  refine write_of_notMem _ fun byte written => ?_
  obtain ⟨c, -, member⟩ := List.mem_flatMap.mp written
  simp only [List.mem_cons, Prod.mk.injEq, List.not_mem_nil, or_false] at member
  omega

/-- The pairs of a picture of even width lie apart. -/
theorem pair_inj {x' y' : ℕ} (even : Even vidWidth) (inRow : x < vidWidth / 2)
    (inRow' : x' < vidWidth / 2)
    (same : y * vidWidth + x * 2 = y' * vidWidth + x' * 2) : x = x' ∧ y = y' := by
  obtain ⟨half, rfl⟩ := even
  obtain ⟨column, rfl⟩ := cell_inj (show x * 2 < half + half by omega)
    (show x' * 2 < half + half by omega) same
  exact ⟨by omega, rfl⟩

theorem interleave_pair (even : Even vidWidth) (inRow : x < vidWidth / 2)
    (inColumn : y < vidHeight / 2) :
    interleave uvSize vidWidth vidHeight outuvdata planes m
        (outuvdata + (y * vidWidth + x * 2)) =
      planes (Pointer.base Plane.u + (uvSize + (y * (vidWidth / 2) + x))) ∧
    interleave uvSize vidWidth vidHeight outuvdata planes m
        (outuvdata + (y * vidWidth + x * 2) + 1) =
      planes (Pointer.base Plane.v + (uvSize + (y * (vidWidth / 2) + x))) := by
  have here : (x, y) ∈ grid (vidWidth / 2) (vidHeight / 2) := mem_grid.mpr ⟨inRow, inColumn⟩
  -- A Cb lies at an even distance from the start and a Cr at an odd one.
  have parity : ∀ y, (y * vidWidth) % 2 = 0 := fun y =>
    Nat.mod_eq_zero_of_dvd (even.two_dvd.mul_left y)
  rw [interleave, foldl_write]
  constructor
  · refine write_of_mem _ (List.mem_flatMap.mpr
      ⟨_, here, List.mem_cons_self⟩) fun byte written => ?_
    obtain ⟨c, inside, member⟩ := List.mem_flatMap.mp written
    simp only [List.mem_cons, Prod.mk.injEq, List.not_mem_nil, or_false] at member
    rcases member with ⟨same, rfl⟩ | ⟨same, -⟩
    · obtain ⟨rfl, rfl⟩ := pair_inj even inRow (mem_grid.mp inside).1 (Nat.add_left_cancel same)
      rfl
    · have := parity y
      have := parity c.2
      omega
  · refine write_of_mem _ (List.mem_flatMap.mpr
      ⟨_, here, List.mem_cons_of_mem _ List.mem_cons_self⟩) fun byte written => ?_
    obtain ⟨c, inside, member⟩ := List.mem_flatMap.mp written
    simp only [List.mem_cons, Prod.mk.injEq, List.not_mem_nil, or_false] at member
    rcases member with ⟨same, -⟩ | ⟨same, rfl⟩
    · have := parity y
      have := parity c.2
      omega
    · have cell : y * vidWidth + x * 2 = c.2 * vidWidth + c.1 * 2 := by omega
      obtain ⟨rfl, rfl⟩ := pair_inj even inRow (mem_grid.mp inside).1 cell
      rfl

/-- The video buffer of a rebuilt frame. -/
def rebuiltVideo (w h : ℕ) (planes : Bytes) : VideoBuffer where
  size := w * h + w * h / 4 * 2 + sizeofYCrCbData
  header := ⟨sizeofYCrCbData, w, ↑(sizeofYCrCbData + w * h), w⟩
  data := interleave (w * h / 4) w h (w * h) planes (copyLuma (w * h) (w * h) planes fun _ => 0)

/-- The halves of the Cb and Cr planes hold a byte for each block of two by two pixels. -/
theorem cbCr_room (evenW : Even w) (evenH : Even h) : w / 2 * (h / 2) = w * h / 4 := by
  obtain ⟨halfW, rfl⟩ := evenW
  obtain ⟨halfH, rfl⟩ := evenH
  rw [← Nat.two_mul, ← Nat.two_mul, Nat.mul_div_cancel_left _ two_pos,
    Nat.mul_div_cancel_left _ two_pos, show 2 * halfW * (2 * halfH) = 4 * (halfW * halfH) by ring,
    Nat.mul_div_cancel_left _ (by decide)]

theorem inside_rebuiltVideo (below : i < w * h + w * h / 4 * 2) :
    (rebuiltVideo w h planes).Inside ↑i := by
  refine ⟨Int.natCast_nonneg _, ?_⟩
  change ((16 : ℕ) : ℤ) + _ < ↑(w * h + w * h / 4 * 2 + 16)
  omega

theorem rebuiltVideo_luma (inRow : x < w) (inColumn : y < h) :
    (rebuiltVideo w h planes).luma x y =
      some (planes (Pointer.base Plane.y + (w * h + (y * w + x)))) := by
  have cell := cell_lt inRow inColumn
  have index : (rebuiltVideo w h planes).lumaIndex x y = ↑(y * w + x) := by
    simp [VideoBuffer.lumaIndex, rebuiltVideo]
  rw [VideoBuffer.luma, index, VideoBuffer.byte_of_inside (inside_rebuiltVideo (by omega)),
    Int.toNat_natCast]
  exact congrArg some ((interleave_of_lt cell).trans (copyLuma_of_lt cell))

theorem rebuiltVideo_cbCr (evenW : Even w) (evenH : Even h) (inRow : x < w / 2)
    (inColumn : y < h / 2) :
    (rebuiltVideo w h planes).cbCr x y =
      (some (planes (Pointer.base Plane.u + (w * h / 4 + (y * (w / 2) + x)))),
        some (planes (Pointer.base Plane.v + (w * h / 4 + (y * (w / 2) + x))))) := by
  have cell : y * w + x * 2 + 1 < w * h / 4 * 2 := by
    have := cell_lt inRow inColumn
    rw [← cbCr_room evenW evenH]
    have : y * w = y * (w / 2) * 2 := by rw [Nat.mul_assoc, Nat.div_mul_cancel evenW.two_dvd]
    omega
  have index : (rebuiltVideo w h planes).cbCrIndex x y = ↑(w * h + (y * w + x * 2)) := by
    simp only [VideoBuffer.cbCrIndex, rebuiltVideo]
    push_cast
    ring
  rw [VideoBuffer.cbCr, index, ← Nat.cast_succ,
    VideoBuffer.byte_of_inside (inside_rebuiltVideo (by omega)),
    VideoBuffer.byte_of_inside (inside_rebuiltVideo (by omega)), Int.toNat_natCast,
      Int.toNat_natCast]
  exact congrArg₂ (fun cb cr => (some cb, some cr)) (interleave_pair evenW inRow inColumn).1
    (interleave_pair evenW inRow inColumn).2

/-- Both halves of the planes have been copied. -/
structure Copied (w h : ℕ) (packed copy : Bytes) : Prop where
  luma : ∀ i < w * h * 2, copy (Pointer.base Plane.y + i) = packed (Pointer.base Plane.y + i)
  cbCr : ∀ plane ≠ Plane.y, ∀ i < w * h / 4 * 2,
    copy (Pointer.base plane + i) = packed (Pointer.base plane + i)

/-- The Cb and Cr rows of a stream of twice the height. -/
theorem cbCr_rows (evenW : Even w) (evenH : Even h) : w / 2 * (h * 2 / 2) = w * h / 4 * 2 := by
  have rows : h / 2 * 2 = h := Nat.div_mul_cancel evenH.two_dvd
  rw [← cbCr_room evenW evenH, Nat.mul_div_cancel _ two_pos, Nat.mul_assoc, rows]

theorem Carries.copied (evenW : Even w) (evenH : Even h)
    (carries : Carries w (h * 2) packed picture) :
    Copied w h packed (copyPlanes w (h * 2) picture out) := by
  constructor
  · intro i inside
    refine copyPlanes_of_carries carries ?_
    change i < w * (h * 2)
    rwa [← Nat.mul_assoc]
  · intro plane other i inside
    rw [← cbCr_rows evenW evenH] at inside
    cases plane with
    | y => exact absurd rfl other
    | u => exact copyPlanes_of_carries carries inside
    | v => exact copyPlanes_of_carries carries inside

/-- For even sizes, the rows of a picture of twice the height fill the vectors. -/
theorem rowsInside_of_even (evenW : Even w) (evenH : Even h) :
    RowsInside (vectorSizes (w * h)) w (h * 2) := by
  intro idx _
  cases idx with
  | y => exact (Nat.mul_assoc w h 2).ge
  | u => exact (cbCr_rows evenW evenH).le
  | v => exact (cbCr_rows evenW evenH).le

/-- **The rebuilt frame.** -/
theorem rebuild_initialized {streamHeight : ℕ} {depthVals : ℕ → ExactFloat}
    (half : streamHeight / 2 = h) (fits : w * h + 16 < 2 ^ 31)
    (inside : RowsInside (vectorSizes (w * h)) width height) :
    (StreamInfo.initialized w streamHeight depthVals).rebuild width height picture = some {
      depthWidth := w
      depthHeight := h
      vidWidth := w
      vidHeight := h
      vidData := rebuiltVideo w h (copyPlanes width height picture fun _ => 0)
      depthSize := w * h + 16
      depthData := convertYUVToDepth w h 10 (copyPlanes width height picture fun _ => 0)
        (Pointer.base () + 16)
        fun p => if p.offset < 16 then depthVals p.offset else .num 0 } := by
  have room : w * h < 2 ^ 31 := by omega
  have behind : sizeofYCrCbData + w * h < 2 ^ 31 := by
    rw [Nat.add_comm]
    exact fits
  simp only [StreamInfo.rebuild, StreamInfo.newFrame, StreamInfo.initialized, half,
    StreamInfo.fillFrame, copyFrame, if_pos inside, nat32_of_lt room, nat32_of_lt fits,
    nat32_of_lt behind, Option.bind_eq_bind, Option.bind_some, Option.pure_def,
    Nat.add_sub_cancel_left]
  rfl

/-- What a rebuilt frame says about its stream. -/
theorem fits_of_rebuild {info : StreamInfo} {frame : DepthFrame}
    (rebuilt : info.rebuild width height picture = some frame) :
    info.depthWidth * info.depthHeight + 16 < 2 ^ 31 ∧
      RowsInside (vectorSizes (info.depthWidth * info.depthHeight)) width height ∧
      frame.depthHeight = info.depthHeight := by
  simp only [StreamInfo.rebuild, StreamInfo.newFrame, StreamInfo.fillFrame, copyFrame,
    Option.bind_eq_bind, Option.bind_eq_some_iff, Option.pure_def, Option.some.injEq,
    Option.ite_none_right_eq_some, nat32_eq_some_iff] at rebuilt
  obtain ⟨_, ⟨_, ⟨_, rfl⟩, _, ⟨fits, rfl⟩, rfl⟩, _, ⟨_, rfl⟩, _, ⟨inside, rfl⟩, _, ⟨_, rfl⟩, _,
    ⟨_, rfl⟩, _, ⟨_, rfl⟩, rfl⟩ := rebuilt
  exact ⟨fits, inside, rfl⟩

end Sqwar.Stream
