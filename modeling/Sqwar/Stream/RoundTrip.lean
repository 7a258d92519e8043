import Sqwar.Depth.CodecPlanes
import Sqwar.Stream.Packing
import Sqwar.Stream.PointColours

/-!
# The round trip of a streamed frame

A frame comes back from the stream with the depths of the recorder's planes and with the video
resampled to the size of the depth image, as long as no product of the recorder's resampling wraps
and none of the signed products on either side overflows.
-/

set_option autoImplicit false

namespace Sqwar.Stream

open Data Depth

variable {props : DepthDataProps} {vid : VideoBuffer} {rebased : YCrCbData} {depthData : Floats}
  {packed copy : Bytes} {picture : AVFrame} {frame : DepthFrame} {depthVals : ℕ → ExactFloat}
    {x y : ℕ}

/-! ### The purpose of streaming -/

/-- Even sizes, at least 16 columns of depths, and no empty image. -/
structure EvenSizes (props : DepthDataProps) : Prop where
  depthWidth : Even props.depthWidth.val
  depthHeight : Even props.depthHeight.val
  vidWidth : Even props.vidWidth.val
  vidHeight : Even props.vidHeight.val
  wide : 16 ≤ props.depthWidth.val
  high : 0 < props.depthHeight.val
  vidWide : 0 < props.vidWidth.val
  vidHigh : 0 < props.vidHeight.val

/-- Neither half of a plane is written over the other. -/
structure HalvesApart (props : DepthDataProps) (depthData : Floats) (packed : Bytes) : Prop where
  depths : ∀ p, p.offset < halfSize props p.buffer → packed p = depthPlanes props depthData p
  video : ∀ planes p, halfSize props p.buffer ≤ p.offset →
    (convertDepthToYUV props.depthWidth.val props.depthHeight.val 10 depthData planes).2 p =
      planes p
  behind : ∀ p, 2 * halfSize props p.buffer ≤ p.offset → packed p = 0

/-- A rebuilt frame shows the recorder's depths and its video. -/
structure Rebuilt (props : DepthDataProps) (vid : VideoBuffer) (depthData : Floats)
    (frame : DepthFrame) : Prop where
  depthWidth : frame.depthWidth = props.depthWidth.val
  depthHeight : frame.depthHeight = props.depthHeight.val
  depths : ∀ x < props.depthWidth.val, ∀ y < props.depthHeight.val,
    frame.depthData (Pointer.base () + 16 + (y * props.depthWidth.val + x)) =
      convertYUVToDepth props.depthWidth.val props.depthHeight.val 10 (depthPlanes props depthData)
        (Pointer.base ()) (fun _ => .nan) (Pointer.base () + (y * props.depthWidth.val + x))
  luma : ∀ x < props.depthWidth.val, ∀ y < props.depthHeight.val, frame.vidData.luma x y =
    vid.luma (x * props.vidWidth.val / props.depthWidth.val)
      (y * props.vidHeight.val / props.depthHeight.val)
  cbCr : ∀ x < props.depthWidth.val / 2, ∀ y < props.depthHeight.val / 2,
    frame.vidData.cbCr x y =
      vid.cbCr (x * (props.vidWidth.val / 2) / (props.depthWidth.val / 2))
        (y * (props.vidHeight.val / 2) / (props.depthHeight.val / 2))
  colours : ColoursInside frame.vidData frame.vidWidth frame.vidHeight frame.depthWidth
    frame.depthHeight

/-- A frame can be packed, and whatever picture of it the codec returns can be rebuilt. -/
def RoundTrips (props : DepthDataProps) (vid : VideoBuffer) (depthData : Floats)
    (depthVals : ℕ → ExactFloat) : Prop :=
  ∃ packed, streamFrameBkg props vid depthData = some packed ∧
    HalvesApart props depthData packed ∧
    ∀ picture, Carries props.depthWidth.val (streamHeight props) packed picture →
      ∃ frame, (StreamInfo.initialized props.depthWidth.val (streamHeight props) depthVals).rebuild
          props.depthWidth.val (streamHeight props) picture = some frame ∧
        Rebuilt props vid depthData frame

/-! ### Where the recorder reads -/

theorem lumaSource_eq_some_iff {yuvData : YCrCbData} {i : ℤ} :
    lumaSource props yuvData x y = some i ↔
      IsInt32 (↑(uint32 (y * props.vidHeight.val) / props.depthHeight.val) * yuvData.yRowBytes) ∧
        ↑(uint32 (y * props.vidHeight.val) / props.depthHeight.val) * yuvData.yRowBytes +
          ↑(uint32 (x * props.vidWidth.val) / props.depthWidth.val) = i := by
  simp only [lumaSource, Option.bind_eq_bind, Option.bind_eq_some_iff, int32_eq_some_iff,
    Option.pure_def, Option.some.injEq]
  constructor
  · rintro ⟨_, ⟨fits, rfl⟩, rfl⟩
    exact ⟨fits, rfl⟩
  · rintro ⟨fits, rfl⟩
    exact ⟨_, ⟨fits, rfl⟩, rfl⟩

theorem cbCrSource_eq_some_iff {yuvData : YCrCbData} {i : ℤ} :
    cbCrSource props yuvData x y = some i ↔
      y * (props.vidHeight.val / 2) < 2 ^ 31 ∧
      IsInt32 (yuvData.cbCrRowBytes *
        ↑(y * (props.vidHeight.val / 2) / (props.depthHeight.val / 2))) ∧
      x * (props.vidWidth.val / 2) < 2 ^ 31 ∧
      x * (props.vidWidth.val / 2) / (props.depthWidth.val / 2) * 2 < 2 ^ 31 ∧
      yuvData.cbCrOffset + yuvData.cbCrRowBytes *
        ↑(y * (props.vidHeight.val / 2) / (props.depthHeight.val / 2)) +
          ↑(x * (props.vidWidth.val / 2) / (props.depthWidth.val / 2) * 2) = i := by
  simp only [cbCrSource, Option.bind_eq_bind, Option.bind_eq_some_iff, int32_eq_some_iff,
    nat32_eq_some_iff, Option.pure_def, Option.some.injEq]
  constructor
  · rintro ⟨_, ⟨row, rfl⟩, _, ⟨rowBytes, rfl⟩, _, ⟨column, rfl⟩, _, ⟨pair, rfl⟩, rfl⟩
    exact ⟨row, rowBytes, column, pair, rfl⟩
  · rintro ⟨row, rowBytes, column, pair, rfl⟩
    exact ⟨_, ⟨row, rfl⟩, _, ⟨rowBytes, rfl⟩, _, ⟨column, rfl⟩, _, ⟨pair, rfl⟩, rfl⟩

/-- No product of the resampling wraps, unless all rows of luma are the same bytes, and no signed
product overflows. -/
structure ProductsFit (props : DepthDataProps) (yuvData : YCrCbData) : Prop where
  columns : (props.depthWidth.val - 1) * props.vidWidth.val < 2 ^ 32
  rows : (props.depthHeight.val - 1) * props.vidHeight.val < 2 ^ 32 ∨ yuvData.yRowBytes = 0
  lumaRows : ∀ y < props.depthHeight.val,
    IsInt32 (↑(uint32 (y * props.vidHeight.val) / props.depthHeight.val) * yuvData.yRowBytes)
  cbCrRows : ∀ y < props.depthHeight.val / 2, y * (props.vidHeight.val / 2) < 2 ^ 31 ∧
    IsInt32 (yuvData.cbCrRowBytes *
      ↑(y * (props.vidHeight.val / 2) / (props.depthHeight.val / 2)))
  offsets : IsInt32 (yuvData.cbCrOffset - yuvData.yOffset)
  pixelColumns : (props.depthWidth.val - 1) * props.depthWidth.val < 2 ^ 31
  pixelRows : (props.depthHeight.val - 1) * props.depthHeight.val < 2 ^ 31

/-- The recorder reads every luma where the resampled picture has it. -/
theorem lumaSource_of_productsFit (fits : ProductsFit props vid.header)
    (isRebased : vid.header.rebase = some rebased) (inRow : x < props.depthWidth.val)
    (inColumn : y < props.depthHeight.val) :
    lumaSource props rebased x y =
      some (vid.lumaIndex (x * props.vidWidth.val / props.depthWidth.val)
        (y * props.vidHeight.val / props.depthHeight.val)) := by
  obtain ⟨-, rfl⟩ := YCrCbData.rebase_eq_some_iff.mp isRebased
  rw [lumaSource_eq_some_iff]
  refine ⟨fits.lumaRows y inColumn, ?_⟩
  have column : x * props.vidWidth.val < 2 ^ 32 :=
    (Nat.mul_le_mul_right _ (Nat.le_sub_one_of_lt inRow)).trans_lt fits.columns
  rw [uint32_of_lt column, VideoBuffer.lumaIndex]
  rcases fits.rows with rows | same
  · have row : y * props.vidHeight.val < 2 ^ 32 :=
      (Nat.mul_le_mul_right _ (Nat.le_sub_one_of_lt inColumn)).trans_lt rows
    rw [uint32_of_lt row]
  -- All rows start at the same byte, so it does not matter which one is taken.
  · rw [same, mul_zero, mul_zero]

/-- The recorder reads every pair where the resampled picture has it. -/
theorem cbCrSource_of_productsFit (fits : ProductsFit props vid.header)
    (isRebased : vid.header.rebase = some rebased) (inRow : x < props.depthWidth.val / 2)
    (inColumn : y < props.depthHeight.val / 2) :
    cbCrSource props rebased x y =
      some (vid.cbCrIndex (x * (props.vidWidth.val / 2) / (props.depthWidth.val / 2))
        (y * (props.vidHeight.val / 2) / (props.depthHeight.val / 2))) := by
  obtain ⟨-, rfl⟩ := YCrCbData.rebase_eq_some_iff.mp isRebased
  rw [cbCrSource_eq_some_iff]
  obtain ⟨row, rowBytes⟩ := fits.cbCrRows y inColumn
  -- A product of halves is a quarter of one that fits into 32 bits.
  have column : x * (props.vidWidth.val / 2) < 2 ^ 30 := by
    have quarter : x * (props.vidWidth.val / 2) * 4 ≤
        (props.depthWidth.val - 1) * props.vidWidth.val := by
      calc x * (props.vidWidth.val / 2) * 4 = x * 2 * (props.vidWidth.val / 2 * 2) := by ring
        _ ≤ _ := Nat.mul_le_mul (by omega) (Nat.div_mul_le_self _ _)
    have := fits.columns
    omega
  have pair := Nat.div_le_self (x * (props.vidWidth.val / 2)) (props.depthWidth.val / 2)
  refine ⟨row, rowBytes, by omega, by omega, ?_⟩
  rw [VideoBuffer.cbCrIndex]
  push_cast
  ring

/-! ### What comes back -/

section Rebuilt

variable (even : EvenSizes props)
  (fits : props.depthWidth.val * props.depthHeight.val + 16 < 2 ^ 31)

include fits

theorem ySize_of_fits : ySize props = props.depthWidth.val * props.depthHeight.val :=
  uint32_of_lt (by omega)

theorem uvSize_of_fits : uvSize props = props.depthWidth.val * props.depthHeight.val / 4 := by
  rw [uvSize, uint32_of_lt (by omega)]

include even

theorem streamHeight_of_fits : streamHeight props = props.depthHeight.val * 2 := by
  have := Nat.mul_le_mul_right props.depthHeight.val even.wide
  exact uint32_of_lt (by omega)

omit even in
/-- **The rebuilt luma** is what the recorder has read for it. -/
theorem rebuilt_luma (packs : streamFrameBkg props vid depthData = some packed)
    (isRebased : vid.header.rebase = some rebased)
    (copied : Copied props.depthWidth.val props.depthHeight.val packed copy)
    (inRow : x < props.depthWidth.val) (inColumn : y < props.depthHeight.val) :
    ∃ source, lumaSource props rebased x y = some source ∧
      (rebuiltVideo props.depthWidth.val props.depthHeight.val copy).luma x y =
        vid.byte source := by
  obtain ⟨_, isRebased', lumas, -⟩ := streamFrameBkg_spec packs
  obtain rfl := Option.some.inj (isRebased.symm.trans isRebased')
  obtain ⟨source, reads, value⟩ := lumas x inRow y inColumn
  have cell := cell_lt inRow inColumn
  refine ⟨source, reads, ?_⟩
  rw [rebuiltVideo_luma inRow inColumn, value, ySize_of_fits fits, copied.luma _ (by omega)]

/-- **The rebuilt pairs** are what the recorder has read for them. -/
theorem rebuilt_cbCr (packs : streamFrameBkg props vid depthData = some packed)
    (isRebased : vid.header.rebase = some rebased)
    (copied : Copied props.depthWidth.val props.depthHeight.val packed copy)
    (inRow : x < props.depthWidth.val / 2) (inColumn : y < props.depthHeight.val / 2) :
    ∃ source, cbCrSource props rebased x y = some source ∧
      (rebuiltVideo props.depthWidth.val props.depthHeight.val copy).cbCr x y =
        (vid.byte source, vid.byte (source + 1)) := by
  obtain ⟨_, isRebased', -, cbCrs, -⟩ := streamFrameBkg_spec packs
  obtain rfl := Option.some.inj (isRebased.symm.trans isRebased')
  obtain ⟨source, reads, cb, cr⟩ := cbCrs x inRow y inColumn
  have cell := cell_lt inRow inColumn
  rw [cbCr_room even.depthWidth even.depthHeight] at cell
  refine ⟨source, reads, ?_⟩
  rw [rebuiltVideo_cbCr even.depthWidth even.depthHeight inRow inColumn, cb, cr,
    uvSize_of_fits fits, copied.cbCr .u (by decide) _ (by omega),
    copied.cbCr .v (by decide) _ (by omega)]

/-- **The rebuilt depths** are those of the recorder's planes. -/
theorem rebuilt_depths (packs : streamFrameBkg props vid depthData = some packed)
    (copied : Copied props.depthWidth.val props.depthHeight.val packed copy)
    (inRow : x < props.depthWidth.val) (inColumn : y < props.depthHeight.val)
    (m : Memory Unit ExactFloat) :
    convertYUVToDepth props.depthWidth.val props.depthHeight.val 10 copy
        (Pointer.base () + 16) m (Pointer.base () + 16 + (y * props.depthWidth.val + x)) =
      convertYUVToDepth props.depthWidth.val props.depthHeight.val 10 (depthPlanes props depthData)
        (Pointer.base ()) (fun _ => .nan) (Pointer.base () + (y * props.depthWidth.val + x)) := by
  obtain ⟨_, -, -, -, first⟩ := streamFrameBkg_spec packs
  have room := cbCr_room even.depthWidth even.depthHeight
  -- The decoder reads the first halves only, which are the codec's planes.
  have inFirst : ∀ plane i, i < halfSize props plane →
      packed (Pointer.base plane + i) = depthPlanes props depthData (Pointer.base plane + i) := by
    intro plane i inside
    refine first _ ?_
    rwa [Pointer.add_offset, Pointer.base_offset, Nat.zero_add]
  have ySize := ySize_of_fits fits
  have uvSize := uvSize_of_fits fits
  refine convertYUVToDepth_congr even.depthWidth even.depthHeight inRow inColumn
    (fun i inside => ?_) (fun i inside => ?_) (fun i inside => ?_) _ _ _ _
  · exact (copied.luma i (by omega)).trans (inFirst .y i (inside.trans_eq ySize.symm))
  · rw [room] at inside
    exact (copied.cbCr .u (by decide) i (by omega)).trans
      (inFirst .u i (inside.trans_eq uvSize.symm))
  · rw [room] at inside
    exact (copied.cbCr .v (by decide) i (by omega)).trans
      (inFirst .v i (inside.trans_eq uvSize.symm))

/-- The halves of the packed planes. -/
theorem halvesApart (packs : streamFrameBkg props vid depthData = some packed) :
    HalvesApart props depthData packed := by
  have ySize := ySize_of_fits fits
  have uvSize := uvSize_of_fits fits
  have room := cbCr_room even.depthWidth even.depthHeight
  have video : ∀ planes p, halfSize props p.buffer ≤ p.offset →
      (convertDepthToYUV props.depthWidth.val props.depthHeight.val 10 depthData planes).2 p =
        planes p := by
    rintro planes ⟨plane, offset⟩ behind
    refine encodePlanes_of_le even.depthWidth even.depthHeight (fun isY => ?_) fun notY => ?_
    · obtain rfl : plane = .y := isY
      exact ySize.symm.trans_le behind
    · rw [room, ← uvSize]
      cases plane with
      | y => exact absurd rfl notY
      | u => exact behind
      | v => exact behind
  obtain ⟨-, _, -, planes, lumaPacked, cbCrPacked⟩ := of_streamFrameBkg packs
  obtain ⟨_, -, -, -, depths⟩ := streamFrameBkg_spec packs
  refine ⟨depths, video, ?_⟩
  rintro ⟨plane, offset⟩ behind
  rw [packCbCr_of_ne cbCrPacked, packLuma_of_ne lumaPacked]
  · exact video _ _ ((Nat.le_mul_of_pos_left _ two_pos).trans behind)
  · rintro rfl
    right
    rw [← ySize, ← Nat.two_mul]
    exact behind
  · intro notY
    right
    rw [room, ← uvSize, ← Nat.two_mul]
    cases plane with
    | y => exact absurd rfl notY
    | u => exact behind
    | v => exact behind

end Rebuilt

/-! ### When a frame comes back -/

theorem ProductsFit.pixels (even : EvenSizes props) {yuvData : YCrCbData}
    (fits : ProductsFit props yuvData) :
    props.depthWidth.val * props.depthHeight.val + 16 < 2 ^ 31 := by
  have := Nat.mul_le_mul (le_of_pixels even.depthWidth fits.pixelColumns)
    (le_of_pixels even.depthHeight fits.pixelRows)
  omega

theorem resampled_lt {n size source : ℕ} (inside : n < size) (pos : 0 < source) :
    n * source / size < source :=
  Nat.div_lt_of_lt_mul (Nat.mul_lt_mul_of_pos_right inside pos)

/-- A frame whose products fit can be packed. -/
theorem exists_packed (even : EvenSizes props)
    (inside : vid.PlanesInside props.vidWidth.val props.vidHeight.val)
    (fits : ProductsFit props vid.header) (depthData : Floats) :
    ∃ packed, streamFrameBkg props vid depthData = some packed := by
  obtain ⟨rebased, isRebased⟩ : ∃ rebased, vid.header.rebase = some rebased :=
    ⟨_, YCrCbData.rebase_eq_some_iff.mpr ⟨fits.offsets, rfl⟩⟩
  have vidWide : 0 < props.vidWidth.val / 2 :=
    Nat.div_pos (Nat.le_of_dvd even.vidWide even.vidWidth.two_dvd) two_pos
  have vidHigh : 0 < props.vidHeight.val / 2 :=
    Nat.div_pos (Nat.le_of_dvd even.vidHigh even.vidHeight.two_dvd) two_pos
  have room := fits.pixels even
  refine exists_packed_of_sources ⟨even.wide, by omega⟩ even.high even.depthHeight isRebased
    depthData (fun x inRow y inColumn => ?_) fun x inRow y inColumn => ?_
  · exact ⟨_, lumaSource_of_productsFit fits isRebased inRow inColumn, inside.luma _
      (resampled_lt inRow even.vidWide) _ (resampled_lt inColumn even.vidHigh)⟩
  · exact ⟨_, cbCrSource_of_productsFit fits isRebased inRow inColumn,
      inside.cb _ (resampled_lt inRow vidWide) _ (resampled_lt inColumn vidHigh),
      inside.cr _ (resampled_lt inRow vidWide) _ (resampled_lt inColumn vidHigh)⟩

/-- A frame whose products fit comes back. -/
theorem roundTrips_of_productsFit (even : EvenSizes props)
    (inside : vid.PlanesInside props.vidWidth.val props.vidHeight.val)
    (fits : ProductsFit props vid.header) (depthData : Floats) (depthVals : ℕ → ExactFloat) :
    RoundTrips props vid depthData depthVals := by
  obtain ⟨packed, packs⟩ := exists_packed even inside fits depthData
  have room := fits.pixels even
  refine ⟨packed, packs, halvesApart even room packs, fun picture carries => ?_⟩
  rw [streamHeight_of_fits even room] at carries ⊢
  have copied : Copied _ _ packed (copyPlanes _ _ picture fun _ => 0) :=
    carries.copied even.depthWidth even.depthHeight
  obtain ⟨rebased, isRebased, -⟩ := streamFrameBkg_spec packs
  refine ⟨_, rebuild_initialized (Nat.mul_div_cancel _ two_pos) room
    (rowsInside_of_even even.depthWidth even.depthHeight), {
    depthWidth := rfl
    depthHeight := rfl
    depths := fun x inRow y inColumn => rebuilt_depths even room packs copied inRow inColumn _
    luma := fun x inRow y inColumn => ?_
    cbCr := fun x inRow y inColumn => ?_
    colours := ?_ }⟩
  · obtain ⟨source, reads, same⟩ := rebuilt_luma room packs isRebased copied inRow inColumn
    obtain rfl := Option.some.inj
      (reads.symm.trans (lumaSource_of_productsFit fits isRebased inRow inColumn))
    exact same
  · obtain ⟨source, reads, same⟩ := rebuilt_cbCr even room packs isRebased copied inRow inColumn
    obtain rfl := Option.some.inj
      (reads.symm.trans (cbCrSource_of_productsFit fits isRebased inRow inColumn))
    exact same
  · exact coloursInside_rebuiltVideo room even.depthWidth even.depthHeight fits.pixelColumns
      fits.pixelRows

/-- What has come back has been read where the resampled picture has it. -/
theorem RoundTrips.reads (even : EvenSizes props)
    (back : RoundTrips props vid depthData depthVals) :
    ∃ rebased, vid.header.rebase = some rebased ∧
      (∀ x < props.depthWidth.val, ∀ y < props.depthHeight.val, ∃ source,
        lumaSource props rebased x y = some source ∧ vid.byte source =
          vid.luma (x * props.vidWidth.val / props.depthWidth.val)
            (y * props.vidHeight.val / props.depthHeight.val)) ∧
      (∀ x < props.depthWidth.val / 2, ∀ y < props.depthHeight.val / 2, ∃ source,
        cbCrSource props rebased x y = some source) ∧
      (props.depthWidth.val - 1) * props.depthWidth.val < 2 ^ 31 ∧
      (props.depthHeight.val - 1) * props.depthHeight.val < 2 ^ 31 := by
  obtain ⟨packed, packs, -, comesBack⟩ := back
  obtain ⟨frame, rebuilt, shows⟩ := comesBack (tightPicture _ packed) carries_tightPicture
  have room : props.depthWidth.val * props.depthHeight.val + 16 < 2 ^ 31 := by
    obtain ⟨room, -, same⟩ := fits_of_rebuild rebuilt
    rwa [← same, shows.depthHeight] at room
  rw [streamHeight_of_fits even room] at rebuilt
  obtain rfl := Option.some.inj
    ((rebuild_initialized (Nat.mul_div_cancel _ two_pos) room
      (rowsInside_of_even even.depthWidth even.depthHeight)).symm.trans rebuilt)
  have copied : Copied _ _ packed (copyPlanes _ (props.depthHeight.val * 2) _ fun _ => 0) :=
    carries_tightPicture.copied even.depthWidth even.depthHeight
  obtain ⟨rebased, isRebased, -, cbCrs, -⟩ := streamFrameBkg_spec packs
  refine ⟨rebased, isRebased, fun x inRow y inColumn => ?_, fun x inRow y inColumn => ?_, ?_⟩
  · obtain ⟨source, reads, same⟩ := rebuilt_luma room packs isRebased copied inRow inColumn
    exact ⟨source, reads, same.symm.trans (shows.luma x inRow y inColumn)⟩
  · obtain ⟨source, reads, -⟩ := cbCrs x inRow y inColumn
    exact ⟨source, reads⟩
  · have wide := even.wide
    exact (of_coloursInside_rebuiltVideo room (by omega) even.high shows.colours).2

/-- If every sample is read where the resampled picture has it, then the products fit. -/
theorem productsFit_of_sources (even : EvenSizes props)
    (isRebased : vid.header.rebase = some rebased)
    (lumas : ∀ x < props.depthWidth.val, ∀ y < props.depthHeight.val,
      lumaSource props rebased x y = some (vid.lumaIndex
        (x * props.vidWidth.val / props.depthWidth.val)
        (y * props.vidHeight.val / props.depthHeight.val)))
    (cbCrs : ∀ x < props.depthWidth.val / 2, ∀ y < props.depthHeight.val / 2, ∃ source,
      cbCrSource props rebased x y = some source)
    (pixelColumns : (props.depthWidth.val - 1) * props.depthWidth.val < 2 ^ 31)
    (pixelRows : (props.depthHeight.val - 1) * props.depthHeight.val < 2 ^ 31) :
    ProductsFit props vid.header := by
  obtain ⟨offsets, rfl⟩ := YCrCbData.rebase_eq_some_iff.mp isRebased
  have wide := even.wide
  have high := even.high
  have zero : ∀ n, uint32 (0 * n) = 0 := fun n => by rw [Nat.zero_mul]; rfl
  -- The divisors are small, so a product that wraps has another quotient.
  have small := le_of_pixels even.depthWidth pixelColumns
  have low := le_of_pixels even.depthHeight pixelRows
  refine ⟨?_, ?_, fun y inColumn => ?_, fun y inColumn => ?_, offsets, pixelColumns, pixelRows⟩
  · -- the last column of the first row
    by_contra! wraps
    obtain ⟨-, same⟩ := lumaSource_eq_some_iff.mp
      (lumas (props.depthWidth.val - 1) (by omega) 0 high)
    rw [VideoBuffer.lumaIndex, zero, Nat.zero_mul, add_right_inj, Nat.cast_inj] at same
    exact (uint32_div_lt (by omega) (by omega) wraps).ne same
  · -- the first column of the last row
    by_contra! wraps
    obtain ⟨-, same⟩ := lumaSource_eq_some_iff.mp
      (lumas 0 (by omega) (props.depthHeight.val - 1) (by omega))
    rw [VideoBuffer.lumaIndex, zero, Nat.zero_mul, add_left_inj] at same
    exact (uint32_div_lt high (by omega) wraps.1).ne
      (Nat.cast_injective (mul_right_cancel₀ wraps.2 same))
  · exact (lumaSource_eq_some_iff.mp (lumas 0 (by omega) y inColumn)).1
  · obtain ⟨source, reads⟩ := cbCrs 0 (by omega) y inColumn
    obtain ⟨row, rowBytes, -⟩ := cbCrSource_eq_some_iff.mp reads
    exact ⟨row, rowBytes⟩

/-- **When frames round trip.** For a layout of the video whose planes lie inside the buffer, a
frame comes back with its depths and its resampled video, whatever the bytes are, if and only if the
products that the code takes fit. -/
theorem roundTrips_iff_productsFit (even : EvenSizes props) (vid : VideoBuffer)
    (inside : vid.PlanesInside props.vidWidth.val props.vidHeight.val) (depthData : Floats)
    (depthVals : ℕ → ExactFloat) :
    (∀ data, RoundTrips props { vid with data := data } depthData depthVals) ↔
      ProductsFit props vid.header := by
  refine ⟨fun back => ?_, fun fits data => ?_⟩
  · obtain ⟨rebased, isRebased, -, cbCrs, columns, rows⟩ := (back vid.data).reads even
    refine productsFit_of_sources even isRebased (fun x inRow y inColumn => ?_) cbCrs columns rows
    · -- a source that holds the right byte in every buffer is the right one
      have read : ∀ data, ∃ source, lumaSource props rebased x y = some source ∧
          { vid with data := data }.byte source = { vid with data := data }.luma
            (x * props.vidWidth.val / props.depthWidth.val)
            (y * props.vidHeight.val / props.depthHeight.val) := by
        intro data
        obtain ⟨rebased', isRebased', lumas, -⟩ := (back data).reads even
        obtain rfl := Option.some.inj (isRebased.symm.trans isRebased')
        exact lumas x inRow y inColumn
      obtain ⟨source, reads, -⟩ := read vid.data
      rw [reads]
      refine congrArg some (VideoBuffer.index_eq_of_forall (inside.luma _
        (resampled_lt inRow even.vidWide) _ (resampled_lt inColumn even.vidHigh)) fun data => ?_)
      obtain ⟨source', reads', same⟩ := read data
      obtain rfl := Option.some.inj (reads.symm.trans reads')
      exact same
  · have inside' : { vid with data := data }.PlanesInside props.vidWidth.val props.vidHeight.val :=
      ⟨inside.luma, inside.cb, inside.cr⟩
    exact roundTrips_of_productsFit even inside' fits depthData depthVals

/-! ### Two frames -/

/-- The properties of a frame of the given sizes. -/
def sized (depthWidth depthHeight vidWidth vidHeight : Word 4) : DepthDataProps where
  timestamp := 0
  vidWidth := vidWidth
  vidHeight := vidHeight
  vidMode := 0
  depthWidth := depthWidth
  depthHeight := depthHeight
  depthMode := 0

/-- A video buffer without gaps, of bytes that are zero but for one. -/
def markedVideo (width height mark : ℕ) : VideoBuffer where
  size := sizeofYCrCbData + width * height + width * (height / 2)
  header := ⟨sizeofYCrCbData, width, sizeofYCrCbData + width * height, width⟩
  data := fun n => if n = mark then 1 else 0

theorem planesInside_markedVideo (w h mark : ℕ) : (markedVideo w h mark).PlanesInside w h := by
  have below : ∀ i : ℕ, i < w * h + w * (h / 2) → (markedVideo w h mark).Inside i := by
    intro i below
    refine ⟨Int.natCast_nonneg _, ?_⟩
    change ((16 : ℕ) : ℤ) + _ < ((16 + w * h + w * (h / 2) : ℕ) : ℤ)
    omega
  have pair : ∀ x < w / 2, ∀ y < h / 2, w * h + (y * w + x * 2) + 1 < w * h + w * (h / 2) ∧
      (markedVideo w h mark).cbCrIndex x y = ↑(w * h + (y * w + x * 2)) := by
    intro x inRow y inColumn
    have cell := cell_lt (show x * 2 + 1 < w by omega) inColumn
    refine ⟨by omega, ?_⟩
    simp only [VideoBuffer.cbCrIndex, markedVideo]
    push_cast
    ring
  refine ⟨fun x inRow y inColumn => ?_, fun x inRow y inColumn => ?_, fun x inRow y inColumn => ?_⟩
  · have cell := cell_lt inRow inColumn
    have index : (markedVideo w h mark).lumaIndex x y = ↑(y * w + x) := by
      simp [VideoBuffer.lumaIndex, markedVideo]
    rw [index]
    exact below _ (by omega)
  · obtain ⟨before, index⟩ := pair x inRow y inColumn
    rw [index]
    exact below _ (by omega)
  · obtain ⟨before, index⟩ := pair x inRow y inColumn
    rw [index, ← Nat.cast_succ]
    exact below _ before

/-- A frame of 16 by 2 depths comes back, with a video of twice the size. -/
theorem roundTrips_sixteen :
    RoundTrips (sized 16 2 32 4) (markedVideo 32 4 0) (fun _ => .num 1) fun _ => .num 0 :=
  (roundTrips_iff_productsFit
    ⟨by decide, by decide, by decide, by decide, by decide, by decide, by decide, by decide⟩
    (markedVideo 32 4 0) (planesInside_markedVideo 32 4 0) _ _).mpr
      ⟨by decide, .inl (by decide), by decide, by decide, by decide, by decide, by decide⟩
      (markedVideo 32 4 0).data

/-- In a video of 92688 columns for 46340 columns of depths, the product for the last column wraps,
and the recorder reads column 2 in place of column 92685. -/
theorem not_roundTrips_wide : EvenSizes (sized 46340 2 92688 2) ∧
    (markedVideo 92688 2 92685).PlanesInside 92688 2 ∧
    ¬ RoundTrips (sized 46340 2 92688 2) (markedVideo 92688 2 92685) (fun _ => .num 1)
      fun _ => .num 0 := by
  have even : EvenSizes (sized 46340 2 92688 2) :=
    ⟨by decide, by decide, by decide, by decide, by decide, by decide, by decide, by decide⟩
  refine ⟨even, planesInside_markedVideo _ _ _, fun back => ?_⟩
  obtain ⟨rebased, -, lumas, -⟩ := back.reads even
  -- the product for the last column wraps to 101936
  obtain ⟨source, reads, same⟩ := lumas 46339 (by decide) 0 (by decide)
  obtain ⟨-, rfl⟩ := lumaSource_eq_some_iff.mp reads
  have wrapped : (↑(uint32 (0 * 2) / 2) * rebased.yRowBytes +
      ↑(uint32 (46339 * 92688) / 46340) : ℤ) =
      2 := by
    rw [show uint32 (0 * 2) / 2 = 0 by decide, show uint32 (46339 * 92688) / 46340 = 2 by decide,
      Nat.cast_zero, zero_mul, zero_add]
    rfl
  change (markedVideo 92688 2 92685).byte
    (↑(uint32 (0 * 2) / 2) * rebased.yRowBytes + ↑(uint32 (46339 * 92688) / 46340)) = _ at same
  rw [wrapped] at same
  exact absurd same (by decide)

end Sqwar.Stream
