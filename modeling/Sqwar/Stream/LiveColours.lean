import Sqwar.Stream.RoundTrip

/-!
# The colours of the live view

`GetDepthPointsWithColor` and `Recorder::StreamFrameBkg` look up the same luma for every depth. The
live view takes the pairs with the row size of the luma plane and masks their columns to 16 bits;
the recorder takes them with their own row size. So the two show the same colours exactly if the row
sizes are the same, or just one row of pairs is sampled, and the columns fit the mask.
-/

set_option autoImplicit false

namespace Sqwar.Stream

open Data Depth

variable {props : DepthDataProps} {vid : VideoBuffer} {yuvData rebased : YCrCbData}
  {depthData : Floats} {x y : ℕ}

/-- Even sizes of pictures that are not empty. -/
structure EvenPictures (props : DepthDataProps) : Prop where
  depthWidth : Even props.depthWidth.val
  depthHeight : Even props.depthHeight.val
  vidWidth : Even props.vidWidth.val
  vidHeight : Even props.vidHeight.val
  wide : 0 < props.depthWidth.val
  high : 0 < props.depthHeight.val
  vidWide : 0 < props.vidWidth.val
  vidHigh : 0 < props.vidHeight.val

/-- A header whose rows are long enough for the picture, and its planes. -/
structure HoldsPicture (vid : VideoBuffer) (width height : ℕ) : Prop where
  yRowBytes : (width : ℤ) ≤ vid.header.yRowBytes
  cbCrRowBytes : (width : ℤ) ≤ vid.header.cbCrRowBytes
  planes : vid.PlanesInside width height

/-- The live view looks up what the recorder packs: the luma for every depth, and the pair for every
block. The packed planes have room for all of them. -/
def SamplesAgree (props : DepthDataProps) (vid : VideoBuffer) (depthData : Floats) : Prop :=
  props.depthWidth.val * props.depthHeight.val ≤ ySize props ∧
    ∃ packed, streamFrameBkg props vid depthData = some packed ∧
      ∀ x < props.depthWidth.val, ∀ y < props.depthHeight.val, ∃ luma cb cr,
        colourReads vid.header props.vidWidth.val props.vidHeight.val props.depthWidth.val
            props.depthHeight.val x y = some [luma, cb, cr] ∧
          vid.byte luma = some (packed (Pointer.base Plane.y +
            (ySize props + (y * props.depthWidth.val + x)))) ∧
          (Even x → Even y →
            vid.byte cb = some (packed (Pointer.base Plane.u +
              (uvSize props + (y / 2 * (props.depthWidth.val / 2) + x / 2)))) ∧
            vid.byte cr = some (packed (Pointer.base Plane.v +
              (uvSize props + (y / 2 * (props.depthWidth.val / 2) + x / 2)))))

/-- Where the two ways of looking up samples agree. -/
structure LookupsAgree (props : DepthDataProps) (yuvData : YCrCbData) : Prop where
  converts : Converts props
  columns : (props.depthWidth.val - 1) * props.vidWidth.val < 2 ^ 31
  rows : (props.depthHeight.val - 1) * props.vidHeight.val < 2 ^ 31
  offsets : IsInt32 (yuvData.cbCrOffset - yuvData.yOffset)
  lumas : ((props.depthHeight.val - 1) * props.vidHeight.val / props.depthHeight.val : ℕ) *
    yuvData.yRowBytes +
      ((props.depthWidth.val - 1) * props.vidWidth.val / props.depthWidth.val : ℕ) < 2 ^ 31
  mask : (props.depthWidth.val - 2) * props.vidWidth.val / props.depthWidth.val < 65536
  pitch : yuvData.yRowBytes = yuvData.cbCrRowBytes ∨ props.vidHeight.val = 2 ∨
    props.depthHeight.val = 2

/-! ### Where the live view reads -/

theorem rgbReads_eq_some_iff {ix iy : ℕ} {uvData yPitch : ℤ} {reads : List ℤ} :
    rgbReads ix iy uvData yPitch = some reads ↔
      (IsInt32 (iy * yPitch) ∧ IsInt32 (iy * yPitch + ix)) ∧
      (IsInt32 (↑(iy / 2) * yPitch) ∧ IsInt32 (↑(iy / 2) * yPitch + ↑(ix &&& 0xFFFE)) ∧
        IsInt32 (↑(iy / 2) * yPitch + ↑(ix &&& 0xFFFE) + 1)) ∧
      [iy * yPitch + ix, uvData + (↑(iy / 2) * yPitch + ↑(ix &&& 0xFFFE)),
        uvData + (↑(iy / 2) * yPitch + ↑(ix &&& 0xFFFE) + 1)] = reads := by
  simp only [rgbReads, Option.bind_eq_bind, Option.bind_eq_some_iff, int32_eq_some_iff,
    Option.pure_def, Option.some.injEq]
  constructor
  · rintro ⟨_, ⟨row, rfl⟩, _, ⟨luma, rfl⟩, _, ⟨pairs, rfl⟩, _, ⟨cb, rfl⟩, _, ⟨cr, rfl⟩, rfl⟩
    exact ⟨⟨row, luma⟩, ⟨pairs, cb, cr⟩, rfl⟩
  · rintro ⟨⟨row, luma⟩, ⟨pairs, cb, cr⟩, rfl⟩
    exact ⟨_, ⟨row, rfl⟩, _, ⟨luma, rfl⟩, _, ⟨pairs, rfl⟩, _, ⟨cb, rfl⟩, _, ⟨cr, rfl⟩, rfl⟩

theorem colourReads_eq_some_iff {vWidth vHeight depthWidth depthHeight : ℕ} {reads : List ℤ} :
    colourReads yuvData vWidth vHeight depthWidth depthHeight x y = some reads ↔
      IsInt32 (yuvData.cbCrOffset - yuvData.yOffset) ∧ y * depthWidth + x < 2 ^ 31 ∧
      x * vWidth < 2 ^ 31 ∧ y * vHeight < 2 ^ 31 ∧
      rgbReads (x * vWidth / depthWidth) (y * vHeight / depthHeight)
        (yuvData.cbCrOffset - yuvData.yOffset) yuvData.yRowBytes = some reads := by
  simp only [colourReads, Option.bind_eq_bind, Option.bind_eq_some_iff,
    YCrCbData.rebase_eq_some_iff, nat32_eq_some_iff]
  constructor
  · rintro ⟨_, ⟨offsets, rfl⟩, _, ⟨-, rfl⟩, _, ⟨depth, rfl⟩, _, ⟨column, rfl⟩, _, ⟨row, rfl⟩, reads⟩
    exact ⟨offsets, depth, column, row, reads⟩
  · rintro ⟨offsets, depth, column, row, reads⟩
    exact ⟨_, ⟨offsets, rfl⟩, _, ⟨by omega, rfl⟩, _, ⟨depth, rfl⟩, _, ⟨column, rfl⟩, _, ⟨row, rfl⟩,
      reads⟩

/-- The pair around an even pixel, by way of the pixels and by way of the halved sizes. -/
theorem halved_sample {n source size : ℕ} (even : Even n) (evenSource : Even source)
    (evenSize : Even size) :
    n * source / size / 2 = n / 2 * (source / 2) / (size / 2) := by
  obtain ⟨j, rfl⟩ := even.two_dvd
  obtain ⟨a, rfl⟩ := evenSource.two_dvd
  obtain ⟨b, rfl⟩ := evenSize.two_dvd
  rw [Nat.mul_div_cancel_left _ two_pos, Nat.mul_div_cancel_left _ two_pos,
    Nat.mul_div_cancel_left _ two_pos, Nat.div_div_eq_div_mul, show 2 * j * (2 * a) = 4 * (j * a)
      by ring, show 2 * b * 2 = 4 * b by ring, Nat.mul_div_mul_left _ _ (by decide)]

/-- Samples of later pixels do not lie before. -/
theorem sample_le {n last source size : ℕ} (before : n ≤ last) :
    n * source / size ≤ last * source / size :=
  Nat.div_le_div_right (Nat.mul_le_mul_right _ before)

/-- A masked column is even and fits 16 bits. -/
theorem land_fffe_le (n : ℕ) : n &&& 0xFFFE ≤ 65534 := Nat.and_le_right

theorem land_fffe_eq_iff {n : ℕ} : n &&& 0xFFFE = n / 2 * 2 ↔ n < 65536 := by
  refine ⟨fun same => ?_, land_fffe_of_lt⟩
  have := land_fffe_le n
  omega

/-! ### Lookups that agree -/

/-- The rows of pairs that are sampled start at the same bytes with both row sizes. -/
theorem LookupsAgree.pitch_mul (agree : LookupsAgree props yuvData) {k : ℕ}
    (inColumn : k < props.depthHeight.val / 2) :
    yuvData.cbCrRowBytes * ↑(k * (props.vidHeight.val / 2) / (props.depthHeight.val / 2)) =
      yuvData.yRowBytes * ↑(k * (props.vidHeight.val / 2) / (props.depthHeight.val / 2)) := by
  rcases agree.pitch with same | two | two
  · rw [same]
  · have first : k * (props.vidHeight.val / 2) / (props.depthHeight.val / 2) = 0 := by
      rw [two, Nat.div_self two_pos, mul_one]
      exact Nat.div_eq_of_lt inColumn
    rw [first, Nat.cast_zero, mul_zero, mul_zero]
  · obtain rfl : k = 0 := by
      rw [two] at inColumn
      omega
    simp

section Agree

variable (even : EvenPictures props) (agree : LookupsAgree props yuvData)
  (long : (props.vidWidth.val : ℤ) ≤ yuvData.yRowBytes)

include agree long

/-- Every luma lies below the last one. -/
theorem LookupsAgree.luma_lt (inRow : x < props.depthWidth.val)
    (inColumn : y < props.depthHeight.val) :
    (y * props.vidHeight.val / props.depthHeight.val : ℕ) * yuvData.yRowBytes +
      (x * props.vidWidth.val / props.depthWidth.val : ℕ) < 2 ^ 31 := by
  refine lt_of_le_of_lt (add_le_add (mul_le_mul_of_nonneg_right ?_ ?_) ?_) agree.lumas
  · exact_mod_cast sample_le (Nat.le_sub_one_of_lt inColumn)
  · exact (Nat.cast_nonneg _).trans long
  · exact_mod_cast sample_le (Nat.le_sub_one_of_lt inRow)

include even

/-- The live view can look up every colour. -/
theorem LookupsAgree.colourReads (inRow : x < props.depthWidth.val)
    (inColumn : y < props.depthHeight.val) :
    Stream.colourReads yuvData props.vidWidth.val props.vidHeight.val props.depthWidth.val
        props.depthHeight.val x y =
      some [↑(y * props.vidHeight.val / props.depthHeight.val) * yuvData.yRowBytes +
          ↑(x * props.vidWidth.val / props.depthWidth.val),
        yuvData.cbCrOffset - yuvData.yOffset +
          (↑(y * props.vidHeight.val / props.depthHeight.val / 2) * yuvData.yRowBytes +
            ↑(x * props.vidWidth.val / props.depthWidth.val &&& 0xFFFE)),
        yuvData.cbCrOffset - yuvData.yOffset +
          (↑(y * props.vidHeight.val / props.depthHeight.val / 2) * yuvData.yRowBytes +
            ↑(x * props.vidWidth.val / props.depthWidth.val &&& 0xFFFE) + 1)] := by
  have column : x * props.vidWidth.val < 2 ^ 31 :=
    (Nat.mul_le_mul_right _ (Nat.le_sub_one_of_lt inRow)).trans_lt agree.columns
  have row : y * props.vidHeight.val < 2 ^ 31 :=
    (Nat.mul_le_mul_right _ (Nat.le_sub_one_of_lt inColumn)).trans_lt agree.rows
  have below := agree.luma_lt long inRow inColumn
  have depth := (cell_lt inRow inColumn).trans agree.converts.cells
  refine colourReads_eq_some_iff.mpr
    ⟨agree.offsets, depth, column, row, rgbReads_eq_some_iff.mpr ?_⟩
  generalize x * props.vidWidth.val / props.depthWidth.val = ix at below ⊢
  generalize y * props.vidHeight.val / props.depthHeight.val = iy at below ⊢
  have masked := (land_fffe ix).1
  have small := land_fffe_le ix
  generalize ix &&& 0xFFFE = uvx at masked small ⊢
  have wide : (0 : ℤ) < props.vidWidth.val := by exact_mod_cast even.vidWide
  have pos : (0 : ℤ) < yuvData.yRowBytes := wide.trans_le long
  have nonneg : ∀ n : ℕ, 0 ≤ (n : ℤ) * yuvData.yRowBytes := fun n =>
    mul_nonneg (Nat.cast_nonneg _) pos.le
  -- the row of pairs is above that of the luma, or both are the first one
  have pair : ↑(iy / 2) * yuvData.yRowBytes + (uvx : ℤ) + 1 < 2 ^ 31 := by
    rcases Nat.lt_or_ge iy 2 with first | later
    · rw [Nat.div_eq_of_lt first, Nat.cast_zero, zero_mul, zero_add]
      omega
    · have above : ↑(iy / 2) * yuvData.yRowBytes + yuvData.yRowBytes ≤ iy * yuvData.yRowBytes := by
        rw [← add_one_mul]
        exact mul_le_mul_of_nonneg_right (by omega) pos.le
      omega
  have := nonneg iy
  have := nonneg (iy / 2)
  exact ⟨⟨⟨by omega, by omega⟩, by omega, by omega⟩,
    ⟨⟨by omega, by omega⟩, ⟨by omega, by omega⟩, by omega, by omega⟩, rfl⟩

/-- The recorder takes every pair from the row and the column that the live view takes. -/
theorem LookupsAgree.cbCrSource (isRebased : yuvData.rebase = some rebased) {j k : ℕ}
    (inRow : j < props.depthWidth.val / 2) (inColumn : k < props.depthHeight.val / 2) :
    Stream.cbCrSource props rebased j k =
      some (yuvData.cbCrOffset - yuvData.yOffset + yuvData.cbCrRowBytes *
        ↑(k * (props.vidHeight.val / 2) / (props.depthHeight.val / 2)) +
          ↑(j * (props.vidWidth.val / 2) / (props.depthWidth.val / 2) * 2)) := by
  obtain ⟨-, rfl⟩ := YCrCbData.rebase_eq_some_iff.mp isRebased
  have below := agree.luma_lt long (show j * 2 < props.depthWidth.val by omega)
    (show k * 2 < props.depthHeight.val by omega)
  have halfRow := halved_sample (even_two_mul k) even.vidHeight even.depthHeight
  have halfColumn := halved_sample (even_two_mul j) even.vidWidth even.depthWidth
  rw [Nat.mul_div_cancel_left _ two_pos, Nat.mul_comm 2] at halfRow halfColumn
  rw [cbCrSource_eq_some_iff, agree.pitch_mul inColumn, ← halfRow, ← halfColumn]
  have wide : (0 : ℤ) < props.vidWidth.val := by exact_mod_cast even.vidWide
  have pos : (0 : ℤ) < yuvData.yRowBytes := wide.trans_le long
  have column := agree.columns
  have row := agree.rows
  have rows : k * (props.vidHeight.val / 2) ≤
      (props.depthHeight.val - 1) * props.vidHeight.val :=
    Nat.mul_le_mul (by omega) (Nat.div_le_self _ _)
  have columns : j * (props.vidWidth.val / 2) ≤ (props.depthWidth.val - 1) * props.vidWidth.val :=
    Nat.mul_le_mul (by omega) (Nat.div_le_self _ _)
  generalize j * 2 * props.vidWidth.val / props.depthWidth.val = ix at below ⊢
  generalize k * 2 * props.vidHeight.val / props.depthHeight.val = iy at below ⊢
  have half : (iy / 2 : ℕ) * yuvData.yRowBytes ≤ iy * yuvData.yRowBytes :=
    mul_le_mul_of_nonneg_right (by omega) pos.le
  have nonneg : 0 ≤ (iy / 2 : ℕ) * yuvData.yRowBytes := mul_nonneg (Nat.cast_nonneg _) pos.le
  have nonneg' : 0 ≤ (iy : ℤ) * yuvData.yRowBytes := mul_nonneg (Nat.cast_nonneg _) pos.le
  rw [mul_comm yuvData.yRowBytes]
  exact ⟨by omega, ⟨by omega, by omega⟩, by omega, by omega, rfl⟩

omit even in
/-- The recorder takes every luma from where the live view takes it. -/
theorem LookupsAgree.lumaSource (isRebased : yuvData.rebase = some rebased)
    (inRow : x < props.depthWidth.val) (inColumn : y < props.depthHeight.val) :
    Stream.lumaSource props rebased x y =
      some (↑(y * props.vidHeight.val / props.depthHeight.val) * yuvData.yRowBytes +
        ↑(x * props.vidWidth.val / props.depthWidth.val)) := by
  obtain ⟨-, rfl⟩ := YCrCbData.rebase_eq_some_iff.mp isRebased
  have column : x * props.vidWidth.val < 2 ^ 31 :=
    (Nat.mul_le_mul_right _ (Nat.le_sub_one_of_lt inRow)).trans_lt agree.columns
  have row : y * props.vidHeight.val < 2 ^ 31 :=
    (Nat.mul_le_mul_right _ (Nat.le_sub_one_of_lt inColumn)).trans_lt agree.rows
  have below := agree.luma_lt long inRow inColumn
  have nonneg : (0 : ℤ) ≤
      ↑(y * props.vidHeight.val / props.depthHeight.val) * yuvData.yRowBytes :=
    mul_nonneg (Nat.cast_nonneg _) ((Nat.cast_nonneg _).trans long)
  have column_nonneg : (0 : ℤ) ≤ ↑(x * props.vidWidth.val / props.depthWidth.val) :=
    Nat.cast_nonneg _
  have fits : IsInt32 (↑(y * props.vidHeight.val / props.depthHeight.val) * yuvData.yRowBytes) :=
    ⟨by omega, by omega⟩
  rw [lumaSource_eq_some_iff, uint32_of_lt (by omega), uint32_of_lt (by omega)]
  exact ⟨fits, rfl⟩

omit long in
/-- For even columns and rows, the live view takes the same pair. -/
theorem LookupsAgree.pair_eq (inRow : x < props.depthWidth.val)
    (inColumn : y < props.depthHeight.val) (evenX : Even x) (evenY : Even y) :
    (↑(y * props.vidHeight.val / props.depthHeight.val / 2) * yuvData.yRowBytes +
        ↑(x * props.vidWidth.val / props.depthWidth.val &&& 0xFFFE) : ℤ) =
      yuvData.cbCrRowBytes *
          ↑(y / 2 * (props.vidHeight.val / 2) / (props.depthHeight.val / 2)) +
        ↑(x / 2 * (props.vidWidth.val / 2) / (props.depthWidth.val / 2) * 2) := by
  -- the last even column fits the mask, and so do the ones before
  have before : x ≤ props.depthWidth.val - 2 := by
    obtain ⟨half, rfl⟩ := evenX
    obtain ⟨halfWidth, width⟩ := even.depthWidth
    omega
  have fits := (sample_le before).trans_lt agree.mask
  rw [land_fffe_of_lt fits, halved_sample evenX even.vidWidth even.depthWidth,
    halved_sample evenY even.vidHeight even.depthHeight,
    agree.pitch_mul (Nat.div_lt_div_of_lt_of_dvd even.depthHeight.two_dvd inColumn), mul_comm]

end Agree

/-- The recorder can pack every frame. -/
theorem LookupsAgree.exists_packed (even : EvenPictures props)
    (holds : HoldsPicture vid props.vidWidth.val props.vidHeight.val)
    (agree : LookupsAgree props vid.header) (isRebased : vid.header.rebase = some rebased)
    (depthData : Floats) : ∃ packed, streamFrameBkg props vid depthData = some packed := by
  have long := holds.yRowBytes
  have vidWide : 0 < props.vidWidth.val / 2 :=
    Nat.div_pos (Nat.le_of_dvd even.vidWide even.vidWidth.two_dvd) two_pos
  have vidHigh : 0 < props.vidHeight.val / 2 :=
    Nat.div_pos (Nat.le_of_dvd even.vidHigh even.vidHeight.two_dvd) two_pos
  have cbCrIndex : ∀ j k : ℕ, vid.header.cbCrOffset - vid.header.yOffset +
      vid.header.cbCrRowBytes * (k : ℤ) + ((j * 2 : ℕ) : ℤ) = vid.cbCrIndex j k := by
    intro j k
    rw [VideoBuffer.cbCrIndex]
    push_cast
    ring
  refine exists_packed_of_sources agree.converts even.high even.depthHeight isRebased depthData
    (fun x inRow y inColumn => ⟨_, agree.lumaSource long isRebased inRow inColumn,
      holds.planes.luma _ (resampled_lt inRow even.vidWide) _
        (resampled_lt inColumn even.vidHigh)⟩)
    fun j inRow k inColumn => ⟨_, agree.cbCrSource even long isRebased inRow inColumn, ?_⟩
  rw [cbCrIndex]
  exact ⟨holds.planes.cb _ (resampled_lt inRow vidWide) _ (resampled_lt inColumn vidHigh),
    holds.planes.cr _ (resampled_lt inRow vidWide) _ (resampled_lt inColumn vidHigh)⟩

/-- Where the lookups agree, the samples do. -/
theorem samplesAgree_of_lookupsAgree (even : EvenPictures props)
    (holds : HoldsPicture vid props.vidWidth.val props.vidHeight.val)
    (agree : LookupsAgree props vid.header) (depthData : Floats) :
    SamplesAgree props vid depthData := by
  have long := holds.yRowBytes
  obtain ⟨rebased, isRebased⟩ : ∃ rebased, vid.header.rebase = some rebased :=
    ⟨_, YCrCbData.rebase_eq_some_iff.mpr ⟨agree.offsets, rfl⟩⟩
  obtain ⟨packed, packs⟩ := agree.exists_packed even holds isRebased depthData
  have room := agree.converts.cells
  refine ⟨(uint32_of_lt (by omega)).ge, packed, packs, fun x inRow y inColumn => ?_⟩
  obtain ⟨_, isRebased', lumas, cbCrs, -⟩ := streamFrameBkg_spec packs
  obtain rfl := Option.some.inj (isRebased.symm.trans isRebased')
  refine ⟨_, _, _, agree.colourReads even long inRow inColumn, ?_, fun evenX evenY => ?_⟩
  · obtain ⟨source, reads, value⟩ := lumas x inRow y inColumn
    obtain rfl := Option.some.inj
      (reads.symm.trans (agree.lumaSource long isRebased inRow inColumn))
    exact value
  · have halfRow : x / 2 < props.depthWidth.val / 2 :=
      Nat.div_lt_div_of_lt_of_dvd even.depthWidth.two_dvd inRow
    have halfColumn : y / 2 < props.depthHeight.val / 2 :=
      Nat.div_lt_div_of_lt_of_dvd even.depthHeight.two_dvd inColumn
    obtain ⟨source, reads, cb, cr⟩ := cbCrs (x / 2) halfRow (y / 2) halfColumn
    obtain rfl := Option.some.inj
      (reads.symm.trans (agree.cbCrSource even long isRebased halfRow halfColumn))
    rw [← add_assoc _ _ (1 : ℤ), agree.pair_eq even inRow inColumn evenX evenY,
      ← add_assoc (vid.header.cbCrOffset - vid.header.yOffset)]
    exact ⟨cb, cr⟩

/-! ### Samples that agree -/

/-- A pair that is the same whatever the bytes are lies at the same place. -/
theorem pair_eq_of_samplesAgree (even : EvenPictures props)
    (holds : HoldsPicture vid props.vidWidth.val props.vidHeight.val)
    (agree : ∀ data, SamplesAgree props { vid with data := data } depthData)
    (inRow : x < props.depthWidth.val) (inColumn : y < props.depthHeight.val) (evenX : Even x)
    (evenY : Even y) :
    ↑(y / 2 * (props.vidHeight.val / 2) / (props.depthHeight.val / 2)) * vid.header.yRowBytes +
        (↑(x * props.vidWidth.val / props.depthWidth.val &&& 0xFFFE) : ℤ) =
      vid.header.cbCrRowBytes *
          ↑(y / 2 * (props.vidHeight.val / 2) / (props.depthHeight.val / 2)) +
        ↑(x * props.vidWidth.val / props.depthWidth.val / 2 * 2) := by
  have halfRow : x / 2 < props.depthWidth.val / 2 :=
    Nat.div_lt_div_of_lt_of_dvd even.depthWidth.two_dvd inRow
  have halfColumn : y / 2 < props.depthHeight.val / 2 :=
    Nat.div_lt_div_of_lt_of_dvd even.depthHeight.two_dvd inColumn
  have vidWide : 0 < props.vidWidth.val / 2 :=
    Nat.div_pos (Nat.le_of_dvd even.vidWide even.vidWidth.two_dvd) two_pos
  have vidHigh : 0 < props.vidHeight.val / 2 :=
    Nat.div_pos (Nat.le_of_dvd even.vidHigh even.vidHeight.two_dvd) two_pos
  have inside := holds.planes.cb _ (resampled_lt halfRow vidWide) _
    (resampled_lt halfColumn vidHigh)
  have same := VideoBuffer.index_eq_of_forall (i := vid.header.cbCrOffset - vid.header.yOffset +
    (↑(y * props.vidHeight.val / props.depthHeight.val / 2) * vid.header.yRowBytes +
      ↑(x * props.vidWidth.val / props.depthWidth.val &&& 0xFFFE))) inside fun data => ?_
  · rw [VideoBuffer.cbCrIndex, halved_sample evenY even.vidHeight even.depthHeight] at same
    rw [halved_sample evenX even.vidWidth even.depthWidth]
    push_cast at same ⊢
    linarith
  · obtain ⟨-, packed, packs, samples⟩ := agree data
    obtain ⟨_, isRebased, -, cbCrs, -⟩ := streamFrameBkg_spec packs
    obtain ⟨-, rfl⟩ := YCrCbData.rebase_eq_some_iff.mp isRebased
    obtain ⟨luma, cb, cr, reads, -, pair⟩ := samples x inRow y inColumn
    obtain ⟨-, -, -, -, reads⟩ := colourReads_eq_some_iff.mp reads
    obtain ⟨-, -, isReads⟩ := rgbReads_eq_some_iff.mp reads
    obtain ⟨source, source_eq, packedCb, -⟩ := cbCrs (x / 2) halfRow (y / 2) halfColumn
    obtain ⟨-, -, -, -, rfl⟩ := cbCrSource_eq_some_iff.mp source_eq
    obtain ⟨rfl, -⟩ := List.cons.inj (List.cons.inj isReads).2
    rw [(pair evenX evenY).1, ← packedCb, VideoBuffer.cbCrIndex]
    congr 1
    push_cast
    ring

/-- Where the samples agree for all bytes, the lookups do. -/
theorem lookupsAgree_of_samplesAgree (even : EvenPictures props)
    (holds : HoldsPicture vid props.vidWidth.val props.vidHeight.val)
    (agree : ∀ data, SamplesAgree props { vid with data := data } depthData) :
    LookupsAgree props vid.header := by
  have wide := even.wide
  have high := even.high
  have two_le : ∀ {n}, Even n → 0 < n → 2 ≤ n := fun even pos => Nat.le_of_dvd pos even.two_dvd
  have wide_two := two_le even.depthWidth wide
  have high_two := two_le even.depthHeight high
  obtain ⟨-, packed, packs, samples⟩ := agree vid.data
  -- the last depth
  obtain ⟨luma, cb, cr, reads, -⟩ := samples (props.depthWidth.val - 1) (by omega)
    (props.depthHeight.val - 1) (by omega)
  obtain ⟨offsets, -, columns, rows, reads⟩ := colourReads_eq_some_iff.mp reads
  obtain ⟨⟨-, lumas⟩, -, -⟩ := rgbReads_eq_some_iff.mp reads
  refine ⟨(of_streamFrameBkg packs).1, columns, rows, offsets, lumas.2, ?_, ?_⟩
  · -- the last even column of the first row
    have same := pair_eq_of_samplesAgree even holds agree
      (show props.depthWidth.val - 2 < props.depthWidth.val by omega) high
      (even.depthWidth.tsub (by decide)) (by decide)
    rw [Nat.zero_div, Nat.zero_mul, Nat.zero_div, Nat.cast_zero, zero_mul, mul_zero, zero_add,
      zero_add, Nat.cast_inj] at same
    exact land_fffe_eq_iff.mp same
  · -- the first column of the last even row
    by_contra! differs
    obtain ⟨differs, notTwo, notTwo'⟩ := differs
    have same := pair_eq_of_samplesAgree even holds agree wide
      (show props.depthHeight.val - 2 < props.depthHeight.val by omega) (by decide)
      (even.depthHeight.tsub (by decide))
    rw [Nat.zero_mul, Nat.zero_div, Nat.zero_and, Nat.zero_div, Nat.zero_mul, Nat.cast_zero,
      add_zero, add_zero, mul_comm] at same
    have first := (mul_eq_mul_right_iff.mp same).resolve_left differs
    have vidHigh_two := two_le even.vidHeight even.vidHigh
    obtain ⟨a, vidHeight⟩ := even.vidHeight.two_dvd
    obtain ⟨b, depthHeight⟩ := even.depthHeight.two_dvd
    rw [Nat.cast_eq_zero, vidHeight, depthHeight, Nat.mul_div_cancel_left _ two_pos,
      Nat.mul_div_cancel_left _ two_pos, Nat.div_eq_zero_iff] at first
    have product : (2 * b - 2) / 2 * a = (b - 1) * a := by
      rw [show 2 * b - 2 = 2 * (b - 1) by omega, Nat.mul_div_cancel_left _ two_pos]
    have more : (b - 1) * 2 ≤ (b - 1) * a := Nat.mul_le_mul_left _ (by omega)
    omega

/-- **The live view shows the colours that are recorded**, for a layout of the video whose planes
lie inside the buffer and whatever the bytes are, exactly if the two ways of looking up samples
agree. -/
theorem samplesAgree_iff_lookupsAgree (even : EvenPictures props) (vid : VideoBuffer)
    (holds : HoldsPicture vid props.vidWidth.val props.vidHeight.val) (depthData : Floats) :
    (∀ data, SamplesAgree props { vid with data := data } depthData) ↔
      LookupsAgree props vid.header := by
  refine ⟨lookupsAgree_of_samplesAgree even holds, fun agree data => ?_⟩
  have planes := holds.planes
  have holds' : HoldsPicture { vid with data := data } props.vidWidth.val props.vidHeight.val :=
    ⟨holds.yRowBytes, holds.cbCrRowBytes, planes.luma, planes.cb, planes.cr⟩
  exact samplesAgree_of_lookupsAgree even holds' agree depthData

/-! ### Two videos -/

/-- A video without gaps has equal rows. -/
theorem samplesAgree_sixteen :
    SamplesAgree (sized 16 2 32 4) (markedVideo 32 4 0) (fun _ => .num 1) :=
  (samplesAgree_iff_lookupsAgree
    ⟨by decide, by decide, by decide, by decide, by decide, by decide, by decide, by decide⟩
    (markedVideo 32 4 0) ⟨by decide, by decide, planesInside_markedVideo 32 4 0⟩ _).mpr
      ⟨⟨by decide, by decide⟩, by decide, by decide, by decide, by decide, by decide, .inl rfl⟩
      (markedVideo 32 4 0).data

/-- Sixteen columns and four rows, whose rows of pairs are padded. All bytes are 0 but for the Cb of
the second row of pairs. -/
def paddedVideo : VideoBuffer where
  size := 144
  header := ⟨16, 16, 80, 32⟩
  data := fun n => if n = 96 then 1 else 0

/-- The recorder packs the frame, but the live view looks for the second row of pairs where it would
start without the padding. -/
theorem not_samplesAgree_padded : EvenPictures (sized 16 4 16 4) ∧ HoldsPicture paddedVideo 16 4 ∧
    (∃ packed, streamFrameBkg (sized 16 4 16 4) paddedVideo (fun _ => .num 1) = some packed) ∧
    ¬ SamplesAgree (sized 16 4 16 4) paddedVideo (fun _ => .num 1) := by
  have holds : HoldsPicture paddedVideo 16 4 :=
    ⟨by decide, by decide, by decide, by decide, by decide⟩
  refine ⟨⟨by decide, by decide, by decide, by decide, by decide, by decide, by decide,
    by decide⟩, holds, ?_, ?_⟩
  · exact exists_packed
      ⟨by decide, by decide, by decide, by decide, by decide, by decide, by decide, by decide⟩
      holds.planes ⟨by decide, .inl (by decide), by decide, by decide, by decide, by decide,
        by decide⟩ _
  rintro ⟨-, packed, packs, samples⟩
  obtain ⟨rebased, isRebased, -, cbCrs, -⟩ := streamFrameBkg_spec packs
  obtain rfl : (⟨0, 16, 64, 32⟩ : YCrCbData) = rebased := Option.some.inj isRebased
  obtain ⟨luma, cb, cr, reads, -, pair⟩ := samples 0 (by decide) 2 (by decide)
  obtain ⟨source, source_eq, packedCb, -⟩ := cbCrs 0 (by decide) 1 (by decide)
  -- the live view reads byte 80, and the recorder byte 96
  obtain rfl : 80 = cb := by
    have here : [32, 80, 81] = [luma, cb, cr] := Option.some.inj reads
    exact (List.cons.inj (List.cons.inj here).2).1
  obtain rfl : 96 = source := Option.some.inj source_eq
  have same := (pair (by decide) (by decide)).1.trans packedCb.symm
  exact absurd same (by decide)

end Sqwar.Stream
