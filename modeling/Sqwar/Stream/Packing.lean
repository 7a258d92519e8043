import Sqwar.Core.DepthProps
import Sqwar.Core.VideoBuffer
import Sqwar.Depth.Checked

/-!
# Packing frames for the stream

`Recorder::StreamFrameBkg` packs a frame into planes of twice the height of the depth image: the
first half of each plane takes a plane of the depth codec, the second half the video, resampled to
the size of the depth image.
-/

set_option autoImplicit false

namespace Sqwar.Stream

open Data Depth

variable (props : DepthDataProps) (vid : VideoBuffer) (yuvData : YCrCbData)

def ySize : ℕ := uint32 (props.depthWidth.val * props.depthHeight.val)

def uvSize : ℕ := uint32 (props.depthWidth.val * props.depthHeight.val) / 4

/-! ### Luma -/

/-- Where a pass of the luma loops reads. -/
def lumaSource (x y : ℕ) : Option ℤ := do
  -- the sizes are unsigned, so the products with the coordinates are
  let srcY := uint32 (y * props.vidHeight.val) / props.depthHeight.val
  let ySrc ← int32 (srcY * yuvData.yRowBytes)
  let srcX := uint32 (x * props.vidWidth.val) / props.depthWidth.val
  return ySrc + srcX

/-- What a pass of the luma loops writes. -/
def lumaWrites (c : ℕ × ℕ) : Option (List (Pointer Plane × UInt8)) := do
  let byte ← vid.byte (← lumaSource props yuvData c.1 c.2)
  return [(Pointer.base Plane.y + (ySize props + (c.2 * props.depthWidth.val + c.1)), byte)]

/-- The luma loops. -/
def packLuma (planes : Bytes) : Option Bytes :=
  (grid props.depthWidth.val props.depthHeight.val).foldlM
    (fun planes c => (lumaWrites props vid yuvData c).map (write planes)) planes

/-! ### Cb and Cr -/

/-- Where a pass of the loops over the Cb and Cr pairs reads. -/
def cbCrSource (idx y : ℕ) : Option ℤ := do
  let srcY := (← nat32 (y * (props.vidHeight.val / 2))) / (props.depthHeight.val / 2)
  -- all of this is signed, and the row comes from the halved sizes
  let uvSrcPtr ← int32 (yuvData.cbCrRowBytes * srcY)
  let idxSrc := (← nat32 (idx * (props.vidWidth.val / 2))) / (props.depthWidth.val / 2)
  return yuvData.cbCrOffset + uvSrcPtr + (← nat32 (idxSrc * 2))

/-- What a pass of the loops over the Cb and Cr pairs writes. -/
def cbCrWrites (c : ℕ × ℕ) : Option (List (Pointer Plane × UInt8)) := do
  let source ← cbCrSource props yuvData c.1 c.2
  let cell := uvSize props + (c.2 * (props.depthWidth.val / 2) + c.1)
  return [(Pointer.base Plane.u + cell, ← vid.byte source),
    (Pointer.base Plane.v + cell, ← vid.byte (source + 1))]

/-- The loops over the Cb and Cr pairs. -/
def packCbCr (planes : Bytes) : Option Bytes :=
  (grid (props.depthWidth.val / 2) (props.depthHeight.val / 2)).foldlM
    (fun planes c => (cbCrWrites props vid yuvData c).map (write planes)) planes

/-! ### Frames -/

/-- The planes of the depth codec, in vectors of zeros. -/
def depthPlanes (depthData : Floats) : Bytes :=
  (convertDepthToYUV props.depthWidth.val props.depthHeight.val 10 depthData fun _ => 0).2

/-- `Recorder::StreamFrameBkg`: the planes that it hands to the stream. -/
def streamFrameBkg (depthData : Floats) : Option Bytes := do
  -- a size that is no int turns negative, and the conversion does not end
  let width ← nat32 props.depthWidth.val
  let height ← nat32 props.depthHeight.val
  let (_, planes) ← Checked.convertDepthToYUV width height 10 depthData fun _ => 0
  -- the header is rebased in place, in front of the luma
  let yuvData ← vid.header.rebase
  let planes ← packLuma props vid yuvData planes
  packCbCr props vid yuvData planes

/-- The height of the stream. -/
def streamHeight : ℕ := uint32 (props.depthHeight.val * 2)

/-! ### What is packed -/

section Packed

variable {props} {vid} {yuvData} {depthData : Floats} {planes packed : Bytes} {x y : ℕ}
  {ws : List (Pointer Plane × UInt8)} {c : ℕ × ℕ}

theorem lumaWrites_eq_some_iff : lumaWrites props vid yuvData c = some ws ↔
    ∃ source, lumaSource props yuvData c.1 c.2 = some source ∧ ∃ byte, vid.byte source = some byte ∧
      [(Pointer.base Plane.y + (ySize props + (c.2 * props.depthWidth.val + c.1)), byte)] = ws := by
  simp only [lumaWrites, Option.bind_eq_bind, Option.bind_eq_some_iff, Option.pure_def,
    Option.some.injEq]

theorem cbCrWrites_eq_some_iff : cbCrWrites props vid yuvData c = some ws ↔
    ∃ source, cbCrSource props yuvData c.1 c.2 = some source ∧
      ∃ u, vid.byte source = some u ∧ ∃ v, vid.byte (source + 1) = some v ∧
        [(Pointer.base Plane.u + (uvSize props + (c.2 * (props.depthWidth.val / 2) + c.1)), u),
          (Pointer.base Plane.v + (uvSize props + (c.2 * (props.depthWidth.val / 2) + c.1)), v)] =
            ws := by
  simp only [cbCrWrites, Option.bind_eq_bind, Option.bind_eq_some_iff, Option.pure_def,
    Option.some.injEq]

theorem packLuma_cell (packs : packLuma props vid yuvData planes = some packed)
    (inRow : x < props.depthWidth.val) (inColumn : y < props.depthHeight.val) :
    ∃ source, lumaSource props yuvData x y = some source ∧ vid.byte source =
      some (packed (Pointer.base Plane.y + (ySize props + (y * props.depthWidth.val + x)))) := by
  have here : (x, y) ∈ grid props.depthWidth.val props.depthHeight.val :=
    mem_grid.mpr ⟨inRow, inColumn⟩
  obtain ⟨ws, writes⟩ := Option.isSome_iff_exists.mp ((foldlM_write.mp packs).1 _ here)
  obtain ⟨source, reads, byte, value, rfl⟩ := lumaWrites_eq_some_iff.mp writes
  refine ⟨source, reads, ?_⟩
  rw [value, foldlM_write_of_mem packs here writes List.mem_cons_self]
  intro c inside ws writes' u member
  obtain ⟨source', reads', byte', value', rfl⟩ := lumaWrites_eq_some_iff.mp writes'
  obtain ⟨same, rfl⟩ := Prod.mk.inj (List.mem_singleton.mp member)
  -- no other pass writes there
  have cell : y * props.depthWidth.val + x = c.2 * props.depthWidth.val + c.1 :=
    Nat.add_left_cancel (Pointer.add_inj.mp same)
  obtain ⟨rfl, rfl⟩ := cell_inj inRow (mem_grid.mp inside).1 cell
  obtain rfl := Option.some.inj (reads.symm.trans reads')
  exact Option.some.inj (value'.symm.trans value)

theorem packLuma_of_ne (packs : packLuma props vid yuvData planes = some packed)
    {p : Pointer Plane} (elsewhere : p.buffer = .y → p.offset < ySize props ∨
      ySize props + props.depthWidth.val * props.depthHeight.val ≤ p.offset) :
    packed p = planes p := by
  refine foldlM_write_of_notMem packs fun c inside ws writes u member => ?_
  obtain ⟨source, -, byte, -, rfl⟩ := lumaWrites_eq_some_iff.mp writes
  obtain ⟨rfl, -⟩ := Prod.mk.inj (List.mem_singleton.mp member)
  have cell := cell_lt (mem_grid.mp inside).1 (mem_grid.mp inside).2
  have apart := elsewhere rfl
  simp only [Pointer.add_offset, Pointer.base_offset] at apart
  omega

/-- Passes that write at the same address write the same byte. -/
theorem cbCrWrites_inj {c c' : ℕ × ℕ} {ws ws' : List (Pointer Plane × UInt8)} {p : Pointer Plane}
    {u u' : UInt8}
    (inside : c ∈ grid (props.depthWidth.val / 2) (props.depthHeight.val / 2))
    (inside' : c' ∈ grid (props.depthWidth.val / 2) (props.depthHeight.val / 2))
    (writes : cbCrWrites props vid yuvData c = some ws)
    (writes' : cbCrWrites props vid yuvData c' = some ws') (member : (p, u) ∈ ws)
    (member' : (p, u') ∈ ws') : u' = u := by
  obtain ⟨source, reads, cb, isCb, cr, isCr, rfl⟩ := cbCrWrites_eq_some_iff.mp writes
  obtain ⟨source', reads', cb', isCb', cr', isCr', rfl⟩ := cbCrWrites_eq_some_iff.mp writes'
  simp only [List.mem_cons, Prod.mk.injEq, List.not_mem_nil, or_false] at member member'
  -- Passes of the same cell read the same pair; a Cb never lies where a Cr does.
  have same_source : ∀ plane : Plane,
      Pointer.base plane + (uvSize props + (c.2 * (props.depthWidth.val / 2) + c.1)) =
        Pointer.base plane + (uvSize props + (c'.2 * (props.depthWidth.val / 2) + c'.1)) →
      source = source' := by
    intro plane same
    have cell := Nat.add_left_cancel (Pointer.add_inj.mp same)
    obtain ⟨column, row⟩ := cell_inj (mem_grid.mp inside).1 (mem_grid.mp inside').1 cell
    rw [column, row] at reads
    exact Option.some.inj (reads.symm.trans reads')
  rcases member with ⟨rfl, rfl⟩ | ⟨rfl, rfl⟩ <;> rcases member' with ⟨same, rfl⟩ | ⟨same, rfl⟩
  · obtain rfl := same_source _ same
    exact Option.some.inj (isCb'.symm.trans isCb)
  · exact absurd (congrArg Pointer.buffer same) (by simp)
  · exact absurd (congrArg Pointer.buffer same) (by simp)
  · obtain rfl := same_source _ same
    exact Option.some.inj (isCr'.symm.trans isCr)

theorem packCbCr_cell (packs : packCbCr props vid yuvData planes = some packed)
    (inRow : x < props.depthWidth.val / 2) (inColumn : y < props.depthHeight.val / 2) :
    ∃ source, cbCrSource props yuvData x y = some source ∧
      vid.byte source = some (packed (Pointer.base Plane.u +
        (uvSize props + (y * (props.depthWidth.val / 2) + x)))) ∧
      vid.byte (source + 1) = some (packed (Pointer.base Plane.v +
        (uvSize props + (y * (props.depthWidth.val / 2) + x)))) := by
  have here : (x, y) ∈ grid (props.depthWidth.val / 2) (props.depthHeight.val / 2) :=
    mem_grid.mpr ⟨inRow, inColumn⟩
  obtain ⟨ws, writes⟩ := Option.isSome_iff_exists.mp ((foldlM_write.mp packs).1 _ here)
  obtain ⟨source, reads, cb, isCb, cr, isCr, same⟩ := cbCrWrites_eq_some_iff.mp writes
  -- What the pass for this cell writes stays, since no pass writes another byte there.
  have stored : ∀ p u, (p, u) ∈ ws → packed p = u := fun p u member =>
    foldlM_write_of_mem packs here writes member fun c inside ws' writes' u' member' =>
      cbCrWrites_inj here inside writes writes' member member'
  refine ⟨source, reads, ?_, ?_⟩
  · rw [isCb, stored _ cb (by rw [← same]; exact List.mem_cons_self)]
  · rw [isCr, stored _ cr (by rw [← same]; exact List.mem_cons_of_mem _ List.mem_cons_self)]

theorem packCbCr_of_ne (packs : packCbCr props vid yuvData planes = some packed)
    {p : Pointer Plane} (elsewhere : p.buffer ≠ .y → p.offset < uvSize props ∨
      uvSize props + props.depthWidth.val / 2 * (props.depthHeight.val / 2) ≤ p.offset) :
    packed p = planes p := by
  refine foldlM_write_of_notMem packs fun c inside ws writes u member => ?_
  obtain ⟨source, -, cb, -, cr, -, rfl⟩ := cbCrWrites_eq_some_iff.mp writes
  have cell := cell_lt (mem_grid.mp inside).1 (mem_grid.mp inside).2
  simp only [List.mem_cons, Prod.mk.injEq, List.not_mem_nil, or_false] at member
  rcases member with ⟨rfl, -⟩ | ⟨rfl, -⟩
  · have apart := elsewhere (by simp)
    simp only [Pointer.add_offset, Pointer.base_offset] at apart
    omega
  · have apart := elsewhere (by simp)
    simp only [Pointer.add_offset, Pointer.base_offset] at apart
    omega

/-- Where the second half of a plane starts. -/
def halfSize (props : DepthDataProps) : Plane → ℕ
  | .y => ySize props
  | .u => uvSize props
  | .v => uvSize props

/-- The depths of a picture can be converted: it has a level, and its number of cells is an int. -/
structure Converts (props : DepthDataProps) : Prop where
  wide : 16 ≤ props.depthWidth.val
  cells : props.depthWidth.val * props.depthHeight.val < 2 ^ 31

/-- What a frame that is packed has gone through. -/
theorem of_streamFrameBkg (packs : streamFrameBkg props vid depthData = some packed) :
    Converts props ∧ ∃ rebased, vid.header.rebase = some rebased ∧
      ∃ planes, packLuma props vid rebased (depthPlanes props depthData) = some planes ∧
        packCbCr props vid rebased planes = some packed := by
  simp only [streamFrameBkg, Option.bind_eq_bind, Option.bind_eq_some_iff,
    nat32_eq_some_iff] at packs
  obtain ⟨_, ⟨-, rfl⟩, _, ⟨-, rfl⟩, _, converted, packs⟩ := packs
  obtain ⟨wide, cells, rfl⟩ := Checked.of_convertDepthToYUV converted
  exact ⟨⟨wide, cells⟩, packs⟩

/-- A frame can be packed if its depths can be converted and every sample lies in the buffer. -/
theorem exists_packed_of_sources {rebased : YCrCbData} (converts : Converts props)
    (high : 0 < props.depthHeight.val) (even : Even props.depthHeight.val)
    (isRebased : vid.header.rebase = some rebased) (depthData : Floats)
    (lumas : ∀ x < props.depthWidth.val, ∀ y < props.depthHeight.val, ∃ source,
      lumaSource props rebased x y = some source ∧ vid.Inside source)
    (cbCrs : ∀ x < props.depthWidth.val / 2, ∀ y < props.depthHeight.val / 2, ∃ source,
      cbCrSource props rebased x y = some source ∧ vid.Inside source ∧ vid.Inside (source + 1)) :
    ∃ packed, streamFrameBkg props vid depthData = some packed := by
  have lumaWritten : ∀ c ∈ grid props.depthWidth.val props.depthHeight.val,
      (lumaWrites props vid rebased c).isSome := by
    intro c inGrid
    obtain ⟨inRow, inColumn⟩ := mem_grid.mp inGrid
    obtain ⟨source, reads, inside⟩ := lumas c.1 inRow c.2 inColumn
    exact Option.isSome_iff_exists.mpr ⟨_, lumaWrites_eq_some_iff.mpr
      ⟨source, reads, _, VideoBuffer.byte_of_inside inside, rfl⟩⟩
  have cbCrWritten : ∀ c ∈ grid (props.depthWidth.val / 2) (props.depthHeight.val / 2),
      (cbCrWrites props vid rebased c).isSome := by
    intro c inGrid
    obtain ⟨inRow, inColumn⟩ := mem_grid.mp inGrid
    obtain ⟨source, reads, cb, cr⟩ := cbCrs c.1 inRow c.2 inColumn
    exact Option.isSome_iff_exists.mpr ⟨_, cbCrWrites_eq_some_iff.mpr ⟨source, reads, _,
      VideoBuffer.byte_of_inside cb, _, VideoBuffer.byte_of_inside cr, rfl⟩⟩
  obtain ⟨wide, cells⟩ := converts
  -- neither size is larger than the product of both
  have width := Nat.le_mul_of_pos_right props.depthWidth.val high
  have height := Nat.le_mul_of_pos_left props.depthHeight.val (Nat.lt_of_lt_of_le (by decide) wide)
  simp only [streamFrameBkg, nat32_of_lt (width.trans_lt cells),
    nat32_of_lt (height.trans_lt cells), Checked.convertDepthToYUV_eq wide cells even, isRebased,
    Option.bind_eq_bind, Option.bind_some,
    Option.bind_eq_some_iff]
  exact ⟨_, _, foldlM_write.mpr ⟨lumaWritten, rfl⟩, foldlM_write.mpr ⟨cbCrWritten, rfl⟩⟩

/-- **The packed frame.** The first halves hold the planes of the depth codec, and the second halves
what the loops over the video read. -/
theorem streamFrameBkg_spec (packs : streamFrameBkg props vid depthData = some packed) :
    ∃ rebased, vid.header.rebase = some rebased ∧
      (∀ x < props.depthWidth.val, ∀ y < props.depthHeight.val, ∃ source,
        lumaSource props rebased x y = some source ∧ vid.byte source =
          some (packed (Pointer.base Plane.y + (ySize props + (y * props.depthWidth.val + x))))) ∧
      (∀ x < props.depthWidth.val / 2, ∀ y < props.depthHeight.val / 2, ∃ source,
        cbCrSource props rebased x y = some source ∧
          vid.byte source = some (packed (Pointer.base Plane.u +
            (uvSize props + (y * (props.depthWidth.val / 2) + x)))) ∧
          vid.byte (source + 1) = some (packed (Pointer.base Plane.v +
            (uvSize props + (y * (props.depthWidth.val / 2) + x))))) ∧
      ∀ p, p.offset < halfSize props p.buffer → packed p = depthPlanes props depthData p := by
  obtain ⟨-, rebased, isRebased, planes, lumaPacked, cbCrPacked⟩ := of_streamFrameBkg packs
  refine ⟨rebased, isRebased, fun x inRow y inColumn => ?_,
    fun x inRow y inColumn => packCbCr_cell cbCrPacked inRow inColumn, fun p first => ?_⟩
  -- The second half of Y is written by the luma loops, and left alone by the others.
  · rw [packCbCr_of_ne cbCrPacked fun notY => absurd rfl notY]
    exact packLuma_cell lumaPacked inRow inColumn
  -- Both loops start behind the first halves.
  · obtain ⟨plane, offset⟩ := p
    rw [packCbCr_of_ne cbCrPacked, packLuma_of_ne lumaPacked]
    · rintro rfl
      exact .inl first
    · intro notY
      cases plane with
      | y => exact absurd rfl notY
      | u => exact .inl first
      | v => exact .inl first

end Packed

end Sqwar.Stream
