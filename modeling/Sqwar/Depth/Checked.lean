import Sqwar.Data.MachineInt
import Sqwar.Depth.Accesses
import Sqwar.Depth.Backfilling
import Sqwar.Depth.Codec

/-!
# Depth pyramids in machine integers

The sizes and indices of `DepthBuildLods`, `DepthFillEmpty` and `ConvertDepthToYUV` are ints. Here
every product and every sum has to fit, and an entry of a table has to be there. A conversion ends
exactly if there is a level and the number of cells is an int, and then it is the one on natural
numbers.
-/

set_option autoImplicit false

namespace Sqwar.Depth.Checked

open Data

/-! ### `DepthBuildLods` -/

/-- `row * width + column`. -/
def cellIndex (width column row : ℕ) : Option ℕ := do
  nat32 ((← nat32 (row * width)) + column)

/-- The loop that fills `dinv`, up to `dbuf + depthWidth * depthHeight`. -/
def buildInverses (dbuf : Pointer Buffer) (depthWidth depthHeight : ℕ) (m : Floats) :
    Option Floats := do
  let _ ← nat32 (depthWidth * depthHeight)
  -- the loop itself only moves pointers
  return Depth.buildInverses dbuf depthWidth depthHeight m

/-- A pass of the loops over the cells of a level. -/
def levelPass (dsrc dptr : Pointer Buffer) (dsw dw : ℕ) (m : Floats) (c : ℕ × ℕ) :
    Option Floats := do
  let v0 ← cellIndex dsw (c.1 * 2) (c.2 * 2)
  let v1 ← nat32 (v0 + 1)
  let v2 ← cellIndex dsw (c.1 * 2) (c.2 * 2 + 1)
  let v3 ← nat32 (v2 + 1)
  let cell ← cellIndex dw c.1 c.2
  return Function.update m (dptr + cell)
    (average [m (dsrc + v0), m (dsrc + v1), m (dsrc + v2), m (dsrc + v3)])

def buildLevel (dsrc dptr : Pointer Buffer) (dsw dw dh : ℕ) (m : Floats) : Option Floats :=
  (grid dw dh).foldlM (levelPass dsrc dptr dsw dw) m

/-- The loop over the levels, with `dptr` as it is behind it. -/
def buildLevels (dsrc dptr : Pointer Buffer) (dsw dw dh : ℕ) (m : Floats) :
    Option (Floats × Pointer Buffer) :=
  if 16 ≤ dw then do
    let m ← buildLevel dsrc dptr dsw dw dh m
    let size ← nat32 (dw * dh)
    buildLevels dptr (dptr + size) (dsw / 2) (dw / 2) (dh / 2) m
  else some (m, dptr)
termination_by dw

/-- `DepthBuildLods`. -/
def depthBuildLods (dbuf outpts : Pointer Buffer) (depthWidth depthHeight : ℕ) (m : Floats) :
    Option Floats := do
  let m ← buildInverses dbuf depthWidth depthHeight m
  let (m, dptr) ← buildLevels (.base .dinv) outpts depthWidth (depthWidth / 2) (depthHeight / 2) m
  return invertLods outpts dptr m

/-! ### Hole filling -/

/-- A pass of `DepthFillEmpty`. -/
def fillPass (lod1 lod0 : Pointer Buffer) (depthWidth0 : ℕ) (m : Floats) (c : ℕ × ℕ) :
    Option Floats := do
  let cell ← cellIndex depthWidth0 c.1 c.2
  if (m (lod0 + cell)).isNaN then
    let parent ← cellIndex (depthWidth0 / 2) (c.1 / 2) (c.2 / 2)
    return Function.update m (lod0 + cell) (m (lod1 + parent))
  else return m

/-- `DepthFillEmpty`. -/
def depthFillEmpty (lod1 lod0 : Pointer Buffer) (depthWidth0 depthHeight0 : ℕ) (m : Floats) :
    Option Floats :=
  (grid depthWidth0 depthHeight0).foldlM (fillPass lod1 lod0 depthWidth0) m

/-- The loop that allocates the levels. -/
def allocateLods (dw dh : ℕ) (table : LodTable) : Option LodTable :=
  if 16 ≤ dw then do
    let size ← nat32 (table.size + (← nat32 (dw / 2 * (dh / 2))))
    allocateLods (dw / 2) (dh / 2)
      { size := size
        lodOffsets := table.lodOffsets ++ [size]
        lodSizes := table.lodSizes ++ [(dw / 2, dh / 2)] }
  else some table
termination_by dw

def lodTable (width height : ℕ) : Option LodTable :=
  allocateLods width height { size := 0, lodOffsets := [0], lodSizes := [] }

/-- An entry of a vector. A negative index is none. -/
def entry {α : Type*} (xs : List α) (i : ℤ) : Option α := if 0 ≤ i then xs[i.toNat]? else none

/-- One pass of the loop over `lodIdx`. -/
def fillLod (table : LodTable) (m : Floats) (lodIdx : ℕ) : Option Floats := do
  -- without a level, the first index is -1
  let idx1 : ℤ := table.lodSizes.length - lodIdx - 1
  let offset1 ← entry table.lodOffsets idx1
  let offset0 ← entry table.lodOffsets (idx1 - 1)
  let (lodwidth, lodheight) ← entry table.lodSizes (idx1 - 1)
  depthFillEmpty (Pointer.base Buffer.lods + offset1) (Pointer.base Buffer.lods + offset0) lodwidth
    lodheight m

/-- What `ConvertDepthToYUV` does before it encodes. -/
def fillHoles (width height : ℕ) (m : Floats) : Option Floats := do
  let table ← lodTable width height
  let m ← depthBuildLods (.base .data) (.base .lods) width height (zeroLods table.size m)
  let m ← (List.range (sizeMinusOne table.lodSizes.length)).foldlM (fillLod table) m
  let offset ← entry table.lodOffsets 0
  depthFillEmpty (Pointer.base Buffer.lods + offset) (.base .data) width height m

/-- `ConvertDepthToYUV`, for a depth limit that is not zero. -/
def convertDepthToYUV (width height : ℕ) (maxDepth : ℚ) (data : Floats) (planes : Bytes) :
    Option (Floats × Bytes) := do
  let data ← fillHoles width height data
  -- the pointers are moved by `width * 2` behind every pair of rows
  let _ ← nat32 (if 0 < height then width * 2 else 0)
  return (data, (blocks width height).foldl
    (fun planes (j, i) => write planes (encodeBlock width (254 / maxDepth) data j i)) planes)

/-! ### Sizes that fit -/

variable {m m' : Floats} {dbuf outpts dsrc dptr lod1 lod0 : Pointer Buffer} {table : LodTable}
  {w h x y i : ℕ}

theorem cellIndex_of_lt (fits : y * w + x < 2 ^ 31) : cellIndex w x y = some (y * w + x) := by
  rw [cellIndex, nat32_of_lt (by omega)]
  exact nat32_of_lt fits

/-- A level has a quarter of the cells of the one below it, or less. -/
theorem half_mul_half_le (w h : ℕ) : w / 2 * (h / 2) * 4 ≤ w * h :=
  calc w / 2 * (h / 2) * 4 = w / 2 * 2 * (h / 2 * 2) := by ring
    _ ≤ w * h := Nat.mul_le_mul (Nat.div_mul_le_self w 2) (Nat.div_mul_le_self h 2)

theorem levelPass_eq (fits : w * h < 2 ^ 31) {c : ℕ × ℕ} (inside : c ∈ grid (w / 2) (h / 2))
    (m : Floats) :
    levelPass dsrc dptr w (w / 2) m c = some (Depth.levelPass dsrc dptr w (w / 2) m c) := by
  obtain ⟨inRow, inColumn⟩ := mem_grid.mp inside
  have quarter := half_mul_half_le w h
  have cell := cell_lt inRow inColumn
  -- the second and the fourth cell are the last ones of their rows
  have v1 := cell_lt (show c.1 * 2 + 1 < w by omega) (show c.2 * 2 < h by omega)
  have v3 := cell_lt (show c.1 * 2 + 1 < w by omega) (show c.2 * 2 + 1 < h by omega)
  simp only [levelPass, cellIndex_of_lt (show c.2 * 2 * w + c.1 * 2 < 2 ^ 31 by omega),
    nat32_of_lt (show c.2 * 2 * w + c.1 * 2 + 1 < 2 ^ 31 by omega),
    cellIndex_of_lt (show (c.2 * 2 + 1) * w + c.1 * 2 < 2 ^ 31 by omega),
    nat32_of_lt (show (c.2 * 2 + 1) * w + c.1 * 2 + 1 < 2 ^ 31 by omega),
    cellIndex_of_lt (show c.2 * (w / 2) + c.1 < 2 ^ 31 by omega), Option.bind_eq_bind,
    Option.bind_some, Option.pure_def]
  rfl

theorem buildLevels_eq (fits : w * h < 2 ^ 31) (m : Floats) :
    buildLevels dsrc dptr w (w / 2) (h / 2) m =
      some (Depth.buildLevels dsrc dptr w (w / 2) (h / 2) m) := by
  generalize width : w / 2 = dw
  induction dw using Nat.strong_induction_on generalizing w h dsrc dptr m with
  | _ dw ih =>
    subst width
    rw [buildLevels, Depth.buildLevels]
    split_ifs with wide
    -- the level just built is the source of the next one, and not larger
    · have quarter := half_mul_half_le w h
      have level : buildLevel dsrc dptr w (w / 2) (h / 2) m =
          some (Depth.buildLevel dsrc dptr w (w / 2) (h / 2) m) :=
        foldlM_eq_some (fun c inside m => levelPass_eq fits inside m) m
      rw [level, Option.bind_eq_bind, Option.bind_some, nat32_of_lt (by omega), Option.bind_eq_bind,
        Option.bind_some]
      exact ih (w / 2 / 2) (by omega) (by omega) _ rfl
    · rfl

/-- **`DepthBuildLods` in ints** needs no more than the number of its cells to be an int. -/
theorem depthBuildLods_eq_some_iff :
    depthBuildLods dbuf outpts w h m = some m' ↔
      w * h < 2 ^ 31 ∧ Depth.depthBuildLods dbuf outpts w h m = m' := by
  by_cases fits : w * h < 2 ^ 31
  · simp only [depthBuildLods, buildInverses, nat32_of_lt fits, buildLevels_eq fits,
      Option.bind_eq_bind, Option.bind_some, Option.pure_def, Option.some.injEq, fits, true_and]
    rfl
  · refine iff_of_false (fun built => ?_) fun built => fits built.1
    have overflows : nat32 (w * h) = none := if_neg fits
    simp [depthBuildLods, buildInverses, overflows] at built

theorem depthFillEmpty_eq (fits : w * h < 2 ^ 31) (m : Floats) :
    depthFillEmpty lod1 lod0 w h m = some (Depth.depthFillEmpty lod1 lod0 w h m) := by
  refine foldlM_eq_some (fun c inside m => ?_) m
  have cell := cell_lt (mem_grid.mp inside).1 (mem_grid.mp inside).2
  -- the parent may lie behind its level, but its index is no larger than that of the cell
  have parent : c.2 / 2 * (w / 2) ≤ c.2 * w :=
    Nat.mul_le_mul (Nat.div_le_self _ _) (Nat.div_le_self _ _)
  simp only [fillPass, cellIndex_of_lt (show c.2 * w + c.1 < 2 ^ 31 by omega),
    cellIndex_of_lt (show c.2 / 2 * (w / 2) + c.1 / 2 < 2 ^ 31 by omega), Option.bind_eq_bind,
    Option.bind_some, Option.pure_def]
  split <;> rfl

/-! ### The tables -/

theorem allocateLods_eq (fits : table.size + w * h < 2 ^ 31) :
    allocateLods w h table = some (Depth.allocateLods w h table) := by
  induction w using Nat.strong_induction_on generalizing h table with
  | _ w ih =>
    rw [allocateLods, Depth.allocateLods]
    split_ifs with wide
    · have quarter := half_mul_half_le w h
      rw [nat32_of_lt (by omega), Option.bind_eq_bind, Option.bind_some, nat32_of_lt (by omega),
        Option.bind_some]
      exact ih (w / 2) (by omega) (by simp only; omega)
    · rfl

theorem lodTable_eq_some (fits : w * h < 2 ^ 31) : lodTable w h = some (Depth.lodTable w h) :=
  allocateLods_eq (by simpa using fits)

theorem entry_lodOffsets (inside : i ≤ halvings w) :
    entry (Depth.lodTable w h).lodOffsets i = some (levelStart w h i) := by
  rw [entry, if_pos (Int.natCast_nonneg i), Int.toNat_natCast, Depth.lodTable_eq, tableOf,
    List.getElem?_map, List.getElem?_range (by omega)]
  rfl

theorem entry_lodSizes (inside : i < halvings w) :
    entry (Depth.lodTable w h).lodSizes i = some (w / 2 ^ (i + 1), h / 2 ^ (i + 1)) := by
  rw [entry, if_pos (Int.natCast_nonneg i), Int.toNat_natCast, Depth.lodTable_eq, tableOf,
    List.getElem?_map, List.getElem?_range inside]
  rfl

/-- A pass that is made where there are levels finds its entries. -/
theorem fillLod_eq (fits : w * h < 2 ^ 31) {lodIdx : ℕ} (inside : lodIdx + 1 < halvings w)
    (m : Floats) :
    fillLod (Depth.lodTable w h) m lodIdx = some (Depth.fillLod (Depth.lodTable w h) m lodIdx) := by
  have length : (Depth.lodTable w h).lodSizes.length = halvings w := by
    rw [Depth.lodTable_eq, length_lodSizes]
  -- the pass fills level `i` of the table from level `i + 1`
  obtain ⟨i, top⟩ : ∃ i, halvings w = i + 1 + lodIdx + 1 := ⟨halvings w - lodIdx - 2, by omega⟩
  have index : ((Depth.lodTable w h).lodSizes.length : ℤ) - lodIdx - 1 = (i + 1 : ℕ) := by
    rw [length]
    omega
  have below : ((i + 1 : ℕ) : ℤ) - 1 = (i : ℕ) := by omega
  have small : w / 2 ^ (i + 1) * (h / 2 ^ (i + 1)) < 2 ^ 31 :=
    (Nat.mul_le_mul (Nat.div_le_self _ _) (Nat.div_le_self _ _)).trans_lt fits
  simp only [fillLod, Depth.fillLod, index, below,
    entry_lodOffsets (show i + 1 ≤ halvings w by omega),
    entry_lodOffsets (show i ≤ halvings w by omega), entry_lodSizes (show i < halvings w by omega),
    depthFillEmpty_eq small, Option.bind_eq_bind, Option.bind_some,
    show (Depth.lodTable w h).lodSizes.length - lodIdx - 1 = i + 1 by omega, Nat.add_sub_cancel]
  rw [Depth.lodTable_eq, getD_lodOffsets (by omega), getD_lodOffsets (by omega),
    getD_lodSizes (by omega)]

/-- Without a level, the first pass looks for a level below the first. -/
theorem foldlM_fillLod_eq_none (narrow : w < 16) (m : Floats) :
    (List.range (sizeMinusOne (Depth.lodTable w h).lodSizes.length)).foldlM
      (fillLod (Depth.lodTable w h)) m = none := by
  have length : (Depth.lodTable w h).lodSizes.length = 0 := by
    rw [Depth.lodTable_eq, length_lodSizes, halvings_of_lt narrow]
  rw [length, sizeMinusOne, if_pos rfl, show 2 ^ 64 - 1 = (2 ^ 64 - 2).succ by rfl,
    List.range_succ_eq_map, List.foldlM_cons]
  simp [fillLod, length, entry]

/-- Where there are levels and the number of cells is an int, every pass succeeds. -/
theorem fillHoles_eq (wide : 16 ≤ w) (fits : w * h < 2 ^ 31) (m : Floats) :
    fillHoles w h m = some (Depth.fillHoles w h m) := by
  have levels := halvings_of_le wide
  have built : depthBuildLods (.base .data) (.base .lods) w h
      (zeroLods (Depth.lodTable w h).size m) = some _ := depthBuildLods_eq_some_iff.mpr ⟨fits, rfl⟩
  have passes : ∀ lodIdx ∈ List.range (sizeMinusOne (Depth.lodTable w h).lodSizes.length), ∀ m,
      fillLod (Depth.lodTable w h) m lodIdx =
        some (Depth.fillLod (Depth.lodTable w h) m lodIdx) := by
    intro lodIdx inRange m
    rw [Depth.lodTable_eq, length_lodSizes, sizeMinusOne, if_neg (by omega),
      List.mem_range] at inRange
    exact fillLod_eq fits (by omega) m
  have first : entry (Depth.lodTable w h).lodOffsets 0 =
      some ((Depth.lodTable w h).lodOffsets.getD 0 0) := by
    rw [Depth.lodTable_eq, getD_lodOffsets (Nat.zero_le _), ← Depth.lodTable_eq]
    exact entry_lodOffsets (Nat.zero_le _)
  simp only [fillHoles, lodTable_eq_some fits, built, foldlM_eq_some passes, first,
    depthFillEmpty_eq fits, Option.bind_eq_bind, Option.bind_some]
  rfl

/-- **Filling holes in ints.** There has to be a level, and the number of cells has to be an int. -/
theorem fillHoles_eq_some_iff :
    fillHoles w h m = some m' ↔ 16 ≤ w ∧ w * h < 2 ^ 31 ∧ Depth.fillHoles w h m = m' := by
  constructor
  · intro filled
    have run := filled
    simp only [fillHoles, Option.bind_eq_bind, Option.bind_eq_some_iff,
      depthBuildLods_eq_some_iff] at run
    obtain ⟨table, allocated, built, ⟨fits, -⟩, _, passes, -⟩ := run
    obtain rfl := Option.some.inj ((lodTable_eq_some fits).symm.trans allocated)
    have wide : 16 ≤ w := by
      by_contra! narrow
      rw [foldlM_fillLod_eq_none narrow] at passes
      cases passes
    exact ⟨wide, fits, Option.some.inj ((fillHoles_eq wide fits m).symm.trans filled)⟩
  · rintro ⟨wide, fits, rfl⟩
    exact fillHoles_eq wide fits m

/-- A conversion that ends is the one on natural numbers. -/
theorem of_convertDepthToYUV {maxDepth : ℚ} {data : Floats} {planes : Bytes}
    {converted : Floats × Bytes}
    (converts : convertDepthToYUV w h maxDepth data planes = some converted) :
    16 ≤ w ∧ w * h < 2 ^ 31 ∧ Depth.convertDepthToYUV w h maxDepth data planes = converted := by
  simp only [convertDepthToYUV, Option.bind_eq_bind, Option.bind_eq_some_iff, fillHoles_eq_some_iff,
    Option.pure_def, Option.some.injEq] at converts
  obtain ⟨_, ⟨wide, fits, rfl⟩, _, -, same⟩ := converts
  exact ⟨wide, fits, same⟩

/-- **`ConvertDepthToYUV` in ints** ends for every even number of rows. -/
theorem convertDepthToYUV_eq (wide : 16 ≤ w) (fits : w * h < 2 ^ 31) (even : Even h) (maxDepth : ℚ)
    (data : Floats) (planes : Bytes) : convertDepthToYUV w h maxDepth data planes =
      some (Depth.convertDepthToYUV w h maxDepth data planes) := by
  have step : (if 0 < h then w * 2 else 0) < 2 ^ 31 := by
    split_ifs with pos
    -- two rows have no more cells than all of them
    · exact (Nat.mul_le_mul_left w (Nat.le_of_dvd pos even.two_dvd)).trans_lt fits
    · decide
  simp only [convertDepthToYUV, fillHoles_eq wide fits, nat32_of_lt step, Option.bind_eq_bind,
    Option.bind_some]
  rfl

end Sqwar.Depth.Checked
