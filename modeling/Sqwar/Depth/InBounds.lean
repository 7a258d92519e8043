import Sqwar.Depth.Checked
import Sqwar.Depth.HoleFilling

/-!
# Accesses in bounds

`DepthBuildLods` stays in the levels: it drops an odd last row or column. `DepthFillEmpty` looks for
the parent of every missing cell, and a cell of an odd last row or column has none. So all accesses
are in bounds for every content of the buffers exactly when no level that is filled has an odd size,
there is a level at all, and the number of cells is an int.
-/

set_option autoImplicit false

namespace Sqwar.Depth

open Data Function

variable {m : Floats} {w h k n i : ℕ} {extent : Buffer → ℕ} {access : Access Buffer}

/-- The floats that each buffer has room for. -/
def bufferSize (w h : ℕ) : Buffer → ℕ
  | .data => w * h
  | .lods => (lodTable w h).size
  | .dinv => w * h

/-- Whatever the buffers hold, no int that is computed overflows, the level index
`lodSizes.size() - lodIdx - 1` and the one below it do not wrap, and every float is read or written
in the rows and columns of its level. -/
structure InBounds (w h : ℕ) : Prop where
  completes : ∀ m, Checked.fillHoles w h m = some (fillHoles w h m)
  indices : ∀ lodIdx < sizeMinusOne (lodTable w h).lodSizes.length,
    lodIdx + 1 < (lodTable w h).lodSizes.length
  accesses : ∀ m, ∀ access ∈ fillHolesAccesses w h m, access.InRange (bufferSize w h)

/-! ### Rasters -/

/-- The image fits in its buffer. -/
def Fits (extent : Buffer → ℕ) (image : Raster Buffer) : Prop :=
  image.start.offset + image.width * image.height ≤ extent image.start.buffer

/-- Level `i + 1` of the pyramid. -/
def lodLevel (w h i : ℕ) : Raster Buffer :=
  ⟨Pointer.base Buffer.lods + levelStart w h i, w / 2 ^ (i + 1), h / 2 ^ (i + 1)⟩

theorem raster_lodTable (inside : i < halvings w) : (lodTable w h).raster i = lodLevel w h i := by
  rw [lodTable_eq, LodTable.raster, getD_lodOffsets inside.le, getD_lodSizes inside]
  rfl

theorem fits_lodLevel (inside : i < n) (room : levelStart w h n ≤ extent .lods) :
    Fits extent (lodLevel w h i) := by
  refine le_trans ?_ ((levelStart_mono w h (show i + 1 ≤ n from inside)).trans room)
  simp [lodLevel, levelStart]

theorem inRange_sweep {start : Pointer Buffer} {count : ℕ} (inside : i < count)
    (fits : Fits extent (sweep start count)) :
    (⟨start + i, sweep start count, i, 0⟩ : Access Buffer).InRange extent where
  address := by simp [Raster.cell, sweep]
  column := inside
  row := Nat.one_pos
  allocated := fits

theorem nextLevel_lodLevel (w h i : ℕ) : nextLevel (lodLevel w h i) = lodLevel w h (i + 1) := by
  simp only [nextLevel, lodLevel, Pointer.add_add, levelStart, div_two_pow_succ]

/-! ### Building the levels -/

theorem inRange_buildInverses {dbuf : Pointer Buffer} (data : Fits extent (sweep dbuf (w * h)))
    (dinv : w * h ≤ extent .dinv) (inTrace : access ∈ buildInversesAccesses dbuf w h m) :
    access.InRange extent := by
  obtain ⟨before, i, later, split, inPass⟩ := mem_loopAccesses.mp inTrace
  have inside : i < w * h := List.mem_range.mp (by rw [split]; simp)
  simp only [inversePassAccesses, List.cons_append, List.nil_append, List.mem_cons,
    List.not_mem_nil, or_false] at inPass
  rcases inPass with rfl | rfl
  · exact inRange_sweep inside data
  · exact inRange_sweep inside (by simpa [Fits, sweep] using dinv)

/-- A level is built from cells that the level below it has. -/
theorem inRange_buildLevel {src dst : Raster Buffer} (srcFits : Fits extent src)
    (dstFits : Fits extent dst) (width : dst.width = src.width / 2)
    (height : dst.height = src.height / 2)
    (inTrace : access ∈ buildLevelAccesses src dst src.width m) : access.InRange extent := by
  obtain ⟨before, ⟨x, y⟩, later, split, inPass⟩ := mem_loopAccesses.mp inTrace
  obtain ⟨inRow, inColumn⟩ := mem_grid.mp (show (x, y) ∈ grid dst.width dst.height by
    rw [split]
    simp)
  simp only [levelPassAccesses, List.cons_append, List.nil_append, List.mem_cons,
    List.not_mem_nil, or_false] at inPass
  rcases inPass with rfl | rfl | rfl | rfl | rfl
  -- `x < src.width / 2` gives room for both columns, and so for the rows
  · exact ⟨rfl, show x * 2 < src.width by omega, show y * 2 < src.height by omega, srcFits⟩
  · exact ⟨rfl, show x * 2 + 1 < src.width by omega, show y * 2 < src.height by omega, srcFits⟩
  · exact ⟨rfl, show x * 2 < src.width by omega, show y * 2 + 1 < src.height by omega, srcFits⟩
  · exact ⟨rfl, show x * 2 + 1 < src.width by omega, show y * 2 + 1 < src.height by omega,
      srcFits⟩
  · exact ⟨rfl, inRow, inColumn, dstFits⟩

/-- The level that the loop reads at level `k`. -/
def sourceLevel (w h k : ℕ) : Raster Buffer := ⟨levelSource w h k, w / 2 ^ k, h / 2 ^ k⟩

/-- The loop over the levels stays in the levels that it builds and the inverse depths. -/
theorem inRange_buildLevels (count : halvings (w / 2 ^ (k + 1)) = n)
    (room : levelStart w h (k + n) ≤ extent .lods) (source : Fits extent (sourceLevel w h k))
    (inTrace : access ∈ buildLevelsAccesses (sourceLevel w h k) (lodLevel w h k) (w / 2 ^ k) m) :
    access.InRange extent := by
  induction n generalizing k m with
  | zero =>
    have narrow : ¬ 16 ≤ w / 2 ^ (k + 1) := by
      intro wide
      rw [halvings_of_le wide] at count
      omega
    rw [buildLevelsAccesses, if_neg (show ¬ 16 ≤ (lodLevel w h k).width from narrow)] at inTrace
    cases inTrace
  | succ n ih =>
    obtain ⟨wide, count⟩ := halvings_eq_succ count
    rw [← div_two_pow_succ] at count
    have fits := fits_lodLevel (show k < k + (n + 1) by omega) room
    rw [buildLevelsAccesses, if_pos (show 16 ≤ (lodLevel w h k).width from wide),
      nextLevel_lodLevel, ← div_two_pow_succ] at inTrace
    rcases List.mem_append.mp inTrace with here | later
    · exact inRange_buildLevel source fits (div_two_pow_succ w k) (div_two_pow_succ h k) here
    · exact ih (k := k + 1) count (by rwa [Nat.add_right_comm, Nat.add_assoc]) fits later

/-- Where everything is missing, every level is. -/
def blank : Image ℚ := fun _ _ => none

theorem level_blank (k : ℕ) : level blank k = blank := by
  funext x y
  exact level_eq_none_iff.mpr fun _ _ _ _ => rfl

theorem holds_blank (p : Pointer Buffer) (w h : ℕ) : Holds (fun _ => .nan) p w h blank :=
  fun _ _ _ _ => rfl

/-- The end of what the loop writes. -/
theorem buildLevels_snd (w h : ℕ) (m : Floats) :
    (buildLevels (.base .dinv) (.base .lods) w (w / 2) (h / 2) m).2 =
      Pointer.base Buffer.lods + levelStart w h (halvings (w / 2)) := by
  -- The end does not depend on the memory, so it can be read off the blank one.
  have bottom : Holds (fun _ => .nan) (levelSource w h 0) (w / 2 ^ 0) (h / 2 ^ 0)
      (level blank 0) := by
    rw [level_blank]
    exact holds_blank _ _ _
  have blankLevels :=
    (buildLevels_spec (n := halvings (w / 2)) (by rw [Nat.zero_add, pow_one]) bottom).1
  simp only [pow_zero, pow_one, Nat.div_one, Nat.zero_add] at blankLevels
  exact ((traces_buildLevels ⟨.base .dinv, w, h⟩ ⟨.base .lods, w / 2, h / 2⟩ w).2 _ m).trans
    blankLevels

/-- All levels, from the inverse depths on. -/
theorem inRange_buildAllLevels (dinv : w * h ≤ extent .dinv)
    (lods : levelStart w h (halvings (w / 2)) ≤ extent .lods)
    (inTrace : access ∈ buildLevelsAccesses ⟨.base .dinv, w, h⟩ ⟨.base .lods, w / 2, h / 2⟩ w m) :
    access.InRange extent := by
  refine inRange_buildLevels (w := w) (h := h) (k := 0) (n := halvings (w / 2)) (m := m)
    (by rw [Nat.zero_add, pow_one]) (by rwa [Nat.zero_add]) ?_ ?_
  · simpa [Fits, sourceLevel, levelSource] using dinv
  · simpa only [sourceLevel, lodLevel, levelSource, levelStart, pow_zero, pow_one, Nat.div_one,
      Nat.zero_add, Pointer.add_zero] using inTrace

theorem inRange_invertLods (lods : n ≤ extent .lods)
    (inTrace : access ∈ invertLodsAccesses (.base .lods) (Pointer.base Buffer.lods + n) m) :
    access.InRange extent := by
  obtain ⟨before, i, later, split, inPass⟩ := mem_loopAccesses.mp inTrace
  simp only [Pointer.add_offset, Pointer.base_offset, Nat.zero_add, Nat.sub_zero] at split inPass
  have inside : i < n := List.mem_range.mp (by rw [split]; simp)
  simp only [invertPassAccesses, List.cons_append, List.nil_append, List.mem_cons,
    List.not_mem_nil, or_false, or_self] at inPass
  rw [inPass]
  exact inRange_sweep inside (by simpa [Fits, sweep] using lods)

/-- **`DepthBuildLods` stays in bounds**: in its input, in `dinv` and in the levels it builds. -/
theorem inRange_depthBuildLods {dbuf : Pointer Buffer} (data : Fits extent (sweep dbuf (w * h)))
    (dinv : w * h ≤ extent .dinv) (lods : levelStart w h (halvings (w / 2)) ≤ extent .lods)
    (inTrace : access ∈ depthBuildLodsAccesses dbuf (.base .lods) w h m) :
    access.InRange extent := by
  unfold depthBuildLodsAccesses at inTrace
  rcases List.mem_append.mp inTrace with inTrace | inverted
  · rcases List.mem_append.mp inTrace with inverses | levels
    · exact inRange_buildInverses data dinv inverses
    · exact inRange_buildAllLevels dinv lods levels
  · rw [buildLevels_snd] at inverted
    exact inRange_invertLods lods inverted

/-! ### Filling holes -/

/-- Where the sizes are even, every cell has a parent. -/
theorem inRange_depthFillEmpty {coarse fine : Raster Buffer} (coarseFits : Fits extent coarse)
    (fineFits : Fits extent fine) (width : coarse.width = fine.width / 2)
    (height : coarse.height = fine.height / 2) (evenW : Even fine.width) (evenH : Even fine.height)
    (inTrace : access ∈ depthFillEmptyAccesses coarse fine m) : access.InRange extent := by
  obtain ⟨before, ⟨x, y⟩, later, split, inPass⟩ := mem_loopAccesses.mp inTrace
  obtain ⟨inRow, inColumn⟩ := mem_grid.mp (show (x, y) ∈ grid fine.width fine.height by
    rw [split]
    simp)
  have test : (⟨fine.start + (y * fine.width + x), fine, x, y⟩ : Access Buffer).InRange extent :=
    ⟨rfl, inRow, inColumn, fineFits⟩
  rcases List.mem_append.mp inPass with own | missing
  · rwa [List.mem_singleton.mp own]
  · split_ifs at missing
    · rcases List.mem_append.mp missing with parent | own
      · rw [List.mem_singleton.mp parent]
        obtain ⟨halfW, evenW⟩ := evenW
        obtain ⟨halfH, evenH⟩ := evenH
        exact ⟨by rw [Raster.cell, width], show x / 2 < coarse.width by omega,
          show y / 2 < coarse.height by omega, coarseFits⟩
      · rwa [List.mem_singleton.mp own]
    · cases missing

theorem sizeMinusOne_lodSizes (wide : 16 ≤ w) :
    sizeMinusOne (lodTable w h).lodSizes.length = halvings w - 1 := by
  have some := halvings_of_le wide
  rw [lodTable_eq, length_lodSizes, sizeMinusOne, if_neg (by omega)]

/-- Even sizes keep all accesses in bounds. -/
theorem inBounds_of_evenHalvings (wide : 16 ≤ w) (fits : w * h < 2 ^ 31)
    (even : EvenHalvings w h (halvings w)) : InBounds w h := by
  have some := halvings_of_le wide
  have length : (lodTable w h).lodSizes.length = halvings w := by rw [lodTable_eq, length_lodSizes]
  have room : levelStart w h (halvings w) ≤ bufferSize w h .lods := by
    rw [bufferSize, lodTable_eq]
    exact le_rfl
  refine ⟨Checked.fillHoles_eq wide fits, fun lodIdx inside => ?_, fun m access inTrace => ?_⟩
  · rw [sizeMinusOne_lodSizes wide] at inside
    omega
  unfold fillHolesAccesses fillZeroedAccesses at inTrace
  rcases List.mem_append.mp inTrace with inTrace | data
  · rcases List.mem_append.mp inTrace with building | filling
    · refine inRange_depthBuildLods ?_ le_rfl ?_ building
      · simp [Fits, sweep, bufferSize]
      · exact (levelStart_mono w h (by omega)).trans room
    · obtain ⟨before, lodIdx, later, split, inPass⟩ := mem_loopAccesses.mp filling
      have inside : lodIdx < halvings w - 1 := by
        rw [← sizeMinusOne_lodSizes wide]
        exact List.mem_range.mp (by rw [split]; simp)
      -- Pass `lodIdx` fills level `i` of the table from level `i + 1`.
      obtain ⟨i, top⟩ : ∃ i, halvings w = i + 1 + lodIdx + 1 :=
        ⟨halvings w - lodIdx - 2, by omega⟩
      rw [fillLodAccesses, length, show halvings w - lodIdx - 1 = i + 1 by omega,
        Nat.add_sub_cancel, raster_lodTable (by omega), raster_lodTable (by omega)] at inPass
      obtain ⟨evenW, evenH⟩ := even (i + 1) (by omega)
      exact inRange_depthFillEmpty (fits_lodLevel (by omega) room) (fits_lodLevel (by omega) room)
        (div_two_pow_succ _ _) (div_two_pow_succ _ _) evenW evenH inPass
  · obtain ⟨evenW, evenH⟩ := even 0 (by omega)
    rw [pow_zero, Nat.div_one] at evenW evenH
    rw [raster_lodTable (by omega)] at data
    refine inRange_depthFillEmpty (fits_lodLevel (by omega) room) ?_ ?_ ?_ evenW evenH data
    · simp [Fits, bufferSize]
    · exact congrArg (w / ·) (pow_one 2)
    · exact congrArg (h / ·) (pow_one 2)

/-! ### Odd sizes -/

theorem fillPass_of_ne {lod1 lod0 p : Pointer Buffer} {c : ℕ × ℕ}
    (other : p ≠ lod0 + (c.2 * w + c.1)) (m : Floats) : fillPass lod1 lod0 w m c p = m p := by
  unfold fillPass
  split_ifs
  · exact update_of_ne other _ _
  · rfl

/-- Filling a level changes that level only. -/
theorem depthFillEmpty_of_ne {lod1 lod0 p : Pointer Buffer}
    (elsewhere : ∀ i < w * h, p ≠ lod0 + i) (m : Floats) :
    depthFillEmpty lod1 lod0 w h m p = m p :=
  foldl_of_kept (fillPass lod1 lod0 w) (fun _ inGrid m => fillPass_of_ne
    (elsewhere _ (cell_lt (mem_grid.mp inGrid).1 (mem_grid.mp inGrid).2)) m) m

/-- A missing cell has its parent read. -/
theorem mem_depthFillEmptyAccesses {coarse fine : Raster Buffer} {x y : ℕ} (inRow : x < fine.width)
    (inColumn : y < fine.height) (missing : m (fine.cell x y) = .nan) :
    (⟨coarse.start + (y / 2 * (fine.width / 2) + x / 2), coarse, x / 2, y / 2⟩ : Access Buffer) ∈
      depthFillEmptyAccesses coarse fine m := by
  obtain ⟨before, later, split⟩ := List.append_of_mem (mem_grid.mpr ⟨inRow, inColumn⟩)
  refine mem_loopAccesses.mpr ⟨before, (x, y), later, split, ?_⟩
  -- the cell is still as it was, since every pass fills another one
  have still : before.foldl (fillPass coarse.start fine.start fine.width) m (fine.cell x y) =
      .nan := by
    rw [foldl_of_kept _ (fun c inBefore m => fillPass_of_ne ?_ m) m, missing]
    intro same
    have pairwise := pairwise_grid fine.start fine.width fine.height
    rw [split, List.pairwise_append] at pairwise
    exact pairwise.2.2 c inBefore (x, y) List.mem_cons_self same.symm
  unfold Raster.cell at still
  simp [fillPassAccesses, still]

/-- Where all depths are missing, a level is missing when its turn comes to be filled. -/
theorem blank_before_fill (inside : i + 1 < halvings w) {x y : ℕ} (inRow : x < w / 2 ^ (i + 1))
    (inColumn : y < h / 2 ^ (i + 1)) :
    (List.range (halvings w - i - 2)).foldl (fillLod (lodTable w h))
        (depthBuildLods (.base .data) (.base .lods) w h
          (zeroLods (lodTable w h).size fun _ => .nan)) ((lodLevel w h i).cell x y) = .nan := by
  have wide : 16 ≤ w := (lt_halvings_iff.mp inside).trans (Nat.div_le_self _ _)
  have more := halvings_of_le wide
  have length : (lodTable w h).lodSizes.length = halvings w := by rw [lodTable_eq, length_lodSizes]
  rw [foldl_of_kept]
  · -- the built level
    have source : ∀ x < w, ∀ y < h, inverse (zeroLods (lodTable w h).size (fun _ => .nan)
        (Pointer.base Buffer.data + (y * w + x))) = .ofOption (blank x y) := by
      intro x _ y _
      simp [zeroLods, inverse, blank]
    have pos : ∀ x < w, ∀ y < h, ∀ v, blank x y = some v → 0 < v := by
      intro x _ y _ v present
      cases present
    have built := (depthBuildLods_spec _ (by decide) source pos).1 i (by omega) x inRow y inColumn
    rw [level_blank] at built
    exact built
  · intro lodIdx before m
    have earlier := List.mem_range.mp before
    obtain ⟨j, top⟩ : ∃ j, halvings w = j + 1 + lodIdx + 1 := ⟨halvings w - lodIdx - 2, by omega⟩
    have pass : fillLod (lodTable w h) m lodIdx = depthFillEmpty
        ((lodTable w h).raster (j + 1)).start (lodLevel w h j).start (lodLevel w h j).width
          (lodLevel w h j).height m := by
      rw [← raster_lodTable (show j < halvings w by omega)]
      unfold fillLod
      rw [length, show halvings w - lodIdx - 1 = j + 1 by omega]
      rfl
    rw [pass]
    exact depthFillEmpty_of_ne (fun b inLevel =>
      level_apart (by omega) (cell_lt inRow inColumn) inLevel) m

/-- A missing cell of a level has its parent looked for in the next one. -/
theorem exists_parent_access (inside : i + 1 < halvings w) {x y : ℕ} (inRow : x < w / 2 ^ (i + 1))
    (inColumn : y < h / 2 ^ (i + 1)) :
    ∃ access ∈ fillHolesAccesses w h fun _ => .nan, access.image = lodLevel w h (i + 1) ∧
      access.column = x / 2 ∧ access.row = y / 2 := by
  have wide : 16 ≤ w := (lt_halvings_iff.mp inside).trans (Nat.div_le_self _ _)
  have length : (lodTable w h).lodSizes.length = halvings w := by rw [lodTable_eq, length_lodSizes]
  refine ⟨⟨(lodLevel w h (i + 1)).start + (y / 2 * (w / 2 ^ (i + 1) / 2) + x / 2),
    lodLevel w h (i + 1), x / 2, y / 2⟩, ?_, rfl, rfl, rfl⟩
  refine List.mem_append_left _ (List.mem_append_right _ ?_)
  refine mem_loopAccesses_range (j := halvings w - i - 2) ?_ ?_
  · rw [sizeMinusOne_lodSizes wide]
    omega
  · unfold fillLodAccesses
    rw [length, show halvings w - (halvings w - i - 2) - 1 = i + 1 by omega]
    dsimp only
    rw [Nat.add_sub_cancel, raster_lodTable inside, raster_lodTable (by omega)]
    exact mem_depthFillEmptyAccesses inRow inColumn (blank_before_fill inside inRow inColumn)

/-- An odd size lets a missing cell look for a parent that is not there. -/
theorem not_inBounds_of_odd (inside : i + 1 < halvings w) (pos : 0 < h / 2 ^ (i + 1))
    (odd : ¬ (Even (w / 2 ^ (i + 1)) ∧ Even (h / 2 ^ (i + 1)))) : ¬ InBounds w h := by
  intro inBounds
  have widePos : 16 ≤ w / 2 ^ (i + 1) := lt_halvings_iff.mp inside
  have width : (lodLevel w h (i + 1)).width = w / 2 ^ (i + 1) / 2 := div_two_pow_succ w (i + 1)
  have height : (lodLevel w h (i + 1)).height = h / 2 ^ (i + 1) / 2 := div_two_pow_succ h (i + 1)
  rw [not_and_or, Nat.not_even_iff, Nat.not_even_iff] at odd
  rcases odd with odd | odd
  -- the last column has no parent
  · obtain ⟨access, inTrace, image, column, -⟩ := exists_parent_access inside
      (show w / 2 ^ (i + 1) - 1 < w / 2 ^ (i + 1) by omega) pos
    have inRange := (inBounds.accesses _ access inTrace).column
    rw [image, column, width] at inRange
    omega
  -- the last row has no parent
  · obtain ⟨access, inTrace, image, -, row⟩ := exists_parent_access inside
      (show 0 < w / 2 ^ (i + 1) by omega)
      (show h / 2 ^ (i + 1) - 1 < h / 2 ^ (i + 1) by omega)
    have inRange := (inBounds.accesses _ access inTrace).row
    rw [image, row, height] at inRange
    omega

/-- **Pyramid accesses are in bounds exactly for even halvings.** For even sizes, and whatever the
buffers hold, all accesses are in bounds if and only if there is a level, the number of cells is an
int, and every level that is filled, the depths included, has even sizes. -/
theorem inBounds_iff (evenW : Even w) (evenH : Even h) (pos : 0 < h) :
    InBounds w h ↔ 16 ≤ w ∧ w * h < 2 ^ 31 ∧ EvenHalvings w h (halvings w) := by
  refine ⟨fun inBounds => ?_, fun ⟨wide, fits, even⟩ => inBounds_of_evenHalvings wide fits even⟩
  obtain ⟨wide, fits, -⟩ := Checked.fillHoles_eq_some_iff.mp (inBounds.completes fun _ => .nan)
  refine ⟨wide, fits, fun k inside => ?_⟩
  -- up to the first odd size nothing of the height is lost
  induction k using Nat.strong_induction_on with
  | _ k ih =>
    cases k with
    | zero => simpa using ⟨evenW, evenH⟩
    | succ i =>
      by_contra odd
      have even : EvenHalvings w h (i + 1) := fun j before => ih j before (by omega)
      have positive : 0 < h / 2 ^ (i + 1) :=
        Nat.div_pos (Nat.le_of_dvd pos (even.dvd le_rfl).2) (Nat.two_pow_pos _)
      exact not_inBounds_of_odd inside positive odd inBounds

/-- The smallest sizes. -/
theorem inBounds_sixteen : InBounds 16 2 := by
  refine (inBounds_iff (by decide) (by decide) (by decide)).mpr ⟨le_rfl, by decide, ?_⟩
  have one : halvings 16 = 1 := by rw [halvings_of_le (by decide), halvings_of_lt (by decide)]
  rw [one]
  unfold EvenHalvings
  decide

/-- A common size: its fifth halving leaves fifteen rows of twenty cells. -/
theorem not_inBounds_vga : ¬ InBounds 640 480 := by
  have six : halvings 640 = 6 := by
    iterate 6 rw [halvings_of_le (by decide)]
    rw [halvings_of_lt (by decide)]
  exact not_inBounds_of_odd (i := 4) (by rw [six]; decide) (by decide) (by decide)

end Sqwar.Depth
