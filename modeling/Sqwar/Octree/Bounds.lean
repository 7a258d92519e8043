import Mathlib.Data.Fin.VecNotation
import Mathlib.Data.Rat.Floor
import Mathlib.Tactic.FieldSimp
import Mathlib.Tactic.FinCases
import Sqwar.Data.Dyadic
import Sqwar.Data.LittleEndian
import Sqwar.Octree.Navigation

/-!
# The bounds of the locations

`GetTileAtLoc` scales a point to the tiles of a level and truncates, `GetBounds` scales back. In
each coordinate that is a dyadic cell, in exact arithmetic, so the tiles of all levels around a
point of the half-open box are nested. A point on an upper face of the box has no tile.
-/

set_option autoImplicit false

namespace Sqwar.Octree

open Data

/-- `AABoxf`. -/
structure AABox where
  min : Fin 3 → ℚ
  max : Fin 3 → ℚ
  deriving DecidableEq

namespace AABox

/-- All elements of `min` are less than those of `max`. -/
def NonDegenerate (box : AABox) : Prop := ∀ i, box.min i < box.max i

/-- `isInVolume` of a point: the faces belong to the box. -/
def isInVolume (container : AABox) (pt : Fin 3 → ℚ) : Prop :=
  ∀ i, container.min i ≤ pt i ∧ pt i ≤ container.max i

/-- The point is in the box and not on an upper face. -/
def IsInHalfOpen (container : AABox) (pt : Fin 3 → ℚ) : Prop :=
  ∀ i, container.min i ≤ pt i ∧ pt i < container.max i

/-- `isInVolume` of a box. -/
def isInVolumeOfBox (container box : AABox) : Prop :=
  ∀ i, container.min i ≤ box.min i ∧ box.max i ≤ container.max i

instance (container : AABox) : Decidable container.NonDegenerate :=
  inferInstanceAs (Decidable (∀ _, _))

instance (container : AABox) (pt : Fin 3 → ℚ) : Decidable (container.isInVolume pt) :=
  inferInstanceAs (Decidable (∀ _, _))

instance (container : AABox) (pt : Fin 3 → ℚ) : Decidable (container.IsInHalfOpen pt) :=
  inferInstanceAs (Decidable (∀ _, _))

end AABox

/-- `mulvec`. -/
def mulvec (v1 v2 : Fin 3 → ℚ) : Fin 3 → ℚ := ![v1 0 * v2 0, v1 1 * v2 1, v1 2 * v2 2]

/-- The conversion to `uint32`: it truncates, and is defined where that is not negative and fits. -/
def toUInt32 (q : ℚ) : UInt32 := UInt32.ofNat ⌊q⌋₊

namespace OctTreeLoc

/-- The edges of the cubes of a level. -/
def extents (level : UInt32) (bounds : AABox) : Fin 3 → ℚ :=
  fun i => (bounds.max - bounds.min) i / ((1 : UInt32) <<< level).toNat

/-- `OctTreeLoc::GetBounds`. -/
def getBounds (l : OctTreeLoc) (bounds : AABox) : AABox :=
  let minPt : Fin 3 → ℚ := ![l.x.toNat, l.y.toNat, l.z.toNat]
  let maxPt : Fin 3 → ℚ := ![(l.x + 1).toNat, (l.y + 1).toNat, (l.z + 1).toNat]
  ⟨bounds.min + mulvec minPt (extents l.level bounds),
    bounds.min + mulvec maxPt (extents l.level bounds)⟩

/-- `OctTreeLoc::GetTileAtLoc`. -/
def getTileAtLoc (pt : Fin 3 → ℚ) (level : UInt32) (bounds : AABox) : OctTreeLoc :=
  let inverse : Fin 3 → ℚ := fun i => 1 / extents level bounds i
  let xyz := mulvec (pt - bounds.min) inverse
  ⟨level, toUInt32 (xyz 0), toUInt32 (xyz 1), toUInt32 (xyz 2)⟩

end OctTreeLoc

/-! ### Positions in the box -/

variable {bounds : AABox} {pt : Fin 3 → ℚ} {l level : UInt32} {i : Fin 3}

/-- Where the point is between the faces of the box, from 0 to 1. -/
def position (bounds : AABox) (pt : Fin 3 → ℚ) (i : Fin 3) : ℚ :=
  (pt i - bounds.min i) / (bounds.max i - bounds.min i)

theorem position_nonneg (nonDegenerate : bounds.NonDegenerate) (inside : bounds.isInVolume pt) :
    0 ≤ position bounds pt i :=
  div_nonneg (sub_nonneg.mpr (inside i).1) (sub_pos.mpr (nonDegenerate i)).le

theorem position_le_one (nonDegenerate : bounds.NonDegenerate) (inside : bounds.isInVolume pt) :
    position bounds pt i ≤ 1 := by
  rw [position, div_le_one (sub_pos.mpr (nonDegenerate i))]
  exact sub_le_sub_right (inside i).2 _

theorem position_lt_one_iff (nonDegenerate : bounds.NonDegenerate) :
    position bounds pt i < 1 ↔ pt i < bounds.max i := by
  rw [position, div_lt_one (sub_pos.mpr (nonDegenerate i)), sub_lt_sub_iff_right]

/-- The coordinate of a fraction of the edge. -/
def between (bounds : AABox) (i : Fin 3) (fraction : ℚ) : ℚ :=
  bounds.min i + fraction * (bounds.max i - bounds.min i)

theorem between_strictMono (nonDegenerate : bounds.NonDegenerate) :
    StrictMono (between bounds i) := by
  intro f g less
  exact add_lt_add_right
    (mul_lt_mul_of_pos_right less (sub_pos.mpr (nonDegenerate i))) _

theorem between_position (nonDegenerate : bounds.NonDegenerate) :
    between bounds i (position bounds pt i) = pt i := by
  rw [between, position, div_mul_cancel₀ _ (sub_pos.mpr (nonDegenerate i)).ne', add_sub_cancel]

/-! ### The coordinates of the tiles -/

namespace OctTreeLoc

variable {tile : OctTreeLoc}

/-- The coordinates by their index. -/
def coordinate (tile : OctTreeLoc) : Fin 3 → UInt32 := ![tile.x, tile.y, tile.z]

theorem mulvec_apply (v1 v2 : Fin 3 → ℚ) (i : Fin 3) : mulvec v1 v2 i = v1 i * v2 i := by
  fin_cases i <;> rfl

theorem extents_apply (few : level.toNat ≤ 30) :
    extents level bounds i = (bounds.max i - bounds.min i) / 2 ^ level.toNat := by
  rw [extents, toNat_one_shiftLeft few, Pi.sub_apply, Nat.cast_pow, Nat.cast_ofNat]

theorem min_getBounds (few : tile.level.toNat ≤ 30) : (tile.getBounds bounds).min i =
    between bounds i ((tile.coordinate i).toNat / 2 ^ tile.level.toNat) := by
  have scaled : (tile.getBounds bounds).min i =
      bounds.min i + (tile.coordinate i).toNat * extents tile.level bounds i := by
    fin_cases i <;> rfl
  rw [scaled, extents_apply few, between, div_mul_eq_mul_div, mul_div_assoc]

theorem max_getBounds (few : tile.level.toNat ≤ 30)
    (small : (tile.coordinate i).toNat < 2 ^ 32 - 1) : (tile.getBounds bounds).max i =
    between bounds i (((tile.coordinate i).toNat + 1) / 2 ^ tile.level.toNat) := by
  have scaled : (tile.getBounds bounds).max i =
      bounds.min i + (tile.coordinate i + 1).toNat * extents tile.level bounds i := by
    fin_cases i <;> rfl
  have next : (tile.coordinate i + 1).toNat = (tile.coordinate i).toNat + 1 := by
    rw [UInt32.toNat_add, UInt32.toNat_one]
    omega
  rw [scaled, next, extents_apply few, between, div_mul_eq_mul_div, mul_div_assoc, Nat.cast_add,
    Nat.cast_one]

theorem cell_position_le (few : level.toNat ≤ 30) (nonDegenerate : bounds.NonDegenerate)
    (inside : bounds.isInVolume pt) : cell level.toNat (position bounds pt i) ≤ 2 ^ 30 :=
  (cell_le_two_pow (position_le_one nonDegenerate inside)).trans
    (Nat.pow_le_pow_right (by decide) few)

/-- **`GetTileAtLoc` finds the dyadic cell.** -/
theorem toNat_coordinate_getTileAtLoc (few : level.toNat ≤ 30)
    (nonDegenerate : bounds.NonDegenerate) (inside : bounds.isInVolume pt) :
    ((getTileAtLoc pt level bounds).coordinate i).toNat =
      cell level.toNat (position bounds pt i) := by
  have edge := (sub_pos.mpr (nonDegenerate i)).ne'
  have scaled : mulvec (pt - bounds.min) (fun i => 1 / extents level bounds i) i =
      position bounds pt i * 2 ^ level.toNat := by
    rw [mulvec_apply, extents_apply few, position, Pi.sub_apply]
    field_simp
  have truncated : (getTileAtLoc pt level bounds).coordinate i =
      toUInt32 (mulvec (pt - bounds.min) (fun i => 1 / extents level bounds i) i) := by
    fin_cases i <;> rfl
  have small := cell_position_le (i := i) few nonDegenerate inside
  rw [truncated, toUInt32, scaled, UInt32.toNat_ofNat', ← cell]
  exact Nat.mod_eq_of_lt (by omega)

theorem proper_iff_coordinate (few : tile.level.toNat ≤ 30) :
    tile.Proper ↔ ∀ i, (tile.coordinate i).toNat < 2 ^ tile.level.toNat := by
  constructor
  · intro proper i
    fin_cases i
    exacts [proper.x_lt, proper.y_lt, proper.z_lt]
  · intro small
    exact ⟨few, small 0, small 1, small 2⟩

/-- A point of the box has a tile if it is not on an upper face. -/
theorem isValid_getTileAtLoc_iff (few : level.toNat ≤ 30) (nonDegenerate : bounds.NonDegenerate)
    (inside : bounds.isInVolume pt) :
    (getTileAtLoc pt level bounds).isValid = true ↔ ∀ i, pt i < bounds.max i := by
  have low : (getTileAtLoc pt level bounds).level.toNat ≤ 30 := few
  rw [isValid_iff low, proper_iff_coordinate low]
  refine forall_congr' fun i => ?_
  rw [toNat_coordinate_getTileAtLoc few nonDegenerate inside]
  exact (cell_lt_iff (position_nonneg nonDegenerate inside)).trans
    (position_lt_one_iff nonDegenerate)

/-! ### The bounds of the tiles -/

theorem getBounds_getTileAtLoc (few : level.toNat ≤ 30) (nonDegenerate : bounds.NonDegenerate)
    (inside : bounds.isInVolume pt) :
    ((getTileAtLoc pt level bounds).getBounds bounds).min i =
        between bounds i (cell level.toNat (position bounds pt i) / 2 ^ level.toNat) ∧
      ((getTileAtLoc pt level bounds).getBounds bounds).max i =
        between bounds i ((cell level.toNat (position bounds pt i) + 1) / 2 ^ level.toNat) := by
  have coordinate := toNat_coordinate_getTileAtLoc (i := i) few nonDegenerate inside
  have small := cell_position_le (i := i) few nonDegenerate inside
  have low : (getTileAtLoc pt level bounds).level.toNat ≤ 30 := few
  rw [min_getBounds low, max_getBounds low (by omega), coordinate]
  exact ⟨rfl, rfl⟩

/-- **The bounds of the tile hold the point**, even on an upper face. -/
theorem isInHalfOpen_getBounds (few : level.toNat ≤ 30) (nonDegenerate : bounds.NonDegenerate)
    (inside : bounds.isInVolume pt) :
    ((getTileAtLoc pt level bounds).getBounds bounds).IsInHalfOpen pt := by
  intro i
  have mono := between_strictMono (i := i) nonDegenerate
  obtain ⟨min_eq, max_eq⟩ := getBounds_getTileAtLoc (i := i) few nonDegenerate inside
  have point : between bounds i (position bounds pt i) = pt i := between_position nonDegenerate
  rw [min_eq, max_eq, ← point, mono.le_iff_le, mono.lt_iff_lt]
  exact ⟨cell_le (position_nonneg nonDegenerate inside), lt_cell_add_one⟩

/-- The tiles of a point are nested. -/
theorem inside_getTileAtLoc (few : level.toNat ≤ 30) (le : l ≤ level)
    (nonDegenerate : bounds.NonDegenerate) (inside : bounds.isInVolume pt) :
    (getTileAtLoc pt level bounds).Inside (getTileAtLoc pt l bounds) := by
  have le : l.toNat ≤ level.toNat := le
  have above : ∀ i, coarse (level.toNat - l.toNat) ((getTileAtLoc pt level bounds).coordinate i) =
      ((getTileAtLoc pt l bounds).coordinate i).toNat := by
    intro i
    rw [coarse, toNat_coordinate_getTileAtLoc few nonDegenerate inside,
      toNat_coordinate_getTileAtLoc (le.trans few) nonDegenerate inside]
    obtain ⟨more, sum⟩ := Nat.exists_eq_add_of_le le
    rw [sum, Nat.add_sub_cancel_left, cell_add_div]
  exact ⟨le, above 0, above 1, above 2⟩

/-- So are their bounds. -/
theorem isInVolumeOfBox_getBounds (few : level.toNat ≤ 30) (le : l ≤ level)
    (nonDegenerate : bounds.NonDegenerate) (inside : bounds.isInVolume pt) :
    ((getTileAtLoc pt l bounds).getBounds bounds).isInVolumeOfBox
      ((getTileAtLoc pt level bounds).getBounds bounds) := by
  intro i
  have le : l.toNat ≤ level.toNat := le
  have mono := between_strictMono (i := i) nonDegenerate
  obtain ⟨min_eq, max_eq⟩ := getBounds_getTileAtLoc (i := i) few nonDegenerate inside
  obtain ⟨min_eq', max_eq'⟩ :=
    getBounds_getTileAtLoc (i := i) (le.trans few) nonDegenerate inside
  rw [min_eq, max_eq, min_eq', max_eq', mono.le_iff_le, mono.le_iff_le]
  obtain ⟨more, sum⟩ := Nat.exists_eq_add_of_le le
  rw [sum]
  exact ⟨cell_le_cell_add, cell_add_add_one_le⟩

/-- **The tiles of a point are coherent.** In the box, its upper faces included, the tile of a level
is the parent of those of deeper levels, its bounds hold the point, and they cover the bounds of the
deeper tiles. -/
theorem tiles_coherent {bounds : AABox} (nonDegenerate : bounds.NonDegenerate) {pt : Fin 3 → ℚ}
    (inside : bounds.isInVolume pt) {l L : UInt32} (le : l ≤ L) (few : L ≤ 30) :
    (getTileAtLoc pt L bounds).parentAtLevel l = getTileAtLoc pt l bounds ∧
      ((getTileAtLoc pt l bounds).getBounds bounds).IsInHalfOpen pt ∧
      ((getTileAtLoc pt l bounds).getBounds bounds).isInVolumeOfBox
        ((getTileAtLoc pt L bounds).getBounds bounds) := by
  have few : L.toNat ≤ 30 := few
  have low : l.toNat ≤ 30 := (show l.toNat ≤ L.toNat from le).trans few
  exact ⟨(inside_getTileAtLoc few le nonDegenerate inside).parentAtLevel few,
    isInHalfOpen_getBounds low nonDegenerate inside,
    isInVolumeOfBox_getBounds few le nonDegenerate inside⟩

/-- A box of edges 1, 2 and 3. -/
def oneTwoThree : AABox := ⟨![-1, 0, 0], ![0, 2, 3]⟩

/-- A point of it on the levels 3 and 1. -/
theorem tiles_coherent_oneTwoThree :
    (getTileAtLoc ![-1 / 3, 0, 5 / 2] 3 oneTwoThree).parentAtLevel 1 =
      getTileAtLoc ![-1 / 3, 0, 5 / 2] 1 oneTwoThree :=
  (@tiles_coherent oneTwoThree (by decide +kernel) ![-1 / 3, 0, 5 / 2] (by decide +kernel) 1 3
    (by decide) (by decide)).1

end OctTreeLoc

end Sqwar.Octree
