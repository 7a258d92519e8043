import Mathlib.Algebra.Order.Ring.Nat
import Mathlib.Tactic.Ring

/-!
# The locations of the octree

`OctTreeLoc` is a cube of a level: the levels halve the edges of the cubes, and the coordinates
count cubes. The coordinates of the cube of a lower level around a location are its own, shifted.
`Inside` says so on naturals; `GetChild`, `IndexOfChild` and `IsChildOf` are computed in 32 bits
and agree with it on the levels that a tree has.
-/

set_option autoImplicit false

namespace Sqwar.Octree

/-- `OctTreeLoc`. -/
structure OctTreeLoc where
  level : UInt32
  x : UInt32
  y : UInt32
  z : UInt32
  deriving DecidableEq, Repr

namespace OctTreeLoc

/-- `sInvalidLOD`. -/
def sInvalidLOD : UInt32 := -1

/-- `OctTreeLoc::GetChild`. -/
def getChild (l : OctTreeLoc) (idx : UInt64) : OctTreeLoc :=
  let xInc := idx &&& 1
  let yInc := (idx >>> 1) &&& 1
  let zInc := (idx >>> 2) &&& 1
  ⟨l.level + 1, (l.x <<< 1) + xInc.toUInt32, (l.y <<< 1) + yInc.toUInt32,
    (l.z <<< 1) + zInc.toUInt32⟩

/-- `OctTreeLoc::ParentAtLevel`. -/
def parentAtLevel (l : OctTreeLoc) (level : UInt32) : OctTreeLoc :=
  let levelShift := l.level - level
  ⟨level, l.x >>> levelShift, l.y >>> levelShift, l.z >>> levelShift⟩

/-- `OctTreeLoc::IsValid`. -/
def isValid (l : OctTreeLoc) : Bool :=
  let maxTileIdx := 1 <<< l.level
  l.level ≠ sInvalidLOD ∧ ¬ (l.x ≥ maxTileIdx ∨ l.y ≥ maxTileIdx ∨ l.z ≥ maxTileIdx)

/-- `OctTreeLoc::IndexOfChild`. -/
def indexOfChild (l child : OctTreeLoc) : UInt64 :=
  if child.level ≤ l.level then -1
  else
    let childLoc := if child.level > l.level + 1 then child.parentAtLevel (l.level + 1) else child
    let localX := childLoc.x - (l.x <<< 1)
    let localY := childLoc.y - (l.y <<< 1)
    let localZ := childLoc.z - (l.z <<< 1)
    if localX > 1 ∨ localY > 1 ∨ localZ > 1 then -1
    else ((localZ <<< 2) ||| (localY <<< 1) ||| localX).toUInt64

/-- `OctTreeLoc::IsChildOf`. -/
def isChildOf (l parent : OctTreeLoc) : Bool :=
  let levelDelta := (l.level - parent.level).toInt32
  if levelDelta < 0 then false
  else
    let globalRootX := l.x >>> levelDelta.toUInt32
    let globalRootY := l.y >>> levelDelta.toUInt32
    let globalRootZ := l.z >>> levelDelta.toUInt32
    ¬ (globalRootX ≠ parent.x ∨ globalRootY ≠ parent.y ∨ globalRootZ ≠ parent.z)

/-- `operator<`. -/
def less (l rhs : OctTreeLoc) : Bool :=
  if l.level ≠ rhs.level then l.level < rhs.level
  else if l.x ≠ rhs.x then l.x < rhs.x
  else if l.y ≠ rhs.y then l.y < rhs.y
  else if l.z ≠ rhs.z then l.z < rhs.z
  else false

/-- `operator<` compares the levels, then the coordinates in order. -/
theorem less_iff (l rhs : OctTreeLoc) : l.less rhs = true ↔
    l.level.toNat < rhs.level.toNat ∨ l.level.toNat = rhs.level.toNat ∧
      (l.x.toNat < rhs.x.toNat ∨ l.x.toNat = rhs.x.toNat ∧
        (l.y.toNat < rhs.y.toNat ∨ l.y.toNat = rhs.y.toNat ∧ l.z.toNat < rhs.z.toNat)) := by
  have different : ∀ {a b : UInt32}, a ≠ b ↔ a.toNat ≠ b.toNat := UInt32.toNat_inj.not.symm
  simp only [less, UInt32.lt_iff_toNat_lt, different]
  split_ifs
  iterate 4
    rw [decide_eq_true_eq]
    omega
  exact iff_of_false not_false (by omega)

/-! ### Locations as cubes -/

/-- The coordinate, seen from `levels` levels above. -/
def coarse (levels : ℕ) (coordinate : UInt32) : ℕ := coordinate.toNat / 2 ^ levels

/-- The location lies in the cube. -/
structure Inside (l cube : OctTreeLoc) : Prop where
  level_le : cube.level.toNat ≤ l.level.toNat
  x_eq : coarse (l.level.toNat - cube.level.toNat) l.x = cube.x.toNat
  y_eq : coarse (l.level.toNat - cube.level.toNat) l.y = cube.y.toNat
  z_eq : coarse (l.level.toNat - cube.level.toNat) l.z = cube.z.toNat

/-- A location at a level whose coordinates fit 32 bits, those of its children included. -/
structure Proper (l : OctTreeLoc) : Prop where
  level_le : l.level.toNat ≤ 30
  x_lt : l.x.toNat < 2 ^ l.level.toNat
  y_lt : l.y.toNat < 2 ^ l.level.toNat
  z_lt : l.z.toNat < 2 ^ l.level.toNat

variable {l cube : OctTreeLoc} {idx : UInt64} {levels : ℕ} {c d : UInt32}

theorem coarse_succ : coarse (levels + 1) c = coarse levels c / 2 := by
  rw [coarse, coarse, pow_succ, Nat.div_div_eq_div_mul]

theorem toNat_shiftRight_eq_coarse (few : d.toNat < 32) :
    (c >>> d).toNat = coarse d.toNat c := by
  rw [UInt32.toNat_shiftRight, Nat.mod_eq_of_lt few, Nat.shiftRight_eq_div_pow, coarse]

theorem coarse_eq_zero (small : c.toNat < 2 ^ levels) : coarse levels c = 0 :=
  Nat.div_eq_of_lt small

theorem toNat_level_sub (less : cube.level.toNat ≤ l.level.toNat) :
    (l.level - cube.level).toNat = l.level.toNat - cube.level.toNat :=
  UInt32.toNat_sub_of_le _ _ less

/-- The number of cubes along an edge. -/
theorem toNat_one_shiftLeft (few : c.toNat ≤ 30) : ((1 : UInt32) <<< c).toNat = 2 ^ c.toNat := by
  have small : 2 ^ c.toNat < 2 ^ 32 := Nat.pow_lt_pow_right (by decide) (by omega)
  rw [UInt32.toNat_shiftLeft, Nat.mod_eq_of_lt (b := 32) (by omega), Nat.shiftLeft_eq]
  exact (congrArg (· % 2 ^ 32) (Nat.one_mul _)).trans (Nat.mod_eq_of_lt small)

theorem isValid_iff (level : l.level.toNat ≤ 30) : l.isValid = true ↔ l.Proper := by
  have known : l.level ≠ sInvalidLOD := by
    rintro equal
    rw [equal] at level
    exact absurd level (by decide)
  simp only [isValid, ne_eq, known, not_false_eq_true, true_and, not_or, ge_iff_le,
    UInt32.le_iff_toNat_le, Nat.not_le, toNat_one_shiftLeft level, decide_eq_true_eq]
  exact ⟨fun ⟨x, y, z⟩ => ⟨level, x, y, z⟩, fun ⟨_, x, y, z⟩ => ⟨x, y, z⟩⟩

theorem toNat_shiftLeft_one (small : c.toNat < 2 ^ 31) : (c <<< 1).toNat = 2 * c.toNat := by
  have same : (c <<< 1).toNat = c.toNat <<< 1 % 2 ^ 32 := UInt32.toNat_shiftLeft c 1
  rw [same, Nat.shiftLeft_eq]
  omega

/-! ### Children -/

/-- The offset of a child in one coordinate. -/
theorem toNat_increment (small : c.toNat < 2 ^ 31) (bit : UInt64) :
    ((c <<< 1) + (bit &&& 1).toUInt32).toNat = 2 * c.toNat + bit.toNat % 2 := by
  have one : (bit &&& 1).toUInt32.toNat = bit.toNat % 2 := by
    rw [UInt64.toNat_toUInt32, UInt64.toNat_and]
    have := Nat.and_one_is_mod bit.toNat
    simp only [UInt64.reduceToNat, this]
    omega
  rw [UInt32.toNat_add, toNat_shiftLeft_one small, one]
  omega

theorem Proper.lt (proper : l.Proper) :
    l.x.toNat < 2 ^ 31 ∧ l.y.toNat < 2 ^ 31 ∧ l.z.toNat < 2 ^ 31 := by
  have pow : 2 ^ l.level.toNat ≤ 2 ^ 30 := Nat.pow_le_pow_right (by decide) proper.level_le
  have := proper.x_lt
  have := proper.y_lt
  have := proper.z_lt
  omega

theorem Proper.getChild_level (proper : l.Proper) (idx : UInt64) :
    (l.getChild idx).level.toNat = l.level.toNat + 1 := by
  have level : (l.getChild idx).level.toNat = (l.level.toNat + 1) % 2 ^ 32 :=
    UInt32.toNat_add l.level 1
  have := proper.level_le
  omega

/-- The bits of the index are the offsets of the child. -/
theorem Proper.getChild_eq (proper : l.Proper) (idx : UInt64) :
    (l.getChild idx).x.toNat = 2 * l.x.toNat + idx.toNat % 2 ∧
      (l.getChild idx).y.toNat = 2 * l.y.toNat + idx.toNat / 2 % 2 ∧
      (l.getChild idx).z.toNat = 2 * l.z.toNat + idx.toNat / 4 % 2 := by
  obtain ⟨x, y, z⟩ := proper.lt
  have second : (idx >>> 1).toNat = idx.toNat / 2 := by
    rw [UInt64.toNat_shiftRight]
    exact Nat.shiftRight_eq_div_pow _ 1
  have third : (idx >>> 2).toNat = idx.toNat / 4 := by
    rw [UInt64.toNat_shiftRight]
    exact Nat.shiftRight_eq_div_pow _ 2
  exact ⟨toNat_increment x idx, by rw [← second]; exact toNat_increment y _,
    by rw [← third]; exact toNat_increment z _⟩

theorem Proper.getChild (proper : l.Proper) (room : l.level.toNat < 30) :
    (l.getChild idx).Proper := by
  obtain ⟨x, y, z⟩ := proper.getChild_eq idx
  have level := proper.getChild_level idx
  have := proper.x_lt
  have := proper.y_lt
  have := proper.z_lt
  refine ⟨by omega, ?_, ?_, ?_⟩ <;> rw [level, pow_succ] <;> omega

/-! ### The child around a location -/

/-- The offset of the child around a location in one coordinate. -/
theorem toNat_local {child : UInt32} (small : c.toNat < 2 ^ 31) (half : child.toNat / 2 = c.toNat) :
    (child - (c <<< 1)).toNat = child.toNat % 2 := by
  have shifted := toNat_shiftLeft_one small
  rw [UInt32.toNat_sub_of_le _ _ (by rw [UInt32.le_iff_toNat_le, shifted]; omega), shifted]
  omega

theorem toNat_index {x y z : UInt32} (x_le : x.toNat < 2) (y_le : y.toNat < 2)
    (z_le : z.toNat < 2) :
    ((z <<< 2) ||| (y <<< 1) ||| x).toUInt64.toNat = 4 * z.toNat + 2 * y.toNat + x.toNat := by
  have bit : ∀ b : UInt32, b.toNat < 2 → b = 0 ∨ b = 1 := by
    intro b small
    rcases (by omega : b.toNat = 0 ∨ b.toNat = 1) with zero | one
    · exact .inl (UInt32.toNat.inj zero)
    · exact .inr (UInt32.toNat.inj one)
  rcases bit x x_le with rfl | rfl <;> rcases bit y y_le with rfl | rfl <;>
    rcases bit z z_le with rfl | rfl <;> rfl

/-- What `IndexOfChild` calls `childLoc`: the cube around the location on the level of the
children. -/
def childAround (l cube : OctTreeLoc) : OctTreeLoc :=
  if l.level > cube.level + 1 then l.parentAtLevel (cube.level + 1) else l

theorem childAround_eq (few : l.level.toNat ≤ 30) (deeper : cube.level.toNat < l.level.toNat) :
    (l.childAround cube).x.toNat = coarse (l.level.toNat - cube.level.toNat - 1) l.x ∧
      (l.childAround cube).y.toNat = coarse (l.level.toNat - cube.level.toNat - 1) l.y ∧
      (l.childAround cube).z.toNat = coarse (l.level.toNat - cube.level.toNat - 1) l.z := by
  have next : (cube.level + 1).toNat = cube.level.toNat + 1 := by
    have := UInt32.toNat_add cube.level 1
    rw [UInt32.toNat_one] at this
    omega
  rw [childAround]
  split
  · rename_i deep
    have deep : (cube.level + 1).toNat < l.level.toNat := deep
    have levels : (l.level - (cube.level + 1)).toNat = l.level.toNat - cube.level.toNat - 1 := by
      rw [UInt32.toNat_sub_of_le _ _ deep.le, next]
      omega
    have few : (l.level - (cube.level + 1)).toNat < 32 := by omega
    rw [← levels]
    exact ⟨toNat_shiftRight_eq_coarse few, toNat_shiftRight_eq_coarse few,
      toNat_shiftRight_eq_coarse few⟩
  · rename_i near
    have near : ¬ (cube.level + 1).toNat < l.level.toNat := near
    have same : l.level.toNat - cube.level.toNat - 1 = 0 := by omega
    simp [same, coarse]

/-- A location in a cube has its coordinate, halved once more than on the level of the children. -/
theorem Inside.half (inside : l.Inside cube) (deeper : cube.level.toNat < l.level.toNat) :
    coarse (l.level.toNat - cube.level.toNat - 1) l.x / 2 = cube.x.toNat ∧
      coarse (l.level.toNat - cube.level.toNat - 1) l.y / 2 = cube.y.toNat ∧
      coarse (l.level.toNat - cube.level.toNat - 1) l.z / 2 = cube.z.toNat := by
  have levels : l.level.toNat - cube.level.toNat = l.level.toNat - cube.level.toNat - 1 + 1 := by
    omega
  obtain ⟨-, x, y, z⟩ := inside
  rw [levels, coarse_succ] at x y z
  exact ⟨x, y, z⟩

/-- **`IndexOfChild` finds a child**: the bits of its result are those that the location has below
the cube. -/
theorem Inside.toNat_indexOfChild (inside : l.Inside cube) (proper : cube.Proper)
    (few : l.level.toNat ≤ 30) (deeper : cube.level.toNat < l.level.toNat) :
    (cube.indexOfChild l).toNat =
      4 * (coarse (l.level.toNat - cube.level.toNat - 1) l.z % 2) +
        2 * (coarse (l.level.toNat - cube.level.toNat - 1) l.y % 2) +
        coarse (l.level.toNat - cube.level.toNat - 1) l.x % 2 := by
  obtain ⟨x_lt, y_lt, z_lt⟩ := proper.lt
  obtain ⟨x_eq, y_eq, z_eq⟩ := childAround_eq few deeper
  obtain ⟨x_half, y_half, z_half⟩ := inside.half deeper
  rw [← x_eq] at x_half ⊢
  rw [← y_eq] at y_half ⊢
  rw [← z_eq] at z_half ⊢
  have x := toNat_local x_lt x_half
  have y := toNat_local y_lt y_half
  have z := toNat_local z_lt z_half
  have below : ¬ l.level ≤ cube.level := by
    rw [UInt32.le_iff_toNat_le]
    omega
  have local_le : ¬ ((l.childAround cube).x - (cube.x <<< 1) > 1 ∨
      (l.childAround cube).y - (cube.y <<< 1) > 1 ∨
      (l.childAround cube).z - (cube.z <<< 1) > 1) := by
    simp only [gt_iff_lt, UInt32.lt_iff_toNat_lt, UInt32.toNat_one, x, y, z]
    omega
  have found : cube.indexOfChild l = ((((l.childAround cube).z - (cube.z <<< 1)) <<< 2) |||
      (((l.childAround cube).y - (cube.y <<< 1)) <<< 1) |||
      ((l.childAround cube).x - (cube.x <<< 1))).toUInt64 := by
    rw [indexOfChild, if_neg below]
    exact if_neg local_le
  rw [found, toNat_index (by omega) (by omega) (by omega), x, y, z]

/-- **The children split their cube**: a location that lies deeper is in the child of the index that
`IndexOfChild` finds, and in no other. -/
theorem inside_getChild_iff (proper : cube.Proper) (few : l.level.toNat ≤ 30)
    (deeper : cube.level.toNat < l.level.toNat) (small : idx.toNat < 8) :
    l.Inside (cube.getChild idx) ↔ l.Inside cube ∧ cube.indexOfChild l = idx := by
  obtain ⟨x, y, z⟩ := proper.getChild_eq idx
  have level := proper.getChild_level idx
  have levels : l.level.toNat - (cube.getChild idx).level.toNat =
      l.level.toNat - cube.level.toNat - 1 := by omega
  have above : l.level.toNat - cube.level.toNat = l.level.toNat - cube.level.toNat - 1 + 1 := by
    omega
  constructor
  · rintro ⟨-, x_eq, y_eq, z_eq⟩
    rw [levels] at x_eq y_eq z_eq
    have inside : l.Inside cube := by
      refine ⟨by omega, ?_, ?_, ?_⟩ <;> rw [above, coarse_succ] <;> omega
    refine ⟨inside, UInt64.toNat.inj ?_⟩
    rw [inside.toNat_indexOfChild proper few deeper]
    omega
  · rintro ⟨inside, index⟩
    have bits := inside.toNat_indexOfChild proper few deeper
    obtain ⟨x_half, y_half, z_half⟩ := inside.half deeper
    rw [index] at bits
    refine ⟨by omega, ?_, ?_, ?_⟩ <;> rw [levels] <;> omega

theorem Inside.indexOfChild_lt (inside : l.Inside cube) (proper : cube.Proper)
    (few : l.level.toNat ≤ 30) (deeper : cube.level.toNat < l.level.toNat) :
    (cube.indexOfChild l).toNat < 8 := by
  rw [inside.toNat_indexOfChild proper few deeper]
  omega

theorem inside_self (l : OctTreeLoc) : l.Inside l := by
  refine ⟨le_rfl, ?_, ?_, ?_⟩ <;> simp [coarse]

/-- Locations of one level lie in each other only if they are the same. -/
theorem Inside.eq_of_level (inside : l.Inside cube) (same : l.level = cube.level) : l = cube := by
  obtain ⟨-, x, y, z⟩ := inside
  rw [same, Nat.sub_self] at x y z
  simp only [coarse, pow_zero, Nat.div_one] at x y z
  obtain ⟨level, lx, ly, lz⟩ := l
  obtain ⟨level', cx, cy, cz⟩ := cube
  obtain rfl : level = level' := same
  exact congr (congrArg₂ _ (UInt32.toNat.inj x) (UInt32.toNat.inj y)) (UInt32.toNat.inj z)

/-- Proper locations lie in the whole space. -/
theorem Proper.inside_root (proper : l.Proper) : l.Inside ⟨0, 0, 0, 0⟩ :=
  ⟨Nat.zero_le _, coarse_eq_zero proper.x_lt, coarse_eq_zero proper.y_lt,
    coarse_eq_zero proper.z_lt⟩

theorem proper_root : Proper ⟨0, 0, 0, 0⟩ := by
  refine ⟨?_, ?_, ?_, ?_⟩ <;> decide

/-- The difference of two levels of a tree is negative as an `int` when it wraps around. -/
theorem delta_neg_iff (few : l.level.toNat ≤ 30) (few' : cube.level.toNat ≤ 30) :
    (l.level - cube.level).toInt32 < 0 ↔ l.level.toNat < cube.level.toNat := by
  have difference := UInt32.toNat_sub l.level cube.level
  have value : (l.level - cube.level).toInt32.toInt =
      if 2 * (l.level - cube.level).toNat < 2 ^ 32 then ((l.level - cube.level).toNat : ℤ)
      else (l.level - cube.level).toNat - (2 ^ 32 : ℕ) := BitVec.toInt_eq_toNat_cond _
  rw [Int32.lt_iff_toInt_lt, value, Int32.toInt_zero]
  split <;> omega

/-- **`IsChildOf` decides whether a location lies in a cube.** -/
theorem isChildOf_iff (few : l.level.toNat ≤ 30) (few' : cube.level.toNat ≤ 30) :
    l.isChildOf cube = true ↔ l.Inside cube := by
  have sign := delta_neg_iff few few'
  rw [isChildOf]
  by_cases above : l.level.toNat < cube.level.toNat
  · rw [if_pos (sign.mpr above)]
    exact iff_of_false (by simp) fun inside => by have := inside.level_le; omega
  · rw [if_neg (sign.not.mpr above)]
    have levels := toNat_level_sub (not_lt.mp above)
    have small : (l.level - cube.level).toNat < 32 := by omega
    simp only [UInt32.toUInt32_toInt32, ne_eq, ← UInt32.toNat_inj,
      toNat_shiftRight_eq_coarse small, levels]
    simp only [not_or, not_not, decide_eq_true_eq]
    exact ⟨fun ⟨x, y, z⟩ => ⟨not_lt.mp above, x, y, z⟩, fun ⟨_, x, y, z⟩ => ⟨x, y, z⟩⟩

end OctTreeLoc

end Sqwar.Octree
