import Sqwar.Octree.Loc

/-!
# Descending to a location

`IndexOfChild` and `IsChildOf` shift by different amounts and compare different coordinates, the one
by a difference that may wrap around. They agree: a child is found exactly for the locations in the
cube, and taking the child that is found, again and again, ends at the location.
-/

set_option autoImplicit false

namespace Sqwar.Octree

namespace OctTreeLoc

variable {a b l cube q : OctTreeLoc} {c child : UInt32}

/-! ### The order of the cubes -/

/-- Going up twice is going up once, by the sum. -/
theorem coarse_add {levels more : ℕ} (once : coarse levels c = child.toNat) :
    coarse (levels + more) c = coarse more child := by
  rw [coarse, coarse, ← once, coarse, pow_add, Nat.div_div_eq_div_mul]

theorem Inside.trans (inside : l.Inside cube) (outer : cube.Inside q) : l.Inside q := by
  have levels : l.level.toNat - q.level.toNat =
      (l.level.toNat - cube.level.toNat) + (cube.level.toNat - q.level.toNat) := by
    have := inside.level_le
    have := outer.level_le
    omega
  refine ⟨outer.level_le.trans inside.level_le, ?_, ?_, ?_⟩ <;> rw [levels]
  · rw [coarse_add inside.x_eq, outer.x_eq]
  · rw [coarse_add inside.y_eq, outer.y_eq]
  · rw [coarse_add inside.z_eq, outer.z_eq]

theorem Inside.antisymm (inside : l.Inside cube) (back : cube.Inside l) : l = cube :=
  inside.eq_of_level (UInt32.toNat.inj (back.level_le.antisymm inside.level_le))

/-! ### The child that is found -/

/-- A difference of at most one does not come from wrapping around. -/
theorem half_of_local_le (small : c.toNat < 2 ^ 31 - 1) (near : ¬ child - (c <<< 1) > 1) :
    child.toNat / 2 = c.toNat := by
  have shifted := toNat_shiftLeft_one (c := c) (by omega)
  have difference := UInt32.toNat_sub child (c <<< 1)
  have := child.toNat_lt
  have near : (child - (c <<< 1)).toNat ≤ 1 := by
    rw [gt_iff_lt, UInt32.lt_iff_toNat_lt, UInt32.toNat_one] at near
    omega
  omega

/-- **`IndexOfChild` finds a child** for the locations in the cube only. -/
theorem indexOfChild_ne_iff (proper : cube.Proper) (few : l.level.toNat ≤ 30)
    (deeper : cube.level.toNat < l.level.toNat) :
    cube.indexOfChild l ≠ -1 ↔ l.Inside cube := by
  constructor
  · intro found
    have below : ¬ l.level ≤ cube.level := by
      rw [UInt32.le_iff_toNat_le]
      omega
    have near : ¬ ((l.childAround cube).x - (cube.x <<< 1) > 1 ∨
        (l.childAround cube).y - (cube.y <<< 1) > 1 ∨
        (l.childAround cube).z - (cube.z <<< 1) > 1) := by
      intro far
      refine found ?_
      rw [indexOfChild, if_neg below]
      exact if_pos far
    obtain ⟨near_x, near_y, near_z⟩ : _ ∧ _ ∧ _ := by simpa only [not_or] using near
    obtain ⟨x, y, z⟩ := childAround_eq few deeper
    have levels : l.level.toNat - cube.level.toNat =
        l.level.toNat - cube.level.toNat - 1 + 1 := by omega
    have small : ∀ {coordinate : UInt32}, coordinate.toNat < 2 ^ cube.level.toNat →
        coordinate.toNat < 2 ^ 31 - 1 := by
      intro coordinate bound
      have : 2 ^ cube.level.toNat ≤ 2 ^ 30 := Nat.pow_le_pow_right (by decide) proper.level_le
      omega
    refine ⟨deeper.le, ?_, ?_, ?_⟩ <;> rw [levels, coarse_succ]
    · rw [← x, half_of_local_le (small proper.x_lt) near_x]
    · rw [← y, half_of_local_le (small proper.y_lt) near_y]
    · rw [← z, half_of_local_le (small proper.z_lt) near_z]
  · intro inside none
    have small := inside.indexOfChild_lt proper few deeper
    rw [none] at small
    exact absurd small (by decide)

/-- The children of a cube, again by their index. -/
theorem Proper.indexOfChild_getChild (proper : cube.Proper) {idx : UInt64} (small : idx < 8) :
    cube.indexOfChild (cube.getChild idx) = idx := by
  obtain ⟨x_lt, y_lt, z_lt⟩ := proper.lt
  obtain ⟨x_eq, y_eq, z_eq⟩ := proper.getChild_eq idx
  have level := proper.getChild_level idx
  have small : idx.toNat < 8 := small
  have x := toNat_local x_lt (show (cube.getChild idx).x.toNat / 2 = cube.x.toNat by omega)
  have y := toNat_local y_lt (show (cube.getChild idx).y.toNat / 2 = cube.y.toNat by omega)
  have z := toNat_local z_lt (show (cube.getChild idx).z.toNat / 2 = cube.z.toNat by omega)
  have below : ¬ (cube.getChild idx).level ≤ cube.level := by
    rw [UInt32.le_iff_toNat_le]
    omega
  have near : ¬ (cube.getChild idx).level > cube.level + 1 := UInt32.lt_irrefl (cube.level + 1)
  have local_le : ¬ ((cube.getChild idx).x - (cube.x <<< 1) > 1 ∨
      (cube.getChild idx).y - (cube.y <<< 1) > 1 ∨
      (cube.getChild idx).z - (cube.z <<< 1) > 1) := by
    simp only [gt_iff_lt, UInt32.lt_iff_toNat_lt, UInt32.toNat_one, x, y, z]
    omega
  refine UInt64.toNat.inj ?_
  rw [indexOfChild, if_neg below, if_neg near]
  refine (congrArg UInt64.toNat (if_neg local_le)).trans ?_
  rw [toNat_index (by omega) (by omega) (by omega), x, y, z]
  omega

/-! ### Descending -/

/-- One step towards a location: to the child around it. -/
def towards (b a : OctTreeLoc) : OctTreeLoc := a.getChild (a.indexOfChild b)

/-- `ParentAtLevel` finds the cubes around a location. -/
theorem Inside.parentAtLevel (inside : l.Inside cube) (few : l.level.toNat ≤ 30) :
    l.parentAtLevel cube.level = cube := by
  have levels := toNat_level_sub inside.level_le
  have small : (l.level - cube.level).toNat < 32 := by omega
  obtain ⟨-, x, y, z⟩ := inside
  rw [← levels, ← toNat_shiftRight_eq_coarse small] at x y z
  exact congr (congrArg₂ (OctTreeLoc.mk cube.level) (UInt32.toNat.inj x) (UInt32.toNat.inj y))
    (UInt32.toNat.inj z)

/-- **Step lemma.** A step goes one level down and stays around the location. -/
theorem Inside.step_towards (inside : l.Inside cube) (proper : cube.Proper)
    (few : l.level.toNat ≤ 30) (deeper : cube.level.toNat < l.level.toNat) :
    (towards l cube).Proper ∧ (towards l cube).level.toNat = cube.level.toNat + 1 ∧
      l.Inside (towards l cube) := by
  have small := inside.indexOfChild_lt proper few deeper
  exact ⟨proper.getChild (by omega), proper.getChild_level _,
    (inside_getChild_iff proper few deeper small).mpr ⟨inside, rfl⟩⟩

/-- **Run lemma.** As many steps as there are levels between the cube and the location stay around
the location. -/
theorem Inside.iterate_towards (inside : l.Inside cube) (proper : cube.Proper)
    (few : l.level.toNat ≤ 30) (k : ℕ) (le : cube.level.toNat + k ≤ l.level.toNat) :
    ((towards l)^[k] cube).Proper ∧
      ((towards l)^[k] cube).level.toNat = cube.level.toNat + k ∧
      l.Inside ((towards l)^[k] cube) := by
  induction k with
  | zero => exact ⟨proper, rfl, inside⟩
  | succ k ih =>
    obtain ⟨proper, level, inside⟩ := ih (by omega)
    obtain ⟨proper', level', inside'⟩ := inside.step_towards proper few (by omega)
    rw [Function.iterate_succ_apply']
    exact ⟨proper', by omega, inside'⟩

/-- **Child navigation is exact.** `IndexOfChild` finds a child for the locations in the cube only.
The child is a valid location, the one around the location on its level, and the descent over such
children reaches the location after as many steps as it is levels deeper, not before. `IndexOfChild`
inverts `GetChild`, and `IsChildOf` is a partial order. -/
theorem navigation {a b : OctTreeLoc} (a_valid : a.isValid = true) (deeper : a.level < b.level)
    (few : b.level ≤ 30) :
    (a.indexOfChild b ≠ -1 ↔ b.isChildOf a = true) ∧
      (b.isChildOf a = true →
        a.indexOfChild b < 8 ∧
        (a.getChild (a.indexOfChild b)).isValid = true ∧
        a.getChild (a.indexOfChild b) = b.parentAtLevel (a.level + 1) ∧
        b.isChildOf (a.getChild (a.indexOfChild b)) = true ∧
        (towards b)^[b.level.toNat - a.level.toNat] a = b ∧
        ∀ k < b.level.toNat - a.level.toNat, (towards b)^[k] a ≠ b) ∧
      (∀ i < 8, a.indexOfChild (a.getChild i) = i) ∧
      (∀ l : OctTreeLoc, l.level ≤ 30 → l.isChildOf l = true) ∧
      (∀ l cube : OctTreeLoc, l.level ≤ 30 → cube.level ≤ 30 →
        l.isChildOf cube = true → cube.isChildOf l = true → l = cube) ∧
      ∀ l cube q : OctTreeLoc, l.level ≤ 30 → cube.level ≤ 30 → q.level ≤ 30 →
        l.isChildOf cube = true → cube.isChildOf q = true → l.isChildOf q = true := by
  have few : b.level.toNat ≤ 30 := few
  have deeper : a.level.toNat < b.level.toNat := deeper
  have proper : a.Proper := (isValid_iff (by omega)).mp a_valid
  have iff : b.isChildOf a = true ↔ b.Inside a := isChildOf_iff few (by omega)
  refine ⟨(indexOfChild_ne_iff proper few deeper).trans iff.symm, fun child => ?_,
    fun i small => proper.indexOfChild_getChild small,
    fun l low => (isChildOf_iff low low).mpr (inside_self l),
    fun l cube low low' inside back =>
      ((isChildOf_iff low low').mp inside).antisymm ((isChildOf_iff low' low).mp back),
    fun l cube q low low' low'' inside outer => (isChildOf_iff low low'').mpr
      (((isChildOf_iff low low').mp inside).trans ((isChildOf_iff low' low'').mp outer))⟩
  have inside := iff.mp child
  obtain ⟨proper', level', inside'⟩ := inside.step_towards proper few deeper
  obtain ⟨-, level, reached⟩ :=
    inside.iterate_towards proper few (b.level.toNat - a.level.toNat) (by omega)
  refine ⟨inside.indexOfChild_lt proper few deeper, (isValid_iff proper'.level_le).mpr proper',
    (inside'.parentAtLevel few).symm, (isChildOf_iff few proper'.level_le).mpr inside',
    (reached.eq_of_level (UInt32.toNat.inj (by omega))).symm, fun k less same => ?_⟩
  -- before the last step the level is still a lower one
  obtain ⟨-, level, -⟩ := inside.iterate_towards proper few k (by omega)
  rw [same] at level
  omega

/-- Two steps from a cube of level 1 to one of level 3. -/
theorem navigation_two_levels :
    (towards ⟨3, 5, 3, 6⟩)^[2] ⟨1, 1, 0, 1⟩ = (⟨3, 5, 3, 6⟩ : OctTreeLoc) :=
  ((@navigation ⟨1, 1, 0, 1⟩ ⟨3, 5, 3, 6⟩ (by decide) (by decide) (by decide)).2.1
    (by decide)).2.2.2.2.1

end OctTreeLoc

end Sqwar.Octree
