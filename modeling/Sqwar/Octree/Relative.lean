import Mathlib.Tactic.Linarith
import Sqwar.Octree.Navigation

/-!
# Relative locations

`GlobalToLoc` gives a location in a cube by the levels and the offset below the cube. `Refines` says
what that is on naturals, a division with remainder in each coordinate; relative locations compose
because divisions do.
-/

set_option autoImplicit false

namespace Sqwar.Octree

namespace OctTreeLoc

/-- What `GlobalToLoc` returns for a location that is not in the cube. -/
def invalid : OctTreeLoc := ⟨sInvalidLOD, 0, 0, 0⟩

/-- `OctTreeLoc::GlobalToLoc`. -/
def globalToLoc (l parentTile : OctTreeLoc) : OctTreeLoc :=
  let levelDelta := (l.level - parentTile.level).toInt32
  if levelDelta < 0 then ⟨sInvalidLOD, 0, 0, 0⟩
  else
    let globalRootX := l.x >>> levelDelta.toUInt32
    let globalRootY := l.y >>> levelDelta.toUInt32
    let globalRootZ := l.z >>> levelDelta.toUInt32
    if globalRootX ≠ parentTile.x ∨ globalRootY ≠ parentTile.y ∨ globalRootZ ≠ parentTile.z then
      ⟨sInvalidLOD, 0, 0, 0⟩
    else
      let startXAtCurrentLevel := parentTile.x <<< levelDelta.toUInt32
      let startYAtCurrentLevel := parentTile.y <<< levelDelta.toUInt32
      let startZAtCurrentLevel := parentTile.z <<< levelDelta.toUInt32
      ⟨levelDelta.toUInt32, l.x - startXAtCurrentLevel, l.y - startYAtCurrentLevel,
        l.z - startZAtCurrentLevel⟩

variable {p q r s t u : OctTreeLoc} {c d e : UInt32} {n : UInt32}

/-! ### One coordinate -/

/-- A coordinate is that of the cube, refined, and an offset. -/
structure Offset (levels : ℕ) (outer inner offset : UInt32) : Prop where
  eq : inner.toNat = outer.toNat * 2 ^ levels + offset.toNat
  lt : offset.toNat < 2 ^ levels

theorem offset_of_shiftRight (few : n.toNat < 32) (root : c >>> n = d) :
    Offset n.toNat d c (c - (d <<< n)) := by
  have quotient : c.toNat / 2 ^ n.toNat = d.toNat := by
    rw [← root, toNat_shiftRight_eq_coarse few, coarse]
  have division := Nat.div_add_mod c.toNat (2 ^ n.toNat)
  have remainder := Nat.mod_lt c.toNat (Nat.two_pow_pos n.toNat)
  rw [quotient, mul_comm] at division
  have start : (d <<< n).toNat = d.toNat * 2 ^ n.toNat := by
    have := c.toNat_lt
    rw [UInt32.toNat_shiftLeft, Nat.mod_eq_of_lt few, Nat.shiftLeft_eq]
    exact Nat.mod_eq_of_lt (by omega)
  have difference : (c - (d <<< n)).toNat = c.toNat - d.toNat * 2 ^ n.toNat := by
    rw [UInt32.toNat_sub_of_le _ _ (by rw [UInt32.le_iff_toNat_le, start]; omega), start]
  constructor <;> omega

theorem Offset.shiftRight_eq (offset : Offset n.toNat d c e) (few : n.toNat < 32) :
    c >>> n = d := by
  refine UInt32.toNat.inj ?_
  rw [toNat_shiftRight_eq_coarse few, coarse, offset.eq, mul_comm,
    Nat.mul_add_div (Nat.two_pow_pos _), Nat.div_eq_of_lt offset.lt, Nat.add_zero]

theorem Offset.unique {levels : ℕ} {e' : UInt32} (offset : Offset levels d c e)
    (offset' : Offset levels d c e') : e = e' := by
  have := offset.eq
  have := offset'.eq
  exact UInt32.toNat.inj (by omega)

/-- Offsets compose: the offset in the outer cube is that of the inner cube, refined, and the offset
in the inner cube. -/
theorem Offset.trans {levels more : ℕ} {innerOffset offset offset' : UInt32}
    (inner : Offset levels c d innerOffset) (whole : Offset (levels + more) c e offset')
    (inInner : Offset more d e offset) : Offset more innerOffset offset' offset := by
  refine ⟨?_, inInner.lt⟩
  have sum := whole.eq
  rw [inInner.eq, inner.eq, pow_add] at sum
  linarith

/-! ### Locations -/

/-- A location is the cube's, refined by the relative one. -/
structure Refines (cube relative l : OctTreeLoc) : Prop where
  level_eq : l.level - cube.level = relative.level
  level_lt : relative.level.toNat < 32
  x : Offset relative.level.toNat cube.x l.x relative.x
  y : Offset relative.level.toNat cube.y l.y relative.y
  z : Offset relative.level.toNat cube.z l.z relative.z

/-- A shift that is defined has an amount that is not negative. -/
theorem toInt32_nonneg (few : n.toNat < 32) : ¬ n.toInt32 < 0 := by
  have value : n.toInt32.toInt =
      if 2 * n.toNat < 2 ^ 32 then (n.toNat : ℤ) else n.toNat - (2 ^ 32 : ℕ) :=
    BitVec.toInt_eq_toNat_cond _
  rw [Int32.lt_iff_toInt_lt, value, Int32.toInt_zero]
  split <;> omega

/-- **`GlobalToLoc` divides.** -/
theorem refines_globalToLoc (few : (t.level - p.level).toNat < 32)
    (child : t.isChildOf p = true) : Refines p (t.globalToLoc p) t := by
  have forward := toInt32_nonneg few
  rw [isChildOf, if_neg forward] at child
  obtain ⟨x, y, z⟩ : t.x >>> (t.level - p.level) = p.x ∧ t.y >>> (t.level - p.level) = p.y ∧
      t.z >>> (t.level - p.level) = p.z := by
    simpa using child
  have result : t.globalToLoc p = ⟨t.level - p.level, t.x - (p.x <<< (t.level - p.level)),
      t.y - (p.y <<< (t.level - p.level)), t.z - (p.z <<< (t.level - p.level))⟩ := by
    rw [globalToLoc, if_neg forward]
    simp [x, y, z]
  rw [result]
  exact ⟨rfl, few, offset_of_shiftRight few x, offset_of_shiftRight few y,
    offset_of_shiftRight few z⟩

/-- There is one quotient. -/
theorem Refines.globalToLoc_eq (refines : Refines p r t) : t.globalToLoc p = r := by
  obtain ⟨delta, few, x, y, z⟩ := refines
  have child : t.isChildOf p = true := by
    rw [isChildOf, delta, if_neg (toInt32_nonneg few)]
    simp [x.shiftRight_eq few, y.shiftRight_eq few, z.shiftRight_eq few]
  obtain ⟨same, -, x', y', z'⟩ := refines_globalToLoc (by rwa [delta]) child
  rw [delta] at same
  rw [← same] at x' y' z'
  cases r
  cases divided : t.globalToLoc p
  rw [divided] at same x' y' z'
  exact congr (congr (congrArg₂ _ same.symm (x'.unique x)) (y'.unique y)) (z'.unique z)

/-- There is one product. -/
theorem Refines.eq_of_refines (refines : Refines p r t) (other : Refines p r u) : t = u := by
  have level : t.level = u.level := by
    have := refines.level_eq.trans other.level_eq.symm
    grind
  have x : t.x = u.x := UInt32.toNat.inj (refines.x.eq.trans other.x.eq.symm)
  have y : t.y = u.y := UInt32.toNat.inj (refines.y.eq.trans other.y.eq.symm)
  have z : t.z = u.z := UInt32.toNat.inj (refines.z.eq.trans other.z.eq.symm)
  cases t
  cases u
  exact congr (congr (congrArg₂ _ level x) y) z

/-- **Relative locations compose.** -/
theorem Refines.trans (inner : Refines q s p) (whole : Refines q u t) (inInner : Refines p r t) :
    Refines s r u := by
  have delta : u.level - s.level = r.level := by
    rw [← inner.level_eq, ← whole.level_eq, ← inInner.level_eq]
    grind
  have sum : u.level.toNat = s.level.toNat + r.level.toNat := by
    have := UInt32.toNat_sub u.level s.level
    have := u.level.toNat_lt
    have := whole.level_lt
    have := inner.level_lt
    have := inInner.level_lt
    rw [delta] at *
    omega
  obtain ⟨-, -, x, y, z⟩ := whole
  rw [sum] at x y z
  exact ⟨delta, inInner.level_lt, inner.x.trans x inInner.x, inner.y.trans y inInner.y,
    inner.z.trans z inInner.z⟩

theorem Refines.proper (refines : Refines p r t) (few : r.level.toNat ≤ 30) : r.Proper :=
  ⟨few, refines.x.lt, refines.y.lt, refines.z.lt⟩

/-- A location that is not in the cube has no relative one. -/
theorem globalToLoc_of_not_isChildOf (foreign : ¬ t.isChildOf p = true) :
    t.globalToLoc p = invalid := by
  rw [globalToLoc, invalid]
  split
  · rfl
  · rename_i forward
    rw [isChildOf, if_neg forward, decide_eq_true_eq, not_not] at foreign
    exact if_pos foreign

/-- `IsChildOf` refuses the levels whose difference is negative. -/
theorem level_sub_lt_of_isChildOf (child : t.isChildOf p = true) :
    (t.level - p.level).toNat < 2 ^ 31 := by
  by_contra! large
  have value : (t.level - p.level).toInt32.toInt =
      if 2 * (t.level - p.level).toNat < 2 ^ 32 then ((t.level - p.level).toNat : ℤ)
      else (t.level - p.level).toNat - (2 ^ 32 : ℕ) := BitVec.toInt_eq_toNat_cond _
  have backward : (t.level - p.level).toInt32 < 0 := by
    have := (t.level - p.level).toNat_lt
    rw [Int32.lt_iff_toInt_lt, value, Int32.toInt_zero, if_neg (by omega)]
    omega
  rw [isChildOf, if_pos backward] at child
  exact absurd child (by decide)

theorem isChildOf_iff_coarse (few : (t.level - p.level).toNat < 32) : t.isChildOf p = true ↔
    coarse (t.level - p.level).toNat t.x = p.x.toNat ∧
      coarse (t.level - p.level).toNat t.y = p.y.toNat ∧
      coarse (t.level - p.level).toNat t.z = p.z.toNat := by
  rw [isChildOf, if_neg (toInt32_nonneg few)]
  simp [← UInt32.toNat_inj, toNat_shiftRight_eq_coarse few]

/-- The cubes around a cube, as far as the shifts are defined. -/
theorem isChildOf_trans (child : t.isChildOf p = true) (outer : p.isChildOf q = true)
    (few : (t.level - p.level).toNat < 32) (few' : (p.level - q.level).toNat < 32)
    (sum : (t.level - q.level).toNat = (t.level - p.level).toNat + (p.level - q.level).toNat)
    (few'' : (t.level - q.level).toNat < 32) : t.isChildOf q = true := by
  obtain ⟨x, y, z⟩ := (isChildOf_iff_coarse few).mp child
  obtain ⟨x', y', z'⟩ := (isChildOf_iff_coarse few').mp outer
  rw [isChildOf_iff_coarse few'', sum]
  exact ⟨(coarse_add x).trans x', (coarse_add y).trans y', (coarse_add z).trans z'⟩

/-- The shift by the levels between two cubes of a tree is defined. -/
theorem level_sub_lt (few : t.level.toNat ≤ 30) (few' : p.level.toNat ≤ 30)
    (child : t.isChildOf p = true) : (t.level - p.level).toNat ≤ 30 := by
  have := level_sub_lt_of_isChildOf child
  have := UInt32.toNat_sub t.level p.level
  omega

/-- **Relative locations compose.** A location in a cube has a valid relative one, the levels and
the offsets below the cube, from which it is recovered; any other has the invalid one. Relative to
an outer cube, the relative location stays the same, as far as the shifts are defined: for all outer
cubes of a tree, and for those whose level is less than 32 below that of the location. -/
theorem relative_locations {t p : OctTreeLoc} (few : t.level ≤ 30) (few' : p.level ≤ 30) :
    (t.isChildOf p = true →
      (t.globalToLoc p).isValid = true ∧
      (t.globalToLoc p).level = t.level - p.level ∧ p.level ≤ t.level ∧
      t.x.toNat = p.x.toNat * 2 ^ (t.globalToLoc p).level.toNat + (t.globalToLoc p).x.toNat ∧
      t.y.toNat = p.y.toNat * 2 ^ (t.globalToLoc p).level.toNat + (t.globalToLoc p).y.toNat ∧
      t.z.toNat = p.z.toNat * 2 ^ (t.globalToLoc p).level.toNat + (t.globalToLoc p).z.toNat ∧
      ∀ u : OctTreeLoc, u.level ≤ 30 → u.isChildOf p = true →
        u.globalToLoc p = t.globalToLoc p → u = t) ∧
      (¬ t.isChildOf p = true → t.globalToLoc p = invalid) ∧
      ∀ q : OctTreeLoc, q.level ≤ 30 ∨ t.level - q.level < 32 →
        t.isChildOf p = true → p.isChildOf q = true →
        (t.globalToLoc q).globalToLoc (p.globalToLoc q) = t.globalToLoc p := by
  have few : t.level.toNat ≤ 30 := few
  have few' : p.level.toNat ≤ 30 := few'
  have refines : ∀ u : OctTreeLoc, u.level.toNat ≤ 30 → u.isChildOf p = true →
      Refines p (u.globalToLoc p) u := fun u low child =>
    refines_globalToLoc (by have := level_sub_lt low few' child; omega) child
  refine ⟨fun child => ?_, globalToLoc_of_not_isChildOf, fun q shifted child outer => ?_⟩
  · have quotient := refines t few child
    have level := quotient.level_eq
    have levels := level_sub_lt few few' child
    rw [level] at levels
    refine ⟨(isValid_iff levels).mpr (quotient.proper levels), level.symm,
      ((isChildOf_iff few few').mp child).level_le, quotient.x.eq, quotient.y.eq, quotient.z.eq,
      fun u low other same => ?_⟩
    exact (same ▸ refines u low other).eq_of_refines quotient
  · have shifted : q.level.toNat ≤ 30 ∨ (t.level - q.level).toNat < 32 := shifted
    have deep := level_sub_lt_of_isChildOf child
    have up := level_sub_lt_of_isChildOf outer
    have := UInt32.toNat_sub t.level p.level
    have := UInt32.toNat_sub p.level q.level
    have := UInt32.toNat_sub t.level q.level
    have inner := refines_globalToLoc (p := q) (t := p) (by omega) outer
    have whole : Refines q (t.globalToLoc q) t := refines_globalToLoc (by omega)
      (isChildOf_trans child outer (by omega) (by omega) (by omega) (by omega))
    exact (inner.trans whole (refines t few child)).globalToLoc_eq

/-- A location of level 3, relative to one of level 1, first in the whole space. -/
theorem relative_locations_three_levels :
    ((⟨3, 5, 3, 6⟩ : OctTreeLoc).globalToLoc ⟨0, 0, 0, 0⟩).globalToLoc
        ((⟨1, 1, 0, 1⟩ : OctTreeLoc).globalToLoc ⟨0, 0, 0, 0⟩) =
      (⟨3, 5, 3, 6⟩ : OctTreeLoc).globalToLoc ⟨1, 1, 0, 1⟩ :=
  (@relative_locations ⟨3, 5, 3, 6⟩ ⟨1, 1, 0, 1⟩ (by decide) (by decide)).2.2 ⟨0, 0, 0, 0⟩
    (.inl (by decide)) (by decide) (by decide)

end OctTreeLoc

end Sqwar.Octree
