import Sqwar.Depth.Backfilling

/-!
# Hole filling

A hole is filled from the first level at which its block has a depth. Where no built level covers
it, it gets the zero of the level that is not built. So filled holes stay within the measured
depths exactly when every hole has a depth in its block of the coarsest built level.
-/

set_option autoImplicit false

namespace Sqwar.Depth

open Data

variable {m : Floats} {w h x y k n : ℕ}

/-- The image cell at a column and a row. -/
def cell (w x y : ℕ) : Pointer Buffer := Pointer.base Buffer.data + (y * w + x)

/-- What filling should do: depths stay, holes get something between two measured depths or stay,
and all of them stay where nothing was measured. -/
structure StaysMeasured (m : Floats) (w h : ℕ) : Prop where
  depths : ∀ x < w, ∀ y < h, m (cell w x y) ≠ .nan →
    fillHoles w h m (cell w x y) = m (cell w x y)
  holes : (∃ x < w, ∃ y < h, m (cell w x y) ≠ .nan) → ∀ x < w, ∀ y < h, m (cell w x y) = .nan →
    fillHoles w h m (cell w x y) = .nan ∨ ∃ v lo hi, fillHoles w h m (cell w x y) = .num v ∧
      lo ≤ v ∧ v ≤ hi ∧ (∃ x < w, ∃ y < h, m (cell w x y) = .num lo) ∧
        ∃ x < w, ∃ y < h, m (cell w x y) = .num hi
  blank : (∀ x < w, ∀ y < h, m (cell w x y) = .nan) →
    ∀ x < w, ∀ y < h, fillHoles w h m (cell w x y) = .nan

/-- Every hole has a depth in its block of the coarsest level that `DepthBuildLods` builds. -/
def HolesCovered (m : Floats) (w h : ℕ) : Prop :=
  ∀ x < w, ∀ y < h, m (cell w x y) = .nan → ∃ x' < w, ∃ y' < h,
    x' / 2 ^ halvings (w / 2) = x / 2 ^ halvings (w / 2) ∧
      y' / 2 ^ halvings (w / 2) = y / 2 ^ halvings (w / 2) ∧ m (cell w x' y') ≠ .nan

theorem EvenHalvings.dvd (even : EvenHalvings w h n) (small : k ≤ n) : 2 ^ k ∣ w ∧ 2 ^ k ∣ h := by
  induction k with
  | zero => simp
  | succ k ih =>
    obtain ⟨⟨a, rfl⟩, b, rfl⟩ := ih (by omega)
    obtain ⟨evenW, evenH⟩ := even k small
    have pos : 0 < 2 ^ k := Nat.two_pow_pos k
    rw [Nat.mul_div_cancel_left _ pos] at evenW evenH
    rw [pow_succ]
    exact ⟨Nat.mul_dvd_mul_left _ evenW.two_dvd, Nat.mul_dvd_mul_left _ evenH.two_dvd⟩

/-- The block of a cell lies in the image. -/
theorem EvenHalvings.inside (even : EvenHalvings w h n) (small : k ≤ n) {px py : ℕ} (inRow : x < w)
    (inColumn : y < h) (column : px / 2 ^ k = x / 2 ^ k) (row : py / 2 ^ k = y / 2 ^ k) :
    px < w ∧ py < h := by
  obtain ⟨dvdW, dvdH⟩ := even.dvd small
  exact ⟨lt_of_block column (Nat.div_lt_div_of_lt_of_dvd dvdW inRow),
    lt_of_block row (Nat.div_lt_div_of_lt_of_dvd dvdH inColumn)⟩

theorem DepthImage.depths_eq_some (isImage : DepthImage m w h) (inRow : x < w) (inColumn : y < h)
    (measured : m (cell w x y) ≠ .nan) :
    ∃ q, 0 < q ∧ m (cell w x y) = .num q ∧ Depth.depths m w x y = some q := by
  rcases isImage _ (cell_lt inRow inColumn) with hole | ⟨q, pos, depth⟩
  · exact absurd hole measured
  · refine ⟨q, pos, depth, ?_⟩
    unfold Depth.depths
    rw [depth]

theorem depths_eq_some_iff {q : ℚ} : depths m w x y = some q ↔ m (cell w x y) = .num q := by
  unfold depths cell
  cases m (Pointer.base Buffer.data + (y * w + x)) <;> simp

theorem inverted_eq_none_iff {image : Image ℚ} : inverted image x y = none ↔ image x y = none :=
  Option.map_eq_none_iff

/-- A built level at a hole is missing or between two measured depths. -/
theorem lodLevels_measured (even : EvenHalvings w h (halvings w)) (isImage : DepthImage m w h)
    (inRow : x < w) (inColumn : y < h) (built : k < halvings w) {v : ℚ}
    (present : lodLevels (depths m w) (halvings w) k (x / 2 ^ k) (y / 2 ^ k) = some v) :
    ∃ lo hi, lo ≤ v ∧ v ≤ hi ∧ (∃ x < w, ∃ y < h, m (cell w x y) = .num lo) ∧
      ∃ x < w, ∃ y < h, m (cell w x y) = .num hi := by
  rw [lodLevels, if_pos built, inverted, Option.map_eq_some_iff] at present
  obtain ⟨u, present, rfl⟩ := present
  obtain ⟨⟨px, py, a, column, row, pixel, below⟩, px', py', b, column', row', pixel', above⟩ :=
    level_between present
  obtain ⟨pxIn, pyIn⟩ := even.inside built.le inRow inColumn column row
  obtain ⟨pxIn', pyIn'⟩ := even.inside built.le inRow inColumn column' row'
  have posA := isImage.pos px pxIn py pyIn a pixel
  have posB := isImage.pos px' pxIn' py' pyIn' b pixel'
  rw [inverted, Option.map_eq_some_iff] at pixel pixel'
  obtain ⟨hi, hiDepth, rfl⟩ := pixel
  obtain ⟨lo, loDepth, rfl⟩ := pixel'
  -- The levels hold inverses, so the bounds change places.
  refine ⟨lo, hi, ?_, ?_, ⟨px', pxIn', py', pyIn', depths_eq_some_iff.mp loDepth⟩,
    px, pxIn, py, pyIn, depths_eq_some_iff.mp hiDepth⟩
  · exact (le_inv_comm₀ (posA.trans_le below) (inv_pos.mp posB)).mp above
  · exact (inv_le_comm₀ (inv_pos.mp posA) (posA.trans_le below)).mp below

/-- At a covered hole the coarsest built level is not missing. -/
theorem lodLevels_of_covered (wide : 16 ≤ w) {x' y' : ℕ} {q : ℚ}
    (column : x' / 2 ^ halvings (w / 2) = x / 2 ^ halvings (w / 2))
    (row : y' / 2 ^ halvings (w / 2) = y / 2 ^ halvings (w / 2))
    (depth : depths m w x' y' = some q) :
    ∃ v, lodLevels (depths m w) (halvings w) (halvings (w / 2)) (x / 2 ^ halvings (w / 2))
      (y / 2 ^ halvings (w / 2)) = some v := by
  have more := halvings_of_le wide
  rw [lodLevels, if_pos (by omega)]
  refine Option.ne_none_iff_exists'.mp fun missing => ?_
  have hole := level_eq_none_iff.mp (inverted_eq_none_iff.mp missing) x' y' column row
  rw [inverted_eq_none_iff, depth] at hole
  cases hole

/-- At a hole that is not covered no built level has anything. -/
theorem lodLevels_of_uncovered (wide : 16 ≤ w) (even : EvenHalvings w h (halvings w))
    (inRow : x < w) (inColumn : y < h) (built : k < halvings w)
    (uncovered : ∀ x' < w, ∀ y' < h, x' / 2 ^ halvings (w / 2) = x / 2 ^ halvings (w / 2) →
      y' / 2 ^ halvings (w / 2) = y / 2 ^ halvings (w / 2) → m (cell w x' y') = .nan) :
    lodLevels (depths m w) (halvings w) k (x / 2 ^ k) (y / 2 ^ k) = none := by
  have more := halvings_of_le wide
  obtain ⟨d, top⟩ : ∃ d, halvings (w / 2) = k + d := ⟨halvings (w / 2) - k, by omega⟩
  rw [lodLevels, if_pos built, inverted_eq_none_iff, level_eq_none_iff]
  intro px py column row
  obtain ⟨pxIn, pyIn⟩ := even.inside built.le inRow inColumn column row
  -- the blocks of the finer levels lie in the block of the coarsest one
  have hole : m (cell w px py) = .nan := uncovered px pxIn py pyIn
    (by rw [top, pow_add, ← Nat.div_div_eq_div_mul, column, Nat.div_div_eq_div_mul])
    (by rw [top, pow_add, ← Nat.div_div_eq_div_mul, row, Nat.div_div_eq_div_mul])
  rw [inverted_eq_none_iff, depths]
  unfold cell at hole
  rw [hole]

theorem HolesCovered.staysMeasured (covered : HolesCovered m w h) (wide : 16 ≤ w)
    (even : EvenHalvings w h (halvings w)) (isImage : DepthImage m w h) : StaysMeasured m w h := by
  have filled := holds_fillHoles wide even isImage
  have more := halvings_of_le wide
  refine ⟨fun x inRow y inColumn measured => ?_, fun _ x inRow y inColumn hole => ?_,
    fun allHoles x inRow y inColumn => ?_⟩
  · obtain ⟨q, -, depth, present⟩ := isImage.depths_eq_some inRow inColumn measured
    have bottom : lodLevels (depths m w) (halvings w) (0 + 0) (x / 2 ^ 0) (y / 2 ^ 0) = some q := by
      rw [pow_zero, Nat.div_one, Nat.div_one, lodLevels_zero _ (show 0 < halvings w by omega)]
      exact present
    -- The cell is present at level 0, and no level comes before it.
    obtain ⟨i, small, result⟩ := backfill_of_present (Nat.zero_le (halvings w)) bottom
    obtain rfl := Nat.le_zero.mp small
    exact (filled x inRow y inColumn).trans (by rw [result, bottom, depth]; rfl)
  · obtain ⟨x', inRow', y', inColumn', column, row, measured⟩ := covered x inRow y inColumn hole
    obtain ⟨q, -, -, present⟩ := isImage.depths_eq_some inRow' inColumn' measured
    obtain ⟨v, top⟩ := lodLevels_of_covered wide column row present
    obtain ⟨i, small, result⟩ := backfill_of_present (k := 0) (d := halvings w)
      (show halvings (w / 2) ≤ halvings w by omega) (by rw [Nat.zero_add]; exact top)
    rw [Nat.zero_add] at result
    have value := (filled x inRow y inColumn).trans (congrArg ExactFloat.ofOption result)
    cases here : lodLevels (depths m w) (halvings w) i (x / 2 ^ i) (y / 2 ^ i) with
    | none =>
      rw [here] at value
      exact .inl value
    | some u =>
      rw [here] at value
      obtain ⟨lo, hi, above, below, low, high⟩ :=
        lodLevels_measured even isImage inRow inColumn (show i < halvings w by omega) here
      exact .inr ⟨u, lo, hi, value, above, below, low, high⟩
  · obtain ⟨x', inRow', y', inColumn', -, -, measured⟩ :=
      covered x inRow y inColumn (allHoles x inRow y inColumn)
    exact absurd (allHoles x' inRow' y' inColumn') measured

/-- A hole that is not covered gets a zero. -/
theorem fillHoles_of_uncovered (wide : 16 ≤ w) (even : EvenHalvings w h (halvings w))
    (isImage : DepthImage m w h) (inRow : x < w) (inColumn : y < h)
    (uncovered : ∀ x' < w, ∀ y' < h, x' / 2 ^ halvings (w / 2) = x / 2 ^ halvings (w / 2) →
      y' / 2 ^ halvings (w / 2) = y / 2 ^ halvings (w / 2) → m (cell w x' y') = .nan) :
    fillHoles w h m (cell w x y) = .num 0 := by
  refine (holds_fillHoles wide even isImage x inRow y inColumn).trans ?_
  rw [backfill_of_missing fun k built => by
    rw [Nat.zero_add]
    exact lodLevels_of_uncovered wide even inRow inColumn built uncovered]
  rw [Nat.zero_add, lodLevels, if_neg (lt_irrefl _)]
  rfl

theorem StaysMeasured.holesCovered (stays : StaysMeasured m w h) (wide : 16 ≤ w)
    (even : EvenHalvings w h (halvings w)) (isImage : DepthImage m w h) : HolesCovered m w h := by
  intro x inRow y inColumn hole
  by_contra! uncovered
  have zero := fillHoles_of_uncovered wide even isImage inRow inColumn uncovered
  by_cases measured : ∃ x < w, ∃ y < h, m (cell w x y) ≠ .nan
  · rcases stays.holes measured x inRow y inColumn hole with
      still | ⟨v, lo, -, value, below, -, low, -⟩
    · rw [still] at zero
      cases zero
    · -- a zero lies below every depth
      rw [value] at zero
      obtain rfl : v = 0 := by injection zero
      obtain ⟨x', inRow', y', inColumn', depth⟩ := low
      obtain ⟨q, pos, depth', -⟩ := isImage.depths_eq_some inRow' inColumn' (by rw [depth]; simp)
      rw [depth] at depth'
      obtain rfl : lo = q := by injection depth'
      exact absurd below (not_le.mpr pos)
  · push Not at measured
    rw [stays.blank measured x inRow y inColumn] at zero
    cases zero

/-- **Holes stay within the measured depths exactly when a built level covers them.** For every
image of positive depths and holes whose sizes halve evenly (and whose number of cells is an int, as
in `Checked.fillHoles_eq`), `ConvertDepthToYUV` leaves the depths alone and fills the holes from
measured depths, if and only if every hole has a depth in its block of the coarsest level that
`DepthBuildLods` builds. -/
theorem staysMeasured_iff (wide : 16 ≤ w) (even : EvenHalvings w h (halvings w))
    (isImage : DepthImage m w h) : StaysMeasured m w h ↔ HolesCovered m w h :=
  ⟨fun stays => stays.holesCovered wide even isImage,
    fun covered => covered.staysMeasured wide even isImage⟩

/-- In less than 32 columns no level is built, and every hole becomes a zero. -/
theorem fillHoles_of_narrow (wide : 16 ≤ w) (narrow : w < 32) (evenW : Even w) (evenH : Even h)
    (m : Floats) (inRow : x < w) (inColumn : y < h) : fillHoles w h m (cell w x y) =
      if (m (cell w x y)).isNaN then .num 0 else m (cell w x y) := by
  have table : lodTable w h = tableOf w h 1 := by
    rw [lodTable_eq, halvings_of_le wide, halvings_of_lt (by omega)]
  have unbuilt (m : Floats) : depthBuildLods (.base .data) (.base .lods) w h m =
      buildInverses (.base .data) w h m := by
    unfold depthBuildLods
    rw [buildLevels, if_neg (by omega)]
    dsimp only
    rw [invertLods, Nat.sub_self]
    rfl
  obtain ⟨-, kept⟩ :=
    @buildInverses_spec (zeroLods (tableOf w h 1).size m) w h (.base .data) (by simp)
  obtain ⟨filled, -⟩ := depthFillEmpty_spec (w := w) (h := h)
    (buildInverses (.base .data) w h (zeroLods (tableOf w h 1).size m)) (.base .lods) (.base .data)
    fun _ _ _ _ _ _ same => absurd (congrArg Pointer.buffer same) (by simp)
  have own : buildInverses (.base .data) w h (zeroLods (tableOf w h 1).size m) (cell w x y) =
      m (cell w x y) := (kept _ (by simp [cell])).trans (if_neg (by simp [cell]))
  have parent : buildInverses (.base .data) w h (zeroLods (tableOf w h 1).size m)
      (Pointer.base Buffer.lods + (y / 2 * (w / 2) + x / 2)) = .num 0 := by
    refine (kept _ (by simp)).trans (if_pos ⟨rfl, ?_⟩)
    obtain ⟨halfW, rfl⟩ := evenW
    obtain ⟨halfH, rfl⟩ := evenH
    have inLevel : y / 2 * ((halfW + halfW) / 2) + x / 2 <
        (halfW + halfW) / 2 * ((halfH + halfH) / 2) := cell_lt (by omega) (by omega)
    simpa [tableOf, levelStart] using inLevel
  rw [fillHoles, table, unbuilt, length_lodSizes, sizeMinusOne, if_neg one_ne_zero, Nat.sub_self,
    List.range_zero, List.foldl_nil, getD_lodOffsets (Nat.zero_le _)]
  refine (filled x inRow y inColumn).trans ?_
  rw [← own, ← parent]
  rfl

/-- Depths of 1 but for a hole in the first cell. -/
def oneHole : Floats := fun p => if p = Pointer.base .data then .nan else .num 1

theorem oneHole_cell : oneHole (cell w x y) = if y * w + x = 0 then .nan else .num 1 := by
  simp [oneHole, cell, Pointer.ext_iff]

theorem depthImage_oneHole (w h : ℕ) : DepthImage oneHole w h := by
  intro i _
  rcases Nat.eq_zero_or_pos i with rfl | pos
  · exact .inl rfl
  · refine .inr ⟨1, one_pos, if_neg fun same => pos.ne' ?_⟩
    simpa using congrArg Pointer.offset same

/-- In 32 columns there is one built level, and its first block has three depths. -/
theorem staysMeasured_oneHole : StaysMeasured oneHole 32 4 := by
  have two : halvings 32 = 2 := by
    rw [halvings_of_le (by decide), halvings_of_le (by decide), halvings_of_lt (by decide)]
  have one : halvings (32 / 2) = 1 := by
    rw [halvings_of_le (by decide), halvings_of_lt (by decide)]
  refine (staysMeasured_iff (by decide) ?_ (depthImage_oneHole 32 4)).mpr ?_
  · rw [two]
    unfold EvenHalvings
    decide
  · intro x inRow y inColumn hole
    rw [oneHole_cell] at hole
    have first : y * 32 + x = 0 := by
      by_contra other
      rw [if_neg other] at hole
      cases hole
    refine ⟨1, by decide, 0, by decide, ?_, ?_, ?_⟩
    · rw [one]
      omega
    · rw [one]
      omega
    · rw [oneHole_cell]
      decide

/-- In 16 columns no level is built, and the hole becomes a zero. -/
theorem not_staysMeasured_oneHole : ¬ StaysMeasured oneHole 16 2 := by
  intro stays
  have one : halvings 16 = 1 := by rw [halvings_of_le (by decide), halvings_of_lt (by decide)]
  have none : halvings (16 / 2) = 0 := halvings_of_lt (by decide)
  have even : EvenHalvings 16 2 (halvings 16) := by
    rw [one]
    unfold EvenHalvings
    decide
  obtain ⟨x, -, y, -, column, row, measured⟩ := stays.holesCovered (by decide) even
    (depthImage_oneHole 16 2) 0 (by decide) 0 (by decide) (by rw [oneHole_cell]; rfl)
  rw [none, pow_zero, Nat.div_one, Nat.div_one] at column row
  rw [column, row, oneHole_cell] at measured
  exact measured rfl

end Sqwar.Depth
