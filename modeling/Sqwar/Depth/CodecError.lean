import Mathlib.Tactic.FieldSimp
import Mathlib.Tactic.Linarith
import Mathlib.Tactic.Ring
import Sqwar.Depth.CodecPlanes
import Sqwar.Depth.HoleFilling

/-!
# The error of the depth codec

A decoded depth differs from the encoded one by the difference between its fraction and the byte
that stands for the fractions of its class: by less than one step of the luma, and by less than a
255th of it for a cell that is alone in its class.
-/

set_option autoImplicit false

namespace Sqwar.Depth

open Data

variable {scalar maxDepth d f : ℚ} {vs : List ExactFloat} {first : Option UInt8} {isU : Bool}
  {rems : List ℚ} {w h x y i j : ℕ} {data : Floats}

/-! ### Remainder bytes -/

theorem remainderByte_floor (nonempty : rems ≠ []) (unit : ∀ f ∈ rems, 0 ≤ f ∧ f < 1) :
    0 ≤ rems.sum / rems.length ∧ rems.sum / rems.length < 1 ∧
      ((remainderByte rems).toNat : ℤ) = ⌊rems.sum / rems.length * 255⌋ := by
  obtain ⟨⟨low, lowMem, below⟩, high, highMem, above⟩ := sum_div_length_between nonempty
  have nonneg := (unit low lowMem).1.trans below
  have small := above.trans_lt (unit high highMem).2
  have pos : (0 : ℚ) < rems.length := Nat.cast_pos.mpr (List.length_pos_iff.mpr nonempty)
  refine ⟨nonneg, small, ?_⟩
  rw [remainderByte, if_pos pos]
  exact toNat_toByte (mul_nonneg nonneg (by norm_num)) (by linarith)

/-- A remainder byte stands for a fraction. -/
theorem remainderByte_lt_one (nonempty : rems ≠ []) (unit : ∀ f ∈ rems, 0 ≤ f ∧ f < 1) :
    0 ≤ ((remainderByte rems).toNat : ℚ) / 255 ∧ ((remainderByte rems).toNat : ℚ) / 255 < 1 := by
  obtain ⟨-, small, value⟩ := remainderByte_floor nonempty unit
  have floorLe := Int.floor_le (rems.sum / rems.length * 255)
  rw [← value, Int.cast_natCast] at floorLe
  refine ⟨by positivity, ?_⟩
  rw [div_lt_one (by norm_num)]
  linarith

/-- The byte of a single fraction is within a 255th of it. -/
theorem remainderByte_singleton (nonneg : 0 ≤ f) (small : f < 1) :
    |((remainderByte [f]).toNat : ℚ) / 255 - f| ≤ 1 / 255 := by
  obtain ⟨-, -, value⟩ := remainderByte_floor (List.cons_ne_nil f [])
    fun g member => by rw [List.mem_singleton.mp member]; exact ⟨nonneg, small⟩
  rw [List.sum_singleton, List.length_singleton, Nat.cast_one, div_one] at value
  have floorLe := Int.floor_le (f * 255)
  have ltFloor := Int.lt_floor_add_one (f * 255)
  rw [← value, Int.cast_natCast] at floorLe ltFloor
  rw [abs_le]
  constructor <;> linarith

/-! ### Cells -/

/-- The fractions of the cells that share a U or V byte with a depth. -/
def remainderClass (scalar : ℚ) (vs : List ExactFloat) (d : ℚ) : List ℚ :=
  remainders scalar (firstLuma scalar vs)
    (decide (firstLuma scalar vs = some (toByte (d * scalar)))) vs

theorem mem_remainders : f ∈ remainders scalar first isU vs ↔ ∃ d, .num d ∈ vs ∧
    decide (first = some (toByte (d * scalar))) = isU ∧ fraction (d * scalar) = f := by
  simp only [remainders, List.mem_filterMap]
  constructor
  · rintro ⟨v, member, inClass⟩
    cases v with
    | num d =>
      dsimp only at inClass
      split_ifs at inClass with same
      exact ⟨d, member, same, Option.some.inj inClass⟩
    | nan => cases inClass
    | inf _ => cases inClass
  · rintro ⟨d, member, inClass, rfl⟩
    exact ⟨.num d, member, if_pos inClass⟩

theorem firstLuma_isSome (member : .num d ∈ vs) : ∃ y0, firstLuma scalar vs = some y0 := by
  induction vs with
  | nil => cases member
  | cons v vs ih =>
    cases v with
    | num d' => exact ⟨_, rfl⟩
    | nan => exact ih ((List.mem_cons.mp member).resolve_left (by simp))
    | inf _ => exact ih ((List.mem_cons.mp member).resolve_left (by simp))

/-- A depth is decoded with the byte of its class. -/
theorem recoded_num (member : .num d ∈ block data w j i) {p : Pointer Buffer}
    (depth : data p = .num d) :
    recoded maxDepth w data j i p = .num (((toByte (d * (254 / maxDepth))).toNat +
      (remainderByte (remainderClass (254 / maxDepth) (block data w j i) d)).toNat / 255) *
        (maxDepth / 254)) := by
  obtain ⟨y0, isFirst⟩ := @firstLuma_isSome (254 / maxDepth) d _ member
  obtain ⟨uByte, vByte⟩ := bytes_encodeCells isFirst
  unfold recoded remainderClass
  dsimp only
  rw [depth, isFirst, uByte, vByte, decoded]
  by_cases same : some y0 = some (toByte (d * (254 / maxDepth)))
  · simp [same]
  · simp [same]

/-- **The error of a cell.** -/
theorem abs_recoded_sub (pos : 0 < maxDepth) (member : .num d ∈ block data w j i)
    (within : ∀ d', .num d' ∈ block data w j i → 0 ≤ d' ∧ d' ≤ maxDepth) {p : Pointer Buffer}
    (depth : data p = .num d) :
    ∃ d', recoded maxDepth w data j i p = .num d' ∧ |d' - d| < maxDepth / 254 ∧
      ((remainderClass (254 / maxDepth) (block data w j i) d).length = 1 →
        |d' - d| ≤ maxDepth / (254 * 255)) := by
  have step : 0 < maxDepth / 254 := div_pos pos (by norm_num)
  have inClass : fraction (d * (254 / maxDepth)) ∈
      remainderClass (254 / maxDepth) (block data w j i) d :=
    mem_remainders.mpr ⟨d, member, rfl, rfl⟩
  have unit : ∀ f ∈ remainderClass (254 / maxDepth) (block data w j i) d, 0 ≤ f ∧ f < 1 := by
    intro f inRems
    obtain ⟨d', member', -, rfl⟩ := mem_remainders.mp inRems
    have nonneg := (scaled_le pos (within d' member')).1
    exact ⟨fraction_nonneg nonneg, fraction_lt_one nonneg⟩
  refine ⟨_, recoded_num member depth, ?_⟩
  generalize remainderClass (254 / maxDepth) (block data w j i) d = rems at inClass unit
  -- the integer parts agree, so only the fractions differ
  have error : ((toByte (d * (254 / maxDepth))).toNat + ((remainderByte rems).toNat : ℚ) / 255) *
      (maxDepth / 254) - d =
        (((remainderByte rems).toNat : ℚ) / 255 - fraction (d * (254 / maxDepth))) *
          (maxDepth / 254) := by
    have scaled := scaled_le pos (within d member)
    have whole := truncate_add_fraction (d * (254 / maxDepth))
    have value := toByte_scaled pos (within d member)
    rw [truncate_of_nonneg scaled.1, ← value, Int.cast_natCast] at whole
    have back : d * (254 / maxDepth) * (maxDepth / 254) = d := by
      field_simp
    rw [← whole] at back
    linarith
  rw [error, abs_mul, abs_of_pos step]
  obtain ⟨fracNonneg, fracSmall⟩ := unit _ inClass
  constructor
  · obtain ⟨byteNonneg, byteSmall⟩ := remainderByte_lt_one (List.ne_nil_of_mem inClass) unit
    have lt : |((remainderByte rems).toNat : ℚ) / 255 - fraction (d * (254 / maxDepth))| < 1 := by
      rw [abs_lt]
      constructor <;> linarith
    exact mul_lt_of_lt_one_left step lt
  · intro alone
    obtain ⟨f, rfl⟩ := List.length_eq_one_iff.mp alone
    obtain rfl := List.mem_singleton.mp inClass
    calc |((remainderByte [fraction (d * (254 / maxDepth))]).toNat : ℚ) / 255 -
          fraction (d * (254 / maxDepth))| * (maxDepth / 254)
        ≤ 1 / 255 * (maxDepth / 254) :=
          mul_le_mul_of_nonneg_right (remainderByte_singleton fracNonneg fracSmall) step.le
      _ = maxDepth / (254 * 255) := by ring

/-! ### Images -/

theorem recoded_eq_nan_iff {p : Pointer Buffer} :
    recoded maxDepth w data j i p = .nan ↔ (data p).isNaN ∨ (data p).isInf := by
  unfold recoded
  cases data p <;> simp [decoded]

/-- **The error of the depth codec**, on sizes whose number of cells is an int (there
`Checked.convertDepthToYUV` is `convertDepthToYUV`). If the buffer holds depths within the limit,
NaN or infinities after the holes are filled, then decoding the planes gives NaN exactly where there
is no depth, and elsewhere a depth that is less than one step off, and at most a 255th of one for a
cell that is alone in its class. -/
theorem codec_error {B : Type*} [DecidableEq B] (pos : 0 < maxDepth) (evenW : Even w)
    (evenH : Even h) (m : Floats) (planes : Bytes) (depthData : Pointer B)
    (m' : Memory B ExactFloat)
    (within : ∀ x < w, ∀ y < h, WithinLimit maxDepth (fillHoles w h m (cell w x y))) :
    ∀ x < w, ∀ y < h,
      let filled := (convertDepthToYUV w h maxDepth m planes).1
      let result := convertYUVToDepth w h maxDepth (convertDepthToYUV w h maxDepth m planes).2
        depthData m' (depthData + (y * w + x))
      (result = .nan ↔ (filled (cell w x y)).isNaN ∨ (filled (cell w x y)).isInf) ∧
        ∀ d, filled (cell w x y) = .num d → ∃ d', result = .num d' ∧ |d' - d| < maxDepth / 254 ∧
          ((remainderClass (254 / maxDepth) (block filled w (x / 2) (y / 2)) d).length = 1 →
            |d' - d| ≤ maxDepth / (254 * 255)) := by
  intro x inRow y inColumn filled result
  have recode : result = recoded maxDepth w (fillHoles w h m) (x / 2) (y / 2) (cell w x y) :=
    convertYUVToDepth_encodePlanes pos evenW evenH within inRow inColumn m'
  rw [recode]
  refine ⟨recoded_eq_nan_iff, fun d depth => ?_⟩
  have member : .num d ∈ block (fillHoles w h m) w (x / 2) (y / 2) :=
    List.mem_map.mpr ⟨cell w x y, mem_quad.mpr ⟨x, y, rfl, rfl, rfl⟩, depth⟩
  refine abs_recoded_sub pos member (fun d' member' => ?_) depth
  obtain ⟨p, inQuad, depth'⟩ := List.mem_map.mp member'
  obtain ⟨x', y', column, row, rfl⟩ := mem_quad.mp inQuad
  have inside := (mem_blocks evenW evenH).mpr ⟨inRow, inColumn⟩
  rw [← column, ← row, mem_blocks evenW evenH] at inside
  have limit := within x' inside.1 y' inside.2
  unfold cell at limit
  rwa [depth'] at limit

/-- A depth of 1 and a hole in every two cells of the upper row, `v` and a depth of 7/2 below. -/
def scattered (v : ExactFloat) : Floats := fun p =>
  if p.offset < 16 then if p.offset % 2 = 0 then .num 1 else .nan
  else if p.offset % 2 = 0 then v else .num (7 / 2)

/-- In 16 columns the holes become zeros. -/
theorem fillHoles_scattered (v : ExactFloat) (inRow : x < 16) (inColumn : y < 2) :
    fillHoles 16 2 (scattered v) (cell 16 x y) =
      if (scattered v (cell 16 x y)).isNaN then .num 0 else scattered v (cell 16 x y) :=
  fillHoles_of_narrow (by decide) (by decide) (by decide) (by decide) _ inRow inColumn

theorem scattered_within {v : ExactFloat} (limit : WithinLimit 10 v) : ∀ x < 16, ∀ y < 2,
    WithinLimit 10 (fillHoles 16 2 (scattered v) (cell 16 x y)) := by
  intro x inRow y inColumn
  rw [fillHoles_scattered v inRow inColumn]
  split_ifs with hole
  · exact ⟨by norm_num, by norm_num⟩
  · unfold scattered
    split_ifs
    · exact ⟨by norm_num, by norm_num⟩
    · trivial
    · exact limit
    · exact ⟨by norm_num, by norm_num⟩

/-- In the second block, the depth of 1 is alone in its class, the hole and the depth of 7/2 share
the other one, and the infinity is missing. -/
theorem codec_error_scattered :
    let m := scattered (.inf true)
    let decoded := convertYUVToDepth 16 2 10 (convertDepthToYUV 16 2 10 m fun _ => 0).2
      (.base Buffer.data) m
    (∃ d', decoded (cell 16 2 0) = .num d' ∧ |d' - 1| ≤ 10 / (254 * 255)) ∧
      (∃ d', decoded (cell 16 3 0) = .num d' ∧ |d' - 0| < 10 / 254) ∧
      decoded (cell 16 2 1) = .nan ∧
      ∃ d', decoded (cell 16 3 1) = .num d' ∧ |d' - 7 / 2| < 10 / 254 := by
  intro m decoded
  have filled {x y : ℕ} : x < 16 → y < 2 → _ := @fillHoles_scattered x y (.inf true)
  have error := codec_error (w := 16) (h := 2) (show (0 : ℚ) < 10 by norm_num) (by decide)
    (by decide) m (fun _ => 0) (.base Buffer.data) m (scattered_within trivial)
  have one : fillHoles 16 2 m (cell 16 2 0) = .num 1 := filled (by decide) (by decide)
  have hole : fillHoles 16 2 m (cell 16 3 0) = .num 0 := filled (by decide) (by decide)
  have infinite : fillHoles 16 2 m (cell 16 2 1) = .inf true := filled (by decide) (by decide)
  have other : fillHoles 16 2 m (cell 16 3 1) = .num (7 / 2) := filled (by decide) (by decide)
  have vs : block (fillHoles 16 2 m) 16 1 0 = [.num 1, .num 0, .inf true, .num (7 / 2)] := by
    rw [← one, ← hole, ← infinite, ← other]
    rfl
  have alone : (remainderClass (254 / 10) (block (fillHoles 16 2 m) 16 1 0) 1).length = 1 := by
    rw [vs]
    decide +kernel
  obtain ⟨d₁, result₁, -, near₁⟩ := (error 2 (by decide) 0 (by decide)).2 1 one
  obtain ⟨d₂, result₂, near₂, -⟩ := (error 3 (by decide) 0 (by decide)).2 0 hole
  obtain ⟨d₃, result₃, near₃, -⟩ := (error 3 (by decide) 1 (by decide)).2 (7 / 2) other
  exact ⟨⟨d₁, result₁, near₁ alone⟩, ⟨d₂, result₂, near₂⟩,
    (error 2 (by decide) 1 (by decide)).1.mpr (.inr (congrArg ExactFloat.isInf infinite)),
    d₃, result₃, near₃⟩

end Sqwar.Depth
