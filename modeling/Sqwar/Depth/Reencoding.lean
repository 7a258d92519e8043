import Sqwar.Depth.Aliasing

/-!
# Encoding decoded depths

A decoded depth has the luma that it was decoded from, and its fraction is that of its U or V byte.
So when a decoded block is encoded again, it is split in the same way, and all fractions of a class
are equal: their mean is the fraction of the byte, and truncation gives the byte back.
-/

set_option autoImplicit false

namespace Sqwar.Depth

open Data

variable {maxDepth d u v : ℚ} {first : Option UInt8} {isU : Bool} {rems : List ℚ}
  {vs : List ExactFloat} {m : Floats} {w h x y i j : ℕ} {planes : Bytes}

/-! ### Bytes of equal fractions -/

/-- A remainder byte stands for a fraction, whether or not its class has cells. -/
theorem remainderByte_unit (unit : ∀ f ∈ rems, 0 ≤ f ∧ f < 1) :
    0 ≤ ((remainderByte rems).toNat : ℚ) / 255 ∧ ((remainderByte rems).toNat : ℚ) / 255 < 1 := by
  by_cases empty : rems = []
  · have zero : remainderByte rems = 0 := by simp [remainderByte, empty]
    rw [zero]
    norm_num
  · exact remainderByte_lt_one empty unit

theorem toByte_toNat (byte : UInt8) : toByte byte.toNat = byte := by
  refine UInt8.toNat_inj.mp ?_
  have value := toNat_toByte (q := byte.toNat) (Nat.cast_nonneg _)
    (by exact_mod_cast UInt8.toNat_lt byte)
  rw [Int.floor_natCast] at value
  exact_mod_cast value

/-- Equal fractions of a byte give the byte back. -/
theorem remainderByte_replicate (n : ℕ) (byte : UInt8) :
    remainderByte (List.replicate n ((byte.toNat : ℚ) / 255)) = if n = 0 then 0 else byte := by
  rw [remainderByte, List.sum_replicate, List.length_replicate, nsmul_eq_mul]
  by_cases none : n = 0
  · simp [none]
  · have pos : (0 : ℚ) < n := Nat.cast_pos.mpr (Nat.pos_of_ne_zero none)
    rw [if_pos pos, if_neg none, mul_div_cancel_left₀ _ pos.ne', div_mul_cancel₀ _ (by norm_num),
      toByte_toNat]

/-- The byte of a class is what encoding its own fraction again makes of it. -/
theorem remainderByte_again (rems : List ℚ) :
    remainderByte (rems.map fun _ => ((remainderByte rems).toNat : ℚ) / 255) =
      remainderByte rems := by
  rw [List.map_const', remainderByte_replicate]
  split
  · rename_i none
    rw [List.length_eq_zero_iff.mp none]
    simp [remainderByte]
  · rfl

/-! ### Decoded blocks -/

/-- A luma byte with a fraction, scaled to a depth and back. -/
theorem rescaled (pos : 0 < maxDepth) (byte : UInt8) {f : ℚ} (unit : 0 ≤ f ∧ f < 1) :
    toByte ((byte.toNat + f) * (maxDepth / 254) * (254 / maxDepth)) = byte ∧
      fraction ((byte.toNat + f) * (maxDepth / 254) * (254 / maxDepth)) = f := by
  have back : (byte.toNat + f) * (maxDepth / 254) * (254 / maxDepth) = byte.toNat + f := by
    field_simp
  have nonneg : (0 : ℚ) ≤ byte.toNat + f := add_nonneg (Nat.cast_nonneg _) unit.1
  have floor : ⌊(byte.toNat : ℚ) + f⌋ = byte.toNat := by
    rw [Int.floor_natCast_add, Int.floor_eq_zero_iff.mpr ⟨unit.1, unit.2⟩, add_zero]
  have small : (byte.toNat : ℚ) + f < 256 := by
    have : (byte.toNat : ℚ) ≤ 255 := by exact_mod_cast Nat.le_of_lt_succ (UInt8.toNat_lt byte)
    linarith [unit.2]
  rw [back]
  constructor
  · refine UInt8.toNat_inj.mp ?_
    have value := toNat_toByte nonneg small
    rw [floor] at value
    exact_mod_cast value
  · rw [fraction, truncate_of_nonneg nonneg, floor]
    push_cast
    ring

/-- What is decoded is encoded with the luma that it had. -/
theorem luma_decoded (pos : 0 < maxDepth) (unitU : 0 ≤ u ∧ u < 1) (unitV : 0 ≤ v ∧ v < 1)
    (first : Option UInt8) (c : ExactFloat) :
    luma (254 / maxDepth) (decoded (254 / maxDepth) (maxDepth / 254) u v first c) =
      luma (254 / maxDepth) c := by
  cases c with
  | num d =>
    refine (rescaled pos _ ?_).1
    split
    · exact unitU
    · exact unitV
  | nan => rfl
  | inf _ => rfl

theorem firstLuma_decoded (pos : 0 < maxDepth) (unitU : 0 ≤ u ∧ u < 1) (unitV : 0 ≤ v ∧ v < 1)
    (first : Option UInt8) (vs : List ExactFloat) :
    firstLuma (254 / maxDepth)
        (vs.map (decoded (254 / maxDepth) (maxDepth / 254) u v first)) =
      firstLuma (254 / maxDepth) vs := by
  induction vs with
  | nil => rfl
  | cons c vs ih =>
    cases c with
    | num d => exact congrArg some (luma_decoded pos unitU unitV first (.num d))
    | nan => exact ih
    | inf _ => exact ih

/-- The decoded cells of a class have the fraction of its byte. -/
theorem remainders_decoded (pos : 0 < maxDepth) (unitU : 0 ≤ u ∧ u < 1) (unitV : 0 ≤ v ∧ v < 1)
    (first : Option UInt8) (isU : Bool) (vs : List ExactFloat) :
    remainders (254 / maxDepth) first isU
        (vs.map (decoded (254 / maxDepth) (maxDepth / 254) u v first)) =
      (remainders (254 / maxDepth) first isU vs).map fun _ => if isU then u else v := by
  rw [remainders, remainders, List.filterMap_map, List.map_filterMap]
  refine List.filterMap_congr fun c _ => ?_
  cases c with
  | num d =>
    have unit : 0 ≤ (if first = some (toByte (d * (254 / maxDepth))) then u else v) ∧
        (if first = some (toByte (d * (254 / maxDepth))) then u else v) < 1 := by
      split
      · exact unitU
      · exact unitV
    obtain ⟨sameLuma, itsFraction⟩ := rescaled pos (toByte (d * (254 / maxDepth))) unit
    simp only [Function.comp_apply, decoded, sameLuma, itsFraction]
    by_cases same : first = some (toByte (d * (254 / maxDepth))) <;> cases isU <;> simp [same]
  | nan => rfl
  | inf _ => rfl

/-- A block that has been encoded and decoded. -/
def codedBlock (maxDepth : ℚ) (vs : List ExactFloat) : List ExactFloat :=
  let r := (encodeCells (254 / maxDepth) .start vs).2
  vs.map (decoded (254 / maxDepth) (maxDepth / 254) (r.uByte.toNat / 255) (r.vByte.toNat / 255)
    (firstLuma (254 / maxDepth) vs))

/-- **A decoded block is encoded as before.** -/
theorem encodeCells_codedBlock (pos : 0 < maxDepth) (measured : ∃ d, .num d ∈ vs)
    (within : ∀ d, .num d ∈ vs → 0 ≤ d ∧ d ≤ maxDepth) :
    (codedBlock maxDepth vs).map (luma (254 / maxDepth)) = vs.map (luma (254 / maxDepth)) ∧
      (encodeCells (254 / maxDepth) .start (codedBlock maxDepth vs)).2.uByte =
        (encodeCells (254 / maxDepth) .start vs).2.uByte ∧
      (encodeCells (254 / maxDepth) .start (codedBlock maxDepth vs)).2.vByte =
        (encodeCells (254 / maxDepth) .start vs).2.vByte := by
  obtain ⟨d, member⟩ := measured
  obtain ⟨y0, isFirst⟩ := @firstLuma_isSome (254 / maxDepth) d _ member
  obtain ⟨uByte, vByte⟩ := bytes_encodeCells isFirst
  have unit : ∀ isU, ∀ f ∈ remainders (254 / maxDepth) (some y0) isU vs, 0 ≤ f ∧ f < 1 := by
    intro isU f inRems
    obtain ⟨d', member', -, rfl⟩ := mem_remainders.mp inRems
    have nonneg := (scaled_le pos (within d' member')).1
    exact ⟨fraction_nonneg nonneg, fraction_lt_one nonneg⟩
  have unitU := remainderByte_unit (unit true)
  have unitV := remainderByte_unit (unit false)
  rw [← uByte] at unitU
  rw [← vByte] at unitV
  have isFirst' : firstLuma (254 / maxDepth) (codedBlock maxDepth vs) = some y0 := by
    rw [← isFirst]
    exact firstLuma_decoded pos unitU unitV _ vs
  obtain ⟨uByte', vByte'⟩ := bytes_encodeCells isFirst'
  refine ⟨?_, ?_, ?_⟩
  · rw [codedBlock, List.map_map]
    exact List.map_congr_left fun c _ => luma_decoded pos unitU unitV _ c
  · rw [uByte', codedBlock, isFirst, remainders_decoded pos unitU unitV, if_pos rfl, uByte,
      remainderByte_again]
  · rw [vByte', codedBlock, isFirst, remainders_decoded pos unitU unitV, if_neg (by decide), vByte,
      remainderByte_again]

/-! ### Images -/

/-- A cell without the luma that marks a missing depth has a depth. -/
theorem exists_num_of_luma {scalar : ℚ} {c : ExactFloat} (present : luma scalar c ≠ 255) :
    ∃ d, c = .num d := by
  cases c with
  | num d => exact ⟨d, rfl⟩
  | nan => exact absurd rfl present
  | inf _ => exact absurd rfl present

/-- The planes of an image without missing depths, decoded and encoded again. -/
def reencoded (w h : ℕ) (maxDepth : ℚ) (data : Floats) (planes : Bytes) (m' : Floats)
    (planes' : Bytes) : Bytes :=
  encodePlanes w h (254 / maxDepth) (fillHoles w h (convertYUVToDepth w h maxDepth
    (encodePlanes w h (254 / maxDepth) data planes) (.base Buffer.data) m')) planes'

section Image

variable {data : Floats} (pos : 0 < maxDepth) (evenW : Even w) (evenH : Even h)
  (within : ∀ x < w, ∀ y < h, WithinLimit maxDepth (data (cell w x y)))
  (depths : ∀ x < w, ∀ y < h, ∃ d, data (cell w x y) = .num d) (planes : Bytes) (m' : Floats)

include pos evenW evenH within depths

/-- The decoded image has no holes to fill. -/
theorem fillHoles_decoded (inRow : x < w) (inColumn : y < h) :
    fillHoles w h (convertYUVToDepth w h maxDepth (encodePlanes w h (254 / maxDepth) data planes)
        (.base Buffer.data) m') (cell w x y) =
      recoded maxDepth w data (x / 2) (y / 2) (cell w x y) := by
  have decodedCell : convertYUVToDepth w h maxDepth
      (encodePlanes w h (254 / maxDepth) data planes) (.base Buffer.data) m' (cell w x y) = _ :=
    convertYUVToDepth_encodePlanes pos evenW evenH within inRow inColumn m'
  obtain ⟨d, depth⟩ := depths x inRow y inColumn
  rw [fillHoles_of_present, decodedCell]
  · rfl
  · unfold cell at depth
    rw [decodedCell, recoded, depth]
    nofun

/-- Its blocks are those that have been encoded and decoded. -/
theorem block_decoded (inRow : x < w) (inColumn : y < h) :
    block (fillHoles w h (convertYUVToDepth w h maxDepth
        (encodePlanes w h (254 / maxDepth) data planes) (.base Buffer.data) m')) w (x / 2) (y / 2) =
      codedBlock maxDepth (block data w (x / 2) (y / 2)) := by
  rw [codedBlock, block, block, List.map_map]
  refine map_quad_congr fun x' y' column row => ?_
  have inside := (mem_blocks evenW evenH).mpr ⟨inRow, inColumn⟩
  rw [← column, ← row, mem_blocks evenW evenH] at inside
  have filled := fillHoles_decoded pos evenW evenH within depths planes m' inside.1 inside.2
  rw [column, row] at filled
  exact filled

/-- The bytes of a cell and its block. -/
theorem reencoded_cell (planes' : Bytes) (inRow : x < w) (inColumn : y < h) :
    let first := encodePlanes w h (254 / maxDepth) data planes
    let again := reencoded w h maxDepth data planes m' planes'
    again (Pointer.base Plane.y + (y * w + x)) = first (Pointer.base Plane.y + (y * w + x)) ∧
      again (Pointer.base Plane.u + y / 2 * (w / 2) + x / 2) =
        first (Pointer.base Plane.u + y / 2 * (w / 2) + x / 2) ∧
      again (Pointer.base Plane.v + y / 2 * (w / 2) + x / 2) =
        first (Pointer.base Plane.v + y / 2 * (w / 2) + x / 2) := by
  intro first again
  have member : data (cell w x y) ∈ block data w (x / 2) (y / 2) :=
    List.mem_map_of_mem (mem_quad.mpr ⟨x, y, rfl, rfl, rfl⟩)
  obtain ⟨d, depth⟩ := depths x inRow y inColumn
  rw [depth] at member
  have limits : ∀ d', .num d' ∈ block data w (x / 2) (y / 2) → 0 ≤ d' ∧ d' ≤ maxDepth := by
    intro d' member'
    obtain ⟨p, inQuad, depth'⟩ := List.mem_map.mp member'
    obtain ⟨x', y', column, row, rfl⟩ := mem_quad.mp inQuad
    have inside := (mem_blocks evenW evenH).mpr ⟨inRow, inColumn⟩
    rw [← column, ← row, mem_blocks evenW evenH] at inside
    have limit := within x' inside.1 y' inside.2
    unfold cell at limit
    rwa [depth'] at limit
  obtain ⟨lumas, uByte, vByte⟩ := encodeCells_codedBlock pos ⟨d, member⟩ limits
  rw [← block_decoded pos evenW evenH within depths planes m' inRow inColumn] at lumas uByte vByte
  obtain ⟨u, v⟩ := encodePlanes_uv (254 / maxDepth) data planes evenW evenH inRow inColumn
  obtain ⟨u', v'⟩ := encodePlanes_uv (254 / maxDepth) _ planes' evenW evenH inRow inColumn
  refine ⟨?_, (u'.trans uByte).trans u.symm, (v'.trans vByte).trans v.symm⟩
  have codes_eq : codes again w (x / 2) (y / 2) = codes first w (x / 2) (y / 2) :=
    (codes_encodePlanes evenW evenH inRow inColumn).trans
      (lumas.trans (codes_encodePlanes evenW evenH inRow inColumn).symm)
  exact List.map_inj_left.mp codes_eq _ (mem_quad.mpr ⟨x, y, rfl, rfl, rfl⟩)

end Image

/-- **Encoding a decoded frame again loses nothing**, where the number of cells is an int, so that
both conversions end. If the filled buffer holds depths within the limit and no luma byte marks a
missing one, decoding the planes and encoding the result gives the same planes. -/
theorem reencode_eq (pos : 0 < maxDepth) (evenW : Even w) (evenH : Even h) (m : Floats)
    (planes : Bytes) (m' : Floats) (planes' : Bytes)
    (within : ∀ x < w, ∀ y < h, WithinLimit maxDepth (fillHoles w h m (cell w x y)))
    (present : ∀ i < w * h,
      (convertDepthToYUV w h maxDepth m planes).2 (Pointer.base Plane.y + i) ≠ 255) :
    let first := (convertDepthToYUV w h maxDepth m planes).2
    let decoded := convertYUVToDepth w h maxDepth first (.base Buffer.data) m'
    let again := (convertDepthToYUV w h maxDepth decoded planes').2
    (∀ i < w * h, again (Pointer.base Plane.y + i) = first (Pointer.base Plane.y + i)) ∧
      ∀ i < w / 2 * (h / 2),
        again (Pointer.base Plane.u + i) = first (Pointer.base Plane.u + i) ∧
          again (Pointer.base Plane.v + i) = first (Pointer.base Plane.v + i) := by
  intro first decoded again
  have depths : ∀ x < w, ∀ y < h, ∃ d, fillHoles w h m (cell w x y) = .num d := by
    intro x inRow y inColumn
    have byte : first (Pointer.base Plane.y + (y * w + x)) = luma (254 / maxDepth) _ :=
      encodePlanes_y evenW evenH inRow inColumn
    exact exists_num_of_luma (byte.symm.trans_ne (present _ (cell_lt inRow inColumn)))
  have same := fun x (inRow : x < w) y (inColumn : y < h) =>
    reencoded_cell pos evenW evenH within depths planes m' planes' inRow inColumn
  constructor
  · intro i inside
    obtain ⟨x, y, inRow, inColumn, rfl⟩ := exists_cell inside
    exact (same x inRow y inColumn).1
  · intro i inside
    obtain ⟨j, k, inRow, inColumn, rfl⟩ := exists_cell inside
    -- the first cell of the block
    have here := (same (j * 2) (by omega) (k * 2) (by omega)).2
    rw [Nat.mul_div_cancel _ two_pos, Nat.mul_div_cancel _ two_pos] at here
    simp only [Pointer.add_add] at here
    exact here

/-- The filled holes and three depths in each block have four lumas. -/
theorem reencode_scattered :
    let m := scattered (.num 9)
    let first := (convertDepthToYUV 16 2 10 m fun _ => 0).2
    let again := (convertDepthToYUV 16 2 10 (convertYUVToDepth 16 2 10 first (.base Buffer.data) m)
      fun _ => 1).2
    (∀ i < 32, again (Pointer.base Plane.y + i) = first (Pointer.base Plane.y + i)) ∧
      ∀ i < 8, again (Pointer.base Plane.u + i) = first (Pointer.base Plane.u + i) ∧
        again (Pointer.base Plane.v + i) = first (Pointer.base Plane.v + i) := by
  have limit : WithinLimit 10 (.num 9) := ⟨by norm_num, by norm_num⟩
  refine reencode_eq (by norm_num) (by decide) (by decide) (scattered (.num 9)) (fun _ => 0) _
    (fun _ => 1) (scattered_within limit) fun i inside => ?_
  obtain ⟨x, y, inRow, inColumn, rfl⟩ := exists_cell inside
  have byte : (convertDepthToYUV 16 2 10 (scattered (.num 9)) fun _ => 0).2
      (Pointer.base Plane.y + (y * 16 + x)) =
        luma (254 / 10) (fillHoles 16 2 (scattered (.num 9)) (cell 16 x y)) :=
    encodePlanes_y (by decide) (by decide) inRow inColumn
  -- a hole is filled with a zero, and the other cells have depths
  obtain ⟨d, depth⟩ : ∃ d, fillHoles 16 2 (scattered (.num 9)) (cell 16 x y) = .num d := by
    rw [fillHoles_scattered (.num 9) inRow inColumn]
    split_ifs with hole
    · exact ⟨0, rfl⟩
    · unfold scattered at hole ⊢
      split_ifs at hole ⊢
      · exact ⟨1, rfl⟩
      · exact absurd rfl hole
      · exact ⟨9, rfl⟩
      · exact ⟨7 / 2, rfl⟩
  have within := scattered_within limit x inRow y inColumn
  rw [depth] at within
  rw [byte, depth]
  exact toByte_scaled_ne (by norm_num) within

end Sqwar.Depth
