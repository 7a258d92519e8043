import Sqwar.Depth.CodecError
import Sqwar.Depth.InBounds

/-!
# Depths beyond the limit

The luma of a depth is taken modulo 256, and nothing limits the depths before that. So a depth
beyond the limit is decoded as a far one, or as missing, only if its luma happens to be one of the
three largest bytes, or the next one below these together with the largest remainder. That remainder
takes a negative depth in the block.
-/

set_option autoImplicit false

namespace Sqwar.Depth

open Data Function

variable {m : Floats} {w h x y i j : ℕ} {p : Pointer Buffer} {maxDepth scalar s u v d q : ℚ}
  {code y0 : UInt8} {rems : List ℚ} {vs : List ExactFloat} {planes : Bytes} {data : Floats}

/-! ### Depths survive the filling of holes -/

theorem buildLevels_of_ne {dsrc dptr : Pointer Buffer} {dsw dw dh : ℕ}
    (other : p.buffer ≠ dptr.buffer) (m : Floats) :
    (buildLevels dsrc dptr dsw dw dh m).1 p = m p := by
  induction dw using Nat.strong_induction_on generalizing dsrc dptr dsw dh m with
  | _ dw ih =>
    rw [buildLevels]
    split_ifs
    · have elsewhere : ∀ i : ℕ, p ≠ dptr + i := by
        rintro i rfl
        exact other rfl
      rw [ih (dw / 2) (by omega) (show p.buffer ≠ (dptr + dw * dh).buffer from other)]
      exact foldl_of_kept (levelPass dsrc dptr dsw dw)
        (fun _ _ _ => update_of_ne (elsewhere _) _ _) m
    · rfl

theorem depthBuildLods_of_data {dbuf : Pointer Buffer} (data : p.buffer = .data) (m : Floats) :
    depthBuildLods dbuf (.base .lods) w h m p = m p := by
  have notLods : ∀ q : Pointer Buffer, q.buffer = .lods → p ≠ q := by
    rintro q lods rfl
    rw [data] at lods
    cases lods
  -- None of the three loops writes to the input.
  refine ((invertLods_spec _ _ _).2 p fun i _ => notLods _ rfl).trans ?_
  rw [buildLevels_of_ne (by rw [data]; decide)]
  exact foldl_of_kept (inversePass dbuf) (fun i _ _ => update_of_ne (by
    rintro rfl
    cases data) _ _) m

/-- Filling a level leaves what is there. -/
theorem depthFillEmpty_of_present {lod1 lod0 : Pointer Buffer} (present : m p ≠ .nan) :
    depthFillEmpty lod1 lod0 w h m p = m p := by
  refine List.foldlRecOn (motive := fun m' => m' p = m p) (grid w h) (fillPass lod1 lod0 w) rfl
    fun m' same c _ => ?_
  by_cases here : p = lod0 + (c.2 * w + c.1)
  · have number : (m' (lod0 + (c.2 * w + c.1))).isNaN = false := by
      rw [← here, same, ← Bool.not_eq_true, ExactFloat.isNaN_iff]
      exact present
    rw [fillPass, number]
    exact same
  · rw [fillPass_of_ne here, same]

/-- **Depths stay**, in buffers of any sizes. -/
theorem fillHoles_of_present (present : m (cell w x y) ≠ .nan) :
    fillHoles w h m (cell w x y) = m (cell w x y) := by
  have zeroed : zeroLods (lodTable w h).size m (cell w x y) = m (cell w x y) :=
    if_neg fun lods => absurd lods.1 (by simp [cell])
  have filled : fillLods (lodTable w h) (depthBuildLods (.base .data) (.base .lods) w h
      (zeroLods (lodTable w h).size m)) (cell w x y) = m (cell w x y) := by
    -- the fill loop writes to the levels, and the last pass only over holes
    rw [fillLods, foldl_of_kept, depthBuildLods_of_data rfl, zeroed]
    intro lodIdx _ m'
    refine depthFillEmpty_of_ne (fun i _ same => ?_) m'
    exact absurd (congrArg Pointer.buffer same) (by simp [cell])
  rw [fillHoles_eq, fillZeroed]
  exact (depthFillEmpty_of_present (by rwa [filled])).trans filled

/-! ### Cells beyond the limit -/

/-- The fractions whose byte the decoder adds to a luma. It passes over every luma of 255, so the
luma it finds first need not be the encoder's. -/
def addedRemainders (scalar : ℚ) (vs : List ExactFloat) (y : UInt8) : List ℚ :=
  remainders scalar (firstLuma scalar vs) (decide (firstCode (vs.map (luma scalar)) = some y)) vs

/-- A depth by way of the planes, whatever the other cells of its block hold. -/
theorem recoded_depth {B : Type*} [DecidableEq B] (evenW : Even w) (evenH : Even h) (inRow : x < w)
    (inColumn : y < h) (depth : data (cell w x y) = .num d) (depthData : Pointer B)
    (m' : Memory B ExactFloat) :
    convertYUVToDepth w h maxDepth (encodePlanes w h scalar data planes) depthData m'
        (depthData + (y * w + x)) =
      if toByte (d * scalar) = 255 then .nan
      else .num (((toByte (d * scalar)).toNat + (remainderByte (addedRemainders scalar
          (block data w (x / 2) (y / 2)) (toByte (d * scalar)))).toNat / 255) *
            (maxDepth / 254)) := by
  have member : .num d ∈ block data w (x / 2) (y / 2) :=
    List.mem_map.mpr ⟨cell w x y, mem_quad.mpr ⟨x, y, rfl, rfl, rfl⟩, depth⟩
  obtain ⟨y0, isFirst⟩ := @firstLuma_isSome scalar d _ member
  obtain ⟨uByte, vByte⟩ := bytes_encodeCells isFirst
  obtain ⟨uPlane, vPlane⟩ := encodePlanes_uv scalar data planes evenW evenH inRow inColumn
  rw [convertYUVToDepth_cell evenW evenH inRow inColumn, codes_encodePlanes evenW evenH inRow
    inColumn, encodePlanes_y evenW evenH inRow inColumn, uPlane, vPlane, uByte, vByte]
  unfold cell at depth
  rw [depth, luma, decodeByte, addedRemainders, isFirst]
  by_cases same : firstCode ((block data w (x / 2) (y / 2)).map (luma scalar)) =
      some (toByte (d * scalar))
  · simp only [same, if_true, decide_true]
  · simp only [same, if_false, decide_false]

/-- NaN, or within one step of the limit. -/
def StaysFar (maxDepth : ℚ) (v : ExactFloat) : Prop :=
  v = .nan ∨ ∃ q, v = .num q ∧ maxDepth - maxDepth / 254 ≤ q

theorem mean_remainders_between (rems : List ℚ) (small : ∀ f ∈ rems, -1 < f ∧ f < 1) :
    -1 < rems.sum / rems.length ∧ rems.sum / rems.length < 1 := by
  by_cases nonempty : rems = []
  · rw [nonempty]
    norm_num
  · obtain ⟨⟨low, lowMem, below⟩, high, highMem, above⟩ := sum_div_length_between nonempty
    exact ⟨(small low lowMem).1.trans_le below, above.trans_lt (small high highMem).2⟩

/-- The largest remainder byte stands for a mean just below zero. -/
theorem remainderByte_eq_255_iff (small : ∀ f ∈ rems, -1 < f ∧ f < 1) :
    remainderByte rems = 255 ↔
      -2 < rems.sum / rems.length * 255 ∧ rems.sum / rems.length * 255 ≤ -1 := by
  obtain ⟨above, below⟩ := mean_remainders_between rems small
  rw [remainderByte]
  split_ifs with some
  -- a byte of 255 is the truncated value -1, as the mean is less than 1
  · exact toByte_eq_255_iff (by linarith) (by linarith)
  · have none : rems.length = 0 := by simpa using some
    rw [none, Nat.cast_zero, div_zero, zero_mul]
    exact iff_of_false (by decide) fun negative => by linarith [negative.2]

/-- One step below the limit is the luma 253. -/
theorem far_iff (pos : 0 < maxDepth) {y r : ℕ} (byte : r ≤ 255) :
    maxDepth - maxDepth / 254 ≤ (y + (r : ℚ) / 255) * (maxDepth / 254) ↔
      253 ≤ y ∨ y = 252 ∧ r = 255 := by
  have step : 0 < maxDepth / 254 := div_pos pos (by norm_num)
  -- In steps of the luma, the limit is 254.
  have limit : maxDepth - maxDepth / 254 = 253 * (maxDepth / 254) := by ring
  rw [limit, mul_le_mul_iff_left₀ step]
  have scaled : (253 : ℚ) ≤ y + (r : ℚ) / 255 ↔ 253 * 255 ≤ y * 255 + r := by
    rw [← mul_le_mul_iff_left₀ (show (0 : ℚ) < 255 by norm_num), add_mul,
      div_mul_cancel₀ _ (by norm_num)]
    exact_mod_cast Iff.rfl
  rw [scaled]
  omega

/-- The luma, which is taken modulo 256, is one of the three largest bytes, or it is the next one
below them and the decoder adds a mean just below zero. -/
def LandsFar (maxDepth : ℚ) (vs : List ExactFloat) (d : ℚ) : Prop :=
  let y := ⌊d * (254 / maxDepth)⌋ % 256
  let rems := addedRemainders (254 / maxDepth) vs 252
  253 ≤ y ∨
    y = 252 ∧ -2 < rems.sum / rems.length * 255 ∧ rems.sum / rems.length * 255 ≤ -1

theorem luma_beyond (pos : 0 < maxDepth) (beyond : maxDepth < d) :
    ((toByte (d * (254 / maxDepth))).toNat : ℤ) = ⌊d * (254 / maxDepth)⌋ % 256 := by
  have nonneg : 0 ≤ d * (254 / maxDepth) :=
    mul_nonneg (pos.trans beyond).le (div_nonneg (by norm_num) pos.le)
  rw [toNat_toByte_eq_emod, truncate_of_nonneg nonneg]

theorem addedRemainders_between (scalar : ℚ) (vs : List ExactFloat) (code : UInt8) :
    ∀ f ∈ addedRemainders scalar vs code, -1 < f ∧ f < 1 := by
  intro f member
  obtain ⟨d, -, -, rfl⟩ := mem_remainders.mp member
  exact fraction_between _

/-- **When a depth beyond the limit stays far.** In any buffer (with a number of cells that is an
int), a depth beyond the limit is decoded as missing or as a depth within one step of the limit if
and only if its luma happens to be large enough. -/
theorem staysFar_iff_landsFar {B : Type*} [DecidableEq B] (pos : 0 < maxDepth) (evenW : Even w)
    (evenH : Even h) (m : Floats) (planes : Bytes) (depthData : Pointer B)
    (m' : Memory B ExactFloat) (inRow : x < w) (inColumn : y < h)
    (depth : m (cell w x y) = .num d) (beyond : maxDepth < d) :
    StaysFar maxDepth (convertYUVToDepth w h maxDepth (convertDepthToYUV w h maxDepth m planes).2
        depthData m' (depthData + (y * w + x))) ↔
      LandsFar maxDepth (block (fillHoles w h m) w (x / 2) (y / 2)) d := by
  -- The cell itself is no hole, so its luma is that of the depth.
  have filled : fillHoles w h m (cell w x y) = .num d := by
    rw [fillHoles_of_present (by rw [depth]; simp), depth]
  have recode := @recoded_depth w h x y maxDepth (254 / maxDepth) d planes _ _ _ evenW evenH inRow
    inColumn filled depthData m'
  have byte := luma_beyond pos beyond
  change StaysFar maxDepth (convertYUVToDepth w h maxDepth
    (encodePlanes w h (254 / maxDepth) (fillHoles w h m) planes) _ _ _) ↔ _
  rw [recode, LandsFar, ← byte]
  by_cases missing : toByte (d * (254 / maxDepth)) = 255
  · rw [if_pos missing, missing]
    exact iff_of_true (.inl rfl) (.inl (by decide))
  · have near : ∀ code, (remainderByte (addedRemainders (254 / maxDepth)
        (block (fillHoles w h m) w (x / 2) (y / 2)) code)).toNat ≤ 255 := fun _ =>
      Nat.le_of_lt_succ (UInt8.toNat_lt _)
    rw [if_neg missing, StaysFar]
    simp only [reduceCtorEq, false_or, ExactFloat.num.injEq, exists_eq_left', far_iff pos (near _)]
    -- only a luma of 252 needs the largest remainder
    have largest := remainderByte_eq_255_iff (addedRemainders_between (254 / maxDepth)
      (block (fillHoles w h m) w (x / 2) (y / 2)) 252)
    rw [← UInt8.toNat_inj] at largest
    refine or_congr (by norm_cast) ⟨?_, ?_⟩
    · rintro ⟨next, byte⟩
      have code : toByte (d * (254 / maxDepth)) = 252 := UInt8.toNat_inj.mp next
      rw [code] at byte
      exact ⟨by rw [next]; rfl, largest.mp byte⟩
    · rintro ⟨next, mean⟩
      have code : toByte (d * (254 / maxDepth)) = 252 := UInt8.toNat_inj.mp (by exact_mod_cast next)
      rw [code]
      exact ⟨rfl, largest.mpr mean⟩

/-! ### Two depths -/

/-- A depth everywhere. -/
def flat (d : ℚ) : Floats := fun _ => .num d

/-- A depth of 10.01 keeps its luma of 254. -/
theorem staysFar_slightlyBeyond : StaysFar 10 (convertYUVToDepth 16 2 10
    (convertDepthToYUV 16 2 10 (flat (1001 / 100)) fun _ => 0).2 (.base Buffer.data) (flat 0)
      (Pointer.base Buffer.data + (1 * 16 + 3))) := by
  refine (staysFar_iff_landsFar (by norm_num) (by decide) (by decide) (flat (1001 / 100)) _ _ _
    (by decide) (by decide) rfl (by norm_num)).mpr (.inl ?_)
  have whole : ⌊(1001 / 100 : ℚ) * (254 / 10)⌋ = 254 := by norm_num [Int.floor_eq_iff]
  rw [whole]
  decide

/-- A depth of 11 has a luma of 279, which is stored as 23. -/
theorem not_staysFar_eleven : (10 : ℚ) < 11 ∧ ¬ StaysFar 10 (convertYUVToDepth 16 2 10
    (convertDepthToYUV 16 2 10 (flat 11) fun _ => 0).2 (.base Buffer.data) (flat 0)
      (Pointer.base Buffer.data + (1 * 16 + 3))) := by
  have filled : fillHoles 16 2 (flat 11) (cell 16 3 1) = .num 11 :=
    fillHoles_of_present (by simp [flat])
  have byte : toByte ((11 : ℚ) * (254 / 10)) = 23 := by
    have whole : ⌊(11 : ℚ) * (254 / 10)⌋ = 279 := by norm_num [Int.floor_eq_iff]
    have value := @luma_beyond 10 11 (by norm_num) (by norm_num)
    rw [whole] at value
    exact UInt8.toNat_inj.mp (by exact_mod_cast value)
  refine ⟨by norm_num, ?_⟩
  change ¬ StaysFar 10 (convertYUVToDepth 16 2 10
    (encodePlanes 16 2 (254 / 10) (fillHoles 16 2 (flat 11)) fun _ => 0) _ _ _)
  rw [recoded_depth (by decide) (by decide) (by decide) (by decide) filled, byte]
  rintro (missing | ⟨q, same, far⟩)
  · cases missing
  · obtain rfl := ExactFloat.num.inj same
    rw [far_iff (by norm_num) (Nat.le_of_lt_succ (UInt8.toNat_lt _))] at far
    rcases far with large | ⟨next, -⟩
    · exact absurd large (by decide)
    · exact absurd next (by decide)

end Sqwar.Depth
