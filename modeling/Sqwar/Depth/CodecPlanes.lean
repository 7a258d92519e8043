import Mathlib.Tactic.NormNum
import Sqwar.Depth.Codec

/-!
# Decoding the planes of the depth codec

The decoder finds the same luma first as the encoder, so it splits every block in the same way, from
the luma bytes alone. So each decoded cell is a function of the cell and its block.
-/

set_option autoImplicit false

namespace Sqwar.Depth

open Data

variable {scalar s u v : ℚ} {vs : List ExactFloat} {r : Remainders} {y y0 : UInt8} {d : ℚ}
  {first : Option UInt8} {isU : Bool}

/-! ### Blocks -/

/-- The luma byte of a cell. -/
def luma (scalar : ℚ) : ExactFloat → UInt8
  | .num d => toByte (d * scalar)
  | _ => 255

/-- The luma of the first cell with a depth. -/
def firstLuma (scalar : ℚ) : List ExactFloat → Option UInt8
  | [] => none
  | .num d :: _ => some (toByte (d * scalar))
  | _ :: vs => firstLuma scalar vs

/-- The fractions of the cells of a block whose luma is, or is not, the first one. -/
def remainders (scalar : ℚ) (first : Option UInt8) (isU : Bool) (vs : List ExactFloat) : List ℚ :=
  vs.filterMap fun
    | .num d =>
      if decide (first = some (toByte (d * scalar))) = isU then some (fraction (d * scalar))
      else none
    | _ => none

/-- The byte for the fractions of a class. -/
def remainderByte (rems : List ℚ) : UInt8 :=
  if (0 : ℚ) < rems.length then toByte (rems.sum / rems.length * 255) else 0

theorem encodeCell_u (inU : r.u_yval < 0 ∨ r.u_yval = (toByte (d * scalar)).toNat) :
    encodeCell scalar r (.num d) =
      (toByte (d * scalar), r.addU (fraction (d * scalar)) (toByte (d * scalar))) := if_pos inU

theorem encodeCell_v (inV : ¬ (r.u_yval < 0 ∨ r.u_yval = (toByte (d * scalar)).toNat)) :
    encodeCell scalar r (.num d) =
      (toByte (d * scalar), r.addV (fraction (d * scalar)) (toByte (d * scalar))) := if_neg inV

theorem fst_encodeCells (r : Remainders) (vs : List ExactFloat) :
    (encodeCells scalar r vs).1 = vs.map (luma scalar) := by
  induction vs generalizing r with
  | nil => rfl
  | cons v vs ih =>
    rw [encodeCells, List.map_cons]
    refine congrArg₂ List.cons ?_ (ih _)
    cases v with
    | num d =>
      rw [encodeCell]
      split_ifs <;> rfl
    | _ => rfl

theorem remainders_cons_first (same : first = some (toByte (d * scalar))) :
    remainders scalar first true (.num d :: vs) =
        fraction (d * scalar) :: remainders scalar first true vs ∧
      remainders scalar first false (.num d :: vs) = remainders scalar first false vs := by
  simp [remainders, same]

theorem remainders_cons_other (other : first ≠ some (toByte (d * scalar))) :
    remainders scalar first true (.num d :: vs) = remainders scalar first true vs ∧
      remainders scalar first false (.num d :: vs) =
        fraction (d * scalar) :: remainders scalar first false vs := by
  simp [remainders, other]

/-- The remainders after a block add up the fractions of the two classes. -/
structure Sums (r after : Remainders) (us vs : List ℚ) : Prop where
  u_remavg : after.u_remavg = r.u_remavg + us.sum
  u_remtot : after.u_remtot = r.u_remtot + us.length
  v_remavg : after.v_remavg = r.v_remavg + vs.sum
  v_remtot : after.v_remtot = r.v_remtot + vs.length

theorem Sums.addU {after : Remainders} {us vs : List ℚ} {rem : ℚ}
    (sums : Sums (r.addU rem y) after us vs) : Sums r after (rem :: us) vs where
  u_remavg := by rw [sums.u_remavg, List.sum_cons, ← add_assoc]; rfl
  u_remtot := by
    rw [sums.u_remtot, List.length_cons, Nat.cast_succ, add_comm (us.length : ℚ), ← add_assoc]
    rfl
  v_remavg := sums.v_remavg
  v_remtot := sums.v_remtot

theorem Sums.addV {after : Remainders} {us vs : List ℚ} {rem : ℚ}
    (sums : Sums (r.addV rem y) after us vs) : Sums r after us (rem :: vs) where
  u_remavg := sums.u_remavg
  u_remtot := sums.u_remtot
  v_remavg := by rw [sums.v_remavg, List.sum_cons, ← add_assoc]; rfl
  v_remtot := by
    rw [sums.v_remtot, List.length_cons, Nat.cast_succ, add_comm (vs.length : ℚ), ← add_assoc]
    rfl

/-- Once the first luma is known, every cell goes to its class. -/
theorem sums_encodeCells (known : r.u_yval = y0.toNat) :
    Sums r (encodeCells scalar r vs).2 (remainders scalar (some y0) true vs)
      (remainders scalar (some y0) false vs) := by
  induction vs generalizing r with
  | nil => exact ⟨by simp [encodeCells, remainders], by simp [encodeCells, remainders],
      by simp [encodeCells, remainders], by simp [encodeCells, remainders]⟩
  | cons v vs ih =>
    cases v with
    | num d =>
      by_cases same : y0 = toByte (d * scalar)
      -- the first luma again, and below another one
      · obtain ⟨us, vs'⟩ := @remainders_cons_first scalar vs d (some y0) (by rw [same])
        rw [us, vs', encodeCells, encodeCell_u (.inr (by rw [known, same]))]
        exact (ih (by rw [same]; rfl)).addU
      · obtain ⟨us, vs'⟩ := @remainders_cons_other scalar vs d (some y0) (by simpa using same)
        have other : ¬ (r.u_yval < 0 ∨ r.u_yval = (toByte (d * scalar)).toNat) := by
          rw [known, Int.natCast_inj, UInt8.toNat_inj]
          exact fun either => either.elim (by omega) same
        rw [us, vs', encodeCells, encodeCell_v other]
        exact (ih (by rw [← known]; rfl)).addV
    | nan => exact ih known
    | inf _ => exact ih known

/-- **The encoder's split.** The U byte stands for the fractions of the cells with the first luma,
the V byte for the others. -/
theorem bytes_encodeCells (isFirst : firstLuma scalar vs = some y0) :
    (encodeCells scalar .start vs).2.uByte =
        remainderByte (remainders scalar (some y0) true vs) ∧
      (encodeCells scalar .start vs).2.vByte =
        remainderByte (remainders scalar (some y0) false vs) := by
  -- The holes in front of the first depth change nothing.
  have sums : Sums .start (encodeCells scalar .start vs).2 (remainders scalar (some y0) true vs)
      (remainders scalar (some y0) false vs) := by
    induction vs with
    | nil => cases isFirst
    | cons v vs ih =>
      cases v with
      | num d =>
        obtain rfl := Option.some.inj isFirst
        obtain ⟨us, vs'⟩ := @remainders_cons_first scalar vs d _ rfl
        rw [us, vs', encodeCells, encodeCell_u (.inl (by decide))]
        exact (sums_encodeCells rfl).addU
      | nan => exact ih isFirst
      | inf _ => exact ih isFirst
  constructor
  · rw [Remainders.uByte, sums.u_remavg, sums.u_remtot, remainderByte]
    simp only [Remainders.start, zero_add, gt_iff_lt]
  · rw [Remainders.vByte, sums.v_remavg, sums.v_remtot, remainderByte]
    simp only [Remainders.start, zero_add, gt_iff_lt]

/-- What the decoder makes of a luma byte, given the first luma of its block. -/
def decodeByte (s u v : ℚ) (first : Option UInt8) (y : UInt8) : ExactFloat :=
  if y = 255 then .nan else .num ((y.toNat + if first = some y then u else v) * s)

/-- The luma that the decoder finds first. -/
def firstCode (ys : List UInt8) : Option UInt8 := ys.find? (· ≠ 255)

theorem decodeCells_of_known (ys : List UInt8) :
    decodeCells s u v y0.toNat ys = ys.map (decodeByte s u v (some y0)) := by
  induction ys with
  | nil => rfl
  | cons y ys ih =>
    have step : decodeCell s u v y0.toNat y = (decodeByte s u v (some y0) y, (y0.toNat : ℤ)) := by
      rw [decodeCell, decodeByte]
      by_cases missing : y = 255
      · rw [if_pos missing, if_pos missing]
      · rw [if_neg missing, if_neg missing]
        by_cases same : y0 = y
        · rw [if_pos (.inr (by rw [same])), if_pos (by rw [same]), same]
        · have other : ¬ ((y0.toNat : ℤ) < 0 ∨ (y0.toNat : ℤ) = y.toNat) := by
            rw [Int.natCast_inj, UInt8.toNat_inj]
            exact fun either => either.elim (by omega) same
          rw [if_neg other, if_neg (by simpa using same)]
    rw [decodeCells, step]
    exact congrArg _ ih

theorem decodeCells_eq (ys : List UInt8) :
    decodeCells s u v (-1) ys = ys.map (decodeByte s u v (firstCode ys)) := by
  induction ys with
  | nil => rfl
  | cons y ys ih =>
    by_cases missing : y = 255
    · have later : firstCode (y :: ys) = firstCode ys :=
        List.find?_cons_of_neg (by simp [missing])
      have step : decodeCell s u v (-1) y = (.nan, -1) := if_pos missing
      rw [later, decodeCells, step, List.map_cons, decodeByte, if_pos missing]
      exact congrArg _ ih
    · have first : firstCode (y :: ys) = some y := List.find?_cons_of_pos (by simpa using missing)
      have step : decodeCell s u v (-1) y = (.num ((y.toNat + u) * s), (y.toNat : ℤ)) := by
        rw [decodeCell, if_neg missing, if_pos (.inl (by decide))]
      rw [first, decodeCells, step, List.map_cons, decodeByte, if_neg missing, if_pos rfl]
      exact congrArg _ (decodeCells_of_known ys)

/-- What the decoder makes of a cell, given the first luma of its block. -/
def decoded (scalar s u v : ℚ) (first : Option UInt8) : ExactFloat → ExactFloat
  | .num d =>
    let y := toByte (d * scalar)
    .num ((y.toNat + if first = some y then u else v) * s)
  | _ => .nan

/-- No depth has the luma that marks a missing one. -/
def Encodable (scalar : ℚ) (vs : List ExactFloat) : Prop :=
  ∀ d, .num d ∈ vs → toByte (d * scalar) ≠ 255

theorem decodeByte_luma (encodable : Encodable scalar vs) {c : ExactFloat} (member : c ∈ vs) :
    decodeByte s u v first (luma scalar c) = decoded scalar s u v first c := by
  cases c with
  | num d => exact if_neg (encodable d member)
  | nan => rfl
  | inf _ => rfl

/-- **The decoder's split.** From the luma bytes alone, the decoder finds the luma that the encoder
found first. -/
theorem firstCode_luma (encodable : Encodable scalar vs) :
    firstCode (vs.map (luma scalar)) = firstLuma scalar vs := by
  induction vs with
  | nil => rfl
  | cons c vs ih =>
    have rest := ih fun d member => encodable d (List.mem_cons_of_mem _ member)
    cases c with
    | num d =>
      have valid : luma scalar (.num d) ≠ 255 := encodable d List.mem_cons_self
      exact List.find?_cons_of_pos (by simpa using valid)
    | nan => exact rest
    | inf _ => exact rest

/-! ### Planes -/

variable {w h x y i j : ℕ} {maxDepth : ℚ} {data : Floats} {planes : Bytes}

/-- The cells of a block. -/
def block (data : Floats) (w j i : ℕ) : List ExactFloat :=
  (quad (Pointer.base Buffer.data) w j i).map data

/-- The planes of a buffer without holes to fill. -/
def encodePlanes (w h : ℕ) (scalar : ℚ) (data : Floats) (planes : Bytes) : Bytes :=
  (blocks w h).foldl (fun planes (j, i) => write planes (encodeBlock w scalar data j i)) planes

theorem encodePlanes_eq_write : encodePlanes w h scalar data planes =
    write planes ((blocks w h).flatMap fun c => encodeBlock w scalar data c.1 c.2) :=
  foldl_write _ _ _

theorem mem_encodeBlock {p : Pointer Plane} {byte : UInt8} :
    (p, byte) ∈ encodeBlock w scalar data j i ↔
      (∃ x y, x / 2 = j ∧ y / 2 = i ∧ p = Pointer.base Plane.y + (y * w + x) ∧
        byte = luma scalar (data (Pointer.base Buffer.data + (y * w + x)))) ∨
      (p = Pointer.base Plane.u + i * (w / 2) + j ∧
        byte = (encodeCells scalar .start (block data w j i)).2.uByte) ∨
      (p = Pointer.base Plane.v + i * (w / 2) + j ∧
        byte = (encodeCells scalar .start (block data w j i)).2.vByte) := by
  have zipped := @mem_zip_quad Plane w Buffer UInt8 (.base .y) (.base .data) i j
    (luma scalar ∘ data) p byte
  simp only [Function.comp_apply] at zipped
  rw [encodeBlock, List.mem_append, fst_encodeCells, List.map_map, zipped]
  simp only [List.mem_cons, Prod.mk.injEq, List.not_mem_nil, or_false]
  rfl

/-- The luma plane, cell by cell. -/
theorem encodePlanes_y (evenW : Even w) (evenH : Even h) (inRow : x < w) (inColumn : y < h) :
    encodePlanes w h scalar data planes (Pointer.base Plane.y + (y * w + x)) =
      luma scalar (data (Pointer.base Buffer.data + (y * w + x))) := by
  rw [encodePlanes_eq_write]
  refine write_of_mem _ ?_ fun byte written => ?_
  · exact List.mem_flatMap.mpr ⟨(x / 2, y / 2), (mem_blocks evenW evenH).mpr ⟨inRow, inColumn⟩,
      mem_encodeBlock.mpr (.inl ⟨x, y, rfl, rfl, rfl, rfl⟩)⟩
  · obtain ⟨⟨j, i⟩, inBlocks, inBlock⟩ := List.mem_flatMap.mp written
    rcases mem_encodeBlock.mp inBlock with ⟨x', y', rfl, rfl, same, rfl⟩ | ⟨same, -⟩ | ⟨same, -⟩
    · rw [Pointer.add_inj.mp same]
    · exact absurd (congrArg Pointer.buffer same) (by simp)
    · exact absurd (congrArg Pointer.buffer same) (by simp)

/-- The U and V planes, block by block. -/
theorem encodePlanes_uv (scalar : ℚ) (data : Floats) (planes : Bytes) (evenW : Even w)
    (evenH : Even h) (inRow : x < w) (inColumn : y < h) :
    encodePlanes w h scalar data planes (Pointer.base Plane.u + y / 2 * (w / 2) + x / 2) =
        (encodeCells scalar .start (block data w (x / 2) (y / 2))).2.uByte ∧
      encodePlanes w h scalar data planes (Pointer.base Plane.v + y / 2 * (w / 2) + x / 2) =
        (encodeCells scalar .start (block data w (x / 2) (y / 2))).2.vByte := by
  have here := (mem_blocks evenW evenH).mpr ⟨inRow, inColumn⟩
  have narrow : x / 2 < w / 2 := Nat.div_lt_div_of_lt_of_dvd evenW.two_dvd inRow
  -- Each block has its own byte in the two planes.
  have block_inj : ∀ (plane : Plane) j i, (j, i) ∈ blocks w h →
      Pointer.base plane + y / 2 * (w / 2) + x / 2 = Pointer.base plane + i * (w / 2) + j →
      j = x / 2 ∧ i = y / 2 := by
    intro plane j i inBlocks same
    rw [Pointer.add_add, Pointer.add_add, Pointer.add_inj] at same
    obtain ⟨halfW, rfl⟩ := evenW
    have inside := (mem_grid.mp inBlocks).1
    obtain ⟨rfl, rfl⟩ := cell_inj narrow (show j < (halfW + halfW) / 2 by omega) same
    exact ⟨rfl, rfl⟩
  rw [encodePlanes_eq_write]
  constructor
  · refine write_of_mem _ (List.mem_flatMap.mpr ⟨_, here, mem_encodeBlock.mpr (.inr (.inl
      ⟨rfl, rfl⟩))⟩) fun byte written => ?_
    obtain ⟨⟨j, i⟩, inBlocks, inBlock⟩ := List.mem_flatMap.mp written
    rcases mem_encodeBlock.mp inBlock with ⟨x', y', -, -, same, -⟩ | ⟨same, rfl⟩ | ⟨same, -⟩
    · exact absurd (congrArg Pointer.buffer same) (by simp)
    · obtain ⟨rfl, rfl⟩ := block_inj _ j i inBlocks same
      rfl
    · exact absurd (congrArg Pointer.buffer same) (by simp)
  · refine write_of_mem _ (List.mem_flatMap.mpr ⟨_, here, mem_encodeBlock.mpr (.inr (.inr
      ⟨rfl, rfl⟩))⟩) fun byte written => ?_
    obtain ⟨⟨j, i⟩, inBlocks, inBlock⟩ := List.mem_flatMap.mp written
    rcases mem_encodeBlock.mp inBlock with ⟨x', y', -, -, same, -⟩ | ⟨same, -⟩ | ⟨same, rfl⟩
    · exact absurd (congrArg Pointer.buffer same) (by simp)
    · exact absurd (congrArg Pointer.buffer same) (by simp)
    · obtain ⟨rfl, rfl⟩ := block_inj _ j i inBlocks same
      rfl

/-- Nothing is written behind the planes of the image. -/
theorem encodePlanes_of_le (evenW : Even w) (evenH : Even h) {p : Pointer Plane}
    (luma : p.buffer = .y → w * h ≤ p.offset)
    (remainder : p.buffer ≠ .y → w / 2 * (h / 2) ≤ p.offset) :
    encodePlanes w h scalar data planes p = planes p := by
  -- The loops step by two up to the size, which is even.
  have narrow : (w + 1) / 2 = w / 2 := by
    obtain ⟨half, rfl⟩ := evenW
    omega
  have low : (h + 1) / 2 = h / 2 := by
    obtain ⟨half, rfl⟩ := evenH
    omega
  rw [encodePlanes_eq_write]
  refine write_of_notMem _ fun byte written => ?_
  obtain ⟨⟨j, i⟩, inBlocks, inBlock⟩ := List.mem_flatMap.mp written
  have ⟨column, row⟩ := mem_grid.mp inBlocks
  rw [narrow] at column
  rw [low] at row
  have cell := cell_lt column row
  rcases mem_encodeBlock.mp inBlock with ⟨x, y, rfl, rfl, rfl, -⟩ | ⟨rfl, -⟩ | ⟨rfl, -⟩
  · have inside := (mem_blocks evenW evenH).mp inBlocks
    have cell := cell_lt inside.1 inside.2
    have behind := luma rfl
    simp only [Pointer.add_offset, Pointer.base_offset] at behind
    omega
  · have behind := remainder (by simp)
    simp only [Pointer.add_offset, Pointer.base_offset] at behind
    omega
  · have behind := remainder (by simp)
    simp only [Pointer.add_offset, Pointer.base_offset] at behind
    omega

/-- The luma bytes of a block. -/
def codes (planes : Bytes) (w j i : ℕ) : List UInt8 :=
  (quad (Pointer.base Plane.y) w j i).map planes

theorem codes_encodePlanes (evenW : Even w) (evenH : Even h) (inRow : x < w) (inColumn : y < h) :
    codes (encodePlanes w h scalar data planes) w (x / 2) (y / 2) =
      (block data w (x / 2) (y / 2)).map (luma scalar) := by
  rw [codes, block, List.map_map]
  refine map_quad_congr fun x' y' column row => ?_
  have inside := (mem_blocks evenW evenH).mpr ⟨inRow, inColumn⟩
  rw [← column, ← row, mem_blocks evenW evenH] at inside
  exact encodePlanes_y evenW evenH inside.1 inside.2

/-- **A decoded cell**, whatever the planes hold. -/
theorem convertYUVToDepth_cell {B : Type*} [DecidableEq B] (evenW : Even w) (evenH : Even h)
    (inRow : x < w) (inColumn : y < h) (planes : Bytes) (depthData : Pointer B)
    (m : Memory B ExactFloat) :
    convertYUVToDepth w h maxDepth planes depthData m (depthData + (y * w + x)) =
      decodeByte (maxDepth / 254)
        ((planes (Pointer.base Plane.u + y / 2 * (w / 2) + x / 2)).toNat / 255)
        ((planes (Pointer.base Plane.v + y / 2 * (w / 2) + x / 2)).toNat / 255)
        (firstCode (codes planes w (x / 2) (y / 2)))
        (planes (Pointer.base Plane.y + (y * w + x))) := by
  have writes : convertYUVToDepth w h maxDepth planes depthData m = write m
      ((blocks w h).flatMap fun c => decodeBlock w (maxDepth / 254) planes depthData c.1 c.2) :=
    foldl_write _ _ _
  -- Cell by cell, a block is decoded with the luma found first in it.
  have cellwise : ∀ j i, decodeBlock w (maxDepth / 254) planes depthData j i =
      (quad depthData w j i).zip ((quad (Pointer.base Plane.y) w j i).map fun p =>
        decodeByte (maxDepth / 254) ((planes (Pointer.base Plane.u + i * (w / 2) + j)).toNat / 255)
          ((planes (Pointer.base Plane.v + i * (w / 2) + j)).toNat / 255)
          (firstCode (codes planes w j i)) (planes p)) := by
    intro j i
    rw [decodeBlock, decodeCells_eq, List.map_map]
    rfl
  rw [writes]
  have here := (mem_blocks evenW evenH).mpr ⟨inRow, inColumn⟩
  refine write_of_mem _ (List.mem_flatMap.mpr ⟨_, here, ?_⟩) fun v written => ?_
  · rw [cellwise, mem_zip_quad]
    exact ⟨x, y, rfl, rfl, rfl, rfl⟩
  · obtain ⟨⟨j, i⟩, inBlocks, inBlock⟩ := List.mem_flatMap.mp written
    rw [cellwise, mem_zip_quad] at inBlock
    obtain ⟨x', y', rfl, rfl, same, rfl⟩ := inBlock
    obtain ⟨inRow', -⟩ := (mem_blocks evenW evenH).mp inBlocks
    obtain ⟨rfl, rfl⟩ := cell_inj inRow inRow' (Pointer.add_inj.mp same)
    rfl

/-- A decoded cell depends on the bytes of the image only. -/
theorem convertYUVToDepth_congr {B B' : Type*} [DecidableEq B] [DecidableEq B'] (evenW : Even w)
    (evenH : Even h) (inRow : x < w) (inColumn : y < h) {planes planes' : Bytes}
    (luma : ∀ i < w * h, planes (Pointer.base Plane.y + i) = planes' (Pointer.base Plane.y + i))
    (uRem : ∀ i < w / 2 * (h / 2),
      planes (Pointer.base Plane.u + i) = planes' (Pointer.base Plane.u + i))
    (vRem : ∀ i < w / 2 * (h / 2),
      planes (Pointer.base Plane.v + i) = planes' (Pointer.base Plane.v + i))
    (depthData : Pointer B) (depthData' : Pointer B') (m : Memory B ExactFloat)
    (m' : Memory B' ExactFloat) :
    convertYUVToDepth w h maxDepth planes depthData m (depthData + (y * w + x)) =
      convertYUVToDepth w h maxDepth planes' depthData' m' (depthData' + (y * w + x)) := by
  have inBlock := cell_lt (Nat.div_lt_div_of_lt_of_dvd evenW.two_dvd inRow)
    (Nat.div_lt_div_of_lt_of_dvd evenH.two_dvd inColumn)
  have sameCodes : codes planes w (x / 2) (y / 2) = codes planes' w (x / 2) (y / 2) := by
    refine map_quad_congr fun x' y' column row => ?_
    have inside := (mem_blocks evenW evenH).mpr ⟨inRow, inColumn⟩
    rw [← column, ← row, mem_blocks evenW evenH] at inside
    exact luma _ (cell_lt inside.1 inside.2)
  rw [convertYUVToDepth_cell evenW evenH inRow inColumn,
    convertYUVToDepth_cell evenW evenH inRow inColumn, sameCodes, luma _ (cell_lt inRow inColumn),
    Pointer.add_add, Pointer.add_add, uRem _ inBlock, vRem _ inBlock]

/-! ### Depths within the limit -/

/-- Depths within the limit are encodable. -/
def WithinLimit (maxDepth : ℚ) : ExactFloat → Prop
  | .num d => 0 ≤ d ∧ d ≤ maxDepth
  | _ => True

theorem scaled_le (pos : 0 < maxDepth) (within : 0 ≤ d ∧ d ≤ maxDepth) :
    0 ≤ d * (254 / maxDepth) ∧ d * (254 / maxDepth) ≤ 254 := by
  have step : 0 < 254 / maxDepth := div_pos (by norm_num) pos
  refine ⟨mul_nonneg within.1 step.le, ?_⟩
  calc d * (254 / maxDepth) ≤ maxDepth * (254 / maxDepth) :=
        mul_le_mul_of_nonneg_right within.2 step.le
    _ = 254 := mul_div_cancel₀ 254 pos.ne'

theorem toByte_scaled (pos : 0 < maxDepth) (within : 0 ≤ d ∧ d ≤ maxDepth) :
    ((toByte (d * (254 / maxDepth))).toNat : ℤ) = ⌊d * (254 / maxDepth)⌋ := by
  obtain ⟨nonneg, le⟩ := scaled_le pos within
  exact toNat_toByte nonneg (le.trans_lt (by norm_num))

theorem toByte_scaled_ne (pos : 0 < maxDepth) (within : 0 ≤ d ∧ d ≤ maxDepth) :
    toByte (d * (254 / maxDepth)) ≠ 255 := by
  intro missing
  have value := toByte_scaled pos within
  have small : ⌊d * (254 / maxDepth)⌋ < 255 :=
    Int.floor_lt.mpr ((scaled_le pos within).2.trans_lt (by norm_num))
  rw [missing] at value
  have : ((255 : UInt8).toNat : ℤ) = 255 := rfl
  omega

theorem encodable_block (pos : 0 < maxDepth)
    (within : ∀ x y, x / 2 = j → y / 2 = i →
      WithinLimit maxDepth (data (Pointer.base Buffer.data + (y * w + x)))) :
    Encodable (254 / maxDepth) (block data w j i) := by
  intro d member
  obtain ⟨p, inQuad, depth⟩ := List.mem_map.mp member
  obtain ⟨x, y, column, row, rfl⟩ := mem_quad.mp inQuad
  have limit := within x y column row
  rw [depth] at limit
  exact toByte_scaled_ne pos limit

/-- What a cell becomes by way of the planes. -/
def recoded (maxDepth : ℚ) (w : ℕ) (data : Floats) (j i : ℕ) (p : Pointer Buffer) : ExactFloat :=
  let vs := block data w j i
  let r := (encodeCells (254 / maxDepth) .start vs).2
  decoded (254 / maxDepth) (maxDepth / 254) (r.uByte.toNat / 255) (r.vByte.toNat / 255)
    (firstLuma (254 / maxDepth) vs) (data p)

variable {B : Type*} {depthData : Pointer B}

/-- **A decoded cell.** -/
theorem convertYUVToDepth_encodePlanes [DecidableEq B] (pos : 0 < maxDepth) (evenW : Even w)
    (evenH : Even h)
    (within : ∀ x < w, ∀ y < h,
      WithinLimit maxDepth (data (Pointer.base Buffer.data + (y * w + x))))
    (inRow : x < w) (inColumn : y < h) (m : Memory B ExactFloat) :
    convertYUVToDepth w h maxDepth (encodePlanes w h (254 / maxDepth) data planes) depthData m
        (depthData + (y * w + x)) =
      recoded maxDepth w data (x / 2) (y / 2) (Pointer.base Buffer.data + (y * w + x)) := by
  have here := (mem_blocks evenW evenH).mpr ⟨inRow, inColumn⟩
  have encodable : Encodable (254 / maxDepth) (block data w (x / 2) (y / 2)) := by
    refine encodable_block pos fun x' y' column row => ?_
    rw [← column, ← row, mem_blocks evenW evenH] at here
    exact within x' here.1 y' here.2
  have member : data (Pointer.base Buffer.data + (y * w + x)) ∈ block data w (x / 2) (y / 2) :=
    List.mem_map_of_mem (mem_quad.mpr ⟨x, y, rfl, rfl, rfl⟩)
  obtain ⟨uByte, vByte⟩ := encodePlanes_uv (254 / maxDepth) data planes evenW evenH inRow inColumn
  rw [convertYUVToDepth_cell evenW evenH inRow inColumn, codes_encodePlanes evenW evenH inRow
    inColumn, encodePlanes_y evenW evenH inRow inColumn, uByte, vByte, firstCode_luma encodable,
    decodeByte_luma encodable member]
  rfl

end Sqwar.Depth
