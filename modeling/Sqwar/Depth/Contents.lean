import Sqwar.Depth.InBounds

/-!
# What `DepthBuildLods` leaves

For depths, NaNs and infinities of any sizes whose product is an int, the levels of the pyramid are
the nested means of the inverse depths, inverted. They lie one behind the other, and nothing else is
touched but the input, which is read, and the vector of the inverse depths.
-/

set_option autoImplicit false

namespace Sqwar.Depth

open Data Function

variable {m m' : Floats} {dbuf : Pointer Buffer} {w h k x y : ℕ}

/-- A depth that is not there. -/
def Missing (v : ExactFloat) : Prop := v.isNaN ∨ v.isInf

/-- An input of positive depths, NaNs and infinities. -/
def DepthsAndHoles (m : Floats) (dbuf : Pointer Buffer) (w h : ℕ) : Prop :=
  ∀ i < w * h, Missing (m (dbuf + i)) ∨ ∃ q, 0 < q ∧ m (dbuf + i) = .num q

/-- The image of the inverse depths. -/
def inverseDepths (m : Floats) (dbuf : Pointer Buffer) (w : ℕ) : Image ℚ := fun x y =>
  match m (dbuf + (y * w + x)) with
  | .num q => some q⁻¹
  | _ => none

/-- A pixel lies in the block of a cell of level `k`. -/
def InBlock (k x y px py : ℕ) : Prop :=
  2 ^ k * x ≤ px ∧ px < 2 ^ k * (x + 1) ∧ 2 ^ k * y ≤ py ∧ py < 2 ^ k * (y + 1)

/-- A cell of level `k`: the levels from 1 on lie one behind the other. -/
def levelCell (w h k x y : ℕ) : Pointer Buffer :=
  Pointer.base Buffer.lods + (levelStart w h (k - 1) + (y * (w / 2 ^ k) + x))

/-- The cell is one of a level that is built. -/
structure IsCell (w h k x y : ℕ) : Prop where
  above : 1 ≤ k
  wide : 16 ≤ w / 2 ^ k
  inRow : x < w / 2 ^ k
  inColumn : y < h / 2 ^ k

/-- The memory `m'` holds the pyramid of the depths in `m`. -/
structure Pyramid (m : Floats) (dbuf : Pointer Buffer) (w h : ℕ) (m' : Floats) : Prop where
  missing : ∀ k x y, IsCell w h k x y → (m' (levelCell w h k x y) = .nan ↔
    ∀ px py, InBlock k x y px py → Missing (m (dbuf + (py * w + px))))
  value : ∀ k x y, IsCell w h k x y → m' (levelCell w h k x y) ≠ .nan →
    ∃ v, level (inverseDepths m dbuf w) k x y = some v ∧ m' (levelCell w h k x y) = .num v⁻¹
  between : ∀ k x y v, IsCell w h k x y → m' (levelCell w h k x y) = .num v →
    ∃ lo hi, lo ≤ v ∧ v ≤ hi ∧
      (∃ px py, InBlock k x y px py ∧ m (dbuf + (py * w + px)) = .num lo) ∧
      ∃ px py, InBlock k x y px py ∧ m (dbuf + (py * w + px)) = .num hi
  kept : ∀ p : Pointer Buffer, p.buffer ≠ .dinv →
    (∀ k x y, IsCell w h k x y → p ≠ levelCell w h k x y) → m' p = m p

/-- An address in the input, in the vector of the inverse depths, or of a cell of the pyramid. -/
def MayTouch (dbuf : Pointer Buffer) (w h : ℕ) (p : Pointer Buffer) : Prop :=
  (∃ i < w * h, p = dbuf + i) ∨ (∃ i < w * h, p = Pointer.base Buffer.dinv + i) ∨
    ∃ k x y, IsCell w h k x y ∧ p = levelCell w h k x y

theorem inBlock_iff {px py : ℕ} : InBlock k x y px py ↔ px / 2 ^ k = x ∧ py / 2 ^ k = y := by
  have pos : 0 < 2 ^ k := Nat.two_pow_pos k
  rw [Nat.div_eq_iff pos, Nat.div_eq_iff pos]
  unfold InBlock
  rw [Nat.mul_succ, Nat.mul_succ, Nat.mul_comm x, Nat.mul_comm y]
  omega

theorem inverseDepths_eq_none_iff :
    inverseDepths m dbuf w x y = none ↔ Missing (m (dbuf + (y * w + x))) := by
  unfold inverseDepths Missing
  cases m (dbuf + (y * w + x)) <;> simp

theorem inverseDepths_eq_some_iff {u : ℚ} :
    inverseDepths m dbuf w x y = some u ↔ m (dbuf + (y * w + x)) = .num u⁻¹ := by
  unfold inverseDepths
  cases m (dbuf + (y * w + x)) with
  | nan => simp
  | inf negative => simp
  | num q =>
    simp only [Option.some.injEq, ExactFloat.num.injEq]
    exact inv_eq_iff_eq_inv

theorem inverse_eq_ofOption (input : DepthsAndHoles m dbuf w h) (inRow : x < w) (inColumn : y < h) :
    inverse (m (dbuf + (y * w + x))) = .ofOption (inverseDepths m dbuf w x y) := by
  unfold inverseDepths
  rcases input _ (cell_lt inRow inColumn) with missing | ⟨q, pos, depth⟩
  · unfold inverse Missing at *
    cases value : m (dbuf + (y * w + x)) <;> simp_all
  · rw [depth]
    exact (ExactFloat.num_div_num pos.ne').trans (by rw [one_div]; rfl)

theorem inverseDepths_pos (input : DepthsAndHoles m dbuf w h) :
    ∀ x < w, ∀ y < h, ∀ u, inverseDepths m dbuf w x y = some u → 0 < u := by
  intro x inRow y inColumn u present
  rw [inverseDepths_eq_some_iff] at present
  rcases input _ (cell_lt inRow inColumn) with missing | ⟨q, pos, depth⟩
  · rw [present] at missing
    simp [Missing] at missing
  · rw [present] at depth
    obtain rfl := ExactFloat.num.inj depth
    exact inv_pos.mp pos

/-- The levels that are built are those of at least 16 columns. -/
theorem lt_halvings_half_iff : k < halvings (w / 2) ↔ 16 ≤ w / 2 ^ (k + 1) := by
  rw [lt_halvings_iff, Nat.div_div_eq_div_mul, ← pow_succ']

/-- Every address below the end of the built levels is that of a cell. -/
theorem exists_levelCell {i n : ℕ} (built : n ≤ halvings (w / 2)) (inside : i < levelStart w h n) :
    ∃ k x y, IsCell w h k x y ∧ Pointer.base Buffer.lods + i = levelCell w h k x y := by
  induction n with
  | zero => exact absurd inside (Nat.not_lt_zero i)
  | succ n ih =>
    rcases Nat.lt_or_ge i (levelStart w h n) with before | behind
    · exact ih (by omega) before
    · rw [levelStart] at inside
      obtain ⟨x, y, inRow, inColumn, cell⟩ :=
        exists_cell (show i - levelStart w h n < w / 2 ^ (n + 1) * (h / 2 ^ (n + 1)) by omega)
      refine ⟨n + 1, x, y, ⟨by omega, lt_halvings_half_iff.mp built, inRow, inColumn⟩, ?_⟩
      rw [levelCell, Nat.add_sub_cancel, ← cell]
      exact congrArg _ (by omega)

/-- What a cell holds, as an image of inverse depths tells it. -/
theorem levelCell_eq (input : DepthsAndHoles m dbuf w h) (data : dbuf.buffer ≠ .dinv)
    (isCell : IsCell w h k x y) :
    depthBuildLods dbuf (.base .lods) w h m (levelCell w h k x y) =
      .ofOption (inverted (level (inverseDepths m dbuf w) k) x y) := by
  -- Level `k` is written by pass `k - 1` of the loop.
  obtain ⟨j, rfl⟩ : ∃ j, k = j + 1 := ⟨k - 1, by have := isCell.above; omega⟩
  have built : j < halvings (w / 2) := lt_halvings_half_iff.mpr isCell.wide
  have levels := (depthBuildLods_spec dbuf data
    (fun x inRow y inColumn => inverse_eq_ofOption input inRow inColumn)
    (inverseDepths_pos input)).1 j built x isCell.inRow y isCell.inColumn
  rwa [Pointer.add_add] at levels

theorem pyramid_depthBuildLods (input : DepthsAndHoles m dbuf w h) (data : dbuf.buffer ≠ .dinv) :
    Pyramid m dbuf w h (depthBuildLods dbuf (.base .lods) w h m) := by
  constructor
  · intro k x y isCell
    rw [levelCell_eq input data isCell]
    have none_iff : ExactFloat.ofOption (inverted (level (inverseDepths m dbuf w) k) x y) = .nan ↔
        level (inverseDepths m dbuf w) k x y = none := by
      unfold inverted
      cases level (inverseDepths m dbuf w) k x y <;> simp
    rw [none_iff, level_eq_none_iff]
    constructor
    -- the blocks of the image are the blocks of the claim, with quotients for bounds
    · intro missing px py inBlock
      obtain ⟨column, row⟩ := inBlock_iff.mp inBlock
      exact inverseDepths_eq_none_iff.mp (missing px py column row)
    · intro missing px py column row
      exact inverseDepths_eq_none_iff.mpr (missing px py (inBlock_iff.mpr ⟨column, row⟩))
  · intro k x y isCell present
    rw [levelCell_eq input data isCell] at present ⊢
    unfold inverted at present ⊢
    cases mean : level (inverseDepths m dbuf w) k x y with
    | none => simp [mean] at present
    | some v => exact ⟨v, rfl, rfl⟩
  · intro k x y v isCell present
    rw [levelCell_eq input data isCell] at present
    unfold inverted at present
    cases mean : level (inverseDepths m dbuf w) k x y with
    | none => simp [mean] at present
    | some u =>
      obtain rfl : u⁻¹ = v := by simpa [mean] using present
      obtain ⟨⟨px, py, a, column, row, pixel, below⟩, px', py', b, column', row', pixel', above⟩ :=
        level_between mean
      have positive := inverseDepths_pos input
      have posA := positive px (lt_of_block column isCell.inRow) py
        (lt_of_block row isCell.inColumn) a pixel
      -- Inverting turns the order around: the deepest pixel is the least of the inverse depths.
      refine ⟨b⁻¹, a⁻¹, inv_anti₀ (posA.trans_le below) above, inv_anti₀ posA below,
        ⟨px', py', inBlock_iff.mpr ⟨column', row'⟩, inverseDepths_eq_some_iff.mp pixel'⟩,
        px, py, inBlock_iff.mpr ⟨column, row⟩, inverseDepths_eq_some_iff.mp pixel⟩
  · intro p notInv elsewhere
    refine (depthBuildLods_spec dbuf data
      (fun x inRow y inColumn => inverse_eq_ofOption input inRow inColumn)
      (inverseDepths_pos input)).2 p notInv fun lods => ?_
    by_contra! inside
    obtain ⟨k, x, y, isCell, same⟩ := exists_levelCell le_rfl inside
    refine elsewhere k x y isCell (same.symm.trans ?_).symm
    exact Pointer.ext (by simp [lods]) (by simp)

/-! ### What is touched -/

/-- The room of the local vector and of the built levels. -/
def builtSize (w h : ℕ) : Buffer → ℕ
  | .data => 0
  | .lods => levelStart w h (halvings (w / 2))
  | .dinv => w * h

theorem mayTouch_of_inRange {access : Access Buffer} (inRange : access.InRange (builtSize w h)) :
    MayTouch dbuf w h access.address := by
  have inside := inRange.lt_extent
  generalize access.address = p at inside ⊢
  obtain ⟨buffer, i⟩ := p
  cases buffer with
  | data => exact absurd inside (Nat.not_lt_zero _)
  | dinv => exact .inr (.inl ⟨i, inside, Pointer.ext rfl (Nat.zero_add i).symm⟩)
  | lods =>
    obtain ⟨k, x, y, isCell, same⟩ := exists_levelCell le_rfl inside
    exact .inr (.inr ⟨k, x, y, isCell, same ▸ Pointer.ext rfl (Nat.zero_add i).symm⟩)

theorem mayTouch_of_mem {access : Access Buffer}
    (inTrace : access ∈ depthBuildLodsAccesses dbuf (.base .lods) w h m) :
    MayTouch dbuf w h access.address := by
  unfold depthBuildLodsAccesses at inTrace
  rcases List.mem_append.mp inTrace with inTrace | inverted
  · rcases List.mem_append.mp inTrace with inverses | levels
    · obtain ⟨before, i, later, split, inPass⟩ := mem_loopAccesses.mp inverses
      have inside : i < w * h := List.mem_range.mp (by rw [split]; simp)
      simp only [inversePassAccesses, List.cons_append, List.nil_append, List.mem_cons,
        List.not_mem_nil, or_false] at inPass
      rcases inPass with rfl | rfl
      · exact .inl ⟨i, inside, rfl⟩
      · exact .inr (.inl ⟨i, inside, rfl⟩)
    · exact mayTouch_of_inRange (inRange_buildAllLevels le_rfl le_rfl levels)
  · rw [buildLevels_snd] at inverted
    exact mayTouch_of_inRange (inRange_invertLods le_rfl inverted)

/-- `DepthBuildLods` ends, leaves the pyramid of its input behind, and reads and writes nothing but
the input, its vector of inverse depths and the cells of the pyramid. -/
def HasContents (offset w h : ℕ) (m : Floats) : Prop :=
  ∃ m', Checked.depthBuildLods (Pointer.base Buffer.data + offset) (.base .lods) w h m = some m' ∧
    Pyramid m (Pointer.base Buffer.data + offset) w h m' ∧
    ∀ access ∈ depthBuildLodsAccesses (Pointer.base Buffer.data + offset) (.base .lods) w h m,
      MayTouch (Pointer.base Buffer.data + offset) w h access.address

/-- **Pyramid contents.** For all sizes whose product is an int and every input of positive depths,
NaNs and infinities, `DepthBuildLods` leaves the pyramid behind and touches nothing else. -/
theorem depthBuildLods_contents (offset w h : ℕ) (m : Floats) (fits : w * h < 2 ^ 31)
    (input : DepthsAndHoles m (Pointer.base Buffer.data + offset) w h) :
    HasContents offset w h m :=
  ⟨_, Checked.depthBuildLods_eq_some_iff.mpr ⟨fits, rfl⟩,
    pyramid_depthBuildLods input (by simp), fun _ inTrace => mayTouch_of_mem inTrace⟩

/-- Behind a header, a hole, an infinity and depths of 2. -/
def mixedDepths : Floats := fun p =>
  if p.offset = 16 then .nan else if p.offset = 17 then .inf false else .num 2

/-- In odd sizes. -/
theorem contents_mixedDepths : HasContents 16 33 3 mixedDepths := by
  refine depthBuildLods_contents 16 33 3 mixedDepths (by decide) fun i _ => ?_
  unfold mixedDepths Missing
  split_ifs
  · exact .inl (.inl rfl)
  · exact .inl (.inr rfl)
  · exact .inr ⟨2, two_pos, rfl⟩

/-- A picture whose number of cells is no int. -/
theorem not_hasContents_large :
    DepthsAndHoles (fun _ => .num 2) (Pointer.base Buffer.data + 16) 65536 65536 ∧
      ¬ HasContents 16 65536 65536 fun _ => .num 2 := by
  refine ⟨fun _ _ => .inr ⟨2, two_pos, rfl⟩, fun ⟨m', built, _⟩ => ?_⟩
  exact absurd (Checked.depthBuildLods_eq_some_iff.mp built).1 (by decide)

end Sqwar.Depth
