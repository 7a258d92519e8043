import Sqwar.Data.Pyramid
import Sqwar.Depth.Lods

/-!
# Backfilling depths

`DepthBuildLods` builds the pyramid of the inverse depths, and the fill phase of
`ConvertDepthToYUV` backfills the depths from it. The two functions disagree about the number of
levels: the coarsest one that is allocated is never built and still holds zeros.
-/

set_option autoImplicit false

namespace Sqwar.Depth

open Data Function

variable {m m' : Floats} {p dsrc dptr lod0 lod1 : Pointer Buffer} {image image' : Image ℚ}
  {w h w' h' x y k n : ℕ}

/-- An image lies at an address; its missing cells are NaN. -/
def Holds (m : Floats) (p : Pointer Buffer) (w h : ℕ) (image : Image ℚ) : Prop :=
  ∀ x < w, ∀ y < h, m (p + (y * w + x)) = .ofOption (image x y)

theorem Holds.congr (holds : Holds m p w h image)
    (same : ∀ i < w * h, m' (p + i) = m (p + i)) : Holds m' p w h image := by
  intro x inRow y inColumn
  rw [same _ (cell_lt inRow inColumn)]
  exact holds x inRow y inColumn

/-! ### Averages -/

theorem accumulate_ofOption (cells : List (Option ℚ)) :
    accumulate (cells.map .ofOption) =
      (ExactFloat.num cells.reduceOption.sum, (cells.reduceOption.length : ℚ)) := by
  -- The induction is on the cells, from any sum and count.
  suffices loop : ∀ (s t : ℚ), (cells.map ExactFloat.ofOption).foldl
      (fun sum vi => if vi.isNaN then (sum.1, sum.2) else (sum.1 + vi, sum.2 + 1))
      (ExactFloat.num s, t) =
        (ExactFloat.num (s + cells.reduceOption.sum), t + (cells.reduceOption.length : ℚ)) by
    have sums := loop 0 0
    rw [zero_add, zero_add] at sums
    exact sums
  induction cells with
  | nil => simp
  | cons cell cells ih =>
    intro s t
    cases cell with
    | none => simp [ih]
    | some q => simp [ih, add_assoc, add_comm (1 : ℚ)]

/-- `DepthBuildLods` averages what is not missing. -/
theorem average_ofOption (cells : List (Option ℚ)) :
    average (cells.map .ofOption) = .ofOption (mean cells) := by
  unfold average
  rw [accumulate_ofOption]
  by_cases empty : cells.reduceOption = []
  · have missing : mean cells = none := by simp [mean, empty]
    simp [empty, missing]
  · have pos : (0 : ℚ) < cells.reduceOption.length :=
      Nat.cast_pos.mpr (List.length_pos_iff.mpr empty)
    rw [if_pos pos, ExactFloat.num_div_num pos.ne', mean_eq_some_iff.mpr ⟨empty, rfl⟩,
      ExactFloat.ofOption_some]

/-! ### One loop at a time -/

theorem buildInverses_spec {dbuf : Pointer Buffer} (data : dbuf.buffer ≠ .dinv) :
    (∀ i < w * h,
        buildInverses dbuf w h m (Pointer.base Buffer.dinv + i) = inverse (m (dbuf + i))) ∧
      ∀ p : Pointer Buffer, p.buffer ≠ .dinv → buildInverses dbuf w h m p = m p := by
  have apart : ∀ (p : Pointer Buffer) (i : ℕ), p.buffer ≠ .dinv →
      p ≠ Pointer.base Buffer.dinv + i := by
    rintro p i other rfl
    exact other rfl
  obtain ⟨stored, kept⟩ := foldl_stores m (List.range (w * h))
    (fun m i => update m (Pointer.base Buffer.dinv + i) (inverse (m (dbuf + i)))) _
    (fun i => inverse (m (dbuf + i)))
    (fun i _ m' agrees _ => by rw [agrees (dbuf + i) fun j _ => apart _ j data])
    (pairwise_range _ _)
  exact ⟨fun i inside => stored i (List.mem_range.mpr inside),
    fun p other => kept p fun i _ => apart p i other⟩

/-- One level is the means of the one below it. -/
theorem buildLevel_spec (dptr : Pointer Buffer) (source : Holds m dsrc w h image)
    (apart : ∀ i < w * h, ∀ j < w / 2 * (h / 2), dsrc + i ≠ dptr + j) :
    Holds (buildLevel dsrc dptr w (w / 2) (h / 2) m) dptr (w / 2) (h / 2)
        (fun x y => mean (children image x y)) ∧
      ∀ p, (∀ j < w / 2 * (h / 2), p ≠ dptr + j) →
        buildLevel dsrc dptr w (w / 2) (h / 2) m p = m p := by
  -- No pass writes where another one reads.
  have read : ∀ m' : Floats,
      (∀ a, (∀ c ∈ grid (w / 2) (h / 2), a ≠ dptr + (c.2 * (w / 2) + c.1)) → m' a = m a) →
        ∀ x < w, ∀ y < h, m' (dsrc + (y * w + x)) = ExactFloat.ofOption (image x y) := by
    intro m' agrees x inRow y inColumn
    rw [agrees _ fun c inGrid => ?_]
    · exact source x inRow y inColumn
    · exact apart _ (cell_lt inRow inColumn) _
        (cell_lt (mem_grid.mp inGrid).1 (mem_grid.mp inGrid).2)
  obtain ⟨stored, kept⟩ := foldl_stores m (grid (w / 2) (h / 2))
    (fun m c => update m (dptr + (c.2 * (w / 2) + c.1)) (average
      [m (dsrc + (c.2 * 2 * w + c.1 * 2)), m (dsrc + (c.2 * 2 * w + c.1 * 2 + 1)),
        m (dsrc + ((c.2 * 2 + 1) * w + c.1 * 2)), m (dsrc + ((c.2 * 2 + 1) * w + c.1 * 2 + 1))]))
    (fun c => dptr + (c.2 * (w / 2) + c.1))
    (fun c => .ofOption (mean (children image c.1 c.2)))
    (fun c inGrid m' agrees _ => by
      obtain ⟨x, y⟩ := c
      obtain ⟨inRow, inColumn⟩ := mem_grid.mp inGrid
      simp only
      rw [Nat.add_assoc (y * 2 * w), Nat.add_assoc ((y * 2 + 1) * w),
        read m' agrees (x * 2) (by omega) (y * 2) (by omega),
        read m' agrees (x * 2 + 1) (by omega) (y * 2) (by omega),
        read m' agrees (x * 2) (by omega) (y * 2 + 1) (by omega),
        read m' agrees (x * 2 + 1) (by omega) (y * 2 + 1) (by omega)]
      exact congrArg _ (average_ofOption (children image x y)))
    (pairwise_grid _ _ _)
  refine ⟨fun x inRow y inColumn => stored (x, y) (mem_grid.mpr ⟨inRow, inColumn⟩),
    fun p elsewhere => kept p fun c inGrid => ?_⟩
  exact elsewhere _ (cell_lt (mem_grid.mp inGrid).1 (mem_grid.mp inGrid).2)

theorem invertLods_spec (m : Floats) (outpts dend : Pointer Buffer) :
    (∀ i < dend.offset - outpts.offset, invertLods outpts dend m (outpts + i) =
        if (m (outpts + i)).isNaN then .nan else .num 1 / m (outpts + i)) ∧
      ∀ p, (∀ i < dend.offset - outpts.offset, p ≠ outpts + i) →
        invertLods outpts dend m p = m p := by
  obtain ⟨stored, kept⟩ := foldl_stores m (List.range (dend.offset - outpts.offset))
    (fun m i => update m (outpts + i)
      (if (m (outpts + i)).isNaN then .nan else .num 1 / m (outpts + i))) _
    (fun i => if (m (outpts + i)).isNaN then .nan else .num 1 / m (outpts + i))
    (fun i _ m' _ own => by rw [own]) (pairwise_range _ _)
  exact ⟨fun i inside => stored i (List.mem_range.mpr inside),
    fun p elsewhere => kept p fun i inside => elsewhere i (List.mem_range.mp inside)⟩

/-- `DepthFillEmpty` copies a parent over each NaN. -/
theorem depthFillEmpty_spec (m : Floats) (lod1 lod0 : Pointer Buffer)
    (apart : ∀ x < w, ∀ y < h, ∀ j < w * h, lod1 + (y / 2 * (w / 2) + x / 2) ≠ lod0 + j) :
    (∀ x < w, ∀ y < h, depthFillEmpty lod1 lod0 w h m (lod0 + (y * w + x)) =
        if (m (lod0 + (y * w + x))).isNaN then m (lod1 + (y / 2 * (w / 2) + x / 2))
        else m (lod0 + (y * w + x))) ∧
      ∀ p, (∀ j < w * h, p ≠ lod0 + j) → depthFillEmpty lod1 lod0 w h m p = m p := by
  obtain ⟨stored, kept⟩ := foldl_stores m (grid w h)
    (fun m c => if (m (lod0 + (c.2 * w + c.1))).isNaN then
      update m (lod0 + (c.2 * w + c.1)) (m (lod1 + (c.2 / 2 * (w / 2) + c.1 / 2))) else m)
    (fun c => lod0 + (c.2 * w + c.1))
    (fun c => if (m (lod0 + (c.2 * w + c.1))).isNaN then
      m (lod1 + (c.2 / 2 * (w / 2) + c.1 / 2)) else m (lod0 + (c.2 * w + c.1)))
    (fun c inGrid m' agrees own => by
      obtain ⟨x, y⟩ := c
      obtain ⟨inRow, inColumn⟩ := mem_grid.mp inGrid
      have parent : m' (lod1 + (y / 2 * (w / 2) + x / 2)) = m (lod1 + (y / 2 * (w / 2) + x / 2)) :=
        agrees _ fun d inGrid' => apart x inRow y inColumn _
          (cell_lt (mem_grid.mp inGrid').1 (mem_grid.mp inGrid').2)
      simp only at own ⊢
      rw [own, parent]
      split_ifs
      · rfl
      · -- a pass that stores nothing might as well store what is there
        rw [← own, update_eq_self])
    (pairwise_grid _ _ _)
  refine ⟨fun x inRow y inColumn => stored (x, y) (mem_grid.mpr ⟨inRow, inColumn⟩),
    fun p elsewhere => kept p fun c inGrid => ?_⟩
  exact elsewhere _ (cell_lt (mem_grid.mp inGrid).1 (mem_grid.mp inGrid).2)

/-- On images, it is one step of backfilling. -/
theorem holds_depthFillEmpty (coarse : Holds m lod1 (w / 2) (h / 2) image')
    (fine : Holds m lod0 w h image) (evenW : Even w) (evenH : Even h)
    (apart : ∀ i < w / 2 * (h / 2), ∀ j < w * h, lod1 + i ≠ lod0 + j) :
    Holds (depthFillEmpty lod1 lod0 w h m) lod0 w h
      (fun x y => (image x y).or (image' (x / 2) (y / 2))) := by
  obtain ⟨halfW, evenW⟩ := evenW
  obtain ⟨halfH, evenH⟩ := evenH
  obtain ⟨filled, -⟩ := depthFillEmpty_spec m lod1 lod0 fun x inRow y inColumn =>
    apart _ (cell_lt (show x / 2 < w / 2 by omega) (show y / 2 < h / 2 by omega))
  intro x inRow y inColumn
  rw [filled x inRow y inColumn, fine x inRow y inColumn,
    coarse (x / 2) (by omega) (y / 2) (by omega)]
  cases cell : image x y <;> simp [cell]

/-! ### The levels -/

/-- Where level `k + 1` starts in `lods`. -/
def levelStart (w h : ℕ) : ℕ → ℕ
  | 0 => 0
  | k + 1 => levelStart w h k + w / 2 ^ (k + 1) * (h / 2 ^ (k + 1))

/-- How often a width can be halved before it is below 16. -/
def halvings (dw : ℕ) : ℕ := if 16 ≤ dw then halvings (dw / 2) + 1 else 0
termination_by dw

theorem levelStart_mono (w h : ℕ) : Monotone (levelStart w h) :=
  monotone_nat_of_le_succ fun _ => Nat.le_add_right _ _

theorem halvings_of_le {dw : ℕ} (wide : 16 ≤ dw) : halvings dw = halvings (dw / 2) + 1 := by
  rw [halvings, if_pos wide]

theorem halvings_of_lt {dw : ℕ} (narrow : dw < 16) : halvings dw = 0 := by
  rw [halvings, if_neg (by omega)]

theorem halvings_eq_succ {dw : ℕ} (count : halvings dw = n + 1) :
    16 ≤ dw ∧ halvings (dw / 2) = n := by
  rcases Nat.lt_or_ge dw 16 with narrow | wide
  · rw [halvings_of_lt narrow] at count
    omega
  · rw [halvings_of_le wide] at count
    exact ⟨wide, by omega⟩

theorem lt_halvings_iff {dw : ℕ} : k < halvings dw ↔ 16 ≤ dw / 2 ^ k := by
  induction k generalizing dw with
  | zero =>
    rcases Nat.lt_or_ge dw 16 with narrow | wide
    · simp [halvings_of_lt narrow, narrow]
    · simp [halvings_of_le wide, wide]
  | succ k ih =>
    have smaller := Nat.div_le_self (dw / 2) (2 ^ k)
    rw [pow_succ', ← Nat.div_div_eq_div_mul]
    rcases Nat.lt_or_ge dw 16 with narrow | wide
    · rw [halvings_of_lt narrow]
      omega
    · rw [halvings_of_le wide, Nat.succ_lt_succ_iff, ih]

/-- Where the level below level `k + 1` lies while that is built. -/
def levelSource (w h : ℕ) : ℕ → Pointer Buffer
  | 0 => .base .dinv
  | k + 1 => Pointer.base Buffer.lods + levelStart w h k

theorem levelSource_apart (i j : ℕ) (inside : i < w / 2 ^ k * (h / 2 ^ k)) :
    levelSource w h k + i ≠ Pointer.base Buffer.lods + levelStart w h k + j := by
  intro same
  have buffers := congrArg Pointer.buffer same
  have offsets := congrArg Pointer.offset same
  cases k with
  | zero => cases buffers
  | succ k =>
    simp only [levelSource, Pointer.add_offset, Pointer.base_offset, levelStart] at offsets
    omega

/-- **The levels that are built.** The loop of `DepthBuildLods`, from level `k` on, writes the
levels above it one after another and nothing else. -/
theorem buildLevels_spec (count : halvings (w / 2 ^ (k + 1)) = n)
    (source : Holds m (levelSource w h k) (w / 2 ^ k) (h / 2 ^ k) (level image k)) :
    let result := buildLevels (levelSource w h k) (Pointer.base Buffer.lods + levelStart w h k)
      (w / 2 ^ k) (w / 2 ^ (k + 1)) (h / 2 ^ (k + 1)) m
    result.2 = Pointer.base Buffer.lods + levelStart w h (k + n) ∧
      (∀ j, k ≤ j → j < k + n → Holds result.1 (Pointer.base Buffer.lods + levelStart w h j)
        (w / 2 ^ (j + 1)) (h / 2 ^ (j + 1)) (level image (j + 1))) ∧
      ∀ p, (p.buffer = .lods → p.offset < levelStart w h k ∨ levelStart w h (k + n) ≤ p.offset) →
        result.1 p = m p := by
  induction n generalizing k m with
  | zero =>
    have narrow : ¬ 16 ≤ w / 2 ^ (k + 1) := by
      intro wide
      rw [halvings_of_le wide] at count
      omega
    rw [buildLevels, if_neg narrow]
    exact ⟨rfl, fun j above below => by omega, fun p _ => rfl⟩
  | succ n ih =>
    obtain ⟨wide, count⟩ := halvings_eq_succ count
    rw [← div_two_pow_succ] at count
    obtain ⟨built, kept⟩ := buildLevel_spec (Pointer.base Buffer.lods + levelStart w h k)
      source fun i inside j _ => levelSource_apart i j inside
    rw [← div_two_pow_succ, ← div_two_pow_succ] at built kept
    obtain ⟨dend, levels, same⟩ := ih (k := k + 1) count built
    rw [buildLevels, if_pos wide, Pointer.add_add, ← div_two_pow_succ, ← div_two_pow_succ,
      ← div_two_pow_succ]
    have next : k + 1 + n = k + (n + 1) := by omega
    rw [next] at dend levels same
    refine ⟨dend, fun j above below => ?_, fun p outside => ?_⟩
    · rcases Nat.eq_or_lt_of_le above with rfl | above
      · -- the later levels leave the first one alone
        refine built.congr fun i inside => same _ fun _ => .inl ?_
        simp only [Pointer.add_offset, Pointer.base_offset, levelStart]
        omega
      · exact levels j above below
    · have grows := levelStart_mono w h (Nat.le_add_right k 1)
      refine (same p fun lods => (outside lods).imp_left fun below => by omega).trans ?_
      refine kept p fun j inside => ?_
      rintro rfl
      have := outside rfl
      have far := levelStart_mono w h (show k + 1 ≤ k + (n + 1) by omega)
      simp only [Pointer.add_offset, Pointer.base_offset, levelStart] at this far
      omega

theorem lt_of_block {px : ℕ} (column : px / 2 ^ k = x) (inside : x < w / 2 ^ k) : px < w := by
  by_contra! outside
  have := Nat.div_le_div_right (c := 2 ^ k) outside
  omega

/-- A level of positive cells is positive. -/
theorem level_pos {v : ℚ} (pos : ∀ x < w, ∀ y < h, ∀ v, image x y = some v → 0 < v)
    (inRow : x < w / 2 ^ k) (inColumn : y < h / 2 ^ k) (present : level image k x y = some v) :
    0 < v := by
  obtain ⟨⟨px, py, u, column, row, pixel, le⟩, -⟩ := level_between present
  exact (pos px (lt_of_block column inRow) py (lt_of_block row inColumn) u pixel).trans_le le

/-- The depths of a level whose cells are inverse depths. -/
def inverted (image : Image ℚ) : Image ℚ := fun x y => (image x y).map (·⁻¹)

theorem invert_ofOption {cell : Option ℚ} (nonzero : ∀ v, cell = some v → v ≠ 0) :
    (if (ExactFloat.ofOption cell).isNaN then .nan else .num 1 / .ofOption cell) =
      ExactFloat.ofOption (cell.map (·⁻¹)) := by
  cases cell with
  | none => rfl
  | some v =>
    simp only [ExactFloat.ofOption_some, ExactFloat.isNaN_num, Bool.false_eq_true, if_false,
      Option.map_some]
    rw [ExactFloat.num_div_num (nonzero v rfl), one_div]

/-- **`DepthBuildLods`.** It writes the levels of the pyramid of the inverse depths, inverted. -/
theorem depthBuildLods_spec (dbuf : Pointer Buffer) (data : dbuf.buffer ≠ .dinv)
    (source : ∀ x < w, ∀ y < h, inverse (m (dbuf + (y * w + x))) = .ofOption (image x y))
    (pos : ∀ x < w, ∀ y < h, ∀ v, image x y = some v → 0 < v) :
    (∀ j < halvings (w / 2), Holds (depthBuildLods dbuf (.base .lods) w h m)
        (Pointer.base Buffer.lods + levelStart w h j) (w / 2 ^ (j + 1)) (h / 2 ^ (j + 1))
        (inverted (level image (j + 1)))) ∧
      ∀ p, p.buffer ≠ .dinv → (p.buffer = .lods → levelStart w h (halvings (w / 2)) ≤ p.offset) →
        depthBuildLods dbuf (.base .lods) w h m p = m p := by
  obtain ⟨inverses, kept⟩ := buildInverses_spec (m := m) (w := w) (h := h) data
  have bottom : Holds (buildInverses dbuf w h m) (levelSource w h 0) (w / 2 ^ 0) (h / 2 ^ 0)
      (level image 0) := by
    simp only [pow_zero, Nat.div_one]
    intro x inRow y inColumn
    exact (inverses _ (cell_lt inRow inColumn)).trans (source x inRow y inColumn)
  obtain ⟨dend, levels, same⟩ := buildLevels_spec (n := halvings (w / 2)) (by rw [pow_one]) bottom
  simp only [Nat.zero_add, pow_zero, pow_one, Nat.div_one] at dend levels same
  have run : depthBuildLods dbuf (.base .lods) w h m = invertLods (.base .lods)
      (buildLevels (levelSource w h 0) (Pointer.base Buffer.lods + levelStart w h 0) w (w / 2)
        (h / 2) (buildInverses dbuf w h m)).2
      (buildLevels (levelSource w h 0) (Pointer.base Buffer.lods + levelStart w h 0) w (w / 2)
        (h / 2) (buildInverses dbuf w h m)).1 := rfl
  rw [run, dend]
  obtain ⟨inverted', kept'⟩ := invertLods_spec
    (buildLevels (levelSource w h 0) (Pointer.base Buffer.lods + levelStart w h 0) w (w / 2) (h / 2)
      (buildInverses dbuf w h m)).1
    (.base Buffer.lods) (Pointer.base Buffer.lods + levelStart w h (halvings (w / 2)))
  simp only [Pointer.add_offset, Pointer.base_offset, Nat.zero_add, Nat.sub_zero] at inverted' kept'
  refine ⟨fun j small x inRow y inColumn => ?_, fun p notInv outside => ?_⟩
  · have cell := cell_lt inRow inColumn
    have inside : levelStart w h j + (y * (w / 2 ^ (j + 1)) + x) <
        levelStart w h (halvings (w / 2)) :=
      (Nat.add_lt_add_left cell _).trans_le (levelStart_mono w h (show j + 1 ≤ _ from small))
    rw [Pointer.add_add, inverted' _ inside, ← Pointer.add_add,
      levels j (Nat.zero_le j) small x inRow y inColumn]
    exact invert_ofOption fun v present => (level_pos pos inRow inColumn present).ne'
  · rw [kept' p, same p fun lods => .inr (outside lods), kept p notInv]
    rintro i inside rfl
    have := outside rfl
    simp only [Pointer.add_offset, Pointer.base_offset] at this
    omega

/-! ### The fill phase -/

theorem level_apart {i j a b : ℕ} (distinct : i ≠ j)
    (inside : a < w / 2 ^ (i + 1) * (h / 2 ^ (i + 1)))
    (inside' : b < w / 2 ^ (j + 1) * (h / 2 ^ (j + 1))) :
    Pointer.base Buffer.lods + levelStart w h i + a ≠
      Pointer.base Buffer.lods + levelStart w h j + b := by
  intro same
  have offsets := congrArg Pointer.offset same
  simp only [Pointer.add_offset, Pointer.base_offset] at offsets
  -- The levels lie one behind the other, so the one that comes first ends before the other.
  rcases Nat.lt_or_gt_of_ne distinct with before | before
  · have := levelStart_mono w h (show i + 1 ≤ j from before)
    simp only [levelStart] at this
    omega
  · have := levelStart_mono w h (show j + 1 ≤ i from before)
    simp only [levelStart] at this
    omega

/-- The table with `k` levels. -/
def tableOf (w h k : ℕ) : LodTable where
  size := levelStart w h k
  lodOffsets := (List.range (k + 1)).map (levelStart w h)
  lodSizes := (List.range k).map fun i => (w / 2 ^ (i + 1), h / 2 ^ (i + 1))

theorem tableOf_succ (w h k : ℕ) : tableOf w h (k + 1) =
    { size := (tableOf w h k).size + w / 2 ^ (k + 1) * (h / 2 ^ (k + 1))
      lodOffsets := (tableOf w h k).lodOffsets ++
        [(tableOf w h k).size + w / 2 ^ (k + 1) * (h / 2 ^ (k + 1))]
      lodSizes := (tableOf w h k).lodSizes ++ [(w / 2 ^ (k + 1), h / 2 ^ (k + 1))] } := by
  refine (LodTable.mk.injEq ..).mpr ⟨rfl, ?_, ?_⟩
  · rw [List.range_succ, List.map_append]
    rfl
  · rw [List.range_succ, List.map_append]
    rfl

theorem allocateLods_tableOf (count : halvings (w / 2 ^ k) = n) :
    allocateLods (w / 2 ^ k) (h / 2 ^ k) (tableOf w h k) = tableOf w h (k + n) := by
  induction n generalizing k with
  | zero =>
    have narrow : ¬ 16 ≤ w / 2 ^ k := by
      intro wide
      rw [halvings_of_le wide] at count
      omega
    rw [allocateLods, if_neg narrow]
    rfl
  | succ n ih =>
    obtain ⟨wide, count⟩ := halvings_eq_succ count
    rw [← div_two_pow_succ] at count
    rw [allocateLods, if_pos wide, ← div_two_pow_succ, ← div_two_pow_succ, ← tableOf_succ, ih count,
      Nat.add_right_comm, Nat.add_assoc]

/-- `ConvertDepthToYUV` makes room for one level more than `DepthBuildLods` builds. -/
theorem lodTable_eq (w h : ℕ) : lodTable w h = tableOf w h (halvings w) := by
  have := allocateLods_tableOf (w := w) (h := h) (k := 0) (n := halvings w) (by simp)
  rwa [pow_zero, Nat.div_one, Nat.div_one, Nat.zero_add] at this

theorem getD_lodOffsets {i : ℕ} (inside : i ≤ k) :
    (tableOf w h k).lodOffsets.getD i 0 = levelStart w h i := by
  simp [tableOf, List.getD, List.getElem?_range (show i < k + 1 by omega)]

theorem getD_lodSizes {i : ℕ} (inside : i < k) :
    (tableOf w h k).lodSizes.getD i (0, 0) = (w / 2 ^ (i + 1), h / 2 ^ (i + 1)) := by
  simp [tableOf, List.getD, List.getElem?_range inside]

theorem length_lodSizes : (tableOf w h k).lodSizes.length = k := by
  simp [tableOf]

/-- Every halving of the first `n` levels is of an even size. -/
def EvenHalvings (w h n : ℕ) : Prop := ∀ k < n, Even (w / 2 ^ k) ∧ Even (h / 2 ^ k)

/-- One pass of the fill loop. -/
theorem fillLod_spec {levels : ℕ → Image ℚ} {t : ℕ} (even : EvenHalvings w h n) (small : t + 1 < n)
    (before : ∀ i < n, Holds m (Pointer.base Buffer.lods + levelStart w h i) (w / 2 ^ (i + 1))
      (h / 2 ^ (i + 1)) (if n ≤ i + 1 + t then backfill levels (i + 1) (n - (i + 1))
        else levels (i + 1))) :
    (∀ i < n, Holds (fillLod (tableOf w h n) m t) (Pointer.base Buffer.lods + levelStart w h i)
      (w / 2 ^ (i + 1)) (h / 2 ^ (i + 1)) (if n ≤ i + 1 + (t + 1) then
        backfill levels (i + 1) (n - (i + 1)) else levels (i + 1))) ∧
      ∀ p, p.buffer ≠ .lods → fillLod (tableOf w h n) m t p = m p := by
  obtain ⟨i, rfl⟩ : ∃ i, n = i + 1 + t + 1 := ⟨n - t - 2, by omega⟩
  -- this pass fills level `i + 1` from level `i + 2`
  have pass : fillLod (tableOf w h (i + 1 + t + 1)) m t =
      depthFillEmpty (Pointer.base Buffer.lods + levelStart w h (i + 1))
        (Pointer.base Buffer.lods + levelStart w h i) (w / 2 ^ (i + 1)) (h / 2 ^ (i + 1)) m := by
    unfold fillLod
    rw [length_lodSizes, show i + 1 + t + 1 - t - 1 = i + 1 by omega]
    dsimp only
    rw [Nat.add_sub_cancel, getD_lodSizes (by omega), getD_lodOffsets (by omega),
      getD_lodOffsets (by omega)]
  obtain ⟨evenW, evenH⟩ := even (i + 1) (by omega)
  have fine := before i (by omega)
  have coarse := before (i + 1) (by omega)
  rw [if_neg (by omega)] at fine
  rw [if_pos (by omega), div_two_pow_succ, div_two_pow_succ h] at coarse
  have apart : ∀ a < w / 2 ^ (i + 1) / 2 * (h / 2 ^ (i + 1) / 2),
      ∀ b < w / 2 ^ (i + 1) * (h / 2 ^ (i + 1)),
        Pointer.base Buffer.lods + levelStart w h (i + 1) + a ≠
          Pointer.base Buffer.lods + levelStart w h i + b := by
    intro a inside b inside'
    rw [← div_two_pow_succ, ← div_two_pow_succ] at inside
    exact level_apart (Nat.succ_ne_self i) inside inside'
  have filled := holds_depthFillEmpty coarse fine evenW evenH apart
  obtain ⟨-, kept⟩ := depthFillEmpty_spec m _ _ fun x inRow y inColumn =>
    apart _ (cell_lt (Nat.div_lt_div_of_lt_of_dvd evenW.two_dvd inRow)
      (Nat.div_lt_div_of_lt_of_dvd evenH.two_dvd inColumn))
  rw [pass]
  refine ⟨fun j inside => ?_, fun p other => kept p ?_⟩
  -- the filled level, and below any other
  · by_cases same : j = i
    · subst same
      rw [if_pos (by omega), show j + 1 + t + 1 - (j + 1) = t + 1 by omega]
      rw [show j + 1 + t + 1 - (j + 1 + 1) = t by omega] at filled
      exact filled
    · have condition : i + 1 + t + 1 ≤ j + 1 + (t + 1) ↔ i + 1 + t + 1 ≤ j + 1 + t := by omega
      rw [if_congr condition rfl rfl]
      exact (before j inside).congr fun a here => kept _ fun b there => level_apart same here there
  · rintro a inside rfl
    exact other rfl

/-- The fill loop backfills every level but the coarsest one. -/
theorem foldl_fillLod_spec {levels : ℕ → Image ℚ} {t : ℕ} (even : EvenHalvings w h n)
    (small : t < n)
    (before : ∀ i < n, Holds m (Pointer.base Buffer.lods + levelStart w h i) (w / 2 ^ (i + 1))
      (h / 2 ^ (i + 1)) (levels (i + 1))) :
    (∀ i < n, Holds ((List.range t).foldl (fillLod (tableOf w h n)) m)
      (Pointer.base Buffer.lods + levelStart w h i) (w / 2 ^ (i + 1)) (h / 2 ^ (i + 1))
      (if n ≤ i + 1 + t then backfill levels (i + 1) (n - (i + 1)) else levels (i + 1))) ∧
      ∀ p, p.buffer ≠ .lods → (List.range t).foldl (fillLod (tableOf w h n)) m p = m p := by
  induction t with
  | zero =>
    refine ⟨fun i inside => ?_, fun p _ => rfl⟩
    split_ifs with top
    · rw [show n - (i + 1) = 0 by omega]
      exact before i inside
    · exact before i inside
  | succ t ih =>
    obtain ⟨filled, same⟩ := ih (by omega)
    obtain ⟨filled', same'⟩ := fillLod_spec even small filled
    rw [List.range_succ, List.foldl_append]
    exact ⟨filled', fun p other => (same' p other).trans (same p other)⟩

/-- The depths of an image of depths and holes. -/
def depths (m : Floats) (w : ℕ) : Image ℚ := fun x y =>
  match m (Pointer.base Buffer.data + (y * w + x)) with
  | .num q => some q
  | _ => none

/-- Each cell holds a positive depth or NaN. -/
def DepthImage (m : Floats) (w h : ℕ) : Prop :=
  ∀ i < w * h, m (Pointer.base Buffer.data + i) = .nan ∨
    ∃ q, 0 < q ∧ m (Pointer.base Buffer.data + i) = .num q

/-- The levels as the fill loop finds them: the built ones, above which there are zeros. -/
def lodLevels (image : Image ℚ) (n k : ℕ) : Image ℚ :=
  if k < n then inverted (level (inverted image) k) else fun _ _ => some 0

theorem DepthImage.holds (isImage : DepthImage m w h) :
    Holds m (.base Buffer.data) w h (depths m w) := by
  intro x inRow y inColumn
  unfold depths
  rcases isImage _ (cell_lt inRow inColumn) with hole | ⟨q, -, depth⟩
  · rw [hole]
    rfl
  · rw [depth]
    rfl

theorem DepthImage.pos (isImage : DepthImage m w h) :
    ∀ x < w, ∀ y < h, ∀ v, inverted (depths m w) x y = some v → 0 < v := by
  intro x inRow y inColumn v present
  unfold inverted depths at present
  rcases isImage _ (cell_lt inRow inColumn) with hole | ⟨q, pos, depth⟩
  · rw [hole] at present
    cases present
  · rw [depth] at present
    obtain rfl := Option.some.inj present
    exact inv_pos.mpr pos

theorem inverted_inverted (image : Image ℚ) : inverted (inverted image) = image := by
  funext x y
  unfold inverted
  cases image x y <;> simp

theorem DepthImage.inverse (isImage : DepthImage m w h) : ∀ x < w, ∀ y < h,
    inverse (m (Pointer.base Buffer.data + (y * w + x))) =
      .ofOption (inverted (depths m w) x y) := by
  intro x inRow y inColumn
  unfold inverted depths
  rcases isImage _ (cell_lt inRow inColumn) with hole | ⟨q, pos, depth⟩
  · rw [hole]
    rfl
  · rw [depth]
    exact (ExactFloat.num_div_num pos.ne').trans (by rw [one_div]; rfl)

theorem lodLevels_zero (image : Image ℚ) (pos : 0 < n) : lodLevels image n 0 = image := by
  rw [lodLevels, if_pos pos, level, inverted_inverted]

/-- The levels after `DepthBuildLods`. The coarsest one still holds the zeros of the new vector. -/
theorem depthBuildLods_zeroLods (wide : 16 ≤ w) (isImage : DepthImage m w h) :
    (∀ i < halvings w, Holds
      (depthBuildLods (.base .data) (.base .lods) w h (zeroLods (levelStart w h (halvings w)) m))
      (Pointer.base Buffer.lods + levelStart w h i) (w / 2 ^ (i + 1)) (h / 2 ^ (i + 1))
      (lodLevels (depths m w) (halvings w) (i + 1))) ∧
      ∀ i : ℕ, depthBuildLods (.base .data) (.base .lods) w h
          (zeroLods (levelStart w h (halvings w)) m) (Pointer.base Buffer.data + i) =
        m (Pointer.base Buffer.data + i) := by
  have zeroed : ∀ i : ℕ, zeroLods (levelStart w h (halvings w)) m (Pointer.base Buffer.data + i) =
      m (Pointer.base Buffer.data + i) := by
    intro i
    exact if_neg fun lods => absurd lods.1 (by simp)
  rw [halvings_of_le wide] at *
  obtain ⟨built, kept⟩ := depthBuildLods_spec (.base Buffer.data)
    (m := zeroLods (levelStart w h (halvings (w / 2) + 1)) m) (by decide)
    (fun x inRow y inColumn => by
      rw [zeroed]
      exact isImage.inverse x inRow y inColumn) isImage.pos
  refine ⟨fun i inside => ?_, fun i => ?_⟩
  · rcases Nat.lt_or_ge i (halvings (w / 2)) with below | top
    · rw [lodLevels, if_pos (by omega)]
      exact built i below
    -- the coarsest level is allocated and never built
    · obtain rfl : i = halvings (w / 2) := by omega
      rw [lodLevels, if_neg (lt_irrefl _)]
      intro x inRow y inColumn
      rw [kept _ (by simp) fun _ => by simp]
      refine if_pos ⟨rfl, ?_⟩
      have := cell_lt inRow inColumn
      simp only [Pointer.add_offset, Pointer.base_offset, levelStart]
      omega
  · rw [kept _ (by simp) fun lods => absurd lods (by simp), zeroed]

/-- **The fill phase backfills the depths.** From an image of positive depths and holes, sizes
that halve evenly, `ConvertDepthToYUV` backfills it from the built levels and one level of zeros. -/
theorem holds_fillHoles (wide : 16 ≤ w) (even : EvenHalvings w h (halvings w))
    (isImage : DepthImage m w h) :
    Holds (fillHoles w h m) (.base Buffer.data) w h
      (backfill (lodLevels (depths m w) (halvings w)) 0 (halvings w)) := by
  have some : halvings w = halvings (w / 2) + 1 := halvings_of_le wide
  obtain ⟨evenW, evenH⟩ := even 0 (by omega)
  rw [pow_zero, Nat.div_one] at evenW evenH
  obtain ⟨built, data⟩ := depthBuildLods_zeroLods wide isImage
  obtain ⟨filled, same⟩ := foldl_fillLod_spec (t := halvings w - 1) even (by omega) built
  have coarse := filled 0 (by omega)
  rw [if_pos (by omega), Nat.zero_add, pow_one] at coarse
  have fine := isImage.holds.congr fun i _ => (same _ (by simp)).trans (data i)
  have run : fillHoles w h m = depthFillEmpty (Pointer.base Buffer.lods + levelStart w h 0)
      (.base .data) w h ((List.range (halvings w - 1)).foldl (fillLod (tableOf w h (halvings w)))
        (depthBuildLods (.base .data) (.base .lods) w h
          (zeroLods (levelStart w h (halvings w)) m))) := by
    unfold fillHoles
    rw [lodTable_eq]
    dsimp only
    rw [length_lodSizes, getD_lodOffsets (Nat.zero_le _), sizeMinusOne, if_neg (by omega)]
    rfl
  rw [run]
  have result := holds_depthFillEmpty coarse fine evenW evenH fun i _ j _ => by
    intro same
    exact absurd (congrArg Pointer.buffer same) (by simp)
  rw [some] at result ⊢
  intro x inRow y inColumn
  rw [backfill_succ, lodLevels_zero _ (Nat.succ_pos _)]
  exact result x inRow y inColumn

end Sqwar.Depth
