import Mathlib.Algebra.BigOperators.Group.List.Basic
import Mathlib.Algebra.Order.BigOperators.Group.List
import Mathlib.Algebra.Order.Field.Basic
import Mathlib.Data.List.ReduceOption

/-!
# Pyramids of images with missing cells

Each level of a pyramid halves the one below it: a cell is the mean of those of its four children
that are not missing. So a cell is missing exactly when its whole block of the image is, and it
lies within the bounds of its block otherwise. Backfilling goes down the levels again and puts the
parent in place of each missing cell.
-/

set_option autoImplicit false

namespace Data

/-! ### Means -/

section Mean

variable {K : Type*} [Field K] {cells : List (Option K)} {m : K}

/-- The mean of the cells that are not missing. -/
def mean (cells : List (Option K)) : Option K :=
  if cells.reduceOption.isEmpty then none
  else some (cells.reduceOption.sum / cells.reduceOption.length)

theorem mean_eq_none_iff : mean cells = none ↔ ∀ cell ∈ cells, cell = none := by
  have empty : mean cells = none ↔ cells.reduceOption = [] := by
    unfold mean
    split_ifs <;> simp_all
  rw [empty, List.reduceOption, List.filterMap_eq_nil_iff]
  rfl

theorem mean_eq_some_iff : mean cells = some m ↔
    cells.reduceOption ≠ [] ∧ cells.reduceOption.sum / cells.reduceOption.length = m := by
  unfold mean
  split_ifs <;> simp_all

variable [LinearOrder K] [IsStrictOrderedRing K]

/-- The quotient of sum and length lies between two of the values. -/
theorem sum_div_length_between {values : List K} (nonempty : values ≠ []) :
    (∃ u ∈ values, u ≤ values.sum / values.length) ∧
      ∃ u ∈ values, values.sum / values.length ≤ u := by
  have pos : (0 : K) < values.length := Nat.cast_pos.mpr (List.length_pos_iff.mpr nonempty)
  generalize average : values.sum / (values.length : K) = m
  -- the mean summed as often as there are values is their sum
  have total : (values.map fun _ => m).sum = (values.map id).sum := by
    rw [List.map_const', List.sum_replicate, nsmul_eq_mul, ← average, mul_div_cancel₀ _ pos.ne',
      List.map_id]
  exact ⟨List.exists_le_of_sum_le nonempty id (fun _ => m) total.ge,
    List.exists_le_of_sum_le nonempty (fun _ => m) id total.le⟩

/-- A mean lies between two of its values. -/
theorem mean_between (isMean : mean cells = some m) :
    (∃ u, some u ∈ cells ∧ u ≤ m) ∧ ∃ u, some u ∈ cells ∧ m ≤ u := by
  obtain ⟨nonempty, rfl⟩ := mean_eq_some_iff.mp isMean
  obtain ⟨⟨u, member, below⟩, u', member', above⟩ := sum_div_length_between nonempty
  exact ⟨⟨u, List.reduceOption_mem_iff.mp member, below⟩,
    u', List.reduceOption_mem_iff.mp member', above⟩

end Mean

/-! ### Levels -/

section Levels

variable {K : Type*}

/-- The cells of an image by column and row. -/
abbrev Image (K : Type*) := ℕ → ℕ → Option K

/-- The four cells that one cell of the next level covers. -/
def children (image : Image K) (x y : ℕ) : List (Option K) :=
  [image (x * 2) (y * 2), image (x * 2 + 1) (y * 2), image (x * 2) (y * 2 + 1),
    image (x * 2 + 1) (y * 2 + 1)]

variable [Field K]

/-- The levels above an image. -/
def level (image : Image K) : ℕ → Image K
  | 0 => image
  | k + 1 => fun x y => mean (children (level image k) x y)

variable {image : Image K} {k x y : ℕ} {cell : Option K}

theorem mem_children_level : cell ∈ children (level image k) x y ↔
    ∃ cx cy, cx / 2 = x ∧ cy / 2 = y ∧ cell = level image k cx cy := by
  simp only [children, List.mem_cons, List.not_mem_nil, or_false]
  constructor
  · rintro (rfl | rfl | rfl | rfl)
    · exact ⟨x * 2, y * 2, by omega, by omega, rfl⟩
    · exact ⟨x * 2 + 1, y * 2, by omega, by omega, rfl⟩
    · exact ⟨x * 2, y * 2 + 1, by omega, by omega, rfl⟩
    · exact ⟨x * 2 + 1, y * 2 + 1, by omega, by omega, rfl⟩
  · rintro ⟨cx, cy, rfl, rfl, rfl⟩
    have column : cx = cx / 2 * 2 ∨ cx = cx / 2 * 2 + 1 := by omega
    have row : cy = cy / 2 * 2 ∨ cy = cy / 2 * 2 + 1 := by omega
    rcases column with column | column <;> rcases row with row | row <;>
      rw [← column, ← row] <;> simp

theorem div_two_pow_succ (p k : ℕ) : p / 2 ^ (k + 1) = p / 2 ^ k / 2 := by
  rw [pow_succ, Nat.div_div_eq_div_mul]

/-- **Missing cells.** A cell of a level is missing if and only if its whole block is. -/
theorem level_eq_none_iff : level image k x y = none ↔
    ∀ px py, px / 2 ^ k = x → py / 2 ^ k = y → image px py = none := by
  induction k generalizing x y with
  | zero =>
    simp only [pow_zero, Nat.div_one]
    exact ⟨fun missing px py column row => by rw [column, row]; exact missing,
      fun missing => missing x y rfl rfl⟩
  | succ k ih =>
    rw [level, mean_eq_none_iff]
    constructor
    · rintro missing px py rfl rfl
      have child : level image k (px / 2 ^ k) (py / 2 ^ k) = none := missing _
        (mem_children_level.mpr
          ⟨_, _, (div_two_pow_succ _ _).symm, (div_two_pow_succ _ _).symm, rfl⟩)
      exact ih.mp child px py rfl rfl
    · intro missing cell member
      obtain ⟨cx, cy, rfl, rfl, rfl⟩ := mem_children_level.mp member
      exact ih.mpr fun px py column row =>
        missing px py (by rw [div_two_pow_succ, column]) (by rw [div_two_pow_succ, row])

variable [LinearOrder K] [IsStrictOrderedRing K] {v : K}

/-- **Bounds.** A cell of a level lies between two cells of its block. -/
theorem level_between (present : level image k x y = some v) :
    (∃ px py u, px / 2 ^ k = x ∧ py / 2 ^ k = y ∧ image px py = some u ∧ u ≤ v) ∧
      ∃ px py u, px / 2 ^ k = x ∧ py / 2 ^ k = y ∧ image px py = some u ∧ v ≤ u := by
  induction k generalizing x y v with
  | zero =>
    simp only [pow_zero, Nat.div_one]
    exact ⟨⟨x, y, v, rfl, rfl, present, le_rfl⟩, x, y, v, rfl, rfl, present, le_rfl⟩
  | succ k ih =>
    obtain ⟨⟨u, low, below⟩, u', high, above⟩ := mean_between present
    constructor
    · obtain ⟨cx, cy, rfl, rfl, child⟩ := mem_children_level.mp low
      obtain ⟨⟨px, py, w, rfl, rfl, pixel, le⟩, -⟩ := ih child.symm
      exact ⟨px, py, w, div_two_pow_succ _ _, div_two_pow_succ _ _, pixel, le.trans below⟩
    · obtain ⟨cx, cy, rfl, rfl, child⟩ := mem_children_level.mp high
      obtain ⟨-, px, py, w, rfl, rfl, pixel, le⟩ := ih child.symm
      exact ⟨px, py, w, div_two_pow_succ _ _, div_two_pow_succ _ _, pixel, above.trans le⟩

end Levels

/-! ### Backfilling -/

section Backfill

variable {K : Type*} {levels : ℕ → Image K} {k d x y : ℕ}

/-- Level `k` with its missing cells filled from the `d` levels above it. -/
def backfill (levels : ℕ → Image K) : ℕ → ℕ → Image K
  | k, 0 => levels k
  | k, d + 1 => fun x y => (levels k x y).or (backfill levels (k + 1) d (x / 2) (y / 2))

theorem backfill_succ : backfill levels k (d + 1) x y =
    (levels k x y).or (backfill levels (k + 1) d (x / 2) (y / 2)) := rfl

/-- Below a cell that is present, a filled cell has the value of a level in between. -/
theorem backfill_of_present {j : ℕ} {v : K} (small : j ≤ d)
    (present : levels (k + j) (x / 2 ^ j) (y / 2 ^ j) = some v) :
    ∃ i ≤ j, backfill levels k d x y = levels (k + i) (x / 2 ^ i) (y / 2 ^ i) := by
  induction d generalizing j k x y with
  | zero => exact ⟨0, Nat.zero_le _, by simp [backfill]⟩
  | succ d ih =>
    cases here : levels k x y with
    | some u => exact ⟨0, Nat.zero_le _, by simp [backfill, here]⟩
    | none =>
      cases j with
      | zero => simp [here] at present
      | succ j =>
        rw [pow_succ', ← Nat.div_div_eq_div_mul, ← Nat.div_div_eq_div_mul, Nat.add_comm j 1,
          ← Nat.add_assoc] at present
        obtain ⟨i, near, filled⟩ := ih (by omega) present
        refine ⟨i + 1, by omega, ?_⟩
        rw [backfill_succ, here, Option.none_or, filled, Nat.div_div_eq_div_mul,
          Nat.div_div_eq_div_mul, ← pow_succ', Nat.add_comm i 1, ← Nat.add_assoc]

/-- Below a cell all of whose levels are missing, the topmost level shows. -/
theorem backfill_of_missing (missing : ∀ j < d, levels (k + j) (x / 2 ^ j) (y / 2 ^ j) = none) :
    backfill levels k d x y = levels (k + d) (x / 2 ^ d) (y / 2 ^ d) := by
  induction d generalizing k x y with
  | zero => simp [backfill]
  | succ d ih =>
    have here : levels k x y = none := by simpa using missing 0 (by omega)
    have above := ih (k := k + 1) (x := x / 2) (y := y / 2) fun j small => by
      have := missing (j + 1) (by omega)
      rwa [pow_succ', ← Nat.div_div_eq_div_mul, ← Nat.div_div_eq_div_mul, ← Nat.add_assoc,
        Nat.add_right_comm] at this
    rw [backfill_succ, here, Option.none_or, above, Nat.div_div_eq_div_mul, Nat.div_div_eq_div_mul,
      ← pow_succ', Nat.add_right_comm, Nat.add_assoc]

end Backfill

end Data
