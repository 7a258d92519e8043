import Mathlib.Algebra.Group.Int.Even
import Mathlib.Logic.Relation
import Sqwar.Data.LittleEndian
import Sqwar.Data.Tiling

/-!
# The plane subdivision

`Tile::Process` stops at a rectangle or splits it in two, along the longer side. Its two branches
halve an odd extent differently, and neither does it right: one child too narrow leaves the last
column or row out, and in the first branch the children also overlap. The leaves tile the image
exactly when no odd extent is ever split.
-/

set_option autoImplicit false

namespace Sqwar.Planes

open Data Relation

/-- `Rect`. -/
structure Rect where
  x : ℤ
  y : ℤ
  w : ℤ
  h : ℤ
  deriving DecidableEq, Repr

/-- The pixels of a rectangle. -/
def Rect.pixels (r : Rect) : Set (ℤ × ℤ) :=
  { p | r.x ≤ p.1 ∧ p.1 < r.x + r.w ∧ r.y ≤ p.2 ∧ p.2 < r.y + r.h }

theorem Rect.mem_pixels {r : Rect} {p : ℤ × ℤ} :
    p ∈ r.pixels ↔ r.x ≤ p.1 ∧ p.1 < r.x + r.w ∧ r.y ≤ p.2 ∧ p.2 < r.y + r.h := Iff.rfl

/-- `m_tiles[0]` after a split. -/
def Rect.firstTile (r : Rect) : Rect :=
  if r.w > r.h then ⟨r.x, r.y, r.w - r.w.tdiv 2, r.h⟩ else ⟨r.x, r.y, r.w, r.h.tdiv 2⟩

/-- `m_tiles[1]` after a split. -/
def Rect.secondTile (r : Rect) : Rect :=
  if r.w > r.h then ⟨r.x + r.w.tdiv 2, r.y, r.w.tdiv 2, r.h⟩
  else ⟨r.x, r.y + r.h.tdiv 2, r.w, r.h.tdiv 2⟩

/-- How `Tile::Process` goes on with a rectangle: it finds no plane and returns `false`, it pushes
a result, or it splits. -/
inductive Outcome | discard | keep | split
  deriving DecidableEq, Repr

/-- The outcomes of the tests for all rectangles. The corner points of a rectangle without width
or height lie on one line, so it has no plane and is not split. -/
structure SplitTests where
  outcome : Rect → Outcome
  flat : ∀ r, r.w < 1 ∨ r.h < 1 → outcome r ≠ .split

variable {tests : SplitTests} {r s : Rect}

theorem SplitTests.pos_of_split (splits : tests.outcome r = .split) : 1 ≤ r.w ∧ 1 ≤ r.h := by
  by_contra small
  exact tests.flat r (by omega) splits

theorem Rect.tdiv_two {n : ℤ} (pos : 1 ≤ n) : n.tdiv 2 = n / 2 :=
  Int.tdiv_eq_ediv_of_nonneg (by omega)

theorem Rect.firstTile_smaller (w : 1 ≤ r.w) (h : 1 ≤ r.h) :
    (r.firstTile.w + r.firstTile.h).toNat < (r.w + r.h).toNat := by
  unfold Rect.firstTile
  rw [Rect.tdiv_two w, Rect.tdiv_two h]
  split_ifs <;> simp only <;> omega

theorem Rect.secondTile_smaller (w : 1 ≤ r.w) (h : 1 ≤ r.h) :
    (r.secondTile.w + r.secondTile.h).toNat < (r.w + r.h).toNat := by
  unfold Rect.secondTile
  rw [Rect.tdiv_two w, Rect.tdiv_two h]
  split_ifs <;> simp only <;> omega

/-- The rectangles at which the recursion of `Tile::Process` stops, in the order it reaches
them. -/
def leaves (tests : SplitTests) (r : Rect) : List Rect :=
  if _ : tests.outcome r = .split then
    leaves tests r.firstTile ++ leaves tests r.secondTile
  else [r]
termination_by (r.w + r.h).toNat
decreasing_by
  · exact Rect.firstTile_smaller (SplitTests.pos_of_split ‹_›).1 (SplitTests.pos_of_split ‹_›).2
  · exact Rect.secondTile_smaller (SplitTests.pos_of_split ‹_›).1 (SplitTests.pos_of_split ‹_›).2

/-- `Process` of the first rectangle calls `Process` of the second. -/
def Calls (tests : SplitTests) (r s : Rect) : Prop :=
  tests.outcome r = .split ∧ (s = r.firstTile ∨ s = r.secondTile)

/-- The side that a split halves is even. -/
def Rect.HalvesEvenly (r : Rect) : Prop := if r.w > r.h then Even r.w else Even r.h

instance (r : Rect) : Decidable r.HalvesEvenly := by
  unfold Rect.HalvesEvenly
  infer_instance

/-! ### One split -/

theorem Rect.firstTile_subset (w : 1 ≤ r.w) (h : 1 ≤ r.h) : r.firstTile.pixels ⊆ r.pixels := by
  intro p inside
  unfold Rect.firstTile at inside
  rw [Rect.tdiv_two w, Rect.tdiv_two h] at inside
  split_ifs at inside <;> simp only [Rect.mem_pixels] at inside ⊢ <;> omega

theorem Rect.secondTile_subset (w : 1 ≤ r.w) (h : 1 ≤ r.h) : r.secondTile.pixels ⊆ r.pixels := by
  intro p inside
  unfold Rect.secondTile at inside
  rw [Rect.tdiv_two w, Rect.tdiv_two h] at inside
  split_ifs at inside <;> simp only [Rect.mem_pixels] at inside ⊢ <;> omega

/-- An even split cuts the rectangle in two. -/
theorem Rect.union_of_halvesEvenly (w : 1 ≤ r.w) (h : 1 ≤ r.h) (even : r.HalvesEvenly) :
    r.firstTile.pixels ∪ r.secondTile.pixels = r.pixels ∧
      Disjoint r.firstTile.pixels r.secondTile.pixels := by
  unfold Rect.HalvesEvenly at even
  unfold Rect.firstTile Rect.secondTile
  rw [Rect.tdiv_two w, Rect.tdiv_two h]
  split_ifs at even ⊢ with wide
  · obtain ⟨half, even⟩ := even
    refine ⟨Set.ext fun p => ?_, Set.disjoint_left.mpr fun p => ?_⟩ <;>
      simp only [Set.mem_union, Rect.mem_pixels] <;> omega
  · obtain ⟨half, even⟩ := even
    refine ⟨Set.ext fun p => ?_, Set.disjoint_left.mpr fun p => ?_⟩ <;>
      simp only [Set.mem_union, Rect.mem_pixels] <;> omega

/-- An odd split leaves out the pixel in the last corner. -/
theorem Rect.corner_notMem_union (w : 1 ≤ r.w) (h : 1 ≤ r.h) (odd : ¬ r.HalvesEvenly) :
    (r.x + r.w - 1, r.y + r.h - 1) ∈ r.pixels ∧
      (r.x + r.w - 1, r.y + r.h - 1) ∉ r.firstTile.pixels ∪ r.secondTile.pixels := by
  refine ⟨by rw [Rect.mem_pixels]; omega, ?_⟩
  -- in either branch the second child ends one short of the last column or row
  unfold Rect.HalvesEvenly at odd
  unfold Rect.firstTile Rect.secondTile
  rw [Rect.tdiv_two w, Rect.tdiv_two h]
  split_ifs at odd ⊢ with wide
  · rw [Int.not_even_iff] at odd
    simp only [Set.mem_union, Rect.mem_pixels]
    omega
  · rw [Int.not_even_iff] at odd
    simp only [Set.mem_union, Rect.mem_pixels]
    omega

/-- The two children tile a rectangle if and only if the split is even. -/
theorem Rect.tiles_split_iff (w : 1 ≤ r.w) (h : 1 ≤ r.h) :
    Tiles Rect.pixels [r.firstTile, r.secondTile] r.pixels ↔ r.HalvesEvenly := by
  constructor
  · intro tiles
    by_contra odd
    obtain ⟨inside, missed⟩ := Rect.corner_notMem_union w h odd
    refine not_tiles_of_notMem (fun part member => ?_) inside missed tiles
    have either : part = r.firstTile ∨ part = r.secondTile := by simpa using member
    rcases either with rfl | rfl
    · exact Set.subset_union_left
    · exact Set.subset_union_right
  · intro even
    obtain ⟨union, apart⟩ := Rect.union_of_halvesEvenly w h even
    -- each child is the only part on its side
    have parts : [r.firstTile, r.secondTile] = [r.firstTile] ++ [r.secondTile] := rfl
    rw [parts, ← union, tiles_append_iff apart]
    · exact ⟨tiles_singleton _, tiles_singleton _⟩
    · intro part member
      rw [List.mem_singleton.mp member]
    · intro part member
      rw [List.mem_singleton.mp member]

/-! ### The recursion -/

/-- Every rectangle that the recursion from `r` splits is split evenly. -/
def EvenSplits (tests : SplitTests) (r : Rect) : Prop :=
  ∀ s, ReflTransGen (Calls tests) r s → tests.outcome s = .split → s.HalvesEvenly

theorem leaves_of_split (splits : tests.outcome r = .split) :
    leaves tests r = leaves tests r.firstTile ++ leaves tests r.secondTile := by
  rw [leaves, dif_pos splits]

theorem leaves_of_not_split (stops : tests.outcome r ≠ .split) : leaves tests r = [r] := by
  rw [leaves, dif_neg stops]

theorem evenSplits_of_not_split (stops : tests.outcome r ≠ .split) : EvenSplits tests r := by
  intro s reached splits
  rcases reached.cases_head with rfl | ⟨next, calls, -⟩
  · exact absurd splits stops
  · exact absurd calls.1 stops

/-- One-step unfolding of the splits of a recursion. -/
theorem evenSplits_of_split (splits : tests.outcome r = .split) :
    EvenSplits tests r ↔
      r.HalvesEvenly ∧ EvenSplits tests r.firstTile ∧ EvenSplits tests r.secondTile := by
  constructor
  · intro even
    exact ⟨even r .refl splits, fun s reached => even s (.head ⟨splits, .inl rfl⟩ reached),
      fun s reached => even s (.head ⟨splits, .inr rfl⟩ reached)⟩
  · rintro ⟨here, first, second⟩ s reached
    rcases reached.cases_head with rfl | ⟨next, ⟨-, rfl | rfl⟩, later⟩
    · exact fun _ => here
    · exact first s later
    · exact second s later

/-- The recursion never leaves its rectangle. -/
theorem leaves_subset (tests : SplitTests) (r : Rect) :
    ∀ leaf ∈ leaves tests r, leaf.pixels ⊆ r.pixels := by
  induction r using leaves.induct tests with
  | case1 r splits ihFirst ihSecond =>
    obtain ⟨w, h⟩ := SplitTests.pos_of_split splits
    rw [leaves_of_split splits]
    intro leaf member
    rcases List.mem_append.mp member with first | second
    · exact (ihFirst leaf first).trans (Rect.firstTile_subset w h)
    · exact (ihSecond leaf second).trans (Rect.secondTile_subset w h)
  | case2 r stops =>
    rw [leaves_of_not_split stops]
    intro leaf member
    rw [List.mem_singleton.mp member]

/-- The leaves tile the rectangle if and only if all splits are even. -/
theorem tiles_leaves_iff (tests : SplitTests) (r : Rect) :
    Tiles Rect.pixels (leaves tests r) r.pixels ↔ EvenSplits tests r := by
  induction r using leaves.induct tests with
  | case1 r splits ihFirst ihSecond =>
    obtain ⟨w, h⟩ := SplitTests.pos_of_split splits
    have inFirst := leaves_subset tests r.firstTile
    have inSecond := leaves_subset tests r.secondTile
    rw [leaves_of_split splits, evenSplits_of_split splits, ← ihFirst, ← ihSecond]
    by_cases even : r.HalvesEvenly
    · obtain ⟨union, apart⟩ := Rect.union_of_halvesEvenly w h even
      rw [← union, tiles_append_iff apart inFirst inSecond]
      exact (and_iff_right even).symm
    · -- no later split can win back the corner that this one lost
      obtain ⟨inside, missed⟩ := Rect.corner_notMem_union w h even
      refine iff_of_false (not_tiles_of_notMem (fun part member => ?_) inside missed)
        fun all => even all.1
      rcases List.mem_append.mp member with first | second
      · exact (inFirst part first).trans Set.subset_union_left
      · exact (inSecond part second).trans Set.subset_union_right
  | case2 r stops =>
    rw [leaves_of_not_split stops]
    exact iff_of_true (tiles_singleton r) (evenSplits_of_not_split stops)

/-- **The subdivision tiles a rectangle exactly when no odd extent is split.** For every starting
rectangle, the whole image among them, and every outcome of the tests: each split cuts its
rectangle in two and the leaves tile the start, if and only if every split is even. -/
theorem subdivision_tiles_iff (tests : SplitTests) (r : Rect) :
    ((∀ s, ReflTransGen (Calls tests) r s → tests.outcome s = .split →
        Tiles Rect.pixels [s.firstTile, s.secondTile] s.pixels) ∧
      Tiles Rect.pixels (leaves tests r) r.pixels) ↔ EvenSplits tests r := by
  refine ⟨fun tiles => (tiles_leaves_iff tests r).mp tiles.2, fun even => ⟨?_, ?_⟩⟩
  · intro s reached splits
    obtain ⟨w, h⟩ := SplitTests.pos_of_split splits
    exact (Rect.tiles_split_iff w h).mpr (even s reached splits)
  · exact (tiles_leaves_iff tests r).mpr even

end Sqwar.Planes
