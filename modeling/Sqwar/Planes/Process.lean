import Mathlib.Algebra.Order.Ring.Rat
import Mathlib.Data.Rat.Sqrt
import Mathlib.LinearAlgebra.CrossProduct
import Mathlib.Tactic.Linarith
import Mathlib.Tactic.Positivity
import Mathlib.Tactic.Zify
import Sqwar.Planes.Subdivision
import Sqwar.Semantics.Loop

/-!
# Fitting planes to tiles

`Tile::Process` looks for a valid point from each corner of its rectangle, puts a plane through
them and splits the rectangle where points lie too far from the plane. A rectangle of zero width or
height is split into itself, but is never split: two pairs of its corner searches find the same
points, so no plane goes through them. Numbers are the elements of a linearly ordered field, and
coordinates are integers.
-/

set_option autoImplicit false

namespace Sqwar.Planes

open Semantics

variable {K : Type*}

/-- `Vec4f`: a point and its packed colour. The point is missing where its first coordinate is
infinite. -/
structure Vec4f (K : Type*) where
  point : Option (Fin 3 → K)
  w : K

/-- `_v3`, of a point whose first coordinate is finite. -/
def Vec4f.v3 [Zero K] (v : Vec4f K) : Fin 3 → K := v.point.getD 0

/-- `IsValid`. -/
def Vec4f.IsValid [Zero K] (v : Vec4f K) : Prop :=
  match v.point with
  | none => False
  | some p => p 0 ≠ 0 ∨ p 1 ≠ 0 ∨ p 2 ≠ 0

instance [Zero K] [DecidableEq K] (v : Vec4f K) : Decidable v.IsValid := by
  unfold Vec4f.IsValid
  split <;> infer_instance

/-- `Buffer`: an image of points, row by row. -/
structure Buffer (K : Type*) where
  depthPths : List (Vec4f K)
  width : ℕ
  height : ℕ
  length_eq : depthPths.length = height * width

/-- `Result`, as `Tile::Process` makes it. -/
structure Result (K : Type*) where
  r : Rect
  q : Fin 4 → Vec4f K
  maxDistFound : K
  normal : Fin 3 → K
  pt0 : Vec4f K
  isPicked : Bool

/-- What `SetPlaneConstants` sets, and the square root. -/
structure PlaneConstants (K : Type*) where
  mindist : K
  splitThreshold : K
  minDPVal : K
  maxCoverage : K
  sqrt : K → K

/-- What goes wrong in a call: an access outside the buffer, or a recursion deeper than allowed. -/
inductive Failure | outside | tooDeep
  deriving DecidableEq, Repr

/-- What the tests of a tile lead to: it is given up, split or kept as a result. -/
inductive Verdict (K : Type*)
  | discard
  | split
  | keep (result : Result K)

section Corners

variable (b : Buffer K) (r : Rect)

/-- The index that `GetPt` computes. -/
def Buffer.index (x y : ℤ) : ℤ :=
  min ((b.height : ℤ) - 1) (y + r.y) * b.width + min ((b.width : ℤ) - 1) (x + r.x)

/-- `Tile::GetPt`. -/
def Buffer.getPt (x y : ℤ) : Except Failure (Vec4f K) :=
  if 0 ≤ b.index r x y then
    match b.depthPths[(b.index r x y).toNat]? with
    | some pt => .ok pt
    | none => .error .outside
  else .error .outside

/-- `for (int x = 0; x <= n; ++x)`. -/
def upTo (n : ℤ) : List ℤ := (List.range (n + 1).toNat).map (↑)

/-- `for (int x = n; x >= 0; --x)`. -/
def downFrom (n : ℤ) : List ℤ := (upTo n).reverse

/-- The pixels that two nested loops visit. -/
def visited (rows columns : List ℤ) : List (ℤ × ℤ) :=
  rows.flatMap fun y => columns.map fun x => (x, y)

variable [Zero K] [DecidableEq K]

/-- Two nested loops that stop at the first valid point. -/
def firstValid : List (ℤ × ℤ) → Except Failure (Option (Vec4f K))
  | [] => .ok none
  | (x, y) :: rest => do
    let pt ← b.getPt r x y
    if pt.IsValid then .ok (some pt) else firstValid rest

end Corners

section Tests

variable [Field K] [LinearOrder K] (c : PlaneConstants K)

/-- `length`. -/
def PlaneConstants.length (v : Fin 3 → K) : K :=
  if v ⬝ᵥ v = 0 then 0 else c.sqrt (v ⬝ᵥ v)

/-- `normalize`. -/
def PlaneConstants.normalize (v : Fin 3 → K) : Fin 3 → K :=
  if c.length v ≠ 0 then fun i => v i / c.length v else v

/-- `nrm1`, before it is normalized. -/
def PlaneConstants.planeNormal (ptl ptr pbl pbr : Vec4f K) : Fin 3 → K :=
  let vec1 := pbr.v3 - ptr.v3
  let vec2 := ptr.v3 - ptl.v3
  let vec3 := pbl.v3 - ptl.v3
  if c.length (crossProduct vec1 vec2) = 0 then
    if c.length (crossProduct vec1 vec3) = 0 then crossProduct vec2 vec3
    else crossProduct vec1 vec3
  else crossProduct vec1 vec2

variable (b : Buffer K) (r : Rect)

/-- The nested loops over the distances from the plane: `split`, `maxDistFound` and `numPts`. -/
def distances (planePt : Vec4f K) (nrm1 : Fin 3 → K) :
    List (ℤ × ℤ) → K → K → Except Failure (Bool × K × K)
  | [], maxDistFound, numPts => .ok (false, maxDistFound, numPts)
  | (x, y) :: rest, maxDistFound, numPts => do
    let pt ← b.getPt r x y
    if pt.IsValid then
      let dp := |(pt.v3 - planePt.v3) ⬝ᵥ nrm1|
      -- a point too far away is still counted before the loops end
      if dp > c.mindist then .ok (true, maxDistFound + dp, numPts + 1)
      else distances planePt nrm1 rest (maxDistFound + dp) (numPts + 1)
    else distances planePt nrm1 rest maxDistFound numPts

/-- `Tile::Process` of a rectangle up to where it acts on `split`. -/
def tests : Except Failure (Verdict K) := do
  let ptl ← firstValid b r (visited (upTo r.h) (upTo r.w))
  let ptr ← firstValid b r (visited (upTo r.h) (downFrom r.w))
  let pbl ← firstValid b r (visited (downFrom r.h) (upTo r.w))
  let pbr ← firstValid b r (visited (downFrom r.h) (downFrom r.w))
  match ptl, ptr, pbl, pbr with
  | some ptl, some ptr, some pbl, some pbr =>
    if c.length (c.planeNormal ptl ptr pbl pbr) = 0 then .ok .discard
    else
      let nrm1 := c.normalize (c.planeNormal ptl ptr pbl pbr)
      let (split, sum, numPts) ← distances c b r ptl nrm1 (visited (upTo r.h) (upTo r.w)) 0 0
      let maxDistFound := sum / numPts
      if split ∨ maxDistFound > c.splitThreshold then .ok .split
      else .ok (.keep ⟨r, ![ptl, ptr, pbl, pbr], maxDistFound, nrm1, ptl, false⟩)
  -- `found < 4`
  | _, _, _, _ => .ok .discard

/-- `Tile::Process`, with a bound on the depth of the recursion: the value it returns, and
`quads`. -/
def process (depth : ℕ) (r : Rect) (quads : List (Result K)) :
    Except Failure (Bool × List (Result K)) :=
  match depth with
  | 0 => .error .tooDeep
  | depth + 1 => do
    match ← tests c b r with
    | .discard => .ok (false, quads)
    | .keep result => .ok (true, quads ++ [result])
    | .split =>
      let (_, quads) ← process depth r.firstTile quads
      let (_, quads) ← process depth r.secondTile quads
      .ok (true, quads)

end Tests

/-! ### Flat rectangles -/

theorem downFrom_zero : downFrom 0 = upTo 0 := rfl

theorem mem_upTo {n i : ℤ} : i ∈ upTo n ↔ 0 ≤ i ∧ i ≤ n := by
  unfold upTo
  rw [List.mem_map]
  constructor
  · rintro ⟨k, small, rfl⟩
    rw [List.mem_range] at small
    omega
  · rintro ⟨pos, small⟩
    exact ⟨i.toNat, List.mem_range.mpr (by omega), Int.toNat_of_nonneg pos⟩

theorem mem_downFrom {n i : ℤ} : i ∈ downFrom n ↔ 0 ≤ i ∧ i ≤ n := by
  rw [downFrom, List.mem_reverse, mem_upTo]

theorem upTo_of_neg {n : ℤ} (neg : n < 0) : upTo n = [] := by
  rw [upTo, Int.toNat_eq_zero.mpr (by omega), List.range_zero, List.map_nil]

theorem mem_visited {rows columns : List ℤ} {p : ℤ × ℤ} :
    p ∈ visited rows columns ↔ p.1 ∈ columns ∧ p.2 ∈ rows := by
  obtain ⟨x, y⟩ := p
  simp only [visited, List.mem_flatMap, List.mem_map, Prod.mk.injEq]
  constructor
  · rintro ⟨y', row, x', column, rfl, rfl⟩
    exact ⟨column, row⟩
  · rintro ⟨column, row⟩
    exact ⟨y, row, x, column, rfl, rfl⟩

section Flat

variable [Field K] [LinearOrder K] {c : PlaneConstants K} {b : Buffer K} {r : Rect}

theorem PlaneConstants.length_zero : c.length 0 = 0 := by
  rw [PlaneConstants.length, if_pos (zero_dotProduct _)]

/-- No plane goes through corners of which two pairs are the same: the two left and the two right
ones. -/
theorem PlaneConstants.length_planeNormal_columns (left right : Vec4f K) :
    c.length (c.planeNormal left right left right) = 0 := by
  simp [PlaneConstants.planeNormal, PlaneConstants.length_zero]

/-- The same for the two upper and the two lower ones. -/
theorem PlaneConstants.length_planeNormal_rows (upper lower : Vec4f K) :
    c.length (c.planeNormal upper upper lower lower) = 0 := by
  simp [PlaneConstants.planeNormal, PlaneConstants.length_zero]

/-- A rectangle is split only if its searches find corners with a plane through them. -/
theorem corners_of_split (splits : tests c b r = .ok .split) : ∃ ptl ptr pbl pbr,
    firstValid b r (visited (upTo r.h) (upTo r.w)) = .ok (some ptl) ∧
      firstValid b r (visited (upTo r.h) (downFrom r.w)) = .ok (some ptr) ∧
      firstValid b r (visited (downFrom r.h) (upTo r.w)) = .ok (some pbl) ∧
      firstValid b r (visited (downFrom r.h) (downFrom r.w)) = .ok (some pbr) ∧
      c.length (c.planeNormal ptl ptr pbl pbr) ≠ 0 := by
  unfold tests at splits
  obtain ⟨ptl, findsTl, splits⟩ := bind_eq_ok_iff.mp splits
  obtain ⟨ptr, findsTr, splits⟩ := bind_eq_ok_iff.mp splits
  obtain ⟨pbl, findsBl, splits⟩ := bind_eq_ok_iff.mp splits
  obtain ⟨pbr, findsBr, splits⟩ := bind_eq_ok_iff.mp splits
  split at splits
  · split_ifs at splits with degenerate
    · cases splits
    · exact ⟨_, _, _, _, findsTl, findsTr, findsBl, findsBr, degenerate⟩
  · cases splits

/-- A rectangle without width or height is not split. -/
theorem tests_ne_split_of_flat (flat : r.w < 1 ∨ r.h < 1) : tests c b r ≠ .ok .split := by
  intro splits
  obtain ⟨ptl, ptr, pbl, pbr, findsTl, findsTr, findsBl, findsBr, plane⟩ := corners_of_split splits
  rcases flat with width | height
  · rcases (show r.w < 0 ∨ r.w = 0 by omega) with neg | zero
    · -- the loops over the columns do nothing
      have none_visited (rows : List ℤ) : visited rows ([] : List ℤ) = [] := by simp [visited]
      rw [upTo_of_neg neg, none_visited] at findsTl
      cases findsTl
    · rw [zero, downFrom_zero] at findsTr findsBr
      rw [zero] at findsTl findsBl
      obtain rfl := Option.some.inj (Except.ok.inj (findsTl.symm.trans findsTr))
      obtain rfl := Option.some.inj (Except.ok.inj (findsBl.symm.trans findsBr))
      exact plane (c.length_planeNormal_rows _ _)
  · rcases (show r.h < 0 ∨ r.h = 0 by omega) with neg | zero
    · rw [upTo_of_neg neg] at findsTl
      cases findsTl
    · rw [zero, downFrom_zero] at findsBl findsBr
      rw [zero] at findsTl findsTr
      obtain rfl := Option.some.inj (Except.ok.inj (findsTl.symm.trans findsBl))
      obtain rfl := Option.some.inj (Except.ok.inj (findsTr.symm.trans findsBr))
      exact plane (c.length_planeNormal_columns _ _)

/-- Splitting it would not make it smaller. -/
example : Rect.firstTile ⟨0, 0, 1, 0⟩ = ⟨0, 0, 1, 0⟩ := rfl

/-- What a verdict means for the recursion. -/
def Verdict.outcome : Verdict K → Outcome
  | .discard => .discard
  | .split => .split
  | .keep _ => .keep

variable (c b) in
/-- The outcomes of the tests on an image. Where they fail there is nothing to go on with. -/
def splitTests : SplitTests where
  outcome r :=
    match tests c b r with
    | .ok verdict => verdict.outcome
    | .error _ => .discard
  flat r flat := by
    have stays := tests_ne_split_of_flat (c := c) (b := b) flat
    match found : tests c b r with
    | .ok .discard => exact nofun
    | .ok .split => exact absurd found stays
    | .ok (.keep _) => exact nofun
    | .error _ => exact nofun

end Flat

/-! ### Accesses -/

section Accesses

variable {b : Buffer K} {r : Rect} {x y : ℤ}

/-- The pixel that `GetPt(0, 0)` looks at is in the buffer. -/
def Buffer.CornerInside (b : Buffer K) (r : Rect) : Prop :=
  0 ≤ b.index r 0 0 ∧ b.index r 0 0 < b.height * b.width

theorem Buffer.getPt_eq_ok (inside : 0 ≤ b.index r x y ∧ b.index r x y < b.height * b.width) :
    ∃ pt, b.getPt r x y = .ok pt := by
  have small : (b.index r x y).toNat < b.depthPths.length := by
    rw [b.length_eq]
    zify
    rw [Int.toNat_of_nonneg inside.1]
    exact inside.2
  refine ⟨b.depthPths[(b.index r x y).toNat], ?_⟩
  rw [Buffer.getPt, if_pos inside.1, List.getElem?_eq_getElem small]

theorem Buffer.getPt_eq_error
    (outside : ¬ (0 ≤ b.index r x y ∧ b.index r x y < b.height * b.width)) :
    b.getPt r x y = .error .outside := by
  unfold Buffer.getPt
  split_ifs with pos
  · rw [List.getElem?_eq_none]
    rw [b.length_eq]
    zify
    rw [Int.toNat_of_nonneg pos]
    exact not_lt.mp fun small => outside ⟨pos, small⟩
  · rfl

/-- The pixel at the corner has the least index. -/
theorem Buffer.index_mono {s : Rect} (right : r.x ≤ x + s.x) (down : r.y ≤ y + s.y) :
    b.index r 0 0 ≤ b.index s x y := by
  unfold Buffer.index
  rw [zero_add, zero_add]
  exact add_le_add (mul_le_mul_of_nonneg_right (min_le_min_left _ down) (Int.natCast_nonneg _))
    (min_le_min_left _ right)

theorem Buffer.index_lt : b.index r x y < b.height * b.width := by
  have le : b.index r x y ≤ ((b.height : ℤ) - 1) * b.width + ((b.width : ℤ) - 1) :=
    add_le_add (mul_le_mul_of_nonneg_right (min_le_left _ _) (Int.natCast_nonneg _))
      (min_le_left _ _)
  linarith

/-- Behind a corner inside the buffer, all pixels are inside. -/
theorem Buffer.CornerInside.inside {s : Rect} (corner : b.CornerInside r) (right : r.x ≤ x + s.x)
    (down : r.y ≤ y + s.y) : 0 ≤ b.index s x y ∧ b.index s x y < b.height * b.width := by
  exact ⟨corner.1.trans (Buffer.index_mono right down), Buffer.index_lt⟩

theorem Buffer.CornerInside.firstTile (corner : b.CornerInside r) : b.CornerInside r.firstTile := by
  refine corner.inside ?_ ?_ <;> unfold Rect.firstTile <;> split_ifs <;> simp

theorem Buffer.CornerInside.secondTile (corner : b.CornerInside r) (w : 1 ≤ r.w) (h : 1 ≤ r.h) :
    b.CornerInside r.secondTile := by
  refine corner.inside ?_ ?_ <;> unfold Rect.secondTile <;>
    rw [Rect.tdiv_two w, Rect.tdiv_two h] <;> split_ifs <;> simp only <;> omega

/-- In an image with a pixel, a corner without negative coordinates is inside the buffer. -/
theorem Buffer.cornerInside_of_nonneg (wide : 0 < b.width) (high : 0 < b.height) (left : 0 ≤ r.x)
    (top : 0 ≤ r.y) : b.CornerInside r := by
  refine ⟨?_, Buffer.index_lt⟩
  unfold Buffer.index
  have row : 0 ≤ min ((b.height : ℤ) - 1) (0 + r.y) := by omega
  have column : 0 ≤ min ((b.width : ℤ) - 1) (0 + r.x) := by omega
  positivity

end Accesses

/-! ### The recursion returns -/

section Recursion

variable [Field K] [LinearOrder K] {c : PlaneConstants K} {b : Buffer K} {r : Rect}

/-- A search returns if its accesses do. -/
theorem firstValid_eq_ok {ps : List (ℤ × ℤ)} (reads : ∀ p ∈ ps, ∃ pt, b.getPt r p.1 p.2 = .ok pt) :
    ∃ found, firstValid b r ps = .ok found := by
  induction ps with
  | nil => exact ⟨none, rfl⟩
  | cons p rest ih =>
    obtain ⟨pt, read⟩ := reads p List.mem_cons_self
    obtain ⟨found, finds⟩ := ih fun q member => reads q (List.mem_cons_of_mem p member)
    rw [firstValid, read]
    simp only [bind, Except.bind]
    split_ifs
    · exact ⟨some pt, rfl⟩
    · exact ⟨found, finds⟩

/-- So does the loop over the distances. -/
theorem distances_eq_ok {ps : List (ℤ × ℤ)} (reads : ∀ p ∈ ps, ∃ pt, b.getPt r p.1 p.2 = .ok pt)
    (planePt : Vec4f K) (nrm1 : Fin 3 → K) (sum numPts : K) :
    ∃ found, distances c b r planePt nrm1 ps sum numPts = .ok found := by
  induction ps generalizing sum numPts with
  | nil => exact ⟨_, rfl⟩
  | cons p rest ih =>
    obtain ⟨pt, read⟩ := reads p List.mem_cons_self
    have ih := ih fun q member => reads q (List.mem_cons_of_mem p member)
    rw [distances, read]
    simp only [bind, Except.bind]
    split_ifs
    · exact ⟨_, rfl⟩
    · exact ih _ _
    · exact ih _ _

/-- Behind a corner inside the buffer, the tests return. -/
theorem tests_eq_ok (corner : b.CornerInside r) : ∃ verdict, tests c b r = .ok verdict := by
  have reads : ∀ rows columns : List ℤ, (∀ y ∈ rows, 0 ≤ y) → (∀ x ∈ columns, 0 ≤ x) →
      ∀ p ∈ visited rows columns, ∃ pt, b.getPt r p.1 p.2 = .ok pt := by
    intro rows columns down right p member
    obtain ⟨column, row⟩ := mem_visited.mp member
    have := right p.1 column
    have := down p.2 row
    exact Buffer.getPt_eq_ok (corner.inside (by omega) (by omega))
  have up : ∀ n, ∀ i ∈ upTo n, 0 ≤ i := fun n i member => (mem_upTo.mp member).1
  have down : ∀ n, ∀ i ∈ downFrom n, 0 ≤ i := fun n i member => (mem_downFrom.mp member).1
  obtain ⟨ptl, findsTl⟩ := firstValid_eq_ok (reads _ _ (up r.h) (up r.w))
  obtain ⟨ptr, findsTr⟩ := firstValid_eq_ok (reads _ _ (up r.h) (down r.w))
  obtain ⟨pbl, findsBl⟩ := firstValid_eq_ok (reads _ _ (down r.h) (up r.w))
  obtain ⟨pbr, findsBr⟩ := firstValid_eq_ok (reads _ _ (down r.h) (down r.w))
  rw [tests, findsTl, findsTr, findsBl, findsBr]
  simp only [bind, Except.bind]
  split
  · split_ifs
    · exact ⟨_, rfl⟩
    · obtain ⟨found, sums⟩ := distances_eq_ok (c := c) (reads _ _ (up r.h) (up r.w)) _ _ 0 0
      rw [sums]
      simp only
      split_ifs <;> exact ⟨_, rfl⟩
  · exact ⟨_, rfl⟩

/-- Whose corner is outside the buffer, the tests fail at once. -/
theorem tests_eq_error (w : 0 ≤ r.w) (h : 0 ≤ r.h) (outside : ¬ b.CornerInside r) :
    tests c b r = .error .outside := by
  have first : visited (upTo r.h) (upTo r.w) = (0, 0) :: (visited (upTo r.h) (upTo r.w)).tail := by
    unfold visited upTo
    rw [show (r.h + 1).toNat = r.h.toNat + 1 by omega,
      show (r.w + 1).toNat = r.w.toNat + 1 by omega, List.range_succ_eq_map,
      List.range_succ_eq_map]
    rfl
  rw [tests, first, firstValid, Buffer.getPt_eq_error outside]
  rfl

variable (c b) in
/-- The result that a rectangle is kept as. -/
def kept (r : Rect) : Option (Result K) :=
  match tests c b r with
  | .ok (.keep result) => some result
  | _ => none

theorem outcome_splitTests {verdict : Verdict K} (found : tests c b r = .ok verdict) :
    (splitTests c b).outcome r = verdict.outcome := by
  simp only [splitTests, found]

/-- **`Tile::Process` returns.** Behind a corner inside the buffer it visits the leaves of the
subdivision in order and pushes the results of those it keeps, at a depth of at most `w + h`. -/
theorem process_eq_ok (corner : b.CornerInside r) {depth : ℕ}
    (enough : (r.w + r.h).toNat < depth) (quads : List (Result K)) :
    process c b depth r quads = .ok (decide ((splitTests c b).outcome r ≠ .discard),
      quads ++ (leaves (splitTests c b) r).filterMap (kept c b)) := by
  induction depth generalizing r quads with
  | zero => exact absurd enough (Nat.not_lt_zero _)
  | succ depth ih =>
    obtain ⟨verdict, found⟩ := tests_eq_ok (c := c) corner
    have outcome := outcome_splitTests found
    rw [process, found]
    simp only [bind, Except.bind]
    cases verdict with
    | discard =>
      rw [leaves_of_not_split (outcome.trans_ne nofun), outcome]
      simp [kept, found, Verdict.outcome]
    | keep result =>
      rw [leaves_of_not_split (outcome.trans_ne nofun), outcome]
      simp [kept, found, Verdict.outcome]
    | split =>
      obtain ⟨w, h⟩ := SplitTests.pos_of_split outcome
      have first := Rect.firstTile_smaller w h
      have second := Rect.secondTile_smaller w h
      rw [ih corner.firstTile (by omega), leaves_of_split outcome, outcome]
      simp only
      rw [ih (corner.secondTile w h) (by omega), List.filterMap_append, List.append_assoc]
      rfl

/-- **The plane subdivision terminates**, whatever the image, the constants and the square root: a
rectangle whose first pixel is in the buffer is processed with all accesses inside, at a depth of
at most `w + h`, and any other fails with its first access. The sums `x + w` and `y + h` and the
number of points are taken to be ints; beyond that, loops and indices wrap. -/
theorem process_terminates (c : PlaneConstants K) (b : Buffer K) (r : Rect) (w : 0 ≤ r.w)
    (h : 0 ≤ r.h) (quads : List (Result K)) {depth : ℕ} (enough : (r.w + r.h).toNat < depth) :
    (b.CornerInside r → ∃ found results, process c b depth r quads = .ok (found, results)) ∧
      (¬ b.CornerInside r → process c b depth r quads = .error .outside) := by
  refine ⟨fun corner => ⟨_, _, process_eq_ok corner enough quads⟩, fun outside => ?_⟩
  cases depth with
  | zero => exact absurd enough (Nat.not_lt_zero _)
  | succ depth =>
    rw [process, tests_eq_error w h outside]
    rfl

end Recursion

/-- Four points of a unit square, one unit away. -/
def unitSquare : Buffer ℚ where
  depthPths := [⟨some ![0, 0, 1], 0⟩, ⟨some ![1, 0, 1], 0⟩, ⟨some ![0, 1, 1], 0⟩,
    ⟨some ![1, 1, 1], 0⟩]
  width := 2
  height := 2
  length_eq := rfl

/-- Thresholds below zero, which split every tile that has a plane. -/
def splitAll : PlaneConstants ℚ := ⟨-1, -1, 0, 0, Rat.sqrt⟩

theorem process_terminates_unitSquare :
    ∃ found results, process splitAll unitSquare 5 ⟨0, 0, 2, 2⟩ [] = .ok (found, results) :=
  (process_terminates splitAll unitSquare ⟨0, 0, 2, 2⟩ (by decide) (by decide) []
    (by decide)).1 ⟨by decide, by decide⟩

/-- Left of the image, the first pixel that is looked at lies before the buffer. -/
theorem process_leftOf_unitSquare :
    process splitAll unitSquare 1 ⟨-1, 0, 0, 0⟩ [] = .error .outside ∧
      ¬ ∃ depth found results,
        process splitAll unitSquare depth ⟨-1, 0, 0, 0⟩ [] = .ok (found, results) := by
  refine ⟨rfl, ?_⟩
  rintro ⟨depth, found, results, returns⟩
  cases depth with
  | zero => cases returns
  | succ depth => cases returns

/-- The constants as they are at first. -/
def defaultConstants : PlaneConstants ℚ := ⟨1 / 20, 1 / 400, 9 / 10, 20, Rat.sqrt⟩

/-- Two rows of three points, of which the last lies behind the others. -/
def threeByTwo : Buffer ℚ where
  depthPths := [⟨some ![0, 0, 1], 0⟩, ⟨some ![3 / 4, 0, 1], 0⟩, ⟨some ![3 / 2, 0, 3], 0⟩,
    ⟨some ![0, 1, 1], 0⟩, ⟨some ![3 / 4, 1, 1], 0⟩, ⟨some ![3 / 2, 1, 3], 0⟩]
  width := 3
  height := 2
  length_eq := rfl

/-- The image is split, its halves overlap in the second column, and the third is in neither. -/
theorem not_tiles_threeByTwo :
    ¬ Data.Tiles Rect.pixels (leaves (splitTests defaultConstants threeByTwo) ⟨0, 0, 3, 2⟩)
      (Rect.pixels ⟨0, 0, 3, 2⟩) := by
  rw [tiles_leaves_iff]
  intro even
  have splits : (splitTests defaultConstants threeByTwo).outcome ⟨0, 0, 3, 2⟩ = .split := by
    decide +kernel
  have odd : ¬ Rect.HalvesEvenly ⟨0, 0, 3, 2⟩ := by decide
  exact odd (even _ .refl splits)

end Sqwar.Planes
