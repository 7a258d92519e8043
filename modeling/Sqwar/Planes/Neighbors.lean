import Mathlib.Data.List.Sort
import Sqwar.Data.Sweep
import Sqwar.Planes.Subdivision

/-!
# Neighbor lists

`PopulateNeighbors` sweeps along every line on which some tiles end and others begin. The events
of a line are the ends of these tiles along it, and two tiles become neighbors when one starts
while the other is the current tile of its side. The sweep over the columns and the one over the
rows differ only in which coordinates they read, so both are one definition over an axis.
-/

set_option autoImplicit false

namespace Sqwar.Planes

open Data Function

/-- `Side`, with the values `0` to `3`. -/
inductive Side | top | left | right | bottom
  deriving DecidableEq, Repr

def Side.value : Side → ℕ
  | .top => 0
  | .left => 1
  | .right => 2
  | .bottom => 3

/-- `(Side)(3 - edge)`. -/
def Side.opposite : Side → Side
  | .top => .bottom
  | .left => .right
  | .right => .left
  | .bottom => .top

theorem Side.opposite_ne (edge : Side) : edge.opposite ≠ edge := by
  cases edge <;> decide

@[simp] theorem Side.opposite_opposite (edge : Side) : edge.opposite.opposite = edge := by
  cases edge <;> rfl

theorem Side.value_injective : Injective Side.value := by
  intro a b same
  cases a <;> cases b <;> first | rfl | exact absurd same (by decide)

def Rect.right (r : Rect) : ℤ := r.x + r.w

def Rect.bottom (r : Rect) : ℤ := r.y + r.h

/-- `BreakType`: `Start` comes before `End`. -/
inductive BreakType | start | stop
  deriving DecidableEq, Repr

def BreakType.value : BreakType → ℕ
  | .start => 0
  | .stop => 1

theorem BreakType.value_injective : Injective BreakType.value := by
  intro a b same
  cases a <;> cases b <;> first | rfl | exact absurd same (by decide)

/-- `TileBreak`; a `Result*` is an element of `Tile`. -/
structure TileBreak (Tile : Type*) where
  xyVal : ℤ
  start : BreakType
  edge : Side
  pTile : Tile
  deriving DecidableEq

variable {Tile : Type*}

/-- `TileBreak::operator<`. -/
def TileBreak.Less (lhs rhs : TileBreak Tile) : Prop :=
  if lhs.xyVal ≠ rhs.xyVal then lhs.xyVal < rhs.xyVal
  else if lhs.start ≠ rhs.start then lhs.start.value < rhs.start.value
  else lhs.edge.value < rhs.edge.value

instance (lhs rhs : TileBreak Tile) : Decidable (lhs.Less rhs) := by
  unfold TileBreak.Less
  infer_instance

/-- What differs between the sweep over the columns and the sweep over the rows: a tile is in the
bucket of the line at `first`, with the edge `firstEdge`, and in the bucket of the line at
`second`, with the edge `secondEdge`; along both lines it reaches from `lo` to `hi`. -/
structure Axis where
  first : Rect → ℤ
  second : Rect → ℤ
  lo : Rect → ℤ
  hi : Rect → ℤ
  firstEdge : Side
  secondEdge : Side
  edges : secondEdge = firstEdge.opposite
  /-- Of two tiles that start together, the one before the line comes first. -/
  order : secondEdge.value < firstEdge.value
  across : ∀ r : Rect, 0 < r.w → 0 < r.h → first r < second r
  along : ∀ r : Rect, 0 < r.w → 0 < r.h → lo r < hi r
  /-- Rectangles that overlap across and along have a common pixel. -/
  meet : ∀ r s : Rect, 0 < r.w → 0 < r.h → 0 < s.w → 0 < s.h → first r < second s →
    first s < second r → lo r < hi s → lo s < hi r → ∃ p, p ∈ r.pixels ∧ p ∈ s.pixels

/-- `xTilesLeft` and `xTilesRight`. -/
def columns : Axis where
  first := Rect.x
  second := Rect.right
  lo := Rect.y
  hi := Rect.bottom
  firstEdge := .right
  secondEdge := .left
  edges := rfl
  order := by decide
  across r w _ := by unfold Rect.right; omega
  along r _ h := by unfold Rect.bottom; omega
  meet r s _ _ _ _ _ _ _ _ := by
    refine ⟨(max r.x s.x, max r.y s.y), ?_⟩
    simp only [Rect.right, Rect.bottom, Rect.mem_pixels] at *
    omega

/-- `yTilesTop` and `yTilesBottom`. -/
def rows : Axis where
  first := Rect.y
  second := Rect.bottom
  lo := Rect.x
  hi := Rect.right
  firstEdge := .bottom
  secondEdge := .top
  edges := rfl
  order := by decide
  across r _ h := by unfold Rect.bottom; omega
  along r w _ := by unfold Rect.right; omega
  meet r s _ _ _ _ _ _ _ _ := by
    refine ⟨(max r.x s.x, max r.y s.y), ?_⟩
    simp only [Rect.right, Rect.bottom, Rect.mem_pixels] at *
    omega

/-- `neighbor` is pushed to the back of `owner->neighbors`, with a side. -/
structure Push (Tile : Type*) where
  owner : Tile
  neighbor : Tile
  side : Side
  deriving DecidableEq

section Sweep

variable (r : Tile → Rect) (axis : Axis)

/-- The two breaks of each tile of a bucket. -/
def tileBreaks (edge : Side) (bucket : List Tile) : List (TileBreak Tile) :=
  bucket.flatMap fun ptr =>
    [⟨axis.lo (r ptr), .start, edge, ptr⟩, ⟨axis.hi (r ptr), .stop, edge, ptr⟩]

/-- The body of the loop over the sorted breaks: `curresult`, and what has been pushed so far. -/
def sweepStep (state : (Side → Option Tile) × List (Push Tile)) (tb : TileBreak Tile) :
    (Side → Option Tile) × List (Push Tile) :=
  match tb.start with
  -- the new tile is current before its opposite is looked up
  | .start =>
    let curresult := update state.1 tb.edge (some tb.pTile)
    match curresult tb.edge.opposite with
    | some other =>
      (curresult, state.2 ++ [⟨other, tb.pTile, tb.edge.opposite⟩, ⟨tb.pTile, other, tb.edge⟩])
    | none => (curresult, state.2)
  | .stop => (update state.1 tb.edge none, state.2)

def sweep (tbreaks : List (TileBreak Tile)) : List (Push Tile) :=
  (tbreaks.foldl sweepStep (fun _ => none, [])).2

/-- The tiles of a `std::map` bucket, in the order in which they were pushed. -/
def bucket (key : Rect → ℤ) (c : ℤ) (resultTiles : List Tile) : List Tile :=
  resultTiles.filter fun ptr => key (r ptr) = c

/-- The keys of a `std::map`, in the order in which a loop visits them. -/
def mapKeys (key : Rect → ℤ) (resultTiles : List Tile) : List ℤ :=
  (resultTiles.map fun ptr => key (r ptr)).dedup.mergeSort (· ≤ ·)

/-- The events of one line, `std::sort`ed. -/
def lineBreaks (resultTiles : List Tile) (c : ℤ) : List (TileBreak Tile) :=
  (tileBreaks r axis axis.firstEdge (bucket r axis.first c resultTiles) ++
    tileBreaks r axis axis.secondEdge (bucket r axis.second c resultTiles)).mergeSort
      fun a b => ¬ b.Less a

/-- The loop over the lines of one axis. A line at which no tile ends has no second bucket. -/
def sweepBuckets (resultTiles : List Tile) : List (Push Tile) :=
  (mapKeys r axis.first resultTiles).flatMap fun c =>
    if (bucket r axis.second c resultTiles).isEmpty then [] else
      sweep (lineBreaks r axis resultTiles c)

end Sweep

section PopulateNeighbors

variable (r : Tile → Rect) (resultTiles : List Tile)

/-- `PopulateNeighbors`: everything it pushes to neighbor lists, in order. The sorts of the buckets
before the sweeps work on copies and have no effect. -/
def populateNeighbors : List (Push Tile) :=
  sweepBuckets r columns resultTiles ++ sweepBuckets r rows resultTiles

/-- The neighbor list of a tile afterwards. -/
def neighbors [DecidableEq Tile] (tile : Tile) : List (Tile × Side) :=
  ((populateNeighbors r resultTiles).filter (·.owner = tile)).map fun push =>
    (push.neighbor, push.side)

end PopulateNeighbors

end Sqwar.Planes
