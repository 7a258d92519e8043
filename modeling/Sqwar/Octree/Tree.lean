import Mathlib.Data.List.Destutter
import Sqwar.Octree.Loc
import Sqwar.Semantics.Run

/-!
# The octree

The class declarations of `OctNode` and `OctTree` are not in the repository, so a node has the
fields that its member functions use, and a tree starts with one empty leaf, the whole space on
level 0. A leaf above the maximal level that gets a point makes its eight children and hands its
points on to them. An index outside `m_children` ends a call in `Option`.
-/

set_option autoImplicit false

namespace Sqwar.Octree

open Semantics

variable {P : Type*}

/-- A point with its location, as leaves store it. -/
abbrev Entry (P : Type*) := OctTreeLoc × P

/-- What the tree takes from elsewhere: its maximal level, the tile coordinates of a point, which
`GetTileAtLoc` computes in floating point, and `std::sort` by location, which may leave equivalent
entries in any order. -/
structure Setting (P : Type*) where
  sMaxLevel : UInt32
  sMaxLevel_le : sMaxLevel.toNat ≤ 30
  coordinates : UInt32 → P → UInt32 × UInt32 × UInt32
  sort : List (Entry P) → List (Entry P)
  sort_perm : ∀ pts, (sort pts).Perm pts
  sort_sorted : ∀ pts, (sort pts).Pairwise fun lhs rhs => ¬ rhs.1.less lhs.1

/-- One level is few enough. -/
theorem one_le_maxLevel : (1 : UInt32).toNat ≤ 30 := by decide

/-- The setting in which `std::sort` is stable. -/
def Setting.stable (sMaxLevel : UInt32) (sMaxLevel_le : sMaxLevel.toNat ≤ 30)
    (coordinates : UInt32 → P → UInt32 × UInt32 × UInt32) : Setting P where
  sMaxLevel := sMaxLevel
  sMaxLevel_le := sMaxLevel_le
  coordinates := coordinates
  sort pts := pts.mergeSort fun lhs rhs => ! rhs.1.less lhs.1
  sort_perm pts := List.mergeSort_perm pts _
  sort_sorted pts := by
    have sorted : (pts.mergeSort fun lhs rhs => ! rhs.1.less lhs.1).Pairwise
        fun lhs rhs => ! rhs.1.less lhs.1 := by
      refine List.pairwise_mergeSort (fun a b c => ?_) (fun a b => ?_) pts
      · simp only [Bool.not_eq_true', ← Bool.not_eq_true, OctTreeLoc.less_iff]
        omega
      · simp only [Bool.or_eq_true, Bool.not_eq_true', ← Bool.not_eq_true, OctTreeLoc.less_iff]
        omega
    simpa using sorted

/-- `OctTreeLoc::GetTileAtLoc`. -/
def Setting.getTileAtLoc (setting : Setting P) (pt : P) (level : UInt32) : OctTreeLoc :=
  let xyz := setting.coordinates level pt
  ⟨level, xyz.1, xyz.2.1, xyz.2.2⟩

/-- The tile of a point in the tree. -/
def Setting.tile (setting : Setting P) (pt : P) : OctTreeLoc :=
  setting.getTileAtLoc pt setting.sMaxLevel

/-- `OctNode`. -/
structure OctNode (P : Type*) where
  loc : OctTreeLoc
  isLeaf : Bool
  children : List (OctNode P)
  pts : List (Entry P)

namespace OctNode

/-- The constructor of `OctNode`: an empty leaf. -/
def new (loc : OctTreeLoc) : OctNode P := ⟨loc, true, [], []⟩

/-- The children that a leaf makes when it is split. -/
def newChildren (loc : OctTreeLoc) : List (OctNode P) :=
  (List.range 8).map fun idx => new (loc.getChild (UInt64.ofNat idx))

/-- `m_children[m_loc.IndexOfChild(loc)]->AddPoint(tree, loc, pt)`, where `add` is the call. -/
def addToChild (add : OctNode P → OctTreeLoc → P → Option (OctNode P)) (here : OctTreeLoc)
    (children : List (OctNode P)) (loc : OctTreeLoc) (pt : P) : Option (List (OctNode P)) := do
  let childIdx := (here.indexOfChild loc).toNat
  let child ← children[childIdx]?
  let child ← add child loc pt
  return children.set childIdx child

/-- `OctNode::AddPoint`. The calls go down at most as many levels as there is fuel. -/
def addPoint (sMaxLevel : UInt32) : ℕ → OctNode P → OctTreeLoc → P → Option (OctNode P)
  | 0, _, _, _ => none
  | fuel + 1, node, loc, pt =>
    if node.isLeaf then
      let pts := node.pts ++ [(loc, pt)]
      if node.loc.level < sMaxLevel ∧ loc.level > node.loc.level then do
        let children ← pts.foldlM
          (fun children ipt => addToChild (addPoint sMaxLevel fuel) node.loc children ipt.1 ipt.2)
          (node.children ++ newChildren node.loc)
        return { node with isLeaf := false, children, pts := [] }
      else some { node with pts }
    else do
      let children ← addToChild (addPoint sMaxLevel fuel) node.loc node.children loc pt
      return { node with children }

/-- `std::unique` by location, and the `erase` after it. -/
def unique (pts : List (Entry P)) : List (Entry P) :=
  pts.destutter fun lhs rhs => lhs.1 ≠ rhs.1

mutual

/-- `OctNode::ConsolidatePts`. -/
def consolidatePts (setting : Setting P) : OctNode P → OctNode P
  | ⟨loc, isLeaf, children, pts⟩ =>
    let pts := if children.length = 0 ∧ 1 < pts.length then unique (setting.sort pts) else pts
    ⟨loc, isLeaf, consolidateAll setting children, pts⟩

/-- `child->ConsolidatePts()` for every child. -/
def consolidateAll (setting : Setting P) : List (OctNode P) → List (OctNode P)
  | [] => []
  | child :: children => child.consolidatePts setting :: consolidateAll setting children

end

mutual

/-- `OctNode::GetLeafNodes`. -/
def getLeafNodes (getEmptyNodes : Bool) : OctNode P → List (OctNode P) → List (OctNode P)
  | ⟨loc, isLeaf, children, pts⟩, leafNodes =>
    let leafNodes :=
      if children.length = 0 ∧ (getEmptyNodes ∨ 0 < pts.length) then
        leafNodes ++ [⟨loc, isLeaf, children, pts⟩]
      else leafNodes
    getLeafNodesAll getEmptyNodes children leafNodes

/-- `child->GetLeafNodes(leafNodes, getEmptyNodes)` for every child. -/
def getLeafNodesAll (getEmptyNodes : Bool) :
    List (OctNode P) → List (OctNode P) → List (OctNode P)
  | [], leafNodes => leafNodes
  | child :: children, leafNodes =>
    getLeafNodesAll getEmptyNodes children (child.getLeafNodes getEmptyNodes leafNodes)

end

end OctNode

/-- `OctTree`. -/
structure OctTree (P : Type*) where
  topNode : OctNode P
  ptCnt : ℕ

/-- The tree as it is constructed. -/
def OctTree.new : OctTree P := ⟨.new ⟨0, 0, 0, 0⟩, 0⟩

/-- `OctTree::AddPoint`. -/
def OctTree.addPoint (setting : Setting P) (fuel : ℕ) (tree : OctTree P) (pt : P) :
    Option (OctTree P) := do
  let topNode ← tree.topNode.addPoint setting.sMaxLevel fuel (setting.tile pt) pt
  return ⟨topNode, tree.ptCnt + 1⟩

/-- The calls on a tree. -/
inductive Call (P : Type*) where
  | addPoint (pt : P)
  | consolidatePts
  deriving DecidableEq

/-- One call. -/
def step (setting : Setting P) (fuel : ℕ) (tree : OctTree P) : Call P → Option (OctTree P)
  | .addPoint pt => tree.addPoint setting fuel pt
  | .consolidatePts => some { tree with topNode := tree.topNode.consolidatePts setting }

/-! ### The nodes of a tree -/

namespace OctNode

mutual

/-- All nodes of the tree, parents before their children. -/
def nodes : OctNode P → List (OctNode P)
  | ⟨loc, isLeaf, children, pts⟩ => ⟨loc, isLeaf, children, pts⟩ :: nodesAll children

/-- The nodes of several trees. -/
def nodesAll : List (OctNode P) → List (OctNode P)
  | [] => []
  | child :: children => child.nodes ++ nodesAll children

end

/-- Induction over the tree. -/
@[elab_as_elim]
theorem ind {motive : OctNode P → Prop}
    (node : ∀ n : OctNode P, (∀ child ∈ n.children, motive child) → motive n) :
    ∀ n, motive n := by
  -- the second motive is that of the lists of children
  refine @OctNode.rec P motive (fun children => ∀ child ∈ children, motive child) ?_ ?_ ?_
  · exact fun loc isLeaf children pts ih => node ⟨loc, isLeaf, children, pts⟩ ih
  · exact fun child member => absurd member List.not_mem_nil
  · exact fun child children ih ihs => List.forall_mem_cons.mpr ⟨ih, ihs⟩

theorem nodesAll_eq (children : List (OctNode P)) : nodesAll children = children.flatMap nodes := by
  induction children with
  | nil => rfl
  | cons child children ih => rw [nodesAll, ih, List.flatMap_cons]

theorem nodes_eq (n : OctNode P) : n.nodes = n :: n.children.flatMap nodes := by
  obtain ⟨loc, isLeaf, children, pts⟩ := n
  rw [nodes, nodesAll_eq]

theorem consolidateAll_eq (setting : Setting P) (children : List (OctNode P)) :
    consolidateAll setting children = children.map (consolidatePts setting) := by
  induction children with
  | nil => rfl
  | cons child children ih => rw [consolidateAll, ih, List.map_cons]

/-- The points of the tree, with their locations. -/
def stored (n : OctNode P) : List (Entry P) := n.nodes.flatMap pts

/-- The tiles of the points. -/
def occupied (n : OctNode P) : List OctTreeLoc := n.stored.map Prod.fst

theorem stored_eq (n : OctNode P) : n.stored = n.pts ++ n.children.flatMap stored := by
  rw [stored, nodes_eq, List.flatMap_cons, List.flatMap_assoc]
  rfl

theorem mem_occupied_iff {n : OctNode P} {tile : OctTreeLoc} : tile ∈ n.occupied ↔
    tile ∈ n.pts.map Prod.fst ∨ ∃ child ∈ n.children, tile ∈ child.occupied := by
  rw [occupied, stored_eq, List.map_append, List.mem_append, List.map_flatMap, List.mem_flatMap]
  rfl

theorem consolidatePts_eq (setting : Setting P) (n : OctNode P) : n.consolidatePts setting =
    ⟨n.loc, n.isLeaf, n.children.map (consolidatePts setting),
      if n.children.length = 0 ∧ 1 < n.pts.length then unique (setting.sort n.pts) else n.pts⟩ := by
  obtain ⟨loc, isLeaf, children, pts⟩ := n
  rw [consolidatePts, consolidateAll_eq]

end OctNode

end Sqwar.Octree
