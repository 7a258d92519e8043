import Sqwar.Octree.Contents

/-!
# The leaves of the octree

`GetLeafNodes` walks the tree and lists its leaves once each. The children of a node tile its cube,
so the leaves tile the whole space: every location on the maximal level is in one of them.
-/

set_option autoImplicit false

namespace Sqwar.Octree

open Data Semantics

variable {P : Type*} {sMaxLevel : UInt32} {n : OctNode P} {leafNodes : List (OctNode P)}
  {getEmptyNodes : Bool}

namespace OctNode

/-! ### What GetLeafNodes returns -/

/-- Whether `GetLeafNodes` lists the node. -/
def listed (getEmptyNodes : Bool) (n : OctNode P) : Bool :=
  n.children.length = 0 ∧ (getEmptyNodes ∨ 0 < n.pts.length)

theorem getLeafNodesAll_eq (children : List (OctNode P))
    (each : ∀ child ∈ children, ∀ leafNodes, child.getLeafNodes getEmptyNodes leafNodes =
      leafNodes ++ child.nodes.filter (listed getEmptyNodes)) :
    getLeafNodesAll getEmptyNodes children leafNodes =
      leafNodes ++ (children.flatMap nodes).filter (listed getEmptyNodes) := by
  induction children generalizing leafNodes with
  | nil => simp [getLeafNodesAll]
  | cons child children ih =>
    obtain ⟨first, rest⟩ := List.forall_mem_cons.mp each
    rw [getLeafNodesAll, first, ih rest, List.flatMap_cons, List.filter_append, List.append_assoc]

/-- `GetLeafNodes` appends the nodes that it lists, in the order of the nodes. -/
theorem getLeafNodes_eq : n.getLeafNodes getEmptyNodes leafNodes =
    leafNodes ++ n.nodes.filter (listed getEmptyNodes) := by
  induction n using ind generalizing leafNodes with
  | node n ih =>
    have here : n.getLeafNodes getEmptyNodes leafNodes =
        getLeafNodesAll getEmptyNodes n.children
          (if n.listed getEmptyNodes then leafNodes ++ [n] else leafNodes) := by
      obtain ⟨loc, isLeaf, children, pts⟩ := n
      simp only [getLeafNodes, listed, decide_eq_true_eq]
    rw [here, getLeafNodesAll_eq n.children fun child member _ => ih child member, nodes_eq,
      List.filter_cons]
    split <;> simp

theorem Sound.listed_iff (sound : n.Sound sMaxLevel) :
    n.listed getEmptyNodes = true ↔ n.isLeaf = true ∧ (getEmptyNodes = true ∨ n.pts ≠ []) := by
  rw [listed, decide_eq_true_eq, sound.leaf_iff, List.length_eq_zero_iff, List.length_pos_iff]

/-! ### The leaves tile the space -/

/-- The leaves of a tree tile its cube, as far as the locations on the maximal level go. -/
theorem WellFormed.tiles_leaves (wellFormed : n.WellFormed sMaxLevel) :
    Tiles (fun leaf : OctNode P => within { l | l.level = sMaxLevel ∧ l.Proper } leaf.loc)
      (n.nodes.filter isLeaf) (within { l | l.level = sMaxLevel ∧ l.Proper } n.loc) := by
  induction n using ind with
  | node n ih =>
    obtain ⟨sound, below⟩ := wellFormed_iff.mp wellFormed
    by_cases leaf : n.isLeaf = true
    · have only : n.nodes.filter isLeaf = [n] := by
        simp [nodes_eq, sound.leaf_iff.mp leaf, leaf]
      rw [only]
      exact tiles_singleton n
    · have inner : n.isLeaf = false := by simpa using leaf
      have deep : ∀ l ∈ { l : OctTreeLoc | l.level = sMaxLevel ∧ l.Proper },
          n.loc.level.toNat < l.level.toNat ∧ l.level.toNat ≤ 30 := by
        rintro l ⟨level, proper⟩
        exact ⟨level ▸ wellFormed.level_lt inner, proper.level_le⟩
      rw [nodes_eq, List.filter_cons_of_neg leaf, List.filter_flatMap]
      exact (sound.tiles_children inner deep).flatMap fun child member =>
        ih child member (below child member)

end OctNode

/-- **The leaves partition the space of the octree.** After any calls, `GetLeafNodes` lists every
leaf once, a valid location on the maximal level is in just one of them, and without empty nodes it
lists those that hold points, in the same order. -/
theorem leaves_of_run (setting : Setting P) {fuel : ℕ} (enough : setting.sMaxLevel.toNat < fuel)
    {calls : List (Call P)} (inBounds : ∀ call ∈ calls, InBounds setting call) :
    ∃ tree, run (step setting fuel) .new calls = some tree ∧
      tree.topNode.getLeafNodes true [] = tree.topNode.nodes.filter OctNode.isLeaf ∧
      ((tree.topNode.getLeafNodes true []).map OctNode.loc).Nodup ∧
      (∀ loc : OctTreeLoc, loc.isValid = true → loc.level = setting.sMaxLevel →
        ∃ leaf, (tree.topNode.getLeafNodes true []).filter
          (fun leaf => loc.isChildOf leaf.loc) = [leaf]) ∧
      tree.topNode.getLeafNodes false [] =
        (tree.topNode.getLeafNodes true []).filter fun leaf => 0 < leaf.pts.length := by
  obtain ⟨tree, runs, holds⟩ := exists_run enough inBounds
  have wellFormed := holds.wellFormed
  have leaves : tree.topNode.getLeafNodes true [] = tree.topNode.nodes.filter OctNode.isLeaf := by
    rw [OctNode.getLeafNodes_eq, List.nil_append]
    refine List.filter_congr fun m node => ?_
    rw [Bool.eq_iff_iff, (wellFormed m node).listed_iff]
    simp
  refine ⟨tree, runs, leaves, ?_, fun loc valid level => ?_, ?_⟩
  · rw [leaves]
    exact wellFormed.nodup_loc.2.sublist (List.filter_sublist.map _)
  · have few : loc.level.toNat ≤ 30 := level ▸ setting.sMaxLevel_le
    have proper := (OctTreeLoc.isValid_iff few).mp valid
    rw [leaves]
    refine wellFormed.tiles_leaves.filter_eq loc ?_ _ fun leaf member => ?_
    · exact ⟨⟨level, proper⟩, holds.root ▸ proper.inside_root⟩
    · have node := List.mem_of_mem_filter member
      rw [OctTreeLoc.isChildOf_iff few (wellFormed leaf node).proper.level_le]
      exact (and_iff_right ⟨level, proper⟩).symm
  · rw [OctNode.getLeafNodes_eq, leaves, List.nil_append, List.filter_filter]
    refine List.filter_congr fun m node => ?_
    rw [Bool.eq_iff_iff, (wellFormed m node).listed_iff]
    simp [List.length_pos_iff, and_comm]

/-- The points of two of the eight tiles. -/
theorem leaves_eightTiles : ∃ tree, run (step eightTiles 2) .new
    [.addPoint (1, 0, 1), .addPoint (0, 1, 0), .addPoint (1, 0, 1)] = some tree ∧
      tree.topNode.getLeafNodes true [] = tree.topNode.nodes.filter OctNode.isLeaf ∧
      ((tree.topNode.getLeafNodes true []).map OctNode.loc).Nodup ∧
      (∀ loc : OctTreeLoc, loc.isValid = true → loc.level = 1 →
        ∃ leaf, (tree.topNode.getLeafNodes true []).filter
          (fun leaf => loc.isChildOf leaf.loc) = [leaf]) ∧
      tree.topNode.getLeafNodes false [] =
        (tree.topNode.getLeafNodes true []).filter fun leaf => 0 < leaf.pts.length :=
  @leaves_of_run _ eightTiles 2 (by decide)
    [.addPoint (1, 0, 1), .addPoint (0, 1, 0), .addPoint (1, 0, 1)] (by decide)

end Sqwar.Octree
