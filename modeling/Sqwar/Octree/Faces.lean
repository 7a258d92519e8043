import Sqwar.Octree.Bounds
import Sqwar.Octree.Contents

/-!
# Points on the faces of the box

`GetTileAtLoc` does not clamp, and the tiles are half-open: a point on an upper face gets a
coordinate that no tile of the level has. `AddPoint` does not check the tile, so in a tree with more
than one level it takes the child of the index -1.
-/

set_option autoImplicit false

namespace Sqwar.Octree

open Semantics

variable {P : Type*} {setting : Setting P} {fuel : ℕ} {here loc : OctTreeLoc}

/-! ### A point without a tile -/

theorem OctTreeLoc.Inside.proper (inside : loc.Inside ⟨0, 0, 0, 0⟩)
    (few : loc.level.toNat ≤ 30) : loc.Proper := by
  have small : ∀ {c : UInt32}, coarse (loc.level.toNat - (0 : UInt32).toNat) c = 0 →
      c.toNat < 2 ^ loc.level.toNat := fun zero =>
    (Nat.div_eq_zero_iff.mp zero).resolve_left (Nat.two_pow_pos _).ne'
  exact ⟨few, small inside.x_eq, small inside.y_eq, small inside.z_eq⟩

namespace OctNode

/-- A location without an index has no child. -/
theorem addToChild_eq_none (add : OctNode P → OctTreeLoc → P → Option (OctNode P))
    {children : List (OctNode P)} (pt : P) (few : children.length = 8)
    (none : here.indexOfChild loc = -1) : addToChild add here children loc pt = .none := by
  have outside : children[(here.indexOfChild loc).toNat]? = .none := by
    rw [List.getElem?_eq_none_iff, few, none]
    decide
  simp [addToChild, outside]

/-- The call ends in an access to a child that is not there. -/
theorem addPoint_eq_none {n : OctNode P} {pt : P} (sound : n.Sound setting.sMaxLevel)
    (shallow : n.loc.level < setting.sMaxLevel) (deeper : loc.level > n.loc.level)
    (none : n.loc.indexOfChild loc = -1) : n.addPoint setting.sMaxLevel fuel loc pt = .none := by
  cases fuel with
  | zero => rfl
  | succ fuel =>
    rw [addPoint]
    by_cases leaf : n.isLeaf = true
    · have empty : n.pts = [] := by
        by_contra full
        rw [(sound.full full).2] at shallow
        exact absurd shallow (UInt32.lt_irrefl _)
      have eight : (newChildren n.loc : List (OctNode P)).length = 8 := by simp [newChildren]
      have missing := addToChild_eq_none (addPoint setting.sMaxLevel fuel) pt eight none
      simp [leaf, empty, sound.leaf_iff.mp leaf, shallow, deeper, missing]
    · have eight : n.children.length = 8 := by
        simpa using congrArg List.length (sound.eight (by simpa using leaf))
      have missing := addToChild_eq_none (addPoint setting.sMaxLevel fuel) pt eight none
      simp [leaf, missing]

end OctNode

/-- **`AddPoint` of a point without a tile** indexes the children with -1. -/
theorem Holds.addPoint_eq_none {calls : List (Call P)} {tree : OctTree P}
    (holds : Holds setting calls tree) {pt : P} (levels : setting.sMaxLevel ≠ 0)
    (invalid : ¬ (setting.tile pt).isValid = true) :
    tree.topNode.loc.indexOfChild (setting.tile pt) = -1 ∧
      tree.addPoint setting fuel pt = none := by
  have few := setting.sMaxLevel_le
  have pos : 0 < setting.sMaxLevel.toNat := by
    rw [Nat.pos_iff_ne_zero]
    exact fun zero => levels (UInt32.toNat.inj zero)
  have foreign : tree.topNode.loc.indexOfChild (setting.tile pt) = -1 := by
    rw [holds.root]
    by_contra found
    have inside := (OctTreeLoc.indexOfChild_ne_iff (l := setting.tile pt)
      OctTreeLoc.proper_root few pos).mp found
    exact invalid ((OctTreeLoc.isValid_iff few).mpr (inside.proper few))
  have sound := (OctNode.wellFormed_iff.mp holds.wellFormed).1
  have shallow : tree.topNode.loc.level < setting.sMaxLevel := by
    rw [holds.root]
    exact pos
  refine ⟨foreign, ?_⟩
  rw [OctTree.addPoint, OctNode.addPoint_eq_none sound shallow shallow foreign]
  rfl

/-! ### Runs -/

variable {calls : List (Call P)}

/-- The points that the calls add. -/
def added (calls : List (Call P)) : List P :=
  calls.filterMap fun
    | .addPoint pt => some pt
    | .consolidatePts => none

theorem mem_added_iff {pt : P} : pt ∈ added calls ↔ .addPoint pt ∈ calls := by
  rw [added, List.mem_filterMap]
  constructor
  · rintro ⟨call, member, adds⟩
    cases call with
    | addPoint pt' => exact Option.some.inj adds ▸ member
    | consolidatePts => exact absurd adds.symm (Option.some_ne_none pt)
  · exact fun member => ⟨_, member, rfl⟩

/-- In a tree of one level, `AddPoint` indexes nothing. -/
theorem exists_run_of_one_level (oneLevel : setting.sMaxLevel = 0) (enough : 0 < fuel) :
    ∃ tree, run (step setting fuel) .new calls = some tree := by
  have goes : ∀ (tree : OctTree P) (call : Call P), tree.topNode.isLeaf = true → True →
      ∃ tree', step setting fuel tree call = some tree' ∧ tree'.topNode.isLeaf = true := by
    intro tree call leaf _
    cases call with
    | addPoint pt =>
      obtain ⟨fuel, rfl⟩ := Nat.exists_eq_succ_of_ne_zero enough.ne'
      have shallow : ¬ tree.topNode.loc.level < setting.sMaxLevel := by
        rw [oneLevel]
        exact UInt32.not_lt_zero
      refine ⟨⟨{ tree.topNode with pts := tree.topNode.pts ++ [(setting.tile pt, pt)] },
        tree.ptCnt + 1⟩, ?_, leaf⟩
      simp [step, OctTree.addPoint, OctNode.addPoint, leaf, shallow]
    | consolidatePts =>
      refine ⟨_, rfl, ?_⟩
      rw [OctNode.consolidatePts_eq]
      exact leaf
  exact (exists_run_iff _ goes (fun _ _ _ never => absurd trivial never) rfl).mpr
    fun _ _ => trivial

/-- **Every point gets in** exactly if all have a tile, where there is more than one level. -/
theorem exists_run_iff_inBounds (levels : setting.sMaxLevel ≠ 0)
    (enough : setting.sMaxLevel.toNat < fuel) :
    (∃ tree, run (step setting fuel) .new calls = some tree) ↔
      ∀ call ∈ calls, InBounds setting call := by
  refine exists_run_iff (fun tree => ∃ past, Holds setting past tree)
    (fun tree call holds valid => ?_) (fun tree call holds invalid => ?_) ⟨[], holds_new⟩
  · obtain ⟨past, holds⟩ := holds
    obtain ⟨tree', next, holds'⟩ := holds.step valid enough
    exact ⟨tree', next, _, holds'⟩
  · obtain ⟨past, holds⟩ := holds
    cases call with
    | addPoint pt => exact (holds.addPoint_eq_none levels invalid).2
    | consolidatePts => exact absurd trivial invalid

/-- **Points of the closed box.** A point of the box has a valid tile whose bounds hold it exactly
if it is not on an upper face. So in a tree with more than one level, any calls of `AddPoint` with
points of the box, among calls of `ConsolidatePts`, find children at all indices exactly if no point
is on an upper face. -/
theorem closed_box {bounds : AABox} (nonDegenerate : bounds.NonDegenerate) {loc : P → Fin 3 → ℚ}
    (tiles : ∀ pt, setting.tile pt =
      OctTreeLoc.getTileAtLoc (loc pt) setting.sMaxLevel bounds)
    (enough : setting.sMaxLevel.toNat < fuel) :
    (∀ (level : UInt32) (pt : Fin 3 → ℚ), level ≤ 30 → bounds.isInVolume pt →
      ((OctTreeLoc.getTileAtLoc pt level bounds).isValid = true ∧
          ((OctTreeLoc.getTileAtLoc pt level bounds).getBounds bounds).isInVolume pt ↔
        ∀ i, pt i < bounds.max i)) ∧
      ∀ calls : List (Call P), (∀ pt ∈ added calls, bounds.isInVolume (loc pt)) →
        ((∃ tree, run (step setting fuel) .new calls = some tree) ↔
          setting.sMaxLevel = 0 ∨ ∀ pt ∈ added calls, ∀ i, loc pt i < bounds.max i) := by
  constructor
  · intro level pt few inside
    rw [OctTreeLoc.isValid_getTileAtLoc_iff few nonDegenerate inside, and_iff_left]
    intro i
    obtain ⟨above, below⟩ := OctTreeLoc.isInHalfOpen_getBounds few nonDegenerate inside i
    exact ⟨above, below.le⟩
  · intro calls inside
    by_cases levels : setting.sMaxLevel = 0
    · exact iff_of_true (exists_run_of_one_level levels (Nat.zero_lt_of_lt enough)) (.inl levels)
    · rw [exists_run_iff_inBounds levels enough, or_iff_right levels]
      have valid_iff : ∀ pt ∈ added calls,
          (InBounds setting (.addPoint pt) ↔ ∀ i, loc pt i < bounds.max i) := by
        intro pt member
        rw [InBounds, tiles]
        exact OctTreeLoc.isValid_getTileAtLoc_iff setting.sMaxLevel_le nonDegenerate
          (inside pt member)
      constructor
      · exact fun valid pt member =>
          (valid_iff pt member).mp (valid _ (mem_added_iff.mp member))
      · intro below call member
        cases call with
        | addPoint pt =>
          have member := mem_added_iff.mpr member
          exact (valid_iff pt member).mpr (below pt member)
        | consolidatePts => trivial

/-- The tree of two levels over a box. -/
def twoLevels (bounds : AABox) : Setting (Fin 3 → ℚ) :=
  .stable 1 one_le_maxLevel fun level pt =>
    let tile := OctTreeLoc.getTileAtLoc pt level bounds
    (tile.x, tile.y, tile.z)

/-- Two points that get in, one of them on a lower face. -/
theorem closed_box_oneTwoThree : ∃ tree, run (step (twoLevels OctTreeLoc.oneTwoThree) 2) .new
    [.addPoint ![-1, 1, 0], .addPoint ![-1 / 2, 3 / 2, 1]] = some tree :=
  ((@closed_box _ (twoLevels OctTreeLoc.oneTwoThree) 2 OctTreeLoc.oneTwoThree (by decide +kernel)
    id (fun _ => rfl) (by decide)).2 _ (by decide +kernel)).mpr (.inr (by decide +kernel))

/-- **A point on an upper face** has no tile, and `AddPoint` of it indexes the children with -1. -/
theorem upper_face_oneTwoThree :
    OctTreeLoc.oneTwoThree.NonDegenerate ∧ OctTreeLoc.oneTwoThree.isInVolume ![-1, 2, 1] ∧
      OctTreeLoc.getTileAtLoc ![-1, 2, 1] 1 OctTreeLoc.oneTwoThree = ⟨1, 0, 2, 0⟩ ∧
      (OctTreeLoc.getTileAtLoc ![-1, 2, 1] 1 OctTreeLoc.oneTwoThree).isValid = false ∧
      (⟨0, 0, 0, 0⟩ : OctTreeLoc).indexOfChild
        (OctTreeLoc.getTileAtLoc ![-1, 2, 1] 1 OctTreeLoc.oneTwoThree) = -1 ∧
      (OctTree.new.addPoint (twoLevels OctTreeLoc.oneTwoThree) 2 ![-1, 2, 1]).isSome = false := by
  refine ⟨?_, ?_, ?_, ?_, ?_, ?_⟩ <;> decide +kernel

end Sqwar.Octree
