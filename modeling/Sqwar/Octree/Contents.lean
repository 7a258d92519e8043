import Sqwar.Data.Tiling
import Sqwar.Octree.Tree

/-!
# What the octree holds

Every node is a leaf or has the eight children of its cube, and only the leaves on the maximal level
hold points, those of their own location. `AddPoint` keeps this and adds one entry; a leaf that it
splits was empty, so one entry goes on. `ConsolidatePts` keeps it and leaves one entry in each leaf
that had any.
-/

set_option autoImplicit false

namespace Sqwar.Octree

open Data Semantics

variable {P : Type*} {sMaxLevel : UInt32} {fuel : ℕ} {n n' : OctNode P} {loc here : OctTreeLoc}
  {pt : P} {children : List (OctNode P)}

namespace OctNode

/-! ### The invariant -/

/-- What holds of every node between the calls. -/
structure Sound (sMaxLevel : UInt32) (n : OctNode P) : Prop where
  leaf_iff : n.isLeaf = true ↔ n.children = []
  eight : n.isLeaf = false → n.children.map OctNode.loc =
    (List.range 8).map fun idx => n.loc.getChild (UInt64.ofNat idx)
  full : n.pts ≠ [] → n.isLeaf = true ∧ n.loc.level = sMaxLevel
  located : ∀ entry ∈ n.pts, entry.1 = n.loc
  proper : n.loc.Proper
  level_le : n.loc.level.toNat ≤ sMaxLevel.toNat

/-- All nodes of the tree are sound. -/
def WellFormed (sMaxLevel : UInt32) (n : OctNode P) : Prop := ∀ m ∈ n.nodes, m.Sound sMaxLevel

theorem wellFormed_iff : n.WellFormed sMaxLevel ↔
    n.Sound sMaxLevel ∧ ∀ child ∈ n.children, child.WellFormed sMaxLevel := by
  rw [WellFormed, nodes_eq, List.forall_mem_cons, List.forall_mem_flatMap]
  rfl

/-- A child is one level deeper. -/
theorem Sound.level_child (sound : n.Sound sMaxLevel) (inner : n.isLeaf = false)
    {child : OctNode P} (member : child ∈ n.children) :
    child.loc.level.toNat = n.loc.level.toNat + 1 := by
  obtain ⟨i, -, child_eq⟩ : ∃ i < 8, n.loc.getChild (UInt64.ofNat i) = child.loc := by
    have := List.mem_map_of_mem (f := OctNode.loc) member
    rw [sound.eight inner] at this
    simpa using this
  rw [← child_eq]
  exact sound.proper.getChild_level _

/-- A node with children is above the maximal level. -/
theorem WellFormed.level_lt (wellFormed : n.WellFormed sMaxLevel) (inner : n.isLeaf = false) :
    n.loc.level.toNat < sMaxLevel.toNat := by
  obtain ⟨sound, below⟩ := wellFormed_iff.mp wellFormed
  have eight := sound.eight inner
  obtain ⟨child, member⟩ : ∃ child, child ∈ n.children := by
    refine List.exists_mem_of_ne_nil _ fun none => ?_
    simp [none] at eight
  have child_le := (wellFormed_iff.mp (below child member)).1.level_le
  rw [sound.level_child inner member] at child_le
  exact child_le

theorem wellFormed_new (proper : loc.Proper) (level_le : loc.level.toNat ≤ sMaxLevel.toNat) :
    (new loc : OctNode P).WellFormed sMaxLevel := by
  refine wellFormed_iff.mpr ⟨⟨?_, nofun, ?_, nofun, proper, level_le⟩, nofun⟩
  · exact iff_of_true rfl rfl
  · exact fun full => absurd rfl full

theorem stored_new : (new loc : OctNode P).stored = [] := rfl

/-- What `AddPoint` makes of a node. -/
structure Added (sMaxLevel : UInt32) (entry : Entry P) (n n' : OctNode P) : Prop where
  loc_eq : n'.loc = n.loc
  wellFormed : n'.WellFormed sMaxLevel
  stored_perm : n'.stored.Perm (entry :: n.stored)

/-- What `AddPoint` makes of the children of a cube. -/
structure AddedAll (sMaxLevel : UInt32) (entry : Entry P) (children children' : List (OctNode P)) :
    Prop where
  map_loc : children'.map OctNode.loc = children.map OctNode.loc
  wellFormed : ∀ child ∈ children', child.WellFormed sMaxLevel
  stored_perm : (children'.flatMap stored).Perm (entry :: children.flatMap stored)

/-- One child among others gets the entry. -/
theorem Added.set {child child' : OctNode P} {before after : List (OctNode P)} {entry : Entry P}
    (added : Added sMaxLevel entry child child')
    (wellFormed : ∀ c ∈ before ++ child :: after, c.WellFormed sMaxLevel) :
    AddedAll sMaxLevel entry (before ++ child :: after) (before ++ child' :: after) := by
  refine ⟨by simp [added.loc_eq], fun c member => ?_, ?_⟩
  · rcases List.mem_append.mp member with first | rest
    · exact wellFormed c (List.mem_append_left _ first)
    · rcases List.mem_cons.mp rest with rfl | last
      · exact added.wellFormed
      · exact wellFormed c (List.mem_append_right _ (List.mem_cons_of_mem _ last))
  · simp only [List.flatMap_append, List.flatMap_cons]
    refine ((added.stored_perm.append_right _).append_left _).trans ?_
    exact List.perm_middle

/-! ### AddPoint -/

/-- **`IndexOfChild` yields no -1** for the child of a cube that the location lies in: the call goes
to the child around the location. -/
theorem addToChild_spec {add : OctNode P → OctTreeLoc → P → Option (OctNode P)}
    (eight : children.map OctNode.loc = (List.range 8).map fun idx => here.getChild (.ofNat idx))
    (wellFormed : ∀ child ∈ children, child.WellFormed sMaxLevel) (proper : here.Proper)
    (inside : loc.Inside here) (few : loc.level.toNat ≤ 30)
    (deeper : here.level.toNat < loc.level.toNat)
    (adds : ∀ child ∈ children, loc.Inside child.loc →
      child.loc.level.toNat = here.level.toNat + 1 →
      ∃ child', add child loc pt = some child' ∧ Added sMaxLevel (loc, pt) child child') :
    ∃ children', addToChild add here children loc pt = some children' ∧
      AddedAll sMaxLevel (loc, pt) children children' := by
  have small := inside.indexOfChild_lt proper few deeper
  have length : children.length = 8 := by simpa using congrArg List.length eight
  -- the child at the index that is found is the one around the location
  obtain ⟨child, found⟩ : ∃ child, children[(here.indexOfChild loc).toNat]? = some child :=
    ⟨_, List.getElem?_eq_getElem (by omega)⟩
  have around : child.loc = here.getChild (here.indexOfChild loc) := by
    have at_index := congrArg (·[(here.indexOfChild loc).toNat]?) eight
    simpa [found, List.getElem?_range small] using at_index
  obtain ⟨before, after, rfl, position⟩ : ∃ before after, children = before ++ child :: after ∧
      before.length = (here.indexOfChild loc).toNat := by
    obtain ⟨bound, rfl⟩ := List.getElem?_eq_some_iff.mp found
    refine ⟨children.take (here.indexOfChild loc).toNat,
      children.drop ((here.indexOfChild loc).toNat + 1), ?_, List.length_take_of_le bound.le⟩
    rw [List.getElem_cons_drop, List.take_append_drop]
  have inChild : loc.Inside child.loc := by
    rw [around]
    exact (OctTreeLoc.inside_getChild_iff proper few deeper small).mpr ⟨inside, rfl⟩
  have level : child.loc.level.toNat = here.level.toNat + 1 := by
    rw [around]
    exact proper.getChild_level _
  obtain ⟨child', called, added⟩ := adds child (by simp) inChild level
  refine ⟨before ++ child' :: after, ?_, added.set wellFormed⟩
  simp [addToChild, called, ← position]

theorem map_loc_newChildren : (newChildren here : List (OctNode P)).map OctNode.loc =
    (List.range 8).map fun idx => here.getChild (UInt64.ofNat idx) := by
  rw [newChildren, List.map_map]
  rfl

theorem forall_mem_newChildren {q : OctNode P → Prop}
    (each : ∀ idx, q (new (here.getChild idx))) : ∀ child ∈ newChildren here, q child := by
  simp only [newChildren, List.forall_mem_map]
  exact fun idx _ => each _

theorem flatMap_stored_newChildren :
    (newChildren here : List (OctNode P)).flatMap stored = [] :=
  List.flatMap_eq_nil_iff.mpr (forall_mem_newChildren fun _ => stored_new)

/-- The leaf of the location gets the entry. -/
theorem added_pts (wellFormed : n.WellFormed sMaxLevel) (leaf : n.isLeaf = true)
    (same : n.loc = loc) (level : loc.level = sMaxLevel) :
    Added sMaxLevel (loc, pt) n { n with pts := n.pts ++ [(loc, pt)] } := by
  obtain ⟨sound, below⟩ := wellFormed_iff.mp wellFormed
  refine ⟨rfl, wellFormed_iff.mpr ⟨⟨sound.leaf_iff, sound.eight, fun _ => ⟨leaf, ?_⟩, ?_,
    sound.proper, sound.level_le⟩, below⟩, ?_⟩
  · rw [same, level]
  · intro entry member
    rcases List.mem_append.mp member with old | new
    · exact sound.located entry old
    · rw [List.mem_singleton.mp new, same]
  · rw [stored_eq, stored_eq]
    simp

/-- A node hands the entry on to eight children, those it has or those it has just made. -/
theorem added_children {entry : Entry P} {children' : List (OctNode P)}
    (sound : n.Sound sMaxLevel) (empty : n.pts = [])
    (eight : children.map OctNode.loc =
      (List.range 8).map fun idx => n.loc.getChild (UInt64.ofNat idx))
    (same : children.flatMap stored = n.children.flatMap stored)
    (added : AddedAll sMaxLevel entry children children') :
    Added sMaxLevel entry n ⟨n.loc, false, children', []⟩ := by
  have eight' := added.map_loc.trans eight
  refine ⟨rfl, wellFormed_iff.mpr ⟨⟨?_, fun _ => eight', nofun, nofun, sound.proper,
    sound.level_le⟩, added.wellFormed⟩, ?_⟩
  · refine iff_of_false nofun fun none => ?_
    obtain rfl : children' = [] := none
    simp at eight'
  · rw [stored_eq, stored_eq, empty, List.nil_append, ← same]
    exact added.stored_perm

/-- The child around a location takes an entry for its node. -/
theorem exists_handed (sound : n.Sound sMaxLevel) (empty : n.pts = [])
    (eight : children.map OctNode.loc =
      (List.range 8).map fun idx => n.loc.getChild (UInt64.ofNat idx))
    (same : children.flatMap stored = n.children.flatMap stored)
    (wellFormed : ∀ child ∈ children, child.WellFormed sMaxLevel) (inside : loc.Inside n.loc)
    (few : loc.level.toNat ≤ 30) (deeper : n.loc.level.toNat < loc.level.toNat)
    (adds : ∀ child : OctNode P, child.WellFormed sMaxLevel → loc.Inside child.loc →
      child.loc.level.toNat = n.loc.level.toNat + 1 → ∃ child',
        addPoint sMaxLevel fuel child loc pt = some child' ∧
          Added sMaxLevel (loc, pt) child child') :
    ∃ children', addToChild (addPoint sMaxLevel fuel) n.loc children loc pt = some children' ∧
      Added sMaxLevel (loc, pt) n ⟨n.loc, false, children', []⟩ := by
  obtain ⟨children', handed, added⟩ := addToChild_spec eight wellFormed sound.proper inside few
    deeper fun child member => adds child (wellFormed child member)
  exact ⟨children', handed, added_children sound empty eight same added⟩

/-- **`AddPoint` adds one entry**, to the leaf of its location on the maximal level. -/
theorem addPoint_spec (pt : P) (max : sMaxLevel.toNat ≤ 30) (wellFormed : n.WellFormed sMaxLevel)
    (inside : loc.Inside n.loc) (level : loc.level = sMaxLevel)
    (enough : sMaxLevel.toNat < n.loc.level.toNat + fuel) :
    ∃ n', n.addPoint sMaxLevel fuel loc pt = some n' ∧ Added sMaxLevel (loc, pt) n n' := by
  induction fuel generalizing n with
  | zero => exact absurd inside.level_le (by rw [level]; omega)
  | succ fuel ih =>
    obtain ⟨sound, below⟩ := wellFormed_iff.mp wellFormed
    have few : loc.level.toNat ≤ 30 := by rwa [level]
    -- the calls for the children have fuel enough
    have adds : ∀ child : OctNode P, child.WellFormed sMaxLevel → loc.Inside child.loc →
        child.loc.level.toNat = n.loc.level.toNat + 1 → ∃ child',
          addPoint sMaxLevel fuel child loc pt = some child' ∧
            Added sMaxLevel (loc, pt) child child' :=
      fun child sound inside deeper => ih sound inside (by omega)
    rw [addPoint]
    by_cases leaf : n.isLeaf = true
    · rw [if_pos leaf]
      by_cases split : n.loc.level < sMaxLevel
      · -- above the maximal level a leaf is empty, so there is one point to hand on
        have deeper : n.loc.level.toNat < loc.level.toNat := by rwa [level]
        have noChildren := sound.leaf_iff.mp leaf
        have empty : n.pts = [] := by
          by_contra full
          rw [(sound.full full).2] at split
          exact absurd split (UInt32.lt_irrefl _)
        have fresh : ∀ child ∈ newChildren n.loc, child.WellFormed (P := P) sMaxLevel := by
          refine forall_mem_newChildren fun idx =>
            wellFormed_new (sound.proper.getChild (by omega)) ?_
          rw [sound.proper.getChild_level, ← level]
          exact deeper
        have same : (newChildren n.loc).flatMap stored = n.children.flatMap stored := by
          rw [noChildren, flatMap_stored_newChildren]
          rfl
        obtain ⟨children, handed, added⟩ := exists_handed sound empty map_loc_newChildren same
          fresh inside few deeper adds
        refine ⟨⟨n.loc, false, children, []⟩, ?_, added⟩
        simp [split, level, empty, noChildren, handed]
      · refine ⟨_, if_neg fun both => split both.1, added_pts wellFormed leaf ?_ level⟩
        -- the location lies in a leaf of its own level
        refine (inside.eq_of_level (UInt32.toNat.inj ?_)).symm
        have lower := inside.level_le
        have upper : ¬ n.loc.level.toNat < sMaxLevel.toNat := split
        rw [level] at lower ⊢
        omega
    · rw [if_neg leaf]
      have inner : n.isLeaf = false := by simpa using leaf
      have empty : n.pts = [] := by
        by_contra full
        exact leaf (sound.full full).1
      have deeper : n.loc.level.toNat < loc.level.toNat := by
        rw [level]
        exact wellFormed.level_lt inner
      obtain ⟨children, handed, added⟩ := exists_handed sound empty (sound.eight inner) rfl below
        inside few deeper adds
      refine ⟨_, ?_, added⟩
      simp [handed, empty, inner]

/-! ### The cubes of the nodes -/

/-- The locations of a set that lie in a cube. -/
def within (locs : Set OctTreeLoc) (cube : OctTreeLoc) : Set OctTreeLoc :=
  { l | l ∈ locs ∧ l.Inside cube }

theorem index_toNat : ∀ i < 8, (UInt64.ofNat i).toNat = i := by decide

/-- The children tile their parent, as far as deeper locations go. -/
theorem Sound.tiles_children {locs : Set OctTreeLoc} (sound : n.Sound sMaxLevel)
    (inner : n.isLeaf = false)
    (deep : ∀ l ∈ locs, n.loc.level.toNat < l.level.toNat ∧ l.level.toNat ≤ 30) :
    Tiles (fun child : OctNode P => within locs child.loc) n.children (within locs n.loc) := by
  have eight := sound.eight inner
  have indexed : ∀ l ∈ locs, ∀ i < 8, l.Inside (n.loc.getChild (UInt64.ofNat i)) ↔
      l.Inside n.loc ∧ (n.loc.indexOfChild l).toNat = i := by
    intro l member i small
    have value : (UInt64.ofNat i).toNat = i := index_toNat i small
    rw [OctTreeLoc.inside_getChild_iff sound.proper (deep l member).2 (deep l member).1
      (by rwa [value]), ← UInt64.toNat_inj, value]
  constructor
  · intro l
    have cube : (∃ child ∈ n.children, l ∈ within locs child.loc) ↔
        ∃ i < 8, l ∈ within locs (n.loc.getChild (UInt64.ofNat i)) := by
      have := congrArg (fun cubes => ∃ cube ∈ cubes, l ∈ within locs cube) eight
      simpa using this
    rw [cube]
    constructor
    · rintro ⟨member, inside⟩
      have small := inside.indexOfChild_lt sound.proper (deep l member).2 (deep l member).1
      exact ⟨_, small, member, (indexed l member _ small).mpr ⟨inside, rfl⟩⟩
    · rintro ⟨i, small, member, inside⟩
      exact ⟨member, ((indexed l member i small).mp inside).1⟩
  · rw [← List.pairwise_map (f := OctNode.loc) (R := fun a b =>
      Disjoint (within locs a) (within locs b)), eight, List.pairwise_map]
    refine List.pairwise_lt_range.imp_of_mem fun {i j} hi hj less => ?_
    refine Set.disjoint_left.mpr fun l ⟨member, inside⟩ ⟨_, inside'⟩ => less.ne ?_
    exact ((indexed l member i (List.mem_range.mp hi)).mp inside).2.symm.trans
      ((indexed l member j (List.mem_range.mp hj)).mp inside').2

/-- The nodes of a tree lie in its cube, and no two have the same location. -/
theorem WellFormed.nodup_loc (wellFormed : n.WellFormed sMaxLevel) :
    (∀ m ∈ n.nodes, m.loc.Inside n.loc) ∧ (n.nodes.map OctNode.loc).Nodup := by
  induction n using ind with
  | node n ih =>
    obtain ⟨sound, below⟩ := wellFormed_iff.mp wellFormed
    by_cases leaf : n.isLeaf = true
    · have noChildren := sound.leaf_iff.mp leaf
      simp [nodes_eq, noChildren, OctTreeLoc.inside_self]
    · have inner : n.isLeaf = false := by simpa using leaf
      have deep : ∀ l ∈ { l : OctTreeLoc | n.loc.level.toNat < l.level.toNat ∧
          l.level.toNat ≤ 30 }, n.loc.level.toNat < l.level.toNat ∧ l.level.toNat ≤ 30 :=
        fun _ => id
      have tiles := sound.tiles_children inner deep
      have inChild : ∀ child ∈ n.children, ∀ m ∈ child.nodes, m.loc ∈ within
          { l | n.loc.level.toNat < l.level.toNat ∧ l.level.toNat ≤ 30 } child.loc := by
        intro child member m node
        have inside := (ih child member (below child member)).1 m node
        have deeper := sound.level_child inner member
        have := inside.level_le
        exact ⟨⟨by omega, (below child member m node).proper.level_le⟩, inside⟩
      have inNode : ∀ child ∈ n.children, ∀ m ∈ child.nodes,
          n.loc.level.toNat < m.loc.level.toNat ∧ m.loc.Inside n.loc := by
        intro child member m node
        obtain ⟨⟨deeper, -⟩, inside⟩ := tiles.subset member (inChild child member m node)
        exact ⟨deeper, inside⟩
      rw [nodes_eq, List.forall_mem_cons, List.forall_mem_flatMap, List.map_cons,
        List.map_flatMap, List.nodup_cons, List.nodup_flatMap]
      refine ⟨⟨OctTreeLoc.inside_self _, fun child member m node =>
        (inNode child member m node).2⟩, ?_, fun child member =>
        (ih child member (below child member)).2, ?_⟩
      · intro again
        obtain ⟨child, member, m, node, same⟩ := by simpa using again
        have := (inNode child member m node).1
        rw [same] at this
        exact absurd this (lt_irrefl _)
      · refine tiles.disjoint.imp_of_mem fun {a b} ha hb apart => ?_
        refine List.disjoint_left.mpr fun l inA inB => ?_
        obtain ⟨m, node, rfl⟩ := List.mem_map.mp inA
        obtain ⟨m', node', same⟩ := List.mem_map.mp inB
        have inside' := inChild b hb m' node'
        rw [same] at inside'
        exact Set.disjoint_left.mp apart (inChild a ha m node) inside'

/-! ### ConsolidatePts -/

variable {setting : Setting P} {tile : OctTreeLoc}

/-- `std::unique` leaves one of several entries of one location. -/
theorem exists_unique_eq {pts : List (Entry P)} (full : pts ≠ [])
    (same : ∀ entry ∈ pts, entry.1 = loc) : ∃ entry ∈ pts, unique pts = [entry] := by
  obtain ⟨first, rest, rfl⟩ := List.exists_cons_of_ne_nil full
  obtain ⟨first_eq, rest_eq⟩ := List.forall_mem_cons.mp same
  refine ⟨first, List.mem_cons_self .., ?_⟩
  -- the first entry is compared with all others
  show rest.destutter' _ first = [first]
  induction rest with
  | nil => rfl
  | cons second rest ih =>
    obtain ⟨second_eq, rest_eq⟩ := List.forall_mem_cons.mp rest_eq
    rw [List.destutter'_cons_neg _ (by rw [first_eq, second_eq, not_not])]
    exact ih (by simp) (List.forall_mem_cons.mpr ⟨first_eq, rest_eq⟩) rest_eq

/-- The points that `ConsolidatePts` leaves in a node. -/
def keptPts (setting : Setting P) (n : OctNode P) : List (Entry P) :=
  if n.children.length = 0 ∧ 1 < n.pts.length then unique (setting.sort n.pts) else n.pts

/-- One point is left if there are any. -/
theorem Sound.keptPts_spec (sound : n.Sound sMaxLevel) (setting : Setting P) :
    (n.keptPts setting).length ≤ 1 ∧ (∀ entry ∈ n.keptPts setting, entry ∈ n.pts) ∧
      (n.keptPts setting = [] ↔ n.pts = []) := by
  rw [keptPts]
  split
  · rename_i several
    have full : n.pts ≠ [] := List.ne_nil_of_length_pos (Nat.zero_lt_of_lt several.2)
    have perm := setting.sort_perm n.pts
    obtain ⟨entry, member, left⟩ := exists_unique_eq
      (fun none => full (none ▸ perm).nil_eq.symm)
      fun entry member => sound.located entry (perm.mem_iff.mp member)
    rw [left]
    simpa [full] using perm.mem_iff.mp member
  · rename_i few
    refine ⟨?_, fun _ => id, Iff.rfl⟩
    by_contra! several
    have full : n.pts ≠ [] := List.ne_nil_of_length_pos (Nat.zero_lt_of_lt several)
    exact few ⟨by rw [sound.leaf_iff.mp (sound.full full).1]; rfl, several⟩

theorem Sound.mem_map_fst_iff (sound : n.Sound sMaxLevel) :
    tile ∈ n.pts.map Prod.fst ↔ n.pts ≠ [] ∧ tile = n.loc := by
  constructor
  · intro member
    obtain ⟨entry, stored, rfl⟩ := List.mem_map.mp member
    exact ⟨List.ne_nil_of_mem stored, sound.located entry stored⟩
  · rintro ⟨full, rfl⟩
    obtain ⟨entry, stored⟩ := List.exists_mem_of_ne_nil _ full
    exact List.mem_map.mpr ⟨entry, stored, sound.located entry stored⟩

/-- What `ConsolidatePts` makes of a node. -/
structure Consolidated (sMaxLevel : UInt32) (n n' : OctNode P) : Prop where
  loc_eq : n'.loc = n.loc
  wellFormed : n'.WellFormed sMaxLevel
  single : ∀ m ∈ n'.nodes, m.pts.length ≤ 1
  occupied_iff : ∀ tile, tile ∈ n'.occupied ↔ tile ∈ n.occupied

/-- **`ConsolidatePts` leaves one point in every tile that has any.** -/
theorem consolidatePts_spec (setting : Setting P) (wellFormed : n.WellFormed sMaxLevel) :
    Consolidated sMaxLevel n (n.consolidatePts setting) := by
  induction n using ind with
  | node n ih =>
    obtain ⟨sound, below⟩ := wellFormed_iff.mp wellFormed
    have children := fun child member => ih child member (below child member)
    obtain ⟨single, within, none_iff⟩ := sound.keptPts_spec setting
    have result : n.consolidatePts setting = ⟨n.loc, n.isLeaf,
        n.children.map (consolidatePts setting), n.keptPts setting⟩ := consolidatePts_eq setting n
    have sound' : (n.consolidatePts setting).Sound sMaxLevel := by
      rw [result]
      refine ⟨by simpa using sound.leaf_iff, fun inner => ?_, fun full => ?_,
        fun entry member => sound.located entry (within entry member), sound.proper,
        sound.level_le⟩
      · rw [← sound.eight inner, List.map_map]
        exact List.map_congr_left fun child member => (children child member).loc_eq
      · exact sound.full (none_iff.not.mp full)
    refine ⟨by rw [result], wellFormed_iff.mpr ⟨sound', ?_⟩, ?_, fun tile => ?_⟩
    · rw [result]
      exact List.forall_mem_map.mpr fun child member => (children child member).wellFormed
    · rw [nodes_eq, List.forall_mem_cons, List.forall_mem_flatMap, result]
      exact ⟨single, List.forall_mem_map.mpr fun child member => (children child member).single⟩
    · rw [mem_occupied_iff, mem_occupied_iff, sound'.mem_map_fst_iff, sound.mem_map_fst_iff, result]
      simp only [ne_eq, none_iff, List.mem_map, exists_exists_and_eq_and]
      refine or_congr Iff.rfl (exists_congr fun child => and_congr_right fun member => ?_)
      exact (children child member).occupied_iff tile

/-- A tree without tiles of several points is left as it is. -/
theorem consolidatePts_of_single (single : ∀ m ∈ n.nodes, m.pts.length ≤ 1) :
    n.consolidatePts setting = n := by
  induction n using ind with
  | node n ih =>
    rw [nodes_eq, List.forall_mem_cons, List.forall_mem_flatMap] at single
    have same : n.children.map (consolidatePts setting) = n.children :=
      (List.map_congr_left fun child member => ih child member (single.2 child member)).trans
        (List.map_id _)
    rw [consolidatePts_eq, same, if_neg fun several => several.2.not_ge single.1]
    cases n
    rfl

/-- The points of a tile. -/
def pointsIn (n : OctNode P) (tile : OctTreeLoc) : List (Entry P) :=
  n.stored.filter fun entry => entry.1 = tile

/-- Where no node holds several points, no tile has several. -/
theorem WellFormed.length_pointsIn (wellFormed : n.WellFormed sMaxLevel)
    (single : ∀ m ∈ n.nodes, m.pts.length ≤ 1) (member : tile ∈ n.occupied) :
    (n.pointsIn tile).length = 1 := by
  have sublist : ∀ ms : List (OctNode P), (∀ m ∈ ms, m ∈ n.nodes) →
      ((ms.flatMap pts).map Prod.fst).Sublist (ms.map OctNode.loc) := by
    intro ms nodes
    induction ms with
    | nil => exact .slnil
    | cons m ms ih =>
      obtain ⟨node, nodes⟩ := List.forall_mem_cons.mp nodes
      have front : (m.pts.map Prod.fst).Sublist [m.loc] := by
        match held : m.pts, single m node with
        | [], _ => exact List.nil_sublist _
        | [entry], _ =>
          have at_leaf := (wellFormed m node).located entry (by simp [held])
          rw [List.map_singleton, at_leaf]
      rw [List.flatMap_cons, List.map_append]
      exact front.append (ih nodes)
  have nodup : n.occupied.Nodup := (wellFormed.nodup_loc.2).sublist (sublist _ fun _ => id)
  have counted := List.count_eq_one_of_mem nodup member
  rw [occupied, List.count, List.countP_map, List.countP_eq_length_filter] at counted
  rw [← counted, pointsIn]
  rfl

end OctNode

/-! ### Runs -/

variable {setting : Setting P} {calls : List (Call P)} {tree : OctTree P}

/-- The entries that the calls insert. -/
def inserted (setting : Setting P) (calls : List (Call P)) : List (Entry P) :=
  calls.filterMap fun
    | .addPoint pt => some (setting.tile pt, pt)
    | .consolidatePts => none

/-- The points that are added have a tile. -/
def InBounds (setting : Setting P) : Call P → Prop
  | .addPoint pt => (setting.tile pt).isValid = true
  | .consolidatePts => True

instance (setting : Setting P) : DecidablePred (InBounds setting) := fun
  | .addPoint _ => inferInstanceAs (Decidable (_ = true))
  | .consolidatePts => inferInstanceAs (Decidable True)

/-- What the tree is after the calls. -/
structure Holds (setting : Setting P) (calls : List (Call P)) (tree : OctTree P) : Prop where
  root : tree.topNode.loc = ⟨0, 0, 0, 0⟩
  wellFormed : tree.topNode.WellFormed setting.sMaxLevel
  occupied_iff : ∀ tile, tile ∈ tree.topNode.occupied ↔
    tile ∈ (inserted setting calls).map Prod.fst
  stored_perm : .consolidatePts ∉ calls → tree.topNode.stored.Perm (inserted setting calls)
  single : calls.getLast? = some .consolidatePts → ∀ m ∈ tree.topNode.nodes, m.pts.length ≤ 1

theorem holds_new : Holds setting [] (.new : OctTree P) :=
  ⟨rfl, OctNode.wellFormed_new OctTreeLoc.proper_root (Nat.zero_le _), fun _ => Iff.rfl,
    fun _ => .nil, nofun⟩

theorem Setting.proper_tile {pt : P} (valid : (setting.tile pt).isValid = true) :
    (setting.tile pt).Proper := (OctTreeLoc.isValid_iff setting.sMaxLevel_le).mp valid

/-- **Step lemma.** -/
theorem Holds.step (holds : Holds setting calls tree) {call : Call P}
    (inBounds : InBounds setting call) (enough : setting.sMaxLevel.toNat < fuel) :
    ∃ tree', Octree.step setting fuel tree call = some tree' ∧
      Holds setting (calls ++ [call]) tree' := by
  cases call with
  | addPoint pt =>
    have proper := Setting.proper_tile inBounds
    obtain ⟨topNode, called, added⟩ := OctNode.addPoint_spec pt setting.sMaxLevel_le
      holds.wellFormed (holds.root ▸ proper.inside_root) rfl (enough.trans_le (Nat.le_add_left ..))
    have more : inserted setting (calls ++ [.addPoint pt]) =
        inserted setting calls ++ [(setting.tile pt, pt)] := List.filterMap_append
    refine ⟨⟨topNode, tree.ptCnt + 1⟩, by simp [Octree.step, OctTree.addPoint, called],
      added.loc_eq.trans holds.root, added.wellFormed, fun tile => ?_, fun never => ?_, by simp⟩
    · rw [OctNode.occupied, (added.stored_perm.map Prod.fst).mem_iff, List.map_cons,
        List.mem_cons, ← OctNode.occupied, holds.occupied_iff, more, List.map_append,
        List.mem_append, List.map_singleton, List.mem_singleton, or_comm]
    · have before := holds.stored_perm fun member => never (List.mem_append_left _ member)
      rw [more]
      exact added.stored_perm.trans ((before.cons _).trans (List.perm_append_singleton _ _).symm)
  | consolidatePts =>
    have consolidated := OctNode.consolidatePts_spec setting holds.wellFormed
    have same : inserted setting (calls ++ [.consolidatePts]) = inserted setting calls :=
      List.filterMap_append.trans (List.append_nil _)
    refine ⟨_, rfl, consolidated.loc_eq.trans holds.root, consolidated.wellFormed, fun tile => ?_,
      fun never => absurd (by simp) never, fun _ => consolidated.single⟩
    rw [same, ← holds.occupied_iff]
    exact consolidated.occupied_iff tile

/-- **Run lemma.** The calls go through, without a fault. -/
theorem exists_run (enough : setting.sMaxLevel.toNat < fuel)
    (inBounds : ∀ call ∈ calls, InBounds setting call) :
    ∃ tree, run (step setting fuel) .new calls = some tree ∧ Holds setting calls tree :=
  run_progress (Holds setting) (fun _ _ _ holds inBounds => holds.step inBounds enough) holds_new
    inBounds

/-- **The contents of the octree.** After any calls, every node is a leaf or has the eight children
of its cube, and only leaves on the maximal level hold points, those of their location. The tiles
are those of the points that were added; until the tree is consolidated, so are the points, and
right after it each tile has one. -/
theorem contents_of_run (setting : Setting P) {fuel : ℕ}
    (enough : setting.sMaxLevel.toNat < fuel) {calls : List (Call P)}
    (inBounds : ∀ call ∈ calls, InBounds setting call) :
    ∃ tree, run (step setting fuel) .new calls = some tree ∧
      (∀ n ∈ tree.topNode.nodes, n.Sound setting.sMaxLevel) ∧
      (∀ tile, tile ∈ tree.topNode.occupied ↔ tile ∈ (inserted setting calls).map Prod.fst) ∧
      (.consolidatePts ∉ calls → tree.topNode.stored.Perm (inserted setting calls)) ∧
      (calls.getLast? = some .consolidatePts →
        (∀ tile ∈ tree.topNode.occupied, (tree.topNode.pointsIn tile).length = 1) ∧
          tree.topNode.consolidatePts setting = tree.topNode) := by
  obtain ⟨tree, runs, holds⟩ := exists_run enough inBounds
  refine ⟨tree, runs, holds.wellFormed, holds.occupied_iff, holds.stored_perm, fun last => ?_⟩
  have single := holds.single last
  exact ⟨fun tile member => holds.wellFormed.length_pointsIn single member,
    OctNode.consolidatePts_of_single single⟩

/-- Points that are their own tile coordinates, in a tree of eight tiles. -/
def eightTiles : Setting (UInt32 × UInt32 × UInt32) :=
  .stable 1 one_le_maxLevel fun _ pt => pt

/-- Two points of one tile and one of another. -/
theorem contents_eightTiles : ∃ tree, run (step eightTiles 2) .new
    [.addPoint (0, 0, 0), .addPoint (1, 1, 0), .addPoint (0, 0, 0), .consolidatePts] = some tree ∧
      (∀ tile, tile ∈ tree.topNode.occupied ↔
        tile ∈ [⟨1, 0, 0, 0⟩, ⟨1, 1, 1, 0⟩, (⟨1, 0, 0, 0⟩ : OctTreeLoc)]) ∧
      ∀ tile ∈ tree.topNode.occupied, (tree.topNode.pointsIn tile).length = 1 := by
  obtain ⟨tree, runs, -, tiles, -, last⟩ := @contents_of_run _ eightTiles 2 (by decide)
    [.addPoint (0, 0, 0), .addPoint (1, 1, 0), .addPoint (0, 0, 0), .consolidatePts] (by decide)
  exact ⟨tree, runs, tiles, (last rfl).1⟩

end Sqwar.Octree
