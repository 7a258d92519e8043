import Mathlib.Tactic.FinCases
import Mathlib.Tactic.NormNum
import Sqwar.Data.DepthFirst
import Sqwar.Planes.Neighbors
import Sqwar.Planes.Process

/-!
# Grouping tiles

`DepthMakePlanes` calls `FindConnected` for each result tile that no earlier call has visited, and
a call goes on to the neighbors that lie in nearly the same plane. How far the neighbor is from
this plane is tested on one side only, so a tile may be grouped with a neighbor that lies in front
of it but not the other way round, and the groups depend on which of the two is visited first.
-/

set_option autoImplicit false

namespace Sqwar.Planes

open Data Function Relation

variable {K Tile : Type*}

/-- The visit counters of all results, and `outTiles`. -/
structure Visits (Tile : Type*) where
  visitCnt : Tile → ℤ
  outTiles : List Tile

/-- Neighbor lists with entries for the tiles of a vector. -/
structure NeighborLists (resultTiles : List Tile) where
  lists : Tile → List (Tile × Side)
  mem : ∀ t, ∀ n ∈ lists t, n.1 ∈ resultTiles

section Grouping

variable [Field K] [LinearOrder K] [DecidableEq Tile] (c : PlaneConstants K)
  (tile : Tile → Result K) (neighbors : Tile → List (Tile × Side))

/-- The test of `FindConnected` for going on to a neighbor. -/
def GoesOn (this other : Result K) : Prop :=
  (this.normal ⬝ᵥ other.normal < -c.minDPVal ∨ this.normal ⬝ᵥ other.normal > c.minDPVal) ∧
    (this.pt0.v3 - other.pt0.v3) ⬝ᵥ this.normal < c.mindist

instance (this other : Result K) : Decidable (GoesOn c this other) := by
  unfold GoesOn
  infer_instance

/-- `FindConnected`, with a bound on the depth of the recursion. A `Result*` is an element of
`Tile`, and `tile` and `neighbors` are what it points to. -/
def findConnected (visitIdx : ℤ) : ℕ → Tile → Visits Tile → Option (Visits Tile)
  | 0, _, _ => none
  | depth + 1, pThis, s =>
    if s.visitCnt pThis = visitIdx then some s
    else
      (neighbors pThis).foldlM
        (fun s itNeighbors =>
          if GoesOn c (tile pThis) (tile itNeighbors.1) then
            findConnected visitIdx depth itNeighbors.1 s
          else some s)
        ⟨update s.visitCnt pThis visitIdx, s.outTiles ++ [pThis]⟩

/-- The loop of `DepthMakePlanes` over the result tiles that calls `FindConnected`. -/
def groupTiles (depth : ℕ) : List Tile → (Tile → ℤ) → Option (List (List Tile))
  | [], _ => some []
  | res :: resultTiles, visitCnt =>
    if visitCnt res = 1 then groupTiles depth resultTiles visitCnt
    else do
      let s ← findConnected c tile neighbors 1 depth res ⟨visitCnt, []⟩
      let outTiles ← groupTiles depth resultTiles s.visitCnt
      some (s.outTiles :: outTiles)

/-! ### The search as a depth-first search -/

/-- The neighbors that `FindConnected` goes on to. -/
def connected (pThis : Tile) : List Tile :=
  ((neighbors pThis).map Prod.fst).filter fun other => GoesOn c (tile pThis) (tile other)

/-- The results with the visit count are the marked ones. -/
def Visits.search (visitIdx : ℤ) (s : Visits Tile) : Search Tile :=
  ⟨fun t => s.visitCnt t = visitIdx, s.outTiles⟩

variable {c tile neighbors}

theorem Visits.search_mark (visitIdx : ℤ) (t : Tile) (s : Visits Tile) :
    Visits.search visitIdx ⟨update s.visitCnt t visitIdx, s.outTiles ++ [t]⟩ =
      (s.search visitIdx).mark t := by
  unfold Visits.search Search.mark
  congr 1
  ext other
  by_cases same : other = t
  · simp [same]
  · simp [same, update_of_ne]

/-- The loop over the neighbors is a loop over those it goes on to. -/
theorem map_foldlM_findConnected {visitIdx : ℤ} {depth : ℕ} (pThis : Tile)
    (ih : ∀ t (s : Visits Tile),
      (findConnected c tile neighbors visitIdx depth t s).map (Visits.search visitIdx) =
        visit (connected c tile neighbors) depth t (s.search visitIdx))
    (ns : List (Tile × Side)) (s : Visits Tile) :
    (ns.foldlM (fun s n => if GoesOn c (tile pThis) (tile n.1) then
        findConnected c tile neighbors visitIdx depth n.1 s else some s) s).map
          (Visits.search visitIdx) =
      ((ns.map Prod.fst).filter fun other => GoesOn c (tile pThis) (tile other)).foldlM
        (fun s t => visit (connected c tile neighbors) depth t s) (s.search visitIdx) := by
  induction ns generalizing s with
  | nil => rfl
  | cons n ns ihList =>
    rw [List.foldlM_cons, List.map_cons, List.filter_cons]
    by_cases goesOn : GoesOn c (tile pThis) (tile n.1)
    · rw [if_pos goesOn, if_pos (decide_eq_true goesOn), List.foldlM_cons, ← ih]
      cases findConnected c tile neighbors visitIdx depth n.1 s with
      | none => rfl
      | some s' => exact ihList s'
    · rw [if_neg goesOn, if_neg (by simpa using goesOn)]
      exact ihList s

/-- `FindConnected` is a depth-first search. -/
theorem map_findConnected (visitIdx : ℤ) (depth : ℕ) (t : Tile) (s : Visits Tile) :
    (findConnected c tile neighbors visitIdx depth t s).map (Visits.search visitIdx) =
      visit (connected c tile neighbors) depth t (s.search visitIdx) := by
  induction depth generalizing t s with
  | zero => rfl
  | succ depth ih =>
    rw [findConnected, visit]
    by_cases known : s.visitCnt t = visitIdx
    · have marked : (s.search visitIdx).marked t = true := decide_eq_true known
      rw [if_pos known, if_pos marked]
      rfl
    · have unmarked : ¬ (s.search visitIdx).marked t = true := by simpa [Visits.search] using known
      rw [if_neg known, if_neg unmarked, ← Visits.search_mark]
      exact map_foldlM_findConnected t ih _ _

/-- The grouping loop searches from all tiles. -/
theorem groupTiles_eq_components (depth : ℕ) (resultTiles : List Tile) (visitCnt : Tile → ℤ) :
    groupTiles c tile neighbors depth resultTiles visitCnt =
      components (connected c tile neighbors) depth resultTiles fun t => visitCnt t = 1 := by
  induction resultTiles generalizing visitCnt with
  | nil => rfl
  | cons res resultTiles ih =>
    rw [groupTiles, components]
    by_cases known : visitCnt res = 1
    · rw [if_pos known, if_pos (decide_eq_true known), ih]
    · rw [if_neg known, if_neg (by simpa using known)]
      have same : (findConnected c tile neighbors 1 depth res ⟨visitCnt, []⟩).map
          (Visits.search 1) = _ := map_findConnected 1 depth res ⟨visitCnt, []⟩
      rw [show Search.mk (fun t => decide (visitCnt t = 1)) [] =
        Visits.search 1 (⟨visitCnt, []⟩ : Visits Tile) from rfl, ← same]
      cases findConnected c tile neighbors 1 depth res ⟨visitCnt, []⟩ with
      | none => rfl
      | some s =>
        simp only [bind, Option.bind, Option.map_some, Visits.search]
        rw [ih]

omit [DecidableEq Tile] in
theorem connected_subset {resultTiles : List Tile} (lists : NeighborLists resultTiles) {t u : Tile}
    (goesOn : u ∈ connected c tile lists.lists t) : u ∈ resultTiles := by
  obtain ⟨n, inList, rfl⟩ := List.mem_map.mp (List.mem_filter.mp goesOn).1
  exact lists.mem t n inList

/-- **The grouping loop returns** and finds the groups of what its tiles reach. -/
theorem exists_groupTiles {resultTiles order : List Tile} (lists : NeighborLists resultTiles)
    (isTile : ∀ t ∈ order, t ∈ resultTiles) {depth : ℕ} (deep : resultTiles.length < depth) :
    ∃ groups, groupTiles c tile lists.lists depth order (fun _ => 0) = some groups ∧
      Groups (Next (connected c tile lists.lists)) ∅ order groups := by
  have inside : ∀ t ∈ resultTiles.toFinset, ∀ u ∈ connected c tile lists.lists t,
      u ∈ resultTiles.toFinset :=
    fun _ _ u goesOn => List.mem_toFinset.mpr (connected_subset lists goesOn)
  obtain ⟨groups, runs, isGroups⟩ := exists_components_unmarked inside
    ((List.toFinset_card_le resultTiles).trans_lt deep)
    fun t member => List.mem_toFinset.mpr (isTile t member)
  exact ⟨groups, (groupTiles_eq_components depth order _).trans runs, isGroups⟩

end Grouping

/-! ### Orders -/

/-- Result tiles with what the grouping reads of them. -/
structure TileGraph (K Tile : Type*) where
  resultTiles : List Tile
  nodup : resultTiles.Nodup
  tile : Tile → Result K
  neighbors : NeighborLists resultTiles

/-- An order in which the tiles are visited, and one for each neighbor list. -/
structure TileGraph.Order (G : TileGraph K Tile) where
  visits : List Tile
  visits_perm : visits.Perm G.resultTiles
  lists : Tile → List (Tile × Side)
  lists_perm : ∀ t, (lists t).Perm (G.neighbors.lists t)

section Orders

variable [Field K] [LinearOrder K] [DecidableEq Tile] (c : PlaneConstants K) (G : TileGraph K Tile)

/-- The groups that `DepthMakePlanes` forms in an order. -/
def TileGraph.Order.groups {G : TileGraph K Tile} (order : G.Order) (depth : ℕ) :
    Option (List (List Tile)) :=
  groupTiles c G.tile order.lists depth order.visits fun _ => 0

/-- The groups, as a set of sets, are the same for all orders. -/
def TileGraph.OrderIndependent : Prop :=
  ∀ (order order' : G.Order) (depth : ℕ), G.resultTiles.length < depth →
    ∃ groups groups', order.groups c depth = some groups ∧ order'.groups c depth = some groups' ∧
      groupSets groups = groupSets groups'

/-- `FindConnected` goes on from the first tile to the second, which is in its neighbor list. -/
def TileGraph.Crosses : Tile → Tile → Prop := Next (connected c G.tile G.neighbors.lists)

variable {c G}

omit [DecidableEq Tile] in
theorem TileGraph.crosses_iff {t u : Tile} : G.Crosses c t u ↔
    (∃ side, (u, side) ∈ G.neighbors.lists t) ∧ GoesOn c (G.tile t) (G.tile u) := by
  simp [TileGraph.Crosses, Next, connected]

/-- The order of the neighbor lists does not matter for what a tile reaches. -/
theorem TileGraph.Order.exists_groups (order : G.Order) {depth : ℕ}
    (deep : G.resultTiles.length < depth) : ∃ groups, order.groups c depth = some groups ∧
      Groups (G.Crosses c) ∅ order.visits groups := by
  let lists : NeighborLists G.resultTiles :=
    ⟨order.lists, fun t n inList => G.neighbors.mem t n ((order.lists_perm t).mem_iff.mp inList)⟩
  have same : Next (connected c G.tile order.lists) = G.Crosses c := by
    ext t u
    exact (((order.lists_perm t).map Prod.fst).filter _).mem_iff
  rw [← same]
  exact exists_groupTiles lists (fun t member => order.visits_perm.mem_iff.mp member) deep

/-- A tile can be visited before all others. -/
def TileGraph.startingWith (G : TileGraph K Tile) (t : Tile) (isTile : t ∈ G.resultTiles) :
    G.Order where
  visits := t :: G.resultTiles.erase t
  visits_perm := (List.perm_cons_erase isTile).symm
  lists := G.neighbors.lists
  lists_perm _ := .rfl

omit [DecidableEq Tile] in
theorem TileGraph.closedUnder_crosses :
    ClosedUnder (G.Crosses c) { t | t ∈ G.resultTiles } :=
  fun _ _ _ goesOn => connected_subset G.neighbors goesOn

/-- **The groups are the components** if `FindConnected` can come back from everywhere it goes on
to. -/
theorem TileGraph.Order.exists_components (order : G.Order) {depth : ℕ}
    (deep : G.resultTiles.length < depth)
    (back : ∀ t ∈ G.resultTiles, ∀ u, G.Crosses c t u → ReflTransGen (G.Crosses c) u t) :
    ∃ groups, order.groups c depth = some groups ∧ groupSets groups =
      { part | ∃ t ∈ G.resultTiles, part = { u | ReflTransGen (G.Crosses c) t u } } := by
  have undo : ∀ t ∈ G.resultTiles, ∀ u, ReflTransGen (G.Crosses c) t u →
      ReflTransGen (G.Crosses c) u t := by
    intro t isTile u reach
    induction reach with
    | refl => exact .refl
    | tail reach step ih =>
      exact (back _ (TileGraph.closedUnder_crosses.reach isTile reach) _ step).trans ih
  obtain ⟨groups, runs, isGroups⟩ := order.exists_groups deep
  refine ⟨groups, runs, ?_⟩
  rw [isGroups.sets_eq closedUnder_empty
    fun t member => undo t (order.visits_perm.mem_iff.mp member)]
  simp [order.visits_perm.mem_iff]

/-- **The groups do not depend on the order** of the tiles and of their neighbor lists if and only
if, whenever `FindConnected` goes on from a tile to a neighbor, it can come back from the neighbor
to the tile. -/
theorem TileGraph.orderIndependent_iff (c : PlaneConstants K) (G : TileGraph K Tile) :
    G.OrderIndependent c ↔ ∀ t ∈ G.resultTiles, ∀ u, G.Crosses c t u →
      ReflTransGen (G.Crosses c) u t := by
  constructor
  · intro independent t isTile u goesOn
    have deep := Nat.lt_succ_self G.resultTiles.length
    let order := G.startingWith t isTile
    let order' := G.startingWith u (TileGraph.closedUnder_crosses t isTile u goesOn)
    obtain ⟨groups, groups', runs, runs', same⟩ := independent order order' _ deep
    obtain ⟨_, runs₁, first⟩ := order.exists_groups (c := c) deep
    obtain ⟨_, runs₂, second⟩ := order'.exists_groups (c := c) deep
    obtain rfl := Option.some.inj (runs.symm.trans runs₁)
    obtain rfl := Option.some.inj (runs'.symm.trans runs₂)
    exact reach_of_groupSets_eq first second same (.single goesOn)
  · intro back order order' depth deep
    obtain ⟨groups, runs, components⟩ := order.exists_components deep back
    obtain ⟨groups', runs', components'⟩ := order'.exists_components deep back
    exact ⟨groups, groups', runs, runs', components.trans components'.symm⟩

end Orders

/-- Two tiles side by side that face the viewer, the first one unit further away. -/
def stair : TileGraph ℚ (Fin 2) where
  resultTiles := [0, 1]
  nodup := by decide
  tile i := ⟨⟨i, 0, 1, 1⟩, fun _ => ⟨none, 0⟩, 0, ![0, 0, 1], ⟨some ![i, 0, 2 - i], 0⟩, false⟩
  neighbors :=
    { lists := fun i => if i = 0 then [(1, .left)] else [(0, .right)]
      mem := by decide }

theorem goesOn_stair : GoesOn defaultConstants (stair.tile 1) (stair.tile 0) ∧
    ¬ GoesOn defaultConstants (stair.tile 0) (stair.tile 1) := by
  constructor <;>
    simp [GoesOn, stair, defaultConstants, Vec4f.v3, dotProduct, Fin.sum_univ_three] <;> norm_num

/-- The second tile is grouped with the first, but only if it is visited before it. -/
theorem not_orderIndependent_stair :
    (∀ t u side, (u, side) ∈ stair.neighbors.lists t ↔
      (t, side.opposite) ∈ stair.neighbors.lists u) ∧
      ¬ stair.OrderIndependent defaultConstants := by
  constructor
  · intro t u side
    fin_cases t <;> fin_cases u <;> cases side <;> decide
  · intro independent
    have back := (stair.orderIndependent_iff defaultConstants).mp independent 1 (by decide) 0
      (TileGraph.crosses_iff.mpr ⟨⟨.right, by decide⟩, goesOn_stair.1⟩)
    -- the first tile has no other neighbor to go on to
    rcases back.cases_head with same | ⟨t, step, -⟩
    · exact absurd same (by decide)
    · obtain ⟨⟨side, inList⟩, goesOn⟩ := TileGraph.crosses_iff.mp step
      obtain ⟨rfl, -⟩ := Prod.mk.inj (List.mem_singleton.mp inList)
      exact goesOn_stair.2 goesOn

end Sqwar.Planes
