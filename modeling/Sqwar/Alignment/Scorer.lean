import Mathlib.Algebra.Order.Ring.Rat
import Mathlib.Data.List.GetD
import Mathlib.Data.List.MinMax
import Sqwar.Alignment.Gmtl
import Sqwar.Data.FirstMin

/-!
# The matches of a scorer

`PtScorer::Init` asks the k-d tree for a point near each transformed point of the second set, and
keeps for each point of the first set the nearest of those that found it. The tree may return any
point that it stores: that decides which points compete, and the distances decide the rest.
-/

set_option autoImplicit false

namespace Sqwar.Alignment

open Data

variable {K : Type*} [Field K] [LinearOrder K]

/-- `ANode`. -/
structure ANode (K : Type*) where
  pos : Fin 3 → K
  idx : ℕ
  deriving DecidableEq

/-- `Match`. The index is a `long`, that of one of the points in memory or -1. Where a `long` has 32
bits, the sets are taken to have less than 2^31 points, and where it has 64, memory bounds them. -/
structure Match (K : Type*) where
  distsq : K
  idx : ℕ
  matchedIdx : ℤ
  deriving DecidableEq

/-- Default matches, numbered. -/
def Match.numbered (count : ℕ) : List (Match K) :=
  (List.range count).map fun midx => ⟨-1, midx, -1⟩

/-- The nodes of the points of a set. -/
def nodes (pts0 : List (Fin 3 → K)) : List (ANode K) := pts0.mapIdx fun ptidx pt => ⟨pt, ptidx⟩

/-- The loop body for one transformed point: the node that is found for it may get a new match. An
index outside the vectors ends the loop. -/
def matchPoint (find_nearest : (Fin 3 → K) → ANode K) (pts0 : List (Fin 3 → K))
    (table : List (Match K)) (mIdx : ℕ) (tpt : Fin 3 → K) : Option (List (Match K)) := do
  let itFound := find_nearest tpt
  let m ← table[itFound.idx]?
  let pt0 ← pts0[itFound.idx]?
  let distsq := lengthSquared (tpt - pt0)
  if m.matchedIdx < 0 ∨ distsq < m.distsq then
    return table.set itFound.idx { m with distsq, matchedIdx := mIdx }
  else return table

/-- The loop over the transformed points. -/
def matchPoints (find_nearest : (Fin 3 → K) → ANode K) (pts0 : List (Fin 3 → K)) :
    List (Match K) → ℕ → List (Fin 3 → K) → Option (List (Match K))
  | table, _, [] => some table
  | table, mIdx, tpt :: tpts1 => do
    let table ← matchPoint find_nearest pts0 table mIdx tpt
    matchPoints find_nearest pts0 table (mIdx + 1) tpts1

/-- The loop that keeps the matches that were made. -/
def made (table : List (Match K)) : List (Match K) := table.filter fun m => 0 ≤ m.matchedIdx

/-- `PtScorer`. The k-d tree is the list of the nodes that it stores. -/
structure PtScorer (K : Type*) where
  pts0 : List (Fin 3 → K)
  mMatches : List (Match K)
  pts1 : List (Fin 3 → K)
  tpts1 : List (Fin 3 → K)
  transform : Matrix (Fin 4) (Fin 4) K
  kdtree : List (ANode K)
  isinit : Bool

namespace PtScorer

/-- The constructor. -/
def new (pts0 pts1 : List (Fin 3 → K)) (pMat : Matrix (Fin 4) (Fin 4) K) : PtScorer K :=
  ⟨pts0, [], pts1, [], pMat, [], false⟩

/-- `PtScorer::Init`. -/
def init (find_nearest : List (ANode K) → (Fin 3 → K) → ANode K) (scorer : PtScorer K) :
    Option (PtScorer K) := do
  let kdtree := scorer.kdtree ++ nodes scorer.pts0
  let tpts1 := scorer.pts1.map (xform scorer.transform)
  let table ← matchPoints (find_nearest kdtree) scorer.pts0 (Match.numbered scorer.pts0.length) 0
    tpts1
  return { scorer with
    kdtree, tpts1, mMatches := scorer.mMatches ++ made table, isinit := true }

end PtScorer

/-! ### Competitors -/

/-- The point of this index found the node of this index. -/
def Competes (find_nearest : (Fin 3 → K) → ANode K) (tpts1 : List (Fin 3 → K)) (idx i : ℕ) : Prop :=
  ∃ tpt, tpts1[i]? = some tpt ∧ (find_nearest tpt).idx = idx

/-- The squared distance of two points by their indices. -/
def distanceSq (pts0 tpts1 : List (Fin 3 → K)) (idx i : ℕ) : K :=
  lengthSquared (tpts1.getD i 0 - pts0.getD idx 0)

/-- The best match of a node among the points before `n`. -/
structure Best (find_nearest : (Fin 3 → K) → ANode K) (pts0 tpts1 : List (Fin 3 → K)) (n idx : ℕ)
    (m : Match K) : Prop where
  idx_eq : m.idx = idx
  best : (m.matchedIdx = -1 ∧ ∀ i < n, ¬ Competes find_nearest tpts1 idx i) ∨
    ∃ j : ℕ, m.matchedIdx = j ∧ m.distsq = distanceSq pts0 tpts1 idx j ∧
      FirstMin (Competes find_nearest tpts1 idx) (distanceSq pts0 tpts1 idx) n j

/-- What holds of the table of matches after `n` points. -/
structure TableHolds (find_nearest : (Fin 3 → K) → ANode K) (pts0 tpts1 : List (Fin 3 → K)) (n : ℕ)
    (table : List (Match K)) : Prop where
  length_eq : table.length = pts0.length
  best : ∀ idx m, table[idx]? = some m → Best find_nearest pts0 tpts1 n idx m

variable {find_nearest : (Fin 3 → K) → ANode K} {pts0 tpts1 : List (Fin 3 → K)} {n idx : ℕ}
  {table : List (Match K)} {tpt : Fin 3 → K} {m : Match K}

/-- Each match stands at its index. -/
structure Numbered (count : ℕ) (table : List (Match K)) : Prop where
  length_eq : table.length = count
  idx_eq : ∀ idx (m : Match K), table[idx]? = some m → m.idx = idx

omit [LinearOrder K] in
theorem numbered_numbered (count : ℕ) : Numbered count (Match.numbered count : List (Match K)) := by
  refine ⟨by simp [Match.numbered], fun idx m found => ?_⟩
  obtain ⟨i, inRange, rfl⟩ : ∃ i, (List.range count)[idx]? = some i ∧ ⟨-1, i, -1⟩ = m := by
    simpa [Match.numbered] using found
  obtain ⟨-, rfl⟩ := List.getElem?_eq_some_iff.mp inRange
  exact List.getElem_range _

/-- No node has a match before the first point. -/
theorem tableHolds_zero (numbered : Numbered pts0.length table)
    (unmatched : ∀ m ∈ table, m.matchedIdx = -1) :
    TableHolds find_nearest pts0 tpts1 0 table :=
  ⟨numbered.length_eq, fun idx m found => ⟨numbered.idx_eq idx m found,
    .inl ⟨unmatched m (List.mem_of_getElem? found), fun i less => absurd less (Nat.not_lt_zero i)⟩⟩⟩

theorem tableHolds_numbered :
    TableHolds find_nearest pts0 tpts1 0 (Match.numbered pts0.length) :=
  tableHolds_zero (numbered_numbered _) (by simp [Match.numbered])

/-- The entry of another node stays the best one. -/
theorem Best.other (best : Best find_nearest pts0 tpts1 n idx m) (point : tpts1[n]? = some tpt)
    (other : (find_nearest tpt).idx ≠ idx) : Best find_nearest pts0 tpts1 (n + 1) idx m := by
  have apart : ¬ Competes find_nearest tpts1 idx n := by
    rintro ⟨tpt', point', found⟩
    obtain rfl : tpt = tpt' := Option.some.inj (point.symm.trans point')
    exact other found
  refine ⟨best.idx_eq, ?_⟩
  rcases best.best with ⟨unmatched, none⟩ | ⟨j, matched, distsq, least⟩
  · refine .inl ⟨unmatched, fun i less competes => ?_⟩
    rcases Nat.lt_succ_iff_lt_or_eq.mp less with before | rfl
    · exact none i before competes
    · exact apart competes
  · exact .inr ⟨j, matched, distsq, least.keep fun competes => absurd competes apart⟩

/-- The entry of the node that is found: it gets the point if it had none or a farther one. -/
theorem Best.found (best : Best find_nearest pts0 tpts1 n idx m) (point : tpts1[n]? = some tpt)
    (found : (find_nearest tpt).idx = idx) :
    Best find_nearest pts0 tpts1 (n + 1) idx
      (if m.matchedIdx < 0 ∨ distanceSq pts0 tpts1 idx n < m.distsq then
        { m with distsq := distanceSq pts0 tpts1 idx n, matchedIdx := n }
      else m) := by
  have here : Competes find_nearest tpts1 idx n := ⟨tpt, point, found⟩
  rcases best.best with ⟨unmatched, none⟩ | ⟨j, matched, distsq, least⟩
  · rw [if_pos (.inl (by omega))]
    exact ⟨best.idx_eq, .inr ⟨n, rfl, rfl, .of_none none here⟩⟩
  · rw [distsq]
    split
    · rename_i better
      have better := better.resolve_left (by omega)
      exact ⟨best.idx_eq, .inr ⟨n, rfl, rfl, least.replace here better⟩⟩
    · rename_i worse
      exact ⟨best.idx_eq, .inr ⟨j, matched, distsq, least.keep fun _ => (not_or.mp worse).2⟩⟩

/-- **Step lemma.** One more point keeps every entry the best one. -/
theorem TableHolds.matchPoint (holds : TableHolds find_nearest pts0 tpts1 n table)
    (point : tpts1[n]? = some tpt) (stored : (find_nearest tpt).idx < pts0.length) :
    ∃ table', Alignment.matchPoint find_nearest pts0 table n tpt = some table' ∧
      TableHolds find_nearest pts0 tpts1 (n + 1) table' := by
  obtain ⟨m, entry⟩ : ∃ m, table[(find_nearest tpt).idx]? = some m :=
    ⟨_, List.getElem?_eq_getElem (holds.length_eq ▸ stored)⟩
  have distance : lengthSquared (tpt - pts0[(find_nearest tpt).idx]) =
      distanceSq pts0 tpts1 (find_nearest tpt).idx n := by
    rw [distanceSq, List.getD_eq_getElem?_getD, point, List.getD_eq_getElem _ _ stored]
    rfl
  have best := (holds.best _ m entry).found point rfl
  refine ⟨if m.matchedIdx < 0 ∨ distanceSq pts0 tpts1 (find_nearest tpt).idx n < m.distsq then
      table.set (find_nearest tpt).idx { m with
        distsq := distanceSq pts0 tpts1 (find_nearest tpt).idx n, matchedIdx := n }
    else table, ?_, ?_, fun idx m' entry' => ?_⟩
  · simp only [Alignment.matchPoint, entry, List.getElem?_eq_getElem stored, distance,
      Option.bind_eq_bind, Option.bind_some]
    split <;> rfl
  · split <;> simp [holds.length_eq]
  · by_cases same : (find_nearest tpt).idx = idx
    · subst same
      split at entry' <;> rename_i better
      · rw [if_pos better] at best
        rw [List.getElem?_set_self (holds.length_eq ▸ stored)] at entry'
        exact Option.some.inj entry' ▸ best
      · rw [if_neg better] at best
        rw [entry] at entry'
        exact Option.some.inj entry' ▸ best
    · have old : table[idx]? = some m' := by
        split at entry'
        · rwa [List.getElem?_set_ne same] at entry'
        · exact entry'
      exact (holds.best idx m' old).other point same

/-- **Run lemma.** -/
theorem TableHolds.matchPoints {past rest : List (Fin 3 → K)} (split : tpts1 = past ++ rest)
    (holds : TableHolds find_nearest pts0 tpts1 past.length table)
    (stored : ∀ tpt, (find_nearest tpt).idx < pts0.length) :
    ∃ table', Alignment.matchPoints find_nearest pts0 table past.length rest = some table' ∧
      TableHolds find_nearest pts0 tpts1 tpts1.length table' := by
  induction rest generalizing past table with
  | nil =>
    obtain rfl : tpts1 = past := by simpa using split
    exact ⟨table, rfl, holds⟩
  | cons tpt rest ih =>
    have point : tpts1[past.length]? = some tpt := by simp [split]
    obtain ⟨table', body, holds'⟩ := holds.matchPoint point (stored tpt)
    have length : (past ++ [tpt]).length = past.length + 1 := by simp
    obtain ⟨table'', loop, holds''⟩ := ih (by simpa using split) (length ▸ holds')
    rw [length] at loop
    exact ⟨table'', by simp [Alignment.matchPoints, body, loop], holds''⟩

/-! ### The matches -/

omit [Field K] [LinearOrder K] in
theorem idx_lt_of_mem_nodes {node : ANode K} (member : node ∈ nodes pts0) :
    node.idx < pts0.length ∧ pts0[node.idx]? = some node.pos := by
  obtain ⟨i, less, rfl⟩ := List.mem_mapIdx.mp member
  exact ⟨less, List.getElem?_eq_getElem less⟩

omit [Field K] [LinearOrder K] in
theorem Competes.lt {i : ℕ} (competes : Competes find_nearest tpts1 idx i) : i < tpts1.length := by
  obtain ⟨tpt, point, -⟩ := competes
  exact (List.getElem?_eq_some_iff.mp point).1

/-- The matches that are kept are numbered in order. -/
theorem TableHolds.pairwise_made (holds : TableHolds find_nearest pts0 tpts1 n table) :
    (made table).Pairwise fun m m' => m.idx < m'.idx := by
  have ordered : table.Pairwise fun m m' => m.idx < m'.idx := by
    rw [List.pairwise_iff_getElem]
    intro i j hi hj less
    have first := (holds.best i _ (List.getElem?_eq_getElem hi)).idx_eq
    have second := (holds.best j _ (List.getElem?_eq_getElem hj)).idx_eq
    omega
  exact ordered.filter _

/-- **What a match is worth**: the nearest of the points that found its node, the first of several,
and the nodes that were found have one. -/
theorem TableHolds.mem_made (holds : TableHolds find_nearest pts0 tpts1 tpts1.length table)
    (stored : ∀ tpt, (find_nearest tpt).idx < pts0.length) :
    (∀ idx, idx ∈ (made table).map Match.idx ↔ ∃ i, Competes find_nearest tpts1 idx i) ∧
      ∀ m ∈ made table, ∃ j : ℕ, m.matchedIdx = j ∧ m.distsq = distanceSq pts0 tpts1 m.idx j ∧
        IsLeast { k | Competes find_nearest tpts1 m.idx k ∧
          ∀ i, Competes find_nearest tpts1 m.idx i →
            distanceSq pts0 tpts1 m.idx k ≤ distanceSq pts0 tpts1 m.idx i } j := by
  have matched : ∀ m ∈ made table, ∃ j : ℕ, m.matchedIdx = j ∧
      m.distsq = distanceSq pts0 tpts1 m.idx j ∧
      FirstMin (Competes find_nearest tpts1 m.idx) (distanceSq pts0 tpts1 m.idx) tpts1.length
        j := by
    intro m member
    obtain ⟨inTable, positive⟩ := List.mem_filter.mp member
    obtain ⟨idx, entry⟩ := List.mem_iff_getElem?.mp inTable
    obtain ⟨rfl, best⟩ := holds.best idx m entry
    exact best.resolve_left fun unmatched => by simp [unmatched.1] at positive
  refine ⟨fun idx => ⟨fun member => ?_, fun ⟨i, competes⟩ => ?_⟩, fun m member => ?_⟩
  · obtain ⟨m, kept, rfl⟩ := List.mem_map.mp member
    obtain ⟨j, -, -, least⟩ := matched m kept
    exact ⟨j, least.competing⟩
  · have inRange : idx < table.length := by
      obtain ⟨tpt, -, rfl⟩ := competes
      exact holds.length_eq ▸ stored tpt
    obtain ⟨idx_eq, best⟩ := holds.best idx _ (List.getElem?_eq_getElem inRange)
    obtain ⟨j, isMatched, -⟩ := best.resolve_left fun none => none.2 i competes.lt competes
    refine List.mem_map.mpr ⟨table[idx], List.mem_filter.mpr ⟨List.getElem_mem inRange, ?_⟩, idx_eq⟩
    simp [isMatched]
  · obtain ⟨j, isMatched, distsq, least⟩ := matched m member
    exact ⟨j, isMatched, distsq, least.isLeast fun i competes => competes.lt⟩

/-- **The matches of a scorer.** Whatever stored nodes the k-d tree finds, `Init` succeeds and lists
matches in increasing order, one for each node that was found for a transformed point. Its index is
the first of the points that found the node and are nearest to it, and the squared distance is
theirs. A `long` holds each index: in 32 bits, the sets have less than 2^31 points. -/
theorem PtScorer.init_matches {find_nearest : List (ANode K) → (Fin 3 → K) → ANode K}
    (finds : ∀ stored v, stored ≠ [] → find_nearest stored v ∈ stored) {pts0 : List (Fin 3 → K)}
    (nonempty : pts0 ≠ []) (pts1 : List (Fin 3 → K)) (pMat : Matrix (Fin 4) (Fin 4) K) :
    ∃ scorer, (PtScorer.new pts0 pts1 pMat).init find_nearest = some scorer ∧
      scorer.mMatches.Pairwise (fun m m' => m.idx < m'.idx) ∧
      (∀ idx, idx ∈ scorer.mMatches.map Match.idx ↔
        ∃ tpt ∈ pts1.map (xform pMat), (find_nearest (nodes pts0) tpt).idx = idx) ∧
      ∀ m ∈ scorer.mMatches, ∃ j : ℕ, m.matchedIdx = j ∧
        m.distsq = distanceSq pts0 (pts1.map (xform pMat)) m.idx j ∧
        IsLeast { k | Competes (find_nearest (nodes pts0)) (pts1.map (xform pMat)) m.idx k ∧
          ∀ i, Competes (find_nearest (nodes pts0)) (pts1.map (xform pMat)) m.idx i →
            distanceSq pts0 (pts1.map (xform pMat)) m.idx k ≤
              distanceSq pts0 (pts1.map (xform pMat)) m.idx i } j := by
  have full : nodes pts0 ≠ [] := by simpa [nodes] using nonempty
  have stored : ∀ tpt, (find_nearest (nodes pts0) tpt).idx < pts0.length := fun tpt =>
    (idx_lt_of_mem_nodes (finds _ tpt full)).1
  have start : pts1.map (xform pMat) = [] ++ pts1.map (xform pMat) := rfl
  obtain ⟨table, loop, holds⟩ := TableHolds.matchPoints start tableHolds_numbered stored
  obtain ⟨idx_iff, least⟩ := holds.mem_made stored
  refine ⟨⟨pts0, made table, pts1, pts1.map (xform pMat), pMat, nodes pts0, true⟩, ?_,
    holds.pairwise_made, fun idx => (idx_iff idx).trans ?_, least⟩
  · have loop : matchPoints (find_nearest (nodes pts0)) pts0 (Match.numbered pts0.length) 0
        (pts1.map (xform pMat)) = some table := loop
    simp [init, PtScorer.new, loop]
  · simp only [Competes, List.mem_iff_getElem?]
    constructor
    · rintro ⟨i, tpt, point, found⟩
      exact ⟨tpt, ⟨i, point⟩, found⟩
    · rintro ⟨tpt, ⟨i, point⟩, found⟩
      exact ⟨i, tpt, point, found⟩

/-- A tree that finds the nearest point. -/
def nearest (stored : List (ANode K)) (v : Fin 3 → K) : ANode K :=
  (stored.argmin fun node => lengthSquared (node.pos - v)).getD ⟨v, 0⟩

theorem nearest_mem {stored : List (ANode K)} (v : Fin 3 → K) (nonempty : stored ≠ []) :
    nearest stored v ∈ stored := by
  obtain ⟨node, found⟩ : ∃ node, stored.argmin (fun node => lengthSquared (node.pos - v)) =
      some node :=
    Option.ne_none_iff_exists'.mp fun none => nonempty (List.argmin_eq_none.mp none)
  rw [nearest, found]
  exact List.argmin_mem found

/-- Two points of three find the first point of the other set. -/
theorem PtScorer.init_matches_two_points : ∃ scorer,
    (PtScorer.new [![0, 0, 0], ![9, 0, 0]] [![0, 2, 0], ![1, 0, 0], ![8, 0, 0]]
        (1 : Matrix (Fin 4) (Fin 4) ℚ)).init nearest = some scorer ∧
      scorer.mMatches.Pairwise fun m m' => m.idx < m'.idx := by
  obtain ⟨scorer, made, ordered, -⟩ := PtScorer.init_matches (fun _ v => nearest_mem v)
    (List.cons_ne_nil _ _) [![0, 2, 0], ![1, 0, 0], ![8, 0, 0]] (1 : Matrix (Fin 4) (Fin 4) ℚ)
  exact ⟨scorer, made, ordered⟩

/-- The nearer one of the two is its match. -/
example : ((PtScorer.new [![0, 0, 0], ![9, 0, 0]] [![0, 2, 0], ![1, 0, 0], ![8, 0, 0]]
    (1 : Matrix (Fin 4) (Fin 4) ℚ)).init nearest).map PtScorer.mMatches =
      some [⟨1, 0, 1⟩, ⟨1, 1, 2⟩] := by decide +kernel

end Sqwar.Alignment
