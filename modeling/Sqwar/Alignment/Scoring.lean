import Mathlib.Analysis.SpecialFunctions.Log.Base
import Mathlib.Order.WithBot
import Sqwar.Alignment.Scorer
import Sqwar.KdTree.Nearest

/-!
# Scores

`PtScorer` with the k-d tree that it has. `Init` runs at the first call of `GetScore` only, so all
scores are over the same pairs of points: a point of the first set with a point of the second to
which, where the transform of the constructor puts it, none of the first set is closer.
-/

set_option autoImplicit false

namespace Sqwar.Alignment

open Data KdTree

variable {K : Type*} [Field K] [LinearOrder K] (sqrt log10 : K → K) (nth : NthElement (ANode K))

/-- `find_nearest` on a tree that is not empty. -/
def FindsNode (tree : KDTree (ANode K)) (tpt : Fin 3 → K) (node : ANode K) : Prop :=
  ∃ address distance, tree.FindsNearest ANode.pos sqrt ⟨tpt, 0⟩ (some address, distance) ∧
    valueAt tree.root address = some node

/-- An element of a vector, by an index that may be negative. -/
def elementAt {α : Type*} (elements : List α) (index : ℤ) : Option α :=
  if 0 ≤ index then elements[index.toNat]? else none

/-- The last lines of `GetScore`: "infinity" where the points of all matches coincide. -/
def score (resultscore : K) : WithTop K :=
  if resultscore = 0 then ⊤ else (log10 (1 / resultscore) : K)

namespace PtScorer

/-- `PtScorer::Init`, with the k-d tree that it builds. -/
def InitsTo (scorer scorer' : PtScorer K) : Prop :=
  ∃ tree find_nearest,
    PerformsAll ANode.pos nth .empty
      ((scorer.kdtree ++ nodes scorer.pts0).map Operation.insert ++ [.optimise]) tree ∧
    (∀ tpt, FindsNode sqrt tree tpt (find_nearest tpt)) ∧
    scorer.init (fun _ => find_nearest) = some scorer'

/-- The loop body of `GetScore`. -/
def addDistance (scorer : PtScorer K) (testTransform : Matrix (Fin 4) (Fin 4) K) (resultscore : K)
    (m : Match K) : Option K := do
  let pt0 ← scorer.pts0[m.idx]?
  let pt1 ← elementAt scorer.pts1 m.matchedIdx
  return resultscore + lengthSquared (xform testTransform pt1 - pt0)

/-- The loop of `GetScore` over the matches, and the division. -/
def resultScore (scorer : PtScorer K) (testTransform : Matrix (Fin 4) (Fin 4) K) : Option K := do
  let resultscore ← scorer.mMatches.foldlM (scorer.addDistance testTransform) 0
  return resultscore / scorer.mMatches.length

/-- `PtScorer::GetScore`. -/
def GetsScore (scorer : PtScorer K) (testTransform : Matrix (Fin 4) (Fin 4) K)
    (scorer' : PtScorer K) (s : WithTop K) : Prop :=
  (if scorer.isinit then scorer' = scorer else scorer.InitsTo sqrt nth scorer') ∧
    ∃ resultscore, scorer'.resultScore testTransform = some resultscore ∧
      s = score log10 resultscore

/-- Calls of `GetScore` one after the other. -/
inductive GetsScores : PtScorer K → List (Matrix (Fin 4) (Fin 4) K) → List (WithTop K) → Prop
  | nil {scorer} : GetsScores scorer [] []
  | cons {scorer testTransform scorer' s testTransforms scores}
      (first : scorer.GetsScore sqrt log10 nth testTransform scorer' s)
      (rest : GetsScores scorer' testTransforms scores) :
      GetsScores scorer (testTransform :: testTransforms) (s :: scores)

end PtScorer

/-- The squared distance of a pair of points, by their indices. -/
def pairDistance (pts0 pts1 : List (Fin 3 → K)) (testTransform : Matrix (Fin 4) (Fin 4) K)
    (pair : ℕ × ℕ) : K :=
  lengthSquared (xform testTransform (pts1.getD pair.2 0) - pts0.getD pair.1 0)

/-- The mean of the squared distances. -/
def meanDistance (pts0 pts1 : List (Fin 3 → K)) (pairs : List (ℕ × ℕ))
    (testTransform : Matrix (Fin 4) (Fin 4) K) : K :=
  (pairs.map (pairDistance pts0 pts1 testTransform)).sum / pairs.length

/-- What the pairs of a scorer are. -/
structure Matched (pts0 pts1 : List (Fin 3 → K)) (pMat : Matrix (Fin 4) (Fin 4) K)
    (pairs : List (ℕ × ℕ)) : Prop where
  /-- No point of the first set is in two pairs. -/
  increasing : pairs.Pairwise fun pair pair' => pair.1 < pair'.1
  /-- A pair is of a point and the point of the first set that is nearest to it. -/
  nearest : ∀ pair ∈ pairs, ∃ pt0 pt1, pts0[pair.1]? = some pt0 ∧ pts1[pair.2]? = some pt1 ∧
    ∀ pt ∈ pts0, lengthSquared (xform pMat pt1 - pt0) ≤ lengthSquared (xform pMat pt1 - pt)
  /-- Each point has a nearest point in a pair, which is with a point that is as near to it. -/
  covers : ∀ pt1 ∈ pts1, ∃ pair ∈ pairs, ∃ pt0, pts0[pair.1]? = some pt0 ∧
    (∀ pt ∈ pts0, lengthSquared (xform pMat pt1 - pt0) ≤ lengthSquared (xform pMat pt1 - pt)) ∧
    lengthSquared (xform pMat (pts1.getD pair.2 0) - pt0) ≤ lengthSquared (xform pMat pt1 - pt0)

variable {sqrt log10 nth} {tree : KDTree (ANode K)} {find_nearest : (Fin 3 → K) → ANode K}
  {pts0 pts1 : List (Fin 3 → K)} {pMat testTransform : Matrix (Fin 4) (Fin 4) K} {idx : ℕ}
  {table : List (Match K)} {scorer scorer' : PtScorer K}

/-! ### What the tree finds -/

omit [LinearOrder K] in
theorem accumulateNodeDistance_pos (tpt : Fin 3 → K) (node : ANode K) :
    accumulateNodeDistance ANode.pos ⟨tpt, 0⟩ node = lengthSquared (tpt - node.pos) := by
  rw [accumulateNodeDistance, Fin.sum_univ_three, lengthSquared]
  rfl

theorem inserted_map_insert {Val : Type*} (values : List Val) :
    inserted (values.map Operation.insert ++ [Operation.optimise]) = values := by
  have inserts : ∀ past : List Val, (values.map Operation.insert ++ [Operation.optimise]).foldl
      remaining past = past ++ values := by
    induction values with
    | nil => exact fun past => (List.append_nil past).symm
    | cons value values ih =>
      intro past
      rw [List.map_cons, List.cons_append, List.foldl_cons, ih, remaining, List.append_assoc]
      rfl
  exact inserts []

/-- The finder of a tree: it finds stored nodes that are nearest. -/
structure IsNearest (find_nearest : (Fin 3 → K) → ANode K) (pts0 : List (Fin 3 → K)) : Prop where
  stored : ∀ tpt, (find_nearest tpt).idx < pts0.length
  pos : ∀ tpt, pts0[(find_nearest tpt).idx]? = some (find_nearest tpt).pos
  nearest : ∀ tpt, ∀ pt ∈ pts0,
    lengthSquared (tpt - (find_nearest tpt).pos) ≤ lengthSquared (tpt - pt)

section

variable [IsStrictOrderedRing K]

theorem lengthSquared_nonneg (v : Fin 3 → K) : 0 ≤ lengthSquared v :=
  add_nonneg (add_nonneg (mul_self_nonneg _) (mul_self_nonneg _)) (mul_self_nonneg _)

/-- The tree of `Init` has a finder, and every finder finds nearest points. -/
theorem exists_finder (strict : StrictMonoOn sqrt (Set.Ici 0)) (nonempty : pts0 ≠ [])
    (performs : PerformsAll ANode.pos nth .empty
      ((nodes pts0).map Operation.insert ++ [Operation.optimise]) tree) :
    (∃ find_nearest : (Fin 3 → K) → ANode K, ∀ tpt, FindsNode sqrt tree tpt (find_nearest tpt)) ∧
      ∀ find_nearest : (Fin 3 → K) → ANode K,
        (∀ tpt, FindsNode sqrt tree tpt (find_nearest tpt)) → IsNearest find_nearest pts0 := by
  obtain ⟨sound, same⟩ := sound_empty.of_operations performs (.refl _)
  have same : (inorder tree.root).Perm (nodes pts0) :=
    same.trans (List.Perm.of_eq (inserted_map_insert (nodes pts0)))
  have isTree : tree.root ≠ .nil := by
    intro isNil
    rw [isNil] at same
    exact nonempty (by simpa [nodes] using same.symm.eq_nil)
  have finds := fun tpt => sound.exists_nearest strict.monotoneOn isTree ⟨tpt, 0⟩
  constructor
  · choose address node here _ only using finds
    exact ⟨node, fun tpt => ⟨address tpt, _, (only tpt _).mpr rfl, here tpt⟩⟩
  · intro find_nearest isFound
    have nearest : ∀ tpt, find_nearest tpt ∈ inorder tree.root ∧ ∀ w ∈ inorder tree.root,
        lengthSquared (tpt - (find_nearest tpt).pos) ≤ lengthSquared (tpt - w.pos) := by
      intro tpt
      obtain ⟨address, node, here, least, only⟩ := finds tpt
      obtain ⟨address', distance, found, here'⟩ := isFound tpt
      obtain rfl := Option.some.inj (Prod.mk.inj ((only _).mp found)).1
      obtain rfl := Option.some.inj (here.symm.trans here')
      refine ⟨mem_inorder_of_valueAt here, fun w member => ?_⟩
      have le := least w member
      rw [accumulateNodeDistance_pos, accumulateNodeDistance_pos] at le
      exact (strict.le_iff_le (lengthSquared_nonneg _) (lengthSquared_nonneg _)).mp le
    refine ⟨fun tpt => ?_, fun tpt => ?_, fun tpt pt member => ?_⟩
    · exact (idx_lt_of_mem_nodes (same.mem_iff.mp (nearest tpt).1)).1
    · exact (idx_lt_of_mem_nodes (same.mem_iff.mp (nearest tpt).1)).2
    · obtain ⟨i, less, rfl⟩ := List.mem_iff_getElem.mp member
      have stored : (⟨pts0[i], i⟩ : ANode K) ∈ nodes pts0 := List.mem_mapIdx.mpr ⟨i, less, rfl⟩
      exact (nearest tpt).2 _ (same.mem_iff.mpr stored)

end

/-! ### The pairs -/

/-- The pair of a match. -/
def Match.pair (m : Match K) : ℕ × ℕ := (m.idx, m.matchedIdx.toNat)

/-- The pairs of the matches. -/
def pairsOf (table : List (Match K)) : List (ℕ × ℕ) := (made table).map Match.pair

/-- `Init` with a finder. -/
theorem PtScorer.exists_init (isNearest : IsNearest find_nearest pts0) (pts1 : List (Fin 3 → K))
    (pMat : Matrix (Fin 4) (Fin 4) K) :
    ∃ table, TableHolds find_nearest pts0 (pts1.map (xform pMat)) (pts1.map (xform pMat)).length
        table ∧
      (PtScorer.new pts0 pts1 pMat).init (fun _ => find_nearest) = some
        ⟨pts0, made table, pts1, pts1.map (xform pMat), pMat, nodes pts0, true⟩ := by
  have start : pts1.map (xform pMat) = [] ++ pts1.map (xform pMat) := rfl
  obtain ⟨table, loop, holds⟩ := TableHolds.matchPoints start tableHolds_numbered isNearest.stored
  refine ⟨table, holds, ?_⟩
  have loop : matchPoints find_nearest pts0 (Match.numbered pts0.length) 0 (pts1.map (xform pMat)) =
      some table := loop
  simp [init, PtScorer.new, loop]

theorem matched_pairsOf (isNearest : IsNearest find_nearest pts0)
    (holds : TableHolds find_nearest pts0 (pts1.map (xform pMat)) (pts1.map (xform pMat)).length
      table) : Matched pts0 pts1 pMat (pairsOf table) := by
  obtain ⟨idx_iff, least⟩ := holds.mem_made isNearest.stored
  constructor
  · exact List.pairwise_map.mpr (holds.pairwise_made)
  · rintro _ member
    obtain ⟨m, kept, rfl⟩ := List.mem_map.mp member
    obtain ⟨j, isMatched, -, ⟨⟨tpt, tpoint, found⟩, -⟩, -⟩ := least m kept
    obtain ⟨pt1, point, rfl⟩ : ∃ pt1, pts1[j]? = some pt1 ∧ xform pMat pt1 = tpt := by
      simpa using tpoint
    refine ⟨(find_nearest (xform pMat pt1)).pos, pt1, ?_, ?_, isNearest.nearest _⟩
    · rw [Match.pair, ← found]
      exact isNearest.pos (xform pMat pt1)
    · simpa [Match.pair, isMatched] using point
  · intro pt1 member
    obtain ⟨i, point⟩ := List.mem_iff_getElem?.mp member
    have tpoint : (pts1.map (xform pMat))[i]? = some (xform pMat pt1) := by simp [point]
    have competes : Competes find_nearest (pts1.map (xform pMat))
        (find_nearest (xform pMat pt1)).idx i := ⟨_, tpoint, rfl⟩
    obtain ⟨m, kept, same⟩ := List.mem_map.mp ((idx_iff _).mpr ⟨i, competes⟩)
    obtain ⟨j, isMatched, -, ⟨⟨tpt, tpoint', -⟩, nearer⟩, -⟩ := least m kept
    refine ⟨_, List.mem_map_of_mem kept, (find_nearest (xform pMat pt1)).pos, ?_,
      isNearest.nearest _, ?_⟩
    · rw [Match.pair, same]
      exact isNearest.pos (xform pMat pt1)
    · have le := nearer i (same ▸ competes)
      obtain ⟨pt1', point', rfl⟩ : ∃ pt1', pts1[j]? = some pt1' ∧ xform pMat pt1' = tpt := by
        simpa using tpoint'
      have pos := isNearest.pos (xform pMat pt1)
      rw [distanceSq, distanceSq, same, List.getD_eq_getElem?_getD, List.getD_eq_getElem?_getD,
        List.getD_eq_getElem?_getD, tpoint, tpoint', pos] at le
      simpa [Match.pair, isMatched, point'] using le

theorem Matched.ne_nil {pairs : List (ℕ × ℕ)} (isMatched : Matched pts0 pts1 pMat pairs)
    (some : pts1 ≠ []) : pairs ≠ [] := by
  obtain ⟨pt1, member⟩ := List.exists_mem_of_ne_nil pts1 some
  obtain ⟨pair, paired, -⟩ := isMatched.covers pt1 member
  exact List.ne_nil_of_mem paired

/-! ### Every score -/

/-- A match of points that a scorer has. -/
structure Match.Within (m : Match K) (scorer : PtScorer K) : Prop where
  positive : 0 ≤ m.matchedIdx
  idx : m.idx < scorer.pts0.length
  matchedIdx : m.matchedIdx.toNat < scorer.pts1.length

theorem Match.Within.addDistance {m : Match K} (within : m.Within scorer)
    (testTransform : Matrix (Fin 4) (Fin 4) K) (resultscore : K) :
    scorer.addDistance testTransform resultscore m =
      some (resultscore + pairDistance scorer.pts0 scorer.pts1 testTransform m.pair) := by
  rw [PtScorer.addDistance, elementAt, if_pos within.positive,
    List.getElem?_eq_getElem within.idx, List.getElem?_eq_getElem within.matchedIdx, pairDistance,
    Match.pair, List.getD_eq_getElem _ _ within.idx, List.getD_eq_getElem _ _ within.matchedIdx]
  rfl

theorem foldlM_addDistance {found : List (Match K)} (within : ∀ m ∈ found, m.Within scorer)
    (testTransform : Matrix (Fin 4) (Fin 4) K) (resultscore : K) :
    found.foldlM (scorer.addDistance testTransform) resultscore =
      some (resultscore +
        (found.map fun m => pairDistance scorer.pts0 scorer.pts1 testTransform m.pair).sum) := by
  induction found generalizing resultscore with
  | nil => exact congrArg some (add_zero resultscore).symm
  | cons m found ih =>
    rw [List.foldlM_cons, (within m (List.mem_cons_self ..)).addDistance, List.map_cons,
      List.sum_cons, ← add_assoc]
    exact ih (fun m' member => within m' (List.mem_cons_of_mem m member)) _

/-- A scorer after `Init`. -/
structure PtScorer.Ready (scorer : PtScorer K) (pts0 pts1 : List (Fin 3 → K))
    (pairs : List (ℕ × ℕ)) : Prop where
  isinit : scorer.isinit = true
  pts0_eq : scorer.pts0 = pts0
  pts1_eq : scorer.pts1 = pts1
  pairs_eq : scorer.mMatches.map Match.pair = pairs
  within : ∀ m ∈ scorer.mMatches, m.Within scorer

theorem PtScorer.Ready.resultScore {pairs : List (ℕ × ℕ)} (ready : scorer.Ready pts0 pts1 pairs)
    (testTransform : Matrix (Fin 4) (Fin 4) K) :
    scorer.resultScore testTransform = some (meanDistance pts0 pts1 pairs testTransform) := by
  obtain ⟨-, rfl, rfl, rfl, within⟩ := ready
  rw [PtScorer.resultScore, foldlM_addDistance within, meanDistance, List.length_map, List.map_map,
    zero_add]
  rfl

/-- The calls after the first one leave the scorer as it is. -/
theorem PtScorer.Ready.getsScores {pairs : List (ℕ × ℕ)} (ready : scorer.Ready pts0 pts1 pairs)
    (testTransforms : List (Matrix (Fin 4) (Fin 4) K)) {scores : List (WithTop K)} :
    scorer.GetsScores sqrt log10 nth testTransforms scores ↔
      scores = testTransforms.map fun testTransform =>
        score log10 (meanDistance pts0 pts1 pairs testTransform) := by
  induction testTransforms generalizing scores with
  | nil =>
    constructor
    · rintro ⟨⟩
      rfl
    · rintro rfl
      exact .nil
  | cons testTransform testTransforms ih =>
    constructor
    · rintro (_ | ⟨⟨initial, resultscore, result, rfl⟩, rest⟩)
      obtain rfl : _ = scorer := (if_pos ready.isinit).mp initial
      rw [ready.resultScore] at result
      rw [← Option.some.inj result, ih.mp rest]
      rfl
    · rintro rfl
      exact .cons ⟨by rw [if_pos ready.isinit], _, ready.resultScore testTransform, rfl⟩
        (ih.mpr rfl)

variable [IsStrictOrderedRing K]

/-- `Init` of a new scorer. -/
theorem PtScorer.InitsTo.ready (strict : StrictMonoOn sqrt (Set.Ici 0)) (nonempty : pts0 ≠ [])
    (initial : (PtScorer.new pts0 pts1 pMat).InitsTo sqrt nth scorer) :
    ∃ pairs, Matched pts0 pts1 pMat pairs ∧ scorer.Ready pts0 pts1 pairs := by
  obtain ⟨tree, find_nearest, performs, finds, init⟩ := initial
  have isNearest := (exists_finder strict nonempty performs).2 find_nearest finds
  obtain ⟨table, holds, init'⟩ := PtScorer.exists_init isNearest pts1 pMat
  obtain rfl := Option.some.inj (init'.symm.trans init)
  have isMatched := matched_pairsOf isNearest holds
  refine ⟨pairsOf table, isMatched, rfl, rfl, rfl, rfl, fun m member => ?_⟩
  obtain ⟨pt0, pt1, point0, point1, -⟩ := isMatched.nearest m.pair (List.mem_map_of_mem member)
  obtain ⟨less0, -⟩ := List.getElem?_eq_some_iff.mp point0
  obtain ⟨less1, -⟩ := List.getElem?_eq_some_iff.mp point1
  exact ⟨by simpa using (List.mem_filter.mp member).2, less0, less1⟩

theorem PtScorer.exists_initsTo (nth : NthElement (ANode K))
    (strict : StrictMonoOn sqrt (Set.Ici 0)) (nonempty : pts0 ≠ [])
    (pts1 : List (Fin 3 → K)) (pMat : Matrix (Fin 4) (Fin 4) K) :
    ∃ scorer, (PtScorer.new pts0 pts1 pMat).InitsTo sqrt nth scorer := by
  obtain ⟨tree, performs⟩ : ∃ tree, PerformsAll ANode.pos nth .empty
      ((nodes pts0).map Operation.insert ++ [Operation.optimise]) tree :=
    exists_performsAll sound_empty _
  obtain ⟨⟨find_nearest, finds⟩, nearest⟩ := exists_finder strict nonempty performs
  obtain ⟨table, -, init⟩ := PtScorer.exists_init (nearest find_nearest finds) pts1 pMat
  exact ⟨_, tree, find_nearest, performs, finds, init⟩

/-- **Every call of `GetScore`** goes through, and its score is that of the mean squared distance
over one list of pairs, whatever transforms are tested and in whatever order. -/
theorem PtScorer.getsScores_of_new (nth : NthElement (ANode K)) (log10 : K → K)
    (strict : StrictMonoOn sqrt (Set.Ici 0)) (nonempty : pts0 ≠ []) (nonempty' : pts1 ≠ [])
    (pMat : Matrix (Fin 4) (Fin 4) K) (testTransforms : List (Matrix (Fin 4) (Fin 4) K)) :
    (∃ scores, (PtScorer.new pts0 pts1 pMat).GetsScores sqrt log10 nth testTransforms scores) ∧
      ∀ scores, (PtScorer.new pts0 pts1 pMat).GetsScores sqrt log10 nth testTransforms scores →
        ∃ pairs, pairs ≠ [] ∧ Matched pts0 pts1 pMat pairs ∧
          scores = testTransforms.map fun testTransform =>
            score log10 (meanDistance pts0 pts1 pairs testTransform) := by
  obtain ⟨scorer, initial⟩ := exists_initsTo nth strict nonempty pts1 pMat
  cases testTransforms with
  | nil =>
    obtain ⟨pairs, isMatched, -⟩ := initial.ready strict nonempty
    refine ⟨⟨[], .nil⟩, ?_⟩
    rintro _ ⟨⟩
    exact ⟨pairs, isMatched.ne_nil nonempty', isMatched, rfl⟩
  | cons testTransform testTransforms =>
    constructor
    · obtain ⟨pairs, -, ready⟩ := initial.ready strict nonempty
      exact ⟨_, .cons ⟨initial, _, ready.resultScore testTransform, rfl⟩
        ((ready.getsScores testTransforms).mpr rfl)⟩
    · rintro _ (_ | ⟨⟨initial, resultscore, result, rfl⟩, rest⟩)
      obtain ⟨pairs, isMatched, ready⟩ := PtScorer.InitsTo.ready strict nonempty initial
      rw [ready.resultScore] at result
      refine ⟨pairs, isMatched.ne_nil nonempty', isMatched, ?_⟩
      rw [← Option.some.inj result, (ready.getsScores testTransforms).mp rest]
      rfl

/-- Two points of three compete for the first point of the other set. -/
theorem Matched.eq_of_competition {pairs : List (ℕ × ℕ)}
    (isMatched : Matched [![0, 0, 0], ![9, 0, 0]] [![0, 2, 0], ![1, 0, 0], ![8, 0, 0]]
      (makeTrans 0 : Matrix (Fin 4) (Fin 4) ℝ) pairs) : pairs = [(0, 1), (1, 2)] := by
  have paired {i j : ℕ} (member : (i, j) ∈ pairs) : (i = 0 ∧ j < 2) ∨ (i = 1 ∧ j = 2) := by
    obtain ⟨pt0, pt1, point0, point1, least⟩ := isMatched.nearest _ member
    simp only [List.forall_mem_cons, xform_makeTrans] at least
    rcases i with _ | _ | _ <;> rcases j with _ | _ | _ | _ <;> simp at point0 point1 ⊢ <;>
      subst point0 point1 <;> simp [lengthSquared] at least <;> linarith
  have first : (0, 1) ∈ pairs := by
    obtain ⟨⟨i, j⟩, member, pt0, point0, least, close⟩ := isMatched.covers ![1, 0, 0] (by simp)
    simp only [List.forall_mem_cons, xform_makeTrans] at least close
    rcases paired member with ⟨rfl, small⟩ | ⟨rfl, rfl⟩ <;> simp at point0 <;> subst point0
    · obtain rfl | rfl : j = 0 ∨ j = 1 := by omega
      · simp [lengthSquared] at close
        linarith
      · exact member
    · simp [lengthSquared] at least
      linarith
  have second : (1, 2) ∈ pairs := by
    obtain ⟨⟨i, j⟩, member, pt0, point0, least, -⟩ := isMatched.covers ![8, 0, 0] (by simp)
    simp only [List.forall_mem_cons, xform_makeTrans] at least
    rcases paired member with ⟨rfl, -⟩ | ⟨rfl, rfl⟩ <;> simp at point0 <;> subst point0
    · simp [lengthSquared] at least
      linarith
    · exact member
  have ordered := isMatched.increasing
  rcases pairs with _ | ⟨⟨i, j⟩, _ | ⟨⟨i', j'⟩, _ | ⟨⟨i'', j''⟩, pairs⟩⟩⟩
  · simp at first
  · simp at first second
    omega
  · simp at first second ordered
    have := paired (show (i, j) ∈ _ from List.mem_cons_self)
    have := paired (show (i', j') ∈ _ from List.mem_cons_of_mem _ List.mem_cons_self)
    simp only [List.cons.injEq, Prod.mk.injEq, and_true]
    omega
  · have := paired (i := i'') (j := j'') (by simp)
    simp at ordered
    omega

/-- The first score is over the distances of the matches, the second over those of the moved
points. -/
theorem PtScorer.getsScores_of_competition :
    (PtScorer.new [![0, 0, 0], ![9, 0, 0]] [![0, 2, 0], ![1, 0, 0], ![8, 0, 0]]
        (makeTrans 0)).GetsScores Real.sqrt (Real.logb 10) sortRange
      [makeTrans 0, makeTrans ![-1, 0, 0]] [score (Real.logb 10) 1, score (Real.logb 10) 2] := by
  have strict : StrictMonoOn Real.sqrt (Set.Ici 0) := Real.strictMonoOn_sqrt
  obtain ⟨⟨scores, gets⟩, every⟩ := getsScores_of_new sortRange (Real.logb 10) strict
    (List.cons_ne_nil ![0, 0, 0] [![9, 0, 0]])
    (List.cons_ne_nil ![0, 2, 0] [![1, 0, 0], ![8, 0, 0]]) (makeTrans 0)
    [makeTrans 0, makeTrans ![-1, 0, 0]]
  obtain ⟨pairs, -, isMatched, rfl⟩ := every scores gets
  obtain rfl := isMatched.eq_of_competition
  have mean : meanDistance [![0, 0, 0], ![9, 0, 0]] [![0, 2, 0], ![1, 0, 0], ![8, 0, 0]]
      [(0, 1), (1, 2)] (makeTrans 0 : Matrix (Fin 4) (Fin 4) ℝ) = 1 := by
    simp [meanDistance, pairDistance, xform_makeTrans, lengthSquared]
    norm_num
  have moved : meanDistance [![0, 0, 0], ![9, 0, 0]] [![0, 2, 0], ![1, 0, 0], ![8, 0, 0]]
      [(0, 1), (1, 2)] (makeTrans ![-1, 0, 0] : Matrix (Fin 4) (Fin 4) ℝ) = 2 := by
    simp [meanDistance, pairDistance, xform_makeTrans, lengthSquared]
    norm_num
  simpa only [List.map_cons, List.map_nil, mean, moved] using gets

end Sqwar.Alignment
