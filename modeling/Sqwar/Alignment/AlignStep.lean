import Sqwar.Alignment.Motion
import Sqwar.Alignment.Scorer
import Sqwar.Alignment.StepSize

/-!
# A step of the alignment

`AlignStep` moves a sample of the second cloud, matches it with the first cloud, fits a motion to
the matches and keeps it if the score does not get worse. Whatever is fitted, the step size goes the
way of the clouds' sizes and the outcomes.
-/

set_option autoImplicit false

namespace Sqwar.Alignment

open Data Semantics

variable {K : Type} [Field K] [LinearOrder K]

/-- A pass of the loop of `BestFit`: the translation and the angles go against their
derivatives. -/
def bestFitPass (trig : Trig K) (ptsStart ptsEnd : List (Fin 3 → K)) (dvals : Fin 4 → K)
    (fit : (Fin 3 → K) × (Fin 3 → K)) : (Fin 3 → K) × (Fin 3 → K) :=
  let (uScore, tScore) := getDerivatives trig ptsStart ptsEnd fit.2 fit.1
  (fun i => fit.1 i + tScore i * dvals 0, fun i => fit.2 i + uScore i * dvals i.succ)

/-- `BestFit`: the translation and the angles. The score that it returns is not used. -/
def bestFit (trig : Trig K) (ptsStart ptsEnd : List (Fin 3 → K)) (dvals : Fin 4 → K) :
    (Fin 3 → K) × (Fin 3 → K) :=
  (bestFitPass trig ptsStart ptsEnd dvals)^[100] (0, 0)

/-- The factors that `AlignStep` fits with. -/
def dvals : Fin 4 → K :=
  ![-(396472 / 1000000), -(382595 / 1000000), -(329096 / 1000000), -(10193 / 1000000)]

/-- `PTCloudAlign`. The k-d tree is the list of the nodes that it stores. -/
structure PTCloudAlign (K : Type) where
  prevTransform : Matrix (Fin 4) (Fin 4) K
  curTransform : Matrix (Fin 4) (Fin 4) K
  curstepsize : ℤ
  pts0 : List (Fin 3 → K)
  pts1 : List (Fin 3 → K)
  previousScore : K
  kdtree : List (ANode K)
  allNodes : List (ANode K)
  mMatches : List (Match K)

/-- The match has no point yet. -/
def Match.reset (m : Match K) : Match K := { m with matchedIdx := -1, distsq := 0 }

/-- The match with the distance of its points. -/
def Match.remeasured (pts0 pts1t : List (Fin 3 → K)) (m : Match K) : Option (Match K) := do
  let pt0 ← pts0[m.idx]?
  let tpt ← pts1t[m.matchedIdx.toNat]?
  return { m with distsq := lengthSquared (pt0 - tpt) }

/-- The matches without those that are nearer than the average, which is zero as the distances are
never added to it. -/
def trimmed (kept : List (Match K)) : List (Match K) :=
  let avgdistsq : K := 0 / kept.length * 4
  kept.filter fun m => ¬ m.distsq < avgdistsq

/-- The score of a motion of the points of the matches. -/
def resultScore (transform : Matrix (Fin 4) (Fin 4) K) (vecs0 vecs1 : List (Fin 3 → K)) : K :=
  (vecs0.zip vecs1).foldl (fun resultscore pair =>
      resultscore + lengthSquared (pair.1 - xform transform pair.2)) 0 /
    (vecs0.length * vecs0.length : ℕ)

namespace PTCloudAlign

/-- The constructor. -/
def new (maxScore : K) (pts0 pts1 : List (Fin 3 → K)) : PTCloudAlign K :=
  ⟨1, 1, -1, pts0, pts1, maxScore, [], [], []⟩

/-- What the first call does before it samples. -/
def prepared (align : PTCloudAlign K) : PTCloudAlign K :=
  let curstepsize := started align.pts0.length align.curstepsize
  if align.curstepsize < 0 then
    { align with
      curstepsize
      mMatches := Match.numbered align.pts0.length
      allNodes := align.allNodes ++ nodes align.pts0
      kdtree := align.kdtree ++ nodes align.pts0 }
  else { align with curstepsize }

/-- What a call does with the motion it fitted and its score. -/
def settled (align : PTCloudAlign K) (transform : Matrix (Fin 4) (Fin 4) K) (resultscore : K) :
    Option (PTCloudAlign K × ℤ) :=
  if resultscore > align.previousScore then do
    let (curstepsize, retstg) ← rejection align.pts0.length align.curstepsize
    return ({ align with curstepsize, prevTransform := align.curTransform }, retstg)
  else
    some ({ align with
      curTransform := align.curTransform * transform, previousScore := resultscore }, 0)

/-- `AlignStep`, which also returns `m_curTransform`. An index outside a vector, a division by zero
and a loop that does not end are `none`. -/
def alignStep (trig : Trig K) (find_nearest : List (ANode K) → (Fin 3 → K) → ANode K)
    (align : PTCloudAlign K) : Option (PTCloudAlign K × ℤ) := do
  let align := align.prepared
  let visited ← sampled align.pts1.length align.curstepsize
  let pts1t ← visited.mapM fun idx => align.pts1[idx]?.map (xform align.curTransform)
  let table ← matchPoints (find_nearest align.kdtree) align.pts0 (align.mMatches.map Match.reset) 0
    pts1t
  let kept ← (made table).mapM (Match.remeasured align.pts0 pts1t)
  let vecs0 ← (trimmed kept).mapM fun m => align.pts0[m.idx]?
  let vecs1 ← (trimmed kept).mapM fun m => pts1t[m.matchedIdx.toNat]?
  let (translate2, rotate2) := bestFit trig vecs0 vecs1 dvals
  let transform := alignTransform trig translate2 rotate2
  settled { align with mMatches := table } transform (resultScore transform vecs0 vecs1)

/-- A call after which the caller calls again. -/
def next (trig : Trig K) (find_nearest : List (ANode K) → (Fin 3 → K) → ANode K)
    (align : PTCloudAlign K) : Option (PTCloudAlign K) := do
  let (align, retstg) ← align.alignStep trig find_nearest
  if retstg < 2 then some align else none

/-! ### The step size -/

variable {trig : Trig K} {find_nearest : List (ANode K) → (Fin 3 → K) → ANode K}
  {align align' : PTCloudAlign K} {clouds : Clouds} {retstg : ℤ}

/-- The clouds have these sizes. -/
structure Fits (clouds : Clouds) (align : PTCloudAlign K) : Prop where
  size0_eq : align.pts0.length = clouds.size0
  size1_eq : align.pts1.length = clouds.size1

omit [LinearOrder K] in
@[simp] theorem prepared_curstepsize :
    align.prepared.curstepsize = started align.pts0.length align.curstepsize := by
  unfold prepared
  split <;> rfl

omit [LinearOrder K] in
@[simp] theorem prepared_pts0 : align.prepared.pts0 = align.pts0 := by
  unfold prepared
  split <;> rfl

omit [LinearOrder K] in
@[simp] theorem prepared_pts1 : align.prepared.pts1 = align.pts1 := by
  unfold prepared
  split <;> rfl

/-- What the last part of a call leaves as it is. -/
structure Keeps (align align' : PTCloudAlign K) : Prop where
  pts0_eq : align'.pts0 = align.pts0
  pts1_eq : align'.pts1 = align.pts1
  kdtree_eq : align'.kdtree = align.kdtree
  mMatches_eq : align'.mMatches = align.mMatches

/-- The last part of a call decides about the step size and the result. -/
theorem settled_eq_some {transform : Matrix (Fin 4) (Fin 4) K} {resultscore : K}
    (settles : align.settled transform resultscore = some (align', retstg)) :
    (∃ rejected : Bool, (if rejected then rejection align.pts0.length align.curstepsize
        else some (align.curstepsize, 0)) = some (align'.curstepsize, retstg)) ∧
      Keeps align align' := by
  unfold settled at settles
  split at settles
  · obtain ⟨s, rejects, rfl⟩ : ∃ s, rejection align.pts0.length align.curstepsize =
        some (s, retstg) ∧ { align with
          curstepsize := s, prevTransform := align.curTransform } = align' := by
      simpa [Option.bind_eq_some_iff] using settles
    exact ⟨⟨true, rejects⟩, ⟨rfl, rfl, rfl, rfl⟩⟩
  · obtain ⟨rfl, rfl⟩ := Prod.mk.inj (Option.some.inj settles)
    exact ⟨⟨false, rfl⟩, ⟨rfl, rfl, rfl, rfl⟩⟩

/-- **Simulation.** What is fitted does not matter: the step size goes as the sizes of the clouds
and the outcome make it. -/
theorem alignStep_sizes (fits : Fits clouds align)
    (step : align.alignStep trig find_nearest = some (align', retstg)) :
    Fits clouds align' ∧ ∃ rejected,
      clouds.alignStep align.curstepsize rejected = some (align'.curstepsize, retstg) := by
  unfold alignStep at step
  simp only [Option.bind_eq_bind, Option.bind_eq_some_iff, prepared_curstepsize, prepared_pts0,
    prepared_pts1] at step
  obtain ⟨visited, ends, pts1t, -, table, -, kept, -, vecs0, -, vecs1, -, settles⟩ := step
  obtain ⟨⟨rejected, result⟩, keeps⟩ := settled_eq_some settles
  simp only [fits.size0_eq] at result
  rw [fits.size0_eq, fits.size1_eq] at ends
  refine ⟨⟨keeps.pts0_eq ▸ fits.size0_eq, keeps.pts1_eq ▸ fits.size1_eq⟩, rejected, ?_⟩
  simpa only [Clouds.alignStep, ends, Option.bind_eq_bind, Option.bind_some] using result

theorem next_sizes (fits : Fits clouds align) (call : align.next trig find_nearest = some align') :
    Fits clouds align' ∧ ∃ rejected,
      clouds.next align.curstepsize rejected = some align'.curstepsize := by
  obtain ⟨⟨called, retstg⟩, step, again⟩ := Option.bind_eq_some_iff.mp call
  obtain ⟨less, rfl⟩ : retstg < 2 ∧ called = align' := by simpa using again
  obtain ⟨fits', rejected, step'⟩ := alignStep_sizes fits step
  exact ⟨fits', rejected, by rw [Clouds.next_of_alignStep step', if_pos less]⟩

/-- What holds before every call: the step size is that of some outcomes. -/
structure Running (clouds : Clouds) (align : PTCloudAlign K) : Prop where
  fits : Fits clouds align
  reached : ∃ outcomes, run clouds.next (-1) outcomes = some align.curstepsize

/-- **Step lemma.** -/
theorem Running.next (running : Running clouds align)
    (call : align.next trig find_nearest = some align') : Running clouds align' := by
  obtain ⟨fits, outcomes, reached⟩ := running
  obtain ⟨fits', rejected, call'⟩ := next_sizes fits call
  exact ⟨fits', outcomes ++ [rejected], run_concat_eq_some.mpr ⟨_, reached, call'⟩⟩

/-- **Run lemma.** -/
theorem running_of_run {maxScore : K} {pts0 pts1 : List (Fin 3 → K)} {calls : List Unit}
    (fits : Fits clouds (new maxScore pts0 pts1))
    (runs : run (fun align _ => align.next trig find_nearest) (new maxScore pts0 pts1) calls =
      some align) : Running clouds align :=
  run_invariant (Running clouds) (fun _ _ _ running _ call => running.next call) ⟨fits, [], rfl⟩
    along_true runs

omit [LinearOrder K] in
/-- **Clouds of more than a hundred points** keep a positive step size in all calls up to the one
that returns 2. -/
theorem Running.positive (running : Running clouds align) (many : 100 < clouds.size0)
    (small : clouds.size0 < 10 * 2 ^ 31) :
    IsInt32 align.curstepsize ∧ 1 ≤ align.prepared.curstepsize := by
  obtain ⟨k, settles⟩ := (Clouds.exists_settles_iff small).mpr many
  obtain ⟨fits, outcomes, reached⟩ := running
  have after := Clouds.after_of_run settles reached
  rw [prepared_curstepsize, fits.size0_eq]
  exact ⟨after.fits, (after.positive settles).2⟩

/-! ### The indices -/

/-- The tree and the matches belong to the first cloud, from the first call on. -/
structure WellFormed (align : PTCloudAlign K) : Prop where
  nonempty : align.pts0 ≠ []
  stored : ∀ node ∈ align.kdtree, node.idx < align.pts0.length
  begun : align.curstepsize < 0 ∨
    align.kdtree ≠ [] ∧ Numbered align.pts0.length align.mMatches

omit [Field K] [LinearOrder K] in
theorem nodes_ne_nil {pts0 : List (Fin 3 → K)} (nonempty : pts0 ≠ []) : nodes pts0 ≠ [] := by
  simpa [nodes] using nonempty

omit [LinearOrder K] in
theorem WellFormed.prepared (wellFormed : align.WellFormed) :
    align.prepared.kdtree ≠ [] ∧
      (∀ node ∈ align.prepared.kdtree, node.idx < align.prepared.pts0.length) ∧
      Numbered align.prepared.pts0.length align.prepared.mMatches := by
  obtain ⟨nonempty, stored, begun⟩ := wellFormed
  unfold PTCloudAlign.prepared
  split
  · refine ⟨List.append_ne_nil_of_right_ne_nil _ (nodes_ne_nil nonempty), fun node member => ?_,
      numbered_numbered _⟩
    exact (List.mem_append.mp member).elim (stored node) fun new => (idx_lt_of_mem_nodes new).1
  · rename_i started
    obtain ⟨nonempty, numbered⟩ := begun.resolve_left started
    exact ⟨nonempty, stored, numbered⟩

omit [LinearOrder K] in
theorem wellFormed_new {maxScore : K} {pts0 pts1 : List (Fin 3 → K)} (nonempty : pts0 ≠ []) :
    (new maxScore pts0 pts1).WellFormed :=
  ⟨nonempty, fun _ member => absurd member List.not_mem_nil, .inl (Int.negSucc_lt_zero 0)⟩

omit [LinearOrder K] in
theorem numbered_reset {count : ℕ} {table : List (Match K)} (numbered : Numbered count table) :
    Numbered count (table.map Match.reset) := by
  refine ⟨by rw [List.length_map, numbered.length_eq], fun idx m found => ?_⟩
  obtain ⟨m, entry, rfl⟩ : ∃ m', table[idx]? = some m' ∧ m'.reset = m := by simpa using found
  exact numbered.idx_eq idx m entry

/-- The indices of a match that was made are those of points. -/
theorem indices_of_mem_made {find : (Fin 3 → K) → ANode K} {pts0 pts1t : List (Fin 3 → K)}
    {table : List (Match K)} (holds : TableHolds find pts0 pts1t pts1t.length table)
    (found : ∀ tpt, (find tpt).idx < pts0.length) {m : Match K} (member : m ∈ made table) :
    m.idx < pts0.length ∧ m.matchedIdx.toNat < pts1t.length := by
  obtain ⟨j, matched, -, ⟨competes, -⟩, -⟩ := (holds.mem_made found).2 m member
  refine ⟨?_, by rw [matched, Int.toNat_natCast]; exact competes.lt⟩
  obtain ⟨tpt, -, same⟩ := competes
  exact same ▸ found tpt

omit [LinearOrder K] in
theorem exists_remeasured {pts0 pts1t : List (Fin 3 → K)} {m : Match K}
    (inside0 : m.idx < pts0.length) (inside1 : m.matchedIdx.toNat < pts1t.length) :
    ∃ m', m.remeasured pts0 pts1t = some m' ∧ m'.idx = m.idx ∧ m'.matchedIdx = m.matchedIdx := by
  refine ⟨{ m with distsq := lengthSquared (pts0[m.idx] - pts1t[m.matchedIdx.toNat]) }, ?_,
    rfl, rfl⟩
  simp only [Match.remeasured, List.getElem?_eq_getElem inside0, List.getElem?_eq_getElem inside1,
    Option.bind_eq_bind, Option.bind_some]
  rfl

theorem exists_settled (positive : 1 ≤ align.curstepsize) (transform : Matrix (Fin 4) (Fin 4) K)
    (resultscore : K) :
    ∃ align' retstg, align.settled transform resultscore = some (align', retstg) := by
  unfold settled
  split
  · rw [Clouds.rejection_eq positive]
    exact ⟨_, _, rfl⟩
  · exact ⟨_, _, rfl⟩

theorem exists_mapM {α β : Type} {f : α → Option β} {P : β → Prop} {xs : List α}
    (each : ∀ x ∈ xs, ∃ y, f x = some y ∧ P y) : ∃ ys, xs.mapM f = some ys ∧ ∀ y ∈ ys, P y := by
  induction xs with
  | nil => exact ⟨[], rfl, fun y member => absurd member List.not_mem_nil⟩
  | cons x xs ih =>
    obtain ⟨⟨y, found, holds⟩, rest⟩ := List.forall_mem_cons.mp each
    obtain ⟨ys, founds, all⟩ := ih rest
    exact ⟨y :: ys, by simp [found, founds], List.forall_mem_cons.mpr ⟨holds, all⟩⟩

/-- Elements at indices of the list. -/
theorem exists_mapM_getElem {α β : Type} {l : List β} {index : α → ℕ} {xs : List α}
    (inside : ∀ x ∈ xs, index x < l.length) : ∃ ys, xs.mapM (fun x => l[index x]?) = some ys := by
  obtain ⟨ys, found, -⟩ := @exists_mapM _ _ (fun x => l[index x]?) (fun _ => True) xs
    fun x member => ⟨_, List.getElem?_eq_getElem (inside x member), trivial⟩
  exact ⟨ys, found⟩

/-- **A call with a positive step size returns**, whatever stored nodes the tree finds. -/
theorem alignStep_returns
    (finds : ∀ stored v, stored ≠ [] → find_nearest stored v ∈ stored)
    (wellFormed : align.WellFormed) (small : align.pts1.length < 2 ^ 63)
    (fits : IsInt32 align.curstepsize) (positive : 1 ≤ align.prepared.curstepsize) :
    ∃ align' retstg, align.alignStep trig find_nearest = some (align', retstg) ∧
      align'.WellFormed := by
  obtain ⟨nonempty, stored, numbered⟩ := wellFormed.prepared
  have found : ∀ tpt, (find_nearest align.prepared.kdtree tpt).idx < align.prepared.pts0.length :=
    fun tpt => stored _ (finds _ tpt nonempty)
  obtain ⟨visited, ends⟩ : ∃ visited,
      sampled align.prepared.pts1.length align.prepared.curstepsize = some visited := by
    rw [prepared_pts1]
    refine exists_sampled small ?_ (Int.ne_of_gt positive)
    rw [prepared_curstepsize]
    exact Clouds.isInt32_started fits
  obtain ⟨pts1t, samples, -⟩ : ∃ pts1t, visited.mapM (fun idx =>
      align.prepared.pts1[idx]?.map (xform align.prepared.curTransform)) = some pts1t ∧
        ∀ tpt ∈ pts1t, True := by
    refine exists_mapM fun idx member => ?_
    rw [List.getElem?_eq_getElem (lt_of_mem_sampled ends member)]
    exact ⟨_, rfl, trivial⟩
  obtain ⟨table, loop, holds⟩ := TableHolds.matchPoints (List.nil_append pts1t).symm
    (tableHolds_zero (numbered_reset numbered) (by simp [Match.reset])) found
  rw [List.length_nil] at loop
  obtain ⟨kept, remeasures, inside⟩ : ∃ kept,
      (made table).mapM (Match.remeasured align.prepared.pts0 pts1t) = some kept ∧
        ∀ m ∈ kept, m.idx < align.prepared.pts0.length ∧ m.matchedIdx.toNat < pts1t.length := by
    refine exists_mapM fun m member => ?_
    obtain ⟨inside0, inside1⟩ := indices_of_mem_made holds found member
    obtain ⟨m', remeasures, idx_eq, matchedIdx_eq⟩ := exists_remeasured inside0 inside1
    exact ⟨m', remeasures, idx_eq ▸ inside0, matchedIdx_eq ▸ inside1⟩
  have trimmed_inside : ∀ m ∈ trimmed kept, m.idx < align.prepared.pts0.length ∧
      m.matchedIdx.toNat < pts1t.length := fun m member => inside m (List.mem_of_mem_filter member)
  obtain ⟨vecs0, points0⟩ := exists_mapM_getElem fun m member => (trimmed_inside m member).1
  obtain ⟨vecs1, points1⟩ := exists_mapM_getElem fun m member => (trimmed_inside m member).2
  have positive' : 1 ≤ { align.prepared with mMatches := table }.curstepsize := positive
  let fit := bestFit trig vecs0 vecs1 dvals
  let transform := alignTransform trig fit.1 fit.2
  obtain ⟨align', retstg, settles⟩ :=
    exists_settled positive' transform (resultScore transform vecs0 vecs1)
  obtain ⟨-, keeps⟩ := settled_eq_some settles
  refine ⟨align', retstg, ?_, ?_, ?_, .inr ⟨?_, ?_⟩⟩
  · simp only [alignStep, ends, samples, loop, remeasures, points0, points1, Option.bind_eq_bind,
      Option.bind_some]
    exact settles
  · rw [keeps.pts0_eq]
    rw [prepared_pts0]
    exact wellFormed.nonempty
  · rw [keeps.pts0_eq, keeps.kdtree_eq]
    exact stored
  · rw [keeps.kdtree_eq]
    exact nonempty
  · rw [keeps.pts0_eq, keeps.mMatches_eq]
    exact ⟨holds.length_eq, fun idx m entry => (holds.best idx m entry).idx_eq⟩

/-- **Every call returns** up to the one that returns 2, for clouds of more than a hundred
points. -/
theorem returns_of_run {maxScore : K} {pts0 pts1 : List (Fin 3 → K)} {calls : List Unit}
    (finds : ∀ stored v, stored ≠ [] → find_nearest stored v ∈ stored)
    (fits : Fits clouds (new maxScore pts0 pts1)) (many : 100 < clouds.size0)
    (small : clouds.size0 < 10 * 2 ^ 31)
    (runs : run (fun align _ => align.next trig find_nearest) (new maxScore pts0 pts1) calls =
      some align) :
    ∃ align' retstg, align.alignStep trig find_nearest = some (align', retstg) := by
  have returns : ∀ align : PTCloudAlign K, align.WellFormed → Running clouds align →
      ∃ align' retstg, align.alignStep trig find_nearest = some (align', retstg) ∧
        align'.WellFormed := by
    intro align wellFormed running
    obtain ⟨int, positive⟩ := running.positive many small
    refine alignStep_returns finds wellFormed ?_ int positive
    rw [running.fits.size1_eq]
    exact clouds.size1_lt
  have nonempty : pts0 ≠ [] := by
    rintro rfl
    exact absurd fits.size0_eq clouds.pos0.ne
  have wellFormed : align.WellFormed ∧ Running clouds align := by
    refine run_invariant (fun align => align.WellFormed ∧ Running clouds align) ?_
      ⟨wellFormed_new nonempty, fits, [], rfl⟩ along_true runs
    rintro align _ called ⟨wellFormed, running⟩ _ call
    refine ⟨?_, running.next call⟩
    obtain ⟨⟨same, retstg⟩, step, again⟩ := Option.bind_eq_some_iff.mp call
    obtain ⟨align', retstg', step', wellFormed'⟩ := returns align wellFormed running
    obtain ⟨rfl, rfl⟩ := Prod.mk.inj (Option.some.inj (step.symm.trans step'))
    obtain ⟨-, rfl⟩ : retstg < 2 ∧ same = called := by simpa using again
    exact wellFormed'
  obtain ⟨align', retstg, step, -⟩ := returns align wellFormed.1 wellFormed.2
  exact ⟨align', retstg, step⟩

end PTCloudAlign

end Sqwar.Alignment
