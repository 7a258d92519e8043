import Mathlib.Algebra.BigOperators.Fin
import Mathlib.Algebra.Order.BigOperators.Group.Finset
import Mathlib.Algebra.Order.Field.Basic
import Mathlib.Analysis.Real.Sqrt
import Mathlib.Order.Interval.Set.Basic
import Mathlib.Tactic.Linarith
import Mathlib.Tactic.NormNum
import Mathlib.Tactic.Ring
import Sqwar.Data.BranchAndBound
import Sqwar.KdTree.Tree

/-!
# The nearest node

`_S_node_nearest` goes down to a leaf, then up again to the root. At every node on the way up it
looks whether the other child can be closer than what it has, and if so walks through the subtree
below it with two pointers and no stack. All this is a depth-first search that leaves out what is
too far, and so it finds a node at the least distance.
-/

set_option autoImplicit false

namespace Sqwar.KdTree

open Data Semantics

variable {Val K : Type*} {k : ℕ} [NeZero k] [Field K] [LinearOrder K] (acc : Val → Fin k → K)
  (sqrt : K → K)

/-- `_S_node_distance`, with `squared_difference`. -/
def nodeDistance (dim : ℕ) (a b : Val) : K :=
  (acc a (Fin.ofNat k dim) - acc b (Fin.ofNat k dim)) *
    (acc a (Fin.ofNat k dim) - acc b (Fin.ofNat k dim))

/-- `_S_accumulate_node_distance`, and the loops that sum the distances up. -/
def accumulateNodeDistance (a b : Val) : K := ∑ i : Fin k, nodeDistance acc i a b

/-- The best node so far, the level on which it was found and its distance. -/
structure Best (K : Type*) where
  node : List Bool
  dim : ℕ
  max : K

/-- A node becomes the best one unless it is farther. The predicate is `always_true`. -/
def consider (val : Val) (address : List Bool) (dim : ℕ) (value : Val) (best : Best K) : Best K :=
  let d := sqrt (accumulateNodeDistance acc val value)
  if d ≤ best.max then ⟨address, dim, d⟩ else best

/-- "only visit node's children if node's plane intersect hypersphere". -/
def intersects (val : Val) (dim : ℕ) (value : Val) (best : Best K) : Bool :=
  sqrt (nodeDistance acc dim val value) ≤ best.max

/-- The side to which `_S_node_descend` turns. -/
def descendSide (val : Val) (dim : ℕ) (value : Val) : Bool := !nodeCompare acc dim val value

/-- The loop "find the smallest `__max` distance in direct descent". `cur` may be null, `pcur` is
its parent. -/
structure Descent (K : Type*) where
  pcur : List Bool
  cur : List Bool
  curDim : ℕ
  best : Best K

def descentBody (root : BinaryTree Val) (val : Val) : LoopBody Fault (Descent K) (Descent K) :=
  fun s =>
    match subtreeAt root s.cur with
    | .nil => .ok (.inr s)
    | .node value _ _ =>
      .ok (.inl ⟨s.cur, descendSide acc val s.curDim value :: s.cur, s.curDim + 1,
        consider acc sqrt val s.cur s.curDim value s.best⟩)

/-- The loop that probes the siblings of the visited nodes. `__end` is `none`. -/
structure Probing (K : Type*) where
  cur : Option (List Bool)
  curDim : ℕ
  probe : Option (List Bool)
  probeDim : ℕ
  pprobe : Option (List Bool)
  best : Best K

/-- `_M_parent`. -/
def parent : List Bool → Option (List Bool)
  | [] => none
  | _ :: address => some address

/-- Probes start at a node, or at its child on a side if this can be closer. -/
def startProbe (root : BinaryTree Val) (val : Val) (cur : List Bool) (curDim : ℕ) (side : Bool)
    (best : Best K) : Except Fault (Probing K) :=
  match subtreeAt root cur with
  | .nil => .error .outOfBounds
  | .node value left right =>
    if isNode (child side (.node value left right)) &&
        intersects acc sqrt val curDim value best then
      .ok ⟨some cur, curDim, some (side :: cur), curDim + 1, some cur, best⟩
    else .ok ⟨some cur, curDim, some cur, curDim, some cur, best⟩

/-- The beginning of the probes, at the node that the descent has reached. -/
def afterDescent (root : BinaryTree Val) (val : Val) (s : Descent K) : Except Fault (Probing K) :=
  match subtreeAt root s.pcur with
  | .nil => .error .outOfBounds
  | .node value _ _ =>
    startProbe acc sqrt root val s.pcur (s.curDim - 1) (!descendSide acc val (s.curDim - 1) value)
      s.best

/-- A pass of the inner loop, at a node that is not `cur`. -/
def probeNode (root : BinaryTree Val) (val : Val) (probe : List Bool) (s : Probing K) :
    Except Fault (Probing K) :=
  match subtreeAt root probe with
  | .nil => .error .outOfBounds
  | .node value left right =>
    let side := descendSide acc val s.probeDim value
    let nearNode := child side (.node value left right)
    let farNode := child (!side) (.node value left right)
    let toParent := { s with
      probe := parent probe, probeDim := s.probeDim - 1, pprobe := some probe }
    let toFar := { s with
      probe := some ((!side) :: probe), probeDim := s.probeDim + 1, pprobe := some probe }
    if s.pprobe = parent probe then
      -- going downward
      let best := consider acc sqrt val probe s.probeDim value s.best
      if isNode nearNode then
        .ok { s with
          probe := some (side :: probe), probeDim := s.probeDim + 1, pprobe := some probe, best }
      else if isNode farNode && intersects acc sqrt val s.probeDim value best then
        .ok { toFar with best }
      else .ok { toParent with best }
    -- and going upward
    else if s.pprobe = some (side :: probe) && isNode farNode &&
        intersects acc sqrt val s.probeDim value s.best then .ok toFar
    else .ok toParent

/-- A pass of the inner loop, or the end of a pass of the outer one, with which `cur` goes up. -/
def probeBody (root : BinaryTree Val) (val : Val) : LoopBody Fault (Probing K) (Best K) := fun s =>
  match s.cur with
  | none => .ok (.inr s.best)
  | some cur =>
    if s.probe = some cur then
      match cur with
      | [] => .ok (.inl ⟨none, s.curDim - 1, none, s.curDim - 1, none, s.best⟩)
      | turn :: up => Sum.inl <$> startProbe acc sqrt root val up (s.curDim - 1) (!turn) s.best
    else
      match s.probe with
      | none => .error .outOfBounds
      | some probe => Sum.inl <$> probeNode acc sqrt root val probe s

/-- `_S_node_nearest`, from a root that is the best node so far. -/
def NodeNearest (root : BinaryTree Val) (val : Val) (start best : Best K) : Prop :=
  ∃ value left right descent probing, root = .node value left right ∧
    Finishes (descentBody acc sqrt root val)
      ⟨[], [descendSide acc val 0 value], 1, start⟩ descent ∧
    afterDescent acc sqrt root val descent = .ok probing ∧
    Finishes (probeBody acc sqrt root val) probing best

/-- `find_nearest`, the node that is found and its distance; the node is `none` for `end()`. -/
def KDTree.FindsNearest (tree : KDTree Val) (val : Val) (found : Option (List Bool) × K) : Prop :=
  match tree.root with
  | .nil => found = (none, 0)
  | .node value _ _ =>
    ∃ best, NodeNearest acc sqrt tree.root val
        ⟨[], 0, sqrt (accumulateNodeDistance acc value val)⟩ best ∧
      found = (some best.node, best.max)

/-! ### The two walks are one search -/

/-- The depth-first search for the nearest node, below an address. -/
def nearestSearch (val : Val) : BinaryTree Val → List Bool → Best K → Best K :=
  search (fun address value => descendSide acc val address.length value)
    (fun address value => consider acc sqrt val address address.length value)
    fun address value => intersects acc sqrt val address.length value

/-- What is on a side of a node, if it can be closer. -/
def searchSide (val : Val) (t : BinaryTree Val) (address : List Bool) (value : Val) (side : Bool)
    (best : Best K) : Best K :=
  if intersects acc sqrt val address.length value best then
    nearestSearch acc sqrt val (child side t) (side :: address) best
  else best

variable {acc sqrt} {root t left right : BinaryTree Val} {val value : Val} {best : Best K}
  {address up cur : List Bool} {turn side : Bool} {dim : ℕ}

theorem nearestSearch_node : nearestSearch acc sqrt val (.node value left right) address best =
    searchSide acc sqrt val (.node value left right) address value
      (!descendSide acc val address.length value)
      (nearestSearch acc sqrt val
        (child (descendSide acc val address.length value) (.node value left right))
        (descendSide acc val address.length value :: address)
        (consider acc sqrt val address address.length value best)) :=
  search_node

theorem searchSide_of_not (far : ¬ (isNode (child side t) && intersects acc sqrt val address.length
    value best) = true) : searchSide acc sqrt val t address value side best = best := by
  rw [searchSide]
  split_ifs with crosses
  · obtain isNil : child side t = .nil := by
      by_contra isNode
      exact far (by simp [isNode, crosses])
    rw [isNil]
    rfl
  · rfl

theorem probeBody_inner {probe pprobe : List Bool} {probeDim : ℕ} (apart : probe ≠ cur) :
    probeBody acc sqrt root val ⟨some cur, dim, some probe, probeDim, some pprobe, best⟩ =
      Sum.inl <$> probeNode acc sqrt root val probe
        ⟨some cur, dim, some probe, probeDim, some pprobe, best⟩ :=
  if_neg fun same => apart (Option.some.inj same)

theorem cons_ne_of_length (longer : cur.length ≤ up.length) : turn :: up ≠ cur := by
  rintro rfl
  rw [List.length_cons] at longer
  omega

/-- A pass down to a node. -/
theorem probeBody_down (dim : ℕ) (here : subtreeAt root (turn :: up) = .node value left right)
    (above : cur.length ≤ up.length) (isSide : descendSide acc val (up.length + 1) value = side)
    {visited : Best K}
    (visits : consider acc sqrt val (turn :: up) (up.length + 1) value best = visited) :
    probeBody acc sqrt root val
        ⟨some cur, dim, some (turn :: up), up.length + 1, some up, best⟩ =
      .ok (.inl (if isNode (child side (.node value left right)) then
          ⟨some cur, dim, some (side :: turn :: up), up.length + 2, some (turn :: up), visited⟩
        else if isNode (child (!side) (.node value left right)) &&
            intersects acc sqrt val (up.length + 1) value visited then
          ⟨some cur, dim, some ((!side) :: turn :: up), up.length + 2, some (turn :: up), visited⟩
        else ⟨some cur, dim, some up, up.length, some (turn :: up), visited⟩)) := by
  rw [probeBody_inner (cons_ne_of_length above), probeNode, here]
  simp only [parent, isSide, visits, if_true]
  split_ifs <;> rfl

variable (sqrt) in
/-- A pass up to a node. -/
theorem probeBody_up (dim : ℕ) (here : subtreeAt root (turn :: up) = .node value left right)
    (above : cur.length ≤ up.length) (isSide : descendSide acc val (up.length + 1) value = side)
    (origin : Bool) (best : Best K) :
    probeBody acc sqrt root val
        ⟨some cur, dim, some (turn :: up), up.length + 1, some (origin :: turn :: up), best⟩ =
      .ok (.inl (if origin = side ∧ (isNode (child (!side) (.node value left right)) &&
            intersects acc sqrt val (up.length + 1) value best) then
          ⟨some cur, dim, some ((!side) :: turn :: up), up.length + 2, some (turn :: up), best⟩
        else ⟨some cur, dim, some up, up.length, some (turn :: up), best⟩)) := by
  have notDown : ¬ some (origin :: turn :: up) = some up := by
    intro same
    have lengths := congrArg List.length (Option.some.inj same)
    simp only [List.length_cons] at lengths
    omega
  rw [probeBody_inner (cons_ne_of_length above), probeNode, here]
  simp only [parent, isSide, if_neg notDown]
  simp only [Option.some.injEq, List.cons.injEq, and_true, Bool.and_assoc, Bool.and_eq_true,
    decide_eq_true_eq]
  split_ifs <;> rfl

/-- **The inner loop.** From a node that the probe has come down to it searches the subtree and
leaves upwards. -/
theorem passes_probe (here : subtreeAt root (turn :: up) = t) (isNode : t ≠ .nil)
    (above : cur.length ≤ up.length) (best : Best K) :
    Passes (probeBody acc sqrt root val)
      ⟨some cur, dim, some (turn :: up), up.length + 1, some up, best⟩
      ⟨some cur, dim, some up, up.length, some (turn :: up),
        nearestSearch acc sqrt val t (turn :: up) best⟩ := by
  induction t generalizing turn up best with
  | nil => exact absurd rfl isNode
  | node value left right ihLeft ihRight =>
    set t := BinaryTree.node value left right with isT
    obtain ⟨side, isSide⟩ : ∃ side, descendSide acc val (up.length + 1) value = side := ⟨_, rfl⟩
    obtain ⟨visited, visits⟩ : ∃ visited,
        consider acc sqrt val (turn :: up) (up.length + 1) value best = visited := ⟨_, rfl⟩
    -- both children alike
    have children : ∀ side best, child side t ≠ .nil → Passes (probeBody acc sqrt root val)
        ⟨some cur, dim, some (side :: turn :: up), up.length + 2, some (turn :: up), best⟩
        ⟨some cur, dim, some (turn :: up), up.length + 1, some (side :: turn :: up),
          nearestSearch acc sqrt val (child side t) (side :: turn :: up) best⟩ := by
      intro side best isNode
      have below : subtreeAt root (side :: turn :: up) = child side t := congrArg (child side) here
      cases side with
      | false => exact ihLeft below isNode (by simp; omega) best
      | true => exact ihRight below isNode (by simp; omega) best
    have searched : nearestSearch acc sqrt val t (turn :: up) best =
        searchSide acc sqrt val t (turn :: up) value (!side)
          (nearestSearch acc sqrt val (child side t) (side :: turn :: up) visited) := by
      rw [isT, nearestSearch_node, List.length_cons, isSide, visits]
    -- the far child, where it can be closer
    have far : ∀ best, (Data.isNode (child (!side) t) &&
          intersects acc sqrt val (up.length + 1) value best) = true →
        Passes (probeBody acc sqrt root val)
          ⟨some cur, dim, some ((!side) :: turn :: up), up.length + 2, some (turn :: up), best⟩
          ⟨some cur, dim, some up, up.length, some (turn :: up),
            searchSide acc sqrt val t (turn :: up) value (!side) best⟩ := by
      intro best crosses
      obtain ⟨isNode, crosses⟩ := Bool.and_eq_true_iff.mp crosses
      refine (children (!side) best (isNode_iff.mp isNode)).trans (.single ?_)
      rw [probeBody_up sqrt dim here above isSide (!side), if_neg (by simp), searchSide,
        List.length_cons, if_pos crosses]
    rw [searched]
    have down := probeBody_down dim here above isSide visits
    -- what is left once the near child is done
    have rest : ∀ best, Passes (probeBody acc sqrt root val)
        (if Data.isNode (child (!side) t) && intersects acc sqrt val (up.length + 1) value best then
          ⟨some cur, dim, some ((!side) :: turn :: up), up.length + 2, some (turn :: up), best⟩
        else ⟨some cur, dim, some up, up.length, some (turn :: up), best⟩)
        ⟨some cur, dim, some up, up.length, some (turn :: up),
          searchSide acc sqrt val t (turn :: up) value (!side) best⟩ := by
      intro best
      split_ifs with crosses
      · exact far best crosses
      · rw [searchSide_of_not crosses]
        exact .refl
    by_cases isNear : Data.isNode (child side t) = true
    · rw [if_pos isNear] at down
      have back := probeBody_up sqrt dim here above isSide side
        (nearestSearch acc sqrt val (child side t) (side :: turn :: up) visited)
      simp only [true_and] at back
      exact (Passes.single down).trans
        ((children side visited (isNode_iff.mp isNear)).trans (.step back (rest _)))
    · rw [if_neg isNear] at down
      have isNil : child side t = .nil := by simpa using isNear
      rw [isNil]
      exact .step down (rest visited)

/-- Where probes start, and what they do before `cur` goes up. -/
theorem passes_startProbe (acc : Val → Fin k → K) (sqrt : K → K) (val : Val)
    (here : subtreeAt root address = .node value left right) (side : Bool)
    (best : Best K) :
    ∃ s pprobe, startProbe acc sqrt root val address address.length side best = .ok s ∧
      Passes (probeBody acc sqrt root val) s
        ⟨some address, address.length, some address, address.length, pprobe,
          searchSide acc sqrt val (.node value left right) address value side best⟩ := by
  rw [startProbe, here]
  dsimp only
  split_ifs with crosses
  · obtain ⟨isNode, crosses⟩ := Bool.and_eq_true_iff.mp crosses
    refine ⟨_, some (side :: address), rfl, ?_⟩
    rw [searchSide, if_pos crosses]
    exact passes_probe (congrArg (child side) here) (isNode_iff.mp isNode) le_rfl best
  · refine ⟨_, some address, rfl, ?_⟩
    rw [searchSide_of_not crosses]
    exact .refl

theorem afterDescent_eq (here : subtreeAt root address = .node value left right)
    (isSide : descendSide acc val address.length value = side) :
    afterDescent acc sqrt root val ⟨address, cur, address.length + 1, best⟩ =
      startProbe acc sqrt root val address address.length (!side) best := by
  simp only [afterDescent, here, Nat.add_sub_cancel, isSide]

/-- **The outer loop.** After the descent below a node the probes come back to it, and have then
searched both of its sides. -/
theorem passes_descent (sqrt : K → K) (here : subtreeAt root address = t)
    (isT : t = .node value left right) (isSide : descendSide acc val address.length value = side)
    (best : Best K) :
    ∃ descent probing pprobe,
      Finishes (descentBody acc sqrt root val)
        ⟨address, side :: address, address.length + 1, best⟩ descent ∧
      afterDescent acc sqrt root val descent = .ok probing ∧
      Passes (probeBody acc sqrt root val) probing
        ⟨some address, address.length, some address, address.length, pprobe,
          searchSide acc sqrt val t address value (!side)
            (nearestSearch acc sqrt val (child side t) (side :: address) best)⟩ := by
  induction t generalizing value left right address side best with
  | nil => cases isT
  | node value' left' right' ihLeft ihRight =>
    cases isT
    set t := BinaryTree.node value' left' right'
    have below : subtreeAt root (side :: address) = child side t := congrArg (child side) here
    rcases eq_nil_or_node (child side t) with isChild | ⟨next, nextLeft, nextRight, isChild⟩
    · obtain ⟨probing, pprobe, starts, passes⟩ :=
        passes_startProbe acc sqrt val here (!side) best
      refine ⟨⟨address, side :: address, address.length + 1, best⟩, probing, pprobe, .exit ?_,
        (afterDescent_eq here isSide).trans starts, ?_⟩
      · rw [descentBody, below, isChild]
      · rw [isChild]
        exact passes
    · -- the next node on the way down
      obtain ⟨side', isSide'⟩ :
          ∃ side', descendSide acc val (side :: address).length next = side' := ⟨_, rfl⟩
      set visited := consider acc sqrt val (side :: address) (side :: address).length next best
      have further : ∃ descent probing pprobe,
          Finishes (descentBody acc sqrt root val)
            ⟨side :: address, side' :: side :: address, (side :: address).length + 1, visited⟩
            descent ∧
          afterDescent acc sqrt root val descent = .ok probing ∧
          Passes (probeBody acc sqrt root val) probing
            ⟨some (side :: address), (side :: address).length, some (side :: address),
              (side :: address).length, pprobe,
              searchSide acc sqrt val (child side t) (side :: address) next (!side')
                (nearestSearch acc sqrt val (child side' (child side t)) (side' :: side :: address)
                  visited)⟩ := by
        cases side with
        | false => exact ihLeft below isChild isSide' visited
        | true => exact ihRight below isChild isSide' visited
      obtain ⟨descent, probing, pprobe, finishes, after, passes⟩ := further
      have goesDown : descentBody acc sqrt root val
          ⟨address, side :: address, address.length + 1, best⟩ =
            .ok (.inl ⟨side :: address, side' :: side :: address, (side :: address).length + 1,
              visited⟩) := by
        rw [descentBody, below, isChild]
        dsimp only
        rw [← List.length_cons, isSide']
      -- the child has been searched, and `cur` goes up
      have searched : nearestSearch acc sqrt val (child side t) (side :: address) best =
          searchSide acc sqrt val (child side t) (side :: address) next (!side')
            (nearestSearch acc sqrt val (child side' (child side t)) (side' :: side :: address)
              visited) := by
        rw [isChild, nearestSearch_node, isSide']
      rw [← searched] at passes
      obtain ⟨restart, pprobe', starts, passes'⟩ := passes_startProbe acc sqrt val here (!side)
        (nearestSearch acc sqrt val (child side t) (side :: address) best)
      refine ⟨descent, probing, pprobe', .step goesDown finishes, after,
        passes.trans (.step ?_ passes')⟩
      simp only [probeBody, if_true, List.length_cons, Nat.add_sub_cancel, starts]
      rfl

/-- What the two walks make of a best node. -/
theorem nodeNearest_iff (isRoot : root = .node value left right)
    (isSide : descendSide acc val 0 value = side) {start : Best K} :
    NodeNearest acc sqrt root val start best ↔
      best = searchSide acc sqrt val root [] value (!side)
        (nearestSearch acc sqrt val (child side root) [side] start) := by
  obtain ⟨descent, probing, pprobe, finishes, after, passes⟩ := passes_descent sqrt
    (subtreeAt_root : subtreeAt root [] = root) isRoot isSide start
  have ends : Finishes (probeBody acc sqrt root val) probing (searchSide acc sqrt val root [] value
      (!side) (nearestSearch acc sqrt val (child side root) [side] start)) :=
    passes.finishes (.step rfl (.exit rfl))
  constructor
  · rintro ⟨value', left', right', descent', probing', isRoot', finishes', after', ends'⟩
    obtain ⟨rfl, rfl, rfl⟩ := BinaryTree.node.inj (isRoot.symm.trans isRoot')
    rw [isSide] at finishes'
    obtain rfl := finishes.unique finishes'
    obtain rfl := Except.ok.inj (after.symm.trans after')
    exact ends'.unique ends
  · rintro rfl
    exact ⟨value, left, right, descent, probing, isRoot, isSide ▸ finishes, after, ends⟩

omit [LinearOrder K] in
theorem accumulateNodeDistance_comm (acc : Val → Fin k → K) (a b : Val) :
    accumulateNodeDistance acc a b = accumulateNodeDistance acc b a := by
  refine Finset.sum_congr rfl fun i _ => ?_
  rw [nodeDistance, nodeDistance]
  ring

/-- The walks are the search from the root, which is the best node at first. -/
theorem findsNearest_iff {tree : KDTree Val} (isRoot : tree.root = .node value left right)
    {found : Option (List Bool) × K} :
    tree.FindsNearest acc sqrt val found ↔
      ∃ best, best = nearestSearch acc sqrt val tree.root []
          ⟨[], 0, sqrt (accumulateNodeDistance acc val value)⟩ ∧
        found = (some best.node, best.max) := by
  have rootFirst : consider acc sqrt val [] 0 value
      ⟨[], 0, sqrt (accumulateNodeDistance acc val value)⟩ =
        ⟨[], 0, sqrt (accumulateNodeDistance acc val value)⟩ := if_pos le_rfl
  obtain ⟨side, isSide⟩ : ∃ side, descendSide acc val 0 value = side := ⟨_, rfl⟩
  have searched : nearestSearch acc sqrt val tree.root []
      ⟨[], 0, sqrt (accumulateNodeDistance acc val value)⟩ =
        searchSide acc sqrt val tree.root [] value (!side)
          (nearestSearch acc sqrt val (child side tree.root) [side]
            ⟨[], 0, sqrt (accumulateNodeDistance acc val value)⟩) := by
    rw [isRoot, nearestSearch_node, List.length_nil, isSide, rootFirst]
  rw [KDTree.FindsNearest, searched]
  simp only [isRoot, nodeNearest_iff rfl isSide, accumulateNodeDistance_comm acc value val]

/-! ### The least distance -/

section

variable [IsStrictOrderedRing K]

theorem nodeDistance_le_accumulate (acc : Val → Fin k → K) (dim : ℕ) (a b : Val) :
    nodeDistance acc dim a b ≤ accumulateNodeDistance acc a b := by
  have squares : ∀ i ∈ Finset.univ, 0 ≤ nodeDistance acc (i : Fin k) a b := fun i _ =>
    mul_self_nonneg _
  have coordinate : nodeDistance acc (Fin.ofNat k dim) a b = nodeDistance acc dim a b := by
    rw [nodeDistance, nodeDistance, Fin.ofNat_val_eq_self]
  rw [← coordinate]
  exact Finset.single_le_sum squares (Finset.mem_univ (Fin.ofNat k dim))

/-- A value on the far side of a node is no closer than its plane. -/
theorem nodeDistance_le_of_placed {level : ℕ} {w : Val}
    (placed : Placed acc level value (!descendSide acc val level value) w) :
    nodeDistance acc level val value ≤ nodeDistance acc level val w := by
  rw [Placed, descendSide, Bool.not_not] at placed
  unfold nodeCompare at placed
  rw [nodeDistance, nodeDistance]
  generalize acc val (Fin.ofNat k level) = x at *
  generalize acc value (Fin.ofNat k level) = plane at *
  generalize acc w (Fin.ofNat k level) = z at *
  by_cases left : x < plane
  · have beyond : plane ≤ z := by simpa [left] using placed
    nlinarith
  · have beyond : z < plane := by simpa [left] using placed
    nlinarith

/-- **Exactness.** The search brings the distance down to that of the nearest node. -/
theorem nearestSearch_le (monotone : MonotoneOn sqrt (Set.Ici 0))
    (ordered : Ordered (Placed acc) address.length t) {w : Val} (member : w ∈ inorder t) :
    (nearestSearch acc sqrt val t address best).max ≤ sqrt (accumulateNodeDistance acc val w) := by
  refine (search_exact Best.max (fun w => sqrt (accumulateNodeDistance acc val w)) ?_ ?_
    ordered).2 w member
  · intro address value best
    rw [consider]
    split_ifs with closer
    · exact ⟨closer, le_rfl⟩
    · exact ⟨le_rfl, (not_le.mp closer).le⟩
  · intro address value best w placed misses
    have farther : best.max < sqrt (nodeDistance acc address.length val value) := by
      simpa [intersects] using misses
    refine farther.le.trans (monotone (mul_self_nonneg _) ?_ ?_)
    · exact Finset.sum_nonneg fun i _ => mul_self_nonneg _
    · exact (nodeDistance_le_of_placed placed).trans (nodeDistance_le_accumulate acc _ _ _)

end

/-- The best node is one of the tree, at its own distance. -/
def IsBest (acc : Val → Fin k → K) (sqrt : K → K) (root : BinaryTree Val) (val : Val)
    (best : Best K) : Prop :=
  ∃ value, valueAt root best.node = some value ∧
    best.max = sqrt (accumulateNodeDistance acc val value)

theorem isBest_nearestSearch (start : IsBest acc sqrt root val best) :
    IsBest acc sqrt root val (nearestSearch acc sqrt val root [] best) := by
  refine search_invariant (IsBest acc sqrt root val) ?_ subtreeAt_root start
  intro address value left right best here isBest
  rw [consider]
  split_ifs
  · exact ⟨value, by rw [valueAt, here], rfl⟩
  · exact isBest

variable [IsStrictOrderedRing K] {tree : KDTree Val} {nth : NthElement Val}
  {operations : List (Operation Val)}

/-- `find_nearest` on a tree that is not empty. -/
theorem Sound.exists_nearest (sound : Sound acc tree) (monotone : MonotoneOn sqrt (Set.Ici 0))
    (nonempty : tree.root ≠ .nil) (val : Val) :
    ∃ address value, valueAt tree.root address = some value ∧
      (∀ w ∈ inorder tree.root,
        sqrt (accumulateNodeDistance acc val value) ≤ sqrt (accumulateNodeDistance acc val w)) ∧
      ∀ found, tree.FindsNearest acc sqrt val found ↔
        found = (some address, sqrt (accumulateNodeDistance acc val value)) := by
  obtain isNil | ⟨top, left, right, isRoot⟩ := eq_nil_or_node tree.root
  · exact absurd isNil nonempty
  · have start : IsBest acc sqrt tree.root val
        ⟨[], 0, sqrt (accumulateNodeDistance acc val top)⟩ :=
      ⟨top, by rw [valueAt, isRoot, subtreeAt_root], rfl⟩
    obtain ⟨value, here, distance⟩ := isBest_nearestSearch start
    refine ⟨_, value, here, fun w member => ?_, fun found => ?_⟩
    · rw [← distance]
      exact nearestSearch_le monotone sound.ordered member
    · rw [findsNearest_iff isRoot, ← distance]
      simp only [exists_eq_left]

/-- **Every run.** Whatever has been done to a tree, `find_nearest` comes to an end, with one
result: a value that has been inserted and is no farther than any other one, as far as `sqrt` tells
them apart. -/
theorem findsNearest_of_run (acc : Val → Fin k → K) {sqrt : K → K}
    (monotone : MonotoneOn sqrt (Set.Ici 0))
    (performs : PerformsAll acc nth .empty operations tree) (val : Val) :
    (inserted operations = [] → ∀ found, tree.FindsNearest acc sqrt val found ↔ found = (none, 0)) ∧
      (inserted operations ≠ [] → ∃ address value, valueAt tree.root address = some value ∧
        value ∈ inserted operations ∧
        (∀ w ∈ inserted operations,
          sqrt (accumulateNodeDistance acc val value) ≤ sqrt (accumulateNodeDistance acc val w)) ∧
        ∀ found, tree.FindsNearest acc sqrt val found ↔
          found = (some address, sqrt (accumulateNodeDistance acc val value))) := by
  obtain ⟨sound, same⟩ := sound_empty.of_operations performs (.refl _)
  constructor
  · intro none found
    have isNil : tree.root = .nil := inorder_eq_nil_iff.mp (List.Perm.eq_nil (none ▸ same))
    rw [KDTree.FindsNearest, isNil]
  · intro some
    have nonempty : tree.root ≠ .nil := fun isNil => some (by
      have empty := same
      rw [isNil] at empty
      exact empty.symm.eq_nil)
    obtain ⟨address, value, here, least, only⟩ := sound.exists_nearest monotone nonempty val
    exact ⟨address, value, here, same.mem_iff.mp (mem_inorder_of_valueAt here),
      fun w member => least w (same.mem_iff.mpr member), only⟩

/-- Of two points on a line the nearer one. -/
theorem findsNearest_of_two_points : ∃ (tree : KDTree ℝ) (address : List Bool),
    PerformsAll (fun (v : ℝ) (_ : Fin 1) => v) sortRange .empty [.insert 3, .insert 1] tree ∧
      valueAt tree.root address = some 1 ∧
      tree.FindsNearest (fun (v : ℝ) (_ : Fin 1) => v) Real.sqrt 0 (some address, 1) := by
  have monotone : MonotoneOn Real.sqrt (Set.Ici 0) := fun _ _ _ _ le => Real.sqrt_le_sqrt le
  obtain ⟨tree, performs⟩ : ∃ tree, PerformsAll (fun (v : ℝ) (_ : Fin 1) => v) sortRange .empty
      [.insert 3, .insert 1] tree := exists_performsAll sound_empty _
  obtain ⟨address, value, here, member, least, only⟩ :=
    (findsNearest_of_run _ monotone performs 0).2 (by simp [inserted, remaining])
  have distance : ∀ w : ℝ,
      accumulateNodeDistance (fun (v : ℝ) (_ : Fin 1) => v) 0 w = w * w := fun w => by
    simp [accumulateNodeDistance, nodeDistance]
  simp only [distance, Real.sqrt_mul_self_eq_abs] at least only
  have nearer := least 1 (by simp [inserted, remaining])
  obtain rfl : value = 1 := by
    rcases List.mem_pair.mp member with rfl | rfl
    · norm_num at nearer
    · rfl
  exact ⟨tree, address, performs, here, (only _).mpr (by norm_num)⟩

end Sqwar.KdTree
