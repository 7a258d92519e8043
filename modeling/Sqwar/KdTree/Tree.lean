import Mathlib.Data.Fin.Basic
import Mathlib.Data.List.Perm.Basic
import Mathlib.Logic.Function.Basic
import Mathlib.Order.Defs.LinearOrder
import Sqwar.Core.StdVector
import Sqwar.Data.TreeAddress
import Sqwar.Semantics.Loop

/-!
# k-d trees

`KDTree` orders the nodes of every level by one coordinate, the levels taking turns: what is on the
left is less, what is on the right is not. Its header points to the outermost nodes, between which
the iterators run. `optimise` takes all values out and inserts them again, each time the middle one
of a range first.
-/

set_option autoImplicit false

namespace Sqwar.KdTree

open Data Semantics

variable {Val K : Type*} {k : ℕ} [NeZero k] [LinearOrder K] (acc : Val → Fin k → K)

/-- `_Node_compare_` on a level. -/
def nodeCompare (level : ℕ) (a b : Val) : Bool :=
  acc a (Fin.ofNat k level) < acc b (Fin.ofNat k level)

/-- `KDTree`. A node is known by the turns that lead to it, the last one first, and the header is
`none`. `header` are the pointers `_M_left` and `_M_right` of `_M_header`. -/
structure KDTree (Val : Type*) where
  root : BinaryTree Val
  header : Bool → Option (List Bool)
  count : ℕ

/-- `_M_empty_initialise`, and what `clear` leaves. -/
def KDTree.empty : KDTree Val := ⟨.nil, fun _ => none, 0⟩

/-! ### Insertion -/

/-- The header after a child has been put below a node: it follows its outermost nodes. -/
def follow (header : Bool → Option (List Bool)) (side : Bool) (address : List Bool) :
    Bool → Option (List Bool) :=
  if some address = header side then Function.update header side (some (side :: address))
  else header

/-- `_M_insert`, with `_M_insert_left` and `_M_insert_right`. The level is the length of the
address. -/
def insertBelow (header : Bool → Option (List Bool)) (v : Val) :
    BinaryTree Val → List Bool → BinaryTree Val × (Bool → Option (List Bool))
  | .nil, _ => (.node v .nil .nil, header)
  | .node n left right, address =>
    if nodeCompare acc address.length v n then
      match left with
      | .nil => (.node n (.node v .nil .nil) right, follow header false address)
      | .node _ _ _ =>
        let (left, header) := insertBelow header v left (false :: address)
        (.node n left right, header)
    else
      match right with
      | .nil => (.node n left (.node v .nil .nil), follow header true address)
      | .node _ _ _ =>
        -- the rightmost node has nothing on its right, so nothing is lost here
        if some address = header true then
          (.node n left (.node v .nil .nil), follow header true address)
        else
          let (right, header) := insertBelow header v right (true :: address)
          (.node n left right, header)

/-- `insert`. -/
def KDTree.insert (tree : KDTree Val) (v : Val) : KDTree Val :=
  match tree.root with
  | .nil => ⟨.node v .nil .nil, fun _ => some [], tree.count + 1⟩
  | .node _ _ _ =>
    let (root, header) := insertBelow acc tree.header v tree.root []
    ⟨root, header, tree.count + 1⟩

/-! ### Iterators -/

/-- `_M_increment`. The parent of the root is the header. -/
def KDTree.increment (tree : KDTree Val) (address : List Bool) : Option (List Bool) :=
  successor tree.root address

/-- A pass of the loop that copies what is between two iterators, the second one being `end()`. -/
def KDTree.copyBody (tree : KDTree Val) :
    LoopBody Fault (Option (List Bool) × List Val) (List Val)
  | (none, out) => .ok (.inr out)
  | (some address, out) =>
    match subtreeAt tree.root address with
    | .nil => .error .outOfBounds
    | .node value _ _ => .ok (.inl (tree.increment address, out ++ [value]))

/-- The values from `begin()` to `end()`. -/
def KDTree.Copies (tree : KDTree Val) (values : List Val) : Prop :=
  Finishes tree.copyBody (tree.header false, []) values

/-! ### Optimisation -/

/-- `std::nth_element` on a range: it is rearranged. -/
structure NthElement (Val : Type*) where
  run : (Val → Val → Bool) → ℕ → List Val → List Val
  perm : ∀ less n values, (run less n values).Perm values

/-- `_M_optimise`. -/
def optimiseRange (nth : NthElement Val) (tree : KDTree Val) (values : List Val) (level : ℕ) :
    KDTree Val :=
  if nonempty : values = [] then tree
  else
    let m := values.length / 2
    let range := nth.run (nodeCompare acc level) m values
    have length : range.length = values.length := (nth.perm _ _ _).length_eq
    have inside : m < range.length := by
      have positive := List.length_pos_iff.mpr nonempty
      omega
    let tree := tree.insert acc range[m]
    let tree := if m ≠ 0 then optimiseRange nth tree (range.take m) (level + 1) else tree
    if m + 1 ≠ range.length then optimiseRange nth tree (range.drop (m + 1)) (level + 1) else tree
termination_by values.length
decreasing_by
  · rw [List.length_take]
    omega
  · rw [List.length_drop, (nth.perm _ _ _).length_eq]
    have positive := List.length_pos_iff.mpr nonempty
    omega

/-- `optimise`, of the values that have been copied. -/
def KDTree.optimise (nth : NthElement Val) (values : List Val) : KDTree Val :=
  optimiseRange acc nth .empty values 0

/-! ### Checks -/

/-- `_M_check_children`, its assertions. -/
def checkChildren (parent : Val) (level : ℕ) (toTheLeft : Bool) : BinaryTree Val → Bool
  | .nil => true
  | .node child left right =>
    (!toTheLeft || !nodeCompare acc level parent child) &&
      (toTheLeft || !nodeCompare acc level child parent) &&
      checkChildren parent level toTheLeft left && checkChildren parent level toTheLeft right

/-- `_M_check_node`. -/
def checkNode : BinaryTree Val → ℕ → Bool
  | .nil, _ => true
  | .node node left right, level =>
    checkChildren acc node level true left && checkChildren acc node level false right &&
      checkNode left (level + 1) && checkNode right (level + 1)

/-- `check_tree`. -/
def KDTree.checkTree (tree : KDTree Val) : Bool := checkNode acc tree.root 0

/-! ### Runs -/

/-- What is done to a tree. -/
inductive Operation (Val : Type*)
  | insert (v : Val)
  | optimise
  | clear

/-- One operation. `optimise` copies the values first. -/
inductive Performs (nth : NthElement Val) : KDTree Val → Operation Val → KDTree Val → Prop
  | insert {tree} (v : Val) : Performs nth tree (.insert v) (tree.insert acc v)
  | optimise {tree values} (copies : tree.Copies values) :
      Performs nth tree .optimise (.optimise acc nth values)
  | clear {tree} : Performs nth tree .clear .empty

/-- Operations one after the other. -/
inductive PerformsAll (nth : NthElement Val) : KDTree Val → List (Operation Val) → KDTree Val → Prop
  | nil {tree} : PerformsAll nth tree [] tree
  | cons {tree tree' tree'' operation operations} (first : Performs acc nth tree operation tree')
      (rest : PerformsAll nth tree' operations tree'') :
      PerformsAll nth tree (operation :: operations) tree''

/-- The values after an operation. -/
def remaining (values : List Val) : Operation Val → List Val
  | .insert v => values ++ [v]
  | .optimise => values
  | .clear => []

/-- The values that have been inserted since the last `clear`. -/
def inserted (operations : List (Operation Val)) : List Val := operations.foldl remaining []

/-! ### What an insertion does -/

/-- Insertion without a header. -/
def insertNode (v : Val) : BinaryTree Val → ℕ → BinaryTree Val
  | .nil, _ => .node v .nil .nil
  | .node n left right, level =>
    if nodeCompare acc level v n then .node n (insertNode v left (level + 1)) right
    else .node n left (insertNode v right (level + 1))

/-- The side of a node on which a value is, or is put. -/
def Placed (level : ℕ) (n : Val) (side : Bool) (w : Val) : Prop := nodeCompare acc level w n = !side

/-- A pointer of the header is to the outermost node of a subtree. -/
def Follows (header : Bool → Option (List Bool)) (side : Bool) (t : BinaryTree Val)
    (address : List Bool) : Prop := header side = some (extreme side t address)

/-- A pointer of the header is not into a subtree. -/
def Avoids (header : Bool → Option (List Bool)) (side : Bool) (address : List Bool) : Prop :=
  ∀ outermost, header side = some outermost → ¬ address <:+ outermost

/-- What an insertion into a subtree does to the header. -/
def Updates (header header' : Bool → Option (List Bool)) (t t' : BinaryTree Val)
    (address : List Bool) : Prop :=
  ∀ side, (Follows header side t address → Follows header' side t' address) ∧
    (Avoids header side address → header' side = header side)

variable {acc} {header header' : Bool → Option (List Bool)} {v n : Val}
  {t t' left right : BinaryTree Val} {address : List Bool} {level : ℕ} {side turn : Bool}

theorem insertNode_ne_nil (v : Val) (t : BinaryTree Val) (level : ℕ) :
    insertNode acc v t level ≠ .nil := by
  cases t with
  | nil => simp [insertNode]
  | node n left right =>
    rw [insertNode]
    split <;> simp

theorem inorder_insertNode (v : Val) (t : BinaryTree Val) (level : ℕ) :
    (inorder (insertNode acc v t level)).Perm (v :: inorder t) := by
  induction t generalizing level with
  | nil => exact .refl _
  | node n left right ihLeft ihRight =>
    rw [insertNode, inorder_node]
    split
    · exact (ihLeft (level + 1)).append_right _
    · have added := ((ihRight (level + 1)).cons n).append_left (inorder left)
      exact added.trans (((List.Perm.swap v n _).append_left _).trans List.perm_middle)

/-- A value that is inserted is placed. -/
theorem placed_insertNode {w : Val} (placed : Placed acc level n side v)
    (others : ∀ w ∈ inorder t, Placed acc level n side w)
    (member : w ∈ inorder (insertNode acc v t (level + 1))) : Placed acc level n side w := by
  rcases List.mem_cons.mp ((inorder_insertNode v t (level + 1)).mem_iff.mp member) with rfl | old
  · exact placed
  · exact others w old

theorem ordered_insertNode (v : Val) (ordered : Ordered (Placed acc) level t) :
    Ordered (Placed acc) level (insertNode acc v t level) := by
  induction t generalizing level with
  | nil => exact ⟨fun w member => absurd member List.not_mem_nil,
      fun w member => absurd member List.not_mem_nil, trivial, trivial⟩
  | node n left right ihLeft ihRight =>
    obtain ⟨below, above, onLeft, onRight⟩ := ordered
    rw [insertNode]
    split
    · rename_i less
      exact ⟨fun w => placed_insertNode less below, above, ihLeft onLeft, onRight⟩
    · rename_i notLess
      exact ⟨below, fun w => placed_insertNode (Bool.eq_false_of_not_eq_true notLess) above,
        onLeft, ihRight onRight⟩

/-! ### The header -/

theorem extreme_of_ne_nil (isNode : t ≠ .nil) :
    extreme side t address = extreme side (child side t) (side :: address) := by
  cases t with
  | nil => exact absurd rfl isNode
  | node n left right => exact extreme_node

theorem Avoids.below (avoids : Avoids header side address) : Avoids header side (turn :: address) :=
  fun _ points suffix => avoids _ points ((List.suffix_cons turn address).trans suffix)

theorem Follows.child (isNode : t ≠ .nil) (follows : Follows header side t address) :
    Follows header side (child side t) (side :: address) :=
  follows.trans (congrArg some (extreme_of_ne_nil isNode))

theorem Follows.avoids (isNode : t ≠ .nil) (follows : Follows header side t address)
    (other : turn ≠ side) : Avoids header side (turn :: address) := by
  intro outermost points suffix
  obtain rfl : extreme side t address = outermost := Option.some.inj (follows.symm.trans points)
  exact not_suffix_extreme other isNode suffix

/-- A new child below a node that had none on its side. -/
theorem updates_follow (isNode : t ≠ .nil) (isNode' : t' ≠ .nil) (was : child turn t = .nil)
    (now : child turn t' = .node v .nil .nil) (other : child (!turn) t' = child (!turn) t) :
    Updates header (follow header turn address) t t' address := by
  intro side
  by_cases same : side = turn
  · subst same
    constructor
    · intro follows
      have here : header side = some address := by
        rw [follows, extreme_of_ne_nil isNode, was, extreme_nil, List.tail_cons]
      rw [Follows, extreme_of_ne_nil isNode', now, follow, if_pos here.symm, Function.update_self]
      cases side <;> rfl
    · intro avoids
      rw [follow, if_neg]
      exact fun here => avoids address here.symm List.suffix_rfl
  · have kept : follow header turn address side = header side := by
      rw [follow]
      split
      · exact Function.update_of_ne same _ _
      · rfl
    obtain rfl : side = !turn := Bool.eq_not_of_ne same
    refine ⟨fun follows => ?_, fun _ => kept⟩
    rw [Follows, kept, follows, extreme_of_ne_nil isNode, extreme_of_ne_nil isNode', other]

/-- An insertion below a child. -/
theorem updates_child (turn : Bool) (isNode : t ≠ .nil) (isNode' : t' ≠ .nil)
    (updates : Updates header header' (child turn t) (child turn t') (turn :: address))
    (other : child (!turn) t' = child (!turn) t) : Updates header header' t t' address := by
  intro side
  refine ⟨fun follows => ?_, fun avoids => (updates side).2 avoids.below⟩
  by_cases same : side = turn
  · subst same
    exact ((updates side).1 (follows.child isNode)).trans
      (congrArg some (extreme_of_ne_nil isNode').symm)
  · have kept := (updates side).2 (follows.avoids isNode (Ne.symm same))
    obtain rfl : side = !turn := Bool.eq_not_of_ne same
    rw [Follows, kept, follows, extreme_of_ne_nil isNode, extreme_of_ne_nil isNode', other]

/-- The rightmost node has nothing on its right. -/
theorem not_rightmost (kept : ∀ side, Follows header side (.node n left right) address ∨
    Avoids header side address) (isNode : right ≠ .nil) : some address ≠ header true := by
  intro here
  rcases kept true with follows | avoids
  · have outermost := Option.some.inj (follows.symm.trans here.symm)
    exact isNode (extreme_eq_self_iff.mp outermost)
  · exact avoids address here.symm List.suffix_rfl

theorem kept_child (isNode : t ≠ .nil)
    (kept : ∀ side, Follows header side t address ∨ Avoids header side address) (turn side : Bool) :
    Follows header side (child turn t) (turn :: address) ∨
      Avoids header side (turn :: address) := by
  rcases kept side with follows | avoids
  · by_cases same : turn = side
    · subst same
      exact .inl (follows.child isNode)
    · exact .inr (follows.avoids isNode same)
  · exact .inr avoids.below

/-- **Insertion.** The pointers of the header stay at the outermost nodes. -/
theorem insertBelow_spec (acc : Val → Fin k → K) (v : Val) (isNode : t ≠ .nil)
    (kept : ∀ side, Follows header side t address ∨ Avoids header side address) :
    (insertBelow acc header v t address).1 = insertNode acc v t address.length ∧
      Updates header (insertBelow acc header v t address).2 t
        (insertNode acc v t address.length) address := by
  induction t generalizing address with
  | nil => exact absurd rfl isNode
  | node n left right ihLeft ihRight =>
    rw [insertBelow.eq_def, insertNode]
    dsimp only
    split
    · cases left with
      | nil => exact ⟨rfl, updates_follow isNode (by simp) rfl rfl rfl⟩
      | node _ _ _ =>
        obtain ⟨root, updates⟩ := ihLeft (by simp) (kept_child isNode kept false)
        exact ⟨congrArg (BinaryTree.node n · right) root,
          updates_child false isNode (by simp) updates rfl⟩
    · cases right with
      | nil => exact ⟨rfl, updates_follow isNode (by simp) rfl rfl rfl⟩
      | node _ _ _ =>
        obtain ⟨root, updates⟩ := ihRight (by simp) (kept_child isNode kept true)
        simp only [if_neg (not_rightmost kept (by simp))]
        exact ⟨congrArg (BinaryTree.node n left ·) root,
          updates_child true isNode (by simp) updates rfl⟩

/-! ### The invariant -/

/-- The header points to the outermost nodes, the nodes are counted, and every level is ordered. -/
structure Sound (acc : Val → Fin k → K) (tree : KDTree Val) : Prop where
  header : tree.root = .nil → tree.header = fun _ => none
  follows : tree.root ≠ .nil → ∀ side, Follows tree.header side tree.root []
  count : tree.count = (inorder tree.root).length
  ordered : Ordered (Placed acc) 0 tree.root

variable {tree tree' : KDTree Val} {nth : NthElement Val} {values : List Val}
  {operation : Operation Val} {operations : List (Operation Val)}

theorem sound_empty : Sound acc .empty :=
  ⟨fun _ => rfl, fun isNode => absurd rfl isNode, rfl, trivial⟩

theorem insert_root (sound : Sound acc tree) (v : Val) :
    (tree.insert acc v).root = insertNode acc v tree.root 0 ∧
      (∀ side, Follows (tree.insert acc v).header side (insertNode acc v tree.root 0) []) ∧
      (tree.insert acc v).count = tree.count + 1 := by
  unfold KDTree.insert
  cases isRoot : tree.root with
  | nil => exact ⟨rfl, fun side => by cases side <;> rfl, rfl⟩
  | node n left right =>
    have follows := sound.follows (by simp [isRoot])
    rw [isRoot] at follows
    obtain ⟨root, updates⟩ := insertBelow_spec acc v (by simp) fun side => .inl (follows side)
    exact ⟨root, fun side => (updates side).1 (follows side), rfl⟩

theorem sound_insert (sound : Sound acc tree) (v : Val) : Sound acc (tree.insert acc v) := by
  obtain ⟨root, follows, count⟩ := insert_root sound v
  constructor
  · intro isEmpty
    exact absurd (root.symm.trans isEmpty) (insertNode_ne_nil v _ 0)
  · rw [root]
    exact fun _ => follows
  · rw [root, count, sound.count, (inorder_insertNode v tree.root 0).length_eq, List.length_cons]
  · rw [root]
    exact ordered_insertNode v sound.ordered

theorem inorder_insert (sound : Sound acc tree) (v : Val) :
    (inorder (tree.insert acc v).root).Perm (v :: inorder tree.root) := by
  rw [(insert_root sound v).1]
  exact inorder_insertNode v tree.root 0

/-! ### Iteration -/

/-- From the first node of a subtree the loop copies its values and is then past it. -/
theorem passes_copyBody (here : subtreeAt tree.root address = t) (isNode : t ≠ .nil)
    (out : List Val) :
    Passes tree.copyBody (some (extreme false t address), out)
      (climb address, out ++ inorder t) := by
  induction t generalizing address out with
  | nil => exact absurd rfl isNode
  | node value left right ihLeft ihRight =>
    have toTheNode : Passes tree.copyBody
        (some (extreme false (.node value left right) address), out)
        (some address, out ++ inorder left) := by
      by_cases leaf : left = .nil
      · rw [extreme_node, leaf, child_false, extreme_nil, inorder_nil, List.append_nil]
        exact .refl
      · rw [extreme_node]
        exact ihLeft (by rw [subtreeAt_cons, here, child_false]) leaf out
    have pastTheNode : tree.copyBody (some address, out ++ inorder left) =
        .ok (.inl (tree.increment address, out ++ inorder left ++ [value])) := by
      rw [KDTree.copyBody, here]
    refine toTheNode.trans (.step pastTheNode ?_)
    have inOrder : out ++ inorder (.node value left right) =
        out ++ inorder left ++ [value] ++ inorder right := by simp
    rw [inOrder]
    by_cases leaf : right = .nil
    · rw [KDTree.increment, successor, here, leaf, child_true, inorder_nil, List.append_nil]
      exact .refl
    · have next : tree.increment address = some (extreme false right (true :: address)) := by
        rw [KDTree.increment, successor, here, child_true]
        cases right with
        | nil => exact absurd rfl leaf
        | node _ _ _ => rfl
      rw [next]
      exact ihRight (by rw [subtreeAt_cons, here, child_true]) leaf _

/-- The iterators run through all values in order. -/
theorem copies_inorder (sound : Sound acc tree) : tree.Copies (inorder tree.root) := by
  unfold KDTree.Copies
  by_cases isEmpty : tree.root = .nil
  · rw [sound.header isEmpty, isEmpty]
    exact .exit rfl
  · rw [sound.follows isEmpty false]
    exact (passes_copyBody (by rfl) isEmpty []).finishes (.exit rfl)

/-! ### Every run -/

@[simp] theorem optimiseRange_nil (level : ℕ) : optimiseRange acc nth tree [] level = tree := by
  rw [optimiseRange, dif_pos rfl]

theorem optimiseRange_if {p : Prop} [Decidable p] (isEmpty : ¬ p → values = []) (level : ℕ) :
    (if p then optimiseRange acc nth tree values level else tree) =
      optimiseRange acc nth tree values level := by
  split_ifs with nonempty
  · rfl
  · rw [isEmpty nonempty, optimiseRange_nil]

/-- A range is its middle value, what is before it and what is behind it, also where that is
nothing. -/
theorem optimiseRange_of_ne_nil (acc : Val → Fin k → K) (nth : NthElement Val) (tree : KDTree Val)
    (nonempty : values ≠ []) (level : ℕ) :
    ∃ before middle behind, values.Perm (middle :: before ++ behind) ∧
      optimiseRange acc nth tree values level =
        optimiseRange acc nth (optimiseRange acc nth (tree.insert acc middle) before (level + 1))
          behind (level + 1) := by
  have positive := List.length_pos_iff.mpr nonempty
  rw [optimiseRange, dif_neg nonempty]
  set m := values.length / 2
  set range := nth.run (nodeCompare acc level) m values
  have isRange : range.Perm values := nth.perm _ _ _
  have inside : m < range.length := by
    rw [isRange.length_eq]
    omega
  refine ⟨range.take m, range[m], range.drop (m + 1), ?_, ?_⟩
  · have cut : range = range.take m ++ range[m] :: range.drop (m + 1) := by
      rw [List.getElem_cons_drop, List.take_append_drop]
    exact isRange.symm.trans ((List.Perm.of_eq cut).trans List.perm_middle)
  · have noneBefore : ¬ m ≠ 0 → range.take m = [] := fun none => by simp_all
    have noneBehind : ¬ m + 1 ≠ range.length → range.drop (m + 1) = [] := fun none =>
      List.drop_eq_nil_of_le (not_not.mp none).ge
    exact (optimiseRange_if noneBehind _).trans
      (congrArg (optimiseRange acc nth · _ _) (optimiseRange_if noneBefore _))

theorem optimiseRange_spec (nth : NthElement Val) (sound : Sound acc tree) (values : List Val)
    (level : ℕ) :
    Sound acc (optimiseRange acc nth tree values level) ∧
      (inorder (optimiseRange acc nth tree values level).root).Perm
        (values ++ inorder tree.root) := by
  induction length : values.length using Nat.strong_induction_on generalizing tree values level with
  | _ n ih =>
    by_cases isEmpty : values = []
    · rw [isEmpty, optimiseRange_nil]
      exact ⟨sound, .refl _⟩
    · obtain ⟨before, middle, behind, isRange, run⟩ :=
        optimiseRange_of_ne_nil acc nth tree isEmpty level
      have lengths := isRange.length_eq
      rw [List.length_append, List.length_cons] at lengths
      obtain ⟨soundBefore, added⟩ := ih before.length (by omega) (sound_insert sound middle) before
        (level + 1) rfl
      obtain ⟨soundBehind, added'⟩ := ih behind.length (by omega) soundBefore behind (level + 1) rfl
      rw [run]
      refine ⟨soundBehind, ?_⟩
      have together : (behind ++ (before ++ middle :: inorder tree.root)).Perm
          (values ++ inorder tree.root) := by
        have swapped : (middle :: (behind ++ before)).Perm values :=
          (List.perm_append_comm.cons middle).trans isRange.symm
        rw [← List.append_assoc]
        exact List.perm_middle.trans (swapped.append_right (inorder tree.root))
      exact added'.trans ((added.append_left behind).trans
        ((((inorder_insert sound middle).append_left before).append_left behind).trans together))

theorem Sound.of_operation (sound : Sound acc tree)
    (performs : Performs acc nth tree operation tree') (same : (inorder tree.root).Perm values) :
    Sound acc tree' ∧ (inorder tree'.root).Perm (remaining values operation) := by
  cases performs with
  | insert v =>
    exact ⟨sound_insert sound v,
      (inorder_insert sound v).trans ((same.cons v).trans (List.perm_append_singleton v _).symm)⟩
  | optimise copies =>
    obtain rfl := copies.unique (copies_inorder sound)
    obtain ⟨sound', all⟩ := optimiseRange_spec nth (sound_empty : Sound acc .empty)
      (inorder tree.root) 0
    exact ⟨sound', all.trans ((List.Perm.of_eq (List.append_nil _)).trans same)⟩
  | clear => exact ⟨sound_empty, .refl _⟩

theorem Sound.of_operations (sound : Sound acc tree)
    (performs : PerformsAll acc nth tree operations tree')
    (same : (inorder tree.root).Perm values) :
    Sound acc tree' ∧ (inorder tree'.root).Perm (operations.foldl remaining values) := by
  induction performs generalizing values with
  | nil => exact ⟨sound, same⟩
  | cons first _ ih =>
    obtain ⟨sound', same'⟩ := sound.of_operation first same
    exact ih sound' same'

theorem exists_performsAll (sound : Sound acc tree) (operations : List (Operation Val)) :
    ∃ tree', PerformsAll acc nth tree operations tree' := by
  induction operations generalizing tree with
  | nil => exact ⟨tree, .nil⟩
  | cons operation operations ih =>
    obtain ⟨tree', first⟩ : ∃ tree', Performs acc nth tree operation tree' := by
      cases operation with
      | insert v => exact ⟨_, .insert v⟩
      | optimise => exact ⟨_, .optimise (copies_inorder sound)⟩
      | clear => exact ⟨_, .clear⟩
    obtain ⟨tree'', rest⟩ := ih (sound.of_operation first (.refl _)).1
    exact ⟨tree'', .cons first rest⟩

/-! ### Checks pass -/

theorem checkChildren_eq_true {parent : Val} {toTheLeft : Bool}
    (placed : ∀ w ∈ inorder t, Placed acc level parent (!toTheLeft) w) :
    checkChildren acc parent level toTheLeft t = true := by
  induction t with
  | nil => rfl
  | node child left right ihLeft ihRight =>
    have here := placed child (by simp)
    have both := And.intro (ihLeft fun w member => placed w (by simp [member]))
      (ihRight fun w member => placed w (by simp [member]))
    rw [checkChildren, both.1, both.2]
    cases toTheLeft with
    | false => simpa [Placed] using here
    | true =>
      have less : acc child (Fin.ofNat k level) < acc parent (Fin.ofNat k level) := by
        simpa [Placed, nodeCompare] using here
      simpa [nodeCompare] using less.le

theorem checkNode_eq_true (ordered : Ordered (Placed acc) level t) :
    checkNode acc t level = true := by
  induction t generalizing level with
  | nil => rfl
  | node node left right ihLeft ihRight =>
    obtain ⟨below, above, onLeft, onRight⟩ := ordered
    rw [checkNode, checkChildren_eq_true below, checkChildren_eq_true above, ihLeft onLeft,
      ihRight onRight]
    rfl

/-- **Every run.** Whatever is done to a tree, its iterators run through the values inserted since
it was last cleared, each as often as it was inserted, `size` counts them, and its own check
passes. -/
theorem checkTree_of_run (acc : Val → Fin k → K) (nth : NthElement Val)
    (operations : List (Operation Val)) :
    (∃ tree, PerformsAll acc nth .empty operations tree) ∧
      ∀ tree, PerformsAll acc nth .empty operations tree →
        tree.checkTree acc = true ∧ tree.count = (inserted operations).length ∧
          ∃ values, tree.Copies values ∧ values.Perm (inserted operations) := by
  refine ⟨exists_performsAll sound_empty operations, fun tree performs => ?_⟩
  obtain ⟨sound, same⟩ := sound_empty.of_operations performs (.refl _)
  refine ⟨checkNode_eq_true sound.ordered, ?_, inorder tree.root, copies_inorder sound, same⟩
  rw [sound.count, same.length_eq]
  rfl

/-- `std::nth_element` by sorting the whole range. -/
def sortRange : NthElement Val where
  run less _ values := values.mergeSort fun a b => !less b a
  perm _ _ values := List.mergeSort_perm values _

/-- Two points on a line, taken out and put back. -/
theorem checkTree_of_two_points :
    ∃ tree, PerformsAll (fun (v : ℤ) (_ : Fin 1) => v) sortRange .empty
        [.insert 3, .insert 1, .optimise] tree ∧
      tree.count = 2 ∧ tree.checkTree (fun (v : ℤ) (_ : Fin 1) => v) = true := by
  obtain ⟨⟨tree, performs⟩, every⟩ := checkTree_of_run (fun (v : ℤ) (_ : Fin 1) => v) sortRange
    [.insert 3, .insert 1, .optimise]
  obtain ⟨checked, count, -⟩ := every tree performs
  exact ⟨tree, performs, count, checked⟩

end Sqwar.KdTree
