import Mathlib.Order.Lattice
import Sqwar.Data.TreeAddress

/-!
# Branch and bound in a binary tree

A search visits a node, then the subtree on the side that the node says is near, and the other one
only if the bound that has been reached so far crosses over to it. If the order of the tree
justifies what is left out, the bound at the end is below the costs of all nodes.
-/

set_option autoImplicit false

namespace Data

variable {α σ : Type*} (near : List Bool → α → Bool) (visit : List Bool → α → σ → σ)
  (crosses : List Bool → α → σ → Bool)

/-- The search below an address. -/
def search : BinaryTree α → List Bool → σ → σ
  | .nil, _, s => s
  | .node value left right, address, s =>
    let s := visit address value s
    if near address value then
      let s := search right (true :: address) s
      if crosses address value s then search left (false :: address) s else s
    else
      let s := search left (false :: address) s
      if crosses address value s then search right (true :: address) s else s

variable {near visit crosses} {t root left right : BinaryTree α} {address : List Bool} {value : α}
  {s : σ}

/-- The search below the children of a node that has been visited. -/
def searchChildren (near : List Bool → α → Bool) (visit : List Bool → α → σ → σ)
    (crosses : List Bool → α → σ → Bool) (t : BinaryTree α) (address : List Bool) (value : α)
    (s : σ) : σ :=
  let side := near address value
  let s := search near visit crosses (child side t) (side :: address) s
  if crosses address value s then search near visit crosses (child (!side) t) ((!side) :: address) s
  else s

theorem search_node : search near visit crosses (.node value left right) address s =
    searchChildren near visit crosses (.node value left right) address value
      (visit address value s) := by
  cases side : near address value <;> simp [search, searchChildren, side]

/-- **Invariant rule.** What every visit of a node keeps holds after the search. -/
theorem search_invariant (inv : σ → Prop)
    (keeps : ∀ address value left right s, subtreeAt root address = .node value left right →
      inv s → inv (visit address value s))
    (here : subtreeAt root address = t) (start : inv s) :
    inv (search near visit crosses t address s) := by
  induction t generalizing address s with
  | nil => exact start
  | node value left right ihLeft ihRight =>
    have children : ∀ side s, inv s → inv (search near visit crosses
        (child side (.node value left right)) (side :: address) s) := by
      intro side s start
      have onSide : subtreeAt root (side :: address) = child side (.node value left right) :=
        congrArg (child side) here
      cases side with
      | false => exact ihLeft onSide start
      | true => exact ihRight onSide start
    have first := children (near address value) _ (keeps address value left right s here start)
    rw [search_node, searchChildren]
    split_ifs
    · exact children _ _ first
    · exact first

variable {K : Type*} [Preorder K] {R : ℕ → α → Bool → α → Prop}

/-- **Exactness.** If a visit brings the bound down to the cost of its node, and what the bound does
not cross over to costs no less, the search brings it down to the costs of all nodes. -/
theorem search_exact (bound : σ → K) (cost : α → K) (visits : ∀ address value s,
      bound (visit address value s) ≤ bound s ∧ bound (visit address value s) ≤ cost value)
    (sound : ∀ address value s w, R address.length value (!near address value) w →
      crosses address value s = false → bound s ≤ cost w)
    (ordered : Ordered R address.length t) :
    bound (search near visit crosses t address s) ≤ bound s ∧
      ∀ w ∈ inorder t, bound (search near visit crosses t address s) ≤ cost w := by
  induction t generalizing address s with
  | nil => exact ⟨le_rfl, fun w member => absurd member List.not_mem_nil⟩
  | node value left right ihLeft ihRight =>
    obtain ⟨lower, paid⟩ := visits address value s
    rw [search_node, searchChildren]
    set t := BinaryTree.node value left right with isNode
    set visited := visit address value s
    -- both sides alike
    have children : ∀ side s,
        bound (search near visit crosses (child side t) (side :: address) s) ≤ bound s ∧
          ∀ w ∈ inorder (child side t),
            bound (search near visit crosses (child side t) (side :: address) s) ≤ cost w := by
      intro side s
      cases side with
      | false => exact ihLeft (ordered.child false)
      | true => exact ihRight (ordered.child true)
    have first := children (near address value) visited
    split_ifs with crossed
    · have second := children (!near address value)
        (search near visit crosses (child (near address value) t) (near address value :: address)
          visited)
      refine ⟨second.1.trans (first.1.trans lower), fun w member => ?_⟩
      rcases (mem_inorder_node (near address value)).mp member with rfl | isNear | isFar
      · exact second.1.trans (first.1.trans paid)
      · exact second.1.trans (first.2 w isNear)
      · exact second.2 w isFar
    · refine ⟨first.1.trans lower, fun w member => ?_⟩
      rcases (mem_inorder_node (near address value)).mp member with rfl | isNear | isFar
      · exact first.1.trans paid
      · exact first.2 w isNear
      · exact sound address value _ w (ordered.onSide _ isFar)
          (Bool.eq_false_of_not_eq_true crossed)

end Data
