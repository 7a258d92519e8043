import Mathlib.Data.Tree.Basic
import Mathlib.Tactic.Common

/-!
# Nodes of a binary tree by their addresses

A node is addressed by the turns that lead to it from the root, the last turn first, so that the
address of its parent is the tail of its own. This is how a tree with parent pointers is seen: going
up drops a turn, going down adds one. The next node in order is found by going down to the left of
the right child, or else by going up past the turns to the right.
-/

set_option autoImplicit false

namespace Data

variable {α : Type*}

/-- The child on a side, the right one on `true`. -/
def child (side : Bool) : BinaryTree α → BinaryTree α
  | .nil => .nil
  | .node _ left right => if side then right else left

/-- There is a node. -/
def isNode : BinaryTree α → Bool
  | .nil => false
  | .node _ _ _ => true

/-- The subtree at an address. -/
def subtreeAt (t : BinaryTree α) : List Bool → BinaryTree α
  | [] => t
  | side :: address => child side (subtreeAt t address)

/-- The value at an address. -/
def valueAt (t : BinaryTree α) (address : List Bool) : Option α :=
  match subtreeAt t address with
  | .nil => none
  | .node value _ _ => some value

/-- The values in order. -/
def inorder : BinaryTree α → List α
  | .nil => []
  | .node value left right => inorder left ++ value :: inorder right

/-- What holds of every node, its depth, a side and each value on that side. -/
def Ordered (R : ℕ → α → Bool → α → Prop) (depth : ℕ) : BinaryTree α → Prop
  | .nil => True
  | .node value left right =>
    (∀ w ∈ inorder left, R depth value false w) ∧ (∀ w ∈ inorder right, R depth value true w) ∧
      Ordered R (depth + 1) left ∧ Ordered R (depth + 1) right

/-- The address of the outermost node on a side: the last one that is reached by turning to it.
Below nothing it is the parent's. -/
def extreme (side : Bool) : BinaryTree α → List Bool → List Bool
  | .nil, address => address.tail
  | .node _ left right, address =>
    if side then extreme side right (side :: address) else extreme side left (side :: address)

/-- The nearest ancestor of which a node is on the left, if there is one. -/
def climb : List Bool → Option (List Bool)
  | [] => none
  | true :: address => climb address
  | false :: address => some address

/-- The address of the next node in order. -/
def successor (t : BinaryTree α) (address : List Bool) : Option (List Bool) :=
  match child true (subtreeAt t address) with
  | .nil => climb address
  | right@(.node _ _ _) => some (extreme false right (true :: address))

section

variable {t left right : BinaryTree α} {address : List Bool} {value : α} {side : Bool}

@[simp] theorem child_nil : child side (.nil : BinaryTree α) = .nil := rfl

@[simp] theorem child_false : child false (.node value left right) = left := rfl

@[simp] theorem child_true : child true (.node value left right) = right := rfl

theorem eq_nil_or_node (t : BinaryTree α) :
    t = .nil ∨ ∃ value left right, t = .node value left right := by
  cases t with
  | nil => exact .inl rfl
  | node value left right => exact .inr ⟨value, left, right, rfl⟩

@[simp] theorem isNode_iff : isNode t = true ↔ t ≠ .nil := by
  cases t <;> simp [isNode]

@[simp] theorem subtreeAt_root : subtreeAt t [] = t := rfl

theorem subtreeAt_cons : subtreeAt t (side :: address) = child side (subtreeAt t address) := rfl

@[simp] theorem inorder_nil : inorder (.nil : BinaryTree α) = [] := rfl

@[simp] theorem inorder_node :
    inorder (.node value left right) = inorder left ++ value :: inorder right := rfl

theorem inorder_eq_nil_iff : inorder t = [] ↔ t = .nil := by
  cases t <;> simp

/-- The values of a child are among those of its parent. -/
theorem mem_inorder_of_child {w : α} (member : w ∈ inorder (child side t)) : w ∈ inorder t := by
  cases t with
  | nil => exact member
  | node value left right => cases side <;> simp_all

/-- The value at an address is one of the tree. -/
theorem mem_inorder_of_subtreeAt {w : α} (member : w ∈ inorder (subtreeAt t address)) :
    w ∈ inorder t := by
  induction address with
  | nil => exact member
  | cons side address ih => exact ih (mem_inorder_of_child member)

theorem mem_inorder_of_valueAt (found : valueAt t address = some value) : value ∈ inorder t := by
  rw [valueAt] at found
  split at found
  · cases found
  · rename_i root left right isNode
    obtain rfl := Option.some.inj found
    have member : root ∈ inorder (subtreeAt t address) := by simp [isNode]
    exact mem_inorder_of_subtreeAt member

theorem mem_inorder_node {w : α} (side : Bool) :
    w ∈ inorder (.node value left right) ↔ w = value ∨
      w ∈ inorder (child side (.node value left right)) ∨
        w ∈ inorder (child (!side) (.node value left right)) := by
  cases side <;> simp <;> tauto

/-! ### Outermost nodes -/

@[simp] theorem extreme_nil : extreme side (.nil : BinaryTree α) address = address.tail := rfl

theorem extreme_node : extreme side (.node value left right) address =
    extreme side (child side (.node value left right)) (side :: address) := by
  cases side <;> rfl

/-- The outermost node below a node is reached by turns to its side only. -/
theorem exists_extreme_eq (side : Bool) (address : List Bool) (isNode : t ≠ .nil) :
    ∃ n, extreme side t address = List.replicate n side ++ address := by
  induction t generalizing address with
  | nil => exact absurd rfl isNode
  | node value left right ihLeft ihRight =>
    rw [extreme_node]
    by_cases below : child side (.node value left right) = .nil
    · exact ⟨0, by rw [below]; rfl⟩
    · obtain ⟨n, turns⟩ : ∃ n, extreme side (child side (.node value left right))
          (side :: address) = List.replicate n side ++ side :: address := by
        cases side with
        | false => exact ihLeft _ below
        | true => exact ihRight _ below
      refine ⟨n + 1, turns.trans ?_⟩
      rw [List.replicate_succ', List.append_assoc, List.singleton_append]

/-- It is not on the other side. -/
theorem not_suffix_extreme {other : Bool} (differ : other ≠ side) (isNode : t ≠ .nil) :
    ¬ other :: address <:+ extreme side t address := by
  obtain ⟨n, turns⟩ := exists_extreme_eq side address isNode
  rintro ⟨rest, same⟩
  rw [turns, List.append_cons] at same
  have heads := List.append_cancel_right same
  have member : other ∈ List.replicate n side := heads ▸ by simp
  exact differ (List.eq_of_mem_replicate member)

theorem suffix_extreme (side : Bool) (address : List Bool) (isNode : t ≠ .nil) :
    address <:+ extreme side t address := by
  obtain ⟨n, turns⟩ := exists_extreme_eq side address isNode
  exact ⟨List.replicate n side, turns.symm⟩

/-- A node is the outermost one below itself only if it has no child on the side. -/
theorem extreme_eq_self_iff : extreme side (.node value left right) address = address ↔
    child side (.node value left right) = .nil := by
  rw [extreme_node]
  by_cases below : child side (.node value left right) = .nil
  · simp [below]
  · refine iff_of_false (fun same => ?_) below
    have longer := (suffix_extreme side (side :: address) below).length_le
    rw [same, List.length_cons] at longer
    omega

section Ordered

variable {R : ℕ → α → Bool → α → Prop} {depth : ℕ}

theorem Ordered.child (h : Ordered R depth (.node value left right)) (side : Bool) :
    Ordered R (depth + 1) (child side (.node value left right)) := by
  cases side
  · exact h.2.2.1
  · exact h.2.2.2

theorem Ordered.onSide (h : Ordered R depth (.node value left right)) (side : Bool) {w : α}
    (member : w ∈ inorder (Data.child side (.node value left right))) : R depth value side w := by
  cases side
  · exact h.1 w member
  · exact h.2.1 w member

end Ordered

theorem Ordered.mono {R R' : ℕ → α → Bool → α → Prop} {depth : ℕ}
    (weaker : ∀ depth v side w, R depth v side w → R' depth v side w) (h : Ordered R depth t) :
    Ordered R' depth t := by
  induction t generalizing depth with
  | nil => trivial
  | node value left right ihLeft ihRight =>
    obtain ⟨below, above, onLeft, onRight⟩ := h
    exact ⟨fun w member => weaker _ _ _ _ (below w member),
      fun w member => weaker _ _ _ _ (above w member), ihLeft onLeft, ihRight onRight⟩

end

end Data
