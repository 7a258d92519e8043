import Mathlib.Data.List.Basic
import Mathlib.Data.Nat.Notation

/-!
# Logs of a traversal of a tree

A place in a tree is the list of the indices of the children on the way to it. A log notes values at
places. The logs of the children, each put under the index of the child, make up the log of a node;
what a node's log says about a place below a child is what the child's log says.
-/

set_option autoImplicit false

namespace Data

/-- Values that were noted at places. -/
abbrev PathLog (α : Type*) := List (List ℕ × α)

namespace PathLog

variable {α : Type*} {log others : PathLog α} {i j : ℕ} {path : List ℕ} {a : α}

/-- The log of a child, seen from its parent. -/
def under (i : ℕ) (log : PathLog α) : PathLog α := log.map fun event => (i :: event.1, event.2)

/-- The part below a child, seen from there. -/
def below (i : ℕ) (log : PathLog α) : PathLog α :=
  log.filterMap fun event =>
    match event.1 with
    | [] => none
    | j :: path => if j = i then some (path, event.2) else none

/-- What was noted at a place. -/
def entries (path : List ℕ) (log : PathLog α) : List α :=
  log.filterMap fun event => if event.1 = path then some event.2 else none

end PathLog

end Data
