import Mathlib.Data.List.Perm.Basic
import Mathlib.Data.List.Perm.Subperm

/-!
# Lists that are related element by element

A part of the one list is related to a part of the other, also where the parts are rearranged, and
two relations can be followed one after the other.
-/

set_option autoImplicit false

namespace Data

variable {α β γ : Type} {r : α → β → Prop} {q : β → γ → Prop} {l l' : List α} {u : List β}
  {v : List γ}

theorem exists_forall₂_of_sublist (sub : l.Sublist l') (related : List.Forall₂ r l' u) :
    ∃ u', List.Forall₂ r l u' ∧ u'.Sublist u := by
  induction sub generalizing u with
  | slnil => exact ⟨u, related, List.Sublist.refl u⟩
  | cons a sub ih =>
    cases related with
    | cons head tail =>
      obtain ⟨u', related', sub'⟩ := ih tail
      exact ⟨u', related', sub'.cons _⟩
  | cons_cons a sub ih =>
    cases related with
    | @cons _ b _ _ head tail =>
      obtain ⟨u', related', sub'⟩ := ih tail
      exact ⟨b :: u', .cons head related', sub'.cons_cons b⟩

theorem exists_forall₂_of_subperm (sub : l.Subperm l') (related : List.Forall₂ r l' u) :
    ∃ u', List.Forall₂ r l u' ∧ u'.Subperm u := by
  obtain ⟨m, perm, sub⟩ := sub
  obtain ⟨u₁, related₁, sub₁⟩ := exists_forall₂_of_sublist sub related
  obtain ⟨u₂, related₂, perm₂⟩ := List.perm_comp_forall₂ perm.symm related₁
  exact ⟨u₂, related₂, u₁, perm₂.symm, sub₁⟩

theorem forall₂_comp (first : List.Forall₂ r l u) (second : List.Forall₂ q u v) :
    List.Forall₂ (Relation.Comp r q) l v := by
  induction first generalizing v with
  | nil =>
    cases second
    exact .nil
  | cons head _ ih =>
    cases second with
    | cons head' tail' => exact .cons ⟨_, head, head'⟩ (ih tail')

end Data
