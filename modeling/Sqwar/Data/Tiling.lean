import Mathlib.Data.Set.Lattice
import Mathlib.Order.CompletePartialOrder

/-!
# Tilings

A list of parts tiles a set when their regions cover it and no two of them overlap. Tilings of
two disjoint sets are exactly what a tiling of their union consists of, as long as every part
keeps to its side; this is the rule for recursive subdivisions.
-/

set_option autoImplicit false

namespace Data

variable {α β γ : Type*} {region : β → Set α} {parts left right : List β} {whole A B : Set α}

/-- The regions of the parts cover the whole, and no two of them overlap. -/
structure Tiles (region : β → Set α) (parts : List β) (whole : Set α) : Prop where
  covers : ∀ point, point ∈ whole ↔ ∃ part ∈ parts, point ∈ region part
  disjoint : parts.Pairwise fun a b => Disjoint (region a) (region b)

theorem tiles_singleton (part : β) : Tiles region [part] (region part) :=
  ⟨by simp, List.pairwise_singleton _ _⟩

theorem Tiles.subset (tiles : Tiles region parts whole) {part : β} (member : part ∈ parts) :
    region part ⊆ whole :=
  fun point inside => (tiles.covers point).mpr ⟨part, member, inside⟩

/-- Parts that keep to a set that misses a point of the whole do not tile it. -/
theorem not_tiles_of_notMem {point : α} (inside : ∀ part ∈ parts, region part ⊆ A)
    (inWhole : point ∈ whole) (missed : point ∉ A) : ¬ Tiles region parts whole := by
  intro tiles
  obtain ⟨part, member, covered⟩ := (tiles.covers point).mp inWhole
  exact missed (inside part member covered)

/-- **Subdivision rule.** Parts on two disjoint sides tile the union of the sides if and only if
they tile each side. -/
theorem tiles_append_iff (apart : Disjoint A B) (inLeft : ∀ part ∈ left, region part ⊆ A)
    (inRight : ∀ part ∈ right, region part ⊆ B) :
    Tiles region (left ++ right) (A ∪ B) ↔ Tiles region left A ∧ Tiles region right B := by
  have separate : ∀ a ∈ left, ∀ b ∈ right, Disjoint (region a) (region b) :=
    fun a ha b hb => apart.mono (inLeft a ha) (inRight b hb)
  constructor
  · intro tiles
    obtain ⟨leftApart, rightApart, -⟩ := List.pairwise_append.mp tiles.disjoint
    refine ⟨⟨fun point => ?_, leftApart⟩, ⟨fun point => ?_, rightApart⟩⟩
    · refine ⟨fun inA => ?_, fun ⟨part, member, covered⟩ => inLeft part member covered⟩
      obtain ⟨part, member, covered⟩ := (tiles.covers point).mp (Or.inl inA)
      rcases List.mem_append.mp member with here | there
      · exact ⟨part, here, covered⟩
      · -- a part of the other side cannot cover a point of this one
        exact absurd (inRight part there covered) (Set.disjoint_left.mp apart inA)
    · refine ⟨fun inB => ?_, fun ⟨part, member, covered⟩ => inRight part member covered⟩
      obtain ⟨part, member, covered⟩ := (tiles.covers point).mp (Or.inr inB)
      rcases List.mem_append.mp member with here | there
      · exact absurd inB (Set.disjoint_left.mp apart (inLeft part here covered))
      · exact ⟨part, there, covered⟩
  · rintro ⟨leftTiles, rightTiles⟩
    refine ⟨fun point => ?_, List.pairwise_append.mpr
      ⟨leftTiles.disjoint, rightTiles.disjoint, separate⟩⟩
    rw [Set.mem_union, leftTiles.covers, rightTiles.covers]
    simp only [List.mem_append, or_and_right, exists_or]

/-- **Refinement rule.** Tilings of the parts of a tiling make a tiling of the whole. -/
theorem Tiles.flatMap {region' : γ → Set α} {inner : β → List γ} (tiles : Tiles region parts whole)
    (refines : ∀ part ∈ parts, Tiles region' (inner part) (region part)) :
    Tiles region' (parts.flatMap inner) whole := by
  refine ⟨fun point => ?_, ?_⟩
  · rw [tiles.covers]
    constructor
    · rintro ⟨part, member, inside⟩
      obtain ⟨piece, within, covered⟩ := ((refines part member).covers point).mp inside
      exact ⟨piece, List.mem_flatMap.mpr ⟨part, member, within⟩, covered⟩
    · rintro ⟨piece, member, covered⟩
      obtain ⟨part, member, within⟩ := List.mem_flatMap.mp member
      exact ⟨part, member, (refines part member).subset within covered⟩
  · rw [List.pairwise_flatMap]
    refine ⟨fun part member => (refines part member).disjoint, ?_⟩
    refine tiles.disjoint.imp_of_mem fun {a b} ha hb apart piece hpiece piece' hpiece' => ?_
    exact apart.mono ((refines a ha).subset hpiece) ((refines b hb).subset hpiece')

/-- Of the parts of a tiling, exactly one contains a point of the whole. -/
theorem Tiles.filter_eq (tiles : Tiles region parts whole) (point : α) (inside : point ∈ whole)
    (holds : β → Bool) (contains : ∀ part ∈ parts, holds part = true ↔ point ∈ region part) :
    ∃ part, parts.filter holds = [part] := by
  obtain ⟨part, member, covered⟩ := (tiles.covers point).mp inside
  obtain ⟨before, after, rfl⟩ := List.append_of_mem member
  obtain ⟨-, apart, crossing⟩ := List.pairwise_append.mp tiles.disjoint
  have none : ∀ others : List β, (∀ other ∈ others, other ∈ before ++ part :: after) →
      (∀ other ∈ others, point ∉ region other) → others.filter holds = [] := by
    intro others within outside
    exact List.filter_eq_nil_iff.mpr fun other here =>
      fun holds => outside other here ((contains other (within other here)).mp holds)
  refine ⟨part, ?_⟩
  rw [List.filter_append, List.filter_cons_of_pos ((contains part member).mpr covered),
    none before (fun other here => List.mem_append_left _ here),
    none after (fun other here => List.mem_append_right _ (List.mem_cons_of_mem _ here)),
    List.nil_append]
  · intro other here
    exact Set.disjoint_left.mp ((List.pairwise_cons.mp apart).1 other here) covered
  · intro other here
    exact Set.disjoint_right.mp (crossing other here part (List.mem_cons_self ..)) covered

end Data
