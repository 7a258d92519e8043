import Mathlib.Data.Finset.Card
import Mathlib.Data.Set.Insert
import Mathlib.Logic.Relation

/-!
# Depth-first search

A search marks what it visits and goes on to the successors of what it has just marked. Searching
from one root after another, without removing marks, groups everything that can be reached: each
group holds what its root reaches and no earlier root does. The groups depend on the order of the
roots, unless every step can be undone by other steps.
-/

set_option autoImplicit false

namespace Data

open Function Relation

variable {α : Type*}

/-- The marks, and what has been found in the order of discovery. -/
structure Search (α : Type*) where
  marked : α → Bool
  found : List α

section Search

variable [DecidableEq α] (next : α → List α)

def Search.mark (s : Search α) (v : α) : Search α :=
  ⟨update s.marked v true, s.found ++ [v]⟩

/-- The search from one vertex, with a bound on the depth of the recursion. -/
def visit : ℕ → α → Search α → Option (Search α)
  | 0, _, _ => none
  | depth + 1, v, s =>
    if s.marked v then some s
    else (next v).foldlM (fun s w => visit depth w s) (s.mark v)

/-- The search from each of the roots that the earlier ones have not reached. -/
def components (depth : ℕ) : List α → (α → Bool) → Option (List (List α))
  | [], _ => some []
  | v :: roots, marked =>
    if marked v then components depth roots marked
    else do
      let s ← visit next depth v ⟨marked, []⟩
      let groups ← components depth roots s.marked
      some (s.found :: groups)

end Search

/-- There is a step from the first vertex to the second. -/
def Next (next : α → List α) (v w : α) : Prop := w ∈ next v

/-- What a search from some roots does between two states. -/
structure Explores (next : α → List α) (roots : List α) (s s' : Search α) (new : List α) :
    Prop where
  found : s'.found = s.found ++ new
  marked : ∀ w, s'.marked w = true ↔ s.marked w = true ∨ w ∈ new
  nodup : new.Nodup
  fresh : ∀ w ∈ new, ¬ s.marked w = true
  reached : ∀ w ∈ new, ∃ v ∈ roots, ReflTransGen (Next next) v w
  roots : ∀ v ∈ roots, s'.marked v = true
  closed : ∀ v ∈ new, ∀ w ∈ next v, s'.marked w = true

namespace Explores

variable {next : α → List α} {roots roots' new new' : List α} {s s' s'' : Search α} {v : α}

theorem nil : Explores next [] s s [] where
  found := (List.append_nil _).symm
  marked := by simp
  nodup := .nil
  fresh := nofun
  reached := nofun
  roots := nofun
  closed := nofun

theorem of_marked (known : s.marked v = true) : Explores next [v] s s [] where
  found := (List.append_nil _).symm
  marked := by simp
  nodup := .nil
  fresh := nofun
  reached := nofun
  roots := List.forall_mem_singleton.mpr known
  closed := nofun

theorem append (first : Explores next roots s s' new) (second : Explores next roots' s' s'' new') :
    Explores next (roots ++ roots') s s'' (new ++ new') where
  found := by rw [second.found, first.found, List.append_assoc]
  marked w := by rw [second.marked, first.marked, List.mem_append, or_assoc]
  nodup := by
    refine first.nodup.append second.nodup fun w inFirst inSecond => ?_
    exact second.fresh w inSecond ((first.marked w).mpr (.inr inFirst))
  fresh w member := by
    rcases List.mem_append.mp member with inFirst | inSecond
    · exact first.fresh w inFirst
    · exact fun known => second.fresh w inSecond ((first.marked w).mpr (.inl known))
  reached w member := by
    rcases List.mem_append.mp member with inFirst | inSecond
    · obtain ⟨v, root, reach⟩ := first.reached w inFirst
      exact ⟨v, List.mem_append_left _ root, reach⟩
    · obtain ⟨v, root, reach⟩ := second.reached w inSecond
      exact ⟨v, List.mem_append_right _ root, reach⟩
  roots v member := by
    rcases List.mem_append.mp member with inFirst | inSecond
    · exact (second.marked v).mpr (.inl (first.roots v inFirst))
    · exact second.roots v inSecond
  closed v member w step := by
    rcases List.mem_append.mp member with inFirst | inSecond
    · exact (second.marked w).mpr (.inl (first.closed v inFirst w step))
    · exact second.closed v inSecond w step

theorem mark_marked [DecidableEq α] {w : α} :
    (s.mark v).marked w = true ↔ w = v ∨ s.marked w = true := by
  unfold Search.mark
  by_cases same : w = v
  · simp [same]
  · simp [same, update_of_ne]

/-- A vertex is searched by marking it and searching from its successors. -/
theorem of_mark [DecidableEq α] (unknown : ¬ s.marked v = true)
    (rest : Explores next (next v) (s.mark v) s' new) : Explores next [v] s s' (v :: new) where
  found := by
    rw [rest.found, Search.mark, List.append_assoc]
    rfl
  marked w := by rw [rest.marked, mark_marked, List.mem_cons, or_assoc, or_left_comm]
  nodup := by
    refine List.nodup_cons.mpr ⟨fun member => ?_, rest.nodup⟩
    exact rest.fresh v member (mark_marked.mpr (.inl rfl))
  fresh w member := by
    rcases List.mem_cons.mp member with rfl | later
    · exact unknown
    · exact fun known => rest.fresh w later (mark_marked.mpr (.inr known))
  reached w member := by
    refine ⟨v, List.mem_singleton_self v, ?_⟩
    rcases List.mem_cons.mp member with rfl | later
    · exact .refl
    · obtain ⟨u, step, reach⟩ := rest.reached w later
      exact .head step reach
  roots := List.forall_mem_singleton.mpr ((rest.marked v).mpr (.inl (mark_marked.mpr (.inl rfl))))
  closed u member w step := by
    rcases List.mem_cons.mp member with rfl | later
    · exact rest.roots w step
    · exact rest.closed u later w step

/-- The marks stay closed under steps. -/
theorem closed_marked (explores : Explores next roots s s' new)
    (closed : ∀ v, s.marked v = true → ∀ w ∈ next v, s.marked w = true) :
    ∀ v, s'.marked v = true → ∀ w ∈ next v, s'.marked w = true := by
  intro v known w step
  rcases (explores.marked v).mp known with before | now
  · exact (explores.marked w).mpr (.inl (closed v before w step))
  · exact explores.closed v now w step

/-- A search from one vertex finds what it reaches, except for what was marked. -/
theorem mem_iff (explores : Explores next [v] s s' new)
    (closed : ∀ v, s.marked v = true → ∀ w ∈ next v, s.marked w = true) {w : α} :
    w ∈ new ↔ ¬ s.marked w = true ∧ ReflTransGen (Next next) v w := by
  constructor
  · intro member
    obtain ⟨u, root, reach⟩ := explores.reached w member
    obtain rfl := List.mem_singleton.mp root
    exact ⟨explores.fresh w member, reach⟩
  · rintro ⟨unknown, reach⟩
    have known : s'.marked w = true := by
      clear unknown
      induction reach with
      | refl => exact explores.roots v (List.mem_singleton_self v)
      | tail _ step ih => exact explores.closed_marked closed _ ih _ step
    exact ((explores.marked w).mp known).resolve_left unknown

end Explores

/-! ### Searches return -/

section Total

variable [DecidableEq α] {next : α → List α} {vertices : Finset α} {s s' : Search α}
  {roots new : List α} {depth : ℕ}

/-- The vertices that are not marked. -/
def Search.unmarked (s : Search α) (vertices : Finset α) : Finset α :=
  vertices.filter fun v => ¬ s.marked v = true

omit [DecidableEq α] in
theorem Explores.unmarked_subset (explores : Explores next roots s s' new) :
    s'.unmarked vertices ⊆ s.unmarked vertices := by
  intro v member
  obtain ⟨vertex, unknown⟩ := Finset.mem_filter.mp member
  exact Finset.mem_filter.mpr
    ⟨vertex, fun known => unknown ((explores.marked v).mpr (.inl known))⟩

theorem Search.card_unmarked_mark {v : α} (vertex : v ∈ vertices)
    (unknown : ¬ s.marked v = true) :
    ((s.mark v).unmarked vertices).card < (s.unmarked vertices).card := by
  refine Finset.card_lt_card (Finset.ssubset_iff_of_subset ?_ |>.mpr ⟨v, ?_, ?_⟩)
  · intro w member
    obtain ⟨vertex, unknown⟩ := Finset.mem_filter.mp member
    exact Finset.mem_filter.mpr
      ⟨vertex, fun known => unknown (Explores.mark_marked.mpr (.inr known))⟩
  · exact Finset.mem_filter.mpr ⟨vertex, unknown⟩
  · intro member
    exact (Finset.mem_filter.mp member).2 (Explores.mark_marked.mpr (.inl rfl))

/-- Searches one after another return if each does. -/
theorem exists_foldlM
    (ih : ∀ w ∈ vertices, ∀ s : Search α, (s.unmarked vertices).card < depth →
      ∃ s' new, visit next depth w s = some s' ∧ Explores next [w] s s' new)
    (inside : ∀ w ∈ roots, w ∈ vertices) (small : (s.unmarked vertices).card < depth) :
    ∃ s' new, roots.foldlM (fun s w => visit next depth w s) s = some s' ∧
      Explores next roots s s' new := by
  induction roots generalizing s with
  | nil => exact ⟨s, [], rfl, .nil⟩
  | cons w roots ihRoots =>
    obtain ⟨s', new, visits, explores⟩ := ih w (inside w List.mem_cons_self) s small
    have smaller : (s'.unmarked vertices).card ≤ (s.unmarked vertices).card :=
      Finset.card_le_card explores.unmarked_subset
    obtain ⟨s'', new', rest, explores'⟩ := ihRoots
      (fun u member => inside u (List.mem_cons_of_mem w member)) (smaller.trans_lt small)
    refine ⟨s'', new ++ new', ?_, explores.append explores'⟩
    rw [List.foldlM_cons, visits]
    exact rest

/-- **A search returns** if it may go deeper than there are unmarked vertices. -/
theorem exists_visit (inside : ∀ v ∈ vertices, ∀ w ∈ next v, w ∈ vertices) {v : α}
    (vertex : v ∈ vertices) (small : (s.unmarked vertices).card < depth) :
    ∃ s' new, visit next depth v s = some s' ∧ Explores next [v] s s' new := by
  induction depth generalizing v s with
  | zero => exact absurd small (Nat.not_lt_zero _)
  | succ depth ih =>
    rw [visit]
    split_ifs with known
    · exact ⟨s, [], rfl, .of_marked known⟩
    · have smaller := Search.card_unmarked_mark vertex known
      obtain ⟨s', new, visits, explores⟩ := exists_foldlM (s := s.mark v)
        (fun w member s small => ih member small) (inside v vertex) (by omega)
      exact ⟨s', v :: new, visits, .of_mark known explores⟩

end Total

/-! ### Groups -/

section Groups

/-- The groups of what some roots reach: each holds what its root reaches, except for what was
marked before. -/
inductive Groups (R : α → α → Prop) : Set α → List α → List (List α) → Prop
  | nil {marked : Set α} : Groups R marked [] []
  | skip {marked : Set α} {v : α} {roots : List α} {groups : List (List α)} : v ∈ marked →
      Groups R marked roots groups → Groups R marked (v :: roots) groups
  | take {marked : Set α} {v : α} {roots group : List α} {groups : List (List α)} : v ∉ marked →
      group.Nodup → (∀ w, w ∈ group ↔ w ∉ marked ∧ ReflTransGen R v w) →
      Groups R (marked ∪ {w | w ∈ group}) roots groups →
      Groups R marked (v :: roots) (group :: groups)

variable {R : α → α → Prop} {marked : Set α} {roots roots' : List α}
  {groups groups' : List (List α)} {v w : α}

/-- The groups as a set of sets. -/
def groupSets (groups : List (List α)) : Set (Set α) :=
  { part | ∃ group ∈ groups, part = { v | v ∈ group } }

/-- Marks that are closed under steps. -/
def ClosedUnder (R : α → α → Prop) (marked : Set α) : Prop :=
  ∀ v ∈ marked, ∀ w, R v w → w ∈ marked

theorem ClosedUnder.reach (closed : ClosedUnder R marked) (known : v ∈ marked)
    (reach : ReflTransGen R v w) : w ∈ marked := by
  induction reach with
  | refl => exact known
  | tail _ step ih => exact closed _ ih _ step

theorem ClosedUnder.union {group : List α} (closed : ClosedUnder R marked)
    (holds : ∀ w, w ∈ group ↔ w ∉ marked ∧ ReflTransGen R v w) :
    ClosedUnder R (marked ∪ { w | w ∈ group }) := by
  rintro u (known | member) w step
  · exact .inl (closed u known w step)
  · by_cases known : w ∈ marked
    · exact .inl known
    · exact .inr ((holds w).mpr ⟨known, ((holds u).mp member).2.tail step⟩)

theorem closedUnder_empty : ClosedUnder R ∅ := nofun

/-- The groups hold what the roots reach and what was not marked. -/
theorem Groups.mem_flatten (isGroups : Groups R marked roots groups)
    (closed : ClosedUnder R marked) :
    w ∈ groups.flatten ↔ w ∉ marked ∧ ∃ v ∈ roots, ReflTransGen R v w := by
  induction isGroups with
  | nil => simp
  | @skip marked v roots groups known _ ih =>
    rw [ih closed]
    simp only [List.mem_cons, exists_eq_or_imp, and_congr_right_iff]
    exact fun unknown => (or_iff_right fun reach => unknown (closed.reach known reach)).symm
  | @take marked v roots group groups unknown nodup holds _ ih =>
    rw [List.flatten_cons, List.mem_append, ih (closed.union holds), holds]
    simp only [List.mem_cons, exists_eq_or_imp, Set.mem_union, Set.mem_ofPred_eq, holds]
    by_cases known : w ∈ marked <;> by_cases reach : ReflTransGen R v w <;> simp [known, reach]

theorem Groups.nodup_flatten (isGroups : Groups R marked roots groups)
    (closed : ClosedUnder R marked) : groups.flatten.Nodup := by
  induction isGroups with
  | nil => exact .nil
  | skip _ _ ih => exact ih closed
  | @take marked v roots group groups unknown nodup holds rest ih =>
    rw [List.flatten_cons]
    refine nodup.append (ih (closed.union holds)) fun w first later => ?_
    exact ((rest.mem_flatten (closed.union holds)).mp later).1 (.inr first)

/-- **No vertex is lost and none is found twice**: the groups together are the roots in another
order, if every step leads from a root to a root. -/
theorem Groups.flatten_perm (isGroups : Groups R ∅ roots groups) (nodup : roots.Nodup)
    (inside : ∀ v ∈ roots, ∀ w, R v w → w ∈ roots) : groups.flatten.Perm roots := by
  refine (List.perm_ext_iff_of_nodup (isGroups.nodup_flatten closedUnder_empty) nodup).mpr
    fun w => (isGroups.mem_flatten closedUnder_empty).trans ?_
  constructor
  · rintro ⟨-, v, root, reach⟩
    have closed : ClosedUnder R { w | w ∈ roots } := inside
    exact closed.reach root reach
  · exact fun root => ⟨Set.notMem_empty w, w, root, .refl⟩

/-- Where steps can be undone, each group is everything that its root reaches. -/
theorem Groups.sets_eq (isGroups : Groups R marked roots groups) (closed : ClosedUnder R marked)
    (undo : ∀ v ∈ roots, ∀ w, ReflTransGen R v w → ReflTransGen R w v) :
    groupSets groups =
      { part | ∃ v ∈ roots, v ∉ marked ∧ part = { w | ReflTransGen R v w } } := by
  induction isGroups with
  | nil => simp [groupSets]
  | @skip marked v roots groups known _ ih =>
    rw [ih closed fun u root => undo u (List.mem_cons_of_mem v root)]
    ext part
    simp [known]
  | @take marked v roots group groups unknown nodup holds _ ih =>
    have whole : { w | w ∈ group } = { w | ReflTransGen R v w } := by
      ext w
      refine (holds w).trans (and_iff_right_of_imp fun reach known => ?_)
      exact unknown (closed.reach known (undo v List.mem_cons_self w reach))
    have rest := ih (closed.union holds) fun u root => undo u (List.mem_cons_of_mem v root)
    ext part
    have split : part ∈ groupSets (group :: groups) ↔
        part = { w | w ∈ group } ∨ part ∈ groupSets groups := by
      simp [groupSets]
    rw [split, rest, whole]
    constructor
    · rintro (rfl | ⟨u, root, unknown', rfl⟩)
      · exact ⟨v, List.mem_cons_self, unknown, rfl⟩
      · exact ⟨u, List.mem_cons_of_mem v root, fun known => unknown' (.inl known), rfl⟩
    · rintro ⟨u, root, unknown', rfl⟩
      by_cases reach : ReflTransGen R v u
      · -- the same group
        have back := undo v List.mem_cons_self u reach
        exact .inl (Set.ext fun w => ⟨reach.trans, back.trans⟩)
      · rcases List.mem_cons.mp root with rfl | later
        · exact absurd .refl reach
        · exact .inr ⟨u, later, by rintro (known | known); exacts [unknown' known, reach known],
            rfl⟩

/-- The first group is everything that the first root reaches. -/
theorem Groups.head (isGroups : Groups R ∅ (v :: roots) groups) :
    ∃ group rest, groups = group :: rest ∧ (∀ w, w ∈ group ↔ ReflTransGen R v w) ∧
      ∀ part ∈ rest, ∀ w ∈ part, ¬ ReflTransGen R v w := by
  cases isGroups with
  | skip known => exact absurd known (Set.notMem_empty v)
  | take unknown nodup holds rest =>
    have all := fun w => (holds w).trans (and_iff_right (Set.notMem_empty w))
    refine ⟨_, _, rfl, all, fun part member w inPart reach => ?_⟩
    have later := List.mem_flatten.mpr ⟨part, member, inPart⟩
    have outside := ((rest.mem_flatten (closedUnder_empty.union holds)).mp later).1
    exact outside (.inr ((all w).mpr reach))

/-- If the groups are the same with the second vertex first as with the first one, what the first
reaches can reach it. -/
theorem reach_of_groupSets_eq (first : Groups R ∅ (v :: roots) groups)
    (second : Groups R ∅ (w :: roots') groups') (same : groupSets groups = groupSets groups')
    (reach : ReflTransGen R v w) : ReflTransGen R w v := by
  obtain ⟨group, rest, rfl, all, apart⟩ := first.head
  obtain ⟨group', rest', rfl, all', -⟩ := second.head
  -- the group of the second vertex holds both
  have isGroup : { u | u ∈ group' } ∈ groupSets (group :: rest) := by
    rw [same]
    exact ⟨group', List.mem_cons_self, rfl⟩
  obtain ⟨part, member, equal⟩ := isGroup
  have inPart : w ∈ part := (Set.ext_iff.mp equal w).mp ((all' w).mpr .refl)
  rcases List.mem_cons.mp member with rfl | later
  · exact (all' v).mp ((Set.ext_iff.mp equal v).mpr ((all v).mpr .refl))
  · exact absurd reach (apart part later w inPart)

end Groups

/-! ### The search finds the groups -/

/-- **Searching from all roots finds their groups**, if the recursion may go deeper than there are
vertices. -/
theorem exists_components [DecidableEq α] {next : α → List α} {vertices : Finset α} {depth : ℕ}
    {roots : List α} {marked : α → Bool}
    (inside : ∀ v ∈ vertices, ∀ w ∈ next v, w ∈ vertices) (deep : vertices.card < depth)
    (isRoot : ∀ v ∈ roots, v ∈ vertices)
    (closed : ∀ v, marked v = true → ∀ w ∈ next v, marked w = true) :
    ∃ groups, components next depth roots marked = some groups ∧
      Groups (Next next) { v | marked v = true } roots groups := by
  induction roots generalizing marked with
  | nil => exact ⟨[], rfl, .nil⟩
  | cons v roots ih =>
    have isRoot' := fun u member => isRoot u (List.mem_cons_of_mem v member)
    rw [components]
    split_ifs with known
    · obtain ⟨groups, runs, isGroups⟩ := ih isRoot' closed
      exact ⟨groups, runs, .skip known isGroups⟩
    · obtain ⟨s, new, visits, explores⟩ := exists_visit (s := ⟨marked, []⟩) inside
        (isRoot v List.mem_cons_self) ((Finset.card_filter_le _ _).trans_lt deep)
      obtain ⟨groups, runs, isGroups⟩ := ih isRoot' (explores.closed_marked closed)
      have found : s.found = new := explores.found
      refine ⟨new :: groups, ?_, .take known explores.nodup (fun w => explores.mem_iff closed) ?_⟩
      · rw [visits, ← found]
        simp only [bind, Option.bind, runs]
      · have marks : { w | s.marked w = true } = { w | marked w = true } ∪ { w | w ∈ new } :=
          Set.ext fun w => explores.marked w
        rwa [← marks]

/-- Where nothing is marked at first, the groups hold everything that the roots reach. -/
theorem exists_components_unmarked [DecidableEq α] {next : α → List α} {vertices : Finset α}
    {depth : ℕ} {roots : List α} (inside : ∀ v ∈ vertices, ∀ w ∈ next v, w ∈ vertices)
    (deep : vertices.card < depth) (isRoot : ∀ v ∈ roots, v ∈ vertices) :
    ∃ groups, components next depth roots (fun _ => false) = some groups ∧
      Groups (Next next) ∅ roots groups := by
  have unmarked : { v : α | false = true } = ∅ := by simp
  rw [← unmarked]
  exact exists_components inside deep isRoot nofun

end Data
