import Mathlib.Data.List.Induction
import Mathlib.Data.List.Nodup
import Mathlib.Logic.Function.Basic

/-!
# Sweeps over events

A sweep goes through a list of events and keeps one active item per lane: an event replaces the
item of its lane, by one that it opens or by nothing. An event that opens an item makes contact
with whatever is active in the opposite lane. In a list sorted by a strict order, contact is made
exactly with the item that was opened there last, if nothing has happened in its lane since.
-/

set_option autoImplicit false

namespace Data

open Function

variable {E L α : Type*} [DecidableEq L] (lane : E → L) (opens : E → Option α) (opposite : L → L)

/-- The items active after some events. -/
def active (current : L → Option α) (events : List E) : L → Option α :=
  events.foldl (fun current v => update current (lane v) (opens v)) current

/-- The contacts a sweep makes: the opening event, and the item active in the opposite lane. -/
def contacts : (L → Option α) → List E → List (E × α)
  | _, [] => []
  | current, v :: later =>
    let next := update current (lane v) (opens v)
    match opens v, next (opposite (lane v)) with
    | some _, some other => (v, other) :: contacts next later
    | _, _ => contacts next later

variable {lane opens opposite} {current : L → Option α} {events : List E} {v : E} {other : α}

/-- What is active in a lane was opened by the last event there. -/
theorem active_eq_some_iff {l : L} :
    active lane opens (fun _ => none) events l = some other ↔
      ∃ before u after, events = before ++ u :: after ∧ lane u = l ∧ opens u = some other ∧
        ∀ w ∈ after, lane w ≠ l := by
  induction events using List.reverseRecOn with
  | nil => simp [active]
  | append_singleton events e ih =>
    have last : active lane opens (fun _ => none) (events ++ [e]) =
        update (active lane opens (fun _ => none) events) (lane e) (opens e) := by
      simp [active]
    rw [last]
    by_cases here : lane e = l
    · subst here
      rw [update_self]
      constructor
      · intro opened
        exact ⟨events, e, [], rfl, rfl, opened, by simp⟩
      · rintro ⟨before, u, after, split, inLane, opened, quiet⟩
        rcases List.eq_nil_or_concat after with rfl | ⟨front, e', rfl⟩
        · obtain ⟨-, same⟩ := List.append_inj' split rfl
          obtain rfl := List.singleton_inj.mp same
          exact opened
        · -- the last event is in the lane, so nothing of it lies behind `u`
          rw [List.concat_eq_append, ← List.cons_append, ← List.append_assoc] at split
          obtain ⟨-, same⟩ := List.append_inj' split rfl
          obtain rfl := List.singleton_inj.mp same
          exact absurd rfl (quiet e (by simp))
    · rw [update_of_ne (Ne.symm here), ih]
      constructor
      · rintro ⟨before, u, after, rfl, inLane, opened, quiet⟩
        refine ⟨before, u, after ++ [e], by simp, inLane, opened, fun w member => ?_⟩
        rcases List.mem_append.mp member with earlier | last
        · exact quiet w earlier
        · rwa [List.mem_singleton.mp last]
      · rintro ⟨before, u, after, split, inLane, opened, quiet⟩
        rcases List.eq_nil_or_concat after with rfl | ⟨front, e', rfl⟩
        · obtain ⟨-, same⟩ := List.append_inj' split rfl
          obtain rfl := List.singleton_inj.mp same
          exact absurd inLane here
        · rw [List.concat_eq_append, ← List.cons_append, ← List.append_assoc] at split
          obtain ⟨rfl, -⟩ := List.append_inj' split rfl
          exact ⟨before, u, front, rfl, inLane, opened, fun w member => quiet w (by simp [member])⟩

theorem mem_contacts (apart : ∀ l, opposite l ≠ l) :
    (v, other) ∈ contacts lane opens opposite current events ↔
      ∃ before after, events = before ++ v :: after ∧ (opens v).isSome ∧
        active lane opens current before (opposite (lane v)) = some other := by
  induction events generalizing current with
  | nil => simp [contacts]
  | cons e later ih =>
    have first : update current (lane e) (opens e) (opposite (lane e)) =
        current (opposite (lane e)) := update_of_ne (apart _) _ _
    have either : (v, other) ∈ contacts lane opens opposite current (e :: later) ↔
        (v = e ∧ (opens e).isSome ∧ current (opposite (lane e)) = some other) ∨
          (v, other) ∈ contacts lane opens opposite (update current (lane e) (opens e)) later := by
      rw [contacts, first]
      cases opened : opens e <;> cases met : current (opposite (lane e)) <;> simp [eq_comm]
    rw [either, ih]
    constructor
    · rintro (⟨rfl, opened, met⟩ | ⟨before, after, rfl, opened, met⟩)
      · exact ⟨[], later, rfl, opened, met⟩
      · exact ⟨e :: before, after, rfl, opened, met⟩
    · rintro ⟨before, after, split, opened, met⟩
      cases before with
      | nil =>
        obtain ⟨rfl, rfl⟩ := List.cons.inj split
        exact .inl ⟨rfl, opened, met⟩
      | cons e' before =>
        obtain ⟨rfl, rfl⟩ := List.cons.inj split
        exact .inr ⟨before, after, rfl, opened, met⟩

/-- A contact is made by an event, with something active before or opened by an event. -/
theorem mem_of_mem_contacts (member : (v, other) ∈ contacts lane opens opposite current events) :
    v ∈ events ∧ ((∃ l, current l = some other) ∨ ∃ u ∈ events, opens u = some other) := by
  induction events generalizing current with
  | nil => exact absurd member List.not_mem_nil
  | cons e later ih =>
    have next : ∀ l, update current (lane e) (opens e) l = some other →
        (∃ l, current l = some other) ∨ ∃ u ∈ e :: later, opens u = some other := by
      intro l met
      by_cases here : l = lane e
      · subst here
        exact .inr ⟨e, List.mem_cons_self, by rwa [update_self] at met⟩
      · exact .inl ⟨l, by rwa [update_of_ne here] at met⟩
    have rest (member : (v, other) ∈ contacts lane opens opposite
        (update current (lane e) (opens e)) later) :
        v ∈ e :: later ∧
          ((∃ l, current l = some other) ∨ ∃ u ∈ e :: later, opens u = some other) := by
      obtain ⟨inLater, ⟨l, met⟩ | ⟨u, inLater', opened⟩⟩ := ih member
      · exact ⟨List.mem_cons_of_mem e inLater, next l met⟩
      · exact ⟨List.mem_cons_of_mem e inLater, .inr ⟨u, List.mem_cons_of_mem e inLater', opened⟩⟩
    rw [contacts] at member
    split at member
    · rename_i met
      rcases List.mem_cons.mp member with first | member
      · obtain ⟨rfl, rfl⟩ := Prod.mk.inj first
        exact ⟨List.mem_cons_self, next _ met⟩
      · exact rest member
    · exact rest member

/-- **Contacts of a sorted sweep.** An opening event meets an item if and only if an earlier event
of the opposite lane opened it and no event of that lane lies between the two. -/
theorem mem_contacts_iff {less : E → E → Prop} (asymm : ∀ a b, less a b → ¬ less b a)
    (sorted : events.Pairwise less) (apart : ∀ l, opposite l ≠ l) :
    (v, other) ∈ contacts lane opens opposite (fun _ => none) events ↔
      v ∈ events ∧ (opens v).isSome ∧
        ∃ u ∈ events, lane u = opposite (lane v) ∧ opens u = some other ∧ less u v ∧
          ∀ w ∈ events, lane w = opposite (lane v) → less u w → ¬ less w v := by
  rw [mem_contacts apart]
  constructor
  · rintro ⟨prior, rest, rfl, opened, met⟩
    obtain ⟨before, u, after, rfl, inLane, opensU, quiet⟩ := active_eq_some_iff.mp met
    refine ⟨by simp, opened, u, by simp, inLane, opensU, ?_, fun w member sameLane behind => ?_⟩
    · exact (List.pairwise_append.mp sorted).2.2 u (by simp) v (by simp)
    · -- `w` lies behind `u` and is not between it and `v`, so it is `v` or lies behind `v`
      obtain ⟨firstSorted, restSorted, -⟩ := List.pairwise_append.mp sorted
      rcases List.mem_append.mp member with early | late
      · rcases List.mem_append.mp early with front | middle
        · exact absurd behind
            (asymm _ _ ((List.pairwise_append.mp firstSorted).2.2 w front u (by simp)))
        · rcases List.mem_cons.mp middle with rfl | between
          · exact absurd behind (asymm _ _ behind)
          · exact absurd sameLane (quiet w between)
      · rcases List.mem_cons.mp late with rfl | beyond
        · exact fun self => asymm _ _ self self
        · exact asymm _ _ ((List.pairwise_cons.mp restSorted).1 w beyond)
  · rintro ⟨inside, opened, u, member, inLane, opensU, earlier, quiet⟩
    obtain ⟨prior, rest, rfl⟩ := List.append_of_mem inside
    obtain ⟨priorSorted, restSorted, across⟩ := List.pairwise_append.mp sorted
    have early : u ∈ prior := by
      rcases List.mem_append.mp member with early | late
      · exact early
      · rcases List.mem_cons.mp late with rfl | beyond
        · exact absurd earlier (asymm _ _ earlier)
        · exact absurd earlier (asymm _ _ ((List.pairwise_cons.mp restSorted).1 u beyond))
    obtain ⟨before, after, rfl⟩ := List.append_of_mem early
    refine ⟨_, rest, rfl, opened, active_eq_some_iff.mpr
      ⟨before, u, after, rfl, inLane, opensU, fun w between sameLane => ?_⟩⟩
    have behind := (List.pairwise_cons.mp (List.pairwise_append.mp priorSorted).2.1).1 w between
    have ahead := across w (by simp [between]) v (by simp)
    exact quiet w (by simp [between]) sameLane behind ahead

/-- A sweep makes at most one contact at each event. -/
theorem contacts_nodup (nodup : events.Nodup) :
    (contacts lane opens opposite current events).Nodup := by
  -- contacts are listed under their events, in order
  have sub : ((contacts lane opens opposite current events).map Prod.fst).Sublist events := by
    clear nodup
    induction events generalizing current with
    | nil => simp [contacts]
    | cons e later ih =>
      rw [contacts]
      split
      · exact ih.cons_cons e
      · exact ih.cons e
  exact (nodup.sublist sub).of_map

end Data
