import Mathlib.Data.List.Basic
import Mathlib.Order.Nat

/-!
# Computations that write to a bounded log

A computation adds entries to a log that its state holds, and fails as soon as there are more of
them than fit. `Delivers` says what is known of a result after so many entries; it goes through
sequences of computations and through loops.
-/

set_option autoImplicit false

namespace Semantics

universe u

/-- A log in a state: what it means to hold entries, how many fit, and the failure. -/
structure BoundedLog (σ β ε : Type*) where
  Holds : List β → σ → Prop
  capacity : ℕ
  full : ε

namespace BoundedLog

variable {σ α : Type u} {β ε : Type*} {log : BoundedLog σ β ε} {entries more : List β}
  {result : Except ε σ} {s : σ}

/-- The result of a computation after these entries. -/
def Delivers (log : BoundedLog σ β ε) (entries : List β) (result : Except ε σ) : Prop :=
  if entries.length ≤ log.capacity then ∃ s, result = .ok s ∧ log.Holds entries s
  else result = .error log.full

theorem delivers_ok (fits : entries.length ≤ log.capacity) (holds : log.Holds entries s) :
    log.Delivers entries (.ok s) := by
  rw [Delivers, if_pos fits]
  exact ⟨s, rfl, holds⟩

theorem delivers_error (full : log.capacity < entries.length) :
    log.Delivers entries (.error log.full) := by
  rw [Delivers, if_neg (Nat.not_le.mpr full)]

theorem Delivers.of_fits (delivers : log.Delivers entries result)
    (fits : entries.length ≤ log.capacity) : ∃ s, result = .ok s ∧ log.Holds entries s := by
  rwa [Delivers, if_pos fits] at delivers

theorem Delivers.of_full (delivers : log.Delivers entries result)
    (full : log.capacity < entries.length) : result = .error log.full := by
  rwa [Delivers, if_neg (Nat.not_le.mpr full)] at delivers

/-- **Sequences.** What comes second starts in a state that holds the entries of the first. -/
theorem Delivers.bind {f : σ → Except ε σ} (first : log.Delivers entries result)
    (second : ∀ s, entries.length ≤ log.capacity → log.Holds entries s →
      log.Delivers (entries ++ more) (f s)) :
    log.Delivers (entries ++ more) (result >>= f) := by
  rcases Nat.lt_or_ge log.capacity entries.length with beyond | fits
  · rw [first.of_full beyond]
    exact delivers_error (by rw [List.length_append]; omega)
  · obtain ⟨s, rfl, holds⟩ := first.of_fits fits
    exact second s fits holds

/-- **Loops.** -/
theorem Delivers.foldlM {f : σ → α → Except ε σ} {logged : α → List β}
    (body : ∀ entries s a, entries.length ≤ log.capacity → log.Holds entries s →
      log.Delivers (entries ++ logged a) (f s a)) {items : List α}
    (fits : entries.length ≤ log.capacity) (holds : log.Holds entries s) :
    log.Delivers (entries ++ items.flatMap logged) (items.foldlM f s) := by
  induction items generalizing entries s with
  | nil =>
    rw [List.flatMap_nil, List.append_nil, List.foldlM_nil]
    exact delivers_ok fits holds
  | cons a items ih =>
    rw [List.flatMap_cons, ← List.append_assoc, List.foldlM_cons]
    exact (body entries s a fits holds).bind fun s' fits' holds' => ih fits' holds'

end BoundedLog

end Semantics
