import Mathlib.Order.Bounds.Defs
import Mathlib.Order.Lattice
import Mathlib.Order.Nat

/-!
# First minima

A pass over candidates in order keeps the best one so far, and replaces it by a better one only: so
it ends with the first of those that have the least value. Some of the candidates do not compete.
-/

set_option autoImplicit false

namespace Data

variable {D : Type*} [LinearOrder D] {competes : ℕ → Prop} {value : ℕ → D} {n j : ℕ}

/-- The first competitor of the least value, among those before `n`. -/
structure FirstMin (competes : ℕ → Prop) (value : ℕ → D) (n j : ℕ) : Prop where
  lt : j < n
  competing : competes j
  le : ∀ i < n, competes i → value j ≤ value i
  first : ∀ i < j, competes i → value j < value i

/-- The first competitor is the best one. -/
theorem FirstMin.of_none (none : ∀ i < n, ¬ competes i) (here : competes n) :
    FirstMin competes value (n + 1) n := by
  refine ⟨n.lt_succ_self, here, fun i less competing => ?_, fun i less competing =>
    absurd competing (none i less)⟩
  obtain rfl : i = n := by
    by_contra other
    exact none i (lt_of_le_of_ne (Nat.le_of_lt_succ less) other) competing
  exact le_rfl

/-- A better candidate is the best one. -/
theorem FirstMin.replace (best : FirstMin competes value n j) (here : competes n)
    (better : value n < value j) : FirstMin competes value (n + 1) n := by
  refine ⟨n.lt_succ_self, here, fun i less competing => ?_, fun i less competing =>
    better.trans_le (best.le i less competing)⟩
  rcases Nat.lt_succ_iff_lt_or_eq.mp less with before | rfl
  · exact better.le.trans (best.le i before competing)
  · exact le_rfl

/-- The best one stays the best one, beside a candidate that does not compete or is not better. -/
theorem FirstMin.keep (best : FirstMin competes value n j)
    (worse : competes n → ¬ value n < value j) : FirstMin competes value (n + 1) j := by
  refine ⟨best.lt.trans n.lt_succ_self, best.competing, fun i less competing => ?_, best.first⟩
  rcases Nat.lt_succ_iff_lt_or_eq.mp less with before | rfl
  · exact best.le i before competing
  · exact not_lt.mp (worse competing)

/-- The best one at the end, as the least index of a least value. -/
theorem FirstMin.isLeast (best : FirstMin competes value n j) (all : ∀ i, competes i → i < n) :
    IsLeast { k | competes k ∧ ∀ i, competes i → value k ≤ value i } j := by
  refine ⟨⟨best.competing, fun i competing => best.le i (all i competing) competing⟩, ?_⟩
  rintro k ⟨competing, least⟩
  by_contra before
  exact (best.first k (not_le.mp before) competing).not_ge (least j best.competing)

end Data
