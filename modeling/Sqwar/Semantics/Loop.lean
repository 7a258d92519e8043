import Mathlib.Tactic.Common
import Mathlib.Order.Nat

/-!
# Loops with failing bodies

A `while` loop whose body may fail, go on with a new state, or leave with a result. `Finishes`
is the relational meaning of a terminating run and `runLoop` its bounded interpreter; the two
agree, runs are deterministic, and the usual invariant and variant rules hold.
-/

set_option autoImplicit false

namespace Semantics

universe u

/-- One pass of a loop: a failure, the next state, or the result the loop leaves with. -/
abbrev LoopBody (ε σ τ : Type*) := σ → Except ε (σ ⊕ τ)

variable {ε σ τ : Type*}

/-- A sequence of two failing computations returns when both do. -/
theorem bind_eq_ok_iff {α β : Type u} {x : Except ε α} {f : α → Except ε β} {b : β} :
    x >>= f = .ok b ↔ ∃ a, x = .ok a ∧ f a = .ok b := by
  cases x with
  | error failure => simp [bind, Except.bind]
  | ok a => simp [bind, Except.bind]

theorem map_eq_ok_iff {α β : Type u} {x : Except ε α} {f : α → β} {b : β} :
    f <$> x = .ok b ↔ ∃ a, x = .ok a ∧ f a = b := by
  cases x with
  | error failure => simp [Functor.map, Except.map]
  | ok a => simp [Functor.map, Except.map]

/-- The loop started in the first argument leaves with the second, after finitely many passes
none of which fails. -/
inductive Finishes (body : LoopBody ε σ τ) : σ → τ → Prop
  | exit {s t} : body s = .ok (.inr t) → Finishes body s t
  | step {s s' t} : body s = .ok (.inl s') → Finishes body s' t → Finishes body s t

variable {body : LoopBody ε σ τ} {s s' : σ} {t t' : τ}

/-- The loop run for at most `fuel` passes; `none` when it is still running then. -/
def runLoop (body : LoopBody ε σ τ) : ℕ → σ → Option (Except ε τ)
  | 0, _ => none
  | fuel + 1, s =>
    match body s with
    | .error failure => some (.error failure)
    | .ok (.inr t) => some (.ok t)
    | .ok (.inl s') => runLoop body fuel s'

theorem finishes_of_runLoop {fuel : ℕ} (h : runLoop body fuel s = some (.ok t)) :
    Finishes body s t := by
  induction fuel generalizing s with
  | zero => simp [runLoop] at h
  | succ fuel ih =>
    rw [runLoop] at h
    split at h
    · simp at h
    · rename_i exits
      obtain rfl : _ = t := by simpa using h
      exact .exit exits
    · rename_i steps
      exact .step steps (ih h)

theorem Finishes.exists_runLoop (h : Finishes body s t) :
    ∃ fuel, runLoop body fuel s = some (.ok t) := by
  induction h with
  | exit exits => exact ⟨1, by simp [runLoop, exits]⟩
  | step steps _ ih =>
    obtain ⟨fuel, run⟩ := ih
    exact ⟨fuel + 1, by simp [runLoop, steps, run]⟩

/-- The relational and the bounded meaning of a loop agree. -/
theorem finishes_iff_exists_runLoop :
    Finishes body s t ↔ ∃ fuel, runLoop body fuel s = some (.ok t) :=
  ⟨Finishes.exists_runLoop, fun ⟨_, run⟩ => finishes_of_runLoop run⟩

theorem Finishes.unique (h : Finishes body s t) (h' : Finishes body s t') : t = t' := by
  induction h with
  | exit exits =>
    cases h' with
    | exit exits' => simpa using exits.symm.trans exits'
    | step steps' _ => simp [exits] at steps'
  | step steps _ ih =>
    cases h' with
    | exit exits' => simp [steps] at exits'
    | step steps' rest' =>
      -- the body is a function: both first passes lead to the same state
      obtain rfl : _ = _ := by simpa using steps.symm.trans steps'
      exact ih rest'

/-- The first pass of a finishing loop that goes on. -/
theorem Finishes.of_step (h : Finishes body s t) (steps : body s = .ok (.inl s')) :
    Finishes body s' t := by
  cases h with
  | exit exits => simp [steps] at exits
  | step steps' rest =>
    obtain rfl : _ = _ := by simpa using steps.symm.trans steps'
    exact rest

theorem finishes_iff_of_step (steps : body s = .ok (.inl s')) :
    Finishes body s t ↔ Finishes body s' t :=
  ⟨fun h => h.of_step steps, .step steps⟩

theorem finishes_iff_of_exit (exits : body s = .ok (.inr t)) : Finishes body s t' ↔ t' = t := by
  constructor
  · intro h
    exact h.unique (.exit exits)
  · rintro rfl
    exact .exit exits

/-- Two states from which the loop makes the same first pass end alike. -/
theorem finishes_congr (same : body s = body s') : Finishes body s t ↔ Finishes body s' t := by
  constructor <;> intro h
  · cases h with
    | exit exits => exact .exit (same.symm.trans exits)
    | step steps rest => exact .step (same.symm.trans steps) rest
  · cases h with
    | exit exits => exact .exit (same.trans exits)
    | step steps rest => exact .step (same.trans steps) rest

/-- **Invariant rule.** What every pass keeps, and what an exit makes of it, holds at the end. -/
theorem Finishes.invariant (h : Finishes body s t) (inv : σ → Prop) (post : τ → Prop)
    (start : inv s) (keeps : ∀ s s', inv s → body s = .ok (.inl s') → inv s')
    (exits : ∀ s t, inv s → body s = .ok (.inr t) → post t) : post t := by
  induction h with
  | exit leaves => exact exits _ _ start leaves
  | step steps _ ih => exact ih (keeps _ _ start steps)

/-- **Total correctness rule.** A loop whose passes never fail under an invariant, decrease a
measure and leave only with what is wanted finishes with it. -/
theorem exists_finishes_post (inv : σ → Prop) (post : τ → Prop) (measure : σ → ℕ)
    (progress : ∀ s, inv s → (∃ t, body s = .ok (.inr t) ∧ post t) ∨
      ∃ s', body s = .ok (.inl s') ∧ inv s' ∧ measure s' < measure s)
    (start : inv s) : ∃ t, Finishes body s t ∧ post t := by
  -- each pass that goes on is at a smaller measure
  induction h : measure s using Nat.strong_induction_on generalizing s with
  | _ n ih =>
    rcases progress s start with ⟨t, exits, wanted⟩ | ⟨s', steps, kept, less⟩
    · exact ⟨t, .exit exits, wanted⟩
    · obtain ⟨t, rest, wanted⟩ := ih _ (h ▸ less) kept rfl
      exact ⟨t, .step steps rest, wanted⟩

/-- **Variant rule.** A loop whose passes never fail under an invariant and decrease a measure
finishes. -/
theorem exists_finishes (inv : σ → Prop) (measure : σ → ℕ)
    (progress : ∀ s, inv s → (∃ t, body s = .ok (.inr t)) ∨
      ∃ s', body s = .ok (.inl s') ∧ inv s' ∧ measure s' < measure s)
    (start : inv s) : ∃ t, Finishes body s t := by
  obtain ⟨t, finishes, -⟩ := exists_finishes_post inv (fun _ => True) measure
    (fun s kept => (progress s kept).imp_left fun ⟨t, exits⟩ => ⟨t, exits, trivial⟩) start
  exact ⟨t, finishes⟩

/-- **Variant rule with a bound.** Such a loop ends within as many passes as the measure allows. -/
theorem exists_runLoop_of_variant (inv : σ → Prop) (measure : σ → ℕ)
    (progress : ∀ s, inv s → (∃ t, body s = .ok (.inr t)) ∨
      ∃ s', body s = .ok (.inl s') ∧ inv s' ∧ measure s' < measure s)
    {fuel : ℕ} (start : inv s) (enough : measure s < fuel) :
    ∃ t, runLoop body fuel s = some (.ok t) := by
  induction fuel generalizing s with
  | zero => exact absurd enough (Nat.not_lt_zero _)
  | succ fuel ih =>
    rcases progress s start with ⟨t, exits⟩ | ⟨s', steps, kept, less⟩
    · exact ⟨t, by simp [runLoop, exits]⟩
    · obtain ⟨t, rest⟩ := ih kept (by omega)
      exact ⟨t, by simp [runLoop, steps, rest]⟩

/-! ### The passes of a loop -/

/-- Some passes lead from one state to the other. -/
inductive Passes (body : LoopBody ε σ τ) : σ → σ → Prop
  | refl {s : σ} : Passes body s s
  | step {s s' s'' : σ} : body s = .ok (.inl s') → Passes body s' s'' → Passes body s s''

theorem Passes.invariant (h : Passes body s s') (inv : σ → Prop) (start : inv s)
    (keeps : ∀ s s', inv s → body s = .ok (.inl s') → inv s') : inv s' := by
  induction h with
  | refl => exact start
  | step steps _ ih => exact ih (keeps _ _ start steps)

theorem Finishes.of_passes (h : Finishes body s t) (passes : Passes body s s') :
    Finishes body s' t := by
  induction passes with
  | refl => exact h
  | step steps _ ih => exact ih (h.of_step steps)

theorem Passes.trans {s'' : σ} (first : Passes body s s') (second : Passes body s' s'') :
    Passes body s s'' := by
  induction first with
  | refl => exact second
  | step steps _ ih => exact .step steps (ih second)

theorem Passes.single (steps : body s = .ok (.inl s')) : Passes body s s' := .step steps .refl

theorem Passes.finishes (passes : Passes body s s') (h : Finishes body s' t) :
    Finishes body s t := by
  induction passes with
  | refl => exact h
  | step steps _ ih => exact .step steps (ih h)

/-- No pass of a loop that finishes fails. -/
theorem Finishes.ne_error (h : Finishes body s t) (passes : Passes body s s') (failure : ε) :
    body s' ≠ .error failure := by
  intro fails
  cases h.of_passes passes with
  | exit exits => simp [fails] at exits
  | step steps _ => simp [fails] at steps

/-! ### Simulation -/

/-- Two passes that both fail, both go on with related states, or both leave with related
results. -/
inductive SameOutcome {σ' τ' : Type*} (R : σ → σ' → Prop) (Q : τ → τ' → Prop) :
    Except ε (σ ⊕ τ) → Except ε (σ' ⊕ τ') → Prop
  | fails {e e' : ε} : SameOutcome R Q (.error e) (.error e')
  | goesOn {s : σ} {s' : σ'} : R s s' → SameOutcome R Q (.ok (.inl s)) (.ok (.inl s'))
  | leaves {t : τ} {t' : τ'} : Q t t' → SameOutcome R Q (.ok (.inr t)) (.ok (.inr t'))

/-- **Simulation rule.** Of two loops whose passes lead from related states to related outcomes, one
finishes if and only if the other does, and with a related result. -/
theorem finishes_of_simulation {σ' τ' : Type*} {body' : LoopBody ε σ' τ'} {R : σ → σ' → Prop}
    {Q : τ → τ' → Prop} {u : σ'} (same : ∀ s u, R s u → SameOutcome R Q (body s) (body' u))
    (start : R s u) :
    (∀ t, Finishes body s t → ∃ t', Finishes body' u t' ∧ Q t t') ∧
      ∀ t', Finishes body' u t' → ∃ t, Finishes body s t ∧ Q t t' := by
  constructor
  -- by induction on the passes of the one loop, the other one keeping pace
  · intro t finishes
    induction finishes generalizing u with
    | @exit s t exits =>
      have outcome := same s u start
      rw [exits] at outcome
      generalize outcome' : body' u = o at outcome
      cases outcome with
      | leaves related => exact ⟨_, .exit outcome', related⟩
    | @step s s' t steps _ ih =>
      have outcome := same s u start
      rw [steps] at outcome
      generalize outcome' : body' u = o at outcome
      cases outcome with
      | goesOn related =>
        obtain ⟨t', finishes', related'⟩ := ih related
        exact ⟨t', .step outcome' finishes', related'⟩
  · intro t' finishes
    induction finishes generalizing s with
    | @exit u t' exits =>
      have outcome := same s u start
      rw [exits] at outcome
      generalize outcome' : body s = o at outcome
      cases outcome with
      | leaves related => exact ⟨_, .exit outcome', related⟩
    | @step u u' t' steps _ ih =>
      have outcome := same s u start
      rw [steps] at outcome
      generalize outcome' : body s = o at outcome
      cases outcome with
      | goesOn related =>
        obtain ⟨t, finishes', related'⟩ := ih related
        exact ⟨t, .step outcome' finishes', related'⟩

end Semantics
