import Mathlib.Logic.Relation

/-!
# Runs of labelled transition systems

A transition function refuses an action by returning `none`. `run` performs a list of actions,
`Along` says that a condition on the state and the action holds at every step of it, and the
invariant rule carries a step lemma under such a condition to whole runs.
-/

set_option autoImplicit false

namespace Semantics

variable {σ α : Type*} {step : σ → α → Option σ} {cond cond' : σ → α → Prop}
  {s t u : σ} {a : α} {actions : List α}

/-- Perform the actions in order; `none` as soon as one is refused. -/
def run (step : σ → α → Option σ) : σ → List α → Option σ
  | s, [] => some s
  | s, a :: actions => (step s a).bind fun s' => run step s' actions

/-- The condition holds of the state before every action of the run. -/
def Along (step : σ → α → Option σ) (cond : σ → α → Prop) : σ → List α → Prop
  | _, [] => True
  | s, a :: actions => cond s a ∧ ∀ s', step s a = some s' → Along step cond s' actions

@[simp] theorem run_nil : run step s [] = some s := rfl

@[simp] theorem along_nil : Along step cond s [] := trivial

theorem run_cons_eq_some :
    run step s (a :: actions) = some t ↔
      ∃ s', step s a = some s' ∧ run step s' actions = some t := by
  simp [run, Option.bind_eq_some_iff]

theorem run_concat_eq_some :
    run step s (actions ++ [a]) = some u ↔
      ∃ t, run step s actions = some t ∧ step t a = some u := by
  induction actions generalizing s with
  | nil => simp [run]
  | cons b actions ih =>
    simp only [List.cons_append, run_cons_eq_some, ih]
    constructor
    · rintro ⟨s', first, t, rest, last⟩
      exact ⟨t, ⟨s', first, rest⟩, last⟩
    · rintro ⟨t, ⟨s', first, rest⟩, last⟩
      exact ⟨s', first, t, rest, last⟩

instance decidableAlong [∀ s a, Decidable (cond s a)] :
    (s : σ) → (actions : List α) → Decidable (Along step cond s actions)
  | _, [] => inferInstanceAs (Decidable True)
  | s, a :: actions =>
    have : Decidable (∀ s', step s a = some s' → Along step cond s' actions) :=
      match step s a with
      | none => .isTrue (by simp)
      | some s' => have := decidableAlong s' actions; decidable_of_iff (Along step cond s' actions)
          (by simp)
    inferInstanceAs (Decidable (_ ∧ _))

theorem Along.cons (here : cond s a) (next : step s a = some t)
    (later : Along step cond t actions) : Along step cond s (a :: actions) :=
  ⟨here, fun _ next' => Option.some.inj (next.symm.trans next') ▸ later⟩

theorem Along.mono (weaker : ∀ s a, cond s a → cond' s a) (h : Along step cond s actions) :
    Along step cond' s actions := by
  induction actions generalizing s with
  | nil => trivial
  | cons a actions ih => exact ⟨weaker _ _ h.1, fun s' next => ih (h.2 s' next)⟩

theorem Along.and (h : Along step cond s actions) (h' : Along step cond' s actions) :
    Along step (fun s a => cond s a ∧ cond' s a) s actions := by
  induction actions generalizing s with
  | nil => trivial
  | cons a actions ih => exact ⟨⟨h.1, h'.1⟩, fun s' next => ih (h.2 s' next) (h'.2 s' next)⟩

/-- **Invariant rule.** What every step meeting the condition keeps holds at the end of every
run all of whose steps meet it. -/
theorem run_invariant (inv : σ → Prop)
    (keeps : ∀ s a s', inv s → cond s a → step s a = some s' → inv s')
    (start : inv s) (meets : Along step cond s actions) (runs : run step s actions = some t) :
    inv t := by
  induction actions generalizing s with
  | nil => simpa using (Option.some.inj runs) ▸ start
  | cons a actions ih =>
    obtain ⟨s', next, rest⟩ := run_cons_eq_some.mp runs
    exact ih (keeps s a s' start meets.1 next) (meets.2 s' next) rest

/-- **Invariant rule with a history.** The invariant may also speak about the actions that have been
performed. -/
theorem run_history_invariant (inv : List α → σ → Prop)
    (keeps : ∀ past s a s', inv past s → cond s a → step s a = some s' → inv (past ++ [a]) s')
    {past : List α} (start : inv past s) (meets : Along step cond s actions)
    (runs : run step s actions = some t) : inv (past ++ actions) t := by
  induction actions generalizing s past with
  | nil => simpa using (Option.some.inj runs) ▸ start
  | cons a actions ih =>
    obtain ⟨s', next, rest⟩ := run_cons_eq_some.mp runs
    -- the action performed moves from the future to the past
    rw [List.append_cons]
    exact ih (keeps past s a s' start meets.1 next) (meets.2 s' next) rest

/-- **Progress rule.** Where the invariant lets every action that meets the condition be performed,
and is kept, a list of such actions runs to its end. -/
theorem run_progress (inv : List α → σ → Prop) {cond : α → Prop}
    (goes : ∀ past s a, inv past s → cond a → ∃ s', step s a = some s' ∧ inv (past ++ [a]) s')
    {past : List α} (start : inv past s) (meets : ∀ a ∈ actions, cond a) :
    ∃ t, run step s actions = some t ∧ inv (past ++ actions) t := by
  induction actions generalizing s past with
  | nil => exact ⟨s, rfl, by simpa using start⟩
  | cons a actions ih =>
    obtain ⟨here, later⟩ := List.forall_mem_cons.mp meets
    obtain ⟨s', next, kept⟩ := goes past s a start here
    obtain ⟨t, runs, holds⟩ := ih kept later
    rw [List.append_cons]
    exact ⟨t, run_cons_eq_some.mpr ⟨s', next, runs⟩, holds⟩

/-- **Exact progress.** Where the invariant lets exactly the actions that meet the condition be
performed, a list of actions runs to its end exactly if they all meet it. -/
theorem exists_run_iff (inv : σ → Prop) {cond : α → Prop}
    (goes : ∀ s a, inv s → cond a → ∃ s', step s a = some s' ∧ inv s')
    (stops : ∀ s a, inv s → ¬ cond a → step s a = none) (start : inv s) :
    (∃ t, run step s actions = some t) ↔ ∀ a ∈ actions, cond a := by
  constructor
  · rintro ⟨t, runs⟩
    induction actions generalizing s with
    | nil => exact fun a member => absurd member List.not_mem_nil
    | cons a actions ih =>
      obtain ⟨s', next, rest⟩ := run_cons_eq_some.mp runs
      have here : cond a := Classical.byContradiction fun unmet =>
        Option.some_ne_none s' (next.symm.trans (stops s a start unmet))
      obtain ⟨s'', next', kept⟩ := goes s a start here
      obtain rfl : s'' = s' := Option.some.inj (next'.symm.trans next)
      exact List.forall_mem_cons.mpr ⟨here, ih kept rest⟩
  · intro meets
    obtain ⟨t, runs, -⟩ := @run_progress σ α step s actions (fun _ => inv) cond
      (fun _ s a => goes s a) [] start meets
    exact ⟨t, runs⟩

theorem along_true : Along step (fun _ _ => True) s actions := by
  induction actions generalizing s with
  | nil => trivial
  | cons a actions ih => exact ⟨trivial, fun s' _ => ih⟩

/-- A condition on the actions alone. -/
theorem along_iff_forall_mem {cond : α → Prop} (runs : run step s actions = some t) :
    Along step (fun _ a => cond a) s actions ↔ ∀ a ∈ actions, cond a := by
  induction actions generalizing s with
  | nil => simp
  | cons a actions ih =>
    obtain ⟨s', next, rest⟩ := run_cons_eq_some.mp runs
    have only : (∀ s'', step s a = some s'' → Along step (fun _ a => cond a) s'' actions) ↔
        Along step (fun _ a => cond a) s' actions := by simp [next]
    rw [Along, only, ih rest, List.forall_mem_cons]

/-- What every step meeting the condition keeps holds before each step of such a run. -/
theorem along_invariant (inv : σ → Prop)
    (keeps : ∀ s a s', inv s → cond s a → step s a = some s' → inv s')
    (start : inv s) (meets : Along step cond s actions) :
    Along step (fun s _ => inv s) s actions := by
  induction actions generalizing s with
  | nil => trivial
  | cons a actions ih =>
    exact ⟨start, fun s' next => ih (keeps s a s' start meets.1 next) (meets.2 s' next)⟩

/-- Where an invariant holds, two conditions that agree there hold along the same runs, if the steps
that meet them keep it. -/
theorem along_congr (inv : σ → Prop) (agree : ∀ s a, inv s → (cond s a ↔ cond' s a))
    (keeps : ∀ s a s', inv s → cond s a → step s a = some s' → inv s') (start : inv s) :
    Along step cond s actions ↔ Along step cond' s actions := by
  constructor
  · intro meets
    exact ((along_invariant inv keeps start meets).and meets).mono
      fun s a ⟨holds, meets⟩ => (agree s a holds).mp meets
  · intro meets
    have holds := along_invariant inv
      (fun s a s' holds meets next => keeps s a s' holds ((agree s a holds).mpr meets) next)
      start meets
    exact (holds.and meets).mono fun s a ⟨holds, meets⟩ => (agree s a holds).mpr meets

/-- **Exact conditions.** Where every step keeps an invariant exactly if the condition holds, a run
keeps it exactly if the condition holds along it. -/
theorem run_iff_along (inv : σ → Prop) (cond : σ → α → Prop)
    (step_iff : ∀ s a s', step s a = some s' → (inv s' ↔ inv s ∧ cond s a))
    (runs : run step s actions = some t) : inv t ↔ inv s ∧ Along step cond s actions := by
  induction actions generalizing s with
  | nil =>
    obtain rfl : s = t := by simpa using runs
    simp
  | cons a actions ih =>
    obtain ⟨s', next, rest⟩ := run_cons_eq_some.mp runs
    -- there is just one next state
    have only : (∀ s'', step s a = some s'' → Along step cond s'' actions) ↔
        Along step cond s' actions := by simp [next]
    rw [ih rest, step_iff s a s' next, Along, only, and_assoc]

/-! ### Properties of every state of a run -/

/-- The property holds of every state that the run goes through, its first and its last ones
included. -/
def Always (step : σ → α → Option σ) (prop : σ → Prop) : σ → List α → Prop
  | s, [] => prop s
  | s, a :: actions => prop s ∧ ∀ s', step s a = some s' → Always step prop s' actions

theorem always_iff {prop : σ → Prop} : Always step prop s actions ↔
    ∀ past later t, actions = past ++ later → run step s past = some t → prop t := by
  induction actions generalizing s with
  | nil =>
    constructor
    · rintro holds past later t split runs
      obtain ⟨rfl, -⟩ := List.append_eq_nil_iff.mp split.symm
      exact Option.some.inj runs ▸ holds
    · exact fun holds => holds [] [] s rfl rfl
  | cons a actions ih =>
    constructor
    · rintro ⟨here, next⟩ past later t split runs
      cases past with
      | nil => exact Option.some.inj runs ▸ here
      | cons b past =>
        obtain ⟨rfl, rfl⟩ := List.cons.inj split
        obtain ⟨s', first, rest⟩ := run_cons_eq_some.mp runs
        exact ih.mp (next s' first) past later t rfl rest
    · intro holds
      refine ⟨holds [] _ s rfl rfl, fun s' first => ih.mpr fun past later t split runs => ?_⟩
      exact holds (a :: past) later t (by rw [split, List.cons_append])
        (run_cons_eq_some.mpr ⟨s', first, runs⟩)

/-- **Exact conditions for every state.** Suppose that, as long as the invariant holds, the property
holds of the next state exactly if the step meets the condition, and such a step keeps the
invariant. Then the property holds all the way exactly if all steps meet the condition, as actions
that are refused do. Both may rest on what is known of the actions. -/
theorem always_iff_along_of_refused (inv prop : σ → Prop) (known cond : σ → α → Prop)
    (step_iff : ∀ s a s', inv s → known s a → step s a = some s' → (prop s' ↔ cond s a))
    (keeps : ∀ s a s', inv s → known s a → cond s a → step s a = some s' → inv s')
    (refused : ∀ s a, inv s → known s a → step s a = none → cond s a)
    (start : inv s) (here : prop s) (knows : Along step known s actions) :
    Always step prop s actions ↔ Along step cond s actions := by
  induction actions generalizing s with
  | nil => exact iff_of_true here trivial
  | cons a actions ih =>
    obtain ⟨knows, known'⟩ := knows
    rw [Always, Along, and_iff_right here]
    cases next : step s a with
    | none => exact iff_of_true nofun ⟨refused s a start knows next, nofun⟩
    | some s' =>
      -- there is just one next state
      have only : ∀ p : σ → Prop, (∀ s'', some s' = some s'' → p s'') ↔ p s' := by simp
      rw [only, only]
      constructor
      · intro holds
        have first : prop s' := by
          cases actions with
          | nil => exact holds
          | cons b actions => exact holds.1
        have meets := (step_iff s a s' start knows next).mp first
        exact ⟨meets, (ih (keeps s a s' start knows meets next) first (known' s' next)).mp holds⟩
      · rintro ⟨meets, later⟩
        have first := (step_iff s a s' start knows next).mpr meets
        exact (ih (keeps s a s' start knows meets next) first (known' s' next)).mpr later

/-- No action of a run that gets to its end is refused. -/
theorem along_ne_none (runs : run step s actions = some t) :
    Along step (fun s a => step s a ≠ none) s actions := by
  induction actions generalizing s with
  | nil => trivial
  | cons a actions ih =>
    obtain ⟨s', next, rest⟩ := run_cons_eq_some.mp runs
    exact .cons (by simp [next]) next (ih rest)

/-- **Exact conditions for every state** of a run that gets to its end. -/
theorem always_iff_along (inv prop : σ → Prop) (known cond : σ → α → Prop)
    (step_iff : ∀ s a s', inv s → known s a → step s a = some s' → (prop s' ↔ cond s a))
    (keeps : ∀ s a s', inv s → known s a → cond s a → step s a = some s' → inv s')
    (start : inv s) (here : prop s) (knows : Along step known s actions)
    (runs : run step s actions = some t) :
    Always step prop s actions ↔ Along step cond s actions :=
  always_iff_along_of_refused inv prop (fun s a => known s a ∧ step s a ≠ none) cond
    (fun s a s' holds known => step_iff s a s' holds known.1)
    (fun s a s' holds known => keeps s a s' holds known.1)
    (fun _ _ _ known refuses => absurd refuses known.2) start here (knows.and (along_ne_none runs))

/-- The condition holds before every action that the run gets to. -/
theorem along_iff : Along step cond s actions ↔
    ∀ past a later t, actions = past ++ a :: later → run step s past = some t → cond t a := by
  induction actions generalizing s with
  | nil => simp
  | cons a actions ih =>
    constructor
    · rintro ⟨here, next⟩ past b later t split runs
      cases past with
      | nil =>
        obtain ⟨rfl, rfl⟩ := List.cons.inj split
        exact Option.some.inj runs ▸ here
      | cons c past =>
        obtain ⟨rfl, rfl⟩ := List.cons.inj split
        obtain ⟨s', first, rest⟩ := run_cons_eq_some.mp runs
        exact ih.mp (next s' first) past b later t rfl rest
    · intro holds
      refine ⟨holds [] a actions s rfl rfl, fun s' first => ih.mpr ?_⟩
      intro past b later t split runs
      exact holds (a :: past) b later t (by rw [split, List.cons_append])
        (run_cons_eq_some.mpr ⟨s', first, runs⟩)

end Semantics
