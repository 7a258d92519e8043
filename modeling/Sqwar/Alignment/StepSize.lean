import Mathlib.Data.Nat.Log
import Mathlib.Tactic.Linarith
import Sqwar.Core.StdVector
import Sqwar.Data.MachineInt
import Sqwar.Semantics.Loop
import Sqwar.Semantics.Run

/-!
# The step size of the alignment

`AlignStep` samples the second cloud at a step size that starts at a tenth of the first cloud, and
halves it whenever a step made the score worse. It returns 2 when the step size divided the first
cloud into more than a hundred steps; a smaller cloud can get to the step size zero before that.
-/

set_option autoImplicit false

namespace Sqwar.Alignment

open Data Semantics

/-- `sizeof(Point3v)`. -/
def sizeofPoint3v : ℕ := 12

/-- The sizes of two clouds with points. -/
structure Clouds where
  size0 : ℕ
  size1 : ℕ
  pos0 : 0 < size0
  pos1 : 0 < size1
  fits0 : size0 * sizeofPoint3v ≤ vectorMaxSize
  fits1 : size1 * sizeofPoint3v ≤ vectorMaxSize
  deriving DecidableEq

/-- The step size that a call works with: the first one sets it. -/
def started (size0 : ℕ) (curstepsize : ℤ) : ℤ :=
  if curstepsize < 0 then wrap32 (size0 / 10 : ℕ) else curstepsize

/-- The conversion of an `int` to `size_t`. -/
def toSizeT (z : ℤ) : ℕ := (z % 2 ^ 64).toNat

/-- A pass of the loop over `m_pts1`; the indices that were visited are collected. -/
def samplingPass (size1 : ℕ) (curstepsize : ℤ) : LoopBody Empty (ℕ × List ℕ) (List ℕ) :=
  fun (idx, visited) =>
    if idx < size1 then .ok (.inl ((idx + toSizeT curstepsize) % 2 ^ 64, visited ++ [idx]))
    else .ok (.inr visited)

/-- The loop over `m_pts1`. It ends after one pass for each point, or never. -/
def sampled (size1 : ℕ) (curstepsize : ℤ) : Option (List ℕ) :=
  match runLoop (samplingPass size1 curstepsize) (size1 + 1) (0, []) with
  | some (.ok visited) => some visited
  | _ => none

/-- `nsteps`. -/
def stepCount (size0 : ℕ) (curstepsize : ℤ) : ℤ := wrap32 (size0 / toSizeT curstepsize : ℕ)

/-- The step size and the result after a step that made the score worse. -/
def rejection (size0 : ℕ) (curstepsize : ℤ) : Option (ℤ × ℤ) :=
  if curstepsize = 0 then none
  else
    let nsteps := stepCount size0 curstepsize
    some (curstepsize.tdiv 2, if nsteps > 100 then 2 else 1)

namespace Clouds

/-- What `AlignStep` does to the step size, and its result, if the outcome of the step is given. -/
def alignStep (clouds : Clouds) (curstepsize : ℤ) (rejected : Bool) : Option (ℤ × ℤ) := do
  let curstepsize := started clouds.size0 curstepsize
  let _ ← sampled clouds.size1 curstepsize
  if rejected then rejection clouds.size0 curstepsize else some (curstepsize, 0)

/-- A call after which the caller calls again. -/
def next (clouds : Clouds) (curstepsize : ℤ) (rejected : Bool) : Option ℤ := do
  let (curstepsize, retstg) ← clouds.alignStep curstepsize rejected
  if retstg < 2 then some curstepsize else none

/-- Whatever steps were rejected, the next call works with a positive step size and its loop ends,
and no more than so many steps can be rejected before the last call. -/
structure Progresses (clouds : Clouds) : Prop where
  positive : ∀ outcomes curstepsize, run clouds.next (-1) outcomes = some curstepsize →
    1 ≤ started clouds.size0 curstepsize
  samples : ∀ outcomes curstepsize, run clouds.next (-1) outcomes = some curstepsize →
    ∃ visited, Finishes (samplingPass clouds.size1 (started clouds.size0 curstepsize)) (0, [])
      visited
  stops : ∃ bound, ∀ outcomes curstepsize, run clouds.next (-1) outcomes = some curstepsize →
    outcomes.count true ≤ bound

end Clouds

/-! ### The sampling loop -/

variable {size0 size1 idx : ℕ} {curstepsize : ℤ} {visited : List ℕ}

theorem toSizeT_of_nonneg (positive : 0 ≤ curstepsize) (fits : IsInt32 curstepsize) :
    toSizeT curstepsize = curstepsize.toNat := by
  obtain ⟨-, upper⟩ := fits
  unfold toSizeT
  omega

/-- A step that is not zero gets the loop ahead, a negative one from the first index past the
end. -/
theorem lt_next_index (small : size1 < 2 ^ 63) (fits : IsInt32 curstepsize)
    (nonzero : curstepsize ≠ 0) (start : 0 < curstepsize ∨ idx = 0) (inside : idx < size1) :
    idx < (idx + toSizeT curstepsize) % 2 ^ 64 ∧
      (0 < curstepsize ∨ size1 ≤ (idx + toSizeT curstepsize) % 2 ^ 64) := by
  obtain ⟨lower, upper⟩ := fits
  unfold toSizeT
  omega

theorem samplingPass_eq_inl_iff {s' : ℕ × List ℕ} :
    samplingPass size1 curstepsize (idx, visited) = .ok (.inl s') ↔
      idx < size1 ∧ ((idx + toSizeT curstepsize) % 2 ^ 64, visited ++ [idx]) = s' := by
  by_cases inside : idx < size1 <;> simp [samplingPass, inside]

theorem samplingPass_eq_inr_iff {out : List ℕ} :
    samplingPass size1 curstepsize (idx, visited) = .ok (.inr out) ↔
      size1 ≤ idx ∧ visited = out := by
  by_cases inside : idx < size1
  · simp [samplingPass, inside]
  · simp [samplingPass, inside, Nat.not_lt.mp inside]

theorem finishes_of_sampled (ends : sampled size1 curstepsize = some visited) :
    Finishes (samplingPass size1 curstepsize) (0, []) visited := by
  unfold sampled at ends
  split at ends
  · rename_i run
    exact Option.some.inj ends ▸ finishes_of_runLoop run
  · cases ends

/-- Within the passes allowed, the loop ends if the step size is not zero. -/
theorem exists_sampled (small : size1 < 2 ^ 63) (fits : IsInt32 curstepsize)
    (nonzero : curstepsize ≠ 0) : ∃ visited, sampled size1 curstepsize = some visited := by
  have bounded : ∃ visited,
      runLoop (samplingPass size1 curstepsize) (size1 + 1) (0, []) = some (.ok visited) := by
    refine exists_runLoop_of_variant (fun s => 0 < curstepsize ∨ s.1 = 0 ∨ size1 ≤ s.1)
      (fun s => size1 - s.1) ?_ (.inr (.inl rfl)) (Nat.lt_succ_self _)
    rintro ⟨idx, visited⟩ holds
    by_cases inside : idx < size1
    · have start : 0 < curstepsize ∨ idx = 0 :=
        holds.imp_right fun either => either.resolve_right (Nat.not_le.mpr inside)
      obtain ⟨ahead, kept⟩ := lt_next_index small fits nonzero start inside
      exact .inr ⟨_, samplingPass_eq_inl_iff.mpr ⟨inside, rfl⟩, kept.imp_right .inr,
        by dsimp only; omega⟩
    · exact .inl ⟨visited, samplingPass_eq_inr_iff.mpr ⟨Nat.not_lt.mp inside, rfl⟩⟩
  obtain ⟨visited, run⟩ := bounded
  exact ⟨visited, by simp only [sampled, run]⟩

/-- At the step size zero the loop visits the first point again and again. -/
theorem not_finishes_zero (pos : 0 < size1) :
    ¬ Finishes (samplingPass size1 0) (0, []) visited := by
  intro finishes
  refine finishes.invariant (fun s => s.1 = 0) (fun _ => False) rfl ?_ ?_
  · rintro ⟨idx, visited⟩ s' rfl pass
    obtain ⟨-, rfl⟩ := samplingPass_eq_inl_iff.mp pass
    rfl
  · rintro ⟨idx, visited⟩ t rfl pass
    exact absurd pos (Nat.not_lt.mpr (samplingPass_eq_inr_iff.mp pass).1)

/-- Only points of the cloud are visited. -/
theorem lt_of_mem_sampled (ends : sampled size1 curstepsize = some visited)
    (member : idx ∈ visited) : idx < size1 := by
  have inside : ∀ idx ∈ visited, idx < size1 := by
    refine (finishes_of_sampled ends).invariant (fun s => ∀ idx ∈ s.2, idx < size1)
      (fun t => ∀ idx ∈ t, idx < size1) (by simp) ?_ ?_
    · rintro ⟨idx, visited⟩ s' holds pass
      obtain ⟨here, rfl⟩ := samplingPass_eq_inl_iff.mp pass
      simpa [or_imp, forall_and] using ⟨holds, here⟩
    · rintro ⟨idx, visited⟩ t holds pass
      obtain ⟨-, rfl⟩ := samplingPass_eq_inr_iff.mp pass
      exact holds
  exact inside idx member

/-- The passes allowed decide whether the loop ends. -/
theorem sampled_eq_none_iff (pos : 0 < size1) (small : size1 < 2 ^ 63)
    (fits : IsInt32 curstepsize) : sampled size1 curstepsize = none ↔ curstepsize = 0 := by
  constructor
  · intro endless
    by_contra nonzero
    obtain ⟨visited, ends⟩ := exists_sampled small fits nonzero
    simp [endless] at ends
  · rintro rfl
    by_contra ends
    obtain ⟨visited, ends⟩ := Option.ne_none_iff_exists'.mp ends
    exact not_finishes_zero pos (finishes_of_sampled ends)

/-! ### Calls -/

namespace Clouds

variable {clouds : Clouds} {outcomes : List Bool}

theorem size1_lt (clouds : Clouds) : clouds.size1 < 2 ^ 63 := by
  have fits := clouds.fits1
  unfold sizeofPoint3v vectorMaxSize at fits
  omega

theorem started_of_nonneg (started' : 0 ≤ curstepsize) : started size0 curstepsize = curstepsize :=
  if_neg (not_lt.mpr started')

theorem isInt32_started (fits : IsInt32 curstepsize) : IsInt32 (started size0 curstepsize) := by
  unfold started
  split
  · exact isInt32_wrap32
  · exact fits

theorem next_of_alignStep {rejected : Bool} {s retstg : ℤ}
    (call : clouds.alignStep curstepsize rejected = some (s, retstg)) :
    clouds.next curstepsize rejected = if retstg < 2 then some s else none := by
  rw [next, call]
  rfl

/-- A call with a positive step size returns. -/
theorem alignStep_eq (fits : IsInt32 curstepsize)
    (positive : 1 ≤ started clouds.size0 curstepsize) (rejected : Bool) :
    clouds.alignStep curstepsize rejected =
      if rejected then rejection clouds.size0 (started clouds.size0 curstepsize)
      else some (started clouds.size0 curstepsize, 0) := by
  obtain ⟨visited, ends⟩ := exists_sampled clouds.size1_lt (isInt32_started fits)
    (Int.ne_of_gt positive)
  simp only [alignStep, ends, Option.bind_eq_bind, Option.bind_some]

theorem rejection_eq (positive : 1 ≤ curstepsize) : rejection size0 curstepsize =
    some (curstepsize / 2, if stepCount size0 curstepsize > 100 then 2 else 1) := by
  rw [rejection, if_neg (Int.ne_of_gt positive), Int.tdiv_eq_ediv_of_nonneg (by omega)]

/-- **Step lemma for accepted steps.** -/
theorem next_accepted (fits : IsInt32 curstepsize)
    (positive : 1 ≤ started clouds.size0 curstepsize) :
    clouds.next curstepsize false = some (started clouds.size0 curstepsize) :=
  next_of_alignStep (alignStep_eq fits positive false)

/-- **Step lemma for rejected steps.** -/
theorem next_rejected (fits : IsInt32 curstepsize)
    (positive : 1 ≤ started clouds.size0 curstepsize) :
    clouds.next curstepsize true =
      if stepCount clouds.size0 (started clouds.size0 curstepsize) > 100 then none
      else some (started clouds.size0 curstepsize / 2) := by
  have call := (alignStep_eq fits positive true).trans (rejection_eq positive)
  rw [next_of_alignStep call]
  split <;> simp

/-- The step size after so many rejected steps. -/
def halved (size0 k : ℕ) : ℤ := started size0 (-1) / 2 ^ k

/-- A rejected step after so many others that is the last one. -/
def Settles (size0 k : ℕ) : Prop := 1 ≤ halved size0 k ∧ stepCount size0 (halved size0 k) > 100

@[simp] theorem halved_zero : halved size0 0 = started size0 (-1) := by
  rw [halved, pow_zero, Int.ediv_one]

theorem halved_succ (k : ℕ) : halved size0 (k + 1) = halved size0 k / 2 := by
  rw [halved, halved, pow_succ, Int.ediv_ediv_of_nonneg (by positivity)]

theorem halved_le_halved {i k : ℕ} (positive : 1 ≤ halved size0 k) (le : i ≤ k) :
    1 ≤ halved size0 i := by
  induction k, le using Nat.le_induction with
  | base => exact positive
  | succ k _ ih =>
    rw [halved_succ] at positive
    exact ih (by omega)

/-- What is known after calls with these outcomes: none of the rejections settled. -/
structure After (size0 : ℕ) (outcomes : List Bool) (curstepsize : ℤ) : Prop where
  fits : IsInt32 curstepsize
  started_eq : started size0 curstepsize = halved size0 (outcomes.count true)
  unsettled : ∀ i < outcomes.count true, ¬ Settles size0 i

theorem after_nil : After size0 [] (-1) :=
  ⟨⟨by decide, by decide⟩, halved_zero.symm, fun i less => absurd less (Nat.not_lt_zero i)⟩

/-- Not even the step size of the next call is zero, if some rejection would settle. -/
theorem After.positive {k : ℕ} (after : After size0 outcomes curstepsize)
    (settles : Settles size0 k) :
    outcomes.count true ≤ k ∧ 1 ≤ started size0 curstepsize := by
  have before : outcomes.count true ≤ k := by
    by_contra beyond
    exact after.unsettled k (Nat.not_le.mp beyond) settles
  exact ⟨before, after.started_eq ▸ halved_le_halved settles.1 before⟩

/-- **Step lemma.** -/
theorem After.next {rejected : Bool} {s : ℤ} (after : After clouds.size0 outcomes curstepsize)
    (positive : 1 ≤ started clouds.size0 curstepsize)
    (call : clouds.next curstepsize rejected = some s) :
    After clouds.size0 (outcomes ++ [rejected]) s := by
  have fits : IsInt32 (started clouds.size0 curstepsize) := isInt32_started after.fits
  cases rejected with
  | false =>
    have count : (outcomes ++ [false]).count true = outcomes.count true := by simp
    rw [next_accepted after.fits positive] at call
    obtain rfl := Option.some.inj call
    refine ⟨fits, ?_, count ▸ after.unsettled⟩
    rw [started_of_nonneg (by omega), count, after.started_eq]
  | true =>
    have count : (outcomes ++ [true]).count true = outcomes.count true + 1 := by simp
    rw [next_rejected after.fits positive] at call
    split at call
    · cases call
    · rename_i unsettled
      obtain rfl := Option.some.inj call
      obtain ⟨lower, upper⟩ := fits
      refine ⟨⟨by omega, by omega⟩, ?_, fun i less settles => ?_⟩
      · rw [started_of_nonneg (by omega), count, halved_succ, after.started_eq]
      · rcases Nat.lt_succ_iff_lt_or_eq.mp (count ▸ less) with before | rfl
        · exact after.unsettled i before settles
        · exact unsettled (after.started_eq ▸ settles.2)

/-- **Run lemma.** -/
theorem after_of_run {k : ℕ} (settles : Settles clouds.size0 k)
    (runs : run clouds.next (-1) outcomes = some curstepsize) :
    After clouds.size0 outcomes curstepsize := by
  have holds := run_history_invariant (After clouds.size0)
    (fun past s rejected s' after _ call => after.next (after.positive settles).2 call)
    after_nil along_true runs
  simpa using holds

theorem progresses_of_settles {k : ℕ} (settles : Settles clouds.size0 k) : clouds.Progresses where
  positive outcomes curstepsize runs := ((after_of_run settles runs).positive settles).2
  samples outcomes curstepsize runs := by
    have after := after_of_run settles runs
    obtain ⟨visited, ends⟩ := exists_sampled clouds.size1_lt (isInt32_started after.fits)
      (Int.ne_of_gt (after.positive settles).2)
    exact ⟨visited, finishes_of_sampled ends⟩
  stops := ⟨k, fun outcomes curstepsize runs =>
    ((after_of_run settles runs).positive settles).1⟩

/-- If no rejection settles, steps can be rejected until the step size is zero. -/
theorem run_rejected {k : ℕ} (unsettled : ∀ i < k, ¬ Settles clouds.size0 i)
    (positive : ∀ i < k, 1 ≤ halved clouds.size0 i) :
    ∃ s, run clouds.next (-1) (List.replicate k true) = some s ∧
      After clouds.size0 (List.replicate k true) s := by
  induction k with
  | zero => exact ⟨-1, rfl, after_nil⟩
  | succ k ih =>
    obtain ⟨s, runs, after⟩ := ih (fun i less => unsettled i (by omega))
      (fun i less => positive i (by omega))
    have here : started clouds.size0 s = halved clouds.size0 k := by
      rw [after.started_eq, List.count_replicate_self]
    have positive_here : 1 ≤ started clouds.size0 s := here ▸ positive k (Nat.lt_succ_self k)
    have call := next_rejected after.fits positive_here
    have goes : ¬ stepCount clouds.size0 (started clouds.size0 s) > 100 := fun settles =>
      unsettled k (Nat.lt_succ_self k) ⟨here ▸ positive_here, here ▸ settles⟩
    rw [if_neg goes] at call
    rw [List.replicate_succ']
    exact ⟨_, run_concat_eq_some.mpr ⟨s, runs, call⟩, after.next positive_here call⟩

theorem settles_of_progresses (progresses : clouds.Progresses) : ∃ k, Settles clouds.size0 k := by
  by_contra none
  have unsettled : ∀ i, ¬ Settles clouds.size0 i := not_exists.mp none
  have positive : ∀ k, 1 ≤ halved clouds.size0 k := by
    intro k
    induction k using Nat.strong_induction_on with
    | _ k ih =>
      obtain ⟨s, runs, after⟩ := run_rejected (fun i _ => unsettled i) ih
      have := progresses.positive _ s runs
      rwa [after.started_eq, List.count_replicate_self] at this
  -- but it cannot be halved forever
  have first : 0 ≤ started clouds.size0 (-1) := by
    have := halved_zero ▸ positive 0
    omega
  have zero : halved clouds.size0 (started clouds.size0 (-1)).toNat = 0 := by
    refine Int.ediv_eq_zero_of_lt first ?_
    have less : (started clouds.size0 (-1)).toNat < 2 ^ (started clouds.size0 (-1)).toNat :=
      Nat.lt_two_pow_self
    zify at less
    rwa [Int.toNat_of_nonneg first] at less
  exact absurd (zero ▸ positive _) (by decide)

/-! ### Clouds whose tenth is an `int` -/

theorem halved_of_lt (small : size0 < 10 * 2 ^ 31) (k : ℕ) :
    halved size0 k = (size0 / 10 / 2 ^ k : ℕ) := by
  have fits : IsInt32 (size0 / 10 : ℕ) := isInt32_of_lt (by omega)
  have first : started size0 (-1) = (size0 / 10 : ℕ) := by
    rw [started, if_pos (by decide), wrap32_of_isInt32 fits]
  rw [halved, first]
  push_cast
  rfl

theorem stepCount_of_lt {s : ℕ} (small : s < 2 ^ 31) (fits : size0 / s < 2 ^ 31) :
    stepCount size0 s = (size0 / s : ℕ) := by
  rw [stepCount, toSizeT_of_nonneg (Int.natCast_nonneg s) (isInt32_of_lt small), Int.toNat_natCast,
    wrap32_of_isInt32 (isInt32_of_lt fits)]

/-- The step size one settles if there are more than a hundred points; where their number is not an
`int`, an earlier one does. -/
theorem exists_settles_iff (small : size0 < 10 * 2 ^ 31) :
    (∃ k, Settles size0 k) ↔ 100 < size0 := by
  simp only [Settles, halved_of_lt small]
  constructor
  · rintro ⟨k, positive, many⟩
    by_contra few
    have steps : size0 / (size0 / 10 / 2 ^ k) ≤ size0 := Nat.div_le_self _ _
    have halved_le : size0 / 10 / 2 ^ k ≤ size0 / 10 := Nat.div_le_self _ _
    rw [stepCount_of_lt (by omega) (by omega)] at many
    omega
  · intro many
    by_cases int : size0 < 2 ^ 31
    · have one : size0 / 10 / 2 ^ Nat.log 2 (size0 / 10) = 1 := by
        refine Nat.div_eq_of_lt_le ?_ ?_
        · rw [one_mul]
          exact Nat.pow_log_le_self 2 (by omega)
        · have := Nat.lt_pow_succ_log_self Nat.one_lt_two (size0 / 10)
          rw [Nat.succ_eq_add_one, pow_succ] at this
          omega
      refine ⟨Nat.log 2 (size0 / 10), by omega, ?_⟩
      rw [one, stepCount_of_lt (by decide) (by omega), Nat.div_one]
      exact_mod_cast many
    · have large : 10 ≤ size0 / 10 / 2 ^ 4 := by omega
      have steps : size0 / (size0 / 10 / 2 ^ 4) < 2 ^ 31 :=
        (Nat.div_lt_iff_lt_mul (by omega)).mpr (by omega)
      have enough : 101 ≤ size0 / (size0 / 10 / 2 ^ 4) :=
        (Nat.le_div_iff_mul_le (by omega)).mpr (by omega)
      refine ⟨4, by omega, ?_⟩
      rw [stepCount_of_lt (by omega) steps]
      exact_mod_cast enough

/-- **When the alignment makes progress**: some halved tenth of the first cloud is a positive `int`
that divides it into more than a hundred steps. Where its tenth is an `int`, the cloud must have
more than a hundred points. -/
theorem progresses_iff (clouds : Clouds) :
    (clouds.Progresses ↔ ∃ k, Settles clouds.size0 k) ∧
      (clouds.size0 < 10 * 2 ^ 31 → (clouds.Progresses ↔ 100 < clouds.size0)) := by
  have settles_iff : clouds.Progresses ↔ ∃ k, Settles clouds.size0 k :=
    ⟨settles_of_progresses, fun ⟨_, settles⟩ => progresses_of_settles settles⟩
  exact ⟨settles_iff, fun small => settles_iff.trans (exists_settles_iff small)⟩

/-- Two clouds of nine points. -/
def ninePoints : Clouds := ⟨9, 9, by decide, by decide, by decide, by decide⟩

/-- Two clouds of a hundred points. -/
def hundredPoints : Clouds := ⟨100, 100, by decide, by decide, by decide, by decide⟩

/-- **No progress.** A tenth of nine points is the step size zero, so the first call never returns;
a hundred points get there when four steps are rejected. -/
theorem not_progresses_ninePoints :
    (∀ visited, ¬ Finishes (samplingPass 9 (started 9 (-1))) (0, []) visited) ∧
      ¬ ninePoints.Progresses ∧
      run hundredPoints.next (-1) [true, true, true, true] = some 0 ∧
      ¬ hundredPoints.Progresses := by
  have rejected : run hundredPoints.next (-1) [true, true, true, true] = some 0 := by
    decide +kernel
  refine ⟨fun visited => not_finishes_zero (by decide), fun progresses => ?_, rejected,
    fun progresses => ?_⟩
  · exact absurd (progresses.positive [] (-1) rfl) (by decide)
  · exact absurd (progresses.positive _ 0 rejected) (by decide)

end Clouds

end Sqwar.Alignment
