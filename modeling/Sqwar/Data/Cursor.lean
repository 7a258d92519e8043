import Mathlib.Order.Lattice
import Mathlib.Order.Nat
import Mathlib.Tactic.Common

/-!
# Cursors into a timeline

A cursor into a sorted list of times moves on while the entry behind it is due. Started at a due
entry, or at the front, it stops at the last entry that is due. Two lists move a cursor alike
exactly when the comparisons it makes come out alike.
-/

set_option autoImplicit false

namespace Data

variable {T : Type*} [LinearOrder T]

/-- Move a cursor at `idx` on while the next of the entries behind it is due. -/
def seekFrom (now : T) : ℕ → List T → ℕ
  | idx, [] => idx
  | idx, time :: behind => if time ≤ now then seekFrom now (idx + 1) behind else idx

/-- The loop `while (idx < size - 1 && times[idx + 1] <= now) idx++`. -/
def seek (times : List T) (now : T) (idx : ℕ) : ℕ := seekFrom now idx (times.drop (idx + 1))

/-- The index is in range, and its entry is due unless it is the first. -/
structure IsCursor (times : List T) (now : T) (idx : ℕ) : Prop where
  lt_length : idx < times.length
  due : idx = 0 ∨ ∃ time, times[idx]? = some time ∧ time ≤ now

/-- The greatest index with an entry that is due, or 0 when there is none. -/
structure LastDue (times : List T) (now : T) (idx : ℕ) : Prop extends IsCursor times now idx where
  latest : ∀ j time, times[j]? = some time → time ≤ now → j ≤ idx

/-- The comparisons a cursor makes in two lists come out alike. -/
def ComparesAlike (now : T) : List T → List T → Prop
  | time :: behind, time' :: behind' =>
    (time ≤ now ↔ time' ≤ now) ∧ (time ≤ now → ComparesAlike now behind behind')
  | _, _ => True

variable {times times' : List T} {now later : T} {idx idx' : ℕ}

theorem IsCursor.mono (cursor : IsCursor times now idx) (le : now ≤ later) :
    IsCursor times later idx :=
  ⟨cursor.lt_length, cursor.due.imp_right fun ⟨time, entry, due⟩ => ⟨time, entry, due.trans le⟩⟩

theorem isCursor_zero (nonempty : times ≠ []) (now : T) : IsCursor times now 0 :=
  ⟨List.length_pos_iff.mpr nonempty, .inl rfl⟩

theorem LastDue.unique (h : LastDue times now idx) (h' : LastDue times now idx') : idx = idx' := by
  have le : ∀ {i j}, LastDue times now i → LastDue times now j → i ≤ j := by
    intro i j first second
    rcases first.due with rfl | ⟨time, entry, due⟩
    · exact Nat.zero_le j
    · exact second.latest i time entry due
  exact (le h h').antisymm (le h' h)

theorem le_seekFrom (now : T) (idx : ℕ) (behind : List T) : idx ≤ seekFrom now idx behind := by
  induction behind generalizing idx with
  | nil => exact le_rfl
  | cons time behind ih =>
    rw [seekFrom]
    split_ifs
    · exact (Nat.le_succ idx).trans (ih (idx + 1))
    · exact le_rfl

theorem seekFrom_le (now : T) (idx : ℕ) (behind : List T) :
    seekFrom now idx behind ≤ idx + behind.length := by
  induction behind generalizing idx with
  | nil => exact le_rfl
  | cons time behind ih =>
    rw [seekFrom, List.length_cons]
    split_ifs
    · have := ih (idx + 1)
      omega
    · omega

/-- A cursor stays within the list. -/
theorem seek_lt_length (now : T) (inside : idx < times.length) :
    seek times now idx < times.length := by
  have := seekFrom_le now idx (times.drop (idx + 1))
  rw [List.length_drop] at this
  rw [seek]
  omega

/-- The entry a cursor reaches is due, and the one behind it is not. -/
theorem seekFrom_spec {behind : List T} (suffix : times.drop (idx + 1) = behind)
    (cursor : IsCursor times now idx) :
    IsCursor times now (seekFrom now idx behind) ∧
      ∀ time, times[seekFrom now idx behind + 1]? = some time → now < time := by
  induction behind generalizing idx with
  | nil =>
    refine ⟨cursor, fun time next => ?_⟩
    have beyond := List.drop_eq_nil_iff.mp suffix
    rw [seekFrom, List.getElem?_eq_none beyond] at next
    simp at next
  | cons time behind ih =>
    have here : times[idx + 1]? = some time := by
      rw [← List.head?_drop, suffix, List.head?_cons]
    have rest : times.drop (idx + 1 + 1) = behind := by
      rw [← List.drop_drop, suffix, List.drop_one, List.tail_cons]
    rw [seekFrom]
    split_ifs with due
    · have inside := (List.getElem?_eq_some_iff.mp here).1
      exact ih rest ⟨inside, .inr ⟨time, here, due⟩⟩
    · refine ⟨cursor, fun next entry => ?_⟩
      obtain rfl : time = next := Option.some.inj (here.symm.trans entry)
      exact not_le.mp due

/-- **The cursor finds the last due entry.** -/
theorem seek_lastDue (sorted : times.Pairwise (· ≤ ·)) (cursor : IsCursor times now idx) :
    LastDue times now (seek times now idx) := by
  obtain ⟨reached, stopped⟩ := seekFrom_spec rfl cursor
  refine ⟨reached, fun j time entry due => ?_⟩
  by_contra beyond
  rw [not_le] at beyond
  -- the entry the cursor stopped at is no later than `j`'s, so it would be due as well
  obtain ⟨inside, rfl⟩ := List.getElem?_eq_some_iff.mp entry
  have next : seek times now idx + 1 < times.length := lt_of_le_of_lt beyond inside
  have late := stopped _ (List.getElem?_eq_getElem next)
  have ordered : times[seek times now idx + 1] ≤ times[j] := by
    rcases Nat.eq_or_lt_of_le beyond with same | less
    · exact le_of_eq (by congr 1)
    · exact List.pairwise_iff_getElem.mp sorted _ _ next inside less
  exact absurd (ordered.trans due) (not_le.mpr late)

/-- A cursor moves alike in two lists exactly when its comparisons come out alike. -/
theorem seekFrom_eq_iff {behind behind' : List T} (length : behind.length = behind'.length) :
    seekFrom now idx behind = seekFrom now idx behind' ↔ ComparesAlike now behind behind' := by
  induction behind generalizing idx behind' with
  | nil =>
    obtain rfl := List.length_eq_zero_iff.mp length.symm
    exact iff_of_true rfl trivial
  | cons time behind ih =>
    obtain ⟨time', behind', rfl⟩ := List.exists_cons_of_length_eq_add_one length.symm
    have tails : behind.length = behind'.length := by simpa using length
    have past := le_seekFrom now (idx + 1) behind
    have past' := le_seekFrom now (idx + 1) behind'
    rw [seekFrom, seekFrom, ComparesAlike]
    by_cases due : time ≤ now <;> by_cases due' : time' ≤ now
    · simpa [due, due'] using ih tails
    · -- one cursor moves on, the other stays
      rw [if_pos due, if_neg due']
      exact iff_of_false (by omega) fun alike => due' (alike.1.mp due)
    · rw [if_neg due, if_pos due']
      exact iff_of_false (by omega) fun alike => due (alike.1.mpr due')
    · simp [due, due']

theorem seek_congr (length : times.length = times'.length)
    (alike : ComparesAlike now (times.drop (idx + 1)) (times'.drop (idx + 1))) :
    seek times now idx = seek times' now idx :=
  (seekFrom_eq_iff (by rw [List.length_drop, List.length_drop, length])).mpr alike

theorem comparesAlike_refl (now : T) (behind : List T) : ComparesAlike now behind behind := by
  induction behind with
  | nil => trivial
  | cons time behind ih => exact ⟨Iff.rfl, fun _ => ih⟩

end Data
