import Mathlib.Order.Basic
import Sqwar.Data.LittleEndian

/-!
# What is known of a buffer

A buffer is filled from the front, and what lies behind is whatever it held before. A place may be
left open and filled later. What has been written so far is known and stays.
-/

set_option autoImplicit false

namespace Data

variable {α : Type*}

/-- The values that are known, by their positions. -/
abbrev Known (α : Type*) := ℕ → Option α

namespace Known

/-- The known values are those of a buffer, among the first of it. -/
def Holds (m : Known α) (buffer : List α) (size : ℕ) : Prop :=
  ∀ i value, m i = some value → buffer[i]? = some value ∧ i < size

/-- These values are known, from a position on. -/
def At (m : Known α) (start : ℕ) (values : List α) : Prop :=
  ∀ i value, values[i]? = some value → m (start + i) = some value

/-- What is known is still known. -/
def Le (m m' : Known α) : Prop := ∀ i value, m i = some value → m' i = some value

/-- Nothing is known of some places. -/
def Open (m : Known α) (start count : ℕ) : Prop := ∀ i, start ≤ i → i < start + count → m i = none

/-- Nothing is known from a position on. -/
def Fresh (m : Known α) (start : ℕ) : Prop := ∀ i, start ≤ i → m i = none

/-- Values that are written become known. -/
def put (m : Known α) (start : ℕ) (values : List α) : Known α := fun i =>
  if start ≤ i ∧ i < start + values.length then values[i - start]? else m i

variable {m m' m'' : Known α} {buffer : List α} {size start count : ℕ} {values values' : List α}

theorem Le.refl (m : Known α) : Le m m := fun _ _ known => known

theorem Le.trans (h : Le m m') (h' : Le m' m'') : Le m m'' :=
  fun i value known => h' i value (h i value known)

theorem At.mono (h : At m start values) (le : Le m m') : At m' start values :=
  fun i value found => le _ _ (h i value found)

theorem at_append : At m start (values ++ values') ↔
    At m start values ∧ At m (start + values.length) values' := by
  constructor
  · refine fun h => ⟨fun i value found => h i value ?_, fun i value found => ?_⟩
    · rwa [List.getElem?_append_left (List.getElem?_eq_some_iff.mp found).1]
    · rw [Nat.add_assoc]
      refine h _ _ ?_
      rwa [List.getElem?_append_right (Nat.le_add_right _ _), Nat.add_sub_cancel_left]
  · rintro ⟨first, second⟩ i value found
    rcases Nat.lt_or_ge i values.length with before | behind
    · exact first i value (by rwa [List.getElem?_append_left before] at found)
    · rw [List.getElem?_append_right behind] at found
      have known := second _ _ found
      rwa [Nat.add_assoc, Nat.add_sub_of_le behind] at known

theorem at_cons {value : α} : At m start (value :: values) ↔
    m start = some value ∧ At m (start + 1) values := by
  rw [← List.singleton_append, at_append]
  refine and_congr_left' ⟨fun h => h 0 value rfl, fun known i value' found => ?_⟩
  obtain ⟨rfl, rfl⟩ : i = 0 ∧ value = value' := by
    cases i <;> simp_all
  exact known

@[simp] theorem at_nil : At m start [] := fun i value found => absurd found (by simp)

theorem at_put (m : Known α) (start : ℕ) (values : List α) :
    At (m.put start values) start values := by
  intro i value found
  have inside := (List.getElem?_eq_some_iff.mp found).1
  rw [put, if_pos ⟨Nat.le_add_right _ _, Nat.add_lt_add_left inside _⟩, Nat.add_sub_cancel_left,
    found]

/-- Writing where nothing is known. -/
theorem le_put (isOpen : Open m start values.length) : Le m (m.put start values) := by
  intro i value known
  rw [put, if_neg]
  · exact known
  · rintro ⟨after, before⟩
    rw [isOpen i after before] at known
    cases known

theorem Fresh.isOpen (fresh : Fresh m start) (count : ℕ) : Open m start count :=
  fun i after _ => fresh i after

theorem Fresh.put (fresh : Fresh m start) (values : List α) :
    Fresh (m.put start values) (start + values.length) := by
  intro i after
  rw [Known.put, if_neg (by omega)]
  exact fresh i (by omega)

theorem Fresh.mono (fresh : Fresh m start) {start' : ℕ} (le : start ≤ start') : Fresh m start' :=
  fun i after => fresh i (le.trans after)

/-- Filling a place in front. -/
theorem Fresh.put_before (fresh : Fresh m start) {place : ℕ}
    (before : place + values.length ≤ start) : Fresh (m.put place values) start := by
  intro i after
  rw [Known.put, if_neg (by omega)]
  exact fresh i after

theorem Open.put (isOpen : Open m start count) {place : ℕ} (behind : start + count ≤ place) :
    Open (m.put place values) start count := by
  intro i after before
  rw [Known.put, if_neg (by omega)]
  exact isOpen i after before

theorem getElem?_overwrite (fits : start + values.length ≤ buffer.length) (i : ℕ) :
    (overwrite buffer start values)[i]? =
      if start ≤ i ∧ i < start + values.length then values[i - start]? else buffer[i]? := by
  have front : (buffer.take start).length = start := List.length_take_of_le (by omega)
  rw [overwrite]
  split_ifs with here
  · rw [List.getElem?_append_left (by rw [List.length_append, front]; exact here.2),
      List.getElem?_append_right (front.trans_le here.1), front]
  · rcases Nat.lt_or_ge i start with before | after
    · rw [List.append_assoc, List.getElem?_append_left (before.trans_eq front.symm),
        List.getElem?_take_of_lt before]
    · have behind : start + values.length ≤ i := by omega
      rw [List.getElem?_append_right (by rw [List.length_append, front]; exact behind),
        List.length_append, front, List.getElem?_drop, Nat.add_sub_of_le behind]

/-- A store keeps what is known, and adds to it. -/
theorem Holds.overwrite (holds : Holds m buffer size) (fits : start + values.length ≤ size)
    (inside : size ≤ buffer.length) :
    Holds (m.put start values) (Data.overwrite buffer start values) size := by
  intro i value known
  rw [getElem?_overwrite (fits.trans inside)]
  rw [put] at known
  split_ifs at known ⊢ with here
  · exact ⟨known, by omega⟩
  · exact holds i value known

/-- Known values are in the buffer. -/
theorem At.take_drop (known : At m start values) (holds : Holds m buffer size) :
    (buffer.drop start).take values.length = values := by
  refine List.ext_getElem? fun i => ?_
  rcases Nat.lt_or_ge i values.length with inside | outside
  · rw [List.getElem?_take_of_lt inside, List.getElem?_drop]
    exact (holds _ _ (known i values[i] (List.getElem?_eq_getElem inside))).1.trans
      (List.getElem?_eq_getElem inside).symm
  · rw [List.getElem?_eq_none (by simp only [List.length_take]; omega),
      List.getElem?_eq_none outside]

theorem At.end_le (known : At m start values) (holds : Holds m buffer size) (some : values ≠ []) :
    start + values.length ≤ size ∧ start + values.length ≤ buffer.length := by
  have positive := List.length_pos_iff.mpr some
  have last : values[values.length - 1]? = Option.some (values[values.length - 1]) :=
    List.getElem?_eq_getElem (by omega)
  obtain ⟨found, less⟩ := holds _ _ (known _ _ last)
  have less' := (List.getElem?_eq_some_iff.mp found).1
  omega

theorem At.take (known : At m start values) (count : ℕ) : At m start (values.take count) := by
  intro i value found
  refine known i value ?_
  rcases Nat.lt_or_ge i count with inside | outside
  · rwa [List.getElem?_take_of_lt inside] at found
  · rw [List.getElem?_eq_none (by simp only [List.length_take]; omega)] at found
    cases found

end Known

end Data
