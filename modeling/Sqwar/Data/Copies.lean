import Mathlib.Algebra.Order.Ring.Int
import Mathlib.Data.Nat.Cast.Basic

/-!
# Copies between buffers

A `memcpy` does not ask how large its buffers are. In front of a buffer, at the negative indices,
and behind it lies what does not belong to it, and a copy that leaves its buffers moves that too.
-/

set_option autoImplicit false

namespace Data

variable {B V : Type*}

/-- What lies in some buffers and around them. -/
abbrev Surroundings (B V : Type*) := B → ℤ → V

/-- A `memcpy`. -/
structure Copy (B : Type*) where
  dst : B
  dstStart : ℤ
  src : B
  srcStart : ℤ
  count : ℕ

namespace Copy

variable (extent : B → ℕ) (copy : Copy B)

/-- The copy reads only inside its source and writes only inside its destination. -/
structure InBounds : Prop where
  readsFrom : 0 ≤ copy.srcStart
  readsTo : copy.srcStart + copy.count ≤ extent copy.src
  writesFrom : 0 ≤ copy.dstStart
  writesTo : copy.dstStart + copy.count ≤ extent copy.dst

/-- How far the copy reads behind its source. -/
def readsPast : ℕ := (copy.srcStart + copy.count - extent copy.src).toNat

/-- How far the copy writes behind its destination. -/
def writesPast : ℕ := (copy.dstStart + copy.count - extent copy.dst).toNat

variable [DecidableEq B]

/-- The index of a buffer is written. -/
def Writes (copy : Copy B) (b : B) (i : ℤ) : Prop :=
  b = copy.dst ∧ copy.dstStart ≤ i ∧ i < copy.dstStart + copy.count

instance (copy : Copy B) (b : B) (i : ℤ) : Decidable (copy.Writes b i) :=
  inferInstanceAs (Decidable (_ ∧ _))

/-- What lies around the buffers after the copy. -/
def run (m : Surroundings B V) (copy : Copy B) : Surroundings B V := fun b i =>
  if copy.Writes b i then m copy.src (copy.srcStart + (i - copy.dstStart)) else m b i

end Copy

/-- Some values are stored at the start of a buffer. -/
def store [DecidableEq B] (m : Surroundings B V) (buffer : B) (values : List V) :
    Surroundings B V := fun b i =>
  if b = buffer ∧ 0 ≤ i then (values[i.toNat]?).getD (m b i) else m b i

theorem store_of_ne [DecidableEq B] (m : Surroundings B V) {buffer b : B} (values : List V)
    (other : b ≠ buffer) : store m buffer values b = m b :=
  funext fun _ => if_neg fun here => other here.1

/-! ### Slices -/

/-- Consecutive values. -/
def slice (values : ℤ → V) (start : ℤ) (count : ℕ) : List V :=
  (List.range count).map fun i : ℕ => values (start + i)

variable {values values' : ℤ → V} {start start' : ℤ} {count : ℕ}

@[simp] theorem slice_length : (slice values start count).length = count := by
  rw [slice, List.length_map, List.length_range]

theorem slice_add (values : ℤ → V) (start : ℤ) (count more : ℕ) :
    slice values start (count + more) =
      slice values start count ++ slice values (start + count) more := by
  simp only [slice, List.range_add, List.map_append, List.map_map, Function.comp_def,
    Nat.cast_add, add_assoc]

theorem slice_congr (same : ∀ i < count, values (start + i) = values' (start' + i)) :
    slice values start count = slice values' start' count :=
  List.map_congr_left fun i inside => same i (List.mem_range.mp inside)

theorem slice_eq_replicate {value : V} (same : ∀ i < count, values (start + i) = value) :
    slice values start count = List.replicate count value := by
  refine List.eq_replicate_iff.mpr ⟨slice_length, fun v member => ?_⟩
  obtain ⟨i, inside, rfl⟩ := List.mem_map.mp member
  exact same i (List.mem_range.mp inside)

theorem slice_store [DecidableEq B] (m : Surroundings B V) (buffer : B) (stored : List V) :
    slice (store m buffer stored buffer) 0 stored.length = stored := by
  refine List.ext_getElem slice_length fun i _ inside => ?_
  simp [slice, store, inside]

theorem getD_slice {i : ℕ} (inside : i < count) (default : V) :
    (slice values start count).getD i default = values (start + i) := by
  simp [slice, List.getD, inside]

end Data
