import Mathlib.Algebra.Group.Nat.Even
import Mathlib.Algebra.Order.Group.Nat
import Mathlib.Data.List.Nodup
import Mathlib.Data.List.ProdSigma
import Mathlib.Logic.Function.Basic

/-!
# Buffers and loops of stores

A memory maps the addresses of some buffers to values. A loop whose passes store at distinct
addresses, each what it would have stored in the memory before the loop, does all of its stores at
once. Loops over the cells of an image, which lies in a buffer row after row, are the main case.
-/

set_option autoImplicit false

namespace Data

open Function

variable {A B V ι : Type*}

/-! ### Addresses -/

/-- An address in a buffer. -/
@[ext] structure Pointer (B : Type*) where
  buffer : B
  offset : ℕ
  deriving DecidableEq

/-- The first address of a buffer. -/
def Pointer.base (b : B) : Pointer B := ⟨b, 0⟩

instance : HAdd (Pointer B) ℕ (Pointer B) := ⟨fun p n => ⟨p.buffer, p.offset + n⟩⟩

@[simp] theorem Pointer.add_buffer (p : Pointer B) (n : ℕ) : (p + n).buffer = p.buffer := rfl

@[simp] theorem Pointer.add_offset (p : Pointer B) (n : ℕ) : (p + n).offset = p.offset + n := rfl

@[simp] theorem Pointer.base_buffer (b : B) : (Pointer.base b).buffer = b := rfl

@[simp] theorem Pointer.base_offset (b : B) : (Pointer.base b).offset = 0 := rfl

@[simp] theorem Pointer.add_add (p : Pointer B) (m n : ℕ) : p + m + n = p + (m + n) :=
  Pointer.ext rfl (Nat.add_assoc _ _ _)

@[simp] theorem Pointer.add_zero (p : Pointer B) : p + 0 = p := rfl

theorem Pointer.add_inj {p : Pointer B} {m n : ℕ} : p + m = p + n ↔ m = n := by
  rw [Pointer.ext_iff]
  simp

/-- The values in some buffers. -/
abbrev Memory (B V : Type*) := Pointer B → V

/-! ### Images in a buffer -/

/-- The cells of an image, row after row. -/
def grid (width height : ℕ) : List (ℕ × ℕ) :=
  (List.range height).flatMap fun y => (List.range width).map fun x => (x, y)

variable {w h x y x' y' : ℕ}

@[simp] theorem mem_grid : (x, y) ∈ grid w h ↔ x < w ∧ y < h := by
  simp [grid, and_comm]

theorem nodup_grid (w h : ℕ) : (grid w h).Nodup := by
  refine List.nodup_flatMap.mpr ⟨fun y _ => List.nodup_range.map fun x x' same => ?_,
    List.nodup_range.imp fun {y y'} distinct => ?_⟩
  · exact (Prod.mk.inj same).1
  · intro cell inRow inRow'
    simp only [List.mem_map] at inRow inRow'
    obtain ⟨x, -, rfl⟩ := inRow
    obtain ⟨x', -, same⟩ := inRow'
    exact distinct (Prod.mk.inj same).2.symm

theorem cell_lt (inRow : x < w) (inColumn : y < h) : y * w + x < w * h :=
  calc y * w + x < y * w + w := Nat.add_lt_add_left inRow _
    _ = w * (y + 1) := by rw [Nat.mul_comm, Nat.mul_succ]
    _ ≤ w * h := Nat.mul_le_mul_left w inColumn

theorem cell_div (inRow : x < w) : (y * w + x) / w = y := by
  rw [Nat.mul_comm, Nat.mul_add_div (by omega), Nat.div_eq_of_lt inRow, Nat.add_zero]

theorem cell_mod (inRow : x < w) : (y * w + x) % w = x := by
  rw [Nat.mul_comm, Nat.mul_add_mod, Nat.mod_eq_of_lt inRow]

theorem cell_inj (inRow : x < w) (inRow' : x' < w) (same : y * w + x = y' * w + x') :
    x = x' ∧ y = y' :=
  ⟨by rw [← cell_mod inRow (y := y), same, cell_mod inRow'],
    by rw [← cell_div inRow (y := y), same, cell_div inRow']⟩

/-- Every address of an image is that of a cell. -/
theorem exists_cell {i : ℕ} (inside : i < w * h) : ∃ x y, x < w ∧ y < h ∧ i = y * w + x := by
  have pos : 0 < w := Nat.pos_of_mul_pos_right (Nat.zero_lt_of_lt inside)
  refine ⟨i % w, i / w, Nat.mod_lt _ pos, Nat.div_lt_of_lt_mul inside, ?_⟩
  rw [Nat.mul_comm, Nat.div_add_mod]

theorem pairwise_grid (p : Pointer B) (w h : ℕ) : (grid w h).Pairwise fun c d =>
    p + (c.2 * w + c.1) ≠ p + (d.2 * w + d.1) := by
  refine List.Pairwise.imp_of_mem (fun {c d} inC inD distinct same => ?_) (nodup_grid w h)
  have cell := cell_inj (mem_grid.mp inC).1 (mem_grid.mp inD).1 (Pointer.add_inj.mp same)
  exact distinct (Prod.ext cell.1 cell.2)

theorem pairwise_range (p : Pointer B) (n : ℕ) : (List.range n).Pairwise fun i j => p + i ≠ p + j :=
  List.nodup_range.imp fun distinct same => distinct (Pointer.add_inj.mp same)

/-! ### Loops of stores -/

variable [DecidableEq A]

/-- **Independent stores.** If every pass, started in a memory that differs from the first one only
where other passes store, stores its value at its address, and the addresses are distinct, then the
loop stores all values and changes nothing else. -/
theorem foldl_stores (m : A → V) (passes : List ι) (body : (A → V) → ι → A → V) (addr : ι → A)
    (value : ι → V)
    (stores : ∀ i ∈ passes, ∀ m', (∀ a, (∀ j ∈ passes, a ≠ addr j) → m' a = m a) →
      m' (addr i) = m (addr i) → body m' i = update m' (addr i) (value i))
    (apart : passes.Pairwise fun i j => addr i ≠ addr j) :
    (∀ i ∈ passes, passes.foldl body m (addr i) = value i) ∧
      ∀ a, (∀ i ∈ passes, a ≠ addr i) → passes.foldl body m a = m a := by
  induction passes generalizing m with
  | nil => exact ⟨by simp, fun a _ => rfl⟩
  | cons first later ih =>
    obtain ⟨fromFirst, apart⟩ := List.pairwise_cons.mp apart
    have step : body m first = update m (addr first) (value first) :=
      stores first List.mem_cons_self m (fun _ _ => rfl) rfl
    rw [List.foldl_cons, step]
    -- later passes start from the first store, which is none of their addresses
    obtain ⟨stored, kept⟩ := ih (update m (addr first) (value first))
      (fun i member m' agrees own => by
        refine stores i (List.mem_cons_of_mem _ member) m' (fun a elsewhere => ?_) ?_
        · have other := elsewhere first List.mem_cons_self
          rw [agrees a fun j inLater => elsewhere j (List.mem_cons_of_mem _ inLater),
            update_of_ne other]
        · rw [own, update_of_ne (fromFirst i member).symm]) apart
    refine ⟨fun i member => ?_, fun a elsewhere => ?_⟩
    · rcases List.mem_cons.mp member with rfl | inLater
      · rw [kept _ fromFirst, update_self]
      · exact stored i inLater
    · rw [kept a fun j inLater => elsewhere j (List.mem_cons_of_mem _ inLater),
        update_of_ne (elsewhere first List.mem_cons_self)]

omit [DecidableEq A] in
/-- An address that no pass changes. -/
theorem foldl_of_kept (body : (A → V) → ι → A → V) {passes : List ι} {a : A}
    (keeps : ∀ i ∈ passes, ∀ m, body m i a = m a) (m : A → V) : passes.foldl body m a = m a := by
  refine List.foldlRecOn (motive := fun m' => m' a = m a) passes body rfl fun m' same i inside => ?_
  rw [keeps i inside, same]

/-! ### Lists of writes -/

/-- The memory after some writes, each an address and a value. -/
def write (m : A → V) (writes : List (A × V)) : A → V :=
  writes.foldl (fun m w => update m w.1 w.2) m

variable {writes : List (A × V)} {a : A} {v : V}

theorem write_append (m : A → V) (first later : List (A × V)) :
    write m (first ++ later) = write (write m first) later :=
  List.foldl_append

/-- A loop of writes is one list of writes. -/
theorem foldl_write (m : A → V) (passes : List ι) (writes : ι → List (A × V)) :
    passes.foldl (fun m i => write m (writes i)) m = write m (passes.flatMap writes) := by
  induction passes generalizing m with
  | nil => rfl
  | cons i passes ih => rw [List.foldl_cons, ih, List.flatMap_cons, write_append]

/-- A loop whose passes may fail, where none does. -/
theorem foldlM_eq_some {S : Type*} {passes : List ι} {body : S → ι → Option S} {step : S → ι → S}
    (passesDo : ∀ i ∈ passes, ∀ s, body s i = some (step s i)) (s : S) :
    passes.foldlM body s = some (passes.foldl step s) := by
  induction passes generalizing s with
  | nil => rfl
  | cons i passes ih =>
    rw [List.foldlM_cons, passesDo i List.mem_cons_self s, List.foldl_cons]
    exact ih (fun j later => passesDo j (List.mem_cons_of_mem _ later)) _

/-- A loop of writes whose passes may fail succeeds if every pass does. -/
theorem foldlM_write {m m' : A → V} {passes : List ι} {writes : ι → Option (List (A × V))} :
    passes.foldlM (fun m i => (writes i).map (write m)) m = some m' ↔
      (∀ i ∈ passes, (writes i).isSome) ∧
        m' = write m (passes.flatMap fun i => (writes i).getD []) := by
  induction passes generalizing m with
  | nil =>
    exact ⟨fun same => ⟨by simp, (Option.some.inj same).symm⟩, fun h => congrArg some h.2.symm⟩
  | cons i passes ih =>
    rw [List.foldlM_cons, List.forall_mem_cons, List.flatMap_cons, write_append]
    -- a pass that fails makes the loop fail
    cases writes i with
    | none => simp
    | some ws => simp [ih]

theorem write_of_notMem (m : A → V) (notMem : ∀ v, (a, v) ∉ writes) : write m writes a = m a := by
  induction writes generalizing m with
  | nil => rfl
  | cons w writes ih =>
    have other : a ≠ w.1 := by
      rintro rfl
      exact notMem w.2 List.mem_cons_self
    exact (ih _ fun v member => notMem v (List.mem_cons_of_mem _ member)).trans
      (update_of_ne other _ _)

/-- An address holds a value if that is written there and nothing else is. -/
theorem write_of_mem (m : A → V) (member : (a, v) ∈ writes)
    (only : ∀ u, (a, u) ∈ writes → u = v) : write m writes a = v := by
  induction writes generalizing m with
  | nil => cases member
  | cons w writes ih =>
    by_cases later : (a, v) ∈ writes
    · exact ih _ later fun u inLater => only u (List.mem_cons_of_mem _ inLater)
    · -- nothing is written there afterwards
      obtain rfl : (a, v) = w := (List.mem_cons.mp member).resolve_right later
      have rest : ∀ u, (a, u) ∉ writes := by
        intro u inLater
        obtain rfl := only u (List.mem_cons_of_mem _ inLater)
        exact later inLater
      exact (write_of_notMem (update m a v) rest).trans (update_self _ _ _)

omit [DecidableEq A] in
/-- The writes of a loop are those of its passes. -/
theorem mem_flatMap_getD {passes : List ι} {writes : ι → Option (List (A × V))} :
    (a, v) ∈ passes.flatMap (fun i => (writes i).getD []) ↔
      ∃ i ∈ passes, ∃ ws, writes i = some ws ∧ (a, v) ∈ ws := by
  rw [List.mem_flatMap]
  refine exists_congr fun i => and_congr_right fun _ => ?_
  cases writes i <;> simp

variable {m m' : A → V} {passes : List ι} {loopWrites : ι → Option (List (A × V))}

/-- What a pass of a loop writes stays if every pass that writes there writes the same. -/
theorem foldlM_write_of_mem
    (loop : passes.foldlM (fun m i => (loopWrites i).map (write m)) m = some m')
    {i : ι} (inside : i ∈ passes) {ws : List (A × V)} (writes : loopWrites i = some ws)
    (member : (a, v) ∈ ws)
    (only : ∀ j ∈ passes, ∀ ws, loopWrites j = some ws → ∀ u, (a, u) ∈ ws → u = v) :
    m' a = v := by
  obtain ⟨-, rfl⟩ := foldlM_write.mp loop
  refine write_of_mem m (mem_flatMap_getD.mpr ⟨i, inside, ws, writes, member⟩) fun u later => ?_
  obtain ⟨j, inside, ws, writes, member⟩ := mem_flatMap_getD.mp later
  exact only j inside ws writes u member

/-- An address to which no pass of a loop writes. -/
theorem foldlM_write_of_notMem
    (loop : passes.foldlM (fun m i => (loopWrites i).map (write m)) m = some m')
    (notMem : ∀ j ∈ passes, ∀ ws, loopWrites j = some ws → ∀ u, (a, u) ∉ ws) : m' a = m a := by
  obtain ⟨-, rfl⟩ := foldlM_write.mp loop
  refine write_of_notMem m fun u later => ?_
  obtain ⟨j, inside, ws, writes, member⟩ := mem_flatMap_getD.mp later
  exact notMem j inside ws writes u member

/-! ### Blocks of two by two cells -/

/-- The cells of a block: two of its first row, then two of its second. -/
def quad (p : Pointer B) (width j i : ℕ) : List (Pointer B) :=
  let line0 : Pointer B := p + i * (width * 2)
  let line1 : Pointer B := line0 + width
  let x := 2 * j
  [line0 + x, line0 + (x + 1), line1 + x, line1 + (x + 1)]

/-- The blocks of an image, row after row. -/
def blocks (width height : ℕ) : List (ℕ × ℕ) := grid ((width + 1) / 2) ((height + 1) / 2)

variable {B' V' : Type*} {p p' : Pointer B} {q : Pointer B'} {i j : ℕ}

theorem quad_eq (p : Pointer B) (w j i : ℕ) : quad p w j i =
    [p + (i * 2 * w + j * 2), p + (i * 2 * w + (j * 2 + 1)), p + ((i * 2 + 1) * w + j * 2),
      p + ((i * 2 + 1) * w + (j * 2 + 1))] := by
  have row : i * (w * 2) = i * 2 * w := by rw [Nat.mul_comm w 2, Nat.mul_assoc]
  simp only [quad, Pointer.add_add, row, Nat.mul_comm 2 j, Nat.add_mul, Nat.one_mul, Nat.add_assoc]

theorem mem_quad : p' ∈ quad p w j i ↔ ∃ x y, x / 2 = j ∧ y / 2 = i ∧ p' = p + (y * w + x) := by
  rw [quad_eq]
  simp only [List.mem_cons, List.not_mem_nil, or_false]
  constructor
  · rintro (rfl | rfl | rfl | rfl)
    · exact ⟨j * 2, i * 2, by omega, by omega, rfl⟩
    · exact ⟨j * 2 + 1, i * 2, by omega, by omega, rfl⟩
    · exact ⟨j * 2, i * 2 + 1, by omega, by omega, rfl⟩
    · exact ⟨j * 2 + 1, i * 2 + 1, by omega, by omega, rfl⟩
  · rintro ⟨x, y, rfl, rfl, rfl⟩
    -- four cells: the even or odd column, in the even or odd row
    have column : x = x / 2 * 2 ∨ x = x / 2 * 2 + 1 := by omega
    have row : y = y / 2 * 2 ∨ y = y / 2 * 2 + 1 := by omega
    rcases column with column | column <;> rcases row with row | row <;> rw [← column, ← row] <;>
      simp

/-- What is written to a block cell by cell. -/
theorem mem_zip_quad {f : Pointer B' → V'} {a : Pointer B} {v : V'} :
    (a, v) ∈ (quad p w j i).zip ((quad q w j i).map f) ↔
      ∃ x y, x / 2 = j ∧ y / 2 = i ∧ a = p + (y * w + x) ∧ v = f (q + (y * w + x)) := by
  -- both blocks are laid out alike, so cells pair up by their offset
  have paired : (quad p w j i).zip ((quad q w j i).map f) =
      (quad (Pointer.base ()) w j i).map fun o => (p + o.offset, f (q + o.offset)) := by
    simp only [quad_eq, List.map_cons, List.map_nil, List.zip_cons_cons, List.zip_nil_right,
      Pointer.add_offset, Pointer.base_offset, Nat.zero_add]
  rw [paired, List.mem_map]
  constructor
  · rintro ⟨o, inQuad, same⟩
    obtain ⟨x, y, column, row, rfl⟩ := mem_quad.mp inQuad
    obtain ⟨rfl, rfl⟩ := Prod.mk.inj same
    exact ⟨x, y, column, row, by simp, by simp⟩
  · rintro ⟨x, y, column, row, rfl, rfl⟩
    exact ⟨_, mem_quad.mpr ⟨x, y, column, row, rfl⟩, by simp⟩

theorem map_quad_congr {f : Pointer B → V} {g : Pointer B' → V}
    (same : ∀ x y, x / 2 = j → y / 2 = i → f (p + (y * w + x)) = g (q + (y * w + x))) :
    (quad p w j i).map f = (quad q w j i).map g := by
  rw [quad_eq, quad_eq]
  simp only [List.map_cons, List.map_nil]
  rw [same (j * 2) (i * 2) (by omega) (by omega), same (j * 2 + 1) (i * 2) (by omega) (by omega),
    same (j * 2) (i * 2 + 1) (by omega) (by omega),
    same (j * 2 + 1) (i * 2 + 1) (by omega) (by omega)]

/-- The blocks of an image of even sizes cover its cells. -/
theorem mem_blocks (evenW : Even w) (evenH : Even h) :
    (x / 2, y / 2) ∈ blocks w h ↔ x < w ∧ y < h := by
  obtain ⟨halfW, rfl⟩ := evenW
  obtain ⟨halfH, rfl⟩ := evenH
  rw [blocks, mem_grid]
  omega

end Data
