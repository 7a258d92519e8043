import Sqwar.Data.Memory

/-!
# The accesses of a run

A trace lists the addresses that a computation on a memory reads or writes, each with the cell of
an image that the access is meant for. It is sound when the computation changes nothing that it does
not access, and does the same in every memory with the same values there. Sound traces compose, so a
loop is traced by the traces of its passes, each in the memory that the passes before it left.
-/

set_option autoImplicit false

namespace Data

open Function

variable {B V ι : Type*}

/-- An image in a buffer: where it starts, and its sizes. -/
structure Raster (B : Type*) where
  start : Pointer B
  width : ℕ
  height : ℕ

/-- The address of a cell of an image. -/
def Raster.cell (image : Raster B) (column row : ℕ) : Pointer B :=
  image.start + (row * image.width + column)

/-- An access to an address, and the cell of an image that it is meant for. -/
structure Access (B : Type*) where
  address : Pointer B
  image : Raster B
  column : ℕ
  row : ℕ

/-- The access is to the cell it is meant for, which is in the rows and columns of its image, and
the image is in its buffer. -/
structure Access.InRange (extent : B → ℕ) (access : Access B) : Prop where
  address : access.address = access.image.cell access.column access.row
  column : access.column < access.image.width
  row : access.row < access.image.height
  allocated : access.image.start.offset + access.image.width * access.image.height ≤
    extent access.image.start.buffer

/-- An access in range is to an address of the buffer. -/
theorem Access.InRange.lt_extent {extent : B → ℕ} {access : Access B}
    (inRange : access.InRange extent) : access.address.offset < extent access.address.buffer := by
  rw [inRange.address]
  refine lt_of_lt_of_le ?_ inRange.allocated
  simp only [Raster.cell, Pointer.add_offset]
  exact Nat.add_lt_add_left (cell_lt inRange.column inRange.row) _

/-! ### Sound traces -/

/-- The accesses are all that the computation reads and writes. -/
structure Traces (run : Memory B V → Memory B V) (accesses : Memory B V → List (Access B)) :
    Prop where
  writes : ∀ m p, (∀ access ∈ accesses m, access.address ≠ p) → run m p = m p
  follows : ∀ m m', (∀ access ∈ accesses m, m' access.address = m access.address) →
    accesses m' = accesses m
  reads : ∀ m m', (∀ access ∈ accesses m, m' access.address = m access.address) →
    ∀ access ∈ accesses m, run m' access.address = run m access.address

variable {run run₁ run₂ : Memory B V → Memory B V}
  {accesses accesses₁ accesses₂ : Memory B V → List (Access B)} {m m' : Memory B V}

/-- Memories that agree where the computation accesses them agree afterwards where they did. -/
theorem Traces.agree (traces : Traces run accesses)
    (same : ∀ access ∈ accesses m, m' access.address = m access.address) {p : Pointer B}
    (agree : m' p = m p) : run m' p = run m p := by
  by_cases accessed : ∃ access ∈ accesses m, access.address = p
  · obtain ⟨access, inTrace, rfl⟩ := accessed
    exact traces.reads m m' same access inTrace
  · push Not at accessed
    -- the traces are the same, so in neither memory is the address written
    have accessed' := accessed
    rw [← traces.follows m m' same] at accessed'
    rw [traces.writes m p accessed, traces.writes m' p accessed', agree]

/-- **Composition.** One computation after another makes the accesses of both. -/
theorem Traces.comp (first : Traces run₁ accesses₁) (second : Traces run₂ accesses₂) :
    Traces (fun m => run₂ (run₁ m)) (fun m => accesses₁ m ++ accesses₂ (run₁ m)) := by
  have left : ∀ {m m' : Memory B V},
      (∀ access ∈ accesses₁ m ++ accesses₂ (run₁ m), m' access.address = m access.address) →
      ∀ access ∈ accesses₁ m, m' access.address = m access.address :=
    fun same access inTrace => same access (List.mem_append_left _ inTrace)
  have right : ∀ {m m' : Memory B V},
      (∀ access ∈ accesses₁ m ++ accesses₂ (run₁ m), m' access.address = m access.address) →
      ∀ access ∈ accesses₂ (run₁ m), run₁ m' access.address = run₁ m access.address :=
    fun same access inTrace =>
      first.agree (left same) (same access (List.mem_append_right _ inTrace))
  constructor
  · intro m p elsewhere
    rw [second.writes _ p fun access inTrace =>
      elsewhere access (List.mem_append_right _ inTrace)]
    exact first.writes m p fun access inTrace => elsewhere access (List.mem_append_left _ inTrace)
  · intro m m' same
    simp only [first.follows m m' (left same), second.follows _ _ (right same)]
  · intro m m' same access inTrace
    exact second.agree (right same) (first.agree (left same) (same access inTrace))

theorem traces_id : Traces (fun m : Memory B V => m) (fun _ => []) where
  writes _ _ _ := rfl
  follows _ _ _ := rfl
  reads _ _ _ _ inTrace := absurd inTrace List.not_mem_nil

/-- The accesses of a loop. -/
def loopAccesses (body : Memory B V → ι → Memory B V)
    (accesses : Memory B V → ι → List (Access B)) :
    Memory B V → List ι → List (Access B)
  | _, [] => []
  | m, i :: passes => accesses m i ++ loopAccesses body accesses (body m i) passes

/-- **Loops.** Where the passes are traced, the loop is. -/
theorem traces_foldl {body : Memory B V → ι → Memory B V}
    {accesses : Memory B V → ι → List (Access B)} (passes : List ι)
    (traced : ∀ i, Traces (fun m => body m i) (fun m => accesses m i)) :
    Traces (fun m => passes.foldl body m) (fun m => loopAccesses body accesses m passes) := by
  induction passes with
  | nil => exact traces_id
  | cons i passes ih => exact (traced i).comp ih

/-- An access of a loop is an access of one of its passes. -/
theorem mem_loopAccesses {body : Memory B V → ι → Memory B V}
    {accesses : Memory B V → ι → List (Access B)} {passes : List ι} {access : Access B} :
    access ∈ loopAccesses body accesses m passes ↔ ∃ before i later,
      passes = before ++ i :: later ∧ access ∈ accesses (before.foldl body m) i := by
  induction passes generalizing m with
  | nil => simp [loopAccesses]
  | cons j passes ih =>
    rw [loopAccesses, List.mem_append, ih]
    constructor
    · rintro (here | ⟨before, i, later, rfl, inPass⟩)
      · exact ⟨[], j, passes, rfl, here⟩
      · exact ⟨j :: before, i, later, rfl, inPass⟩
    · rintro ⟨before, i, later, split, inPass⟩
      rcases List.cons_eq_append_iff.mp split with ⟨rfl, same⟩ | ⟨before, rfl, rfl⟩
      · obtain ⟨rfl, rfl⟩ := List.cons.inj same
        exact .inl inPass
      · exact .inr ⟨before, i, later, rfl, inPass⟩

/-- An access of the pass at `j` of a counting loop. -/
theorem mem_loopAccesses_range {body : Memory B V → ℕ → Memory B V}
    {accesses : Memory B V → ℕ → List (Access B)} {access : Access B} {n j : ℕ} (inside : j < n)
    (inPass : access ∈ accesses ((List.range j).foldl body m) j) :
    access ∈ loopAccesses body accesses m (List.range n) := by
  have split : List.range n = List.range j ++ j :: (List.range n).drop (j + 1) := by
    refine (List.take_append_drop j _).symm.trans ?_
    rw [List.take_range, min_eq_left inside.le, List.drop_eq_getElem_cons (by simpa),
      List.getElem_range]
  exact mem_loopAccesses.mpr ⟨_, j, _, split, inPass⟩

/-- **Conditionals.** A test of what some reads determine, and a branch. -/
theorem traces_ite (reads : List (Access B)) (test : Memory B V → Bool)
    (depends : ∀ m m', (∀ access ∈ reads, m' access.address = m access.address) →
      test m' = test m)
    (yes : Traces run₁ accesses₁) (no : Traces run₂ accesses₂) :
    Traces (fun m => if test m then run₁ m else run₂ m)
      (fun m => reads ++ if test m then accesses₁ m else accesses₂ m) := by
  have tested : ∀ {m m' : Memory B V} {branch : List (Access B)},
      (∀ access ∈ reads ++ branch, m' access.address = m access.address) → test m' = test m :=
    fun same => depends _ _ fun access inReads => same access (List.mem_append_left _ inReads)
  constructor
  · intro m p elsewhere
    split_ifs at elsewhere ⊢
    · exact yes.writes m p fun access inTrace => elsewhere access (List.mem_append_right _ inTrace)
    · exact no.writes m p fun access inTrace => elsewhere access (List.mem_append_right _ inTrace)
  · intro m m' same
    rw [tested same]
    split_ifs at same ⊢
    · rw [yes.follows m m' fun access inTrace => same access (List.mem_append_right _ inTrace)]
    · rw [no.follows m m' fun access inTrace => same access (List.mem_append_right _ inTrace)]
  · intro m m' same access inTrace
    have agree := same access inTrace
    rw [tested same]
    split_ifs at same ⊢
    · exact yes.agree (fun access inTrace => same access (List.mem_append_right _ inTrace)) agree
    · exact no.agree (fun access inTrace => same access (List.mem_append_right _ inTrace)) agree

variable [DecidableEq B]

/-- **Stores.** A store of a value that some reads determine. -/
theorem traces_store (reads : List (Access B)) (target : Access B) (value : Memory B V → V)
    (depends : ∀ m m', (∀ access ∈ reads, m' access.address = m access.address) →
      value m' = value m) :
    Traces (fun m => update m target.address (value m)) (fun _ => reads ++ [target]) := by
  constructor
  · intro m p elsewhere
    exact update_of_ne (elsewhere target (by simp)).symm _ _
  · exact fun _ _ _ => rfl
  · intro m m' same access inTrace
    have determined := depends m m' fun access inReads =>
      same access (List.mem_append_left _ inReads)
    by_cases here : access.address = target.address
    · rw [here, update_self, update_self, determined]
    · rw [update_of_ne here, update_of_ne here, same access inTrace]

end Data
