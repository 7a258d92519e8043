import Sqwar.Recording.BlockChain

/-!
# `ReadAllBlocks` over the blocks of a file

What `ReadAllBlocks` does depends on the tags and sizes of the blocks only. So its loop is simulated
by a loop over the chain of blocks, in which a frame is its kind, and a payload its size.
-/

set_option autoImplicit false

namespace Sqwar.Recording

open Data Semantics

variable {content : List UInt8} {later : List (List UInt8)} {loop : ReadAll}
  {stale : ℕ → DepthDataProps} {data : ByteVector}

/-- The two kinds of records. -/
inductive FrameKind | depth | face
  deriving DecidableEq, Repr

/-- The kind of the record that a block is the tag of. -/
def kindOf (block : List UInt8) : Option FrameKind :=
  if block.length = 8 then
    if decodeLE block = depthTag then some .depth
    else if decodeLE block = faceTag then some .face
    else none
  else none

/-- Blocks of these sizes can be copied into a frame: the properties inside both their block and
the struct, the payloads as whole elements. -/
def FrameKind.Fits : FrameKind → ℕ → ℕ → ℕ → Prop
  | .depth, props, _, second => props ≤ sizeofDepthDataProps ∧ second % 4 = 0
  | .face, props, first, second =>
    sizeofFaceDataProps ≤ props ∧ first % 4 = 0 ∧ second % 2 = 0

instance (kind : FrameKind) (props first second : ℕ) :
    Decidable (kind.Fits props first second) := by
  cases kind <;> exact inferInstanceAs (Decidable (_ ∧ _))

/-- The loop over blocks: what is still to be read, the flag, and the kinds of the frames stored. -/
structure BlockLoop where
  later : List (List UInt8)
  more : Bool
  stored : List FrameKind

/-- The branch for a tag: three blocks are read, and the result for the first is not looked at. -/
def storeFrame (content : List UInt8) (kind : FrameKind) (loop : BlockLoop) :
    Except Fault BlockLoop :=
  let props := readBlock content loop.later
  let first := readBlock content props.later
  let second := readBlock content first.later
  if kind.Fits props.size first.size second.size then
    .ok ⟨second.later, loop.more && first.whole && second.whole, loop.stored ++ [kind]⟩
  else .error .outOfBounds

/-- One pass over the blocks. -/
def passBlocks (content : List UInt8) : LoopBody Fault BlockLoop (List FrameKind) := fun loop =>
  if loop.more then
    match loop.later with
    | [] => .ok (.inr loop.stored)
    | block :: later =>
      match kindOf block with
      | none => .ok (.inl ⟨later, true, loop.stored⟩)
      | some kind => (storeFrame content kind ⟨later, true, loop.stored⟩).map .inl
  else .ok (.inr loop.stored)

/-- As many frames of each kind are stored. -/
structure Counts (loop : ReadAll) (stored : List FrameKind) : Prop where
  depth : loop.depthFrames.length = stored.count .depth
  face : loop.faceFrames.length = stored.count .face

/-- The reader stands where the loop over blocks does. -/
structure ReadsBlocks (content : List UInt8) (loop : ReadAll) (blocks : BlockLoop) : Prop where
  atLink : loop.file.AtLink content blocks.later
  within : ∀ block ∈ blocks.later, block ∈ (chain content).1
  more : loop.moreData = blocks.more
  counts : Counts loop blocks.stored

theorem readBlock_within (within : ∀ block ∈ later, block ∈ (chain content).1) :
    ∀ block ∈ (readBlock content later).later, block ∈ (chain content).1 := by
  cases later with
  | nil => exact fun _ inside => inside
  | cons first later => exact fun block inside => within block (List.mem_cons_of_mem _ inside)

/-! ### The copies of a frame -/

theorem copyDepthProps_cases (old : DepthDataProps) (data : ByteVector) :
    (data.bytes.length ≤ sizeofDepthDataProps ∧ ∃ props, copyDepthProps old data = .ok props) ∨
      (sizeofDepthDataProps < data.bytes.length ∧
        copyDepthProps old data = .error .outOfBounds) := by
  rcases le_or_gt data.bytes.length sizeofDepthDataProps with fits | tooLong
  · exact .inl ⟨fits, _, if_neg (not_lt.mpr fits)⟩
  · exact .inr ⟨tooLong, if_pos tooLong⟩

theorem copyFaceProps_cases (data : ByteVector) :
    (sizeofFaceDataProps ≤ data.bytes.length ∧ ∃ props, copyFaceProps data = .ok props) ∨
      (data.bytes.length < sizeofFaceDataProps ∧ copyFaceProps data = .error .outOfBounds) := by
  rcases lt_or_ge data.bytes.length sizeofFaceDataProps with tooShort | fits
  · exact .inr ⟨tooShort, if_pos tooShort⟩
  · exact .inl ⟨fits, _, if_neg (not_lt.mpr fits)⟩

theorem wordVector_ofBytes_cases (width : ℕ) (data : ByteVector) :
    (data.bytes.length % width = 0 ∧ ∃ words, WordVector.ofBytes width data = .ok words) ∨
      (data.bytes.length % width ≠ 0 ∧ WordVector.ofBytes width data = .error .outOfBounds) := by
  by_cases whole : data.bytes.length % width = 0
  · have fits : (decodeWords width (data.bytes.length / width) data.bytes).length * width ≤
        vectorMaxSize := by
      rw [decodeWords_length]
      exact (Nat.div_mul_le_self _ _).trans data.fits
    exact .inl ⟨whole, _, by rw [WordVector.ofBytes, if_neg (not_not.mpr whole), dif_pos fits]⟩
  · exact .inr ⟨whole, if_pos whole⟩

/-! ### Simulation -/

variable {blocks : BlockLoop}

/-- A depth record. -/
theorem readDepthFrame_atBlocks (old : DepthDataProps) (allocates : Allocates content)
    (reads : ReadsBlocks content loop blocks) :
    SameOutcome (ReadsBlocks content) Counts ((readDepthFrame old loop).map .inl)
      ((storeFrame content .depth blocks).map .inl) := by
  obtain ⟨file₁, data, read₁, link₁, size₁, -⟩ :=
    readNextBlock_atLink loop.data reads.atLink allocates reads.within
  have within₁ := readBlock_within reads.within
  obtain ⟨file₂, vidData, read₂, link₂, -, -⟩ :=
    readNextBlock_atLink .empty link₁ allocates within₁
  have within₂ := readBlock_within within₁
  obtain ⟨file₃, ddata, read₃, link₃, size₃, -⟩ :=
    readNextBlock_atLink .empty link₂ allocates within₂
  have within₃ := readBlock_within within₂
  simp only [readDepthFrame, storeFrame, FrameKind.Fits, read₁, read₂, read₃, ← size₁, ← size₃,
    bind, Except.bind]
  rcases copyDepthProps_cases old data with ⟨inside, props, copied⟩ | ⟨outside, fault⟩
  · rcases wordVector_ofBytes_cases 4 ddata with ⟨whole, words, stored⟩ | ⟨broken, fault⟩
    · rw [copied, stored, if_pos ⟨inside, whole⟩]
      refine .goesOn ⟨link₃, within₃, ?_, ?_, ?_⟩
      · rw [reads.more]
      · simp [reads.counts.depth]
      · simp [reads.counts.face]
    · rw [copied, fault, if_neg fun fits => broken fits.2]
      exact .fails
  · rw [fault, if_neg fun fits => not_lt.mpr fits.1 outside]
    exact .fails

/-- A face record. -/
theorem readFaceFrame_atBlocks (allocates : Allocates content)
    (reads : ReadsBlocks content loop blocks) :
    SameOutcome (ReadsBlocks content) Counts ((readFaceFrame loop).map .inl)
      ((storeFrame content .face blocks).map .inl) := by
  obtain ⟨file₁, data₁, read₁, link₁, size₁, -⟩ :=
    readNextBlock_atLink loop.data reads.atLink allocates reads.within
  have within₁ := readBlock_within reads.within
  obtain ⟨file₂, data₂, read₂, link₂, size₂, -⟩ :=
    readNextBlock_atLink data₁ link₁ allocates within₁
  have within₂ := readBlock_within within₁
  obtain ⟨file₃, data₃, read₃, link₃, size₃, -⟩ :=
    readNextBlock_atLink data₂ link₂ allocates within₂
  have within₃ := readBlock_within within₂
  simp only [readFaceFrame, storeFrame, FrameKind.Fits, read₁, read₂, ← size₁, ← size₂, ← size₃,
    bind, Except.bind]
  rcases copyFaceProps_cases data₁ with ⟨inside, props, copied⟩ | ⟨outside, fault⟩
  · rcases wordVector_ofBytes_cases 4 data₂ with ⟨whole, vertices, stored⟩ | ⟨broken, fault⟩
    · rcases wordVector_ofBytes_cases 2 data₃ with ⟨whole', indices, stored'⟩ | ⟨broken, fault⟩
      · have fits := And.intro inside (And.intro whole whole')
        simp only [copied, stored, read₃, stored', if_pos fits]
        refine .goesOn ⟨link₃, within₃, ?_, ?_, ?_⟩
        · simp [reads.more]
        · simp [reads.counts.depth]
        · simp [reads.counts.face]
      · simp only [copied, stored, read₃, fault, if_neg fun fits : _ ∧ _ ∧ _ => broken fits.2.2]
        exact .fails
    · simp only [copied, fault, if_neg fun fits : _ ∧ _ ∧ _ => broken fits.2.1]
      exact .fails
  · simp only [fault, if_neg fun fits : _ ∧ _ ∧ _ => not_lt.mpr fits.1 outside]
    exact .fails

/-- What a block just read does to the loop. -/
theorem readFrame_atBlocks (stale : ℕ → DepthDataProps) (allocates : Allocates content)
    (reads : ReadsBlocks content loop blocks) :
    SameOutcome (ReadsBlocks content) Counts ((readFrame stale loop).map .inl)
      (match kindOf loop.data.bytes with
        | none => .ok (.inl blocks)
        | some kind => (storeFrame content kind blocks).map .inl) := by
  unfold readFrame kindOf
  dsimp only
  split_ifs with tagged depth face
  · exact readDepthFrame_atBlocks _ allocates reads
  · exact readFaceFrame_atBlocks allocates reads
  · exact .goesOn reads
  · exact .goesOn reads

/-- **Step lemma.** A pass of `ReadAllBlocks` is a pass over the blocks. -/
theorem readAllBody_atBlocks (stale : ℕ → DepthDataProps) (allocates : Allocates content)
    (reads : ReadsBlocks content loop blocks) :
    SameOutcome (ReadsBlocks content) Counts (readAllBody stale loop)
      (passBlocks content blocks) := by
  unfold readAllBody passBlocks
  rw [reads.more]
  obtain ⟨later, more, stored⟩ := blocks
  split_ifs with goes
  -- The condition of the loop reads the tag.
  · obtain ⟨file, data, read, link, -, bytes⟩ :=
      readNextBlock_atLink loop.data reads.atLink allocates reads.within
    cases later with
    | nil =>
      simp only [read, readBlock, bind, Except.bind, Bool.false_eq_true, if_false]
      exact .leaves ⟨reads.counts.depth, reads.counts.face⟩
    | cons block later =>
      -- the whole block is there, so what was read is the block itself
      obtain rfl : data.bytes = block := bytes block later rfl
      have next : ReadsBlocks content { loop with file, data, moreData := more }
          ⟨later, true, stored⟩ :=
        ⟨link, fun block inside => reads.within block (List.mem_cons_of_mem _ inside),
          goes, reads.counts.depth, reads.counts.face⟩
      simp only [read, readBlock, bind, Except.bind, if_true]
      exact readFrame_atBlocks stale allocates next
  · exact .leaves ⟨reads.counts.depth, reads.counts.face⟩

theorem ReadAll.readsBlocks_start (content : List UInt8) :
    ReadsBlocks content (.start content) ⟨(chain content).1, true, []⟩ where
  atLink := (BinFile.AtLink.rewind rfl : (BinFile.rewind ⟨content, 0, false⟩).AtLink content _)
  within := fun _ inside => inside
  more := rfl
  counts := ⟨rfl, rfl⟩

end Sqwar.Recording
