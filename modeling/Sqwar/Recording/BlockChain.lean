import Sqwar.Recording.RoundTrip

/-!
# The blocks of a file

Any file is a chain of whole blocks with an incomplete one behind them, which may be empty. As the
reader is rewound to the beginning when it meets the end, it always stands at a link of this chain.
So reading can be told in terms of blocks: at the end of the chain a read reports the size that the
incomplete block declares, and starts over.
-/

set_option autoImplicit false

namespace Sqwar.Recording

open Data Semantics

variable {content rest tail bytes : List UInt8} {blocks later : List (List UInt8)} {file : BinFile}

/-- The size that the block at the front of some bytes declares; what is missing of it is zero. -/
def declaredSize (bytes : List UInt8) : ℕ := decodeLE (bytes.take sizeofSizeT)

/-- The whole blocks of a file, and the bytes behind them. -/
def chain (content : List UInt8) : List (List UInt8) × List UInt8 :=
  if sizeofSizeT + declaredSize content ≤ content.length then
    let (blocks, tail) := chain (content.drop (sizeofSizeT + declaredSize content))
    ((content.drop sizeofSizeT).take (declaredSize content) :: blocks, tail)
  else ([], content)
termination_by content.length
decreasing_by
  rw [List.length_drop]
  unfold sizeofSizeT at *
  omega

/-- A block that is not there in full. -/
def Incomplete (tail : List UInt8) : Prop := tail.length < sizeofSizeT + declaredSize tail

/-- A whole block in front. -/
theorem writeFileData_of_whole (whole : sizeofSizeT + declaredSize content ≤ content.length) :
    content = writeFileData ((content.drop sizeofSizeT).take (declaredSize content)) ++
      content.drop (sizeofSizeT + declaredSize content) := by
  have length : ((content.drop sizeofSizeT).take (declaredSize content)).length =
      declaredSize content := by
    rw [List.length_take, List.length_drop]
    omega
  -- The first eight bytes are the encoding of the size they spell.
  have header : encodeLE sizeofSizeT (declaredSize content) = content.take sizeofSizeT := by
    refine (eq_encodeLE_of_decodeLE_eq ?_ rfl).symm
    rw [List.length_take]
    omega
  rw [writeFileData, length, header, List.append_assoc, ← List.drop_drop, List.take_append_drop,
    List.take_append_drop]

/-- **The chain.** A file is its whole blocks and an incomplete one. -/
theorem chain_spec (content : List UInt8) :
    content = (chain content).1.flatMap writeFileData ++ (chain content).2 ∧
      Incomplete (chain content).2 := by
  induction content using chain.induct with
  | case1 content whole blocks tail split ih =>
    rw [chain, if_pos whole, split]
    rw [split] at ih
    refine ⟨?_, ih.2⟩
    rw [List.flatMap_cons, List.append_assoc, ← ih.1]
    exact writeFileData_of_whole whole
  | case2 content cut =>
    rw [chain, if_neg cut]
    exact ⟨rfl, not_le.mp cut⟩

/-- The chain of a file with a whole block in front. -/
theorem chain_append {block : List UInt8} (fits : block.length ≤ vectorMaxSize)
    (rest : List UInt8) :
    chain (writeFileData block ++ rest) = (block :: (chain rest).1, (chain rest).2) := by
  have length := encodeLE_length sizeofSizeT block.length
  have declared : declaredSize (writeFileData block ++ rest) = block.length := by
    rw [declaredSize, writeFileData, List.append_assoc, List.take_left' length,
      decodeLE_encodeLE (lt_of_le_of_lt fits (by decide))]
  have whole : sizeofSizeT + block.length ≤ (writeFileData block ++ rest).length := by
    rw [List.length_append, writeFileData_length]
    exact Nat.le_add_right _ _
  have behind : (writeFileData block ++ rest).drop (sizeofSizeT + block.length) = rest :=
    List.drop_left' (writeFileData_length block)
  have first : ((writeFileData block ++ rest).drop sizeofSizeT).take block.length = block := by
    rw [writeFileData, List.append_assoc, List.drop_left' length, List.take_left]
  rw [chain, declared, if_pos whole, behind, first]

/-- A file that is shorter than a size is no chain. -/
theorem chain_nil : chain [] = ([], []) := by
  rw [chain, if_neg (by decide)]

/-- The stream is good and stands at a link of the chain. -/
structure BinFile.AtLink (file : BinFile) (content : List UInt8) (later : List (List UInt8)) :
    Prop where
  same : file.content = content
  stands : file.At (later.flatMap writeFileData ++ (chain content).2)

theorem BinFile.AtLink.rewind (same : file.content = content) :
    file.rewind.AtLink content (chain content).1 where
  same := same
  stands := ⟨rfl, by rw [← (chain_spec content).1]; exact same⟩

/-! ### Reading in blocks -/

/-- What a read of a block reports: whether it is whole, its size, and the blocks behind it. -/
structure BlockRead where
  whole : Bool
  size : ℕ
  later : List (List UInt8)

/-- A read at a link of the chain. -/
def readBlock (content : List UInt8) : List (List UInt8) → BlockRead
  | [] => ⟨false, declaredSize (chain content).2, (chain content).1⟩
  | block :: later => ⟨true, block.length, later⟩

/-- The sizes that the blocks declare can be allocated. -/
structure Allocates (content : List UInt8) : Prop where
  blocks : ∀ block ∈ (chain content).1, block.length ≤ vectorMaxSize
  tail : declaredSize (chain content).2 ≤ vectorMaxSize

/-- A file that ends with a whole block declares no size that it does not hold. -/
theorem allocates_of_whole (small : content.length ≤ vectorMaxSize)
    (whole : (chain content).2 = []) : Allocates content where
  blocks := by
    intro block inside
    -- A whole block lies in the file, which is small.
    obtain ⟨before, behind, split⟩ := List.append_of_mem inside
    have length := congrArg List.length (chain_spec content).1
    rw [split, List.flatMap_append, List.flatMap_cons] at length
    simp only [List.length_append, writeFileData_length] at length
    omega
  tail := by
    rw [whole]
    exact Nat.zero_le _

theorem BinFile.read_content (file : BinFile) (count : ℕ) :
    (file.read count).2.content = file.content := by
  unfold BinFile.read
  split_ifs <;> rfl

/-- No read changes the file. -/
theorem readNextBlock_content {data data' : ByteVector} {more : Bool} {file' : BinFile}
    (reads : readNextBlock file data = .ok (more, file', data')) :
    file'.content = file.content := by
  obtain ⟨resized, -, rest⟩ := bind_eq_ok_iff.mp reads
  dsimp only at rest
  split_ifs at rest
  all_goals
    obtain ⟨-, same, -⟩ : _ ∧ _ ∧ _ := by simpa only [Except.ok.injEq, Prod.mk.injEq] using rest
    rw [← same]
  · exact (BinFile.read_content _ _).trans (BinFile.read_content _ _)
  · exact (BinFile.read_content _ _).trans (BinFile.read_content _ _)

theorem ByteVector.fill_length (vector : ByteVector)
    (within : bytes.length ≤ vector.bytes.length) :
    (vector.fill bytes).bytes.length = vector.bytes.length := by
  change ((overwrite vector.bytes 0 bytes).take vector.bytes.length).length = _
  rw [List.length_take, overwrite_length _ _ (by omega), min_self]

/-- The end of the chain: the incomplete block is not read, and its size is what is left of it. -/
theorem readNextBlock_of_incomplete (data : ByteVector) (stands : file.At tail)
    (incomplete : Incomplete tail) (fits : declaredSize tail ≤ vectorMaxSize) :
    ∃ ended data', readNextBlock file data = .ok (false, BinFile.rewind ended, data') ∧
      data'.bytes.length = declaredSize tail := by
  obtain ⟨resized, resize, length⟩ := ByteVector.resize_eq_ok data fits
  rcases lt_or_ge tail.length sizeofSizeT with inSize | behindSize
  · -- the size is cut short, and nothing is read behind it
    obtain ⟨ended, header, eof⟩ := stands.read_of_lt sizeofSizeT inSize
    have size : decodeLE tail = declaredSize tail := by
      rw [declaredSize, List.take_of_length_le inSize.le]
    have nothing : ∀ count, ended.read count = ([], ended) := fun count => by
      simp [BinFile.read, eof]
    refine ⟨ended, resized.fill [], ?_, ?_⟩
    · simp only [readNextBlock, header, size, resize, nothing, eof, bind, Except.bind, if_true]
    · rw [ByteVector.fill_length _ (Nat.zero_le _), length]
  -- the size is there in full, but more is declared than follows it
  · have split : tail.take sizeofSizeT ++ tail.drop sizeofSizeT = tail :=
      List.take_append_drop _ _
    rw [← split] at stands
    obtain ⟨behind, stands', header⟩ := stands.read
    rw [List.length_take, min_eq_left behindSize] at header
    have short : (tail.drop sizeofSizeT).length < declaredSize tail := by
      rw [List.length_drop]
      unfold Incomplete at incomplete
      omega
    obtain ⟨ended, payload, eof⟩ := stands'.read_of_lt (declaredSize tail) short
    refine ⟨ended, resized.fill (tail.drop sizeofSizeT), ?_, ?_⟩
    · simp only [declaredSize] at payload resize
      simp only [readNextBlock, header, resize, payload, eof, bind, Except.bind, if_true]
    · rw [ByteVector.fill_length _ (by omega), length]

/-- **Reading in blocks.** `ReadNextBlock` at a link of the chain reads as `readBlock` tells. -/
theorem readNextBlock_atLink (data : ByteVector) (atLink : file.AtLink content later)
    (allocates : Allocates content) (within : ∀ block ∈ later, block ∈ (chain content).1) :
    ∃ file' data', readNextBlock file data =
        .ok ((readBlock content later).whole, file', data') ∧
      file'.AtLink content (readBlock content later).later ∧
      data'.bytes.length = (readBlock content later).size ∧
      ∀ block blocks, later = block :: blocks → data'.bytes = block := by
  have stands := atLink.stands
  cases later with
  | nil =>
    obtain ⟨ended, data', reads, length⟩ := readNextBlock_of_incomplete data stands
      (chain_spec content).2 allocates.tail
    have same : ended.content = content := (readNextBlock_content reads).trans atLink.same
    exact ⟨ended.rewind, data', reads, .rewind same, length, by simp⟩
  | cons block later =>
    rw [List.flatMap_cons, List.append_assoc] at stands
    have fits := allocates.blocks block (within block List.mem_cons_self)
    obtain ⟨file', stands', reads⟩ := readNextBlock_of_block stands fits
    refine ⟨file', ⟨block, fits⟩, reads data, ⟨?_, stands'⟩, rfl, ?_⟩
    · exact (readNextBlock_content (reads data)).trans atLink.same
    · rintro _ _ ⟨⟩
      rfl

end Sqwar.Recording
