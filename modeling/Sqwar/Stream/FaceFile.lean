import Mathlib.Data.ZMod.Defs
import Sqwar.Recording.RoundTrip

/-!
# The face file of the player

`Player::Initialize` reads three blocks of `face.bin`, and `BackgroundThread` copies the first 16
values of the second one into every frame. Nothing looks at the state of the stream or at the sizes
of the vectors.
-/

set_option autoImplicit false

namespace Sqwar.Stream

open Data Recording

/-- `sizeof(uint16_t)`. -/
def sizeofUint16 : ℕ := 2

/-- What a call of `ReadBlock` gets from the stream: how many bytes of the length, the length it
works with, and how many bytes of the data. -/
structure BlockRead where
  sizeBytes : ℕ
  sz : ℕ
  dataBytes : ℕ
  deriving DecidableEq, Repr

/-- `ReadBlock` into a vector of elements of `width` bytes. Bytes of the length that are not read
are those of the stack; the data can be longer than the elements. -/
def readBlock (width : ℕ) (stack : Word sizeofSizeT) (fs : BinFile) (data : ByteVector) :
    Except Fault (BlockRead × BinFile × ByteVector) := do
  let (sizeBytes, fs) := fs.read sizeofSizeT
  let sz := decodeLE (overwrite (encodeLE sizeofSizeT stack) 0 sizeBytes)
  let data ← data.resize (sz / width * width)
  let (bytes, fs) := fs.read sz
  if data.bytes.length < bytes.length then .error .outOfBounds
  else .ok (⟨sizeBytes.length, sz, bytes.length⟩, fs, data.fill bytes)

/-- `m_faceReader` on the content of `face.bin`; the stream of a missing file has failed. -/
def openFaceReader : Option (List UInt8) → BinFile
  | none => ⟨[], 0, true⟩
  | some content => ⟨content, 0, false⟩

/-- What `Initialize` reads of `face.bin`: the blocks, `m_depthVals` and `m_indices`. -/
structure FaceHeader where
  blocks : List BlockRead
  depthVals : ByteVector
  indices : ByteVector
  deriving DecidableEq

/-- `Player::Initialize`, with what the local of each `ReadBlock` holds at first. -/
def doInitialize (locals : Fin 3 → Word sizeofSizeT) (faceBin : Option (List UInt8)) :
    Except Fault FaceHeader := do
  let fs := openFaceReader faceBin
  let (data, fs, _) ← readBlock sizeofSizeT (locals 0) fs .empty
  let (depths, fs, depthVals) ← readBlock sizeofFloat (locals 1) fs .empty
  let (faces, _, indices) ← readBlock sizeofUint16 (locals 2) fs .empty
  return ⟨[data, depths, faces], depthVals, indices⟩

/-- `memcpy(data.depthData.data(), m_depthVals.data(), sizeof(float) * 16)`. -/
def copyDepthVals (depthVals : ByteVector) : Except Fault (List UInt8) :=
  if depthVals.bytes.length < sizeofFloat * 16 then .error .outOfBounds
  else .ok (depthVals.bytes.take (sizeofFloat * 16))

/-- What `BackgroundThread` copies into its first frames. A player that does not stream leaves the
loop behind `Initialize`. -/
def copiedHeaders (locals : Fin 3 → Word sizeofSizeT) (faceBin : Option (List UInt8))
    (streaming : Bool) (frames : ℕ) : Except Fault (List (List UInt8)) := do
  let header ← doInitialize locals faceBin
  if streaming then (List.range frames).mapM fun _ => copyDepthVals header.depthVals
  else return []

/-- A block whose length and data were read. -/
def BlockRead.Whole (block : BlockRead) : Prop :=
  block.sizeBytes = sizeofSizeT ∧ block.dataBytes = block.sz

/-- `Initialize`, which goes on after every block, has read all of them whole, and all copies are
inside the vector. -/
def PlaysSafely (locals : Fin 3 → Word sizeofSizeT) (faceBin : Option (List UInt8))
    (streaming : Bool) : Prop :=
  ∃ header, doInitialize locals faceBin = .ok header ∧ (∀ block ∈ header.blocks, block.Whole) ∧
    ∀ frames, ∃ headers, copiedHeaders locals faceBin streaming frames = .ok headers

/-- Bytes that are the elements of a vector, each of `width` bytes. -/
structure Elements (width : ℕ) (bytes : List UInt8) : Prop where
  fits : bytes.length ≤ vectorMaxSize
  aligned : width ∣ bytes.length

/-! ### One block -/

variable {width : ℕ} {stack : Word sizeofSizeT} {fs fs' : BinFile} {data data' : ByteVector}
  {bytes rest : List UInt8} {block : BlockRead}

theorem readBlock_of_block (stands : fs.At (writeFileData bytes ++ rest))
    (elements : Elements width bytes) (stack : Word sizeofSizeT) (data : ByteVector) :
    ∃ fs' block, fs'.At rest ∧ block.Whole ∧
      readBlock width stack fs data = .ok (block, fs', ⟨bytes, elements.fits⟩) := by
  have fits := elements.fits
  rw [writeFileData, List.append_assoc] at stands
  obtain ⟨behindSize, stands', size⟩ := stands.read
  obtain ⟨fs', stands'', payload⟩ := stands'.read
  have length := encodeLE_length sizeofSizeT bytes.length
  rw [length] at size
  -- all bytes of the length come from the file
  have sz : decodeLE (overwrite (encodeLE sizeofSizeT stack) 0
      (encodeLE sizeofSizeT bytes.length)) = bytes.length := by
    rw [overwrite_zero, length, List.drop_of_length_le (encodeLE_length _ _).le, List.append_nil,
      decodeLE_encodeLE (lt_of_le_of_lt fits (by decide))]
  have count : bytes.length / width * width = bytes.length := Nat.div_mul_cancel elements.aligned
  obtain ⟨resized, resize, resized_length⟩ := ByteVector.resize_eq_ok data fits
  have filled : resized.fill bytes = ⟨bytes, fits⟩ :=
    ByteVector.ext (ByteVector.fill_of_length_eq resized_length.symm)
  refine ⟨fs', ⟨sizeofSizeT, bytes.length, bytes.length⟩, stands'', ⟨rfl, rfl⟩, ?_⟩
  simp only [readBlock, size, sz, count, resize, payload, filled, length, resized_length, bind,
    Except.bind, lt_irrefl, if_false]

/-- Bytes that were read whole were there. -/
theorem at_of_read {count : ℕ} {got : List UInt8} (good : fs.eof = false)
    (reads : fs.read count = (got, fs')) (whole : got.length = count) :
    ∃ rest, fs.At (got ++ rest) ∧ fs'.At rest := by
  rw [BinFile.read, if_neg (Bool.eq_false_iff.mp good)] at reads
  obtain ⟨rfl, rfl⟩ := Prod.mk.inj reads
  refine ⟨(fs.content.drop fs.pos).drop count, ⟨good, (List.take_append_drop _ _).symm⟩, ?_, ?_⟩
  · rw [whole]
    exact decide_eq_false (lt_irrefl count)
  · rw [whole, List.drop_drop]

theorem read_of_eof (failed : fs.eof = true) (count : ℕ) : fs.read count = ([], fs) := if_pos failed

/-- **What a whole block says about the file**: it was there, and has whole elements. -/
theorem block_of_readBlock
    (reads : readBlock width stack fs data = .ok (block, fs', data')) (whole : block.Whole) :
    ∃ bytes rest, fs.At (writeFileData bytes ++ rest) ∧ Elements width bytes ∧ fs'.At rest ∧
      data'.bytes = bytes := by
  rcases size : fs.read sizeofSizeT with ⟨sizeBytes, behindSize⟩
  rcases payload : behindSize.read
    (decodeLE (overwrite (encodeLE sizeofSizeT stack) 0 sizeBytes)) with ⟨bytes, behind⟩
  simp only [readBlock, size, payload] at reads
  obtain ⟨resized, resize, stored⟩ := Semantics.bind_eq_ok_iff.mp reads
  split at stored
  · cases stored
  · rename_i inside
    obtain ⟨rfl, rfl, rfl⟩ : _ = block ∧ behind = fs' ∧ resized.fill bytes = data' := by
      simpa using Except.ok.inj stored
    obtain ⟨whole_size, whole_data⟩ := whole
    simp only at whole_size whole_data
    have good : fs.eof = false := by
      by_contra failed
      rw [read_of_eof (Bool.not_eq_false _ ▸ failed)] at size
      obtain ⟨rfl, -⟩ := Prod.mk.inj size
      cases whole_size
    obtain ⟨left, stands, stands'⟩ := at_of_read good size whole_size
    obtain ⟨rest, stands'', behind_at⟩ := at_of_read stands'.good payload whole_data
    -- all bytes of the length come from the file
    have sz : decodeLE (overwrite (encodeLE sizeofSizeT stack) 0 sizeBytes) =
        decodeLE sizeBytes := by
      rw [overwrite_zero, List.drop_of_length_le, List.append_nil]
      rw [encodeLE_length, whole_size]
    rw [sz] at whole_data resize
    obtain ⟨length, fits⟩ := ByteVector.length_of_resize resize
    have elements : decodeLE sizeBytes / width * width = decodeLE sizeBytes :=
      le_antisymm (Nat.div_mul_le_self _ _) (by omega)
    have header : sizeBytes = encodeLE sizeofSizeT bytes.length :=
      eq_encodeLE_of_decodeLE_eq whole_size whole_data.symm
    refine ⟨bytes, rest, ?_, ⟨by omega, ?_⟩, behind_at, ?_⟩
    · rw [writeFileData, ← header, List.append_assoc, stands''.rest.symm.trans stands'.rest]
      exact stands
    · exact ⟨bytes.length / width, by rw [whole_data, mul_comm, elements]⟩
    · exact ByteVector.fill_of_length_eq (by rw [length, elements, whole_data])

/-! ### The whole header -/

variable {locals : Fin 3 → Word sizeofSizeT} {faceBin : Option (List UInt8)} {header : FaceHeader}
  {first depths third : List UInt8} {streaming : Bool}

theorem doInitialize_of_blocks
    (content : faceBin = some (writeFileData first ++
      (writeFileData depths ++ (writeFileData third ++ rest))))
    (elements : Elements sizeofSizeT first ∧ Elements sizeofFloat depths ∧
      Elements sizeofUint16 third) :
    ∃ header, doInitialize locals faceBin = .ok header ∧ (∀ block ∈ header.blocks, block.Whole) ∧
      header.depthVals.bytes = depths := by
  obtain ⟨elements1, elements2, elements3⟩ := elements
  have opened : (openFaceReader faceBin).At (writeFileData first ++
      (writeFileData depths ++ (writeFileData third ++ rest))) := by
    rw [content]
    exact ⟨rfl, rfl⟩
  obtain ⟨fs1, block1, stands1, whole1, reads1⟩ :=
    readBlock_of_block opened elements1 (locals 0) .empty
  obtain ⟨fs2, block2, stands2, whole2, reads2⟩ :=
    readBlock_of_block stands1 elements2 (locals 1) .empty
  obtain ⟨fs3, block3, -, whole3, reads3⟩ :=
    readBlock_of_block stands2 elements3 (locals 2) .empty
  refine ⟨⟨[block1, block2, block3], ⟨depths, elements2.fits⟩, ⟨third, elements3.fits⟩⟩, ?_, ?_,
    rfl⟩
  · simp only [doInitialize, reads1, reads2, reads3, bind, Except.bind, pure, Except.pure]
  · simp [whole1, whole2, whole3]

theorem blocks_of_doInitialize (initialized : doInitialize locals faceBin = .ok header)
    (whole : ∀ block ∈ header.blocks, block.Whole) :
    ∃ first third rest, faceBin = some (writeFileData first ++
        (writeFileData header.depthVals.bytes ++ (writeFileData third ++ rest))) ∧
      Elements sizeofSizeT first ∧ Elements sizeofFloat header.depthVals.bytes ∧
      Elements sizeofUint16 third := by
  obtain ⟨⟨block1, fs1, data1⟩, reads1, next⟩ := Semantics.bind_eq_ok_iff.mp initialized
  obtain ⟨⟨block2, fs2, data2⟩, reads2, next⟩ := Semantics.bind_eq_ok_iff.mp next
  obtain ⟨⟨block3, fs3, data3⟩, reads3, next⟩ := Semantics.bind_eq_ok_iff.mp next
  obtain rfl := Except.ok.inj next
  simp only [List.forall_mem_cons] at whole
  obtain ⟨whole1, whole2, whole3, -⟩ := whole
  obtain ⟨first, rest1, stands1, elements1, behind1, -⟩ := block_of_readBlock reads1 whole1
  obtain ⟨depths, rest2, stands2, elements2, behind2, rfl⟩ := block_of_readBlock reads2 whole2
  obtain ⟨third, rest3, stands3, elements3, -, -⟩ := block_of_readBlock reads3 whole3
  refine ⟨first, third, rest3, ?_, elements1, elements2, elements3⟩
  change faceBin = some (writeFileData first ++ (writeFileData data2.bytes ++ _))
  rw [stands3.rest.symm.trans behind2.rest, stands2.rest.symm.trans behind1.rest]
  cases faceBin with
  | none => cases stands1.good
  | some content => exact congrArg some stands1.rest

/-- The first copy tells whether there are sixteen values. -/
theorem copiedHeaders_iff (initialized : doInitialize locals faceBin = .ok header) :
    (∀ frames, ∃ headers, copiedHeaders locals faceBin streaming frames = .ok headers) ↔
      (streaming → sizeofFloat * 16 ≤ header.depthVals.bytes.length) := by
  constructor
  · rintro copies rfl
    obtain ⟨headers, copied⟩ := copies 1
    by_contra few
    simp [copiedHeaders, initialized, copyDepthVals, Nat.not_le.mp few, bind, Except.bind] at copied
  · intro enough frames
    cases streaming with
    | false =>
      exact ⟨[], by simp [copiedHeaders, initialized, bind, Except.bind, pure, Except.pure]⟩
    | true =>
      have copied : copyDepthVals header.depthVals =
          pure (header.depthVals.bytes.take (sizeofFloat * 16)) :=
        if_neg (Nat.not_lt.mpr (enough rfl))
      refine ⟨(List.range frames).map fun _ => header.depthVals.bytes.take (sizeofFloat * 16), ?_⟩
      rw [copiedHeaders, initialized]
      change (List.range frames).mapM (fun _ => copyDepthVals header.depthVals) = _
      simp only [copied]
      exact List.mapM_pure

/-- **When the player plays safely**: if the file begins with three whole blocks of elements of
eight, four and two bytes, and, if it streams, the second one has sixteen of them. -/
theorem playsSafely_iff (locals : Fin 3 → Word sizeofSizeT) (faceBin : Option (List UInt8))
    (streaming : Bool) : PlaysSafely locals faceBin streaming ↔
      ∃ first depths third rest, faceBin = some (writeFileData first ++
          (writeFileData depths ++ (writeFileData third ++ rest))) ∧
        (Elements sizeofSizeT first ∧ Elements sizeofFloat depths ∧ Elements sizeofUint16 third) ∧
        (streaming → sizeofFloat * 16 ≤ depths.length) := by
  constructor
  · rintro ⟨header, initialized, whole, copies⟩
    obtain ⟨first, third, rest, content, elements⟩ := blocks_of_doInitialize initialized whole
    exact ⟨first, header.depthVals.bytes, third, rest, content, elements,
      (copiedHeaders_iff initialized).mp copies⟩
  · rintro ⟨first, depths, third, rest, content, elements, enough⟩
    obtain ⟨header, initialized, whole, rfl⟩ := doInitialize_of_blocks content elements
    exact ⟨header, initialized, whole, (copiedHeaders_iff initialized).mpr enough⟩

theorem not_playsSafely_of_not_whole {blocks : List BlockRead}
    (reads : FaceHeader.blocks <$> doInitialize locals faceBin = .ok blocks)
    (member : block ∈ blocks) (cut : ¬ block.Whole) : ¬ PlaysSafely locals faceBin streaming := by
  rintro ⟨header, initialized, whole, -⟩
  rw [initialized] at reads
  exact cut (whole block (Except.ok.inj reads ▸ member))

/-- Three whole blocks, of one, fifteen and no elements. -/
def fifteenValues : List UInt8 :=
  writeFileData (List.replicate 8 0) ++ (writeFileData (List.replicate 60 0) ++ writeFileData [])

/-- **A bad file derails the player.** The lengths of a missing file are those of the stack, a block
whose data was cut off is taken as it is, and fifteen values are copied beyond their end. -/
theorem not_playsSafely_fifteenValues :
    ¬ PlaysSafely (fun _ => 64) none true ∧
      ¬ PlaysSafely 0 (some (fifteenValues.take 30)) true ∧
      ¬ PlaysSafely 0 (some fifteenValues) true := by
  have missing : FaceHeader.blocks <$> doInitialize (fun _ => 64) none =
      .ok [⟨0, 64, 0⟩, ⟨0, 64, 0⟩, ⟨0, 64, 0⟩] := by decide +kernel
  have cut : FaceHeader.blocks <$> doInitialize 0 (some (fifteenValues.take 30)) =
      .ok [⟨8, 8, 8⟩, ⟨8, 60, 6⟩, ⟨0, 0, 0⟩] := by decide +kernel
  have beyond : copiedHeaders 0 (some fifteenValues) true 1 = .error .outOfBounds := by
    decide +kernel
  refine ⟨?_, ?_, ?_⟩
  · exact not_playsSafely_of_not_whole missing List.mem_cons_self fun whole => by cases whole.1
  · exact not_playsSafely_of_not_whole cut (List.mem_cons_of_mem _ List.mem_cons_self)
      fun whole => by cases whole.2
  · rintro ⟨header, initialized, whole, copies⟩
    obtain ⟨headers, copied⟩ := copies 1
    rw [beyond] at copied
    cases copied

end Sqwar.Stream
