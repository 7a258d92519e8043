import Sqwar.Recording.Reader

/-!
# A recording is read back

Each call of a writer is undone by one pass of `ReadAllBlocks`: it takes the tag block in its
condition and the other three in its body, so payloads are never looked at as tags. The passes
over a whole file leave the reader at its end, where the next block is missing and the loop stops.
-/

set_option autoImplicit false

namespace Sqwar.Recording

open Data Semantics

/-- The stream is good and stands before these bytes, the last of the file. -/
structure BinFile.At (file : BinFile) (rest : List UInt8) : Prop where
  good : file.eof = false
  rest : file.content.drop file.pos = rest

variable {file : BinFile} {bytes rest : List UInt8}
  {stale : ℕ → DepthDataProps} {loop : ReadAll} {stored : List Record}

theorem BinFile.At.read (stands : file.At (bytes ++ rest)) :
    ∃ file', file'.At rest ∧ file.read bytes.length = (bytes, file') := by
  refine ⟨{ file with pos := file.pos + bytes.length }, ⟨stands.good, ?_⟩, ?_⟩
  · simp only [← List.drop_drop, stands.rest, List.drop_left]
  · simp [BinFile.read, stands.good, stands.rest]

theorem BinFile.At.read_of_lt (stands : file.At rest) (count : ℕ) (short : rest.length < count) :
    ∃ file', file.read count = (rest, file') ∧ file'.eof = true := by
  have all : rest.take count = rest := List.take_of_length_le short.le
  exact ⟨⟨file.content, file.pos + rest.length, true⟩,
    by simp [BinFile.read, stands.good, stands.rest, all, short], rfl⟩

/-- A block that is there in full is read, and the file is left behind it. -/
theorem readNextBlock_of_block (stands : file.At (writeFileData bytes ++ rest))
    (fits : bytes.length ≤ vectorMaxSize) :
    ∃ file', file'.At rest ∧
      ∀ data, readNextBlock file data = .ok (true, file', ⟨bytes, fits⟩) := by
  rw [writeFileData, List.append_assoc] at stands
  have size : decodeLE (encodeLE sizeofSizeT bytes.length) = bytes.length :=
    decodeLE_encodeLE (lt_of_le_of_lt fits (by decide))
  obtain ⟨behindSize, stands', header⟩ := stands.read
  rw [encodeLE_length] at header
  obtain ⟨file', stands'', payload⟩ := stands'.read
  refine ⟨file', stands'', fun data => ?_⟩
  obtain ⟨resized, resize, length⟩ := ByteVector.resize_eq_ok data fits
  have filled : resized.fill bytes = ⟨bytes, fits⟩ :=
    ByteVector.ext (ByteVector.fill_of_length_eq length.symm)
  simp only [readNextBlock, header, size, resize, payload, filled, stands''.good, bind, Except.bind,
    Bool.false_eq_true, if_false]

/-- Behind the last whole block, a block that was cut short, or never begun, is not read. -/
theorem readNextBlock_of_cut (data : ByteVector) {n : ℕ}
    (stands : file.At ((writeFileData bytes).take n))
    (cut : n < (writeFileData bytes).length) (fits : bytes.length ≤ vectorMaxSize) :
    ∃ file' data', readNextBlock file data = .ok (false, file', data') := by
  have size : decodeLE (encodeLE sizeofSizeT bytes.length) = bytes.length :=
    decodeLE_encodeLE (lt_of_le_of_lt fits (by decide))
  rw [writeFileData_length] at cut
  rw [writeFileData] at stands
  rcases lt_or_ge n sizeofSizeT with inSize | behindSize
  · -- part of the size: what is missing of it stays zero
    rw [List.take_append_of_le_length (by rw [encodeLE_length]; exact inSize.le)] at stands
    have small : decodeLE ((encodeLE sizeofSizeT bytes.length).take n) ≤ vectorMaxSize :=
      (decodeLE_take_le _ _).trans (size.le.trans fits)
    obtain ⟨ended, header, eof⟩ := stands.read_of_lt sizeofSizeT
      (by rw [List.length_take, encodeLE_length]; omega)
    obtain ⟨resized, resize, -⟩ := ByteVector.resize_eq_ok data small
    have nothing : ∀ count, ended.read count = ([], ended) := fun count => by
      simp [BinFile.read, eof]
    refine ⟨ended.rewind, resized.fill [], ?_⟩
    simp only [readNextBlock, header, resize, nothing, eof, bind, Except.bind, if_true]
  -- the whole size, and part of the data
  · rw [List.take_append, encodeLE_length, List.take_of_length_le
      (by rw [encodeLE_length]; exact behindSize)] at stands
    obtain ⟨behind, stands', header⟩ := stands.read
    rw [encodeLE_length] at header
    obtain ⟨ended, payload, eof⟩ := stands'.read_of_lt bytes.length
      (by rw [List.length_take]; omega)
    obtain ⟨resized, resize, -⟩ := ByteVector.resize_eq_ok data fits
    refine ⟨ended.rewind, resized.fill (bytes.take (n - sizeofSizeT)), ?_⟩
    simp only [readNextBlock, header, size, resize, payload, eof, bind, Except.bind, if_true]

/-! ### One record -/

/-- The reader is in the middle of a file: it stands before some bytes and has stored the
frames of some records. -/
structure ReadAll.Before (loop : ReadAll) (rest : List UInt8) (stored : List Record) : Prop where
  more : loop.moreData = true
  stands : loop.file.At rest
  depthFrames : loop.depthFrames = depthFramesOf stored
  faceFrames : loop.faceFrames = faceFramesOf stored

theorem ReadAll.before_start (content : List UInt8) : (ReadAll.start content).Before content [] :=
  ⟨rfl, ⟨rfl, rfl⟩, rfl, rfl⟩

/-- A pass at a whole block goes on with that block as its data. -/
theorem readAllBody_of_block (stale : ℕ → DepthDataProps)
    (before : loop.Before (writeFileData bytes ++ rest) stored)
    (fits : bytes.length ≤ vectorMaxSize) :
    ∃ loop', loop'.Before rest stored ∧ loop'.data.bytes = bytes ∧
      readAllBody stale loop = (readFrame stale loop').map .inl := by
  obtain ⟨file, stands, block⟩ := readNextBlock_of_block before.stands fits
  refine ⟨{ loop with file, data := ⟨bytes, fits⟩ },
    ⟨before.more, stands, before.depthFrames, before.faceFrames⟩, rfl, ?_⟩
  simp only [readAllBody, before.more, block, if_true, bind, Except.bind]
  rfl

theorem copyDepthProps_toBytes (old props : DepthDataProps)
    (fits : props.toBytes.length ≤ vectorMaxSize) :
    copyDepthProps old ⟨props.toBytes, fits⟩ = .ok props := by
  have whole : old.toBytes.drop sizeofDepthDataProps = [] :=
    List.drop_eq_nil_of_le (by simp)
  simp [copyDepthProps, overwrite_zero, whole]

theorem copyFaceProps_toBytes (props : FaceDataProps)
    (fits : props.toBytes.length ≤ vectorMaxSize) :
    copyFaceProps ⟨props.toBytes, fits⟩ = .ok props := by
  have whole : props.toBytes.take sizeofFaceDataProps = props.toBytes :=
    List.take_of_length_le (by simp)
  simp [copyFaceProps, whole]

theorem DepthDataProps.toBytes_fits (props : DepthDataProps) :
    props.toBytes.length ≤ vectorMaxSize := by
  rw [DepthDataProps.toBytes_length]
  decide

theorem FaceDataProps.toBytes_fits (props : FaceDataProps) :
    props.toBytes.length ≤ vectorMaxSize := by
  rw [FaceDataProps.toBytes_length]
  decide

theorem readFrame_of_depthTag (tag : loop.data.bytes = encodeLE sizeofSizeT depthTag) :
    readFrame stale loop = readDepthFrame (stale loop.depthFrames.length) loop := by
  have length : (encodeLE sizeofSizeT depthTag).length = 8 := by decide
  have value : decodeLE (encodeLE sizeofSizeT depthTag) = depthTag := by decide
  simp only [readFrame, tag, length, value, if_true]

theorem readFrame_of_faceTag (tag : loop.data.bytes = encodeLE sizeofSizeT faceTag) :
    readFrame stale loop = readFaceFrame loop := by
  have length : (encodeLE sizeofSizeT faceTag).length = 8 := by decide
  have value : decodeLE (encodeLE sizeofSizeT faceTag) = faceTag := by decide
  have other : faceTag ≠ depthTag := by decide
  simp only [readFrame, tag, length, value, other, if_true, if_false]

/-- Behind its tag, a depth record is stored. -/
theorem readFrame_of_depth (frame : DepthFrame)
    (before : loop.Before (writeFileData frame.props.toBytes ++
      (writeFileData frame.vidData.bytes ++ writeFileData frame.depthData.toBytes.bytes) ++ rest)
      stored)
    (tag : loop.data.bytes = encodeLE sizeofSizeT depthTag) :
    ∃ loop', readFrame stale loop = .ok loop' ∧ loop'.Before rest (stored ++ [.depth frame]) := by
  have stands := before.stands
  simp only [List.append_assoc] at stands
  obtain ⟨file₁, stands₁, props⟩ :=
    readNextBlock_of_block stands (DepthDataProps.toBytes_fits frame.props)
  obtain ⟨file₂, stands₂, vidData⟩ := readNextBlock_of_block stands₁ frame.vidData.fits
  obtain ⟨file₃, stands₃, depthData⟩ :=
    readNextBlock_of_block stands₂ frame.depthData.toBytes.fits
  have copied := copyDepthProps_toBytes (stale loop.depthFrames.length) frame.props
    (DepthDataProps.toBytes_fits frame.props)
  -- What the props held before is overwritten in full.
  have words := WordVector.ofBytes_toBytes (by decide) frame.depthData
  have reads : readDepthFrame (stale loop.depthFrames.length) loop = .ok { loop with
      file := file₃
      data := ⟨frame.props.toBytes, DepthDataProps.toBytes_fits frame.props⟩
      depthFrames := loop.depthFrames ++ [frame] } := by
    simp only [readDepthFrame, props, vidData, depthData, copied, words, bind, Except.bind,
      Bool.and_true]
  refine ⟨_, (readFrame_of_depthTag tag).trans reads, before.more, stands₃, ?_, ?_⟩
  · simp [before.depthFrames, depthFramesOf]
  · simp [before.faceFrames, faceFramesOf]

/-- Behind its tag, a face record is stored. -/
theorem readFrame_of_face (frame : FaceFrame)
    (before : loop.Before (writeFileData frame.props.toBytes ++
      (writeFileData frame.vertices.toBytes.bytes ++ writeFileData frame.indices.toBytes.bytes) ++
        rest) stored)
    (tag : loop.data.bytes = encodeLE sizeofSizeT faceTag) :
    ∃ loop', readFrame stale loop = .ok loop' ∧ loop'.Before rest (stored ++ [.face frame]) := by
  have stands := before.stands
  simp only [List.append_assoc] at stands
  obtain ⟨file₁, stands₁, props⟩ :=
    readNextBlock_of_block stands (FaceDataProps.toBytes_fits frame.props)
  obtain ⟨file₂, stands₂, vertices⟩ := readNextBlock_of_block stands₁ frame.vertices.toBytes.fits
  obtain ⟨file₃, stands₃, indices⟩ := readNextBlock_of_block stands₂ frame.indices.toBytes.fits
  have copied := copyFaceProps_toBytes frame.props (FaceDataProps.toBytes_fits frame.props)
  have floats := WordVector.ofBytes_toBytes (by decide) frame.vertices
  have shorts := WordVector.ofBytes_toBytes (by decide) frame.indices
  have reads : readFaceFrame loop = .ok { loop with
      file := file₃
      data := frame.indices.toBytes
      faceFrames := loop.faceFrames ++ [frame] } := by
    simp only [readFaceFrame, props, vertices, indices, copied, floats, shorts, bind, Except.bind,
      Bool.and_true]
  refine ⟨_, (readFrame_of_faceTag tag).trans reads, before.more, stands₃, ?_, ?_⟩
  · simp [before.depthFrames, depthFramesOf]
  · simp [before.faceFrames, faceFramesOf]

/-- **Step lemma.** One pass reads one record and stores its frame. -/
theorem readAllBody_of_record (stale : ℕ → DepthDataProps) (record : Record)
    (before : loop.Before (record.write ++ rest) stored) :
    ∃ loop', readAllBody stale loop = .ok (.inl loop') ∧
      loop'.Before rest (stored ++ [record]) := by
  cases record with
  | depth frame =>
    simp only [Record.write, writeDepthDataToFile, List.append_assoc] at before
    obtain ⟨tagged, before', tag, pass⟩ := readAllBody_of_block stale before (by decide)
    obtain ⟨loop', reads, after⟩ :=
      readFrame_of_depth frame (by simpa only [List.append_assoc] using before') tag
    exact ⟨loop', by rw [pass, reads]; rfl, after⟩
  | face frame =>
    simp only [Record.write, writeFaceDataToFile, List.append_assoc] at before
    obtain ⟨tagged, before', tag, pass⟩ := readAllBody_of_block stale before (by decide)
    obtain ⟨loop', reads, after⟩ :=
      readFrame_of_face frame (by simpa only [List.append_assoc] using before') tag
    exact ⟨loop', by rw [pass, reads]; rfl, after⟩

/-- **Run lemma.** The loop reads all the records before it, and ends as from behind them. -/
theorem finishes_iff_of_records (stale : ℕ → DepthDataProps) (records : List Record)
    (before : loop.Before (writeAll records ++ rest) stored) :
    ∃ loop', loop'.Before rest (stored ++ records) ∧
      ∀ final, Finishes (readAllBody stale) loop final ↔
        Finishes (readAllBody stale) loop' final := by
  induction records generalizing loop stored with
  | nil => exact ⟨loop, by simpa using before, fun _ => Iff.rfl⟩
  | cons record records ih =>
    rw [writeAll_cons, List.append_assoc] at before
    obtain ⟨next, pass, before'⟩ := readAllBody_of_record stale record before
    obtain ⟨loop', after, ends⟩ := ih before'
    exact ⟨loop', by simpa using after, fun final => (finishes_iff_of_step pass).trans (ends final)⟩

/-- The loop ends at a tag block that is not there in full. -/
theorem readAllBody_of_cut (stale : ℕ → DepthDataProps) {n : ℕ}
    (before : loop.Before ((writeFileData bytes).take n) stored)
    (cut : n < (writeFileData bytes).length) (fits : bytes.length ≤ vectorMaxSize) :
    ∃ final, readAllBody stale loop = .ok (.inr final) ∧
      final.depthFrames = depthFramesOf stored ∧ final.faceFrames = faceFramesOf stored := by
  obtain ⟨file, data, missing⟩ := readNextBlock_of_cut loop.data before.stands cut fits
  refine ⟨{ loop with file, data }, ?_, before.depthFrames, before.faceFrames⟩
  simp only [readAllBody, before.more, missing, if_true, bind, Except.bind, Bool.false_eq_true,
    if_false]
  rfl

/-! ### The timeline -/

/-- Reading the file terminates, and however `std::sort` arranges ties, it leaves the frames of
exactly these records, by non-decreasing timestamp. -/
structure Restores (stale : ℕ → DepthDataProps) (content : List UInt8) (records : List Record) :
    Prop where
  returns : ∃ timeline, ReadsAllBlocks stale content timeline
  depthFrames : ∀ timeline, ReadsAllBlocks stale content timeline →
    timeline.depthFrames.Perm (depthFramesOf records) ∧
      timeline.depthFrames.Pairwise fun a b => a.timestamp.key ≤ b.timestamp.key
  faceFrames : ∀ timeline, ReadsAllBlocks stale content timeline →
    timeline.faceFrames.Perm (faceFramesOf records) ∧
      timeline.faceFrames.Pairwise fun a b => a.timestamp.key ≤ b.timestamp.key

section Sorting

variable {α : Type*} {timestamp : α → Binary64} {before after : List α}

theorem StdSort.keys (sorted : StdSort (TimestampLess timestamp) before after)
    (numbers : ∀ a ∈ before, ¬ (timestamp a).IsNaN) :
    after.Pairwise fun a b => (timestamp a).key ≤ (timestamp b).key := by
  refine sorted.sorted.imp_of_mem fun inA inB ordered => ?_
  exact (Binary64.not_less_iff (numbers _ (sorted.perm.mem_iff.mp inA))
    (numbers _ (sorted.perm.mem_iff.mp inB))).mp ordered

/-- Frames with ordinary timestamps can be sorted. -/
theorem exists_stdSort (numbers : ∀ a ∈ before, ¬ (timestamp a).IsNaN) :
    ∃ after, StdSort (TimestampLess timestamp) before after := by
  have perm := List.mergeSort_perm before
    fun a b => decide ((timestamp a).key ≤ (timestamp b).key)
  refine ⟨_, perm, (List.pairwise_mergeSort ?_ ?_ before).imp_of_mem fun inA inB le => ?_⟩
  · intro a b c
    simpa using le_trans
  · intro a b
    simpa using le_total _ _
  · exact (Binary64.not_less_iff (numbers _ (perm.mem_iff.mp inA))
      (numbers _ (perm.mem_iff.mp inB))).mpr (of_decide_eq_true le)

end Sorting

theorem not_isNaN_of_mem_depthFramesOf {records : List Record}
    (numbers : ∀ record ∈ records, ¬ record.timestamp.IsNaN) :
    ∀ frame ∈ depthFramesOf records, ¬ frame.timestamp.IsNaN := by
  intro frame member
  obtain ⟨record, inside, same⟩ := List.mem_filterMap.mp member
  cases record with
  | depth other =>
    obtain rfl : other = frame := by simpa using same
    exact numbers _ inside
  | face other => simp at same

theorem not_isNaN_of_mem_faceFramesOf {records : List Record}
    (numbers : ∀ record ∈ records, ¬ record.timestamp.IsNaN) :
    ∀ frame ∈ faceFramesOf records, ¬ frame.timestamp.IsNaN := by
  intro frame member
  obtain ⟨record, inside, same⟩ := List.mem_filterMap.mp member
  cases record with
  | depth other => simp at same
  | face other =>
    obtain rfl : other = frame := by simpa using same
    exact numbers _ inside

theorem finish_eq_ok {depthFrames : List DepthFrame} {faceFrames : List FaceFrame}
    (depth : depthFrames ≠ []) (face : faceFrames ≠ []) :
    ∃ timeline, finish depthFrames faceFrames = .ok timeline := by
  obtain ⟨depthFirst, depthLater, rfl⟩ := List.exists_cons_of_ne_nil depth
  obtain ⟨faceFirst, faceLater, rfl⟩ := List.exists_cons_of_ne_nil face
  rw [finish, List.getLast?_eq_getLast_of_ne_nil depth, List.getLast?_eq_getLast_of_ne_nil face]
  exact ⟨_, rfl⟩

theorem frames_of_finish_eq_ok {depthFrames : List DepthFrame} {faceFrames : List FaceFrame}
    {timeline : Timeline} (finished : finish depthFrames faceFrames = .ok timeline) :
    timeline.depthFrames = depthFrames ∧ timeline.faceFrames = faceFrames := by
  unfold finish at finished
  split at finished
  · obtain rfl := Except.ok.inj finished
    exact ⟨rfl, rfl⟩
  · simp at finished

/-- The timeline holds the frames the loop ended with, sorted. -/
theorem ReadsAllBlocks.stdSort {content : List UInt8} {timeline : Timeline} {final : ReadAll}
    (reads : ReadsAllBlocks stale content timeline)
    (finishes : Finishes (readAllBody stale) (.start content) final) :
    StdSort (TimestampLess DepthFrame.timestamp) final.depthFrames timeline.depthFrames ∧
      StdSort (TimestampLess FaceFrame.timestamp) final.faceFrames timeline.faceFrames := by
  obtain ⟨loop, ends, depthFrames, faceFrames, depthSort, faceSort, finished⟩ := reads
  obtain rfl := ends.unique finishes
  obtain ⟨rfl, rfl⟩ := frames_of_finish_eq_ok finished
  exact ⟨depthSort, faceSort⟩

/-- A loop that ends with the frames of some records restores them. -/
theorem restores_of_finishes {content : List UInt8} {records : List Record} {final : ReadAll}
    (numbers : ∀ record ∈ records, ¬ record.timestamp.IsNaN)
    (depth : depthFramesOf records ≠ []) (face : faceFramesOf records ≠ [])
    (finishes : Finishes (readAllBody stale) (.start content) final)
    (depthFrames : final.depthFrames = depthFramesOf records)
    (faceFrames : final.faceFrames = faceFramesOf records) : Restores stale content records := by
  have depthNumbers := not_isNaN_of_mem_depthFramesOf numbers
  have faceNumbers := not_isNaN_of_mem_faceFramesOf numbers
  refine ⟨?_, fun timeline reads => ?_, fun timeline reads => ?_⟩
  · obtain ⟨depthSorted, depthSort⟩ := exists_stdSort depthNumbers
    obtain ⟨faceSorted, faceSort⟩ := exists_stdSort faceNumbers
    obtain ⟨timeline, finished⟩ := finish_eq_ok
      (fun empty => depth (List.nil_perm.mp (empty ▸ depthSort.perm)))
      (fun empty => face (List.nil_perm.mp (empty ▸ faceSort.perm)))
    exact ⟨timeline, final, finishes, depthSorted, faceSorted, depthFrames ▸ depthSort,
      faceFrames ▸ faceSort, finished⟩
  · have sorted := (reads.stdSort finishes).1
    rw [depthFrames] at sorted
    exact ⟨sorted.perm, sorted.keys depthNumbers⟩
  · have sorted := (reads.stdSort finishes).2
    rw [faceFrames] at sorted
    exact ⟨sorted.perm, sorted.keys faceNumbers⟩

/-- The loop over a file that ends behind some records, or inside the tag block of the next. -/
theorem finishes_of_records_and_cut (stale : ℕ → DepthDataProps) (bytes : List UInt8)
    (records : List Record) (n : ℕ)
    (cut : n < (writeFileData bytes).length) (fits : bytes.length ≤ vectorMaxSize) :
    ∃ final, Finishes (readAllBody stale)
        (.start (writeAll records ++ (writeFileData bytes).take n)) final ∧
      final.depthFrames = depthFramesOf records ∧ final.faceFrames = faceFramesOf records := by
  obtain ⟨loop, after, ends⟩ := finishes_iff_of_records stale records
    (ReadAll.before_start (writeAll records ++ (writeFileData bytes).take n))
  rw [List.nil_append] at after
  obtain ⟨final, exits, depthFrames, faceFrames⟩ := readAllBody_of_cut stale after cut fits
  exact ⟨final, (ends final).mpr (.exit exits), depthFrames, faceFrames⟩

/-- **Recording file round trip.** Reading back the file that any interleaving of depth and face
records left restores these records. -/
theorem restores_writeAll (stale : ℕ → DepthDataProps) (records : List Record)
    (numbers : ∀ record ∈ records, ¬ record.timestamp.IsNaN)
    (depth : depthFramesOf records ≠ []) (face : faceFramesOf records ≠ []) :
    Restores stale (writeAll records) records := by
  obtain ⟨final, finishes, depthFrames, faceFrames⟩ := finishes_of_records_and_cut stale
    [] records 0 (by decide) (by decide)
  rw [List.take_zero, List.append_nil] at finishes
  exact restores_of_finishes numbers depth face finishes depthFrames faceFrames

/-- A frame without payload. -/
def emptyDepthFrame : DepthFrame := ⟨⟨0, 0, 0, 0, 0, 0, 0⟩, .empty, ⟨[], by decide⟩⟩

/-- A frame without payload. -/
def emptyFaceFrame : FaceFrame :=
  ⟨⟨0, .replicate 16 0, .replicate 16 0, .replicate 16 0⟩, ⟨[], by decide⟩, ⟨[], by decide⟩⟩

/-- A face record between two depth records. -/
def threeRecords : List Record :=
  [.depth emptyDepthFrame, .face emptyFaceFrame, .depth emptyDepthFrame]

/-- A frame of two depths, the second one a NaN, whose eight bytes of video spell a tag. -/
def taggedDepthFrame : DepthFrame :=
  ⟨⟨0x4000000000000000, 2, 2, 1, 2, 1, 0⟩, ⟨encodeLE sizeofSizeT faceTag, by decide⟩,
    ⟨[0x3F800000, 0x7FC00000], by decide⟩⟩

/-- A face of three coordinates and an index, recorded at a time. -/
def faceFrameAt (timestamp : Binary64) : FaceFrame :=
  ⟨⟨timestamp, .replicate 16 1, .replicate 16 2, .replicate 16 3⟩,
    ⟨[0x3F800000, 0, 0x40000000], by decide⟩, ⟨[7], by decide⟩⟩

/-- Records at the times 2, 3, 1.5 and 0. -/
def unsortedRecords : List Record :=
  [.depth taggedDepthFrame, .face (faceFrameAt 0x4008000000000000),
    .face (faceFrameAt 0x3FF8000000000000), .depth emptyDepthFrame]

/-- The file of these records is read back. -/
theorem restores_unsortedRecords :
    Restores (fun _ => taggedDepthFrame.props) (writeAll unsortedRecords) unsortedRecords :=
  restores_writeAll _ unsortedRecords (by decide) (by decide) (by decide)

end Sqwar.Recording
