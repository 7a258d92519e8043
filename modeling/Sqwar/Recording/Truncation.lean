import Sqwar.Recording.RoundTrip

/-!
# Reading a recording that was cut off

A file cut at a record boundary, or inside the sixteen bytes of a tag block, is read like the
records before the cut. From there on the tag of the cut record is believed: whatever the reads
behind it return, a frame is stored before the loop can end. Frames are never dropped, so no run
that ends holds exactly the records that are there.
-/

set_option autoImplicit false

namespace Sqwar.Recording

open Data Semantics

/-- The records wholly contained in the first `n` bytes of a recording. -/
def contained : List Record → ℕ → List Record
  | [], _ => []
  | record :: records, n =>
    if record.write.length ≤ n then record :: contained records (n - record.write.length) else []

/-- How many of the first `n` bytes of a recording belong to a record that was cut. -/
def cutBytes : List Record → ℕ → ℕ
  | [], _ => 0
  | record :: records, n =>
    if record.write.length ≤ n then cutBytes records (n - record.write.length) else n

/-- The tag of a record. -/
def Record.tag : Record → ℕ
  | .depth _ => depthTag
  | .face _ => faceTag

variable {records : List Record} {n : ℕ} {stale : ℕ → DepthDataProps}
  {loop loop' final : ReadAll} {content : List UInt8}

theorem contained_mem {record : Record} (member : record ∈ contained records n) :
    record ∈ records := by
  induction records generalizing n with
  | nil => simp [contained] at member
  | cons first records ih =>
    rw [contained] at member
    split_ifs at member with whole
    · rcases List.mem_cons.mp member with rfl | later
      · exact List.mem_cons_self
      · exact List.mem_cons_of_mem _ (ih later)
    · simp at member

/-- A cut file holds the records before the cut, and the first bytes of one more. -/
theorem take_writeAll (records : List Record) (n : ℕ) :
    ∃ tail, (writeAll records).take n = writeAll (contained records n) ++ tail ∧
      ((tail = [] ∧ cutBytes records n = 0) ∨
        ∃ record : Record, cutBytes records n < record.write.length ∧
          tail = record.write.take (cutBytes records n)) := by
  induction records generalizing n with
  | nil => exact ⟨[], by simp [contained], .inl ⟨rfl, rfl⟩⟩
  | cons record records ih =>
    rw [contained, cutBytes, writeAll_cons]
    split_ifs with whole
    · obtain ⟨tail, prefix_eq, cut⟩ := ih (n - record.write.length)
      refine ⟨tail, ?_, cut⟩
      rw [List.take_append, List.take_of_length_le whole, prefix_eq, writeAll_cons,
        List.append_assoc]
    · refine ⟨record.write.take n, ?_, .inr ⟨record, not_le.mp whole, rfl⟩⟩
      rw [List.take_append_of_le_length (not_le.mp whole).le, writeAll_nil, List.nil_append]

theorem Record.exists_write_eq (record : Record) :
    ∃ blocks, record.write = writeFileData (encodeLE sizeofSizeT record.tag) ++ blocks := by
  cases record <;> exact ⟨_, rfl⟩

theorem writeFileData_tag_length (tag : ℕ) :
    (writeFileData (encodeLE sizeofSizeT tag)).length = 16 := by
  rw [writeFileData_length, encodeLE_length]
  rfl

theorem tag_fits (tag : ℕ) : (encodeLE sizeofSizeT tag).length ≤ vectorMaxSize := by
  rw [encodeLE_length]
  decide

/-! ### A cut inside the tag block -/

/-- A file cut at a boundary or inside a tag block is a whole file. -/
theorem exists_finishes_of_cutBytes_lt (stale : ℕ → DepthDataProps)
    (cut : cutBytes records n < 16) :
    ∃ final, Finishes (readAllBody stale) (.start ((writeAll records).take n)) final ∧
      final.depthFrames = depthFramesOf (contained records n) ∧
      final.faceFrames = faceFramesOf (contained records n) := by
  obtain ⟨tail, prefix_eq, ⟨rfl, -⟩ | ⟨record, -, rfl⟩⟩ := take_writeAll records n
  · rw [prefix_eq]
    exact finishes_of_records_and_cut stale [] (contained records n) 0 (by decide) (by decide)
  · obtain ⟨blocks, write_eq⟩ := record.exists_write_eq
    have inTag : record.write.take (cutBytes records n) =
        (writeFileData (encodeLE sizeofSizeT record.tag)).take (cutBytes records n) := by
      rw [write_eq, List.take_append_of_le_length (by rw [writeFileData_tag_length]; exact cut.le)]
    rw [prefix_eq, inTag]
    exact finishes_of_records_and_cut stale _ _ _ (by rwa [writeFileData_tag_length]) (tag_fits _)

/-! ### A cut behind the tag block -/

theorem readDepthFrame_eq_ok {old : DepthDataProps}
    (reads : readDepthFrame old loop = .ok loop') :
    ∃ frame, loop'.depthFrames = loop.depthFrames ++ [frame] ∧
      loop'.faceFrames = loop.faceFrames := by
  simp only [readDepthFrame, bind_eq_ok_iff, Except.ok.injEq] at reads
  obtain ⟨_, -, props, -, _, -, _, -, depthData, -, rfl⟩ := reads
  exact ⟨_, rfl, rfl⟩

theorem readFaceFrame_eq_ok (reads : readFaceFrame loop = .ok loop') :
    ∃ frame, loop'.faceFrames = loop.faceFrames ++ [frame] ∧
      loop'.depthFrames = loop.depthFrames := by
  simp only [readFaceFrame, bind_eq_ok_iff, Except.ok.injEq] at reads
  obtain ⟨_, -, props, -, _, -, vertices, -, _, -, indices, -, rfl⟩ := reads
  exact ⟨_, rfl, rfl⟩

/-- One loop state holds at least the frames of another. -/
structure ReadAll.Extends (loop' loop : ReadAll) : Prop where
  depthFrames : loop.depthFrames.length ≤ loop'.depthFrames.length
  faceFrames : loop.faceFrames.length ≤ loop'.faceFrames.length

theorem ReadAll.Extends.trans {loop'' : ReadAll} (later : loop''.Extends loop')
    (first : loop'.Extends loop) : loop''.Extends loop :=
  ⟨first.depthFrames.trans later.depthFrames, first.faceFrames.trans later.faceFrames⟩

theorem extends_of_readFrame (reads : readFrame stale loop = .ok loop') : loop'.Extends loop := by
  unfold readFrame at reads
  dsimp only at reads
  split_ifs at reads
  · obtain ⟨frame, depthFrames, faceFrames⟩ := readDepthFrame_eq_ok reads
    exact ⟨by simp [depthFrames], by simp [faceFrames]⟩
  · obtain ⟨frame, faceFrames, depthFrames⟩ := readFaceFrame_eq_ok reads
    exact ⟨by simp [depthFrames], by simp [faceFrames]⟩
  · obtain rfl := Except.ok.inj reads
    exact ⟨le_rfl, le_rfl⟩
  · obtain rfl := Except.ok.inj reads
    exact ⟨le_rfl, le_rfl⟩

/-- **Step lemma.** No pass drops a frame. -/
theorem extends_of_readAllBody {outcome : ReadAll ⊕ ReadAll}
    (pass : readAllBody stale loop = .ok outcome) : (outcome.elim id id).Extends loop := by
  unfold readAllBody at pass
  split_ifs at pass
  · obtain ⟨⟨more, file, data⟩, -, rest⟩ := bind_eq_ok_iff.mp pass
    dsimp only at rest
    split_ifs at rest
    · obtain ⟨next, reads, same⟩ := bind_eq_ok_iff.mp rest
      obtain rfl := Except.ok.inj same
      exact ⟨(extends_of_readFrame reads).depthFrames, (extends_of_readFrame reads).faceFrames⟩
    · obtain rfl := Except.ok.inj rest
      exact ⟨le_rfl, le_rfl⟩
  · obtain rfl := Except.ok.inj pass
    exact ⟨le_rfl, le_rfl⟩

/-- **Run lemma.** No run drops a frame. -/
theorem extends_of_finishes (finishes : Finishes (readAllBody stale) loop final) :
    final.Extends loop :=
  finishes.invariant (fun s => s.Extends loop) (fun t => t.Extends loop) ⟨le_rfl, le_rfl⟩
    (fun _ _ extended pass => (extends_of_readAllBody pass).trans extended)
    (fun _ _ extended pass => (extends_of_readAllBody pass).trans extended)

/-- The number of frames a loop state holds. -/
def ReadAll.frameCount (loop : ReadAll) : ℕ := loop.depthFrames.length + loop.faceFrames.length

theorem ReadAll.Extends.frameCount_le (extended : loop'.Extends loop) :
    loop.frameCount ≤ loop'.frameCount :=
  add_le_add extended.depthFrames extended.faceFrames

theorem frameCount_of_readFrame (record : Record)
    (tag : loop.data.bytes = encodeLE sizeofSizeT record.tag)
    (reads : readFrame stale loop = .ok loop') : loop'.frameCount = loop.frameCount + 1 := by
  cases record with
  | depth frame =>
    rw [readFrame_of_depthTag tag] at reads
    obtain ⟨stored, depthFrames, faceFrames⟩ := readDepthFrame_eq_ok reads
    rw [ReadAll.frameCount, ReadAll.frameCount, depthFrames, faceFrames, List.length_append,
      List.length_singleton]
    omega
  | face frame =>
    rw [readFrame_of_faceTag tag] at reads
    obtain ⟨stored, faceFrames, depthFrames⟩ := readFaceFrame_eq_ok reads
    rw [ReadAll.frameCount, ReadAll.frameCount, depthFrames, faceFrames, List.length_append,
      List.length_singleton]
    omega

/-- Once a tag has been read, the loop does not end without another frame, be the record behind
the tag complete or not. -/
theorem frameCount_lt_of_tag (record : Record) {rest : List UInt8} {stored : List Record}
    (before : loop.Before (writeFileData (encodeLE sizeofSizeT record.tag) ++ rest) stored)
    (finishes : Finishes (readAllBody stale) loop final) :
    loop.frameCount < final.frameCount := by
  obtain ⟨tagged, before', tag, pass⟩ :=
    readAllBody_of_block stale before (tag_fits record.tag)
  have same : tagged.frameCount = loop.frameCount := by
    rw [ReadAll.frameCount, ReadAll.frameCount, before'.depthFrames, before'.faceFrames,
      before.depthFrames, before.faceFrames]
  cases reads : readFrame stale tagged with
  | error failure =>
    rw [reads] at pass
    cases finishes with
    | exit exits => simp [pass, Except.map] at exits
    | step steps _ => simp [pass, Except.map] at steps
  | ok next =>
    rw [reads] at pass
    -- the pass at the tag stores a frame, and none is dropped later
    have more := frameCount_of_readFrame record tag reads
    have kept := (extends_of_finishes (finishes.of_step pass)).frameCount_le
    omega

/-- **Nothing else is restored.** A run over a cut file that ends with the frames of the records
before the cut never saw the whole tag of the record behind it. -/
theorem cutBytes_lt_of_finishes
    (finishes : Finishes (readAllBody stale) (.start ((writeAll records).take n)) final)
    (count : final.frameCount = (depthFramesOf (contained records n)).length +
      (faceFramesOf (contained records n)).length) : cutBytes records n < 16 := by
  by_contra inRecord
  rw [not_lt] at inRecord
  obtain ⟨tail, prefix_eq, ⟨-, boundary⟩ | ⟨record, -, rfl⟩⟩ := take_writeAll records n
  · omega
  obtain ⟨blocks, write_eq⟩ := record.exists_write_eq
  have behindTag : record.write.take (cutBytes records n) =
      writeFileData (encodeLE sizeofSizeT record.tag) ++ blocks.take (cutBytes records n - 16) := by
    rw [write_eq, List.take_append, writeFileData_tag_length,
      List.take_of_length_le (by rwa [writeFileData_tag_length])]
  -- The records before the cut are read; behind them stands a whole tag.
  rw [prefix_eq, behindTag] at finishes
  obtain ⟨loop, after, ends⟩ := finishes_iff_of_records stale (contained records n)
    (ReadAll.before_start _)
  rw [List.nil_append] at after
  have more := frameCount_lt_of_tag record after ((ends final).mp finishes)
  rw [ReadAll.frameCount, after.depthFrames, after.faceFrames] at more
  omega

theorem cutBytes_lt_of_restores
    (restores : Restores stale ((writeAll records).take n) (contained records n)) :
    cutBytes records n < 16 := by
  obtain ⟨timeline, reads⟩ := restores.returns
  obtain ⟨final, finishes, -⟩ := id reads
  have sorted := reads.stdSort finishes
  refine cutBytes_lt_of_finishes finishes ?_
  rw [ReadAll.frameCount, ← sorted.1.perm.length_eq, ← sorted.2.perm.length_eq,
    (restores.depthFrames timeline reads).1.length_eq,
    (restores.faceFrames timeline reads).1.length_eq]

/-- **Truncated recordings.** The records before the cut, and only these, are restored if and
only if the cut left fewer than the sixteen bytes of a tag block behind them. -/
theorem restores_contained_iff (stale : ℕ → DepthDataProps) (records : List Record) (n : ℕ)
    (numbers : ∀ record ∈ records, ¬ record.timestamp.IsNaN)
    (depth : depthFramesOf (contained records n) ≠ [])
    (face : faceFramesOf (contained records n) ≠ []) :
    Restores stale ((writeAll records).take n) (contained records n) ↔ cutBytes records n < 16 := by
  refine ⟨cutBytes_lt_of_restores, fun cut => ?_⟩
  obtain ⟨final, finishes, depthFrames, faceFrames⟩ :=
    exists_finishes_of_cutBytes_lt stale cut
  exact restores_of_finishes (fun record member => numbers record (contained_mem member)) depth
    face finishes depthFrames faceFrames

theorem contained_threeRecords {n : ℕ} (behind : 312 ≤ n) (before : n < 384) :
    contained threeRecords n = [.depth emptyDepthFrame, .face emptyFaceFrame] ∧
      cutBytes threeRecords n = n - 312 := by
  have depth : (Record.depth emptyDepthFrame).write.length = 72 :=
    writeDepthDataToFile_length emptyDepthFrame
  have face : (Record.face emptyFaceFrame).write.length = 240 :=
    writeFaceDataToFile_length emptyFaceFrame
  have first : 72 ≤ n := by omega
  have second : 240 ≤ n - 72 := by omega
  have third : ¬ 72 ≤ n - 72 - 240 := by omega
  simp only [threeRecords, contained, cutBytes, depth, face, first, second, third, if_true,
    if_false, true_and]
  omega

/-- Cut behind the first byte of the last record, the file is read up to there. -/
theorem restores_threeRecords_cut_in_tag :
    Restores (fun _ => emptyDepthFrame.props) ((writeAll threeRecords).take 313)
      (contained threeRecords 313) := by
  obtain ⟨whole, cut⟩ := contained_threeRecords (n := 313) (by decide) (by decide)
  refine (restores_contained_iff _ threeRecords 313 (by decide) ?_ ?_).mpr (by omega)
  · rw [whole]
    decide
  · rw [whole]
    decide

/-- Cut behind the tag block of the last record, it is not. -/
theorem not_restores_threeRecords_cut_behind_tag :
    depthFramesOf (contained threeRecords 328) ≠ [] ∧
      faceFramesOf (contained threeRecords 328) ≠ [] ∧
      ¬ Restores (fun _ => emptyDepthFrame.props) ((writeAll threeRecords).take 328)
        (contained threeRecords 328) := by
  obtain ⟨whole, cut⟩ := contained_threeRecords (n := 328) (by decide) (by decide)
  refine ⟨?_, ?_, fun restores => ?_⟩
  · rw [whole]
    decide
  · rw [whole]
    decide
  · have inTag := cutBytes_lt_of_restores restores
    omega

end Sqwar.Recording
