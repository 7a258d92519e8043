import Sqwar.Recording.Writer
import Sqwar.Semantics.Loop

/-!
# Reading a recording back

`ReadNextBlock` reads one block, and rewinds the file when it runs into its end. `ReadAllBlocks`
collects frames as long as the blocks that matter to it were read whole; the result for a
properties block is not looked at.
-/

set_option autoImplicit false

namespace Sqwar.Recording

open Data Semantics

/-- `s_binfile`: an `std::fstream` with its read position and its end-of-file flag. -/
structure BinFile where
  content : List UInt8
  pos : ℕ
  eof : Bool
  deriving DecidableEq, Repr

/-- `read`: the bytes that are left, at most as many as asked for. A stream at its end yields
nothing. -/
def BinFile.read (file : BinFile) (count : ℕ) : List UInt8 × BinFile :=
  if file.eof then ([], file)
  else
    let bytes := (file.content.drop file.pos).take count
    (bytes, { file with pos := file.pos + bytes.length, eof := decide (bytes.length < count) })

/-- `clear` and `seekg(0, beg)`. -/
def BinFile.rewind (file : BinFile) : BinFile := { file with pos := 0, eof := false }

/-- `ReadNextBlock`. Size bytes past the end of the file keep their initial zeros, data bytes what
`resize` left in them. -/
def readNextBlock (file : BinFile) (data : ByteVector) :
    Except Fault (Bool × BinFile × ByteVector) := do
  let (sizeBytes, file) := file.read sizeofSizeT
  let data ← data.resize (decodeLE sizeBytes)
  let (bytes, file) := file.read (decodeLE sizeBytes)
  let data := data.fill bytes
  -- at the end, the next read starts over from the beginning
  if file.eof then .ok (false, file.rewind, data) else .ok (true, file, data)

/-- The locals of `ReadAllBlocks` and the vectors it fills. -/
structure ReadAll where
  file : BinFile
  data : ByteVector
  moreData : Bool
  depthFrames : List DepthFrame
  faceFrames : List FaceFrame
  deriving DecidableEq

/-- `memcpy(&df.props, data.data(), data.size())` into props that held `stale`. -/
def copyDepthProps (stale : DepthDataProps) (data : ByteVector) : Except Fault DepthDataProps :=
  if sizeofDepthDataProps < data.bytes.length then .error .outOfBounds
  else .ok (.ofBytes (overwrite stale.toBytes 0 data.bytes))

/-- `memcpy(&ff.props, data.data(), sizeof(ff.props))`. -/
def copyFaceProps (data : ByteVector) : Except Fault FaceDataProps :=
  if data.bytes.length < sizeofFaceDataProps then .error .outOfBounds
  else .ok (.ofBytes (data.bytes.take sizeofFaceDataProps))

/-- The branch for the tag of a depth record. -/
def readDepthFrame (stale : DepthDataProps) (loop : ReadAll) : Except Fault ReadAll := do
  -- the result for the properties is dropped, here and in the other branch
  let (_, file, data) ← readNextBlock loop.file loop.data
  let props ← copyDepthProps stale data
  let (moreVid, file, vidData) ← readNextBlock file .empty
  let (moreDepth, file, ddata) ← readNextBlock file .empty
  let depthData ← WordVector.ofBytes 4 ddata
  .ok { loop with
    file, data
    moreData := loop.moreData && moreVid && moreDepth
    depthFrames := loop.depthFrames ++ [⟨props, vidData, depthData⟩] }

/-- The branch for the tag of a face record. -/
def readFaceFrame (loop : ReadAll) : Except Fault ReadAll := do
  let (_, file, data) ← readNextBlock loop.file loop.data
  let props ← copyFaceProps data
  let (moreVertices, file, data) ← readNextBlock file data
  let vertices ← WordVector.ofBytes 4 data
  let (moreIndices, file, data) ← readNextBlock file data
  let indices ← WordVector.ofBytes 2 data
  .ok { loop with
    file, data
    moreData := loop.moreData && moreVertices && moreIndices
    faceFrames := loop.faceFrames ++ [⟨props, vertices, indices⟩] }

/-- What a block just read does to the loop: a tag starts a frame, anything else is skipped. -/
def readFrame (stale : ℕ → DepthDataProps) (loop : ReadAll) : Except Fault ReadAll :=
  if loop.data.bytes.length = 8 then
    let val := decodeLE loop.data.bytes
    if val = depthTag then readDepthFrame (stale loop.depthFrames.length) loop
    else if val = faceTag then readFaceFrame loop
    else .ok loop
  else .ok loop

/-- One pass of `while (moreData && ReadNextBlock(data))`; the `read` behind the condition asks for
no bytes. `stale i` is what the uninitialised props of the `i`-th depth frame hold. -/
def readAllBody (stale : ℕ → DepthDataProps) : LoopBody Fault ReadAll ReadAll := fun loop =>
  if loop.moreData then do
    let (more, file, data) ← readNextBlock loop.file loop.data
    let loop := { loop with file, data }
    if more then return .inl (← readFrame stale loop) else return .inr loop
  else .ok (.inr loop)

/-- The loop's start on a freshly opened file. -/
def ReadAll.start (content : List UInt8) : ReadAll := ⟨⟨content, 0, false⟩, .empty, true, [], []⟩

/-- What `std::sort` leaves: the same elements, none less than an earlier one. -/
structure StdSort {α : Type*} (less : α → α → Prop) (before after : List α) : Prop where
  perm : after.Perm before
  sorted : after.Pairwise fun a b => ¬ less b a

/-- The comparison both sorts use. -/
def TimestampLess {α : Type*} (timestamp : α → Binary64) (lhs rhs : α) : Prop :=
  (timestamp lhs).Less (timestamp rhs)

/-- What `ReadAllBlocks` leaves behind. -/
structure Timeline where
  depthFrames : List DepthFrame
  faceFrames : List FaceFrame
  sStartTime : Binary64
  sEndTime : Binary64
  deriving DecidableEq

/-- `std::min`. -/
def stdMin (a b : Binary64) : Binary64 := if b.Less a then b else a

/-- `std::max`. -/
def stdMax (a b : Binary64) : Binary64 := if a.Less b then b else a

/-- The start and end times, from the first and the last frames. -/
def finish (depthFrames : List DepthFrame) (faceFrames : List FaceFrame) :
    Except Fault Timeline :=
  match depthFrames.head?, faceFrames.head?, depthFrames.getLast?, faceFrames.getLast? with
  | some depthFirst, some faceFirst, some depthLast, some faceLast =>
    .ok ⟨depthFrames, faceFrames, stdMin depthFirst.timestamp faceFirst.timestamp,
      stdMax depthLast.timestamp faceLast.timestamp⟩
  | _, _, _, _ => .error .outOfBounds

/-- `ReadAllBlocks` on the file returns and leaves the timeline. -/
def ReadsAllBlocks (stale : ℕ → DepthDataProps) (content : List UInt8) (timeline : Timeline) :
    Prop :=
  ∃ loop, Finishes (readAllBody stale) (.start content) loop ∧
    ∃ depthFrames faceFrames,
      StdSort (TimestampLess DepthFrame.timestamp) loop.depthFrames depthFrames ∧
      StdSort (TimestampLess FaceFrame.timestamp) loop.faceFrames faceFrames ∧
      finish depthFrames faceFrames = .ok timeline

end Sqwar.Recording
