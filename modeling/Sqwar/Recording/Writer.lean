import Sqwar.Core.DepthProps

/-!
# The recording file

`Application::WriteFileData` writes a block, an eight-byte size and then the data. A record is
four blocks: a tag, the properties and two payloads. Nothing delimits records but their tags.
-/

set_option autoImplicit false

namespace Sqwar.Recording

open Data

/-- The recorded part of a `DepthData`, and what `DepthFrame` keeps of it. -/
structure DepthFrame where
  props : DepthDataProps
  vidData : ByteVector
  depthData : WordVector 4
  deriving DecidableEq

/-- The recorded part of a `FaceData`, and what `FaceFrame` keeps of it. -/
structure FaceFrame where
  props : FaceDataProps
  vertices : WordVector 4
  indices : WordVector 2
  deriving DecidableEq

/-- `props.timestamp`. -/
def DepthFrame.timestamp (frame : DepthFrame) : Binary64 := frame.props.timestamp

/-- `props.timestamp`. -/
def FaceFrame.timestamp (frame : FaceFrame) : Binary64 := frame.props.timestamp

/-- `Application::WriteFileData`: the bytes it appends to the file. -/
def writeFileData (data : List UInt8) : List UInt8 :=
  encodeLE sizeofSizeT data.length ++ data

/-- The tag of a depth record. -/
def depthTag : ℕ := 1234

/-- The tag of a face record. -/
def faceTag : ℕ := 5678

/-- `Application::WriteDepthDataToFile`. -/
def writeDepthDataToFile (depthData : DepthFrame) : List UInt8 :=
  writeFileData (encodeLE sizeofSizeT depthTag) ++
    (writeFileData depthData.props.toBytes ++
      (writeFileData depthData.vidData.bytes ++ writeFileData depthData.depthData.toBytes.bytes))

/-- `Application::WriteFaceDataToFile`. -/
def writeFaceDataToFile (face : FaceFrame) : List UInt8 :=
  writeFileData (encodeLE sizeofSizeT faceTag) ++
    (writeFileData face.props.toBytes ++
      (writeFileData face.vertices.toBytes.bytes ++ writeFileData face.indices.toBytes.bytes))

/-- A call of one of the two writers. -/
inductive Record
  | depth (frame : DepthFrame)
  | face (frame : FaceFrame)
  deriving DecidableEq

/-- The bytes a call appends to the file. -/
def Record.write : Record → List UInt8
  | .depth frame => writeDepthDataToFile frame
  | .face frame => writeFaceDataToFile frame

/-- The file that a sequence of calls leaves. -/
def writeAll (records : List Record) : List UInt8 := records.flatMap Record.write

/-- The frames of the depth records. -/
def depthFramesOf (records : List Record) : List DepthFrame :=
  records.filterMap fun
    | .depth frame => some frame
    | .face _ => none

/-- The frames of the face records. -/
def faceFramesOf (records : List Record) : List FaceFrame :=
  records.filterMap fun
    | .depth _ => none
    | .face frame => some frame

/-- The `timestamp` of a record's properties. -/
def Record.timestamp : Record → Binary64
  | .depth frame => frame.timestamp
  | .face frame => frame.timestamp

@[simp] theorem writeAll_nil : writeAll [] = [] := rfl

@[simp] theorem writeAll_cons (record : Record) (records : List Record) :
    writeAll (record :: records) = record.write ++ writeAll records := rfl

@[simp] theorem depthFramesOf_nil : depthFramesOf [] = [] := rfl

@[simp] theorem faceFramesOf_nil : faceFramesOf [] = [] := rfl

@[simp] theorem depthFramesOf_depth (frame : DepthFrame) (records : List Record) :
    depthFramesOf (.depth frame :: records) = frame :: depthFramesOf records := rfl

@[simp] theorem depthFramesOf_face (frame : FaceFrame) (records : List Record) :
    depthFramesOf (.face frame :: records) = depthFramesOf records := rfl

@[simp] theorem faceFramesOf_depth (frame : DepthFrame) (records : List Record) :
    faceFramesOf (.depth frame :: records) = faceFramesOf records := rfl

@[simp] theorem faceFramesOf_face (frame : FaceFrame) (records : List Record) :
    faceFramesOf (.face frame :: records) = frame :: faceFramesOf records := rfl

@[simp] theorem writeFileData_length (data : List UInt8) :
    (writeFileData data).length = sizeofSizeT + data.length := by
  rw [writeFileData, List.length_append, encodeLE_length]

theorem writeDepthDataToFile_length (frame : DepthFrame) :
    (writeDepthDataToFile frame).length =
      72 + frame.vidData.bytes.length + frame.depthData.words.length * 4 := by
  simp only [writeDepthDataToFile, List.length_append, writeFileData_length, encodeLE_length,
    DepthDataProps.toBytes_length, sizeofDepthDataProps, sizeofSizeT, WordVector.toBytes,
    encodeWords_length]
  omega

theorem writeFaceDataToFile_length (frame : FaceFrame) :
    (writeFaceDataToFile frame).length =
      240 + frame.vertices.words.length * 4 + frame.indices.words.length * 2 := by
  simp only [writeFaceDataToFile, List.length_append, writeFileData_length, encodeLE_length,
    FaceDataProps.toBytes_length, sizeofFaceDataProps, sizeofSizeT, WordVector.toBytes,
    encodeWords_length]
  omega

end Sqwar.Recording
