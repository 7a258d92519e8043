import Sqwar.Core.StdVector
import Sqwar.Core.Times

/-!
# The recorder

Callers of `Recorder` push depth and face frames to two queues under a mutex, and a background
thread takes whole queues and processes them while it holds the mutex. `StopRecording` pushes a
frame with the timestamp -1. The thread tests `m_terminate` outside the mutex, before every
iteration.
-/

set_option autoImplicit false

namespace Sqwar.Capture

open Data

variable {T α β : Type*}

/-- `DepthData`: its timestamp, its floats, and its other members. -/
structure DepthData (T α : Type*) where
  timestamp : T
  depthData : List (Word 4)
  content : α
  deriving DecidableEq

/-- `FaceData`: its timestamp and its other members. -/
structure FaceData (T β : Type*) where
  timestamp : T
  content : β
  deriving DecidableEq

/-- The blocks of `face.bin`: the depth header or a member of a `FaceData`. -/
inductive FaceBlock (T β : Type*)
  | tag (val : ℕ)
  | depthVals (vals : List (Word 4))
  | indices (face : FaceData T β)
  | props (face : FaceData T β)
  | vertices (face : FaceData T β)
  deriving DecidableEq

/-- Where the background thread stands: before the test of `m_terminate`, in `wait`, in the middle
of a batch that it took, behind its loop, or in an access out of bounds. -/
inductive Worker (T α β : Type*)
  | testing
  | waiting
  | processing (depthFrames : List (DepthData T α)) (faceFrames : List (FaceData T β))
  | exited
  | faulted
  deriving DecidableEq

/-- `m_hasFramesMtx` is held by the thread from `wait` to the end of the iteration. -/
def Worker.holdsLock : Worker T α β → Bool
  | .processing _ _ => true
  | _ => false

/-- The members of `Recorder` and the frame counters, with the calls of `StreamFrameBkg` and
`FinishFFmpeg` and the blocks written so far. -/
structure Recorder (T α β : Type*) where
  depthDataQueue : List (DepthData T α)
  faceDataQueue : List (FaceData T β)
  hasFrames : Bool
  terminate : Bool
  hasHeaderDepthVals : Bool
  depthVals : List (Word 4)
  writeFaceHeader : Bool
  framesPushed : ℕ
  framesWritten : ℕ
  worker : Worker T α β
  streamed : List (DepthData T α)
  finished : ℕ
  file : List (FaceBlock T β)
  /-- the destructor has returned -/
  joined : Bool
  deriving DecidableEq

/-- The constructor starts the thread. It leaves `m_hasFrames` and `m_depthVals` as they lie in
memory. -/
def Recorder.start (hasFrames : Bool) (depthVals : List (Word 4)) : Recorder T α β where
  depthDataQueue := []
  faceDataQueue := []
  hasFrames
  terminate := false
  hasHeaderDepthVals := false
  depthVals
  writeFaceHeader := false
  framesPushed := 0
  framesWritten := 0
  worker := .testing
  streamed := []
  finished := 0
  file := []
  joined := false

/-! ### Callers -/

/-- `WriteFrame`. -/
def Recorder.writeFrame (r : Recorder T α β) (frame : DepthData T α) : Recorder T α β :=
  { r with
    depthDataQueue := r.depthDataQueue ++ [frame]
    hasFrames := true
    framesPushed := r.framesPushed + 1 }

/-- `WriteFaceFrame`. -/
def Recorder.writeFaceFrame (r : Recorder T α β) (face : FaceData T β) : Recorder T α β :=
  { r with
    faceDataQueue := r.faceDataQueue ++ [face]
    hasFrames := true
    framesPushed := r.framesPushed + 1 }

variable [LinearOrder T] {times : Times T}

/-- The frame that `StopRecording` pushes. -/
def stopFrame [Inhabited α] (times : Times T) : DepthData T α := ⟨times.minusOne, [], default⟩

/-- `StopRecording`. -/
def Recorder.stopRecording [Inhabited α] (times : Times T) (r : Recorder T α β) :
    Recorder T α β :=
  { r with depthDataQueue := r.depthDataQueue ++ [stopFrame times], hasFrames := true }

/-! ### The background thread -/

/-- `if (!m_hasHeaderDepthVals)`: the first frame of all leaves its first 16 floats. -/
def Recorder.keepHeader (r : Recorder T α β) (frame : DepthData T α) :
    Except Fault (Recorder T α β) :=
  if r.hasHeaderDepthVals then .ok r
  -- the `memcpy` of 64 bytes; the stop mark has no floats, and may be the first frame
  else if frame.depthData.length < 16 then .error .outOfBounds
  else .ok { r with depthVals := frame.depthData.take 16, hasHeaderDepthVals := true }

/-- `FinishFFmpeg`, which does nothing. -/
def Recorder.finishFFmpeg (r : Recorder T α β) : Recorder T α β :=
  { r with finished := r.finished + 1 }

/-- `StreamFrameBkg` and `g_framesWritten++`. -/
def Recorder.streamFrameBkg (r : Recorder T α β) (frame : DepthData T α) : Recorder T α β :=
  { r with streamed := r.streamed ++ [frame], framesWritten := r.framesWritten + 1 }

/-- The body of the loop over the depth frames. -/
def Recorder.processFrame (times : Times T) (r : Recorder T α β) (frame : DepthData T α) :
    Except Fault (Recorder T α β) := do
  let r ← r.keepHeader frame
  if frame.timestamp < times.zero then .ok r.finishFFmpeg else .ok (r.streamFrameBkg frame)

/-- The global `streammode`, which nothing assigns to. -/
def streammode : Bool := true

/-- `if (m_hasHeaderDepthVals && !m_writeFaceHeader && faceFrames.size() > 0)`. -/
def Recorder.writeHeader (r : Recorder T α β) (faceFrames : List (FaceData T β)) :
    Recorder T α β :=
  match faceFrames with
  | face :: _ =>
    if r.hasHeaderDepthVals && !r.writeFaceHeader then
      { r with
        file := r.file ++ [.tag 1234, .depthVals r.depthVals, .indices face]
        writeFaceHeader := true }
    else r
  | [] => r

/-- What follows the loop over the depth frames: outside stream mode the face frames are written. -/
def Recorder.processFaces (r : Recorder T α β) (faceFrames : List (FaceData T β)) :
    Recorder T α β :=
  if streammode then r
  else
    let r := r.writeHeader faceFrames
    if r.writeFaceHeader then
      { r with file := r.file ++ faceFrames.flatMap fun fd => [.tag 5678, .props fd, .vertices fd] }
    else r

/-! ### Interleavings -/

/-- The calls that callers make, the steps of the thread, and the two halves of the destructor. -/
inductive Action (T α β : Type*)
  | writeFrame (frame : DepthData T α)
  | writeFaceFrame (face : FaceData T β)
  | stopRecording
  | test
  | take
  | process
  | release
  | terminate
  | join
  deriving DecidableEq

/-- The mutex is free, and the destructor has not been called. -/
def Recorder.mayCall (r : Recorder T α β) : Bool := !r.worker.holdsLock && !r.terminate

/-- One step of the recorder or its callers; `none` when it has to wait or cannot happen. -/
def step [Inhabited α] (times : Times T) (r : Recorder T α β) :
    Action T α β → Option (Recorder T α β)
  | .writeFrame frame => if r.mayCall then some (r.writeFrame frame) else none
  | .writeFaceFrame face => if r.mayCall then some (r.writeFaceFrame face) else none
  | .stopRecording => if r.mayCall then some (r.stopRecording times) else none
  | .test =>
    match r.worker with
    -- the mutex is not held here, so the flag may be set right behind the test
    | .testing => some { r with worker := if r.terminate then .exited else .waiting }
    | _ => none
  | .take =>
    match r.worker with
    | .waiting =>
      -- `m_hasFrames` is never cleared, so only the first `wait` can block
      -- the predicate of `wait`; the queues are swapped for empty ones
      if r.hasFrames then
        some { r with
          worker := .processing r.depthDataQueue r.faceDataQueue
          depthDataQueue := []
          faceDataQueue := [] }
      else none
    | _ => none
  | .process =>
    match r.worker with
    | .processing (frame :: depthFrames) faceFrames =>
      match r.processFrame times frame with
      | .ok r => some { r with worker := .processing depthFrames faceFrames }
      | .error _ => some { r with worker := .faulted }
    | _ => none
  | .release =>
    match r.worker with
    -- the lock goes out of scope at the end of the iteration
    | .processing [] faceFrames => some { r.processFaces faceFrames with worker := .testing }
    | _ => none
  | .terminate => if r.terminate then none else some { r with terminate := true }
  | .join =>
    match r.worker with
    -- a thread that faulted, or waits for good, is never joined
    | .exited => if r.joined then none else some { r with joined := true }
    | _ => none

/-- The depth frames passed to `WriteFrame`, in order. -/
def writtenFrames (actions : List (Action T α β)) : List (DepthData T α) :=
  actions.filterMap fun
    | .writeFrame frame => some frame
    | _ => none

/-- The frames with a timestamp that is not negative. -/
def realFrames (times : Times T) (frames : List (DepthData T α)) : List (DepthData T α) :=
  frames.filter fun frame => times.zero ≤ frame.timestamp

/-- A depth frame without an image. -/
def emptyFrame (timestamp : ℤ) : DepthData ℤ Unit := ⟨timestamp, List.replicate 16 0, ()⟩

/-! ### What a step does -/

/-- The steps one by one, each with the condition under which it is taken. -/
inductive Steps [Inhabited α] (times : Times T) (r : Recorder T α β) :
    Action T α β → Recorder T α β → Prop
  | writeFrame {frame} (free : r.mayCall = true) :
      Steps times r (.writeFrame frame) (r.writeFrame frame)
  | writeFaceFrame {face} (free : r.mayCall = true) :
      Steps times r (.writeFaceFrame face) (r.writeFaceFrame face)
  | stopRecording (free : r.mayCall = true) : Steps times r .stopRecording (r.stopRecording times)
  | enter (stands : r.worker = .testing) (running : r.terminate = false) :
      Steps times r .test { r with worker := .waiting }
  | leave (stands : r.worker = .testing) (terminated : r.terminate = true) :
      Steps times r .test { r with worker := .exited }
  | take (stands : r.worker = .waiting) (hasFrames : r.hasFrames = true) :
      Steps times r .take { r with
        worker := .processing r.depthDataQueue r.faceDataQueue
        depthDataQueue := []
        faceDataQueue := [] }
  | process {frame depthFrames faceFrames kept}
      (stands : r.worker = .processing (frame :: depthFrames) faceFrames)
      (processed : r.processFrame times frame = .ok kept) :
      Steps times r .process { kept with worker := .processing depthFrames faceFrames }
  | fault {frame depthFrames faceFrames fault}
      (stands : r.worker = .processing (frame :: depthFrames) faceFrames)
      (faulted : r.processFrame times frame = .error fault) :
      Steps times r .process { r with worker := .faulted }
  | release {faceFrames} (stands : r.worker = .processing [] faceFrames) :
      Steps times r .release { r.processFaces faceFrames with worker := .testing }
  | terminate (running : r.terminate = false) :
      Steps times r .terminate { r with terminate := true }
  | join (stands : r.worker = .exited) (running : r.joined = false) :
      Steps times r .join { r with joined := true }

theorem steps_of_step [Inhabited α] {r r' : Recorder T α β} {a : Action T α β}
    (next : step times r a = some r') : Steps times r a r' := by
  cases a with
  | writeFrame frame =>
    obtain ⟨free, rfl⟩ : r.mayCall = true ∧ r.writeFrame frame = r' := by simpa [step] using next
    exact .writeFrame free
  | writeFaceFrame face =>
    obtain ⟨free, rfl⟩ : r.mayCall = true ∧ r.writeFaceFrame face = r' := by
      simpa [step] using next
    exact .writeFaceFrame free
  | stopRecording =>
    obtain ⟨free, rfl⟩ : r.mayCall = true ∧ r.stopRecording times = r' := by simpa [step] using next
    exact .stopRecording free
  | test =>
    cases stands : r.worker with
    | testing =>
      simp only [step, stands] at next
      obtain rfl := Option.some.inj next
      by_cases terminated : r.terminate = true
      · rw [if_pos terminated]
        exact .leave stands terminated
      · rw [if_neg terminated]
        exact .enter stands (Bool.eq_false_of_not_eq_true terminated)
    | _ => simp [step, stands] at next
  | take =>
    cases stands : r.worker with
    | waiting =>
      obtain ⟨hasFrames, rfl⟩ : r.hasFrames = true ∧ _ = r' := by simpa [step, stands] using next
      exact .take stands hasFrames
    | _ => simp [step, stands] at next
  | process =>
    cases stands : r.worker with
    | processing depthFrames faceFrames =>
      cases depthFrames with
      | nil => simp [step, stands] at next
      | cons frame depthFrames =>
        cases processed : r.processFrame times frame with
        | error fault =>
          obtain rfl : _ = r' := by simpa [step, stands, processed] using next
          exact .fault stands processed
        | ok kept =>
          obtain rfl : _ = r' := by simpa [step, stands, processed] using next
          exact .process stands processed
    | _ => simp [step, stands] at next
  | release =>
    cases stands : r.worker with
    | processing depthFrames faceFrames =>
      cases depthFrames with
      | nil =>
        obtain rfl : _ = r' := by simpa [step, stands] using next
        exact .release stands
      | cons frame depthFrames => simp [step, stands] at next
    | _ => simp [step, stands] at next
  | terminate =>
    obtain ⟨running, rfl⟩ : r.terminate = false ∧ _ = r' := by simpa [step] using next
    exact .terminate running
  | join =>
    simp only [step] at next
    split at next
    · rename_i stands
      obtain ⟨running, rfl⟩ : r.joined = false ∧ _ = r' := by simpa using next
      exact .join stands running
    · cases next

end Sqwar.Capture
