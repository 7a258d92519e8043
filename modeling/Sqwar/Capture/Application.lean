import Sqwar.Capture.Recorder
import Sqwar.Semantics.Run

/-!
# The application's callbacks

Depth and face callbacks rebase the timestamps they are given on the first time that any callback
has seen, start or stop the recorder when the record button has been pressed, and hand their data
to it while it records. Only the depth callback remembers what the button was like.
-/

set_option autoImplicit false

namespace Sqwar.Capture

open Semantics

/-- The calls on `m_bkgWriter`. -/
inductive Call (T α β : Type*)
  | startRecording
  | stopRecording
  | writeFrame (frame : DepthData T α)
  | writeFaceFrame (face : FaceData T β)
  deriving DecidableEq

/-- The members of `Application` that the callbacks use, the static `sStartTime`, and the calls on
the recorder so far. -/
structure Application (T α β : Type*) where
  isrecording : Bool
  wasrecording : Bool
  sStartTime : T
  calls : List (Call T α β)
  deriving DecidableEq

/-- What the application reacts to. -/
inductive Event (T α β : Type*)
  | tick (deviceTimestamp : T)
  | depthBuffer (depth : DepthData T α)
  | faceData (face : FaceData T β)
  | recordButton
  deriving DecidableEq

variable {T α β : Type*}

/-- The two tests of `m_isrecording` against `m_wasrecording`. -/
def Application.followButton (app : Application T α β) : Application T α β :=
  if app.isrecording && !app.wasrecording then
    { app with calls := app.calls ++ [.startRecording] }
  else if !app.isrecording && app.wasrecording then
    { app with calls := app.calls ++ [.stopRecording] }
  else app

/-- `m_isrecording = !m_isrecording` in `Application::Draw`. -/
def Application.pressRecordButton (app : Application T α β) : Application T α β :=
  { app with isrecording := !app.isrecording }

variable [LinearOrder T]

/-- The constructor, and the initial value of `sStartTime`. -/
def Application.start (times : Times T) : Application T α β where
  isrecording := true
  wasrecording := false
  sStartTime := times.minusOne
  calls := []

/-- `if (sStartTime < 0) sStartTime = timestamp;`. -/
def Application.fixStartTime (times : Times T) (app : Application T α β) (timestamp : T) :
    Application T α β :=
  if app.sStartTime < times.zero then { app with sStartTime := timestamp } else app

/-- `Application::Tick`. -/
def Application.tick (times : Times T) (app : Application T α β) (deviceTimestamp : T) :
    Application T α β :=
  app.fixStartTime times deviceTimestamp

/-- `Application::OnDepthBufferInst`. -/
def Application.onDepthBufferInst (times : Times T) (app : Application T α β)
    (depth : DepthData T α) : Application T α β :=
  -- the frame is rebased in place, before the button is looked at
  let app := app.fixStartTime times depth.timestamp
  let depth := { depth with timestamp := times.sub depth.timestamp app.sStartTime }
  let app := app.followButton
  let app :=
    if app.isrecording then { app with calls := app.calls ++ [.writeFrame depth] } else app
  { app with wasrecording := app.isrecording }

/-- `Application::OnFaceDataInst`, which leaves `m_wasrecording` alone. -/
def Application.onFaceDataInst (times : Times T) (app : Application T α β) (face : FaceData T β) :
    Application T α β :=
  let app := app.fixStartTime times face.timestamp
  let face := { face with timestamp := times.sub face.timestamp app.sStartTime }
  let app := app.followButton
  if app.isrecording then { app with calls := app.calls ++ [.writeFaceFrame face] } else app

/-- What an event does. -/
def Application.handle (times : Times T) (app : Application T α β) :
    Event T α β → Application T α β
  | .tick deviceTimestamp => app.tick times deviceTimestamp
  | .depthBuffer depth => app.onDepthBufferInst times depth
  | .faceData face => app.onFaceDataInst times face
  | .recordButton => app.pressRecordButton

/-- Events as the steps of a run. -/
def react (times : Times T) (app : Application T α β) (event : Event T α β) :
    Option (Application T α β) :=
  some (app.handle times event)

/-! ### What an event does -/

/-- The calls that the edge of the button makes. -/
def Application.edgeCalls (app : Application T α β) : List (Call T α β) :=
  if app.isrecording && !app.wasrecording then [.startRecording]
  else if !app.isrecording && app.wasrecording then [.stopRecording]
  else []

omit [LinearOrder T] in
theorem Application.followButton_eq (app : Application T α β) :
    app.followButton = { app with calls := app.calls ++ app.edgeCalls } := by
  unfold followButton edgeCalls
  split_ifs <;> simp

/-- The start time once a callback has seen a timestamp. -/
def Application.startTimeAt (times : Times T) (app : Application T α β) (timestamp : T) : T :=
  if app.sStartTime < times.zero then timestamp else app.sStartTime

theorem Application.fixStartTime_eq (times : Times T) (app : Application T α β) (timestamp : T) :
    app.fixStartTime times timestamp =
      { app with sStartTime := app.startTimeAt times timestamp } := by
  unfold fixStartTime startTimeAt
  split_ifs <;> rfl

theorem Application.onDepthBufferInst_eq (times : Times T) (app : Application T α β)
    (depth : DepthData T α) :
    app.onDepthBufferInst times depth =
      { isrecording := app.isrecording
        wasrecording := app.isrecording
        sStartTime := app.startTimeAt times depth.timestamp
        calls := app.calls ++ app.edgeCalls ++ if app.isrecording then
          [.writeFrame { depth with
            timestamp := times.sub depth.timestamp (app.startTimeAt times depth.timestamp) }]
          else [] } := by
  unfold onDepthBufferInst
  simp only [fixStartTime_eq, followButton_eq]
  split_ifs <;> simp [edgeCalls]

theorem Application.onFaceDataInst_eq (times : Times T) (app : Application T α β)
    (face : FaceData T β) :
    app.onFaceDataInst times face =
      { app with
        sStartTime := app.startTimeAt times face.timestamp
        calls := app.calls ++ app.edgeCalls ++ if app.isrecording then
          [.writeFaceFrame { face with
            timestamp := times.sub face.timestamp (app.startTimeAt times face.timestamp) }]
          else [] } := by
  unfold onFaceDataInst
  simp only [fixStartTime_eq, followButton_eq]
  split_ifs <;> simp [edgeCalls]

end Sqwar.Capture
