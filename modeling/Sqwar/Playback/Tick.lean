import Sqwar.Data.Cursor
import Sqwar.Semantics.Run

/-!
# Playing a recording

The Windows `Tick` moves a depth and a face cursor up to the clock, hands over a frame when its
cursor has moved, and wraps at the end of the recording. `Application::OnFaceData` rebases the
timestamp of the stored frame it is given; `Application::OnDepthBuffer` gets a copy.
Times are elements of a linear order; no law of their arithmetic is used but that the clock does
not run backwards.
-/

set_option autoImplicit false

namespace Sqwar.Playback

open Data Semantics

/-- The time values and operations of the code. -/
structure Clock (T : Type*) [LinearOrder T] where
  zero : T
  /-- the initial value of the application's `sStartTime` -/
  unset : T
  sub : T → T → T
  /-- `sCurtime += 1 / 60.0f` -/
  advance : T → T
  le_advance : ∀ t, t ≤ advance t

/-- A frame: the timestamp of its properties, and everything else it holds. -/
structure Frame (T α : Type*) where
  timestamp : T
  content : α
  deriving DecidableEq

/-- The timestamps of some frames. -/
def timestamps {T α : Type*} (frames : List (Frame T α)) : List T := frames.map Frame.timestamp

@[simp] theorem timestamps_length {T α : Type*} (frames : List (Frame T α)) :
    (timestamps frames).length = frames.length := List.length_map _

theorem timestamps_ne_nil {T α : Type*} {frames : List (Frame T α)} (nonempty : frames ≠ []) :
    timestamps frames ≠ [] := by
  rwa [timestamps, ne_eq, List.map_eq_nil_iff]

/-- What `ReadAllBlocks` read: frames of both kinds, sorted by timestamp. -/
structure Recording (T α β : Type*) [LinearOrder T] where
  depthFrames : List (Frame T α)
  faceFrames : List (Frame T β)
  depth_ne_nil : depthFrames ≠ []
  face_ne_nil : faceFrames ≠ []
  depth_sorted : (timestamps depthFrames).Pairwise (· ≤ ·)
  face_sorted : (timestamps faceFrames).Pairwise (· ≤ ·)

variable {T α β : Type*} [LinearOrder T]

/-- The `sStartTime` that `ReadAllBlocks` sets. -/
def Recording.startTime (recording : Recording T α β) : T :=
  min (recording.depthFrames.head recording.depth_ne_nil).timestamp
    (recording.faceFrames.head recording.face_ne_nil).timestamp

/-- The `sEndTime` that `ReadAllBlocks` sets. -/
def Recording.endTime (recording : Recording T α β) : T :=
  max (recording.depthFrames.getLast recording.depth_ne_nil).timestamp
    (recording.faceFrames.getLast recording.face_ne_nil).timestamp

/-- The variables of `Tick`, the application's start time, and the frames handed over last. -/
structure Player (T α β : Type*) where
  firsttick : Bool
  sCurtime : T
  curDepthIdx : ℕ
  curFaceIdx : ℕ
  depthFrames : List (Frame T α)
  faceFrames : List (Frame T β)
  sStartTime : T
  sEndTime : T
  /-- `sStartTime` of `Application.cpp` -/
  appStartTime : T
  lastDepth : Option ℕ
  lastFace : Option ℕ
  deriving DecidableEq

/-- The state before the first call. -/
def Player.start (clock : Clock T) : Player T α β where
  firsttick := true
  sCurtime := clock.zero
  curDepthIdx := 0
  curFaceIdx := 0
  depthFrames := []
  faceFrames := []
  sStartTime := clock.zero
  sEndTime := clock.zero
  appStartTime := clock.unset
  lastDepth := none
  lastFace := none

/-- `if (firsttick)`: the recording is read and the clock set. -/
def Player.begin (player : Player T α β) (recording : Recording T α β) : Player T α β :=
  if player.firsttick then
    { player with
      depthFrames := recording.depthFrames
      faceFrames := recording.faceFrames
      sStartTime := recording.startTime
      sEndTime := recording.endTime
      sCurtime := recording.startTime }
  else player

/-- The two `while` loops. -/
def Player.moveCursors (player : Player T α β) : Player T α β :=
  { player with
    curDepthIdx := seek (timestamps player.depthFrames) player.sCurtime player.curDepthIdx
    curFaceIdx := seek (timestamps player.faceFrames) player.sCurtime player.curFaceIdx }

/-- `if (sStartTime < 0) sStartTime = timestamp;` in the application. -/
def Clock.rebase (clock : Clock T) (appStartTime timestamp : T) : T :=
  if appStartTime < clock.zero then timestamp else appStartTime

/-- `Application::OnDepthBuffer` on a copy of the current depth frame. -/
def Player.onDepthBuffer (player : Player T α β) (clock : Clock T) : Option (Player T α β) :=
  player.depthFrames[player.curDepthIdx]?.map fun frame =>
    { player with
      appStartTime := clock.rebase player.appStartTime frame.timestamp
      lastDepth := some player.curDepthIdx }

/-- `Application::OnFaceData` on the current face frame itself: `props.timestamp -= sStartTime`
changes the recording. -/
def Player.onFaceData (player : Player T α β) (clock : Clock T) : Option (Player T α β) :=
  player.faceFrames[player.curFaceIdx]?.map fun frame =>
    let appStartTime := clock.rebase player.appStartTime frame.timestamp
    { player with
      appStartTime
      faceFrames := player.faceFrames.set player.curFaceIdx
        { frame with timestamp := clock.sub frame.timestamp appStartTime }
      lastFace := some player.curFaceIdx }

/-- `if (sCurtime > sEndTime)`: behind the end everything starts over. -/
def Player.wrap (player : Player T α β) : Player T α β :=
  if player.sCurtime > player.sEndTime then
    { player with sCurtime := player.sStartTime, curDepthIdx := 0, curFaceIdx := 0 }
  else player

/-- The clock at the end of a tick, and `Application::Tick`, which is passed its value. -/
def Player.advance (player : Player T α β) (clock : Clock T) : Player T α β :=
  let player : Player T α β :=
    Player.wrap { player with firsttick := false, sCurtime := clock.advance player.sCurtime }
  { player with appStartTime := clock.rebase player.appStartTime player.sCurtime }

/-- `if (firsttick || curDepthIdx != prevDepth)`. -/
def Player.showDepth (player : Player T α β) (clock : Clock T) (prevDepth : ℕ) :
    Option (Player T α β) :=
  if player.firsttick ∨ player.curDepthIdx ≠ prevDepth then player.onDepthBuffer clock
  else some player

/-- `if (firsttick || curFaceIdx != prevFace)`. -/
def Player.showFace (player : Player T α β) (clock : Clock T) (prevFace : ℕ) :
    Option (Player T α β) :=
  if player.firsttick ∨ player.curFaceIdx ≠ prevFace then player.onFaceData clock
  else some player

/-- `Tick` behind `if (firsttick)`: the cursors, the frames handed over, and the clock. -/
def Player.play (player : Player T α β) (clock : Clock T) : Option (Player T α β) := do
  let shown ← player.moveCursors.showDepth clock player.curDepthIdx
  let shown ← shown.showFace clock player.curFaceIdx
  some (shown.advance clock)

/-- One call of `Tick`; `none` stands for an access past the end of a frame vector. -/
def tick (clock : Clock T) (recording : Recording T α β) (player : Player T α β) :
    Option (Player T α β) :=
  (player.begin recording).play clock

/-- Calls of `Tick` as the steps of a run; a call before `bgfxInit` returns at once and is not
one. -/
def step (clock : Clock T) (recording : Recording T α β) (player : Player T α β) (_ : Unit) :
    Option (Player T α β) :=
  tick clock recording player

/-- The frames handed over last are the ones due, by the recorded timestamps, at the time the
tick used. -/
structure ShowsDue (recording : Recording T α β) (player player' : Player T α β) : Prop where
  depth : ∃ idx, player'.lastDepth = some idx ∧
    LastDue (timestamps recording.depthFrames) (player.begin recording).sCurtime idx
  face : ∃ idx, player'.lastFace = some idx ∧
    LastDue (timestamps recording.faceFrames) (player.begin recording).sCurtime idx

/-- What is on display is up to date, or a tick will replace it: it is the first one, or the frame
handed over last is the one the cursor stands at, or the frame behind that is due. -/
def Fresh (times : List T) (now : T) (first : Bool) (last : Option ℕ) (cur : ℕ) : Prop :=
  first = true ∨ last = some cur ∨ ∃ time, times[cur + 1]? = some time ∧ time ≤ now

/-- The condition on the state in which a tick looks for frames: both displays are fresh, and the
comparisons of the face cursor with the stored timestamps come out as with the recorded ones. -/
structure Ready (recording : Recording T α β) (player : Player T α β) : Prop where
  depth : Fresh (timestamps recording.depthFrames) player.sCurtime player.firsttick
    player.lastDepth player.curDepthIdx
  face : Fresh (timestamps recording.faceFrames) player.sCurtime player.firsttick
    player.lastFace player.curFaceIdx
  stored : ComparesAlike player.sCurtime
    ((timestamps player.faceFrames).drop (player.curFaceIdx + 1))
    ((timestamps recording.faceFrames).drop (player.curFaceIdx + 1))

end Sqwar.Playback
