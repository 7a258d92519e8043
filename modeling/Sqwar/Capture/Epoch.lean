import Sqwar.Capture.Application
import Sqwar.Capture.Shutdown

/-!
# Frames and stop marks

The recorder takes a negative timestamp for a stop mark. The application subtracts the first time
that any of its callbacks has seen from the timestamps of the frames, so a frame that was captured
before that time is taken for a stop mark.
-/

set_option autoImplicit false

namespace Sqwar.Capture

open Semantics

variable {T α β : Type*}

/-- The depth frames passed to `WriteFrame`. -/
def framesOf (calls : List (Call T α β)) : List (DepthData T α) :=
  calls.filterMap fun
    | .writeFrame frame => some frame
    | _ => none

variable [LinearOrder T] [Inhabited α]

/-- What the calls push to the recorder's depth queue. -/
def depthQueue (times : Times T) (calls : List (Call T α β)) : List (DepthData T α) :=
  calls.filterMap fun
    | .writeFrame frame => some frame
    | .stopRecording => some (stopFrame times)
    | _ => none

/-- Of the entries of the queue, the stop marks of `StopRecording`. -/
def stopMarks (times : Times T) (calls : List (Call T α β)) : List (DepthData T α) :=
  calls.filterMap fun
    | .stopRecording => some (stopFrame times)
    | _ => none

/-- No frame has the timestamp of a stop mark, so that the recorder streams the frames written and
takes the entries of `StopRecording`, and no others, for the end of a recording. -/
structure FramesStandOut (times : Times T) (calls : List (Call T α β)) : Prop where
  frames : ∀ frame, .writeFrame frame ∈ calls → ¬ frame.timestamp < times.zero
  streamed : realFrames times (depthQueue times calls) = framesOf calls
  stops : (depthQueue times calls).filter (fun frame => frame.timestamp < times.zero) =
    stopMarks times calls

/-- A depth frame to be recorded was not captured before the time on which timestamps are
rebased. -/
def NotBeforeStart (times : Times T) (app : Application T α β) (event : Event T α β) : Prop :=
  ∀ depth, event = .depthBuffer depth → app.isrecording = true → times.zero ≤ app.sStartTime →
    app.sStartTime ≤ depth.timestamp

instance (times : Times T) (app : Application T α β) :
    (event : Event T α β) → Decidable (NotBeforeStart times app event)
  | .depthBuffer depth => decidable_of_iff (app.isrecording = true →
      times.zero ≤ app.sStartTime → app.sStartTime ≤ depth.timestamp)
      ⟨fun notBefore depth' same => by cases same; exact notBefore, fun all => all depth rfl⟩
  | .tick _ => .isTrue fun _ other => by cases other
  | .faceData _ => .isTrue fun _ other => by cases other
  | .recordButton => .isTrue fun _ other => by cases other

variable {times : Times T} {calls : List (Call T α β)} {app app' : Application T α β}
  {event : Event T α β} {events : List (Event T α β)}

/-- The first clause implies the others. -/
theorem framesStandOut_iff : FramesStandOut times calls ↔
    ∀ frame, .writeFrame frame ∈ calls → ¬ frame.timestamp < times.zero := by
  refine ⟨FramesStandOut.frames, fun frames => ⟨frames, ?_, ?_⟩⟩
  · rw [realFrames, depthQueue, List.filter_filterMap]
    refine List.filterMap_congr fun call member => ?_
    cases call with
    | writeFrame frame => simpa using not_lt.mp (frames frame member)
    | stopRecording => simpa [stopFrame] using times.minusOne_lt
    | _ => rfl
  · rw [depthQueue, List.filter_filterMap]
    refine List.filterMap_congr fun call member => ?_
    cases call with
    | writeFrame frame => simpa using not_lt.mp (frames frame member)
    | stopRecording => simpa [stopFrame] using times.minusOne_lt
    | _ => rfl

/-- The frame that a depth callback hands to the recorder. -/
def Application.rebased (times : Times T) (app : Application T α β) (depth : DepthData T α) :
    DepthData T α :=
  { depth with timestamp := times.sub depth.timestamp (app.startTimeAt times depth.timestamp) }

omit [Inhabited α] in
theorem writeFrame_mem_handle {frame : DepthData T α} :
    .writeFrame frame ∈ (app.handle times event).calls ↔ .writeFrame frame ∈ app.calls ∨
      ∃ depth, event = .depthBuffer depth ∧ app.isrecording = true ∧
        frame = app.rebased times depth := by
  -- An edge starts or stops the recorder and writes nothing.
  have noEdge : .writeFrame frame ∉ app.edgeCalls := by
    unfold Application.edgeCalls
    split_ifs <;> simp
  cases event with
  | tick deviceTimestamp =>
    rw [Application.handle, Application.tick, Application.fixStartTime_eq]
    simp
  | depthBuffer depth =>
    rw [Application.handle, Application.onDepthBufferInst_eq]
    cases app.isrecording <;> simp [noEdge, Application.rebased]
  | faceData face =>
    rw [Application.handle, Application.onFaceDataInst_eq]
    cases app.isrecording <;> simp [noEdge]
  | recordButton => simp [Application.handle, Application.pressRecordButton]

omit [Inhabited α] in
/-- A rebased timestamp is negative if the start time was fixed, and later. -/
theorem rebased_lt_zero_iff {depth : DepthData T α} :
    (app.rebased times depth).timestamp < times.zero ↔
      times.zero ≤ app.sStartTime ∧ depth.timestamp < app.sStartTime := by
  rw [Application.rebased, times.sub_lt_zero, Application.startTimeAt]
  split_ifs with unset
  -- the callback fixes the start time itself, and rebases its timestamp on it
  · exact iff_of_false (lt_irrefl _) fun fixed => absurd unset (not_lt.mpr fixed.1)
  · exact ⟨fun before => ⟨not_lt.mp unset, before⟩, fun fixed => fixed.2⟩

/-- One event keeps the frames apart from stop marks exactly under the condition. -/
theorem framesStandOut_handle : FramesStandOut times (app.handle times event).calls ↔
    FramesStandOut times app.calls ∧ NotBeforeStart times app event := by
  simp only [framesStandOut_iff, writeFrame_mem_handle]
  constructor
  · refine fun after => ⟨fun frame member => after frame (.inl member), ?_⟩
    rintro depth rfl isNow fixed
    have kept := after _ (.inr ⟨depth, rfl, isNow, rfl⟩)
    rw [rebased_lt_zero_iff] at kept
    exact not_lt.mp fun before => kept ⟨fixed, before⟩
  · rintro ⟨before, notBefore⟩ frame (member | ⟨depth, rfl, isNow, rfl⟩)
    · exact before frame member
    · rw [rebased_lt_zero_iff]
      rintro ⟨fixed, earlier⟩
      exact absurd earlier (not_lt.mpr (notBefore depth rfl isNow fixed))

/-- **When frames are taken for stop marks.** In a run of callbacks, whatever their order, no frame
is taken for a stop mark if and only if no recorded frame was captured before the time on which
timestamps are rebased. -/
theorem framesStandOut_iff_notBeforeStart
    (runs : run (react times) (.start times) events = some app) :
    FramesStandOut times app.calls ↔
      Along (react times) (NotBeforeStart times) (.start times) events := by
  have exact := run_iff_along
    (fun app : Application T α β => FramesStandOut times app.calls) (NotBeforeStart times)
    (fun app event app' reacts => by
      obtain rfl := Option.some.inj reacts
      exact framesStandOut_handle) runs
  have start : FramesStandOut times (Application.start (α := α) (β := β) times).calls :=
    framesStandOut_iff.mpr fun frame member => by cases member
  rw [exact, and_iff_right start]

/-! ### Two runs -/

/-- Frames behind the first tick stand out. -/
theorem framesStandOut_tick_first : ∃ app : Application ℤ Unit Unit,
    run (react seconds) (.start seconds) [.tick 1, .depthBuffer (emptyFrame 2)] = some app ∧
      FramesStandOut seconds app.calls := by
  have meets : Along (react seconds) (NotBeforeStart seconds) (.start seconds)
      ([.tick 1, .depthBuffer (emptyFrame 2)] : List (Event ℤ Unit Unit)) := by decide
  exact ⟨_, rfl, (framesStandOut_iff_notBeforeStart rfl).mpr meets⟩

/-- A frame captured before the first tick is taken for a stop mark. -/
theorem not_framesStandOut_tick_later : ∃ app : Application ℤ Unit Unit,
    run (react seconds) (.start seconds) [.tick 2, .depthBuffer (emptyFrame 1)] = some app ∧
      ¬ FramesStandOut seconds app.calls := by
  refine ⟨_, rfl, fun standOut => ?_⟩
  have streamed := standOut.streamed
  revert streamed
  decide

end Sqwar.Capture
