import Sqwar.Capture.Recorder
import Sqwar.Semantics.Loop
import Sqwar.Semantics.Run

/-!
# Shutting the recorder down

The background thread leaves as soon as it finds `m_terminate` set, whatever is queued. So the
frames that callers have written and those that the thread has streamed differ by what the queue
holds at that test.
-/

set_option autoImplicit false

namespace Sqwar.Capture

open Data Semantics

variable {T α β : Type*} [LinearOrder T] {times : Times T} {r r' : Recorder T α β}
  {frame : DepthData T α} {frames : List (DepthData T α)} {faceFrames : List (FaceData T β)}

@[simp] theorem realFrames_nil : realFrames times ([] : List (DepthData T α)) = [] := rfl

@[simp] theorem realFrames_append (first later : List (DepthData T α)) :
    realFrames times (first ++ later) = realFrames times first ++ realFrames times later :=
  List.filter_append first later

theorem realFrames_eq_nil_iff :
    realFrames times frames = [] ↔ ∀ frame ∈ frames, frame.timestamp < times.zero := by
  simp [realFrames, List.filter_eq_nil_iff]

theorem realFrames_stopFrame [Inhabited α] : realFrames times [stopFrame (α := α) times] = [] := by
  rw [realFrames_eq_nil_iff]
  intro frame member
  obtain rfl := List.mem_singleton.mp member
  exact times.minusOne_lt

/-- The depth frames of the batch that the thread is processing. -/
def Worker.batch : Worker T α β → List (DepthData T α)
  | .processing depthFrames _ => depthFrames
  | _ => []

/-! ### What a step does -/

omit [LinearOrder T] in
theorem Recorder.processFaces_eq (r : Recorder T α β) (faceFrames : List (FaceData T β)) :
    r.processFaces faceFrames = r := if_pos rfl

/-- A frame is streamed unless its timestamp is negative; nothing is queued. -/
theorem Recorder.processFrame_spec (processed : r.processFrame times frame = .ok r') :
    r'.streamed = r.streamed ++ realFrames times [frame] ∧
      r'.depthDataQueue = r.depthDataQueue ∧ r'.terminate = r.terminate ∧
      r'.joined = r.joined := by
  obtain ⟨kept, keeps, written⟩ := bind_eq_ok_iff.mp processed
  have same : kept.streamed = r.streamed ∧ kept.depthDataQueue = r.depthDataQueue ∧
      kept.terminate = r.terminate ∧ kept.joined = r.joined := by
    unfold Recorder.keepHeader at keeps
    split_ifs at keeps <;> (obtain rfl := Except.ok.inj keeps; exact ⟨rfl, rfl, rfl, rfl⟩)
  obtain ⟨streamed, queue, terminate, joined⟩ := same
  -- The test of the timestamp is the filter of `realFrames`.
  by_cases negative : frame.timestamp < times.zero
  · rw [if_pos negative] at written
    obtain rfl := Except.ok.inj written
    have none : realFrames times [frame] = [] := realFrames_eq_nil_iff.mpr (by simpa using negative)
    rw [none, List.append_nil]
    exact ⟨streamed, queue, terminate, joined⟩
  · rw [if_neg negative] at written
    obtain rfl := Except.ok.inj written
    have real : realFrames times [frame] = [frame] := by
      simpa [realFrames] using not_lt.mp negative
    rw [real, ← streamed]
    exact ⟨rfl, queue, terminate, joined⟩

/-- The real frames that have come in: those streamed, those in the batch, and those queued. -/
def Recorder.accepted (times : Times T) (r : Recorder T α β) : List (DepthData T α) :=
  r.streamed ++ realFrames times r.worker.batch ++ realFrames times r.depthDataQueue

variable [Inhabited α] {past actions : List (Action T α β)} {a : Action T α β}

/-- What a step changes of a recorder that does not fault: a real frame is accepted when it is
written, and stays so. -/
theorem accepted_step (next : Steps times r a r') (alive : r'.worker ≠ .faulted) :
    r'.accepted times = r.accepted times ++ realFrames times (writtenFrames [a]) := by
  cases next with
  | writeFrame => simp [Recorder.accepted, Recorder.writeFrame, writtenFrames]
  | writeFaceFrame => simp [Recorder.accepted, Recorder.writeFaceFrame, writtenFrames]
  | stopRecording =>
    simp [Recorder.accepted, Recorder.stopRecording, writtenFrames, realFrames_stopFrame]
  | enter stands => simp [Recorder.accepted, stands, writtenFrames, Worker.batch]
  | leave stands => simp [Recorder.accepted, stands, writtenFrames, Worker.batch]
  | take stands => simp [Recorder.accepted, stands, writtenFrames, Worker.batch]
  | @process frame depthFrames faceFrames kept stands processed =>
    obtain ⟨streamed, queue, -, -⟩ := Recorder.processFrame_spec processed
    -- The frame moves from the front of the batch to the end of what was streamed.
    have first : realFrames times (frame :: depthFrames) =
        realFrames times [frame] ++ realFrames times depthFrames :=
      realFrames_append [frame] depthFrames
    simp [Recorder.accepted, stands, writtenFrames, Worker.batch, streamed, queue, first]
  | fault => exact absurd rfl alive
  | release stands =>
    simp [Recorder.accepted, stands, writtenFrames, Worker.batch, r.processFaces_eq]
  | terminate => simp [Recorder.accepted, writtenFrames]
  | join stands => simp [Recorder.accepted, stands, writtenFrames, Worker.batch]

/-- A thread that has left stays away, and nothing is queued any more. -/
theorem step_of_exited (next : Steps times r a r') (exited : r.worker = .exited)
    (terminated : r.terminate = true) :
    r'.worker = .exited ∧ r'.terminate = true ∧ r'.depthDataQueue = r.depthDataQueue := by
  cases next with
  | terminate => exact ⟨exited, rfl, rfl⟩
  | join => exact ⟨exited, terminated, rfl⟩
  -- callers need `m_terminate` to be clear, and the other steps a thread that runs
  | _ => simp_all [Recorder.mayCall]

/-- The thread leaves only at a test that finds `m_terminate` set. -/
theorem exits_of_step (next : Steps times r a r') (exited : r'.worker = .exited) :
    r.worker = .exited ∨ a = .test ∧ r.terminate = true ∧ r'.depthDataQueue = r.depthDataQueue := by
  cases next with
  | leave _ terminated => exact .inr ⟨rfl, terminated, rfl⟩
  | join stands => exact .inl stands
  | writeFrame | writeFaceFrame | stopRecording | terminate => exact .inl exited
  | _ => cases exited

theorem alive_of_step (next : Steps times r a r') (alive : r'.worker ≠ .faulted) :
    r.worker ≠ .faulted := by
  intro faulted
  cases next with
  | writeFrame | writeFaceFrame | stopRecording | terminate | join => exact alive faulted
  | enter stands | leave stands | take stands | process stands | fault stands | release stands =>
    rw [faulted] at stands
    cases stands

/-! ### Runs -/

/-- What holds behind every run: real frames are accepted as they are written, and the destructor
returns once the thread has left, which it does when it is told to. -/
structure Accounted (times : Times T) (past : List (Action T α β)) (r : Recorder T α β) :
    Prop where
  accepted : r.worker ≠ .faulted → r.accepted times = realFrames times (writtenFrames past)
  exited : r.worker = .exited → r.terminate = true
  joined : r.joined = true → r.worker = .exited

theorem Accounted.step (inv : Accounted times past r) (next : Steps times r a r') :
    Accounted times (past ++ [a]) r' where
  accepted alive := by
    rw [accepted_step next alive, inv.accepted (alive_of_step next alive), ← realFrames_append,
      writtenFrames, writtenFrames, writtenFrames, List.filterMap_append]
  exited exited := by
    rcases exits_of_step next exited with before | ⟨rfl, terminated, -⟩
    · exact (step_of_exited next before (inv.exited before)).2.1
    · cases next with
      | enter => cases exited
      | leave => exact terminated
  joined joined := by
    by_cases before : r.joined = true
    · have exited := inv.joined before
      exact (step_of_exited next exited (inv.exited exited)).1
    · cases next with
      | join stands => exact stands
      | process _ processed =>
        obtain ⟨-, -, -, same⟩ := Recorder.processFrame_spec processed
        exact absurd (same.symm.trans joined) before
      | release => exact absurd ((congrArg _ (r.processFaces_eq _)).symm.trans joined) before
      | _ => exact absurd joined before

variable {hasFrames : Bool} {depthVals : List (Word 4)}

theorem accounted_run (runs : run (step times) (.start hasFrames depthVals) actions = some r) :
    Accounted times actions r := by
  refine run_history_invariant (Accounted times)
    (fun past s a s' inv _ next => inv.step (steps_of_step next)) (?_ : Accounted times [] _)
    along_true runs
  refine ⟨?_, ?_, ?_⟩
  · exact fun _ => rfl
  · exact fun exited => by cases exited
  · exact fun joined => by cases joined

/-- When the thread finds `m_terminate` set, no real frame is queued. -/
def DrainedAtExit (times : Times T) (r : Recorder T α β) (a : Action T α β) : Prop :=
  a = .test → r.terminate = true → ∀ frame ∈ r.depthDataQueue, frame.timestamp < times.zero

instance [DecidableEq α] [DecidableEq β] (times : Times T) (r : Recorder T α β)
    (a : Action T α β) : Decidable (DrainedAtExit times r a) :=
  inferInstanceAs (Decidable (_ → _ → _))

theorem queue_of_exited (exited : r.worker = .exited) (terminated : r.terminate = true)
    (runs : run (step times) r actions = some r') : r'.depthDataQueue = r.depthDataQueue := by
  have stays : r'.worker = .exited ∧ r'.terminate = true ∧
      r'.depthDataQueue = r.depthDataQueue := by
    refine run_invariant (fun s => s.worker = .exited ∧ s.terminate = true ∧
      s.depthDataQueue = r.depthDataQueue) ?_ ⟨exited, terminated, rfl⟩
      along_true runs
    rintro s a s' ⟨exited, terminated, same⟩ - next
    obtain ⟨exited', terminated', same'⟩ := step_of_exited (steps_of_step next) exited terminated
    exact ⟨exited', terminated', same'.trans same⟩
  exact stays.2.2

/-- Behind a run that met the condition, no real frame is left once the thread has left. -/
theorem drained_of_along (start : r.worker ≠ .exited)
    (meets : Along (step times) (DrainedAtExit times) r actions)
    (runs : run (step times) r actions = some r') (exited : r'.worker = .exited) :
    realFrames times r'.depthDataQueue = [] := by
  have inv : r'.worker = .exited →
      r'.terminate = true ∧ realFrames times r'.depthDataQueue = [] := by
    refine run_invariant (fun s => s.worker = .exited → s.terminate = true ∧
      realFrames times s.depthDataQueue = []) ?_ (fun exited => absurd exited start) meets runs
    intro s a s' before drained next exited
    -- Either the thread had left before, or this is the test at which it leaves.
    rcases exits_of_step (steps_of_step next) exited with earlier | ⟨rfl, terminated, same⟩
    · obtain ⟨terminated, empty⟩ := before earlier
      obtain ⟨-, terminated', same⟩ := step_of_exited (steps_of_step next) earlier terminated
      exact ⟨terminated', by rw [same, empty]⟩
    · rw [same, realFrames_eq_nil_iff]
      refine ⟨?_, drained rfl terminated⟩
      cases steps_of_step next with
      | enter => cases exited
      | leave => exact terminated
  exact (inv exited).2

/-- If no real frame is left in the end, none was left when the thread left. -/
theorem along_of_drained (empty : realFrames times r'.depthDataQueue = [])
    (runs : run (step times) r actions = some r') :
    Along (step times) (DrainedAtExit times) r actions := by
  induction actions generalizing r with
  | nil => trivial
  | cons a actions ih =>
    obtain ⟨s, next, rest⟩ := run_cons_eq_some.mp runs
    refine ⟨?_, fun s' next' => ?_⟩
    · rintro rfl terminated
      cases steps_of_step next with
      | enter _ running => rw [terminated] at running; cases running
      | leave =>
        -- What is queued at this test stays queued to the end of the run.
        have same : r'.depthDataQueue = r.depthDataQueue := by
          refine (queue_of_exited ?_ ?_ rest).trans ?_
          · rfl
          · exact terminated
          · rfl
        rw [same] at empty
        exact realFrames_eq_nil_iff.mp empty
    · obtain rfl := Option.some.inj (next.symm.trans next')
      exact ih rest

/-- **When the recorder loses no frame.** In a run behind which the destructor has returned, the
frames streamed are the real frames written, in order, if and only if no real frame was queued
when the thread found `m_terminate` set. -/
theorem streamed_eq_iff_drained
    (runs : run (step times) (.start hasFrames depthVals) actions = some r)
    (joined : r.joined = true) :
    r.streamed = realFrames times (writtenFrames actions) ↔
      Along (step times) (DrainedAtExit times) (.start hasFrames depthVals) actions := by
  have inv := accounted_run runs
  have exited := inv.joined joined
  have accepted := inv.accepted (by simp [exited])
  have split : r.streamed ++ realFrames times r.depthDataQueue =
      realFrames times (writtenFrames actions) := by
    simpa [Recorder.accepted, exited, Worker.batch] using accepted
  rw [← split, List.self_eq_append_right]
  exact ⟨fun empty => along_of_drained empty runs, fun meets =>
    drained_of_along (by simp [Recorder.start]) meets runs exited⟩

/-! ### Two runs -/

/-- A frame that is taken before the destructor is called. -/
theorem streamed_before_shutdown :
    ∃ r : Recorder ℤ Unit Unit, run (step seconds) (.start false [])
        [.writeFrame (emptyFrame 0), .test, .take, .process, .release, .terminate, .test, .join] =
          some r ∧ r.joined = true ∧
      r.streamed = realFrames seconds (writtenFrames (β := Unit) [.writeFrame (emptyFrame 0), .test,
        .take, .process, .release, .terminate, .test, .join]) := by
  refine ⟨_, rfl, rfl, (streamed_eq_iff_drained rfl rfl).mpr ?_⟩
  decide

/-- A frame that is written before the thread's first test and lost. -/
theorem not_streamed_at_shutdown :
    ∃ r : Recorder ℤ Unit Unit, run (step seconds) (.start false [])
        [.writeFrame (emptyFrame 0), .terminate, .test, .join] = some r ∧ r.joined = true ∧
      r.streamed ≠ realFrames seconds (writtenFrames (β := Unit) [.writeFrame (emptyFrame 0),
        .terminate, .test, .join]) :=
  ⟨_, rfl, rfl, by decide⟩

end Sqwar.Capture
