import Sqwar.Capture.Wakeup
import Sqwar.Data.MachineInt

/-!
# The frame counters

`g_framesPushed` counts the depth and the face frames that are pushed, but `g_framesWritten` only
the depth frames that are streamed: the thread drops the face frames of a batch without counting
them, in stream mode and outside it. So the two counters drift apart with every iteration that
took a face frame, and never meet again.

Both are atomic ints that are only incremented and printed. They are natural numbers here: the
increments wrap modulo 2^32, so the int is the count wrapped once (`hudNumber`), and the difference
of two counts is that of their ints modulo 2^32.
-/

set_option autoImplicit false

namespace Sqwar.Capture

open Data Semantics

variable {T α β : Type*} [LinearOrder T] {times : Times T} {r r' : Recorder T α β}

/-- The face frames of the batch that the thread is processing. -/
def Worker.faceBatch : Worker T α β → List (FaceData T β)
  | .processing _ faceFrames => faceFrames
  | _ => []

/-- The frames in both queues, without the stop marks. -/
def Recorder.waiting (times : Times T) (r : Recorder T α β) : ℕ :=
  (realFrames times r.depthDataQueue).length + r.faceDataQueue.length

/-- A counter as `Hud::Draw` prints it: an atomic `int` wraps. -/
def hudNumber (count : ℕ) : ℤ := wrap32 count

/-- The frames that have been pushed and not written are the ones that wait, and the numbers on the
display agree when nothing is queued. -/
structure Recorder.Balanced (times : Times T) (r : Recorder T α β) : Prop where
  difference : (r.framesPushed : ℤ) - r.framesWritten = r.waiting times
  shown : r.depthDataQueue = [] → r.faceDataQueue = [] →
    hudNumber r.framesPushed = hudNumber r.framesWritten

theorem Recorder.balanced_iff :
    r.Balanced times ↔ r.framesPushed = r.framesWritten + r.waiting times := by
  constructor
  · rintro ⟨difference, -⟩
    omega
  · intro settled
    refine ⟨by omega, fun depth face => ?_⟩
    have none : r.waiting times = 0 := by simp [Recorder.waiting, depth, face]
    rw [settled, none, Nat.add_zero]

/-- The balance of a recorder that has not faulted, with the batch that the thread has taken. -/
def Recorder.Settled (times : Times T) (r : Recorder T α β) : Prop :=
  r.worker ≠ .faulted → r.framesPushed = r.framesWritten +
    ((realFrames times r.worker.batch).length + r.worker.faceBatch.length + r.waiting times)

theorem Recorder.settled_iff (free : r.mutexFree) : r.Settled times ↔ r.Balanced times := by
  have none : r.worker.batch = [] ∧ r.worker.faceBatch = [] := by
    obtain ⟨lock, -⟩ := free
    cases worker : r.worker <;> simp_all [Worker.holdsLock, Worker.batch, Worker.faceBatch]
  rw [Recorder.balanced_iff, Recorder.Settled, none.1, none.2]
  simp [free.2]

/-- Of the frames of a batch, exactly those that are streamed are counted. -/
theorem Recorder.processFrame_counters {frame : DepthData T α}
    (processed : r.processFrame times frame = .ok r') :
    r'.framesPushed = r.framesPushed ∧
      r'.framesWritten = r.framesWritten + (realFrames times [frame]).length := by
  obtain ⟨kept, keeps, written⟩ := bind_eq_ok_iff.mp processed
  have same : kept.framesPushed = r.framesPushed ∧ kept.framesWritten = r.framesWritten := by
    unfold Recorder.keepHeader at keeps
    split_ifs at keeps <;> (obtain rfl := Except.ok.inj keeps; exact ⟨rfl, rfl⟩)
  obtain ⟨pushed, counted⟩ := same
  by_cases negative : frame.timestamp < times.zero
  · rw [if_pos negative] at written
    obtain rfl := Except.ok.inj written
    have none : realFrames times [frame] = [] := realFrames_eq_nil_iff.mpr (by simpa using negative)
    rw [none]
    exact ⟨pushed, counted⟩
  · rw [if_neg negative] at written
    obtain rfl := Except.ok.inj written
    have real : realFrames times [frame] = [frame] := by
      simpa [realFrames] using not_lt.mp negative
    rw [real]
    exact ⟨pushed, congrArg (· + 1) counted⟩

variable [Inhabited α] {actions : List (Action T α β)} {a : Action T α β}

/-- Frames that are written, and not stop marks, have a timestamp that is not negative. -/
def WritesReal (times : Times T) : Action T α β → Prop
  | .writeFrame frame => times.zero ≤ frame.timestamp
  | _ => True

/-- No face frame is in the batch when an iteration ends. -/
def ReleasesNoFaces (r : Recorder T α β) (a : Action T α β) : Prop :=
  a = .release → r.worker.faceBatch = []

omit [LinearOrder T] [Inhabited α] in
instance [DecidableEq T] [DecidableEq α] [DecidableEq β] (r : Recorder T α β)
    (a : Action T α β) : Decidable (ReleasesNoFaces r a) :=
  inferInstanceAs (Decidable (_ → _))

/-- **Step lemma.** A step keeps the balance, unless an iteration ends that has taken a face
frame. -/
theorem Recorder.Settled.step (settled : r.Settled times) (next : Steps times r a r')
    (real : WritesReal times a) (noFaces : ReleasesNoFaces r a) : r'.Settled times := by
  intro alive
  have before := settled (alive_of_step next alive)
  cases next with
  | @writeFrame frame =>
    have counts : realFrames times [frame] = [frame] := by
      simpa [realFrames, WritesReal] using real
    simp only [Recorder.writeFrame, Recorder.waiting, realFrames_append, counts,
      List.length_append, List.length_singleton] at before ⊢
    omega
  | writeFaceFrame =>
    simp only [Recorder.writeFaceFrame, Recorder.waiting, List.length_append,
      List.length_singleton] at before ⊢
    omega
  | stopRecording =>
    simpa only [Recorder.stopRecording, Recorder.waiting, realFrames_append, realFrames_stopFrame,
      List.append_nil] using before
  | enter stands | leave stands | join stands =>
    simpa only [stands, Worker.batch, Worker.faceBatch, Recorder.waiting] using before
  | take stands =>
    simp only [stands, Worker.batch, Worker.faceBatch, Recorder.waiting, realFrames_nil,
      List.length_nil] at before ⊢
    omega
  | @process frame depthFrames faceFrames kept stands processed =>
    obtain ⟨flag, depth, face⟩ := Recorder.processFrame_queues processed
    obtain ⟨pushed, counted⟩ := Recorder.processFrame_counters processed
    -- the frame moves from the batch to those written, if it is not a stop mark
    have first : realFrames times (frame :: depthFrames) =
        realFrames times [frame] ++ realFrames times depthFrames :=
      realFrames_append [frame] depthFrames
    simp only [stands, Worker.batch, Worker.faceBatch, Recorder.waiting, first, pushed, counted,
      depth, face, List.length_append] at before ⊢
    omega
  | fault => exact absurd rfl alive
  | release stands =>
    have none := noFaces rfl
    simp only [stands, Worker.batch, Worker.faceBatch, Recorder.waiting, r.processFaces_eq,
      realFrames_nil, List.length_nil] at before none ⊢
    rw [none] at before
    simpa using before
  | terminate => simpa only [Recorder.waiting] using before

/-- An iteration that has taken face frames ends out of balance. -/
theorem Recorder.Settled.release (settled : r.Settled times) (next : Steps times r .release r')
    (balanced : r'.Balanced times) : r.worker.faceBatch = [] := by
  rw [Recorder.balanced_iff] at balanced
  cases next with
  | @release faceFrames stands =>
    have before := settled (by rw [stands]; nofun)
    simp only [stands, Worker.batch, Worker.faceBatch, Recorder.waiting, r.processFaces_eq,
      realFrames_nil, List.length_nil] at before balanced ⊢
    exact List.length_eq_zero_iff.mp (by omega)

variable {hasFrames : Bool} {depthVals : List (Word 4)}

/-- **The frame counters balance** in every state of a run in which the mutex is free, exactly if
no iteration of the thread has taken a face frame. -/
theorem balanced_iff_releasesNoFaces (real : ∀ a ∈ actions, WritesReal times a)
    (runs : run (Capture.step times) (.start hasFrames depthVals) actions = some r) :
    Always (Capture.step times) (fun r => r.mutexFree → r.Balanced times)
        (.start hasFrames depthVals) actions ↔
      Along (Capture.step times) ReleasesNoFaces (.start hasFrames depthVals) actions := by
  have settled : (Recorder.start (T := T) (α := α) (β := β) hasFrames depthVals).Settled times :=
    fun _ => rfl
  refine always_iff_along (Recorder.Settled times) _ (fun _ a => WritesReal times a) _ ?_ ?_ settled
    (fun free => (Recorder.settled_iff free).mp settled) ((along_iff_forall_mem runs).mpr real) runs
  · intro s a s' settled real next
    constructor
    · rintro balanced rfl
      have released := steps_of_step next
      refine settled.release released (balanced ?_)
      cases released with
      | release => exact ⟨rfl, nofun⟩
    · intro noFaces free
      exact (Recorder.settled_iff free).mp (settled.step (steps_of_step next) real noFaces)
  · exact fun s a s' settled real noFaces next => settled.step (steps_of_step next) real noFaces

/-! ### Two runs -/

/-- A depth frame that is written and streamed. -/
theorem balanced_depthFrame : Always (Capture.step seconds)
    (fun r => r.mutexFree → r.Balanced seconds) (.start false [] : Recorder ℤ Unit Unit)
    [.writeFrame (emptyFrame 0), .test, .take, .process, .release] :=
  (balanced_iff_releasesNoFaces (by simp [WritesReal, emptyFrame, seconds]) rfl).mpr (by decide)

/-- A face frame is counted when it is pushed and never again. -/
theorem not_balanced_faceFrame : ∃ r : Recorder ℤ Unit Unit,
    run (Capture.step seconds) (.start false [])
      [.writeFaceFrame ⟨0, ()⟩, .test, .take, .release] = some r ∧
      r.mutexFree ∧ ¬ r.Balanced seconds := by
  refine ⟨_, rfl, ⟨rfl, nofun⟩, fun balanced => ?_⟩
  exact absurd (balanced.shown rfl rfl) (by decide)

end Sqwar.Capture
