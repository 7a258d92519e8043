import Sqwar.Capture.Shutdown

/-!
# The wake-up flag

`m_hasFrames` is the predicate that the background thread waits for. Callers set it when they push
a frame, but the constructor leaves it as it lies in memory and the thread never clears it. So it
tells whether there is work until the thread has finished its first iteration, and never again
until the next push.
-/

set_option autoImplicit false

namespace Sqwar.Capture

open Data Semantics

variable {T α β : Type*} [LinearOrder T] {times : Times T} {r r' : Recorder T α β}

/-- `m_hasFramesMtx` is free. A thread that faulted has not released it. -/
def Recorder.mutexFree (r : Recorder T α β) : Prop :=
  r.worker.holdsLock = false ∧ r.worker ≠ .faulted

/-- One of the queues holds an entry. -/
def Recorder.HasWork (r : Recorder T α β) : Prop :=
  r.depthDataQueue ≠ [] ∨ r.faceDataQueue ≠ []

variable [Inhabited α] {actions : List (Action T α β)} {a : Action T α β}

/-- When the mutex is free, the flag is set exactly if there is work, and the thread passes its
`wait` only then. -/
def Recorder.FlagTruthful (times : Times T) (r : Recorder T α β) : Prop :=
  r.mutexFree → (r.hasFrames = true ↔ r.HasWork) ∧
    ∀ r', step times r .take = some r' → r.HasWork

/-- The thread passes its `wait` when the flag is set, so a truthful flag is enough. -/
theorem Recorder.flagTruthful_iff :
    r.FlagTruthful times ↔ (r.mutexFree → (r.hasFrames = true ↔ r.HasWork)) := by
  refine ⟨fun truthful free => (truthful free).1, fun truthful free => ⟨truthful free, ?_⟩⟩
  intro r' next
  cases steps_of_step next with
  | take _ hasFrames => exact (truthful free).mp hasFrames

omit [Inhabited α] in
theorem Recorder.processFrame_queues {frame : DepthData T α}
    (processed : r.processFrame times frame = .ok r') :
    r'.hasFrames = r.hasFrames ∧ r'.depthDataQueue = r.depthDataQueue ∧
      r'.faceDataQueue = r.faceDataQueue := by
  obtain ⟨kept, keeps, written⟩ := bind_eq_ok_iff.mp processed
  have same : kept.hasFrames = r.hasFrames ∧ kept.depthDataQueue = r.depthDataQueue ∧
      kept.faceDataQueue = r.faceDataQueue := by
    unfold Recorder.keepHeader at keeps
    split_ifs at keeps <;> (obtain rfl := Except.ok.inj keeps; exact ⟨rfl, rfl, rfl⟩)
  split_ifs at written <;> (obtain rfl := Except.ok.inj written; exact same)

/-- While no iteration has ended, the flag is truthful as long as the mutex is free, and set with
nothing queued while the thread holds it. -/
structure Recorder.FirstIteration (r : Recorder T α β) : Prop where
  free : r.mutexFree → (r.hasFrames = true ↔ r.HasWork)
  held : r.worker.holdsLock = true → r.hasFrames = true ∧ ¬ r.HasWork

/-- **Step lemma.** Any step but the end of an iteration keeps the flag truthful. -/
theorem Recorder.FirstIteration.step (first : r.FirstIteration) (next : Steps times r a r')
    (goesOn : a ≠ .release) : r'.FirstIteration := by
  obtain ⟨free, held⟩ := first
  cases next with
  | writeFrame called | writeFaceFrame called | stopRecording called =>
    have lock : r.worker.holdsLock = false := by
      simp only [Recorder.mayCall, Bool.and_eq_true, Bool.not_eq_true'] at called
      exact called.1
    refine ⟨fun _ => iff_of_true rfl ?_, fun holds => ?_⟩
    · simp [Recorder.HasWork, Recorder.writeFrame, Recorder.writeFaceFrame,
        Recorder.stopRecording]
    · exact absurd (lock.symm.trans holds) (by decide)
  | enter stands | leave stands | join stands =>
    have free' : r.mutexFree := ⟨by rw [stands]; rfl, by rw [stands]; intro same; cases same⟩
    exact ⟨fun _ => free free', fun holds => absurd holds (by simp_all [Worker.holdsLock])⟩
  | take stands hasFrames =>
    exact ⟨fun free' => absurd free'.1 (by simp [Worker.holdsLock]),
      fun _ => ⟨hasFrames, by simp [Recorder.HasWork]⟩⟩
  | process stands processed =>
    obtain ⟨flag, depth, face⟩ := Recorder.processFrame_queues processed
    obtain ⟨isSet, empty⟩ := held (by rw [stands]; rfl)
    refine ⟨fun free' => absurd free'.1 (by simp [Worker.holdsLock]), fun _ => ⟨flag ▸ isSet, ?_⟩⟩
    simpa only [Recorder.HasWork, depth, face] using empty
  | fault => exact ⟨fun free' => absurd rfl free'.2, fun holds => by cases holds⟩
  | release => exact absurd rfl goesOn
  | terminate => exact ⟨free, held⟩

/-- The end of an iteration leaves the flag set, with nothing queued. -/
theorem Recorder.FirstIteration.release (first : r.FirstIteration)
    (next : Steps times r .release r') : ¬ r'.FlagTruthful times := by
  cases next with
  | release stands =>
    obtain ⟨isSet, empty⟩ := first.held (by rw [stands]; rfl)
    rw [Recorder.flagTruthful_iff, r.processFaces_eq]
    intro truthful
    exact empty ((truthful ⟨rfl, nofun⟩).mp isSet)

variable {hasFrames : Bool} {depthVals : List (Word 4)}

/-- **The wake-up flag is truthful** in every state of a run exactly if the constructor happened to
find it clear and the thread has finished no iteration. -/
theorem flagTruthful_iff_neverReleased
    (runs : run (Capture.step times) (.start hasFrames depthVals) actions = some r) :
    Always (Capture.step times) (Recorder.FlagTruthful times) (.start hasFrames depthVals)
        actions ↔
      hasFrames = false ∧ .release ∉ actions := by
  cases hasFrames with
  | true =>
    -- the flag is set, and both queues are empty
    refine iff_of_false (fun always => ?_) fun both => Bool.noConfusion both.1
    have start := always_iff.mp always [] actions _ rfl rfl
    rw [Recorder.flagTruthful_iff] at start
    exact absurd ((start ⟨rfl, nofun⟩).mp rfl) (by simp [Recorder.HasWork, Recorder.start])
  | false =>
    have first : (Recorder.start (T := T) (α := α) (β := β) false depthVals).FirstIteration :=
      ⟨fun _ => iff_of_false Bool.false_ne_true (by simp [Recorder.HasWork, Recorder.start]),
        fun holds => by cases holds⟩
    rw [always_iff_along Recorder.FirstIteration (Recorder.FlagTruthful times) (fun _ _ => True)
      (fun _ a => a ≠ .release) ?_ ?_ first (Recorder.flagTruthful_iff.mpr first.free) along_true
      runs, along_iff_forall_mem runs]
    · refine ⟨fun never => ⟨rfl, fun member => never _ member rfl⟩, ?_⟩
      rintro ⟨-, never⟩ a member rfl
      exact never member
    · intro s a s' first _ next
      refine ⟨?_, fun goesOn =>
        Recorder.flagTruthful_iff.mpr (first.step (steps_of_step next) goesOn).free⟩
      rintro truthful rfl
      exact first.release (steps_of_step next) truthful
    · exact fun s a s' first _ goesOn next => first.step (steps_of_step next) goesOn

/-! ### Two runs -/

/-- A frame that the thread has not taken yet. -/
theorem flagTruthful_waiting : Always (Capture.step seconds)
    (Recorder.FlagTruthful seconds) (.start false [] : Recorder ℤ Unit Unit)
    [.writeFrame (emptyFrame 0), .test] :=
  (flagTruthful_iff_neverReleased rfl).mpr (by decide)

/-- Behind its first iteration the thread finds the flag set and nothing queued, and it takes two
empty queues. -/
theorem not_flagTruthful_released : ∃ r : Recorder ℤ Unit Unit,
    run (Capture.step seconds) (.start false [])
      [.writeFrame (emptyFrame 0), .test, .take, .process, .release, .test] = some r ∧
      r.mutexFree ∧ r.hasFrames = true ∧ ¬ r.HasWork ∧ (Capture.step seconds r .take).isSome := by
  refine ⟨_, rfl, ⟨rfl, nofun⟩, rfl, ?_, rfl⟩
  simp [Recorder.HasWork, Recorder.processFaces_eq, Recorder.streamFrameBkg, Recorder.writeFrame,
    Recorder.start]

end Sqwar.Capture
