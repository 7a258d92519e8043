import Sqwar.Semantics.Run
import Sqwar.Stream.PointColours

/-!
# Frames on the way through the player

The background thread of `Player` reads pictures, builds a frame for each and queues it under a
mutex; `Application::Tick` takes frames from the queue and hands them to the world. The thread
notices when a read fails, but queues the frame all the same.
-/

set_option autoImplicit false

namespace Sqwar.Stream

open Data Depth Semantics

/-! ### The player -/

/-- What `Player::Initialize` has opened. -/
structure OpenStream where
  width : ℕ
  height : ℕ
  depthVals : ℕ → ExactFloat

def OpenStream.info (stream : OpenStream) : StreamInfo :=
  .initialized stream.width stream.height stream.depthVals

/-- The frame of an iteration, by the outcome of `ReadFrameYUV420`. A failure sets `hasFrames`,
which nothing reads. -/
def OpenStream.frame (stream : OpenStream) : Option AVFrame → Option DepthFrame
  | some picture => stream.info.rebuild stream.width stream.height picture
  -- the planes are skipped: `vidData` stays empty, and the frame is pushed without a look at it
  | none => stream.info.newFrame

/-- Where the background thread stands: before the test of `m_terminate`, before `Initialize`,
before the read, before it locks the mutex with a frame in its hand, or behind the loop. -/
inductive PlayerThread
  | testing
  | initializing
  | reading
  | pushing (data : DepthFrame)
  | exited

/-- The members of `Player`, and the frames that `Application::Tick` has handed to the world. -/
structure Player where
  streaming : Bool
  terminate : Bool
  stream : Option OpenStream
  frames : List DepthFrame
  thread : PlayerThread
  shown : List DepthFrame

/-- The constructor starts the thread. -/
def Player.start (streaming : Bool) : Player where
  streaming := streaming
  terminate := false
  stream := none
  frames := []
  thread := .testing
  shown := []

/-- A step of the background thread, or a tick of the application. -/
inductive PlayerAction
  | test
  | doInitialize (stream : OpenStream)
  | read (outcome : Option AVFrame)
  | push
  | tick

/-- The test of the loop. A player that does not stream never finds a reader, and leaves the loop
behind `Initialize`. -/
def Player.test (p : Player) : Player :=
  if p.terminate then { p with thread := .exited }
  else if p.streaming && p.stream.isSome then { p with thread := .reading }
  else { p with thread := .initializing }

/-- `Initialize`. -/
def Player.doInitialize (p : Player) (stream : OpenStream) : Player :=
  -- `m_vidReader` is still empty when the player does not stream, and the loop breaks
  { p with stream := some stream, thread := if p.streaming then .reading else .exited }

/-- The frame of the iteration is made, and waits for the mutex. -/
def Player.hold (p : Player) (data : DepthFrame) : Player := { p with thread := .pushing data }

/-- `m_frames.push(std::move(data))`. -/
def Player.push (p : Player) (data : DepthFrame) : Player :=
  { p with frames := p.frames ++ [data], thread := .testing }

/-- `Application::Tick`, with `GetNextFrame`. -/
def Player.tick (p : Player) : Player :=
  match p.frames with
  -- `GetNextFrame` returns false
  | [] => p
  | frame :: frames => { p with frames := frames, shown := p.shown ++ [frame] }

/-- `m_hasFramesMtx` guards every access to the queue, so a push and a tick do not overlap. -/
def Player.step (p : Player) : PlayerAction → Option Player
  | .test =>
    match p.thread with
    | .testing => some p.test
    | _ => none
  | .doInitialize stream =>
    match p.thread with
    | .initializing => some (p.doInitialize stream)
    | _ => none
  | .read outcome =>
    match p.thread, p.stream with
    | .reading, some stream => do
      let data ← stream.frame outcome
      return p.hold data
    | _, _ => none
  | .push =>
    match p.thread with
    | .pushing data => some (p.push data)
    | _ => none
  | .tick => some p.tick

/-! ### Steps -/

variable {p p' : Player} {a : PlayerAction} {past actions : List PlayerAction}
  {stream : OpenStream} {outcome : Option AVFrame} {frame : DepthFrame}

/-- What a step can do. -/
inductive Player.Steps (p : Player) : PlayerAction → Player → Prop
  | leave (stands : p.thread = .testing) : p.Steps .test { p with thread := .exited }
  | resume (stands : p.thread = .testing) (streaming : p.streaming = true) :
      p.Steps .test { p with thread := .reading }
  | reopen (stands : p.thread = .testing) (closed : p.streaming = true → p.stream = none) :
      p.Steps .test { p with thread := .initializing }
  | doInitialize {stream : OpenStream} (stands : p.thread = .initializing) :
      p.Steps (.doInitialize stream) (p.doInitialize stream)
  | read {stream : OpenStream} {outcome : Option AVFrame} {data : DepthFrame}
      (stands : p.thread = .reading) (opened : p.stream = some stream)
      (made : stream.frame outcome = some data) :
      p.Steps (.read outcome) (p.hold data)
  | push {data : DepthFrame} (stands : p.thread = .pushing data) : p.Steps .push (p.push data)
  | tick : p.Steps .tick p.tick

theorem Player.steps_of_step (next : p.step a = some p') : p.Steps a p' := by
  cases a with
  | test =>
    cases stands : p.thread with
    | testing =>
      simp only [step, stands, test] at next
      split_ifs at next with terminated opened
      · exact Option.some.inj next ▸ .leave stands
      · exact Option.some.inj next ▸ .resume stands (Bool.and_eq_true_iff.mp opened).1
      · refine Option.some.inj next ▸ .reopen stands fun streaming => ?_
        simpa [streaming] using opened
    | _ => simp [step, stands] at next
  | doInitialize stream =>
    cases stands : p.thread with
    | initializing =>
      simp only [step, stands] at next
      obtain rfl := Option.some.inj next
      exact .doInitialize stands
    | _ => simp [step, stands] at next
  | read outcome =>
    cases stands : p.thread with
    | reading =>
      cases opened : p.stream with
      | none => simp [step, stands, opened] at next
      | some stream =>
        simp only [step, stands, opened, Option.bind_eq_bind, Option.bind_eq_some_iff,
          Option.pure_def, Option.some.injEq] at next
        obtain ⟨data, made, rfl⟩ := next
        exact .read stands opened made
    | _ => simp [step, stands] at next
  | push =>
    cases stands : p.thread with
    | pushing data =>
      simp only [step, stands] at next
      obtain rfl := Option.some.inj next
      exact .push stands
    | _ => simp [step, stands] at next
  | tick =>
    obtain rfl := Option.some.inj next
    exact .tick

/-! ### No frame is lost -/

/-- The frame that the background thread has in its hand. -/
def PlayerThread.inHand : PlayerThread → List DepthFrame
  | .pushing data => [data]
  | _ => []

/-- The outcomes of the reads. -/
def outcomes (past : List PlayerAction) : List (Option AVFrame) :=
  past.filterMap fun
    | .read outcome => some outcome
    | _ => none

/-- Every read has made one frame, the frames are shown in the order of the reads, and `Initialize`
is not called again. -/
structure Conserved (past : List PlayerAction) (p : Player) : Prop where
  frames : (p.shown ++ (p.frames ++ p.thread.inHand)).map some =
    (outcomes past).map fun outcome => p.stream.bind (·.frame outcome)
  unread : p.stream = none → outcomes past = []
  opensOnce : p.stream = none ∨ (p.streaming = true ∧ p.thread ≠ .initializing) ∨
    p.thread = .exited

theorem outcomes_append (past : List PlayerAction) (a : PlayerAction) :
    outcomes (past ++ [a]) = outcomes past ++ outcomes [a] := List.filterMap_append

theorem Player.tick_frames (p : Player) : p.tick.shown ++ p.tick.frames = p.shown ++ p.frames := by
  cases queue : p.frames with
  | nil => simp [tick, queue]
  | cons frame frames => simp [tick, queue]

theorem Player.tick_kept (p : Player) : p.tick.stream = p.stream ∧ p.tick.thread = p.thread ∧
    p.tick.streaming = p.streaming := by
  cases queue : p.frames <;> simp [tick, queue]

/-- A step that neither reads nor opens a stream. -/
theorem Conserved.of_kept (inv : Conserved past p) (noRead : outcomes [a] = [])
    (stream : p'.stream = p.stream)
    (frames : p'.shown ++ (p'.frames ++ p'.thread.inHand) =
      p.shown ++ (p.frames ++ p.thread.inHand))
    (opensOnce : p'.stream = none ∨ (p'.streaming = true ∧ p'.thread ≠ .initializing) ∨
      p'.thread = .exited) : Conserved (past ++ [a]) p' := by
  refine ⟨?_, ?_, opensOnce⟩
  · rw [outcomes_append, noRead, List.append_nil, frames, stream]
    exact inv.frames
  · rw [outcomes_append, noRead, List.append_nil, stream]
    exact inv.unread

theorem Conserved.step (inv : Conserved past p) (next : p.Steps a p') :
    Conserved (past ++ [a]) p' := by
  cases next with
  | leave stands => exact inv.of_kept rfl rfl (by rw [stands]; rfl) (.inr (.inr rfl))
  | resume stands streaming =>
    exact inv.of_kept rfl rfl (by rw [stands]; rfl) (.inr (.inl ⟨streaming, nofun⟩))
  | reopen stands closed =>
    refine inv.of_kept rfl rfl (by rw [stands]; rfl) (.inl ?_)
    rcases inv.opensOnce with none | ⟨streaming, -⟩ | exited
    · exact none
    · exact closed streaming
    · exact absurd (stands.symm.trans exited) nofun
  | @doInitialize stream stands =>
    -- A stream is open behind `Initialize`, so a second call would have met the first branch.
    have closed : p.stream = none := by
      rcases inv.opensOnce with none | ⟨-, other⟩ | exited
      · exact none
      · exact absurd stands other
      · exact absurd (stands.symm.trans exited) nofun
    -- No read has been made without a stream, so there is no frame for the stream to change.
    have unread := inv.unread closed
    have frames := inv.frames
    rw [unread, stands] at frames
    have emptyHand : (p.doInitialize stream).thread.inHand = [] := by
      cases streaming : p.streaming <;> simp [Player.doInitialize, streaming, PlayerThread.inHand]
    refine ⟨?_, nofun, ?_⟩
    · rw [outcomes_append, unread, emptyHand]
      exact frames
    · cases streaming : p.streaming with
      | true => exact .inr (.inl ⟨streaming, by simp [Player.doInitialize, streaming]⟩)
      | false => exact .inr (.inr (by simp [Player.doInitialize, streaming]))
  | @read stream outcome data stands opened made =>
    have frames := inv.frames
    rw [stands] at frames
    refine ⟨?_, fun closed => absurd (opened.symm.trans closed) nofun, ?_⟩
    · have last : p.stream.bind (·.frame outcome) = some data := by rw [opened]; exact made
      -- The frame in the thread's hand is the last of all, as its read is.
      calc (p.shown ++ (p.frames ++ [data])).map some
          = (p.shown ++ (p.frames ++ [])).map some ++ [some data] := by simp
        _ = (outcomes past).map (fun outcome => p.stream.bind (·.frame outcome)) ++
              [p.stream.bind (·.frame outcome)] := by rw [last]; exact congrArg (· ++ _) frames
        _ = (outcomes (past ++ [.read outcome])).map
              fun outcome => p.stream.bind (·.frame outcome) := by
            rw [outcomes_append, List.map_append]
            rfl
    · rcases inv.opensOnce with none | ⟨streaming, -⟩ | exited
      · exact .inl none
      · exact .inr (.inl ⟨streaming, nofun⟩)
      · exact absurd (stands.symm.trans exited) nofun
  | @push data stands =>
    refine inv.of_kept rfl rfl ?_ ?_
    · rw [stands]
      simp [Player.push, PlayerThread.inHand]
    · rcases inv.opensOnce with none | ⟨streaming, -⟩ | exited
      · exact .inl none
      · exact .inr (.inl ⟨streaming, nofun⟩)
      · exact absurd (stands.symm.trans exited) nofun
  | tick =>
    obtain ⟨stream, thread, streaming⟩ := p.tick_kept
    refine inv.of_kept rfl stream ?_ ?_
    · rw [thread, ← List.append_assoc, p.tick_frames, List.append_assoc]
    · rw [stream, thread, streaming]
      exact inv.opensOnce

/-- **No frame is lost**, in any run. -/
theorem conserved_run {streaming : Bool}
    (runs : run Player.step (.start streaming) actions = some p) :
    Conserved actions p :=
  run_history_invariant Conserved
    (fun _ _ _ _ inv _ next => inv.step (Player.steps_of_step next))
    (⟨rfl, fun _ => rfl, .inl rfl⟩ : Conserved [] _) along_true runs

/-! ### Which frames are shown -/

/-- The frames of the pictures that have been decoded, in decode order. -/
def decodedFrames (past : List PlayerAction) (p : Player) : List DepthFrame :=
  (outcomes past).filterMap fun outcome =>
    outcome.bind fun picture => p.stream.bind (·.frame (some picture))

/-- The world has been shown decoded frames and nothing else, and it can read their colours. -/
structure Delivered (past : List PlayerAction) (p : Player) : Prop where
  inOrder : p.shown <+: decodedFrames past p
  whole : ∀ frame ∈ p.shown, ColoursInside frame.vidData frame.vidWidth frame.vidHeight
    frame.depthWidth frame.depthHeight

/-- The sizes of a stream whose frames have a colour for every point: the height is that of two
halves, both sizes of a half are even, and no product of a coordinate and a size overflows. -/
structure OpenStream.Suits (stream : OpenStream) : Prop where
  halves : 0 < stream.width → Even stream.height
  sizes : 0 < stream.width → 0 < stream.height / 2 →
    (Even stream.width ∧ Even (stream.height / 2)) ∧
      (stream.width - 1) * stream.width < 2 ^ 31 ∧
        (stream.height / 2 - 1) * (stream.height / 2) < 2 ^ 31

theorem Conserved.shown_eq (inv : Conserved past p) :
    p.shown.map some = ((outcomes past).take p.shown.length).map
      fun outcome => p.stream.bind (·.frame outcome) := by
  rw [List.map_take, ← inv.frames, List.map_append, List.take_left' (List.length_map _)]

/-- Every shown frame belongs to a read. -/
theorem Conserved.exists_outcome (inv : Conserved past p) (member : frame ∈ p.shown) :
    ∃ outcome ∈ (outcomes past).take p.shown.length,
      p.stream.bind (·.frame outcome) = some frame := by
  have inMap : some frame ∈ p.shown.map some := List.mem_map_of_mem member
  rw [inv.shown_eq] at inMap
  exact List.mem_map.mp inMap

theorem size_of_newFrame {info : StreamInfo} (made : info.newFrame = some frame) :
    frame.vidData.size = 0 := by
  simp only [StreamInfo.newFrame, Option.bind_eq_bind, Option.bind_eq_some_iff, Option.pure_def,
    Option.some.injEq] at made
  obtain ⟨_, -, _, -, rfl⟩ := made
  rfl

theorem exists_newFrame {info : StreamInfo}
    (fits : info.depthWidth * info.depthHeight + 16 < 2 ^ 31) :
    ∃ frame, info.newFrame = some frame := by
  simp only [StreamInfo.newFrame, nat32_of_lt fits, Option.bind_eq_bind, Option.bind_some,
    nat32_of_lt (show info.depthWidth * info.depthHeight < 2 ^ 31 by omega), Option.pure_def]
  exact ⟨_, rfl⟩

/-- A row of an odd height lies behind the vector of the luma. -/
theorem even_of_rowsInside {width height : ℕ} (wide : 0 < width)
    (inside : RowsInside (vectorSizes (width * (height / 2))) width height) : Even height := by
  have luma : width * height ≤ width * (height / 2) * 2 := inside .y List.mem_cons_self
  rw [Nat.mul_assoc] at luma
  have := Nat.le_of_mul_le_mul_left luma wide
  exact Nat.even_iff.mpr (by omega)

/-- A frame has a colour for every point if and only if it was made from a picture and the stream
has suitable sizes. -/
theorem OpenStream.coloursInside_iff (made : stream.frame outcome = some frame) :
    ColoursInside frame.vidData frame.vidWidth frame.vidHeight frame.depthWidth
      frame.depthHeight ↔ outcome.isSome ∧ stream.Suits := by
  cases outcome with
  | none =>
    refine iff_of_false (fun colours => ?_) fun suited => nomatch suited.1
    -- The buffer of such a frame is empty, and does not hold the header.
    have noHeader := colours.1
    rw [size_of_newFrame made] at noHeader
    exact absurd noHeader (by decide)
  | some picture =>
    obtain ⟨fits, inside, -⟩ := fits_of_rebuild made
    have rebuilt : stream.info.rebuild stream.width stream.height picture = some _ :=
      rebuild_initialized rfl fits inside
    obtain rfl := Option.some.inj (rebuilt.symm.trans made)
    refine ⟨fun colours => ⟨rfl, fun wide => even_of_rowsInside wide inside, fun wide high =>
      of_coloursInside_rebuiltVideo fits wide high colours⟩, fun ⟨_, suits⟩ => ?_⟩
    -- A frame without pixels has no points to colour.
    by_cases pixels : 0 < stream.width ∧ 0 < stream.height / 2
    · obtain ⟨⟨evenW, evenH⟩, columns, rows⟩ := suits.sizes pixels.1 pixels.2
      exact coloursInside_rebuiltVideo fits evenW evenH columns rows
    · refine ⟨Nat.le_add_left _ _, fun x inRow y inColumn => absurd ⟨?_, ?_⟩ pixels⟩
      · exact Nat.zero_lt_of_lt inRow
      · exact Nat.zero_lt_of_lt inColumn

/-- **Suitable sizes are safe**: the rows of every picture lie inside the vectors for its planes,
and no int overflows. -/
theorem OpenStream.Suits.exists_frame (suits : stream.Suits) (outcome : Option AVFrame) :
    ∃ frame, stream.frame outcome = some frame := by
  have fits : stream.width * (stream.height / 2) + 16 < 2 ^ 31 := by
    rcases Nat.eq_zero_or_pos stream.width with empty | wide
    · simp [empty]
    rcases Nat.eq_zero_or_pos (stream.height / 2) with empty | high
    · simp [empty]
    obtain ⟨⟨evenW, evenH⟩, columns, rows⟩ := suits.sizes wide high
    have := Nat.mul_le_mul (le_of_pixels evenW columns) (le_of_pixels evenH rows)
    omega
  have inside : RowsInside (vectorSizes (stream.width * (stream.height / 2))) stream.width
      stream.height := by
    rcases Nat.eq_zero_or_pos stream.width with empty | wide
    · intro idx _
      cases idx <;> simp [empty, outLineSizes, planeSizes]
    have twice : stream.height / 2 * 2 = stream.height :=
      Nat.div_mul_cancel (suits.halves wide).two_dvd
    rcases Nat.eq_zero_or_pos (stream.height / 2) with empty | high
    · obtain none : stream.height = 0 := by omega
      intro idx _
      cases idx <;> simp [none, outHeights, planeSizes]
    obtain ⟨⟨evenW, evenH⟩, -⟩ := suits.sizes wide high
    have halves := rowsInside_of_even evenW evenH
    rwa [twice] at halves
  cases outcome with
  | none => exact exists_newFrame fits
  | some picture => exact ⟨_, rebuild_initialized rfl fits inside⟩

/-- If their reads have succeeded, then the shown frames are the first decoded ones. -/
theorem Conserved.inOrder (inv : Conserved past p)
    (succeed : ∀ outcome ∈ (outcomes past).take p.shown.length, outcome.isSome) :
    p.shown <+: decodedFrames past p := by
  have first : ((outcomes past).take p.shown.length).filterMap (fun outcome =>
      outcome.bind fun picture => p.stream.bind (·.frame (some picture))) = p.shown := by
    -- Where the read succeeded, what it built is a decoded frame.
    calc _ = ((outcomes past).take p.shown.length).filterMap
              (fun outcome => p.stream.bind (·.frame outcome)) := by
            refine List.filterMap_congr fun outcome member => ?_
            obtain ⟨picture, rfl⟩ := Option.isSome_iff_exists.mp (succeed outcome member)
            rfl
      _ = (p.shown.map some).filterMap id := by
            rw [inv.shown_eq, List.filterMap_map]
            rfl
      _ = p.shown := by rw [List.filterMap_map]; exact List.filterMap_some
  refine ⟨((outcomes past).drop p.shown.length).filterMap fun outcome =>
    outcome.bind fun picture => p.stream.bind (·.frame (some picture)), ?_⟩
  rw [decodedFrames]
  conv_rhs => rw [← List.take_append_drop p.shown.length (outcomes past), List.filterMap_append]
  rw [first]

/-- **Which frames are delivered**: only those of the reads that succeeded, and only on a stream of
suitable sizes. -/
theorem Conserved.delivered_iff (inv : Conserved past p) :
    Delivered past p ↔ ∀ outcome ∈ (outcomes past).take p.shown.length,
      outcome.isSome ∧ ∀ stream, p.stream = some stream → stream.Suits := by
  -- Every shown frame comes from a read on the one stream that was opened.
  have whole_iff : ∀ outcome frame, p.stream.bind (·.frame outcome) = some frame →
      (ColoursInside frame.vidData frame.vidWidth frame.vidHeight frame.depthWidth
        frame.depthHeight ↔
          outcome.isSome ∧ ∀ stream, p.stream = some stream → stream.Suits) := by
    intro outcome frame made
    obtain ⟨stream, opened, made⟩ := Option.bind_eq_some_iff.mp made
    simp only [OpenStream.coloursInside_iff made, opened, Option.some.injEq, forall_eq']
  constructor
  · intro delivered outcome member
    have inMap := List.mem_map_of_mem (f := fun outcome => p.stream.bind (·.frame outcome)) member
    rw [← inv.shown_eq] at inMap
    obtain ⟨frame, shown, made⟩ := List.mem_map.mp inMap
    exact (whole_iff outcome frame made.symm).mp (delivered.whole frame shown)
  · intro succeed
    refine ⟨inv.inOrder fun outcome member => (succeed outcome member).1, fun frame member => ?_⟩
    obtain ⟨outcome, read, made⟩ := inv.exists_outcome member
    exact (whole_iff outcome frame made).mpr (succeed outcome read)

/-- A read succeeds, and a stream that is opened has a suitable size. -/
def Succeeds (_ : Player) : PlayerAction → Prop
  | .read outcome => outcome.isSome
  | .doInitialize stream => stream.Suits
  | _ => True

theorem suits_of_succeeds {streaming : Bool}
    (meets : Along Player.step Succeeds (.start streaming) actions)
    (runs : run Player.step (.start streaming) actions = some p) :
    ∀ stream, p.stream = some stream → stream.Suits := by
  refine run_invariant (fun p => ∀ stream, p.stream = some stream → stream.Suits) ?_ nofun meets
    runs
  intro p a p' suits meets next stream opened
  cases Player.steps_of_step next with
  | doInitialize stands =>
    obtain rfl := Option.some.inj opened
    exact meets
  | tick => exact suits stream (p.tick_kept.1.symm.trans opened)
  | _ => exact suits stream opened

theorem reads_of_succeeds {streaming : Bool}
    (meets : Along Player.step Succeeds (.start streaming) actions)
    (runs : run Player.step (.start streaming) actions = some p) :
    ∀ outcome ∈ outcomes actions, outcome.isSome := by
  have none : ∀ outcome ∈ outcomes [], outcome.isSome := fun _ member =>
    absurd member List.not_mem_nil
  refine run_history_invariant (fun past _ => ∀ outcome ∈ outcomes past, outcome.isSome) ?_ none
    meets runs
  intro past p a p' succeeded meets _ outcome member
  rw [outcomes_append, List.mem_append] at member
  rcases member with before | last
  · exact succeeded outcome before
  · cases a with
    | read outcome' =>
      obtain rfl := List.mem_singleton.mp last
      exact meets
    | _ => cases last

/-- **Delivery.** In every state of every run in which the reads succeed, on a stream of a suitable
size, the world has been shown decoded frames in decode order, each once, and all their colours lie
inside their video buffers. Whatever comes next from the stream is read without a fault. -/
theorem delivered_of_succeeds (streaming : Bool) {actions : List PlayerAction} {p : Player}
    (meets : Along Player.step Succeeds (.start streaming) actions)
    (runs : run Player.step (.start streaming) actions = some p) :
    Delivered actions p ∧ ∀ stream, p.stream = some stream → ∀ outcome,
      ∃ frame, stream.frame outcome = some frame := by
  have suits := suits_of_succeeds meets runs
  refine ⟨(conserved_run runs).delivered_iff.mpr fun outcome member => ?_, fun stream opened =>
    (suits stream opened).exists_frame⟩
  exact ⟨reads_of_succeeds meets runs outcome (List.mem_of_mem_take member), suits⟩

/-! ### Two runs -/

/-- A stream of 16 by 4 pixels: two rows of depths and two of video. -/
def smallStream : OpenStream where
  width := 16
  height := 4
  depthVals := fun _ => .num 0

/-- The player opens the stream, reads once and queues the frame, which the next tick takes. -/
def oneRead (outcome : Option AVFrame) : List PlayerAction :=
  [.test, .doInitialize smallStream, .read outcome, .push, .tick]

theorem suits_smallStream : smallStream.Suits where
  halves _ := by decide
  sizes _ _ := ⟨⟨by decide, by decide⟩, by decide, by decide⟩

/-- A picture that has been decoded is shown. -/
theorem delivered_oneRead : ∃ p : Player,
    run Player.step (.start true) (oneRead (some (tightPicture 16 fun _ => 0))) = some p ∧
      p.shown.length = 1 ∧ Delivered (oneRead (some (tightPicture 16 fun _ => 0))) p := by
  refine ⟨_, rfl, rfl, (delivered_of_succeeds true ?_ rfl).1⟩
  exact .cons trivial rfl (.cons suits_smallStream rfl
    (.cons rfl rfl (.cons trivial rfl (.cons trivial rfl trivial))))

/-- After a read has failed, the world is shown a frame without a header. -/
theorem not_delivered_failedRead : ∃ p : Player,
    run Player.step (.start true) (oneRead none) = some p ∧ ¬ Delivered (oneRead none) p := by
  refine ⟨_, rfl, fun delivered => ?_⟩
  have header := (delivered.whole _ List.mem_cons_self).1
  exact absurd header (by decide)

end Sqwar.Stream
