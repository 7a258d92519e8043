import Mathlib.Data.List.ReduceOption
import Sqwar.Semantics.Loop
import Sqwar.Stream.Delivery

/-!
# Reading pictures

`FFmpegInputStreamer::ReadFrameYUV420` returns the first picture of a queue. When the queue is
empty, it reads packets and sends those of the video stream to the decoder until pictures come out.
Whatever libav does, every picture that the decoder puts out is delivered once and in order. But a
packet and a frame leak each time the queue is filled, and the decoder is sent no packet but those
of the video stream, not even the empty one that makes it put out the pictures it still holds.
-/

set_option autoImplicit false

namespace Sqwar.Stream

open Data Semantics

/-! ### `FFmpegInputStreamer` -/

/-- What `avcodec_receive_frame` does. -/
inductive Received
  | frame (frame : AVFrame)
  | again
  | endOfFile
  | failed

/-- The functions of libav that the streamer calls, on a state that stands for its two contexts. -/
structure Libav (S Packet : Type) where
  readFrame : S → Option Packet × S
  streamIndex : Packet → ℤ
  sendPacket : S → Packet → ℤ × S
  receiveFrame : S → Received × S

/-- What has happened so far: the packets that were read and those that were sent, the pictures
that came out, how often the queue was filled, and how many frames and packets are allocated. -/
structure Journal (Packet : Type) where
  read : List Packet := []
  sent : List Packet := []
  received : List AVFrame := []
  refills : ℕ := 0
  frames : ℕ := 0
  packets : ℕ := 0

/-- The members of `FFmpegInputStreamer` that reading uses. -/
structure FFmpegInputStreamer (S Packet : Type) where
  context : S
  videoStreamIndex : ℤ
  decodedFrames : List AVFrame := []
  journal : Journal Packet := {}

/-- The loops of a call are still running. -/
inductive Unfinished | stillRunning
  deriving DecidableEq, Repr

namespace FFmpegInputStreamer

variable {S Packet : Type} (lib : Libav S Packet)

/-- `m_decodedFrames.push_back(frame)`, and the next `av_frame_alloc`. -/
def push (s : FFmpegInputStreamer S Packet) (frame : AVFrame) : FFmpegInputStreamer S Packet :=
  { s with
    decodedFrames := s.decodedFrames ++ [frame]
    journal := { s.journal with
      received := s.journal.received ++ [frame]
      frames := s.journal.frames + 1 } }

/-- `av_packet_alloc` and the first `av_frame_alloc`. -/
def allocate (s : FFmpegInputStreamer S Packet) : FFmpegInputStreamer S Packet :=
  { s with
    journal := { s.journal with
      refills := s.journal.refills + 1
      frames := s.journal.frames + 1
      packets := s.journal.packets + 1 } }

/-- After `av_read_frame`. -/
def noteRead (s : FFmpegInputStreamer S Packet) (context : S) (packet : Packet) :
    FFmpegInputStreamer S Packet :=
  { s with
    context := context
    journal := { s.journal with read := s.journal.read ++ [packet] } }

/-- After `avcodec_send_packet`. -/
def noteSent (s : FFmpegInputStreamer S Packet) (context : S) (packet : Packet) :
    FFmpegInputStreamer S Packet :=
  { s with
    context := context
    journal := { s.journal with sent := s.journal.sent ++ [packet] } }

/-- The loop over `avcodec_receive_frame`. It leaves with whether the call goes on. -/
def receiveBody : LoopBody Unfinished (FFmpegInputStreamer S Packet)
    (Bool × FFmpegInputStreamer S Packet) := fun s =>
  let (received, context) := lib.receiveFrame s.context
  let s := { s with context := context }
  match received with
  | .frame frame => .ok (.inl (s.push frame))
  | .again | .endOfFile => .ok (.inr (true, s))
  | .failed => .ok (.inr (false, s))

/-- What is done with a packet that has been read. -/
def sendPacket (fuel : ℕ) (s : FFmpegInputStreamer S Packet) (packet : Packet) :
    Except Unfinished
      (FFmpegInputStreamer S Packet ⊕ (Bool × FFmpegInputStreamer S Packet)) :=
  let (ret, context) := lib.sendPacket s.context packet
  let s := s.noteSent context packet
  if ret < 0 then .ok (.inr (true, s))
  else
    match runLoop (receiveBody lib) fuel s with
    | none => .error .stillRunning
    | some (.error failure) => .error failure
    | some (.ok (true, s)) => .ok (.inl s)
    | some (.ok (false, s)) => .ok (.inr (false, s))

/-- The loop that fills the queue. -/
def refillBody (fuel : ℕ) : LoopBody Unfinished (FFmpegInputStreamer S Packet)
    (Bool × FFmpegInputStreamer S Packet) := fun s =>
  if s.decodedFrames.isEmpty then
    match lib.readFrame s.context with
    | (none, context) => .ok (.inr (true, { s with context := context }))
    | (some packet, context) =>
      let s := s.noteRead context packet
      if lib.streamIndex packet = s.videoStreamIndex then s.sendPacket lib fuel packet
      else .ok (.inl s)
  else .ok (.inr (true, s))

/-- The end of `ReadFrameYUV420`: the first picture is copied and freed. -/
def takeFirst (s : FFmpegInputStreamer S Packet) : Option AVFrame × FFmpegInputStreamer S Packet :=
  match s.decodedFrames with
  | [] => (none, s)
  | frame :: decodedFrames =>
    (some frame, { s with
      decodedFrames := decodedFrames
      journal := { s.journal with frames := s.journal.frames - 1 } })

/-- `ReadFrameYUV420`: the picture whose planes it copies, if it returns true. The argument bounds
the passes of each loop. -/
def readFrameYUV420 (fuel : ℕ) (s : FFmpegInputStreamer S Packet) :
    Option (Option AVFrame × FFmpegInputStreamer S Packet) :=
  if s.decodedFrames.isEmpty then
    match runLoop (refillBody lib fuel) fuel s.allocate with
    | some (.ok (true, s)) => some s.takeFirst
    -- `return false`, with the pictures that came out before still in the queue
    | some (.ok (false, s)) => some (none, s)
    | _ => none
  else some s.takeFirst

/-- Some calls, one after another. -/
def readFrames (fuel : ℕ) : ℕ → FFmpegInputStreamer S Packet →
    Option (List (Option AVFrame) × FFmpegInputStreamer S Packet)
  | 0, s => some ([], s)
  | n + 1, s => do
    let (outcome, s) ← s.readFrameYUV420 lib fuel
    let (outcomes, s) ← s.readFrames fuel n
    some (outcome :: outcomes, s)

/-! ### Invariants of filling the queue -/

variable {lib} {fuel n : ℕ} {delivered : List AVFrame} {s s' : FFmpegInputStreamer S Packet}
  {packet : Packet} {outcome : Option AVFrame} {outcomes : List (Option AVFrame)}
  {I : FFmpegInputStreamer S Packet → Prop}

/-- A packet has been read and sent. -/
def afterSend (lib : Libav S Packet) (s : FFmpegInputStreamer S Packet) (packet : Packet) :
    FFmpegInputStreamer S Packet :=
  let s := s.noteRead (lib.readFrame s.context).2 packet
  s.noteSent (lib.sendPacket s.context packet).2 packet

/-- What every call of libav keeps while the queue is filled. -/
structure Invariant (lib : Libav S Packet) (I : FFmpegInputStreamer S Packet → Prop) : Prop where
  stop {s : FFmpegInputStreamer S Packet} : I s → (lib.readFrame s.context).1 = none →
    I { s with context := (lib.readFrame s.context).2 }
  skip {s : FFmpegInputStreamer S Packet} {packet : Packet} : I s →
    (lib.readFrame s.context).1 = some packet → lib.streamIndex packet ≠ s.videoStreamIndex →
    I (s.noteRead (lib.readFrame s.context).2 packet)
  send {s : FFmpegInputStreamer S Packet} {packet : Packet} : I s →
    (lib.readFrame s.context).1 = some packet → lib.streamIndex packet = s.videoStreamIndex →
    I (afterSend lib s packet)
  push {s : FFmpegInputStreamer S Packet} {frame : AVFrame} : I s →
    (lib.receiveFrame s.context).1 = .frame frame →
    I (FFmpegInputStreamer.push { s with context := (lib.receiveFrame s.context).2 } frame)
  settle {s : FFmpegInputStreamer S Packet} : I s →
    (∀ frame, (lib.receiveFrame s.context).1 ≠ .frame frame) →
    I { s with context := (lib.receiveFrame s.context).2 }

/-- The loop over the pictures that come out. -/
theorem Invariant.receive (inv : Invariant lib I) (start : I s) {goesOn : Bool}
    (runs : runLoop (receiveBody lib) fuel s = some (.ok (goesOn, s'))) : I s' := by
  refine (finishes_of_runLoop runs).invariant I (fun t => I t.2) start ?_ ?_
  · intro t t' kept steps
    unfold receiveBody at steps
    dsimp only at steps
    split at steps
    · rename_i received
      obtain rfl := Sum.inl.inj (Except.ok.inj steps)
      exact inv.push kept received
    all_goals cases steps
  · intro t t' kept leaves
    unfold receiveBody at leaves
    dsimp only at leaves
    split at leaves
    · cases leaves
    all_goals
      rename_i received
      obtain rfl := Sum.inr.inj (Except.ok.inj leaves)
      exact inv.settle kept (by simp [received])

/-- The state in which a pass of a loop leaves the streamer. -/
def after : FFmpegInputStreamer S Packet ⊕ (Bool × FFmpegInputStreamer S Packet) →
    FFmpegInputStreamer S Packet
  | .inl s => s
  | .inr (_, s) => s

/-- A pass of the loop that fills the queue. -/
theorem Invariant.pass (inv : Invariant lib I) (start : I s)
    {pass : FFmpegInputStreamer S Packet ⊕ (Bool × FFmpegInputStreamer S Packet)}
    (passes : refillBody lib fuel s = .ok pass) : I (after pass) := by
  unfold refillBody at passes
  split at passes
  · split at passes
    · rename_i context ends
      obtain rfl := Except.ok.inj passes
      have kept := inv.stop start (by rw [ends])
      rwa [ends] at kept
    · rename_i packet context reads
      dsimp only at passes
      split at passes
      · rename_i video
        have kept := inv.send start (by rw [reads]) video
        rw [afterSend, reads] at kept
        unfold sendPacket at passes
        dsimp only at passes kept
        split at passes
        · obtain rfl := Except.ok.inj passes
          exact kept
        · split at passes
          · cases passes
          · cases passes
          all_goals
            rename_i runs
            obtain rfl := Except.ok.inj passes
            exact inv.receive kept runs
      · rename_i other
        obtain rfl := Except.ok.inj passes
        have kept := inv.skip start (by rw [reads]) other
        rwa [reads] at kept
  · obtain rfl := Except.ok.inj passes
    exact start

/-- The loop that fills the queue. -/
theorem Invariant.refill (inv : Invariant lib I) (start : I s) {goesOn : Bool}
    (runs : runLoop (refillBody lib fuel) fuel s = some (.ok (goesOn, s'))) : I s' :=
  (finishes_of_runLoop runs).invariant I (fun t => I t.2) start
    (fun _ _ kept steps => inv.pass kept steps) fun _ _ kept leaves => inv.pass kept leaves

/-! ### Nothing is lost, nothing is freed -/

variable (lib) in
/-- What holds between the calls and in their loops: the pictures that came out have been delivered
or wait in the queue, exactly the packets of the video stream have been sent, and besides the
pictures in the queue one frame and one packet are allocated for each time it was filled. -/
structure Balanced (delivered : List AVFrame) (s : FFmpegInputStreamer S Packet) : Prop where
  received : s.journal.received = delivered ++ s.decodedFrames
  sent : s.journal.sent =
    s.journal.read.filter fun packet => lib.streamIndex packet = s.videoStreamIndex
  frames : s.journal.frames = s.decodedFrames.length + s.journal.refills
  packets : s.journal.packets = s.journal.refills

/-- What a loop does not change. -/
structure SameStream (s s' : FFmpegInputStreamer S Packet) : Prop where
  index : s'.videoStreamIndex = s.videoStreamIndex
  refills : s'.journal.refills = s.journal.refills

theorem Balanced.withContext (inv : Balanced lib delivered s) (context : S) :
    Balanced lib delivered { s with context := context } :=
  ⟨inv.received, inv.sent, inv.frames, inv.packets⟩

theorem Balanced.push (inv : Balanced lib delivered s) (frame : AVFrame) :
    Balanced lib delivered (s.push frame) := by
  refine ⟨?_, inv.sent, ?_, inv.packets⟩
  · change s.journal.received ++ [frame] = delivered ++ (s.decodedFrames ++ [frame])
    rw [inv.received, List.append_assoc]
  · change s.journal.frames + 1 = (s.decodedFrames ++ [frame]).length + s.journal.refills
    rw [inv.frames, List.length_append, List.length_singleton]
    omega

theorem Balanced.allocate (inv : Balanced lib delivered s) :
    Balanced lib delivered s.allocate := by
  refine ⟨inv.received, inv.sent, ?_, ?_⟩
  · change s.journal.frames + 1 = s.decodedFrames.length + (s.journal.refills + 1)
    rw [inv.frames, Nat.add_assoc]
  · change s.journal.packets + 1 = s.journal.refills + 1
    rw [inv.packets]

/-- Filling the queue keeps the balance. -/
theorem Balanced.invariant (lib : Libav S Packet) (delivered : List AVFrame)
    (s : FFmpegInputStreamer S Packet) :
    Invariant lib fun t => Balanced lib delivered t ∧ SameStream s t where
  stop := by
    rintro t ⟨kept, same⟩ -
    exact ⟨kept.withContext _, same.index, same.refills⟩
  skip := by
    rintro t packet ⟨kept, same⟩ - other
    refine ⟨⟨kept.received, ?_, kept.frames, kept.packets⟩, same.index, same.refills⟩
    simp only [noteRead, List.filter_append, kept.sent, List.filter_cons, List.filter_nil, other,
      decide_false, Bool.false_eq_true, if_false, List.append_nil]
  send := by
    rintro t packet ⟨kept, same⟩ - video
    refine ⟨⟨kept.received, ?_, kept.frames, kept.packets⟩, same.index, same.refills⟩
    simp only [afterSend, noteSent, noteRead, List.filter_append, kept.sent, List.filter_cons,
      List.filter_nil, video, decide_true, if_true]
  push := by
    rintro t frame ⟨kept, same⟩ -
    exact ⟨(kept.withContext _).push _, same.index, same.refills⟩
  settle := by
    rintro t ⟨kept, same⟩ -
    exact ⟨kept.withContext _, same.index, same.refills⟩

/-- The loop that fills the queue. -/
theorem Balanced.refill (inv : Balanced lib delivered s) {goesOn : Bool}
    (runs : runLoop (refillBody lib fuel) fuel s = some (.ok (goesOn, s'))) :
    Balanced lib delivered s' ∧ SameStream s s' :=
  (Balanced.invariant lib delivered s).refill ⟨inv, rfl, rfl⟩ runs

/-- A picture that is delivered leaves the queue. -/
theorem Balanced.takeFirst (inv : Balanced lib delivered s) :
    Balanced lib (delivered ++ s.takeFirst.1.toList) s.takeFirst.2 := by
  unfold FFmpegInputStreamer.takeFirst
  split
  · exact ⟨by rw [Option.toList_none, List.append_nil, inv.received], inv.sent, inv.frames,
      inv.packets⟩
  · rename_i frame decodedFrames queue
    refine ⟨?_, inv.sent, ?_, inv.packets⟩
    · change s.journal.received = delivered ++ [frame] ++ decodedFrames
      rw [inv.received, queue, List.append_assoc]
      rfl
    · have frames := inv.frames
      rw [queue, List.length_cons] at frames
      change s.journal.frames - 1 = decodedFrames.length + s.journal.refills
      omega

/-- What a call does: it delivers the first picture of the queue, which it fills once if it finds
it empty. Only then can it fail. -/
theorem Balanced.read (inv : Balanced lib delivered s)
    (reads : s.readFrameYUV420 lib fuel = some (outcome, s')) :
    Balanced lib (delivered ++ outcome.toList) s' ∧
      (s'.journal.refills = s.journal.refills + 1 ∨
        s'.journal.refills = s.journal.refills ∧ outcome.isSome) := by
  have unchanged (t : FFmpegInputStreamer S Packet) :
      t.takeFirst.2.journal.refills = t.journal.refills := by
    unfold FFmpegInputStreamer.takeFirst
    split <;> rfl
  unfold readFrameYUV420 at reads
  split at reads
  · split at reads
    · rename_i t runs
      obtain ⟨kept, same⟩ := inv.allocate.refill runs
      obtain ⟨rfl, rfl⟩ := Prod.mk.inj (Option.some.inj reads)
      exact ⟨kept.takeFirst, .inl ((unchanged t).trans same.refills)⟩
    · rename_i t runs
      obtain ⟨kept, same⟩ := inv.allocate.refill runs
      obtain ⟨rfl, rfl⟩ := Prod.mk.inj (Option.some.inj reads)
      refine ⟨?_, .inl same.refills⟩
      rwa [Option.toList_none, List.append_nil]
    · cases reads
  · rename_i queue
    obtain ⟨rfl, rfl⟩ := Prod.mk.inj (Option.some.inj reads)
    refine ⟨inv.takeFirst, .inr ⟨unchanged s, ?_⟩⟩
    cases waiting : s.decodedFrames with
    | nil => exact absurd (by rw [waiting]; rfl) queue
    | cons frame decodedFrames => rfl

/-- Some calls. -/
theorem Balanced.reads (inv : Balanced lib delivered s)
    (reads : s.readFrames lib fuel n = some (outcomes, s')) :
    Balanced lib (delivered ++ outcomes.reduceOption) s' ∧
      s'.journal.refills ≤ s.journal.refills + n ∧
      s.journal.refills + outcomes.countP Option.isNone ≤ s'.journal.refills := by
  induction n generalizing s delivered outcomes with
  | zero =>
    obtain ⟨rfl, rfl⟩ := Prod.mk.inj (Option.some.inj reads)
    exact ⟨by rwa [List.reduceOption_nil, List.append_nil], le_rfl, le_rfl⟩
  | succ n ih =>
    obtain ⟨⟨outcome, t⟩, first, rest⟩ := Option.bind_eq_some_iff.mp reads
    obtain ⟨⟨later, t'⟩, others, ends⟩ := Option.bind_eq_some_iff.mp rest
    obtain ⟨rfl, rfl⟩ := Prod.mk.inj (Option.some.inj ends)
    obtain ⟨kept, refills⟩ := inv.read first
    obtain ⟨kept', most, least⟩ := ih kept others
    rw [List.append_assoc] at kept'
    cases outcome with
    | none =>
      have filled := refills.resolve_right (by simp)
      refine ⟨by rwa [List.reduceOption_cons_of_none], by omega, ?_⟩
      rw [List.countP_cons_of_pos rfl]
      omega
    | some frame =>
      refine ⟨by rwa [List.reduceOption_cons_of_some], by omega, ?_⟩
      rw [List.countP_cons_of_neg (by simp)]
      omega

/-- A streamer that has just been opened. -/
theorem balanced_opened (context : S) (videoStreamIndex : ℤ) :
    Balanced lib [] ⟨context, videoStreamIndex, [], {}⟩ :=
  ⟨rfl, rfl, rfl, rfl⟩

variable (lib) in
/-- **Pictures are delivered once and in order**, whatever libav does and in whichever calls it
fails. After any calls on a streamer that has been opened, the pictures that came out of the decoder
are those that were delivered and then those in the queue, the packets that were sent are those of
the video stream that were read, and for each time the queue was filled, which every failing call
does, one frame and one packet are never freed. -/
theorem reads_balanced (context : S) (videoStreamIndex : ℤ)
    (reads : readFrames lib fuel n ⟨context, videoStreamIndex, [], {}⟩ = some (outcomes, s')) :
    Balanced lib outcomes.reduceOption s' ∧ s'.journal.refills ≤ n ∧
      outcomes.countP Option.isNone ≤ s'.journal.refills := by
  obtain ⟨kept, most, least⟩ := (balanced_opened context videoStreamIndex).reads reads
  rw [List.nil_append] at kept
  rw [Nat.zero_add] at most least
  exact ⟨kept, most, least⟩

/-! ### A file of two packets -/

/-- A picture of 16 pixels a line. -/
def smallPicture : AVFrame := tightPicture 16 fun _ => 0

/-- A decoder that puts out the same picture for each packet. Its state is the packets that are left
in the file and the packet whose picture waits. -/
def repeating (streamIndex : ℤ → ℤ) : Libav (List ℤ × Option ℤ) ℤ where
  readFrame s := (s.1.head?, (s.1.tail, s.2))
  streamIndex := streamIndex
  sendPacket s packet := (0, (s.1, some packet))
  receiveFrame s := (if s.2.isSome then .frame smallPicture else .again, (s.1, none))

/-- Of a packet of another stream and one of the video stream, the first call delivers a picture and
the second finds none. -/
theorem reads_balanced_twoPackets : ∃ s',
    readFrames (repeating id) 3 2 ⟨([1, 0], none), 0, [], {}⟩ =
        some ([some smallPicture, none], s') ∧
      Balanced (repeating id) [smallPicture] s' ∧ s'.journal.refills = 2 := by
  have reads : ∃ s', readFrames (repeating id) 3 2 ⟨([1, 0], none), 0, [], {}⟩ =
      some ([some smallPicture, none], s') ∧ s'.journal.refills = 2 := ⟨_, rfl, rfl⟩
  obtain ⟨s', reads, refills⟩ := reads
  obtain ⟨balanced, -, -⟩ := reads_balanced (repeating id) ([1, 0], none) 0 reads
  exact ⟨s', reads, balanced, refills⟩

/-! ### From the decoder to the screen -/

/-- What has been delivered comes before what waits in the queue. -/
theorem Balanced.prefix_received (inv : Balanced lib outcomes.reduceOption s) (k : ℕ) :
    (outcomes.take k).reduceOption <+: s.journal.received := by
  rw [inv.received]
  exact (List.take_prefix k outcomes).reduceOption.trans (List.prefix_append _ _)

variable (lib) in
/-- **What the world is shown**, in any run of a player whose reads are calls on one streamer,
whatever libav does. Each shown frame is made of what one read returned. The pictures among these
are the first ones that came out of the decoder, in this order and each once, and the others, whose
frames are blank, are no more than the times the queue was filled. -/
theorem shows_received {actions : List PlayerAction} {p : Player} (streaming : Bool)
    (runs : run Player.step (.start streaming) actions = some p) (context : S)
    (videoStreamIndex : ℤ)
    (reads : readFrames lib fuel n ⟨context, videoStreamIndex, [], {}⟩ =
      some (Stream.outcomes actions, s')) :
    ∃ sources : List (Option AVFrame),
      p.shown.map some = sources.map (fun outcome => p.stream.bind (·.frame outcome)) ∧
      sources.reduceOption <+: s'.journal.received ∧
      sources.countP Option.isNone ≤ s'.journal.refills := by
  obtain ⟨kept, -, least⟩ := (balanced_opened context videoStreamIndex).reads reads
  rw [List.nil_append] at kept
  rw [Nat.zero_add] at least
  refine ⟨(Stream.outcomes actions).take p.shown.length, (conserved_run runs).shown_eq, ?_, ?_⟩
  · exact kept.prefix_received _
  · exact (List.take_sublist _ _).countP_le.trans least

/-- The picture of the second packet is shown. -/
theorem shows_received_oneRead : ∃ p s',
    run Player.step (.start true) (oneRead (some smallPicture)) = some p ∧
      p.shown.length = 1 ∧
      readFrames (repeating id) 3 1 ⟨([1, 0], none), 0, [], {}⟩ = some ([some smallPicture], s') ∧
      ∃ sources : List (Option AVFrame),
        p.shown.map some = sources.map (fun outcome => p.stream.bind (·.frame outcome)) ∧
        sources.reduceOption <+: s'.journal.received := by
  obtain ⟨p, runs, shown⟩ : ∃ p : Player,
      run Player.step (.start true) (oneRead (some smallPicture)) = some p ∧
        p.shown.length = 1 := ⟨_, rfl, rfl⟩
  obtain ⟨s', reads⟩ : ∃ s', readFrames (repeating id) 3 1 ⟨([1, 0], none), 0, [], {}⟩ =
      some ([some smallPicture], s') := ⟨_, rfl⟩
  obtain ⟨sources, made, received, -⟩ :=
    shows_received (repeating id) true runs ([1, 0], none) 0 reads
  exact ⟨p, s', runs, shown, reads, sources, made, received⟩

end FFmpegInputStreamer

end Sqwar.Stream
