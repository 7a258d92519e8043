import Mathlib.Data.Multiset.Basic
import Sqwar.Semantics.Loop
import Sqwar.Stream.Timestamps

/-!
# Finishing a recording

An encoder holds frames back. `FFmpegOutputStreamer::WriteFrameYUV420` asks for at most one packet
after each frame that the encoder has taken, and `FinishWrite` asks until none comes. So every frame
that was taken has its packet in the file, however many are held back.
-/

set_option autoImplicit false

namespace Sqwar.Stream

open Data Semantics

/-! ### The source functions -/

/-- The functions of libav that the streamer calls, on a state that stands for the encoder. No frame
stands for the null pointer. -/
structure Encoder (E Picture Packet : Type) where
  sendFrame : E → Option (Picture × ℤ) → ℤ × E
  receivePacket : E → Option Packet × E

/-- A call of `WriteFrameYUV420`: its planes, and what `av_frame_get_buffer` returns to it. -/
structure WriteCall (Picture : Type) where
  picture : Picture
  getBuffer : ℤ

/-- What the timestamp of a call depends on, which is not what sending returns. -/
def WriteCall.returned {Picture : Type} (call : WriteCall Picture) : Returned :=
  ⟨call.getBuffer, 0⟩

/-- The streamer and its encoder, the packets in its file, and the frames that the encoder has
taken. -/
structure EncodingStreamer (E Picture Packet : Type) where
  encoder : E
  streamer : FFmpegOutputStreamer := {}
  file : List Packet := []
  taken : List (Picture × ℤ) := []

namespace EncodingStreamer

variable {E Picture Packet : Type} (enc : Encoder E Picture Packet) (timeBase : TimeBase)

/-- `avcodec_receive_packet`, and `av_interleaved_write_frame` if there is a packet. -/
def receive (s : EncodingStreamer E Picture Packet) : EncodingStreamer E Picture Packet :=
  let (packet, encoder) := enc.receivePacket s.encoder
  { s with encoder := encoder, file := s.file ++ packet.toList }

/-- `avcodec_send_frame`, and what follows it. -/
def send (s : EncodingStreamer E Picture Packet) (frame : Picture × ℤ) :
    EncodingStreamer E Picture Packet :=
  let (err, encoder) := enc.sendFrame s.encoder (some frame)
  if err < 0 then { s with encoder := encoder }
  else receive enc { s with encoder := encoder, taken := s.taken ++ [frame] }

/-- `WriteFrameYUV420`. -/
def writeFrameYUV420 (s : EncodingStreamer E Picture Packet) (call : WriteCall Picture) :
    EncodingStreamer E Picture Packet :=
  let (streamer, outcome) := s.streamer.writeFrameYUV420 timeBase call.returned
  match outcome.pts with
  | none => { s with streamer := streamer }
  | some pts => send enc { s with streamer := streamer } (call.picture, pts)

/-- The loop of `FinishWrite`. -/
def finishBody : LoopBody Empty (EncodingStreamer E Picture Packet)
    (EncodingStreamer E Picture Packet) := fun s =>
  let (_, encoder) := enc.sendFrame s.encoder none
  match enc.receivePacket encoder with
  | (some packet, encoder) => .ok (.inl { s with encoder := encoder, file := s.file ++ [packet] })
  | (none, encoder) => .ok (.inr { s with encoder := encoder })

end EncodingStreamer

/-! ### What is relied on -/

/-- The frames that some calls send, with their timestamps. -/
def stampedFrames {Picture : Type} (timeBase : TimeBase) :
    FFmpegOutputStreamer → List (WriteCall Picture) → List (Picture × ℤ)
  | _, [] => []
  | s, call :: calls =>
    let (s, outcome) := s.writeFrameYUV420 timeBase call.returned
    (outcome.pts.map fun pts => (call.picture, pts)).toList ++ stampedFrames timeBase s calls

/-- What libav promises of an encoder for video. It holds the frames that it has taken until their
packets come out, one packet for each frame and in any order. When it has been told that no frame
follows, it goes on until it holds none. -/
structure Encoder.Keeps {E Picture Packet : Type} (enc : Encoder E Picture Packet)
    (holds : E → Multiset (Picture × ℤ)) (isOf : Packet → Picture × ℤ → Prop) : Prop where
  refuse (e : E) (frame : Picture × ℤ) : (enc.sendFrame e (some frame)).1 < 0 →
    holds (enc.sendFrame e (some frame)).2 = holds e
  take (e : E) (frame : Picture × ℤ) : 0 ≤ (enc.sendFrame e (some frame)).1 →
    holds (enc.sendFrame e (some frame)).2 = frame ::ₘ holds e
  finish (e : E) : holds (enc.sendFrame e none).2 = holds e
  put (e : E) (packet : Packet) : (enc.receivePacket e).1 = some packet →
    ∃ frame, isOf packet frame ∧ holds e = frame ::ₘ holds (enc.receivePacket e).2
  wait (e : E) : (enc.receivePacket e).1 = none → holds (enc.receivePacket e).2 = holds e
  drain (e : E) : (enc.receivePacket (enc.sendFrame e none).2).1 = none → holds e = 0

namespace EncodingStreamer

variable {E Picture Packet : Type} {enc : Encoder E Picture Packet} {timeBase : TimeBase}
  {holds : E → Multiset (Picture × ℤ)} {isOf : Packet → Picture × ℤ → Prop}
  {s : EncodingStreamer E Picture Packet}

/-- Every frame that was taken is in the file or held back. -/
def Kept (holds : E → Multiset (Picture × ℤ)) (isOf : Packet → Picture × ℤ → Prop)
    (s : EncodingStreamer E Picture Packet) : Prop :=
  ∃ frames : List (Picture × ℤ), List.Forall₂ isOf s.file frames ∧
    (frames : Multiset (Picture × ℤ)) + holds s.encoder = s.taken

/-! ### The calls -/

/-- A packet that comes out is that of one of the frames that were held back. -/
theorem Kept.written (kept : Kept holds isOf s) {encoder : E} {packet : Packet}
    {frame : Picture × ℤ} (packetOf : isOf packet frame)
    (held : holds s.encoder = frame ::ₘ holds encoder) :
    Kept holds isOf { s with encoder := encoder, file := s.file ++ [packet] } := by
  obtain ⟨frames, packets, all⟩ := kept
  refine ⟨frames ++ [frame], List.rel_append packets (.cons packetOf .nil), ?_⟩
  rw [← Multiset.coe_add, Multiset.coe_singleton, add_assoc, Multiset.singleton_add, ← held]
  exact all

theorem Kept.receive (keeps : enc.Keeps holds isOf) (kept : Kept holds isOf s) :
    Kept holds isOf (s.receive enc) := by
  unfold EncodingStreamer.receive
  dsimp only
  cases got : (enc.receivePacket s.encoder).1 with
  | none =>
    obtain ⟨frames, packets, all⟩ := kept
    refine ⟨frames, ?_, ?_⟩
    · rwa [Option.toList_none, List.append_nil]
    · rw [← all]
      exact congrArg _ (keeps.wait _ got)
  | some packet =>
    obtain ⟨frame, packetOf, held⟩ := keeps.put _ _ got
    exact kept.written packetOf held

theorem Kept.send (keeps : enc.Keeps holds isOf) (kept : Kept holds isOf s)
    (frame : Picture × ℤ) : Kept holds isOf (s.send enc frame) := by
  obtain ⟨frames, packets, all⟩ := kept
  unfold EncodingStreamer.send
  dsimp only
  split
  · rename_i refused
    refine ⟨frames, packets, ?_⟩
    rw [← all]
    exact congrArg _ (keeps.refuse _ _ refused)
  · rename_i accepted
    refine Kept.receive keeps ⟨frames, packets, ?_⟩
    dsimp only
    rw [keeps.take _ _ (not_lt.mp accepted), Multiset.add_cons, all, ← Multiset.coe_add,
      Multiset.coe_singleton, ← Multiset.singleton_add, add_comm]

theorem Kept.write (keeps : enc.Keeps holds isOf) (kept : Kept holds isOf s)
    (call : WriteCall Picture) : Kept holds isOf (s.writeFrameYUV420 enc timeBase call) := by
  have renumbered (streamer : FFmpegOutputStreamer) :
      Kept holds isOf { s with streamer := streamer } := kept
  unfold EncodingStreamer.writeFrameYUV420
  dsimp only
  split
  · exact kept
  · exact (renumbered _).send keeps _

theorem Kept.writes (keeps : enc.Keeps holds isOf) (kept : Kept holds isOf s)
    (calls : List (WriteCall Picture)) :
    Kept holds isOf (calls.foldl (writeFrameYUV420 enc timeBase) s) := by
  induction calls generalizing s with
  | nil => exact kept
  | cons call calls ih => exact ih (kept.write keeps call)

variable (enc timeBase s)

/-- A call may have its frame taken, and no other one. -/
theorem write_taken (call : WriteCall Picture) :
    ∃ frames, (s.writeFrameYUV420 enc timeBase call).taken = s.taken ++ frames ∧
      frames.Sublist ((s.streamer.writeFrameYUV420 timeBase call.returned).2.pts.map
        fun pts => (call.picture, pts)).toList := by
  unfold EncodingStreamer.writeFrameYUV420
  dsimp only
  split
  · exact ⟨[], (List.append_nil _).symm, List.nil_sublist _⟩
  · rename_i pts stamped
    rw [stamped, Option.map_some, Option.toList_some]
    unfold EncodingStreamer.send
    dsimp only
    split
    · exact ⟨[], (List.append_nil _).symm, List.nil_sublist _⟩
    · exact ⟨[(call.picture, pts)], rfl, List.Sublist.refl _⟩

theorem write_streamer (call : WriteCall Picture) :
    (s.writeFrameYUV420 enc timeBase call).streamer =
      (s.streamer.writeFrameYUV420 timeBase call.returned).1 := by
  unfold EncodingStreamer.writeFrameYUV420
  dsimp only
  split
  · rfl
  · unfold EncodingStreamer.send
    dsimp only
    split <;> rfl

theorem writes_taken (calls : List (WriteCall Picture)) :
    ∃ frames, (calls.foldl (writeFrameYUV420 enc timeBase) s).taken = s.taken ++ frames ∧
      frames.Sublist (stampedFrames timeBase s.streamer calls) := by
  induction calls generalizing s with
  | nil => exact ⟨[], (List.append_nil _).symm, List.nil_sublist _⟩
  | cons call calls ih =>
    obtain ⟨first, taken, sent⟩ := write_taken enc timeBase s call
    obtain ⟨later, takenLater, sentLater⟩ := ih (s.writeFrameYUV420 enc timeBase call)
    refine ⟨first ++ later, ?_, ?_⟩
    · rw [List.foldl_cons, takenLater, taken, List.append_assoc]
    · rw [write_streamer] at sentLater
      exact sent.append sentLater

variable {s}

/-- The timestamps are those of the calls. -/
theorem stampedFrames_snd (calls : List (WriteCall Picture)) (streamer : FFmpegOutputStreamer) :
    (stampedFrames timeBase streamer calls).map Prod.snd =
      (streamer.writeFrames timeBase (calls.map WriteCall.returned)).filterMap Outcome.pts := by
  induction calls generalizing streamer with
  | nil => rfl
  | cons call calls ih =>
    rw [stampedFrames, List.map_append, ih, List.map_cons, FFmpegOutputStreamer.writeFrames]
    cases stamped : (streamer.writeFrameYUV420 timeBase call.returned).2.pts with
    | none => rw [List.filterMap_cons_none stamped]; rfl
    | some pts => rw [List.filterMap_cons_some stamped]; rfl

variable {enc timeBase}

/-! ### The end of the file -/

/-- The packets in the file are those of the frames that were taken. -/
def Complete (isOf : Packet → Picture × ℤ → Prop) (s : EncodingStreamer E Picture Packet) : Prop :=
  ∃ frames : List (Picture × ℤ), frames.Perm s.taken ∧ List.Forall₂ isOf s.file frames

/-- A pass of the loop of `FinishWrite`: one frame less is held back, or there is none. -/
theorem Kept.pass (keeps : enc.Keeps holds isOf) (kept : Kept holds isOf s) :
    (∃ s', finishBody enc s = .ok (.inr s') ∧ s'.taken = s.taken ∧ Complete isOf s') ∨
      ∃ s', finishBody enc s = .ok (.inl s') ∧ s'.taken = s.taken ∧ Kept holds isOf s' ∧
        (holds s'.encoder).card < (holds s.encoder).card := by
  rcases got : enc.receivePacket (enc.sendFrame s.encoder none).2 with ⟨packet, encoder⟩
  cases packet with
  | none =>
    -- only an encoder that holds nothing back has no packet now
    refine .inl ⟨{ s with encoder := encoder }, by simp only [finishBody, got], rfl, ?_⟩
    obtain ⟨frames, packets, all⟩ := kept
    rw [keeps.drain s.encoder (by rw [got]), add_zero] at all
    exact ⟨frames, Multiset.coe_eq_coe.mp all, packets⟩
  | some packet =>
    obtain ⟨frame, packetOf, held⟩ := keeps.put _ packet (by rw [got])
    rw [keeps.finish, got] at held
    refine .inr ⟨{ s with encoder := encoder, file := s.file ++ [packet] },
      by simp only [finishBody, got], rfl, kept.written packetOf held, ?_⟩
    rw [held, Multiset.card_cons]
    exact Nat.lt_succ_self (holds encoder).card

/-- `FinishWrite` comes to an end with a complete file of frames of the calls. -/
theorem exists_complete (keeps : enc.Keeps holds isOf) (timeBase : TimeBase) (encoder : E)
    (fresh : holds encoder = 0) (calls : List (WriteCall Picture)) :
    ∃ s', Finishes (finishBody enc)
        (calls.foldl (writeFrameYUV420 enc timeBase) { encoder := encoder }) s' ∧
      Complete isOf s' ∧ s'.taken.Sublist (stampedFrames timeBase {} calls) := by
  have start : Kept holds isOf ({ encoder := encoder } : EncodingStreamer E Picture Packet) :=
    ⟨[], .nil, by rw [fresh]; rfl⟩
  obtain ⟨frames, taken, sent⟩ := writes_taken enc timeBase { encoder := encoder } calls
  obtain ⟨s', finishes, same, complete⟩ := exists_finishes_post
    (fun t => Kept holds isOf t ∧ t.taken = frames)
    (fun t => t.taken = frames ∧ Complete isOf t) (fun t => (holds t.encoder).card)
    (fun t ⟨kept, same⟩ => by
      rcases kept.pass keeps with ⟨t', ends, same', complete⟩ | ⟨t', goesOn, same', kept', less⟩
      · exact .inl ⟨t', ends, same'.trans same, complete⟩
      · exact .inr ⟨t', goesOn, ⟨kept', same'.trans same⟩, less⟩)
    ⟨start.writes keeps calls, taken⟩
  exact ⟨s', finishes, complete, same ▸ sent⟩

/-- **Nothing that was taken is lost.** Whatever calls are made and whatever an encoder refuses or
holds back, `FinishWrite` comes to an end, and then the packets in the file are those of the frames
that the encoder has taken, each once. These are frames of the calls, in their order and with the
timestamps of their numbers. -/
theorem finishWrite_complete (keeps : enc.Keeps holds isOf) (timeBase : TimeBase) (encoder : E)
    (fresh : holds encoder = 0) (calls : List (WriteCall Picture)) :
    ∃ s', Finishes (finishBody enc)
        (calls.foldl (writeFrameYUV420 enc timeBase) { encoder := encoder }) s' ∧
      Complete isOf s' ∧ s'.taken.Sublist (stampedFrames timeBase {} calls) ∧
      (stampedFrames timeBase {} calls).map Prod.snd =
        (List.range (stamped (calls.map WriteCall.returned))).map timeBase.stamp := by
  obtain ⟨s', finishes, complete, sent⟩ := exists_complete keeps timeBase encoder fresh calls
  exact ⟨s', finishes, complete, sent, (stampedFrames_snd timeBase calls {}).trans timestamps_eq⟩

/-! ### An encoder that is one frame behind -/

/-- It holds the last frame back until it is told that no frame follows. Its packets are the
timestamps. -/
def oneBehind : Encoder (List (ℕ × ℤ) × Bool) ℕ ℤ where
  sendFrame s
    | some frame => if s.2 then (-1, s) else (0, (s.1 ++ [frame], false))
    | none => (0, (s.1, true))
  receivePacket s :=
    match s.1 with
    | [] => (none, s)
    | [frame] => if s.2 then (some frame.2, ([], true)) else (none, s)
    | frame :: next :: later => (some frame.2, (next :: later, s.2))

theorem oneBehind_keeps :
    oneBehind.Keeps (fun s => (s.1 : Multiset (ℕ × ℤ))) fun packet frame => packet = frame.2 where
  refuse := by
    rintro ⟨held, finished⟩ frame refused
    cases finished with
    | false => exact absurd refused (lt_irrefl (0 : ℤ))
    | true => rfl
  take := by
    rintro ⟨held, finished⟩ frame accepted
    cases finished with
    | false => exact Multiset.coe_eq_coe.mpr List.perm_append_comm
    | true => exact absurd accepted (by decide : ¬ (0 : ℤ) ≤ -1)
  finish _ := rfl
  put := by
    rintro ⟨held, finished⟩ packet got
    match held, finished, got with
    | [frame], true, got => exact ⟨frame, (Option.some.inj got).symm, rfl⟩
    | frame :: next :: later, _, got => exact ⟨frame, (Option.some.inj got).symm, rfl⟩
  wait := by
    rintro ⟨held, finished⟩ none
    match held, finished, none with
    | [], _, _ => rfl
    | [frame], false, _ => rfl
  drain := by
    rintro ⟨held, finished⟩ none
    rcases held with - | ⟨frame, - | ⟨next, later⟩⟩
    · rfl
    · cases none
    · cases none

/-- The packet of the second frame comes out at the end. -/
theorem finishWrite_complete_twoFrames : ∃ s',
    Finishes (finishBody oneBehind) ([⟨7, 0⟩, ⟨8, 0⟩].foldl
        (writeFrameYUV420 oneBehind .ninetyThousandths) { encoder := ([], false) }) s' ∧
      s'.file = [0, 3000] ∧ Complete (fun packet frame => packet = frame.2) s' := by
  obtain ⟨s', finishes, complete, -⟩ := finishWrite_complete oneBehind_keeps .ninetyThousandths
    ([], false) rfl [⟨7, 0⟩, ⟨8, 0⟩]
  have runs : ∃ t, runLoop (finishBody oneBehind) 2 ([⟨7, 0⟩, ⟨8, 0⟩].foldl
      (writeFrameYUV420 oneBehind .ninetyThousandths) { encoder := ([], false) }) =
        some (.ok t) ∧ t.file = [0, 3000] := ⟨_, rfl, rfl⟩
  obtain ⟨t, runs, file⟩ := runs
  obtain rfl := finishes.unique (finishes_of_runLoop runs)
  exact ⟨s', finishes, file, complete⟩

end EncodingStreamer

end Sqwar.Stream
