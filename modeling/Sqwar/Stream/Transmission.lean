import Sqwar.Data.Related
import Sqwar.Stream.Decoding
import Sqwar.Stream.Draining

/-!
# From the recorder to the screen

What `FFmpegOutputStreamer` has written is read by `FFmpegInputStreamer` and shown by the player.
Whatever encoder, network and decoder refuse, reorder, hold back or drop, the pictures that the
world is shown are those of frames that were sent, none more often than it was sent.
-/

set_option autoImplicit false

namespace Sqwar.Stream

open Data Semantics

/-! ### The decoder -/

variable {S Packet : Type}

/-- What libav promises of a file and of a decoder for video. Packets are read in their order in the
file. The decoder holds no packet that it has not been sent, and each picture that it puts out is of
one that it held, which it then holds no more. -/
structure Libav.Keeps (lib : Libav S Packet) (file : S → List Packet) (holds : S → Multiset Packet)
    (shows : AVFrame → Packet → Prop) : Prop where
  read (s : S) (packet : Packet) : (lib.readFrame s).1 = some packet →
    file s = packet :: file (lib.readFrame s).2
  ended (s : S) : (lib.readFrame s).1 = none → file (lib.readFrame s).2 = file s
  readHolds (s : S) : holds (lib.readFrame s).2 ≤ holds s
  send (s : S) (packet : Packet) : file (lib.sendPacket s packet).2 = file s ∧
    holds (lib.sendPacket s packet).2 ≤ packet ::ₘ holds s
  receive (s : S) (frame : AVFrame) : (lib.receiveFrame s).1 = .frame frame →
    ∃ packet, shows frame packet ∧ packet ::ₘ holds (lib.receiveFrame s).2 ≤ holds s
  wait (s : S) : (∀ frame, (lib.receiveFrame s).1 ≠ .frame frame) →
    holds (lib.receiveFrame s).2 ≤ holds s
  receiveFile (s : S) : file (lib.receiveFrame s).2 = file s

namespace FFmpegInputStreamer

variable {lib : Libav S Packet} {file : S → List Packet} {holds : S → Multiset Packet}
  {shows : AVFrame → Packet → Prop} {content : List Packet} {videoStreamIndex : ℤ}
  {fuel n : ℕ}
  {s s' : FFmpegInputStreamer S Packet} {outcomes : List (Option AVFrame)}

/-- The packets that were read are the first ones of the file, and the pictures that came out are
each of a packet that was sent, which the decoder does not hold any more. -/
structure Sourced (file : S → List Packet) (holds : S → Multiset Packet)
    (shows : AVFrame → Packet → Prop) (content : List Packet) (videoStreamIndex : ℤ)
    (s : FFmpegInputStreamer S Packet) : Prop where
  index : s.videoStreamIndex = videoStreamIndex
  reading : s.journal.read ++ file s.context = content
  sources : ∃ packets : List Packet, List.Forall₂ shows s.journal.received packets ∧
    (packets : Multiset Packet) + holds s.context ≤ s.journal.sent

/-- A step after which the decoder holds no more and nothing has come out. -/
theorem Sourced.of_le (sourced : Sourced file holds shows content videoStreamIndex s)
    (index : s'.videoStreamIndex = s.videoStreamIndex)
    (reading : s'.journal.read ++ file s'.context = content)
    (received : s'.journal.received = s.journal.received)
    (sent : s'.journal.sent = s.journal.sent) (le : holds s'.context ≤ holds s.context) :
    Sourced file holds shows content videoStreamIndex s' := by
  obtain ⟨packets, shown, bounded⟩ := sourced.sources
  refine ⟨index.trans sourced.index, reading, packets, received ▸ shown, ?_⟩
  rw [sent]
  exact (add_le_add_right le _).trans bounded

/-- Filling the queue keeps the sources. -/
theorem Sourced.invariant (keeps : lib.Keeps file holds shows) (content : List Packet)
    (videoStreamIndex : ℤ) :
    Invariant lib (Sourced file holds shows content videoStreamIndex) where
  stop := by
    intro s sourced ends
    refine sourced.of_le rfl ?_ rfl rfl (keeps.readHolds _)
    dsimp only
    rw [keeps.ended _ ends]
    exact sourced.reading
  skip := by
    intro s packet sourced reads other
    refine sourced.of_le rfl ?_ rfl rfl (keeps.readHolds _)
    have reading := sourced.reading
    rw [keeps.read _ _ reads] at reading
    rwa [noteRead, List.append_assoc]
  send := by
    intro s packet sourced reads video
    obtain ⟨packets, shown, bounded⟩ := sourced.sources
    obtain ⟨sameFile, taken⟩ := keeps.send (lib.readFrame s.context).2 packet
    refine ⟨sourced.index, ?_, packets, shown, ?_⟩
    · have reading := sourced.reading
      rw [keeps.read _ _ reads] at reading
      change s.journal.read ++ [packet] ++
        file (lib.sendPacket (lib.readFrame s.context).2 packet).2 = content
      rw [sameFile, List.append_assoc]
      exact reading
    · -- a packet that is refused has been sent all the same, so there is no equation
      calc (packets : Multiset Packet) + holds (lib.sendPacket (lib.readFrame s.context).2 packet).2
          ≤ packets + (packet ::ₘ holds s.context) :=
            add_le_add_right (taken.trans (Multiset.cons_le_cons _ (keeps.readHolds _))) _
        _ = (packets + holds s.context) + {packet} := by
            rw [Multiset.add_cons, ← Multiset.singleton_add, add_comm]
        _ ≤ (s.journal.sent : Multiset Packet) + {packet} := add_le_add_left bounded _
        _ = ((s.journal.sent ++ [packet] : List Packet) : Multiset Packet) := rfl
  push := by
    intro s frame sourced received
    obtain ⟨packets, shown, bounded⟩ := sourced.sources
    obtain ⟨packet, isOf, held⟩ := keeps.receive _ _ received
    -- the packet of the picture goes over to those whose pictures have come out
    refine ⟨sourced.index, ?_, packets ++ [packet], List.rel_append shown (.cons isOf .nil), ?_⟩
    · change s.journal.read ++ file (lib.receiveFrame s.context).2 = content
      rw [keeps.receiveFile]
      exact sourced.reading
    · change ((packets ++ [packet] : List Packet) : Multiset Packet) +
        holds (lib.receiveFrame s.context).2 ≤ s.journal.sent
      rw [← Multiset.coe_add, Multiset.coe_singleton, add_assoc, Multiset.singleton_add]
      exact (add_le_add_right held _).trans bounded
  settle := by
    intro s sourced none
    refine sourced.of_le rfl ?_ rfl rfl (keeps.wait _ none)
    dsimp only
    rw [keeps.receiveFile]
    exact sourced.reading

/-- A call fills the queue or not, and then takes a picture out of it or not. -/
theorem Sourced.read (keeps : lib.Keeps file holds shows) {outcome : Option AVFrame}
    (sourced : Sourced file holds shows content videoStreamIndex s)
    (reads : s.readFrameYUV420 lib fuel = some (outcome, s')) :
    Sourced file holds shows content videoStreamIndex s' := by
  have taken {t : FFmpegInputStreamer S Packet}
      (sourced : Sourced file holds shows content videoStreamIndex t) :
      Sourced file holds shows content videoStreamIndex t.takeFirst.2 := by
    unfold takeFirst
    split
    · exact sourced
    · exact sourced.of_le rfl sourced.reading rfl rfl le_rfl
  have allocated : Sourced file holds shows content videoStreamIndex s.allocate :=
    sourced.of_le rfl sourced.reading rfl rfl le_rfl
  unfold readFrameYUV420 at reads
  split at reads
  · split at reads
    · rename_i runs
      obtain ⟨rfl, rfl⟩ := Prod.mk.inj (Option.some.inj reads)
      exact taken ((Sourced.invariant keeps content videoStreamIndex).refill allocated runs)
    · rename_i runs
      obtain ⟨rfl, rfl⟩ := Prod.mk.inj (Option.some.inj reads)
      exact (Sourced.invariant keeps content videoStreamIndex).refill allocated runs
    · cases reads
  · obtain ⟨rfl, rfl⟩ := Prod.mk.inj (Option.some.inj reads)
    exact taken sourced

theorem Sourced.reads (keeps : lib.Keeps file holds shows)
    (sourced : Sourced file holds shows content videoStreamIndex s)
    (reads : s.readFrames lib fuel n = some (outcomes, s')) :
    Sourced file holds shows content videoStreamIndex s' := by
  induction n generalizing s outcomes with
  | zero =>
    obtain ⟨rfl, rfl⟩ := Prod.mk.inj (Option.some.inj reads)
    exact sourced
  | succ n ih =>
    obtain ⟨⟨outcome, t⟩, first, rest⟩ := Option.bind_eq_some_iff.mp reads
    obtain ⟨⟨later, t'⟩, others, ends⟩ := Option.bind_eq_some_iff.mp rest
    obtain ⟨rfl, rfl⟩ := Prod.mk.inj (Option.some.inj ends)
    exact ih (sourced.read keeps first) others

/-- The pictures that have come out are of packets of the video stream, none of which is the packet
of two. -/
theorem exists_packets (keeps : lib.Keeps file holds shows) {context : S}
    (empty : holds context = 0)
    (reads : readFrames lib fuel n ⟨context, videoStreamIndex, [], {}⟩ = some (outcomes, s')) :
    ∃ packets : List Packet, List.Forall₂ shows s'.journal.received packets ∧
      packets.Subperm ((file context).filter fun packet =>
        lib.streamIndex packet = videoStreamIndex) := by
  have opened : Sourced file holds shows (file context) videoStreamIndex
      ⟨context, videoStreamIndex, [], {}⟩ :=
    ⟨rfl, List.nil_append _, [], .nil, by rw [empty]; rfl⟩
  have sourced := opened.reads keeps reads
  obtain ⟨packets, shown, bounded⟩ := sourced.sources
  refine ⟨packets, shown, ?_⟩
  have sent : packets.Subperm s'.journal.sent :=
    Multiset.coe_le.mp ((Multiset.le_add_right _ _).trans bounded)
  rw [((balanced_opened context videoStreamIndex).reads reads).1.sent, sourced.index] at sent
  refine sent.trans (List.Sublist.subperm (List.Sublist.filter _ ?_))
  rw [← sourced.reading]
  exact List.sublist_append_left _ _

/-! ### What is shown of what was recorded -/

/-- **Nothing is shown but what was sent.** A recording is finished, and a player opens a stream
whose video packets are among those that were written, and runs and ticks in any way, reading from
one streamer. Each frame that the world is shown is made of what one read returned, and the pictures
among these are those of frames that were sent to the encoder, none of them more often than it was
sent. -/
theorem shows_recorded {E Picture : Type} {enc : Encoder E Picture Packet}
    {holding : E → Multiset (Picture × ℤ)} {isOf : Packet → Picture × ℤ → Prop}
    (encoding : enc.Keeps holding isOf) (timeBase : TimeBase) (encoder : E)
    (fresh : holding encoder = 0) (calls : List (WriteCall Picture))
    {recorded : EncodingStreamer E Picture Packet}
    (finishes : Finishes (EncodingStreamer.finishBody enc)
      (calls.foldl (EncodingStreamer.writeFrameYUV420 enc timeBase) { encoder := encoder })
      recorded)
    (decoding : lib.Keeps file holds shows) (context : S) (videoStreamIndex : ℤ)
    (empty : holds context = 0)
    (arrives : List.Subperm ((file context).filter fun packet =>
      lib.streamIndex packet = videoStreamIndex) recorded.file)
    (streaming : Bool) {actions : List PlayerAction} {p : Player}
    (runs : run Player.step (.start streaming) actions = some p)
    (reads : readFrames lib fuel n ⟨context, videoStreamIndex, [], {}⟩ =
      some (Stream.outcomes actions, s')) :
    ∃ (sources : List (Option AVFrame)) (frames : List (Picture × ℤ)),
      p.shown.map some = sources.map (fun outcome => p.stream.bind (·.frame outcome)) ∧
      List.Forall₂ (Relation.Comp shows isOf) sources.reduceOption frames ∧
      frames.Subperm (stampedFrames timeBase {} calls) := by
  obtain ⟨recorded', finishes', ⟨frames, perm, packets⟩, sent⟩ :=
    EncodingStreamer.exists_complete encoding timeBase encoder fresh calls
  obtain rfl := finishes.unique finishes'
  -- from the pictures to packets that were written, and from these to frames
  obtain ⟨read, shown, ofFile⟩ := exists_packets decoding empty reads
  obtain ⟨written, ofFrames, few⟩ := exists_forall₂_of_subperm (ofFile.trans arrives) packets
  have carried := forall₂_comp shown ofFrames
  have kept := ((balanced_opened context videoStreamIndex).reads reads).1
  rw [List.nil_append] at kept
  obtain ⟨frames', related, fewer⟩ :=
    exists_forall₂_of_sublist (kept.prefix_received p.shown.length).sublist carried
  refine ⟨(Stream.outcomes actions).take p.shown.length, frames', (conserved_run runs).shown_eq,
    related, ?_⟩
  exact fewer.subperm.trans (few.trans (perm.subperm.trans sent.subperm))

theorem repeating_keeps (streamIndex : ℤ → ℤ) : (repeating streamIndex).Keeps Prod.fst
    (fun s => (s.2.toList : Multiset ℤ)) fun picture _ => picture = smallPicture where
  read := by
    rintro ⟨file, waiting⟩ packet reads
    cases file with
    | nil => cases reads
    | cons first file => exact congrArg (· :: file) (Option.some.inj reads)
  ended := by
    rintro ⟨file, waiting⟩ ends
    cases file with
    | nil => rfl
    | cons first file => cases ends
  readHolds _ := le_rfl
  send s packet := ⟨rfl, Multiset.cons_le_cons packet (Multiset.zero_le _)⟩
  receive := by
    rintro ⟨file, waiting⟩ frame received
    cases waiting with
    | none => cases received
    | some packet => exact ⟨packet, (Received.frame.inj received).symm, le_rfl⟩
  wait s _ := Multiset.zero_le _
  receiveFile _ := rfl

/-- Of two recorded frames, the player shows the first one. -/
theorem shows_recorded_twoFrames : ∃ p : Player,
    run Player.step (.start true) (oneRead (some smallPicture)) = some p ∧ p.shown.length = 1 ∧
      ∃ (sources : List (Option AVFrame)) (frames : List (ℕ × ℤ)),
        p.shown.map some = sources.map (fun outcome => p.stream.bind (·.frame outcome)) ∧
        List.Forall₂ (Relation.Comp (fun picture _ => picture = smallPicture)
          fun packet frame => packet = frame.2) sources.reduceOption frames ∧
        frames.Subperm [(7, 0), (8, 3000)] := by
  obtain ⟨p, runs, shown⟩ : ∃ p : Player,
      run Player.step (.start true) (oneRead (some smallPicture)) = some p ∧
        p.shown.length = 1 := ⟨_, rfl, rfl⟩
  obtain ⟨s', reads⟩ : ∃ s', readFrames (repeating fun _ => 0) 3 1 ⟨([0, 3000], none), 0, [], {}⟩ =
      some ([some smallPicture], s') := ⟨_, rfl⟩
  obtain ⟨recorded, finishes, file⟩ : ∃ recorded, runLoop
      (EncodingStreamer.finishBody EncodingStreamer.oneBehind) 2 ([⟨7, 0⟩, ⟨8, 0⟩].foldl
        (EncodingStreamer.writeFrameYUV420 EncodingStreamer.oneBehind .ninetyThousandths)
          { encoder := ([], false) }) = some (.ok recorded) ∧ [0, 3000] = recorded.file :=
    ⟨_, rfl, rfl⟩
  exact ⟨p, runs, shown, shows_recorded EncodingStreamer.oneBehind_keeps .ninetyThousandths
    ([], false) rfl [⟨7, 0⟩, ⟨8, 0⟩] (finishes_of_runLoop finishes)
    (repeating_keeps fun _ => 0) ([0, 3000], none) 0 rfl (file ▸ List.Subperm.refl _) true runs
    reads⟩

end FFmpegInputStreamer

end Sqwar.Stream
