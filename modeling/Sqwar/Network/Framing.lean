import Sqwar.Network.Client

/-!
# When the session receives what the client sent

The handler reads every header and payload run from the front of its buffer. It therefore
delivers the messages that were sent exactly when no completion shows the difference: each piece
of a field in a completion must equal the completion's own first bytes, a header must arrive
whole, and no empty payload may be left at the end, since a packet is only handed over while
bytes remain.

Sufficiency simulates the handler along the fields of the stream. Necessity runs backwards: what
the session has delivered and collected must agree with the messages (`Agrees`), and a header
read from fewer than eight bytes overdraws the byte count by `2 ^ 64`, which no later step can
make up (`weight`).
-/

set_option autoImplicit false

namespace Sqwar.Network

open Data Semantics

/-- The session received the completions and called `m_onData` with exactly these messages. -/
def Receives (cut messages : List (List UInt8)) : Prop :=
  ∃ session, HandlesAll TcpSession.start cut session ∧ session.onData = messages

/-- The completions are the stream, cut into runs of 1 to `max_length` bytes. -/
structure IsCut (cut : List (List UInt8)) (stream : List UInt8) : Prop where
  joins : cut.flatten = stream
  nonempty : ∀ bytes ∈ cut, 0 < bytes.length
  bounded : ∀ bytes ∈ cut, bytes.length ≤ maxLength

/-- A piece the handler reads correctly: it equals the front of the buffer, and a header is
whole. -/
structure Field.Fronts (piece : Field) (buffer : List UInt8) : Prop where
  front : piece.bytes <+: buffer
  whole : piece.kind = .header → piece.bytes.length = sizeofSizeT

/-- Every completion shows the handler only pieces it reads correctly, and nothing, not even an
empty payload, is left behind the last one. -/
def Aligned : List Field → List (List UInt8) → Prop
  | todo, [] => todo = []
  | todo, bytes :: cut =>
    (∀ piece ∈ (splitFields todo bytes.length).1, piece.Fronts bytes) ∧
      Aligned (splitFields todo bytes.length).2 cut

/-! ### What every pass preserves -/

/-- The bytes a session has accounted for: a header and the content of each delivered message,
and of the packet so far. -/
def TcpSession.weight (session : TcpSession) : ℕ :=
  (session.onData.map fun message => sizeofSizeT + message.length).sum +
    match session.curPacket with
    | none => 0
    | some packet => sizeofSizeT + packet.bytesRead

/-- The session can still deliver exactly these messages: so far it delivered a prefix of them,
and its packet has the size and the first bytes of the next one. -/
def TcpSession.Agrees (session : TcpSession) (messages : List (List UInt8)) : Prop :=
  ∃ rest, messages = session.onData ++ rest ∧
    ∀ packet message, session.curPacket = some packet → rest.head? = some message →
      message.length = packet.data.length ∧
        message.take packet.bytesRead = packet.data.take packet.bytesRead

theorem TcpSession.agrees_of_onData_eq {session : TcpSession} {messages : List (List UInt8)}
    (delivered : session.onData = messages) : session.Agrees messages :=
  ⟨[], by simp [delivered], by simp⟩

variable {session session' : TcpSession} {packet : DataPacket} {messages : List (List UInt8)}
  {todo : List Field} {n copyBytes : ℕ}

/-- The session after a copy is well formed, and the copy accounts for its bytes. -/
theorem settle_spec (wf : session.WellFormed) (opened : session.curPacket = some packet)
    (source : copyBytes ≤ session.data.length)
    (target : packet.bytesRead + copyBytes ≤ packet.data.length) :
    (session.settle (packet.append session.data copyBytes)).WellFormed ∧
      (session.settle (packet.append session.data copyBytes)).data = session.data ∧
      (session.settle (packet.append session.data copyBytes)).weight =
        session.weight + copyBytes := by
  have length := DataPacket.append_length source target
  have read : (packet.append session.data copyBytes).bytesRead = packet.bytesRead + copyBytes := rfl
  unfold TcpSession.settle
  split_ifs with complete
  · refine ⟨⟨wf.buffer, by simp⟩, rfl, ?_⟩
    simp only [TcpSession.weight, opened, List.map_append, List.sum_append, List.map_cons,
      List.map_nil, List.sum_cons, List.sum_nil]
    omega
  · refine ⟨⟨wf.buffer, ?_⟩, rfl, ?_⟩
    · rintro current h
      obtain rfl : packet.append session.data copyBytes = current := by simpa using h
      exact ⟨by rw [length]; exact target, by rw [length]; exact (wf.packet _ opened).size_le⟩
    · simp only [TcpSession.weight, opened]
      omega

/-- After a copy the next message is known up to the packet's count. -/
theorem next_of_settle_agrees (source : copyBytes ≤ session.data.length)
    (target : packet.bytesRead + copyBytes ≤ packet.data.length)
    (agrees : (session.settle (packet.append session.data copyBytes)).Agrees messages) :
    ∃ rest, messages = session.onData ++ rest ∧ ∀ message, rest.head? = some message →
      message.length = packet.data.length ∧
        message.take (packet.bytesRead + copyBytes) =
          packet.data.take packet.bytesRead ++ session.data.take copyBytes := by
  have length := DataPacket.append_length source target
  have copied := DataPacket.append_take source target
  obtain ⟨rest, messages_eq, next⟩ := agrees
  unfold TcpSession.settle at messages_eq next
  split_ifs at messages_eq next with complete
  · refine ⟨(packet.append session.data copyBytes).data :: rest, by simpa using messages_eq, ?_⟩
    intro message h
    obtain rfl : _ = message := by simpa using h
    exact ⟨length, copied⟩
  · refine ⟨rest, messages_eq, fun message h => ?_⟩
    obtain ⟨size, taken⟩ := next _ message rfl h
    exact ⟨size.trans length, taken.trans copied⟩

theorem agrees_of_settle_agrees (opened : session.curPacket = some packet)
    (source : copyBytes ≤ session.data.length)
    (target : packet.bytesRead + copyBytes ≤ packet.data.length)
    (agrees : (session.settle (packet.append session.data copyBytes)).Agrees messages) :
    session.Agrees messages := by
  obtain ⟨rest, messages_eq, next⟩ := next_of_settle_agrees source target agrees
  refine ⟨rest, messages_eq, fun current message h head => ?_⟩
  obtain rfl : packet = current := by simpa [opened] using h
  obtain ⟨size, taken⟩ := next message head
  refine ⟨size, ?_⟩
  -- What is known up to the new count is known up to the old one.
  have shorter := congrArg (List.take packet.bytesRead) taken
  have held : (packet.data.take packet.bytesRead).length = packet.bytesRead := by
    rw [List.length_take]
    omega
  rwa [List.take_take, min_eq_left (Nat.le_add_right _ _), List.take_append_of_le_length held.ge,
    List.take_take, min_self] at shorter

/-- A pass over an open packet that does not fail. -/
theorem handlerBody_packet_cases {loop : ReadLoop} (wf : session.WellFormed)
    (opened : session.curPacket = some packet) (fits : n < 2 ^ 64)
    (steps : handlerBody ⟨session, n⟩ = .ok (.inl loop)) :
    ∃ copyBytes, copyBytes = min n (packet.data.length - packet.bytesRead) ∧
      copyBytes ≤ session.data.length ∧
      loop = ⟨session.settle (packet.append session.data copyBytes), n - copyBytes⟩ := by
  rcases Nat.eq_zero_or_pos n with rfl | pos
  · simp [handlerBody] at steps
  rw [handlerBody_of_packet wf opened pos fits] at steps
  refine ⟨_, rfl, ?_⟩
  rw [wf.buffer]
  dsimp only at steps
  split_ifs at steps with overrun
  exact ⟨not_lt.mp overrun, by simpa using steps.symm⟩

theorem weight_opened (closed : session.curPacket = none) :
    session.opened.weight = session.weight + sizeofSizeT := by
  simp [TcpSession.weight, TcpSession.opened, closed, TcpSession.freshPacket]

theorem agrees_of_opened_agrees (closed : session.curPacket = none)
    (agrees : session.opened.Agrees messages) : session.Agrees messages := by
  obtain ⟨rest, messages_eq, -⟩ := agrees
  exact ⟨rest, messages_eq, by simp [closed]⟩

/-- What a pass leaves intact: the buffer, and every byte it was given; and what the session
agrees with afterwards, it agreed with before. -/
structure Progress (messages : List (List UInt8)) (loop next : ReadLoop) : Prop where
  wellFormed : next.session.WellFormed
  fits : next.bytesRemaining < 2 ^ 64
  data : next.session.data = loop.session.data
  weight : loop.session.weight + loop.bytesRemaining ≤ next.session.weight + next.bytesRemaining
  agrees : next.session.Agrees messages → loop.session.Agrees messages

theorem Progress.refl {loop : ReadLoop} (wf : loop.session.WellFormed)
    (fits : loop.bytesRemaining < 2 ^ 64) : Progress messages loop loop :=
  ⟨wf, fits, rfl, le_rfl, id⟩

theorem Progress.trans {loop next last : ReadLoop} (first : Progress messages loop next)
    (second : Progress messages next last) : Progress messages loop last :=
  ⟨second.wellFormed, second.fits, second.data.trans first.data,
    first.weight.trans second.weight, first.agrees ∘ second.agrees⟩

private theorem progress_of_packet {next : ReadLoop} (wf : session.WellFormed)
    (opened : session.curPacket = some packet) (fits : n < 2 ^ 64)
    (steps : handlerBody ⟨session, n⟩ = .ok (.inl next)) :
    Progress messages ⟨session, n⟩ next := by
  obtain ⟨copyBytes, copies, source, rfl⟩ := handlerBody_packet_cases wf opened fits steps
  have read_le := (wf.packet _ opened).read_le
  have target : packet.bytesRead + copyBytes ≤ packet.data.length := by omega
  obtain ⟨wf', data, weight⟩ := settle_spec wf opened source target
  exact ⟨wf', by dsimp only; omega, data, by dsimp only; omega,
    agrees_of_settle_agrees opened source target⟩

private theorem progress_opened (wf : session.WellFormed) (closed : session.curPacket = none)
    (size : decodeLE (session.data.take sizeofSizeT) ≤ vectorMaxSize) (fits : n < 2 ^ 64) :
    Progress messages ⟨session, n⟩ ⟨session.opened, sizeSub n sizeofSizeT⟩ where
  wellFormed := wf.opened size
  fits := sizeSub_lt _ _
  data := rfl
  weight := by
    have subtracted : n ≤ sizeSub n sizeofSizeT + sizeofSizeT := by
      unfold sizeSub sizeofSizeT
      omega
    rw [weight_opened closed]
    dsimp only
    omega
  agrees := agrees_of_opened_agrees closed

/-- **Step lemma.** Every pass that goes on makes progress in this sense. -/
theorem progress_of_step (messages : List (List UInt8)) {next : ReadLoop}
    (wf : session.WellFormed) (fits : n < 2 ^ 64)
    (steps : handlerBody ⟨session, n⟩ = .ok (.inl next)) :
    Progress messages ⟨session, n⟩ next := by
  cases opened : session.curPacket with
  | some packet => exact progress_of_packet wf opened fits steps
  | none =>
    have pos : 0 < n := Nat.pos_of_ne_zero (by rintro rfl; simp [handlerBody] at steps)
    rcases lt_or_ge vectorMaxSize (decodeLE (session.data.take sizeofSizeT)) with long | size
    · simp [handlerBody_of_length_error opened pos long] at steps
    have opening : Progress messages _ _ := progress_opened wf opened size fits
    rw [handlerBody_of_header opened pos size] at steps
    split_ifs at steps with done
    · obtain rfl : _ = next := by simpa using steps
      rwa [done] at opening
    · exact opening.trans (progress_of_packet (wf.opened size) rfl (sizeSub_lt _ _) steps)

theorem handlerBody_exit {loop : ReadLoop} (exits : handlerBody loop = .ok (.inr session')) :
    loop = ⟨session', 0⟩ := by
  obtain ⟨session, n⟩ := loop
  by_cases done : n = 0
  · obtain rfl : session = session' := by simpa [handlerBody, done] using exits
    rw [done]
  · simp only [handlerBody, done, if_false, bind, Except.bind] at exits
    split at exits
    · simp at exits
    · split_ifs at exits
      · simp at exits
      · split at exits <;> simp at exits

/-- **Run lemma.** A handler run that returns made progress from its start to its end. -/
theorem progress_of_finishes (messages : List (List UInt8)) {loop : ReadLoop}
    (finishes : Finishes handlerBody loop session') (wf : loop.session.WellFormed)
    (fits : loop.bytesRemaining < 2 ^ 64) : Progress messages loop ⟨session', 0⟩ := by
  refine finishes.invariant (Progress messages loop) (fun last => Progress messages loop ⟨last, 0⟩)
    (.refl wf fits) ?_ ?_
  · intro middle next sofar steps
    exact sofar.trans (progress_of_step messages sofar.wellFormed sofar.fits steps)
  · intro last session' sofar exits
    rwa [handlerBody_exit exits] at sofar

/-- A header read from fewer than eight bytes overdraws the byte count for good. -/
theorem weight_of_overdraw (wf : session.WellFormed) (closed : session.curPacket = none)
    (pos : 0 < n) (short : n < sizeofSizeT)
    (finishes : Finishes handlerBody ⟨session, n⟩ session') :
    session.weight + n + 2 ^ 64 ≤ session'.weight := by
  rcases lt_or_ge vectorMaxSize (decodeLE (session.data.take sizeofSizeT)) with long | size
  · cases finishes with
    | exit exits => simp [handlerBody_of_length_error closed pos long] at exits
    | step steps _ => simp [handlerBody_of_length_error closed pos long] at steps
  have overdrawn : sizeSub n sizeofSizeT = n + 2 ^ 64 - sizeofSizeT :=
    sizeSub_of_lt short (by decide)
  rw [finishes_header_iff closed pos size] at finishes
  have kept := (progress_of_finishes [] finishes (wf.opened size)
    (sizeSub_lt _ _)).weight
  rw [overdrawn, weight_opened closed] at kept
  dsimp only at kept
  omega

/-! ### Following the stream -/

/-- The session stands in the stream of the messages where `todo` is still to come: between two
messages, or inside one whose packet holds the bytes received so far. -/
inductive TcpSession.Expects (session : TcpSession) (messages : List (List UInt8))
    (todo : List Field) : Prop
  | between (rest : List (List UInt8)) (closed : session.curPacket = none)
      (messages_eq : messages = session.onData ++ rest) (todo_eq : todo = fields rest)
  | inside (packet : DataPacket) (message : List UInt8) (rest : List (List UInt8))
      (opened : session.curPacket = some packet)
      (messages_eq : messages = session.onData ++ message :: rest)
      (todo_eq : todo = ⟨.payload, message.drop packet.bytesRead⟩ :: fields rest)
      (size : packet.data.length = message.length)
      (filled : packet.data.take packet.bytesRead = message.take packet.bytesRead)

theorem TcpSession.expects_start (messages : List (List UInt8)) :
    TcpSession.start.Expects messages (fields messages) :=
  .between messages rfl rfl rfl

theorem TcpSession.Expects.fill (expects : session.Expects messages todo) (bytes : List UInt8) :
    (session.fill bytes).Expects messages todo := by
  cases expects with
  | between rest closed messages_eq todo_eq => exact .between rest closed messages_eq todo_eq
  | inside packet message rest opened messages_eq todo_eq size filled =>
    exact .inside packet message rest opened messages_eq todo_eq size filled

/-- A header at the front of the buffer opens the packet of its message. -/
theorem expects_opened {message : List UInt8} {rest : List (List UInt8)}
    (messages_eq : messages = session.onData ++ message :: rest)
    (size : decodeLE (session.data.take sizeofSizeT) = message.length) :
    session.opened.Expects messages (⟨.payload, message⟩ :: fields rest) := by
  refine .inside session.freshPacket message rest rfl messages_eq ?_ ?_ ?_
  · simp [TcpSession.freshPacket]
  · simp [TcpSession.freshPacket, size]
  · simp [TcpSession.freshPacket]

/-- A copy of the next bytes of the message fills its packet further. -/
theorem filled_append {message : List UInt8} (source : copyBytes ≤ session.data.length)
    (target : packet.bytesRead + copyBytes ≤ packet.data.length)
    (filled : packet.data.take packet.bytesRead = message.take packet.bytesRead)
    (front : session.data.take copyBytes = (message.drop packet.bytesRead).take copyBytes) :
    (packet.append session.data copyBytes).data.take (packet.bytesRead + copyBytes) =
      message.take (packet.bytesRead + copyBytes) := by
  rw [DataPacket.append_take source target, filled, front, ← List.take_add]

theorem expects_settle {message : List UInt8} {rest : List (List UInt8)}
    (source : copyBytes ≤ session.data.length)
    (target : packet.bytesRead + copyBytes ≤ packet.data.length)
    (messages_eq : messages = session.onData ++ message :: rest)
    (size : packet.data.length = message.length)
    (filled : packet.data.take packet.bytesRead = message.take packet.bytesRead)
    (front : session.data.take copyBytes = (message.drop packet.bytesRead).take copyBytes) :
    (session.settle (packet.append session.data copyBytes)).Expects messages
      (if packet.bytesRead + copyBytes = message.length then fields rest
        else ⟨.payload, message.drop (packet.bytesRead + copyBytes)⟩ :: fields rest) := by
  have length := DataPacket.append_length source target
  have holds := filled_append source target filled front
  have read : (packet.append session.data copyBytes).bytesRead =
    packet.bytesRead + copyBytes := rfl
  unfold TcpSession.settle
  rw [read, length, size]
  split_ifs with complete
  · have whole : (packet.append session.data copyBytes).data = message := by
      rwa [complete, List.take_of_length_le (by omega), List.take_of_length_le (by omega)] at holds
    exact .between rest rfl (by simp [whole, messages_eq]) rfl
  · exact .inside _ message rest rfl messages_eq rfl (length.trans size) holds

/-- Inside a message whose next bytes front the buffer, a pass copies them. -/
theorem handlerBody_copies {message : List UInt8} {rest : List (List UInt8)}
    (wf : session.WellFormed) (opened : session.curPacket = some packet)
    (messages_eq : messages = session.onData ++ message :: rest)
    (size : packet.data.length = message.length)
    (filled : packet.data.take packet.bytesRead = message.take packet.bytesRead)
    (pos : 0 < n) (bounded : n ≤ maxLength)
    (front : (message.drop packet.bytesRead).take n <+: session.data) :
    ∃ next : TcpSession,
      handlerBody ⟨session, n⟩ = .ok (.inl ⟨next, n - (message.length - packet.bytesRead)⟩) ∧
      next.WellFormed ∧ next.data = session.data ∧
      next.Expects messages (if message.length - packet.bytesRead ≤ n then fields rest
        else ⟨.payload, (message.drop packet.bytesRead).drop n⟩ :: fields rest) := by
  have read_le := (wf.packet _ opened).read_le
  have source : n ≤ session.data.length := bounded.trans wf.buffer.ge
  have pass := handlerBody_of_packet wf opened pos (lt_of_le_of_lt bounded (by decide))
  generalize copies : min n (packet.data.length - packet.bytesRead) = copyBytes at pass
  have target : packet.bytesRead + copyBytes ≤ packet.data.length := by omega
  have taken : session.data.take copyBytes = (message.drop packet.bytesRead).take copyBytes := by
    have length : ((message.drop packet.bytesRead).take n).length = copyBytes := by
      rw [List.length_take, List.length_drop]
      omega
    have fronted := List.prefix_iff_eq_take.mp front
    rw [length] at fronted
    rw [← fronted, List.take_eq_take_iff, List.length_drop]
    omega
  have settled := expects_settle (by omega) target messages_eq size filled taken
  obtain ⟨wf', data, -⟩ := settle_spec wf opened (by omega) target
  refine ⟨_, ?_, wf', data, ?_⟩
  · rw [pass]
    dsimp only
    rw [if_neg (by omega), show n - copyBytes = n - (message.length - packet.bytesRead) by omega]
  · by_cases whole : message.length - packet.bytesRead ≤ n
    · rw [if_pos whole]
      rwa [if_pos (by omega)] at settled
    · obtain rfl : n = copyBytes := by omega
      rw [if_neg whole, List.drop_drop]
      rwa [if_neg (by omega)] at settled

/-- A whole header at the front of the buffer spells the length of its message. -/
theorem decodeLE_of_header {message buffer : List UInt8} (fits : message.length ≤ vectorMaxSize)
    (front : encodeLE sizeofSizeT message.length <+: buffer) :
    decodeLE (buffer.take sizeofSizeT) = message.length := by
  have taken := List.prefix_iff_eq_take.mp front
  rw [encodeLE_length] at taken
  rw [← taken, decodeLE_encodeLE]
  exact lt_of_le_of_lt fits (by decide)

/-- **Sufficiency, one completion.** From a state the stream expects, a completion whose pieces
all front the buffer is handled to the end and leaves what the stream expects next. -/
theorem TcpSession.Expects.handle (fits : ∀ message ∈ messages, message.length ≤ vectorMaxSize)
    (wf : session.WellFormed) (expects : session.Expects messages todo)
    (within : n ≤ (streamOf todo).length) (bounded : n ≤ maxLength)
    (fronts : ∀ piece ∈ (splitFields todo n).1, piece.Fronts session.data) :
    ∃ session', Finishes handlerBody ⟨session, n⟩ session' ∧
      session'.Expects messages (splitFields todo n).2 := by
  -- each field of the stream accounts for one opening or one copy of the handler
  induction todo generalizing session n with
  | nil =>
    obtain rfl : n = 0 := by simpa using within
    exact ⟨session, finishes_zero_iff.mpr rfl, by simpa using expects⟩
  | cons field todo ih =>
    rcases Nat.eq_zero_or_pos n with rfl | pos
    · exact ⟨session, finishes_zero_iff.mpr rfl, by simpa using expects⟩
    rw [streamOf_cons, List.length_append] at within
    rw [splitFields_cons pos] at fronts ⊢
    have first := fronts _ List.mem_cons_self
    cases expects with
    | between rest closed messages_eq todo_eq =>
      obtain _ | ⟨message, rest⟩ := rest
      · simp at todo_eq
      obtain ⟨rfl, rfl⟩ := List.cons.inj todo_eq
      have messageFits := fits message (by simp [messages_eq])
      -- A header is read correctly only as a whole.
      have enough : sizeofSizeT ≤ n := by
        simpa using first.whole rfl
      rw [encodeLE_length] at within
      simp only [encodeLE_length, enough, if_true] at fronts ⊢
      have spelled : decodeLE (session.data.take sizeofSizeT) = message.length :=
        decodeLE_of_header messageFits (by simpa [List.take_of_length_le, enough] using first.front)
      have size : decodeLE (session.data.take sizeofSizeT) ≤ vectorMaxSize :=
        spelled.trans_le messageFits
      obtain ⟨session', finishes, expects'⟩ := ih (wf.opened size)
        (expects_opened messages_eq spelled) (by omega) ((Nat.sub_le _ _).trans bounded)
        (fun piece later => fronts piece (List.mem_cons_of_mem _ later))
      refine ⟨session', (finishes_header_iff closed pos size).mpr ?_, expects'⟩
      rwa [sizeSub_of_le enough (lt_of_le_of_lt bounded (by decide))]
    | inside packet message rest opened messages_eq todo_eq size filled =>
      obtain ⟨rfl, rfl⟩ := List.cons.inj todo_eq
      obtain ⟨next, pass, wf', data, expects'⟩ :=
        handlerBody_copies wf opened messages_eq size filled pos bounded first.front
      rw [List.length_drop] at within
      simp only [List.length_drop] at fronts ⊢
      by_cases whole : message.length - packet.bytesRead ≤ n
      · simp only [whole, if_true] at fronts expects' ⊢
        obtain ⟨session', finishes, expects''⟩ := ih wf' expects' (by omega)
          ((Nat.sub_le _ _).trans bounded)
          (fun piece later => data ▸ fronts piece (List.mem_cons_of_mem _ later))
        exact ⟨session', .step pass finishes, expects''⟩
      · simp only [whole, if_false] at expects' ⊢
        rw [Nat.sub_eq_zero_of_le (not_le.mp whole).le] at pass ⊢
        exact ⟨next, .step pass (finishes_zero_iff.mpr rfl), by simpa using expects'⟩

/-- A copy after which the session still agrees with the messages took the next bytes of its
message. -/
theorem front_of_copy {message : List UInt8} {rest : List (List UInt8)}
    (wf : session.WellFormed) (opened : session.curPacket = some packet)
    (messages_eq : messages = session.onData ++ message :: rest)
    (size : packet.data.length = message.length) (pos : 0 < n) (bounded : n ≤ maxLength)
    (finishes : Finishes handlerBody ⟨session, n⟩ session') (agrees : session'.Agrees messages) :
    (message.drop packet.bytesRead).take n <+: session.data := by
  have read_le := (wf.packet _ opened).read_le
  have source : n ≤ session.data.length := bounded.trans wf.buffer.ge
  have pass := handlerBody_of_packet wf opened pos (lt_of_le_of_lt bounded (by decide))
  generalize copies : min n (packet.data.length - packet.bytesRead) = copyBytes at pass
  dsimp only at pass
  rw [if_neg (by omega)] at pass
  have target : packet.bytesRead + copyBytes ≤ packet.data.length := by omega
  have wf' := (settle_spec wf opened (by omega : copyBytes ≤ session.data.length) target).1
  have fits : n - copyBytes < 2 ^ 64 :=
    lt_of_le_of_lt ((Nat.sub_le _ _).trans bounded) (by decide)
  -- Agreement is carried back from the end of the run to the copy.
  have settled := (progress_of_finishes messages (finishes.of_step pass) wf' fits).agrees agrees
  obtain ⟨rest', messages_eq', next⟩ := next_of_settle_agrees (by omega) target settled
  obtain rfl : message :: rest = rest' :=
    List.append_cancel_left (messages_eq.symm.trans messages_eq')
  have taken := congrArg (List.drop packet.bytesRead) (next message rfl).2
  have held : (packet.data.take packet.bytesRead).length = packet.bytesRead := by
    rw [List.length_take]
    omega
  rw [List.drop_take, Nat.add_sub_cancel_left, List.drop_left' held] at taken
  have short : (message.drop packet.bytesRead).take n =
      (message.drop packet.bytesRead).take copyBytes := by
    rw [List.take_eq_take_iff, List.length_drop]
    omega
  rw [short, taken]
  exact List.take_prefix _ _

/-- **Necessity, one completion.** If the handler returns, the session still agrees with the
messages and nothing was overdrawn, then every piece of the completion fronted the buffer. -/
theorem TcpSession.Expects.fronts (wf : session.WellFormed)
    (expects : session.Expects messages todo) (within : n ≤ (streamOf todo).length)
    (bounded : n ≤ maxLength) (finishes : Finishes handlerBody ⟨session, n⟩ session')
    (agrees : session'.Agrees messages)
    (light : session'.weight < session.weight + n + 2 ^ 64) :
    ∀ piece ∈ (splitFields todo n).1, piece.Fronts session.data := by
  induction todo generalizing session n with
  | nil =>
    obtain rfl : n = 0 := by simpa using within
    simp
  | cons field todo ih =>
    rcases Nat.eq_zero_or_pos n with rfl | pos
    · simp
    rw [streamOf_cons, List.length_append] at within
    rw [splitFields_cons pos]
    have small : n < 2 ^ 64 := lt_of_le_of_lt bounded (by decide)
    cases expects with
    | between rest closed messages_eq todo_eq =>
      obtain _ | ⟨message, rest⟩ := rest
      · simp at todo_eq
      obtain ⟨rfl, rfl⟩ := List.cons.inj todo_eq
      -- A header that was cut short would have overdrawn the count.
      have enough : sizeofSizeT ≤ n := by
        by_contra short
        have overdrawn := weight_of_overdraw wf closed pos (not_le.mp short) finishes
        omega
      have size : decodeLE (session.data.take sizeofSizeT) ≤ vectorMaxSize := by
        by_contra long
        have fails := handlerBody_of_length_error closed pos (not_le.mp long)
        cases finishes with
        | exit exits => simp [fails] at exits
        | step steps _ => simp [fails] at steps
      rw [finishes_header_iff closed pos size, sizeSub_of_le enough small] at finishes
      have small' : n - sizeofSizeT < 2 ^ 64 := lt_of_le_of_lt (Nat.sub_le _ _) small
      obtain ⟨rest', messages_eq', next⟩ :=
        (progress_of_finishes messages finishes (wf.opened size) small').agrees agrees
      obtain rfl : message :: rest = rest' :=
        List.append_cancel_left (messages_eq.symm.trans messages_eq')
      have spelled : decodeLE (session.data.take sizeofSizeT) = message.length := by
        simpa [TcpSession.freshPacket] using (next _ message rfl rfl).1.symm
      have header : session.data.take sizeofSizeT = encodeLE sizeofSizeT message.length := by
        apply eq_encodeLE_of_decodeLE_eq _ spelled
        rw [List.length_take, wf.buffer]
        decide
      rw [encodeLE_length] at within
      simp only [encodeLE_length, enough, if_true, List.mem_cons, forall_eq_or_imp]
      refine ⟨⟨?_, ?_⟩, ?_⟩
      · rw [List.take_of_length_le (by simpa using enough), ← header]
        exact List.take_prefix _ _
      · simpa using enough
      · rw [← TcpSession.opened_data]
        refine ih (wf.opened size) (expects_opened messages_eq spelled) (by omega)
          ((Nat.sub_le _ _).trans bounded) finishes ?_
        rw [weight_opened closed]
        omega
    | inside packet message rest opened messages_eq todo_eq size filled =>
      obtain ⟨rfl, rfl⟩ := List.cons.inj todo_eq
      have front := front_of_copy wf opened messages_eq size pos bounded finishes agrees
      obtain ⟨next, pass, wf', data, expects'⟩ :=
        handlerBody_copies wf opened messages_eq size filled pos bounded front
      rw [List.length_drop] at within
      simp only [List.length_drop, List.mem_cons, forall_eq_or_imp]
      refine ⟨⟨front, by simp⟩, ?_⟩
      by_cases whole : message.length - packet.bytesRead ≤ n
      · simp only [whole, if_true] at expects' ⊢
        have kept := (progress_of_step messages wf small pass).weight
        dsimp only at kept
        exact data ▸ ih wf' expects' (by omega) ((Nat.sub_le _ _).trans bounded)
          (finishes.of_step pass) (by omega)
      · rw [Nat.sub_eq_zero_of_le (not_le.mp whole).le]
        simp

/-! ### Whole connections -/

variable {cut : List (List UInt8)}

theorem Field.fronts_fill_iff {piece : Field} {bytes : List UInt8}
    (short : piece.bytes.length ≤ bytes.length) :
    piece.Fronts (session.fill bytes).data ↔ piece.Fronts bytes := by
  have longer : bytes <+: (session.fill bytes).data := by
    rw [TcpSession.fill, overwrite_zero]
    exact List.prefix_append _ _
  exact ⟨fun h => ⟨List.prefix_of_prefix_length_le h.front longer short, h.whole⟩,
    fun h => ⟨h.front.trans longer, h.whole⟩⟩

theorem fronts_splitFields_iff {bytes : List UInt8} :
    (∀ piece ∈ (splitFields todo bytes.length).1, piece.Fronts (session.fill bytes).data) ↔
      ∀ piece ∈ (splitFields todo bytes.length).1, piece.Fronts bytes :=
  forall₂_congr fun _ member => Field.fronts_fill_iff (length_le_of_mem_splitFields member)

/-- What one completion preserves: the run lemma, seen from outside the loop. -/
theorem progress_of_handles (messages : List (List UInt8)) {bytes : List UInt8}
    (wf : session.WellFormed) (length : bytes.length ≤ maxLength)
    (handles : Handles session bytes session') :
    session'.WellFormed ∧ session.weight + bytes.length ≤ session'.weight ∧
      (session'.Agrees messages → session.Agrees messages) := by
  have progress := progress_of_finishes messages handles (wf.fill length)
    (lt_of_le_of_lt length (by decide))
  exact ⟨progress.wellFormed, progress.weight, progress.agrees⟩

theorem progress_of_handlesAll (messages : List (List UInt8)) (wf : session.WellFormed)
    (bounded : ∀ bytes ∈ cut, bytes.length ≤ maxLength)
    (handles : HandlesAll session cut session') :
    session'.WellFormed ∧ session.weight + cut.flatten.length ≤ session'.weight ∧
      (session'.Agrees messages → session.Agrees messages) := by
  induction cut generalizing session with
  | nil =>
    obtain rfl : session' = session := handles
    exact ⟨wf, by simp, id⟩
  | cons bytes cut ih =>
    obtain ⟨middle, first, rest⟩ := handles
    obtain ⟨wf₁, heavier₁, agrees₁⟩ :=
      progress_of_handles messages wf (bounded bytes List.mem_cons_self) first
    obtain ⟨wf₂, heavier₂, agrees₂⟩ :=
      ih wf₁ (fun b later => bounded b (List.mem_cons_of_mem _ later)) rest
    refine ⟨wf₂, ?_, agrees₁ ∘ agrees₂⟩
    rw [List.flatten_cons, List.length_append]
    omega

/-- **Sufficiency.** Completions that only show the handler pieces it reads correctly deliver
the messages. -/
theorem handlesAll_of_aligned (fits : ∀ message ∈ messages, message.length ≤ vectorMaxSize)
    (wf : session.WellFormed) (expects : session.Expects messages todo)
    (joins : cut.flatten = streamOf todo) (bounded : ∀ bytes ∈ cut, bytes.length ≤ maxLength)
    (aligned : Aligned todo cut) :
    ∃ session', HandlesAll session cut session' ∧ session'.onData = messages := by
  induction cut generalizing session todo with
  | nil =>
    refine ⟨session, rfl, ?_⟩
    obtain rfl : todo = [] := aligned
    cases expects with
    | between rest closed messages_eq todo_eq =>
      cases rest with
      | nil => simpa using messages_eq.symm
      | cons message rest => simp at todo_eq
    | inside _ _ _ _ _ todo_eq => simp at todo_eq
  | cons bytes cut ih =>
    have length := bounded bytes List.mem_cons_self
    rw [List.flatten_cons] at joins
    have within : bytes.length ≤ (streamOf todo).length := by simp [← joins]
    obtain ⟨middle, finishes, expects'⟩ := (expects.fill bytes).handle fits (wf.fill length)
      within length (fronts_splitFields_iff.mpr aligned.1)
    have wf' := (progress_of_handles messages wf length finishes).1
    obtain ⟨session', handles, delivered⟩ := ih wf' expects'
      (by rw [streamOf_splitFields within, ← joins, List.drop_left])
      (fun b later => bounded b (List.mem_cons_of_mem _ later)) aligned.2
    exact ⟨session', ⟨middle, finishes, handles⟩, delivered⟩

/-- **Necessity.** A connection that delivered the messages, and overdrew nothing, showed the
handler only pieces it reads correctly. -/
theorem aligned_of_handlesAll (fits : ∀ message ∈ messages, message.length ≤ vectorMaxSize)
    (wf : session.WellFormed) (expects : session.Expects messages todo)
    (joins : cut.flatten = streamOf todo) (bounded : ∀ bytes ∈ cut, bytes.length ≤ maxLength)
    (handles : HandlesAll session cut session') (delivered : session'.onData = messages)
    (light : session'.weight < session.weight + cut.flatten.length + 2 ^ 64) :
    Aligned todo cut := by
  induction cut generalizing session todo with
  | nil =>
    obtain rfl : session' = session := handles
    have nothing : streamOf todo = [] := by simpa using joins.symm
    cases expects with
    | between rest closed messages_eq todo_eq =>
      cases rest with
      | nil => exact todo_eq
      | cons message rest => simp [todo_eq, encodeLE, sizeofSizeT] at nothing
    | inside packet message rest opened messages_eq => simp [delivered] at messages_eq
  | cons bytes cut ih =>
    obtain ⟨middle, finishes, rest⟩ := handles
    have length := bounded bytes List.mem_cons_self
    have later : ∀ b ∈ cut, b.length ≤ maxLength := fun b h => bounded b (List.mem_cons_of_mem _ h)
    rw [List.flatten_cons] at joins light
    rw [List.length_append] at light
    have within : bytes.length ≤ (streamOf todo).length := by simp [← joins]
    obtain ⟨wf', heavier, -⟩ := progress_of_handles messages wf length finishes
    obtain ⟨-, heavier', agrees⟩ := progress_of_handlesAll messages wf' later rest
    have light' : middle.weight < session.weight + bytes.length + 2 ^ 64 := by omega
    have fronts := (expects.fill bytes).fronts (wf.fill length) within length finishes
      (agrees (TcpSession.agrees_of_onData_eq delivered)) light'
    obtain ⟨same, finishes', expects'⟩ :=
      (expects.fill bytes).handle fits (wf.fill length) within length fronts
    obtain rfl := finishes.unique finishes'
    refine ⟨fronts_splitFields_iff.mp fronts, ih wf' expects' ?_ later rest ?_⟩
    · rw [streamOf_splitFields within, ← joins, List.drop_left]
    · omega

theorem streamOf_fields_length (messages : List (List UInt8)) :
    (streamOf (fields messages)).length =
      (messages.map fun message => sizeofSizeT + message.length).sum := by
  induction messages with
  | nil => rfl
  | cons message rest ih =>
    simp only [fields_cons, streamOf_cons, List.length_append, encodeLE_length, ih, List.map_cons,
      List.sum_cons, Nat.add_assoc]

/-- A session that delivered the messages of a stream overdrew nothing. -/
theorem weight_lt_of_onData_eq (wf : session.WellFormed) (delivered : session.onData = messages) :
    session.weight < (streamOf (fields messages)).length + 2 ^ 64 := by
  rw [streamOf_fields_length, TcpSession.weight, delivered]
  cases opened : session.curPacket with
  | none => simp
  | some packet =>
    have bound := (wf.packet packet opened).read_le.trans (wf.packet packet opened).size_le
    simp only [sizeofSizeT, vectorMaxSize] at bound ⊢
    omega

theorem fits_of_mem {sent : List ByteVector} :
    ∀ message ∈ sent.map ByteVector.bytes, message.length ≤ vectorMaxSize := by
  rintro _ member
  obtain ⟨message, -, rfl⟩ := List.mem_map.mp member
  exact message.fits

theorem receives_of_aligned {sent : List ByteVector} (isCut : IsCut cut (wire sent))
    (aligned : Aligned (fields (sent.map ByteVector.bytes)) cut) :
    Receives cut (sent.map ByteVector.bytes) :=
  handlesAll_of_aligned fits_of_mem TcpSession.wellFormed_start
    (TcpSession.expects_start _) (isCut.joins.trans (wire_eq_streamOf sent)) isCut.bounded aligned

theorem aligned_of_receives {sent : List ByteVector} (isCut : IsCut cut (wire sent))
    (receives : Receives cut (sent.map ByteVector.bytes)) :
    Aligned (fields (sent.map ByteVector.bytes)) cut := by
  obtain ⟨session, handles, delivered⟩ := receives
  have joins := isCut.joins.trans (wire_eq_streamOf sent)
  have wf := (progress_of_handlesAll [] TcpSession.wellFormed_start isCut.bounded handles).1
  have light := weight_lt_of_onData_eq wf delivered
  rw [← joins] at light
  refine aligned_of_handlesAll fits_of_mem TcpSession.wellFormed_start
    (TcpSession.expects_start _) joins isCut.bounded handles delivered ?_
  simpa [TcpSession.weight, TcpSession.start] using light

/-- **Exactly the aligned cuts deliver the messages.** The session hands over the messages of the
client's `Send` calls, in order and unchanged, if and only if each completion only shows it
pieces it reads correctly. -/
theorem receives_iff_aligned (sent : List ByteVector) (cut : List (List UInt8))
    (isCut : IsCut cut (wire sent)) :
    Receives cut (sent.map ByteVector.bytes) ↔ Aligned (fields (sent.map ByteVector.bytes)) cut :=
  ⟨aligned_of_receives isCut, receives_of_aligned isCut⟩

instance (piece : Field) (buffer : List UInt8) : Decidable (piece.Fronts buffer) :=
  decidable_of_iff (piece.bytes <+: buffer ∧
    (piece.kind = .header → piece.bytes.length = sizeofSizeT))
    ⟨fun h => ⟨h.1, h.2⟩, fun h => ⟨h.front, h.whole⟩⟩

instance decidableAligned : (todo : List Field) → (cut : List (List UInt8)) →
    Decidable (Aligned todo cut)
  | todo, [] => inferInstanceAs (Decidable (todo = []))
  | todo, bytes :: cut =>
    have := decidableAligned (splitFields todo bytes.length).2 cut
    inferInstanceAs (Decidable (_ ∧ _))

/-- A one-byte message. -/
def byteMessage (byte : UInt8) : ByteVector := ⟨[byte], by simp [vectorMaxSize]⟩

theorem wire_byteMessage (byte : UInt8) :
    wire [byteMessage byte] = encodeLE sizeofSizeT 1 ++ [byte] := by
  rw [wire_eq_streamOf]
  rfl

/-- One message, its header and its payload in completions of their own. -/
theorem receives_header_then_payload :
    IsCut [encodeLE sizeofSizeT 1, [7]] (wire [byteMessage 7]) ∧
      Receives [encodeLE sizeofSizeT 1, [7]] ([byteMessage 7].map ByteVector.bytes) := by
  have isCut : IsCut [encodeLE sizeofSizeT 1, [7]] (wire [byteMessage 7]) := by
    refine ⟨by rw [wire_byteMessage]; rfl, ?_, ?_⟩ <;> decide
  exact ⟨isCut, (receives_iff_aligned [byteMessage 7] _ isCut).mpr (by decide)⟩

/-- The same message in a single completion is not received: the payload is copied from the
front of the buffer, where the header stands. -/
theorem not_receives_coalesced :
    IsCut [encodeLE sizeofSizeT 1 ++ [7]] (wire [byteMessage 7]) ∧
      ¬ Receives [encodeLE sizeofSizeT 1 ++ [7]] ([byteMessage 7].map ByteVector.bytes) := by
  have isCut : IsCut [encodeLE sizeofSizeT 1 ++ [7]] (wire [byteMessage 7]) := by
    refine ⟨by rw [wire_byteMessage]; rfl, ?_, ?_⟩ <;> decide
  refine ⟨isCut, fun receives => ?_⟩
  have misread : ¬ Aligned (fields ([byteMessage 7].map ByteVector.bytes))
      [encodeLE sizeofSizeT 1 ++ [7]] := by decide
  exact misread (aligned_of_receives isCut receives)

end Sqwar.Network
