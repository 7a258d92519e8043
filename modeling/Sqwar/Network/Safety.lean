import Sqwar.Network.Framing

/-!
# Safety of the read handler

The handler is safe on a completion exactly if it meets no header of which fewer than eight bytes
remain. As it finds the same bytes at every header, the completion behind the open packet is cut
into packets of one size, and only the last of them can be too short.
-/

set_option autoImplicit false

namespace Sqwar.Network

open Data Semantics

variable {session session' : TcpSession} {packet : DataPacket} {loop next : ReadLoop}
  {bytes : List UInt8} {received length n k size : ℕ}

/-- The sessions that completions lead to, with the length of the part of the buffer that some
completion has filled. -/
inductive Reachable : ℕ → TcpSession → Prop
  | start : Reachable 0 .start
  | handles {received : ℕ} {session session' : TcpSession} {bytes : List UInt8}
      (earlier : Reachable received session)
      (within : bytes.length ≤ maxLength) (handles : Handles session bytes session') :
      Reachable (max received bytes.length) session'

/-- What the packet still lacks. -/
def TcpSession.packetRemaining (session : TcpSession) : ℕ :=
  match session.curPacket with
  | none => 0
  | some packet => packet.data.length - packet.bytesRead

/-- What a pass over a completion may do, when `received` bytes of the buffer have been received:
count the bytes that remain without wrapping, read a header from received bytes, copy received
bytes into the packet, and keep the packet's count within its size. -/
structure SafePass (received length : ℕ) (loop : ReadLoop) : Prop where
  remaining : loop.bytesRemaining ≤ length
  header : 0 < loop.bytesRemaining → loop.session.curPacket = none → sizeofSizeT ≤ received
  opened : ∀ packet n, 0 < loop.bytesRemaining → openPacket loop = .ok (packet, n) → n ≤ length
  copied : ∀ packet n copyBytes, 0 < loop.bytesRemaining → openPacket loop = .ok (packet, n) →
    copyBytes = min n (sizeSub packet.data.length packet.bytesRead) →
      copyBytes ≤ received ∧ packet.bytesRead + copyBytes ≤ packet.data.length
  packet : ∀ packet, loop.session.curPacket = some packet → packet.bytesRead ≤ packet.data.length

/-- The handler terminates on the completion, and every pass of it is safe. -/
structure HandlesSafely (received : ℕ) (session : TcpSession) (bytes : List UInt8) : Prop where
  terminates : ∃ session', Handles session bytes session'
  passes : ∀ loop, Passes handlerBody ⟨session.fill bytes, bytes.length⟩ loop →
    SafePass (max received bytes.length) bytes.length loop

/-- Of `k` bytes in packets of the given size, no header is cut short. -/
def CutWhole (k size : ℕ) : Prop :=
  k % (sizeofSizeT + size) = 0 ∨ sizeofSizeT ≤ k % (sizeofSizeT + size)

/-- Behind the open packet the completion is made of packets of the size that its first eight
bytes spell, and the last header is not cut short. -/
def HeadersWhole (session : TcpSession) (bytes : List UInt8) : Prop :=
  CutWhole (bytes.length - session.packetRemaining) (decodeLE (bytes.take sizeofSizeT))

/-- The allocations that the handler makes succeed. -/
def Allocates (session : TcpSession) (bytes : List UInt8) : Prop :=
  session.packetRemaining < bytes.length →
    decodeLE ((session.fill bytes).data.take sizeofSizeT) ≤ vectorMaxSize

/-! ### Cutting into packets -/

theorem cutWhole_zero (size : ℕ) : CutWhole 0 size := .inl (Nat.zero_mod _)

theorem CutWhole.le (whole : CutWhole k size) (pos : 0 < k) : sizeofSizeT ≤ k := by
  rcases whole with even | rest
  · exact (Nat.le_add_right _ _).trans (Nat.le_of_dvd pos (Nat.dvd_of_mod_eq_zero even))
  · exact rest.trans (Nat.mod_le _ _)

/-- The first packet can be taken off. -/
theorem cutWhole_iff (whole : sizeofSizeT ≤ k) :
    CutWhole k size ↔ CutWhole (k - sizeofSizeT - size) size := by
  rcases Nat.lt_or_ge k (sizeofSizeT + size) with last | more
  -- the last packet: what is left is a header and perhaps a part of its payload
  · rw [Nat.sub_sub, Nat.sub_eq_zero_of_le last.le]
    exact iff_of_true (.inr (by rwa [Nat.mod_eq_of_lt last])) (cutWhole_zero size)
  · unfold CutWhole
    rw [Nat.sub_sub, ← Nat.mod_eq_sub_mod more]

theorem not_cutWhole_of_short (pos : 0 < k) (short : k < sizeofSizeT) : ¬ CutWhole k size :=
  fun whole => absurd (whole.le pos) (not_le.mpr short)

/-! ### One pass -/

theorem TcpSession.packetRemaining_none (closed : session.curPacket = none) :
    session.packetRemaining = 0 := by
  rw [packetRemaining, closed]

theorem TcpSession.packetRemaining_some (opened : session.curPacket = some packet) :
    session.packetRemaining = packet.data.length - packet.bytesRead := by
  rw [packetRemaining, opened]

@[simp] theorem TcpSession.packetRemaining_opened (session : TcpSession) :
    session.opened.packetRemaining = decodeLE (session.data.take sizeofSizeT) := by
  simp [packetRemaining, opened, freshPacket]

/-- What lies behind the open packet. -/
def ReadLoop.behind (loop : ReadLoop) : ℕ := loop.bytesRemaining - loop.session.packetRemaining

/-- A measure of what the handler has yet to do. -/
def ReadLoop.todo (loop : ReadLoop) : ℕ :=
  2 * loop.bytesRemaining + if loop.session.curPacket.isSome then 1 else 0

/-- What a pass over an open packet leads to. -/
structure CopyPass (session : TcpSession) (n : ℕ) (next : ReadLoop) : Prop where
  wellFormed : next.session.WellFormed
  data : next.session.data = session.data
  remaining : next.bytesRemaining = n - session.packetRemaining
  behind : next.behind = n - session.packetRemaining
  todo : next.todo < 2 * n + 1

theorem TcpSession.settle_curPacket (session : TcpSession) (packet : DataPacket) :
    (session.settle packet).curPacket =
      if packet.bytesRead = packet.data.length then none else some packet := by
  unfold settle
  split_ifs <;> rfl

theorem copyPass_of_packet (wf : session.WellFormed) (opened : session.curPacket = some packet)
    (pos : 0 < n) (within : n ≤ maxLength) :
    ∃ next, handlerBody ⟨session, n⟩ = .ok (.inl next) ∧ CopyPass session n next := by
  have bounded := wf.packet packet opened
  have read_le := bounded.read_le
  have lacks := TcpSession.packetRemaining_some opened
  have fits : n < 2 ^ 64 := lt_of_le_of_lt within (by decide)
  -- The count of the copy is kept opaque, with its equation at hand.
  obtain ⟨copyBytes, copies⟩ : ∃ c, c = min n (packet.data.length - packet.bytesRead) := ⟨_, rfl⟩
  have inBuffer : ¬ maxLength < copyBytes := by omega
  have pass := handlerBody_of_packet wf opened pos fits
  simp only [← copies, if_neg inBuffer] at pass
  have target : packet.bytesRead + copyBytes ≤ packet.data.length := by omega
  have source : copyBytes ≤ session.data.length := by rw [wf.buffer]; omega
  obtain ⟨wf', data, -⟩ := settle_spec wf opened source target
  have length := DataPacket.append_length source target
  have remaining : n - copyBytes = n - session.packetRemaining := by omega
  have read : (packet.append session.data copyBytes).bytesRead = packet.bytesRead + copyBytes := rfl
  refine ⟨_, pass, wf', data, remaining, ?_, ?_⟩
  · -- either the packet is complete or nothing remains
    rw [ReadLoop.behind, TcpSession.packetRemaining, TcpSession.settle_curPacket, length, read]
    split_ifs with complete
    · dsimp only
      omega
    · dsimp only
      omega
  · rw [ReadLoop.todo, TcpSession.settle_curPacket, length, read]
    by_cases complete : packet.bytesRead + copyBytes = packet.data.length
    · rw [if_pos complete]
      change 2 * (n - copyBytes) + 0 < 2 * n + 1
      omega
    · rw [if_neg complete]
      change 2 * (n - copyBytes) + 1 < 2 * n + 1
      omega

/-- What every pass keeps: the handler finds packets of the same size all along. -/
structure Handling (size : ℕ) (loop : ReadLoop) : Prop where
  wellFormed : loop.session.WellFormed
  header : decodeLE (loop.session.data.take sizeofSizeT) = size
  within : loop.bytesRemaining ≤ maxLength
  allocates : 0 < loop.behind → size ≤ vectorMaxSize

/-- **Step lemma.** As long as at least eight bytes remain at a header, a pass goes on and takes off
a packet or a part of one. -/
theorem exists_pass (handling : Handling size loop) (pos : 0 < loop.bytesRemaining)
    (whole : loop.session.curPacket = none → sizeofSizeT ≤ loop.bytesRemaining) :
    ∃ next, handlerBody loop = .ok (.inl next) ∧ Handling size next ∧
      (CutWhole next.behind size ↔ CutWhole loop.behind size) ∧
      next.bytesRemaining ≤ loop.bytesRemaining ∧ next.todo < loop.todo := by
  obtain ⟨session, n⟩ := loop
  obtain ⟨wf, header, within, allocates⟩ := handling
  dsimp only at wf header within pos whole
  cases opened : session.curPacket with
  | some packet =>
    obtain ⟨next, pass, copy⟩ := copyPass_of_packet wf opened pos within
    have behind : next.behind = ReadLoop.behind ⟨session, n⟩ := copy.behind
    have remaining := copy.remaining
    refine ⟨next, pass, ⟨copy.wellFormed, by rw [copy.data, header], by omega, ?_⟩, ?_, ?_, ?_⟩
    · rwa [behind]
    · rw [behind]
    · dsimp only
      omega
    · have todo := copy.todo
      simpa [ReadLoop.todo, opened] using todo
  | none =>
    have eight := whole opened
    have behind : ReadLoop.behind ⟨session, n⟩ = n := by
      rw [ReadLoop.behind, TcpSession.packetRemaining_none opened, Nat.sub_zero]
    have size_le : size ≤ vectorMaxSize := allocates (by rwa [behind])
    have pass := handlerBody_of_header opened pos (by rwa [header])
    have left : sizeSub n sizeofSizeT = n - sizeofSizeT :=
      sizeSub_of_le eight (lt_of_le_of_lt within (by decide))
    have todo : ReadLoop.todo ⟨session, n⟩ = 2 * n := by simp [ReadLoop.todo, opened]
    have eight' : sizeofSizeT = 8 := rfl
    rw [left] at pass
    rw [behind, todo, cutWhole_iff eight]
    have wf' := wf.opened (by rwa [header])
    by_cases done : n - sizeofSizeT = 0
    · rw [if_pos done] at pass
      refine ⟨_, pass, ⟨wf', header, Nat.zero_le _, fun _ => size_le⟩, ?_, Nat.zero_le _, ?_⟩
      · rw [done, Nat.zero_sub, ReadLoop.behind, Nat.zero_sub]
      · have last : ReadLoop.todo ⟨session.opened, 0⟩ = 1 := rfl
        omega
    · rw [if_neg done] at pass
      obtain ⟨next, copies, copy⟩ :=
        copyPass_of_packet wf' rfl (Nat.pos_of_ne_zero done)
          (show n - sizeofSizeT ≤ maxLength by omega)
      have remaining := copy.remaining
      refine ⟨next, pass.trans copies, ⟨copy.wellFormed, ?_, by omega, fun _ => size_le⟩,
        ?_, ?_, ?_⟩
      · rw [copy.data]
        exact header
      · rw [copy.behind, TcpSession.packetRemaining_opened, header]
      · dsimp only
        omega
      · have := copy.todo
        omega

/-- A pass that finds at least eight bytes at a header is safe. -/
theorem safePass_of_cutWhole (handling : Handling size loop) (whole : CutWhole loop.behind size)
    (remaining : loop.bytesRemaining ≤ length) (filled : length ≤ received) :
    SafePass received length loop := by
  obtain ⟨session, n⟩ := loop
  obtain ⟨wf, -, within, -⟩ := handling
  dsimp only at wf within remaining
  cases opened : session.curPacket with
  | some packet =>
    have bounded := wf.packet packet opened
    have lacks : sizeSub packet.data.length packet.bytesRead =
        packet.data.length - packet.bytesRead :=
      sizeSub_of_le bounded.read_le (lt_of_le_of_lt bounded.size_le (by decide))
    have opens : openPacket ⟨session, n⟩ = .ok (packet, n) := by simp only [openPacket, opened]
    refine ⟨remaining, by simp [opened], ?_, ?_, fun packet => (wf.packet packet · |>.read_le)⟩
    · rintro _ _ - opens'
      obtain ⟨rfl, rfl⟩ := Prod.mk.inj (Except.ok.inj (opens.symm.trans opens'))
      exact remaining
    · rintro _ _ copyBytes - opens' rfl
      obtain ⟨rfl, rfl⟩ := Prod.mk.inj (Except.ok.inj (opens.symm.trans opens'))
      have read_le := bounded.read_le
      rw [lacks]
      omega
  | none =>
    have behind : ReadLoop.behind ⟨session, n⟩ = n := by
      rw [ReadLoop.behind, TcpSession.packetRemaining_none opened, Nat.sub_zero]
    rw [behind] at whole
    have opens : ∀ packet m, 0 < n → openPacket ⟨session, n⟩ = .ok (packet, m) →
        packet.bytesRead = 0 ∧ m = n - sizeofSizeT ∧ packet.data.length ≤ vectorMaxSize := by
      intro packet m pos opens
      simp only [openPacket, opened] at opens
      split_ifs at opens with long
      obtain ⟨rfl, rfl⟩ := Prod.mk.inj (Except.ok.inj opens)
      refine ⟨rfl, ?_, by simpa using not_lt.mp long⟩
      exact sizeSub_of_le (whole.le pos) (lt_of_le_of_lt within (by decide))
    refine ⟨remaining, fun pos _ => (whole.le pos).trans (remaining.trans filled), ?_, ?_,
      fun packet => (wf.packet packet · |>.read_le)⟩
    · intro packet m pos opens'
      obtain ⟨-, rfl, -⟩ := opens packet m pos opens'
      omega
    · rintro packet m copyBytes pos opens' rfl
      obtain ⟨fresh, rfl, size_le⟩ := opens packet m pos opens'
      have lacks : sizeSub packet.data.length packet.bytesRead = packet.data.length := by
        rw [fresh]
        exact sizeSub_of_le (Nat.zero_le _) (lt_of_le_of_lt size_le (by decide))
      rw [lacks, fresh]
      omega

/-- A safe pass at a header finds at least eight bytes there: fewer would wrap the count. -/
theorem SafePass.whole (safe : SafePass received length loop) (handling : Handling size loop)
    (fits : length ≤ maxLength) (pos : 0 < loop.bytesRemaining)
    (closed : loop.session.curPacket = none) : sizeofSizeT ≤ loop.bytesRemaining := by
  by_contra! short
  have behind : loop.behind = loop.bytesRemaining := by
    rw [ReadLoop.behind, TcpSession.packetRemaining_none closed, Nat.sub_zero]
  have allocates : ¬ vectorMaxSize < decodeLE (loop.session.data.take sizeofSizeT) := by
    rw [handling.header]
    exact not_lt.mpr (handling.allocates (by rwa [behind]))
  have opens : openPacket loop =
      .ok (loop.session.freshPacket, sizeSub loop.bytesRemaining sizeofSizeT) := by
    simp only [openPacket, closed, allocates, if_false, TcpSession.freshPacket]
  -- The count has wrapped, and is far more than the completion's length.
  have wrapped := safe.opened _ _ pos opens
  rw [sizeSub_of_lt short (by decide)] at wrapped
  have eight : sizeofSizeT = 8 := rfl
  have million : maxLength = 1048576 := rfl
  omega

/-! ### Whole completions -/

theorem safe_of_cutWhole (handling : Handling size loop) (whole : CutWhole loop.behind size)
    (remaining : loop.bytesRemaining ≤ length) (filled : length ≤ received) :
    (∃ session', Finishes handlerBody loop session') ∧
      ∀ next, Passes handlerBody loop next → SafePass received length next := by
  -- every pass keeps the condition, and leaves less to do
  have onward : ∀ loop, Handling size loop ∧ CutWhole loop.behind size ∧
      loop.bytesRemaining ≤ length → 0 < loop.bytesRemaining →
        ∃ next, handlerBody loop = .ok (.inl next) ∧ (Handling size next ∧
          CutWhole next.behind size ∧ next.bytesRemaining ≤ length) ∧ next.todo < loop.todo := by
    rintro loop ⟨handling, whole, remaining⟩ pos
    obtain ⟨next, pass, handling', same, less, todo⟩ := exists_pass handling pos fun closed => by
      have behind : loop.behind = loop.bytesRemaining := by
        rw [ReadLoop.behind, TcpSession.packetRemaining_none closed, Nat.sub_zero]
      rw [behind] at whole
      exact whole.le pos
    exact ⟨next, pass, ⟨handling', same.mpr whole, less.trans remaining⟩, todo⟩
  have exits : ∀ loop : ReadLoop, loop.bytesRemaining = 0 →
      handlerBody loop = .ok (.inr loop.session) := fun loop done => by simp [handlerBody, done]
  constructor
  · refine exists_finishes (fun loop => Handling size loop ∧ CutWhole loop.behind size ∧
      loop.bytesRemaining ≤ length) ReadLoop.todo (fun loop inv => ?_) ⟨handling, whole, remaining⟩
    rcases Nat.eq_zero_or_pos loop.bytesRemaining with done | pos
    · exact .inl ⟨_, exits loop done⟩
    · exact .inr (onward loop inv pos)
  · intro next passes
    have inv := passes.invariant (fun loop => Handling size loop ∧ CutWhole loop.behind size ∧
      loop.bytesRemaining ≤ length) ⟨handling, whole, remaining⟩ fun loop next inv steps => by
        rcases Nat.eq_zero_or_pos loop.bytesRemaining with done | pos
        · cases (exits loop done).symm.trans steps
        · obtain ⟨next', pass, inv', -⟩ := onward loop inv pos
          obtain rfl : next' = next := by simpa using pass.symm.trans steps
          exact inv'
    exact safePass_of_cutWhole inv.1 inv.2.1 inv.2.2 filled

theorem cutWhole_of_safe (handling : Handling size loop)
    (finishes : Finishes handlerBody loop session') (fits : length ≤ maxLength)
    (safe : ∀ next, Passes handlerBody loop next → SafePass received length next) :
    CutWhole loop.behind size := by
  induction finishes with
  | exit exits =>
    rw [handlerBody_exit exits, ReadLoop.behind, Nat.zero_sub]
    exact cutWhole_zero size
  | @step loop next session' steps _ ih =>
    have pos : 0 < loop.bytesRemaining := Nat.pos_of_ne_zero fun done => by
      simp [handlerBody, done] at steps
    obtain ⟨next', pass, handling', same, -, -⟩ :=
      exists_pass handling pos ((safe loop .refl).whole handling fits pos)
    obtain rfl : next' = next := by simpa using pass.symm.trans steps
    exact same.mp (ih handling' fun later passes => safe later (.step steps passes))

theorem Reachable.wellFormed (reachable : Reachable received session) : session.WellFormed := by
  induction reachable with
  | start => exact TcpSession.wellFormed_start
  | @handles received session session' bytes _ within handles ih =>
    have fits : bytes.length < 2 ^ 64 := lt_of_le_of_lt within (by decide)
    exact (progress_of_finishes [] handles (ih.fill within) fits).wellFormed

/-- The handler's first state on a completion. -/
theorem handling_fill (wf : session.WellFormed) (within : bytes.length ≤ maxLength)
    (allocates : Allocates session bytes) :
    Handling (decodeLE ((session.fill bytes).data.take sizeofSizeT))
      ⟨session.fill bytes, bytes.length⟩ :=
  ⟨wf.fill within, rfl, within, fun behind => allocates (Nat.lt_of_sub_pos behind)⟩

/-- Where the first eight bytes of the buffer are not all new, no header may be met. -/
theorem headersWhole_iff : HeadersWhole session bytes ↔
    CutWhole (ReadLoop.behind ⟨session.fill bytes, bytes.length⟩)
      (decodeLE ((session.fill bytes).data.take sizeofSizeT)) := by
  have behind : ReadLoop.behind ⟨session.fill bytes, bytes.length⟩ =
      bytes.length - session.packetRemaining := rfl
  rw [behind, HeadersWhole]
  rcases Nat.lt_or_ge bytes.length sizeofSizeT with short | long
  · rcases Nat.eq_zero_or_pos (bytes.length - session.packetRemaining) with none | pos
    · rw [none]
      exact iff_of_true (cutWhole_zero _) (cutWhole_zero _)
    · have few : bytes.length - session.packetRemaining < sizeofSizeT := by omega
      exact iff_of_false (not_cutWhole_of_short pos few) (not_cutWhole_of_short pos few)
  · rw [TcpSession.fill_take long]

theorem HandlesSafely.headersWhole (safe : HandlesSafely received session bytes)
    (wf : session.WellFormed) (within : bytes.length ≤ maxLength)
    (allocates : Allocates session bytes) : HeadersWhole session bytes := by
  obtain ⟨session', finishes⟩ := safe.terminates
  exact headersWhole_iff.mpr
    (cutWhole_of_safe (handling_fill wf within allocates) finishes within safe.passes)

/-- **When the read handler is safe.** In every reachable session the handler, run on a completion
of any bytes, is safe if and only if no header it meets is cut short. -/
theorem handlesSafely_iff (reachable : Reachable received session)
    (within : bytes.length ≤ maxLength) (allocates : Allocates session bytes) :
    HandlesSafely received session bytes ↔ HeadersWhole session bytes := by
  have wf := reachable.wellFormed
  refine ⟨fun safe => safe.headersWhole wf within allocates, fun whole => ?_⟩
  obtain ⟨terminates, passes⟩ := safe_of_cutWhole (handling_fill wf within allocates)
    (headersWhole_iff.mp whole) le_rfl (le_max_right received bytes.length)
  exact ⟨terminates, passes⟩

/-- A message of one byte in one completion. -/
theorem handlesSafely_message : HandlesSafely 0 .start [1, 0, 0, 0, 0, 0, 0, 0, 7] := by
  refine (handlesSafely_iff .start (by decide) fun _ => ?_).mpr (.inl (by decide))
  rw [TcpSession.fill_take (by decide)]
  decide

/-- Four zero bytes: the count wraps at the header. -/
theorem not_handlesSafely_short_header : ¬ HandlesSafely 0 .start [0, 0, 0, 0] := by
  intro safe
  have whole := safe.headersWhole TcpSession.wellFormed_start (by decide) fun _ => by
    have zeros : (TcpSession.start.fill [0, 0, 0, 0]).data.take sizeofSizeT =
        List.replicate 8 0 := by
      rw [TcpSession.fill, overwrite_zero]
      change ([0, 0, 0, 0] ++ (List.replicate maxLength 0).drop 4 : List UInt8).take 8 = _
      rw [List.drop_replicate, List.take_append, List.take_replicate, min_eq_left (by decide)]
      rfl
    rw [zeros]
    decide
  exact not_cutWhole_of_short (by decide) (by decide) whole

end Sqwar.Network
