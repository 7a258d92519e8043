import Sqwar.Core.StdVector
import Sqwar.Semantics.Loop

/-!
# The TCP session's read handler

`TcpSession` collects length-prefixed packets from the completions of `async_read_some`. The
handler's `while (bytesRemaining > 0)` loop keeps no offset into the receive buffer: every header
and every payload run is read from the buffer's first byte. A `size_t` is a natural below `2 ^ 64`
and its subtraction wraps.
-/

set_option autoImplicit false

namespace Sqwar.Network

open Data Semantics

/-- `TcpSession::max_length`, the size of the receive buffer. -/
def maxLength : ℕ := 2 ^ 20

/-- Subtraction of `size_t` values. -/
def sizeSub (a b : ℕ) : ℕ := (a + (2 ^ 64 - b)) % 2 ^ 64

theorem sizeSub_of_le {a b : ℕ} (le : b ≤ a) (fits : a < 2 ^ 64) : sizeSub a b = a - b := by
  unfold sizeSub
  omega

theorem sizeSub_of_lt {a b : ℕ} (lt : a < b) (fits : b < 2 ^ 64) :
    sizeSub a b = a + 2 ^ 64 - b := by
  unfold sizeSub
  omega

theorem sizeSub_lt (a b : ℕ) : sizeSub a b < 2 ^ 64 := Nat.mod_lt _ (by decide)

/-- `TcpSession::DataPacket`. -/
structure DataPacket where
  bytesRead : ℕ
  data : List UInt8
  deriving DecidableEq, Repr

/-- The members of `TcpSession` the handler uses, with the `m_onData` calls made so far. -/
structure TcpSession where
  curPacket : Option DataPacket
  data : List UInt8
  onData : List (List UInt8)
  deriving DecidableEq, Repr

/-- The session its constructor leaves: no packet, and a zeroed receive buffer. -/
def TcpSession.start : TcpSession := ⟨none, List.replicate maxLength 0, []⟩

/-- A completion of `async_read_some` fills the front of the buffer; what earlier completions
left behind it stays. -/
def TcpSession.fill (session : TcpSession) (bytes : List UInt8) : TcpSession :=
  { session with data := overwrite session.data 0 bytes }

/-- The local state of the handler's loop. -/
structure ReadLoop where
  session : TcpSession
  bytesRemaining : ℕ

/-- `if (m_pCurPacket == nullptr)`: a new packet takes its size from the first eight bytes of
the buffer, and the header is counted off without a check. -/
def openPacket (loop : ReadLoop) : Except Fault (DataPacket × ℕ) :=
  match loop.session.curPacket with
  | some packet => .ok (packet, loop.bytesRemaining)
  | none =>
    let size := decodeLE (loop.session.data.take sizeofSizeT)
    if vectorMaxSize < size then .error .lengthError
    -- `bytesRemaining -= sizeof(size_t)` wraps when fewer bytes remain
    else .ok (⟨0, List.replicate size 0⟩, sizeSub loop.bytesRemaining sizeofSizeT)

/-- The packet after the `memcpy` of `copyBytes` bytes from the start of the buffer. -/
def DataPacket.append (packet : DataPacket) (buffer : List UInt8) (copyBytes : ℕ) : DataPacket :=
  ⟨packet.bytesRead + copyBytes, overwrite packet.data packet.bytesRead (buffer.take copyBytes)⟩

/-- Hand a complete packet to `m_onData` and drop it; keep an incomplete one. -/
def TcpSession.settle (session : TcpSession) (packet : DataPacket) : TcpSession :=
  if packet.bytesRead = packet.data.length then
    { session with curPacket := none, onData := session.onData ++ [packet.data] }
  else
    { session with curPacket := some packet }

/-- The `memcpy`: as much as the packet still lacks, or what is left of the completion. -/
def copyIntoPacket (buffer : List UInt8) (packet : DataPacket) (bytesRemaining : ℕ) :
    Except Fault (DataPacket × ℕ) :=
  let packetRemaining := sizeSub packet.data.length packet.bytesRead
  let copyBytes := min bytesRemaining packetRemaining
  -- the source starts at the front of the buffer, whatever has been consumed already
  if buffer.length < copyBytes ∨ packet.data.length < packet.bytesRead + copyBytes then
    .error .outOfBounds
  else
    .ok (packet.append buffer copyBytes, sizeSub bytesRemaining copyBytes)

/-- One pass of the handler's `while (bytesRemaining > 0)` loop. -/
def handlerBody : LoopBody Fault ReadLoop TcpSession := fun loop =>
  if loop.bytesRemaining = 0 then .ok (.inr loop.session)
  else do
    let (packet, bytesRemaining) ← openPacket loop
    if bytesRemaining = 0 then
      .ok (.inl ⟨{ loop.session with curPacket := some packet }, 0⟩)
    else
      let (filled, bytesLeft) ← copyIntoPacket loop.session.data packet bytesRemaining
      .ok (.inl ⟨loop.session.settle filled, bytesLeft⟩)

/-- The handler, run on one completion, returns with the given session. -/
def Handles (session : TcpSession) (bytes : List UInt8) (session' : TcpSession) : Prop :=
  Finishes handlerBody ⟨session.fill bytes, bytes.length⟩ session'

/-- The session handles the completions one after the other. -/
def HandlesAll : TcpSession → List (List UInt8) → TcpSession → Prop
  | session, [], session' => session' = session
  | session, bytes :: cut, session'' =>
    ∃ session', Handles session bytes session' ∧ HandlesAll session' cut session''

/-! ### What one pass does -/

/-- A packet's count never exceeds its size, which `resize` bounds. -/
structure DataPacket.WellFormed (packet : DataPacket) : Prop where
  read_le : packet.bytesRead ≤ packet.data.length
  size_le : packet.data.length ≤ vectorMaxSize

/-- What every reachable session satisfies: the buffer keeps its size, and so does the packet. -/
structure TcpSession.WellFormed (session : TcpSession) : Prop where
  buffer : session.data.length = maxLength
  packet : ∀ packet, session.curPacket = some packet → packet.WellFormed

theorem TcpSession.wellFormed_start : TcpSession.start.WellFormed :=
  ⟨List.length_replicate, fun _ h => by simp [TcpSession.start] at h⟩

theorem TcpSession.WellFormed.fill {session : TcpSession} (wf : session.WellFormed)
    {bytes : List UInt8} (within : bytes.length ≤ maxLength) : (session.fill bytes).WellFormed where
  buffer := by
    rw [TcpSession.fill, overwrite_length _ _ (by rw [wf.buffer]; omega), wf.buffer]
  packet := wf.packet

theorem TcpSession.fill_take {session : TcpSession} {bytes : List UInt8} {n : ℕ}
    (within : n ≤ bytes.length) : (session.fill bytes).data.take n = bytes.take n := by
  rw [TcpSession.fill, overwrite_zero, List.take_append_of_le_length within]

theorem DataPacket.append_length {packet : DataPacket} {buffer : List UInt8} {copyBytes : ℕ}
    (source : copyBytes ≤ buffer.length)
    (target : packet.bytesRead + copyBytes ≤ packet.data.length) :
    (packet.append buffer copyBytes).data.length = packet.data.length := by
  apply overwrite_length
  rwa [List.length_take, min_eq_left source]

/-- The first bytes of a packet after a copy: what it held, then the start of the buffer. -/
theorem DataPacket.append_take {packet : DataPacket} {buffer : List UInt8} {copyBytes : ℕ}
    (source : copyBytes ≤ buffer.length)
    (target : packet.bytesRead + copyBytes ≤ packet.data.length) :
    (packet.append buffer copyBytes).data.take (packet.bytesRead + copyBytes) =
      packet.data.take packet.bytesRead ++ buffer.take copyBytes := by
  have length : (buffer.take copyBytes).length = copyBytes := by
    rw [List.length_take, min_eq_left source]
  have within : packet.bytesRead ≤ packet.data.length := by omega
  have copied := overwrite_take packet.data (buffer.take copyBytes) within
  rwa [length] at copied

/-- With bytes remaining and a packet open, a pass is one copy. -/
theorem handlerBody_of_packet {session : TcpSession} {packet : DataPacket} {n : ℕ}
    (wf : session.WellFormed) (opened : session.curPacket = some packet) (pos : 0 < n)
    (fits : n < 2 ^ 64) :
    handlerBody ⟨session, n⟩ =
      let copyBytes := min n (packet.data.length - packet.bytesRead)
      if maxLength < copyBytes then .error .outOfBounds
      else .ok (.inl ⟨session.settle (packet.append session.data copyBytes), n - copyBytes⟩) := by
  have bounded := wf.packet packet opened
  have read_le := bounded.read_le
  have size_lt : packet.data.length < 2 ^ 64 :=
    lt_of_le_of_lt bounded.size_le (by decide)
  have remaining : sizeSub packet.data.length packet.bytesRead =
      packet.data.length - packet.bytesRead := sizeSub_of_le read_le size_lt
  have left : sizeSub n (min n (packet.data.length - packet.bytesRead)) =
      n - min n (packet.data.length - packet.bytesRead) := sizeSub_of_le (min_le_left _ _) fits
  have target : ¬ packet.data.length <
      packet.bytesRead + min n (packet.data.length - packet.bytesRead) := by omega
  simp only [handlerBody, openPacket, opened, copyIntoPacket, remaining, left, wf.buffer, target,
    or_false, pos.ne', if_false, bind, Except.bind]
  split_ifs <;> rfl

/-- The packet a header opens. -/
def TcpSession.freshPacket (session : TcpSession) : DataPacket :=
  ⟨0, List.replicate (decodeLE (session.data.take sizeofSizeT)) 0⟩

/-- The session once that packet is open. -/
def TcpSession.opened (session : TcpSession) : TcpSession :=
  { session with curPacket := some session.freshPacket }

theorem TcpSession.WellFormed.opened {session : TcpSession} (wf : session.WellFormed)
    (size : decodeLE (session.data.take sizeofSizeT) ≤ vectorMaxSize) :
    session.opened.WellFormed where
  buffer := wf.buffer
  packet := by
    rintro packet h
    obtain rfl : session.freshPacket = packet := by simpa [TcpSession.opened] using h
    exact ⟨Nat.zero_le _, by simpa [TcpSession.freshPacket] using size⟩

@[simp] theorem TcpSession.opened_data (session : TcpSession) :
    session.opened.data = session.data := rfl

@[simp] theorem TcpSession.opened_settle (session : TcpSession) (packet : DataPacket) :
    session.opened.settle packet = session.settle packet := by
  simp only [TcpSession.settle, TcpSession.opened]

private theorem handlerBody_of_opens {session : TcpSession} {n m : ℕ} (pos : 0 < n)
    (opens : openPacket ⟨session, n⟩ = .ok (session.freshPacket, m)) :
    handlerBody ⟨session, n⟩ =
      if m = 0 then .ok (.inl ⟨session.opened, 0⟩) else handlerBody ⟨session.opened, m⟩ := by
  have reopens : openPacket ⟨session.opened, m⟩ = .ok (session.freshPacket, m) := rfl
  simp only [handlerBody, opens, reopens, pos.ne', if_false, bind, Except.bind]
  by_cases done : m = 0
  · simp only [done, if_true, TcpSession.opened]
  · simp only [done, if_false, TcpSession.opened_data, TcpSession.opened_settle]

/-- With no packet open, a pass over at least a whole header is the pass that finds the header's
packet already open. -/
theorem handlerBody_of_header {session : TcpSession} {n : ℕ}
    (closed : session.curPacket = none) (pos : 0 < n)
    (size : decodeLE (session.data.take sizeofSizeT) ≤ vectorMaxSize) :
    handlerBody ⟨session, n⟩ =
      if sizeSub n sizeofSizeT = 0 then .ok (.inl ⟨session.opened, 0⟩)
      else handlerBody ⟨session.opened, sizeSub n sizeofSizeT⟩ := by
  have allocates : ¬ vectorMaxSize < decodeLE (session.data.take sizeofSizeT) := not_lt.mpr size
  apply handlerBody_of_opens pos
  simp only [openPacket, closed, allocates, if_false, TcpSession.freshPacket]

theorem handlerBody_of_length_error {session : TcpSession} {n : ℕ}
    (closed : session.curPacket = none) (pos : 0 < n)
    (size : vectorMaxSize < decodeLE (session.data.take sizeofSizeT)) :
    handlerBody ⟨session, n⟩ = .error .lengthError := by
  simp [handlerBody, openPacket, closed, pos.ne', size, bind, Except.bind]

theorem finishes_zero_iff {session session' : TcpSession} :
    Finishes handlerBody ⟨session, 0⟩ session' ↔ session' = session := by
  constructor
  · intro h
    exact h.unique (.exit (by simp [handlerBody]))
  · rintro rfl
    exact .exit (by simp [handlerBody])

/-- Opening a packet from a header does not change how the handler ends. -/
theorem finishes_header_iff {session session' : TcpSession} {n : ℕ}
    (closed : session.curPacket = none) (pos : 0 < n)
    (size : decodeLE (session.data.take sizeofSizeT) ≤ vectorMaxSize) :
    Finishes handlerBody ⟨session, n⟩ session' ↔
      Finishes handlerBody ⟨session.opened, sizeSub n sizeofSizeT⟩ session' := by
  have pass := handlerBody_of_header closed pos size
  generalize sizeSub n sizeofSizeT = m at pass ⊢
  by_cases done : m = 0
  · rw [if_pos done] at pass
    subst done
    exact ⟨fun h => h.of_step pass, .step pass⟩
  · rw [if_neg done] at pass
    exact finishes_congr pass

end Sqwar.Network
