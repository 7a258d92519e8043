import Sqwar.Network.Session

/-!
# What the TCP client writes

`TcpClient::Send` writes an eight-byte length and then the data in chunks of at most `1 << 16`
bytes. Seen from the other end the stream is a sequence of fields, a header and a payload for
every message, and a read completion cuts it anywhere.
-/

set_option autoImplicit false

namespace Sqwar.Network

open Data

/-- `chunkSize` in `TcpClient::Send`. -/
def chunkSize : ℕ := 2 ^ 16

/-- The conversion of a `size_t` to `int64_t`. -/
def toInt64 (n : ℕ) : ℤ := if n < 2 ^ 63 then n else n - 2 ^ 64

/-- The writes of the loop `while (bytesRemain > 0)` of `TcpClient::Send`. -/
def sendChunks (bytesRemain : ℤ) (ptr : List UInt8) : List (List UInt8) :=
  if 0 < bytesRemain then
    ptr.take (min (chunkSize : ℤ) bytesRemain).toNat ::
      sendChunks (bytesRemain - chunkSize) (ptr.drop chunkSize)
  else []
termination_by bytesRemain.toNat
decreasing_by simp only [chunkSize]; omega

/-- The successive `asio::write` calls of `TcpClient::Send`. -/
def send (data : List UInt8) : List (List UInt8) :=
  encodeLE sizeofSizeT data.length :: sendChunks (toInt64 data.length) data

theorem sendChunks_of_pos {bytesRemain : ℤ} (ptr : List UInt8) (pos : 0 < bytesRemain) :
    sendChunks bytesRemain ptr =
      ptr.take (min (chunkSize : ℤ) bytesRemain).toNat ::
        sendChunks (bytesRemain - chunkSize) (ptr.drop chunkSize) := by
  rw [sendChunks, if_pos pos]

theorem sendChunks_of_nonpos {bytesRemain : ℤ} (ptr : List UInt8) (done : bytesRemain ≤ 0) :
    sendChunks bytesRemain ptr = [] := by
  rw [sendChunks, if_neg (not_lt.mpr done)]

/-- The count of the chunk loop runs below zero in its last pass, never before: the chunks spell
the data. -/
theorem sendChunks_flatten {bytesRemain : ℤ} {ptr : List UInt8}
    (counts : (ptr.length : ℤ) = max bytesRemain 0) :
    (sendChunks bytesRemain ptr).flatten = ptr := by
  induction bytesRemain, ptr using sendChunks.induct with
  | case1 bytesRemain ptr pos ih =>
    rw [sendChunks_of_pos ptr pos, List.flatten_cons, ih]
    -- a chunk is what is left, or a whole one of `1 << 16` bytes
    · rw [show (min (chunkSize : ℤ) bytesRemain).toNat = min chunkSize ptr.length by omega,
        ← List.take_eq_take_min, List.take_append_drop]
    · rw [List.length_drop]
      omega
  | case2 bytesRemain ptr done =>
    rw [sendChunks_of_nonpos ptr (not_lt.mp done), List.flatten_nil]
    exact (List.length_eq_zero_iff.mp (by omega)).symm

theorem toInt64_of_fits {n : ℕ} (fits : n ≤ vectorMaxSize) : toInt64 n = n := by
  rw [toInt64, if_pos]
  unfold vectorMaxSize at fits
  omega

/-! ### The fields of the stream -/

/-- The two kinds of field of the stream. -/
inductive FieldKind | header | payload
  deriving DecidableEq, Repr

/-- A field of the stream, or the part of one that a completion carries or leaves. -/
structure Field where
  kind : FieldKind
  bytes : List UInt8
  deriving DecidableEq, Repr

/-- The header and the payload of one message. -/
def messageFields (message : List UInt8) : List Field :=
  [⟨.header, encodeLE sizeofSizeT message.length⟩, ⟨.payload, message⟩]

/-- The fields of a sequence of messages. -/
def fields (messages : List (List UInt8)) : List Field := messages.flatMap messageFields

/-- The bytes of a sequence of fields. -/
def streamOf (todo : List Field) : List UInt8 := (todo.map Field.bytes).flatten

@[simp] theorem fields_nil : fields [] = [] := rfl

@[simp] theorem fields_cons (message : List UInt8) (rest : List (List UInt8)) :
    fields (message :: rest) =
      ⟨.header, encodeLE sizeofSizeT message.length⟩ :: ⟨.payload, message⟩ :: fields rest := rfl

@[simp] theorem streamOf_nil : streamOf [] = [] := rfl

@[simp] theorem streamOf_cons (field : Field) (todo : List Field) :
    streamOf (field :: todo) = field.bytes ++ streamOf todo := rfl

/-- The bytes that successive `Send` calls write. -/
def wire (messages : List ByteVector) : List UInt8 :=
  (messages.flatMap fun message => send message.bytes).flatten

theorem send_flatten (message : ByteVector) :
    (send message.bytes).flatten =
      encodeLE sizeofSizeT message.bytes.length ++ message.bytes := by
  rw [send, List.flatten_cons, toInt64_of_fits message.fits, sendChunks_flatten (by omega)]

/-- The stream is the concatenation of its fields; chunking leaves no trace in it. -/
theorem wire_eq_streamOf (messages : List ByteVector) :
    wire messages = streamOf (fields (messages.map ByteVector.bytes)) := by
  induction messages with
  | nil => rfl
  | cons message rest ih =>
    have later : wire (message :: rest) = (send message.bytes).flatten ++ wire rest := by
      simp [wire]
    rw [later, ih, send_flatten, List.map_cons, fields_cons, streamOf_cons, streamOf_cons,
      List.append_assoc]

/-! ### Cutting the stream into completions -/

/-- The parts of the fields that the next `n` bytes carry, and the fields left after them. An
empty payload behind the last byte is left. -/
def splitFields : List Field → ℕ → List Field × List Field
  | todo, 0 => ([], todo)
  | [], _ + 1 => ([], [])
  | field :: todo, n + 1 =>
    if field.bytes.length ≤ n + 1 then
      let later := splitFields todo (n + 1 - field.bytes.length)
      (field :: later.1, later.2)
    else
      ([⟨field.kind, field.bytes.take (n + 1)⟩], ⟨field.kind, field.bytes.drop (n + 1)⟩ :: todo)

@[simp] theorem splitFields_zero (todo : List Field) : splitFields todo 0 = ([], todo) := by
  cases todo <;> rfl

theorem splitFields_whole {field : Field} {todo : List Field} {n : ℕ} (pos : 0 < n)
    (whole : field.bytes.length ≤ n) :
    splitFields (field :: todo) n =
      (field :: (splitFields todo (n - field.bytes.length)).1,
        (splitFields todo (n - field.bytes.length)).2) := by
  obtain ⟨n, rfl⟩ := Nat.exists_eq_succ_of_ne_zero pos.ne'
  rw [splitFields, if_pos whole]

theorem splitFields_part {field : Field} {todo : List Field} {n : ℕ} (pos : 0 < n)
    (part : n < field.bytes.length) :
    splitFields (field :: todo) n =
      ([⟨field.kind, field.bytes.take n⟩], ⟨field.kind, field.bytes.drop n⟩ :: todo) := by
  obtain ⟨n, rfl⟩ := Nat.exists_eq_succ_of_ne_zero pos.ne'
  rw [splitFields, if_neg (not_le.mpr part)]

/-- The next bytes first carry what they can of the first field. -/
theorem splitFields_cons {field : Field} {todo : List Field} {n : ℕ} (pos : 0 < n) :
    splitFields (field :: todo) n =
      let left := if field.bytes.length ≤ n then todo
        else ⟨field.kind, field.bytes.drop n⟩ :: todo
      let later := splitFields left (n - field.bytes.length)
      (⟨field.kind, field.bytes.take n⟩ :: later.1, later.2) := by
  by_cases whole : field.bytes.length ≤ n
  · simp only [splitFields_whole pos whole, whole, if_true, List.take_of_length_le]
  · simp only [splitFields_part pos (not_le.mp whole), whole, if_false,
      Nat.sub_eq_zero_of_le (not_le.mp whole).le, splitFields_zero]

/-- What is left after a completion are the remaining bytes of the stream. -/
theorem streamOf_splitFields {todo : List Field} {n : ℕ} (within : n ≤ (streamOf todo).length) :
    streamOf (splitFields todo n).2 = (streamOf todo).drop n := by
  induction todo generalizing n with
  | nil =>
    obtain rfl : n = 0 := by simpa using within
    simp
  | cons field todo ih =>
    rcases Nat.eq_zero_or_pos n with rfl | pos
    · simp
    rw [streamOf_cons, List.length_append] at within
    by_cases whole : field.bytes.length ≤ n
    · rw [splitFields_whole pos whole, ih (by omega), streamOf_cons, List.drop_append,
        List.drop_eq_nil_of_le whole, List.nil_append]
    · rw [splitFields_part pos (not_le.mp whole), streamOf_cons, streamOf_cons,
        List.drop_append_of_le_length (by omega)]

theorem length_le_of_mem_splitFields {todo : List Field} {n : ℕ} {piece : Field}
    (member : piece ∈ (splitFields todo n).1) : piece.bytes.length ≤ n := by
  induction todo generalizing n with
  | nil => cases n <;> simp [splitFields] at member
  | cons field todo ih =>
    rcases Nat.eq_zero_or_pos n with rfl | pos
    · simp at member
    by_cases whole : field.bytes.length ≤ n
    · rw [splitFields_whole pos whole] at member
      rcases List.mem_cons.mp member with rfl | later
      · exact whole
      · exact (ih later).trans (Nat.sub_le _ _)
    · rw [splitFields_part pos (not_le.mp whole)] at member
      obtain rfl := List.mem_singleton.mp member
      simp

end Sqwar.Network
