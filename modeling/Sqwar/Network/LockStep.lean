import Sqwar.Network.Framing
import Sqwar.Semantics.Run

/-!
# Flow control between client and session

The client writes a header or a chunk and then makes one `read_some` of at most eight bytes; the
session answers every read completion with eight bytes. Both ends and the two byte streams
between them form a transition system. Stop-and-wait holds in every run in which, while the
client still has something to write, a completion takes all the bytes in flight and a `read_some`
takes the whole response, and in no other run: neither end checks how much it got.
-/

set_option autoImplicit false

namespace Sqwar.Network

open Data Semantics

/-- The field a byte of the stream belongs to: which `Send` call, header or payload. -/
structure Origin where
  message : ℕ
  kind : FieldKind
  deriving DecidableEq, Repr

/-- One `asio::write` of the client. -/
structure Write where
  origin : Origin
  bytes : List UInt8
  deriving DecidableEq, Repr

/-- The bytes of a write as they travel, each with its origin. -/
def Write.tagged (write : Write) : List (Origin × UInt8) :=
  write.bytes.map fun byte => (write.origin, byte)

/-- The writes of one `TcpClient::Send` call. -/
def sendWrites (index : ℕ) (message : ByteVector) : List Write :=
  ⟨⟨index, .header⟩, encodeLE sizeofSizeT message.bytes.length⟩ ::
    (sendChunks (toInt64 message.bytes.length) message.bytes).map fun chunk =>
      ⟨⟨index, .payload⟩, chunk⟩

/-- The writes of successive `Send` calls, the first of which has the given index. -/
def clientWrites : ℕ → List ByteVector → List Write
  | _, [] => []
  | index, message :: rest => sendWrites index message ++ clientWrites (index + 1) rest

/-- Client, session and the two byte streams between them. -/
structure Link where
  /-- the writes the client has still to make -/
  toWrite : List Write
  /-- the client is blocked in `read_some` -/
  reading : Bool
  requests : List (Origin × UInt8)
  responses : List UInt8
  /-- what the read completions of the session carried so far -/
  completions : List (List (Origin × UInt8))
  deriving DecidableEq, Repr

/-- What can happen next on a link. -/
inductive Action
  | write
  | readSome (n : ℕ)
  | complete (n : ℕ)
  deriving DecidableEq, Repr

/-- The eight bytes of `send_response(1)`. -/
def response : List UInt8 := encodeLE sizeofSizeT 1

/-- The link before the first `Send`. -/
def Link.start (sent : List ByteVector) : Link := ⟨clientWrites 0 sent, false, [], [], []⟩

def Link.write (link : Link) : Option Link :=
  match link.reading, link.toWrite with
  -- the client does not write again before `read_some` has returned
  | false, next :: later =>
    some { link with toWrite := later, reading := true, requests := link.requests ++ next.tagged }
  | _, _ => none

/-- `read_some` returns 1 to 8 of the response bytes that have arrived. -/
def Link.readSome (link : Link) (n : ℕ) : Option Link :=
  if link.reading ∧ 0 < n ∧ n ≤ sizeofSizeT ∧ n ≤ link.responses.length then
    some { link with reading := false, responses := link.responses.drop n }
  else none

/-- A read completion takes a non-empty prefix of the bytes in flight; the session answers. -/
def Link.complete (link : Link) (n : ℕ) : Option Link :=
  if 0 < n ∧ n ≤ maxLength ∧ n ≤ link.requests.length then
    some { link with
      requests := link.requests.drop n
      responses := link.responses ++ response
      completions := link.completions ++ [link.requests.take n] }
  else none

/-- One step of the link. -/
def Link.step (link : Link) : Action → Option Link
  | .write => link.write
  | .readSome n => link.readSome n
  | .complete n => link.complete n

/-- All bytes belong to one field. -/
def SingleField (bytes : List (Origin × UInt8)) : Prop :=
  ∃ origin, ∀ tagged ∈ bytes, tagged.1 = origin

/-- Stop-and-wait: when the client is about to write, both streams are empty, and no completion
ever mixed two fields. -/
structure Link.LockStep (link : Link) : Prop where
  quiet : link.reading = false → link.toWrite ≠ [] → link.requests = [] ∧ link.responses = []
  unmixed : ∀ completion ∈ link.completions, SingleField completion

/-- While the client has something left to write, a read takes everything that is in flight. -/
def Link.TakesAll (link : Link) (action : Action) : Prop :=
  link.toWrite ≠ [] →
    match action with
    | .write => True
    | .readSome n => n = link.responses.length
    | .complete n => n = link.requests.length

instance (link : Link) (action : Action) : Decidable (link.TakesAll action) :=
  match action with
  | .write => inferInstanceAs (Decidable (_ → True))
  | .readSome n => inferInstanceAs (Decidable (_ → n = link.responses.length))
  | .complete n => inferInstanceAs (Decidable (_ → n = link.requests.length))

/-! ### What a step does -/

variable {link link' : Link} {n : ℕ}

theorem Link.write_eq_some_iff :
    link.write = some link' ↔ link.reading = false ∧ ∃ next later, link.toWrite = next :: later ∧
      link' = { link with
        toWrite := later, reading := true, requests := link.requests ++ next.tagged } := by
  cases reading : link.reading <;> cases writes : link.toWrite <;>
    simp [Link.write, reading, writes, eq_comm]

theorem Link.readSome_eq_some_iff :
    link.readSome n = some link' ↔
      (link.reading ∧ 0 < n ∧ n ≤ sizeofSizeT ∧ n ≤ link.responses.length) ∧
        link' = { link with reading := false, responses := link.responses.drop n } := by
  rw [Link.readSome, Option.ite_none_right_eq_some, Option.some_inj, eq_comm (a := link')]

theorem Link.complete_eq_some_iff :
    link.complete n = some link' ↔
      (0 < n ∧ n ≤ maxLength ∧ n ≤ link.requests.length) ∧
        link' = { link with
          requests := link.requests.drop n
          responses := link.responses ++ response
          completions := link.completions ++ [link.requests.take n] } := by
  rw [Link.complete, Option.ite_none_right_eq_some, Option.some_inj, eq_comm (a := link')]

theorem Write.singleField (write : Write) : SingleField write.tagged :=
  ⟨write.origin, by simp [Write.tagged]⟩

theorem SingleField.of_sublist {bytes part : List (Origin × UInt8)} (single : SingleField bytes)
    (sub : part.Sublist bytes) : SingleField part :=
  single.imp fun _ same _ member => same _ (sub.subset member)

/-! ### Stop-and-wait under full reads -/

/-- Between two writes: either nothing is in flight, or the client waits for the one write in
flight, or for the one response to it. -/
structure Link.Stepping (link : Link) : Prop where
  unmixed : ∀ completion ∈ link.completions, SingleField completion
  inFlight : SingleField link.requests
  idle : link.toWrite ≠ [] → link.reading = false → link.requests = [] ∧ link.responses = []
  waiting : link.toWrite ≠ [] → link.reading = true →
    link.responses = [] ∨ link.requests = []

theorem Link.stepping_start (sent : List ByteVector) : (Link.start sent).Stepping :=
  ⟨by simp [Link.start], ⟨⟨0, .header⟩, by simp [Link.start]⟩, fun _ _ => ⟨rfl, rfl⟩,
    by simp [Link.start]⟩

/-- **Step lemma.** A step that takes all it can keeps the two ends in step. -/
theorem Link.Stepping.step {action : Action} (stepping : link.Stepping)
    (full : link.TakesAll action) (steps : link.step action = some link') : link'.Stepping := by
  cases action with
  | write =>
    obtain ⟨idle, next, later, writes, rfl⟩ := Link.write_eq_some_iff.mp steps
    obtain ⟨requests, responses⟩ := stepping.idle (by simp [writes]) idle
    refine ⟨stepping.unmixed, ?_, by simp, fun _ _ => .inl responses⟩
    rw [requests, List.nil_append]
    exact next.singleField
  | readSome n =>
    obtain ⟨⟨reading, pos, -, within⟩, rfl⟩ := Link.readSome_eq_some_iff.mp steps
    refine ⟨stepping.unmixed, stepping.inFlight, fun writes _ => ?_, by simp⟩
    have all : n = link.responses.length := full writes
    rcases stepping.waiting writes reading with none | requests
    · simp [none] at within
      omega
    · exact ⟨requests, by simp [all]⟩
  | complete n =>
    obtain ⟨⟨pos, -, within⟩, rfl⟩ := Link.complete_eq_some_iff.mp steps
    refine ⟨?_, stepping.inFlight.of_sublist (List.drop_sublist _ _), fun writes idle => ?_,
      fun writes _ => .inr ?_⟩
    · intro completion member
      rcases List.mem_append.mp member with earlier | last
      · exact stepping.unmixed _ earlier
      · obtain rfl := List.mem_singleton.mp last
        exact stepping.inFlight.of_sublist (List.take_sublist _ _)
    -- An idle client has nothing in flight to complete.
    · have requests : link.requests = [] := (stepping.idle writes idle).1
      simp [requests] at within
      omega
    · have all : n = link.requests.length := full writes
      simp [all]

theorem Link.Stepping.lockStep (stepping : link.Stepping) : link.LockStep :=
  ⟨fun idle writes => stepping.idle writes idle, stepping.unmixed⟩

/-- **Stop-and-wait holds under full reads.** In every run in which, as long as the client has
something left to write, each completion takes all the bytes in flight and each `read_some` the
whole response, every state reached is in lock step. -/
theorem lockStep_of_takesAll (sent : List ByteVector) (actions : List Action) (link : Link)
    (full : Along Link.step Link.TakesAll (Link.start sent) actions)
    (runs : run Link.step (Link.start sent) actions = some link) : link.LockStep := by
  have stepping : link.Stepping := run_invariant Link.Stepping
    (fun _ _ _ stepping full steps => stepping.step full steps) (Link.stepping_start sent) full runs
  exact stepping.lockStep

theorem clientWrites_byteMessage (byte : UInt8) :
    clientWrites 0 [byteMessage byte] =
      [⟨⟨0, .header⟩, encodeLE sizeofSizeT 1⟩, ⟨⟨0, .payload⟩, [byte]⟩] := by
  have chunks : sendChunks 1 [byte] = [[byte]] := by
    rw [sendChunks_of_pos _ (by decide), sendChunks_of_nonpos _ (by decide)]
    rfl
  simp only [clientWrites, sendWrites, byteMessage, List.length_singleton, List.append_nil]
  rw [toInt64_of_fits (by decide), Nat.cast_one, chunks]
  rfl

/-- A header read whole and a response read whole: the client is about to write its chunk, and
nothing is in flight. -/
theorem lockStep_after_header :
    ∃ link, run Link.step (Link.start [byteMessage 7]) [.write, .complete 8, .readSome 8] =
      some link ∧ link.toWrite ≠ [] ∧ link.LockStep := by
  have runs : run Link.step (Link.start [byteMessage 7]) [.write, .complete 8, .readSome 8] =
      some ⟨[⟨⟨0, .payload⟩, [7]⟩], false, [], [],
        [(Write.mk ⟨0, .header⟩ (encodeLE sizeofSizeT 1)).tagged]⟩ := by
    rw [Link.start, clientWrites_byteMessage]
    decide
  refine ⟨_, runs, by decide, lockStep_of_takesAll [byteMessage 7] _ _ ?_ runs⟩
  rw [Link.start, clientWrites_byteMessage]
  decide

/-- Half a header suffices for a response: the client is about to write its chunk while the other
half is still in flight, and the next completion mixes the two fields. -/
theorem not_lockStep_after_split_header :
    ∃ link link', run Link.step (Link.start [byteMessage 7]) [.write, .complete 4, .readSome 8] =
        some link ∧ ¬ link.LockStep ∧
      run Link.step link [.write, .complete 5] = some link' ∧
        ∃ completion ∈ link'.completions, ¬ SingleField completion := by
  have runs : run Link.step (Link.start [byteMessage 7]) [.write, .complete 4, .readSome 8] =
      some ⟨[⟨⟨0, .payload⟩, [7]⟩], false, List.replicate 4 (⟨0, .header⟩, 0), [],
        [(Write.mk ⟨0, .header⟩ [1, 0, 0, 0]).tagged]⟩ := by
    rw [Link.start, clientWrites_byteMessage]
    decide
  refine ⟨_, _, runs, fun h => absurd (h.quiet rfl (by decide)).1 (by decide), rfl,
    List.replicate 4 (⟨0, .header⟩, 0) ++ [(⟨0, .payload⟩, 7)], by decide, ?_⟩
  rintro ⟨origin, same⟩
  have header := same (⟨0, .header⟩, 0) (by decide)
  have payload := same (⟨0, .payload⟩, 7) (by decide)
  simp [← header] at payload

/-! ### Nothing else keeps stop-and-wait

A read that leaves bytes behind leaves them for good: until the client writes again, bytes stay
in flight or more than one response waits for it. -/

/-- More is in flight than the client's next `read_some` can clear. -/
def Link.Spoiled (link : Link) : Prop :=
  link.toWrite ≠ [] ∧
    if link.reading then
      (link.requests ≠ [] ∧ link.responses ≠ []) ∨ sizeofSizeT < link.responses.length
    else link.requests ≠ [] ∨ link.responses ≠ []

theorem response_ne_nil (responses : List UInt8) : responses ++ response ≠ [] := by
  simp [response, encodeLE, sizeofSizeT]

theorem Link.spoiled_of_not_takesAll {action : Action} (partly : ¬ link.TakesAll action)
    (steps : link.step action = some link') : link'.Spoiled := by
  cases action with
  | write => simp [Link.TakesAll] at partly
  | readSome n =>
    obtain ⟨⟨reading, pos, -, within⟩, rfl⟩ := Link.readSome_eq_some_iff.mp steps
    obtain ⟨writes, less⟩ : link.toWrite ≠ [] ∧ n ≠ link.responses.length :=
      Classical.not_imp.mp partly
    refine ⟨writes, ?_⟩
    simp only [Bool.false_eq_true, if_false]
    right
    simp only [ne_eq, List.drop_eq_nil_iff]
    omega
  | complete n =>
    obtain ⟨⟨pos, -, within⟩, rfl⟩ := Link.complete_eq_some_iff.mp steps
    obtain ⟨writes, less⟩ : link.toWrite ≠ [] ∧ n ≠ link.requests.length :=
      Classical.not_imp.mp partly
    have left : link.requests.drop n ≠ [] := by
      simp only [ne_eq, List.drop_eq_nil_iff]
      omega
    refine ⟨writes, ?_⟩
    split_ifs
    · exact .inl ⟨left, response_ne_nil _⟩
    · exact .inl left

theorem Link.Spoiled.step {action : Action} (spoiled : link.Spoiled) (lockStep : link.LockStep)
    (steps : link.step action = some link') : link'.Spoiled := by
  obtain ⟨writes, inFlight⟩ := spoiled
  cases action with
  | write =>
    obtain ⟨idle, -⟩ := Link.write_eq_some_iff.mp steps
    obtain ⟨requests, responses⟩ := lockStep.quiet idle writes
    simp [idle, requests, responses] at inFlight
  | readSome n =>
    obtain ⟨⟨reading, pos, atMost, within⟩, rfl⟩ := Link.readSome_eq_some_iff.mp steps
    refine ⟨writes, ?_⟩
    simp only [Bool.false_eq_true, if_false]
    rw [if_pos reading] at inFlight
    rcases inFlight with ⟨requests, -⟩ | more
    · exact .inl requests
    · right
      simp only [ne_eq, List.drop_eq_nil_iff]
      omega
  | complete n =>
    obtain ⟨-, rfl⟩ := Link.complete_eq_some_iff.mp steps
    refine ⟨writes, ?_⟩
    dsimp only
    split_ifs with reading
    · rw [if_pos reading] at inFlight
      right
      rw [List.length_append, response, encodeLE_length]
      -- One more response joins those that are there, so eight bytes no longer clear them.
      have some : 0 < link.responses.length := by
        rcases inFlight with ⟨-, responses⟩ | more
        · exact List.length_pos_iff.mpr responses
        · omega
      omega
    · exact .inr (response_ne_nil _)

/-- A run that ends where the client is about to write was in lock step throughout if and only
if every read took all it could. -/
theorem along_takesAll_iff_lockStep {sent : List ByteVector} {actions : List Action}
    (runs : run Link.step (Link.start sent) actions = some link)
    (idle : link.reading = false) (writes : link.toWrite ≠ []) :
    Along Link.step Link.TakesAll (Link.start sent) actions ↔
      Along Link.step (fun link _ => link.LockStep) (Link.start sent) actions ∧
        link.LockStep := by
  constructor
  · intro full
    have keeps : ∀ (s : Link) a s', s.Stepping → s.TakesAll a → s.step a = some s' →
        s'.Stepping := fun _ _ _ stepping full steps => stepping.step full steps
    have start := Link.stepping_start sent
    exact ⟨(along_invariant Link.Stepping keeps start full).mono fun _ _ h => h.lockStep,
      (run_invariant Link.Stepping keeps start full runs).lockStep⟩
  · rintro ⟨along, last⟩
    -- The state reached is in lock step, so nothing was left behind before it.
    have clean : ¬ link.Spoiled := by
      rintro ⟨-, inFlight⟩
      obtain ⟨requests, responses⟩ := last.quiet idle writes
      simp [idle, requests, responses] at inFlight
    generalize Link.start sent = first at along runs
    induction actions generalizing first with
    | nil => trivial
    | cons action actions ih =>
      obtain ⟨next, steps, rest⟩ := run_cons_eq_some.mp runs
      have later := along.2 next steps
      refine ⟨?_, fun next' steps' => ?_⟩
      · by_contra partly
        exact clean (run_invariant Link.Spoiled
          (fun _ _ _ spoiled lockStep steps => spoiled.step lockStep steps)
          (Link.spoiled_of_not_takesAll partly steps) later rest)
      · obtain rfl : next = next' := by simpa [steps] using steps'
        exact ih next later rest

end Sqwar.Network
