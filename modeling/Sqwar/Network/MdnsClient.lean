import Sqwar.Network.MdnsQuestions

/-!
# The client's query

`send_mdns_query` asks its question on each of its sockets and takes what comes, packet by packet,
in one buffer. It does what it would do with the records that the packets have.
-/

set_option autoImplicit false

namespace Sqwar.Network

open Data Semantics

/-- The sockets of a query: the port of each, and whether its question can be sent. -/
structure Sockets where
  numSockets : ℤ
  port : ℕ → Option ℕ
  reaches : ℕ → Bool
  fits : numSockets ≤ 32

/-- What the questions leave: the buffer, `query_id`, and the packets that have been sent. -/
structure Questions where
  buffer : List UInt8
  queryId : List ℤ
  sent : List (List UInt8)

/-- A question on a socket. -/
def Questions.send (record : ℕ) (service : List UInt8) (sockets : Sockets) (questions : Questions)
    (isock : ℕ) : Except Fault Questions :=
  match mdnsQuerySend record service questions.buffer 0 (sockets.port isock) with
  | .ok w => do
    let bytes ← bytesAt w.buffer 0 w.data
    if sockets.reaches isock then
      return ⟨w.buffer, questions.queryId ++ [0], questions.sent ++ [bytes]⟩
    else return ⟨w.buffer, questions.queryId ++ [-1], questions.sent⟩
  | .error (.null buffer) => .ok ⟨buffer, questions.queryId ++ [-1], questions.sent⟩
  | .error (.fault fault) => .error fault

/-- The loop that asks. -/
def sendQueries (record : ℕ) (service : List UInt8) (sockets : Sockets) (buffer : List UInt8) :
    Except Fault Questions :=
  (List.range sockets.numSockets.toNat).foldlM (Questions.send record service sockets)
    ⟨buffer, [], []⟩

/-- The buffer and the addresses while packets are received. -/
structure Receiving where
  buffer : List UInt8
  poutip : IpaddrArray

/-- `mdns_query_recv` of a datagram. What does not fit into the buffer is cut off. -/
def Receiving.recv (onlyQueryId : ℤ) (receiving : Receiving) (datagram : List UInt8) :
    Except Fault Receiving := do
  let bytes := datagram.take receiving.buffer.length
  let buffer := overwrite receiving.buffer 0 bytes
  let (_, poutip) ← mdnsQueryRecvPacket buffer bytes.length (ipaddrCallback buffer bytes.length)
    receiving.poutip onlyQueryId
  return ⟨buffer, poutip⟩

/-- The loop over the sockets after `select`. -/
def Receiving.recvAll (numSockets : ℕ) (queryId : List ℤ) (receiving : Receiving)
    (readfs : ℕ → Option (List UInt8)) : Except Fault Receiving :=
  (List.range numSockets).foldlM (fun receiving isock =>
    match readfs isock with
    | none => .ok receiving
    | some datagram => receiving.recv (queryId.getD isock 0) datagram) receiving

/-- `send_mdns_query`, with what has been sent. -/
def sendMdnsQueryOn (service : List UInt8) (record : ℕ) (sockets : Sockets) (buffer : List UInt8)
    (replies : List (ℕ → Option (List UInt8))) (poutip : IpaddrArray) :
    Except Fault (ℤ × List (List UInt8) × IpaddrArray) :=
  if sockets.numSockets ≤ 0 then .ok (-1, [], poutip)
  else do
    let poutip := { poutip with count := 0 }
    let record :=
      if record ∈ [mdnsRecordtypeSrv, mdnsRecordtypeA, mdnsRecordtypeAaaa] then record
      else mdnsRecordtypePtr
    let questions ← sendQueries record service sockets buffer
    let receiving ← replies.foldlM (Receiving.recvAll sockets.numSockets.toNat questions.queryId)
      ⟨questions.buffer, poutip⟩
    return (0, questions.sent, receiving.poutip)

/-- `Client::Client`: the questions that it sends, and the address that it connects to. -/
def newClientOn (ipv4AddressToString : SockaddrIn → String) (sockets : Sockets)
    (buffer : List UInt8) (replies : List (ℕ → Option (List UInt8))) (iparray : IpaddrArray) :
    Except Fault (List (List UInt8) × Option String) := do
  let (_, sent, iparray) ← sendMdnsQueryOn sqWar mdnsRecordtypePtr sockets buffer replies iparray
  if iparray.count > 0 then
    let ipaddr ← (List.range iparray.count.toNat).foldlM (fun _ (idx : ℕ) => do
      let addr ← iparray.load idx
      return some (ipv4AddressToString addr)) none
    return (sent, ipaddr)
  else return (sent, none)

/-! ### Packets and their records -/

/-- The records of a packet are so, whatever is behind it where it is received. -/
def HasRecords (p : List Record → Prop) (bytes : List UInt8) : Prop :=
  ∀ rest, 12 ≤ (bytes ++ rest).length → ∀ onlyQueryId ≤ 0, ∃ records, p records ∧ ∀ parr,
    mdnsQueryRecvPacket (bytes ++ rest) bytes.length (ipaddrCallback (bytes ++ rest) bytes.length)
      parr onlyQueryId = mdnsQueryRecv getIpaddrCallback records parr

variable {β : Type} {p : List Record → Prop} {buffer datagram : List UInt8} {onlyQueryId : ℤ}

/-- Whatever it is, a packet has records. -/
theorem hasRecords (bytes : List UInt8) : HasRecords (fun _ => True) bytes := by
  intro rest header onlyQueryId _
  have fits : bytes.length ≤ (bytes ++ rest).length := by simp
  obtain ⟨entries, stop, -, run⟩ := mdnsQueryRecvPacket_eq fits header onlyQueryId
  exact ⟨_, trivial, run⟩

/-- **Step lemma.** A datagram. -/
theorem recv_eq (has : HasRecords p (datagram.take buffer.length)) (header : 12 ≤ buffer.length)
    (all : onlyQueryId ≤ 0) :
    ∃ buffer' records, buffer'.length = buffer.length ∧ p records ∧ ∀ poutip,
      Receiving.recv onlyQueryId ⟨buffer, poutip⟩ datagram =
        (fun result => ⟨buffer', result.2⟩) <$> mdnsQueryRecv getIpaddrCallback records poutip := by
  have within : (datagram.take buffer.length).length ≤ buffer.length := List.length_take_le _ _
  have length := overwrite_length buffer (datagram.take buffer.length)
    ((Nat.zero_add _).trans_le within)
  have front : overwrite buffer 0 (datagram.take buffer.length) =
      datagram.take buffer.length ++ buffer.drop (datagram.take buffer.length).length :=
    overwrite_zero _ _
  obtain ⟨records, holds, run⟩ := has _ (front ▸ header.trans_eq length.symm) onlyQueryId all
  refine ⟨_, records, length, holds, fun poutip => ?_⟩
  rw [Receiving.recv, front]
  simp only [run]
  cases mdnsQueryRecv getIpaddrCallback records poutip <;> rfl

theorem recvAll_succ (numSockets : ℕ) (poutip : IpaddrArray)
    (reply : ℕ → Option (List Record)) :
    recvAll (numSockets + 1) poutip reply = (do
      let poutip ← recvAll numSockets poutip reply
      match reply numSockets with
      | none => .ok poutip
      | some records => Prod.snd <$> mdnsQueryRecv getIpaddrCallback records poutip) := by
  rw [recvAll, List.range_succ, List.foldlM_append]
  simp only [List.foldlM_cons, List.foldlM_nil, bind_pure]
  rfl

theorem recvAll_congr {numSockets : ℕ} {reply reply' : ℕ → Option (List Record)}
    (same : ∀ isock < numSockets, reply isock = reply' isock) (poutip : IpaddrArray) :
    recvAll numSockets poutip reply = recvAll numSockets poutip reply' := by
  induction numSockets with
  | zero => rfl
  | succ numSockets ih =>
    rw [recvAll_succ, recvAll_succ, same _ (Nat.lt_succ_self _),
      ih fun isock less => same isock (Nat.lt_succ_of_lt less)]

/-- A round with one more socket. -/
theorem recvAll_update (numSockets : ℕ) (poutip : IpaddrArray) (reply : ℕ → Option (List Record))
    (last : Option (List Record)) :
    recvAll (numSockets + 1) poutip (Function.update reply numSockets last) = (do
      let poutip ← recvAll numSockets poutip reply
      match last with
      | none => .ok poutip
      | some records => Prod.snd <$> mdnsQueryRecv getIpaddrCallback records poutip) := by
  have same : recvAll numSockets poutip (Function.update reply numSockets last) =
      recvAll numSockets poutip reply :=
    recvAll_congr (fun isock less => Function.update_of_ne less.ne _ _) poutip
  rw [recvAll_succ, Function.update_self, same]

theorem Receiving.recvAll_succ (numSockets : ℕ) (queryId : List ℤ) (receiving : Receiving)
    (readfs : ℕ → Option (List UInt8)) :
    receiving.recvAll (numSockets + 1) queryId readfs = (do
      let receiving ← receiving.recvAll numSockets queryId readfs
      match readfs numSockets with
      | none => .ok receiving
      | some datagram => receiving.recv (queryId.getD numSockets 0) datagram) := by
  rw [recvAll, List.range_succ, List.foldlM_append]
  simp only [List.foldlM_cons, List.foldlM_nil, bind_pure]
  rfl

/-- **Run lemma.** The datagrams of a round. -/
theorem recvAll_eq {P : β → List Record → Prop} {bytes : β → List UInt8} {readfs : ℕ → Option β}
    {queryId : List ℤ} {numSockets : ℕ} (all : ∀ isock, queryId.getD isock 0 ≤ 0)
    (header : 12 ≤ buffer.length) (has : ∀ isock < numSockets, ∀ b, readfs isock = some b →
      HasRecords (P b) ((bytes b).take buffer.length)) :
    ∃ (buffer' : List UInt8) (reply : ℕ → Option (List Record)), buffer'.length = buffer.length ∧
      (∀ isock < numSockets, Option.Rel P (readfs isock) (reply isock)) ∧ ∀ poutip,
        Receiving.recvAll numSockets queryId ⟨buffer, poutip⟩
          (fun isock => (readfs isock).map bytes) =
          Receiving.mk buffer' <$> recvAll numSockets poutip reply := by
  induction numSockets with
  | zero => exact ⟨buffer, fun _ => none, rfl, by simp, fun _ => rfl⟩
  | succ numSockets ih =>
    obtain ⟨buffer', reply, length, rel, run⟩ :=
      ih fun isock less => has isock (Nat.lt_succ_of_lt less)
    cases delivered : readfs numSockets with
    | none =>
      refine ⟨buffer', Function.update reply numSockets none, length, fun isock less => ?_,
        fun poutip => ?_⟩
      · rcases Nat.lt_succ_iff_lt_or_eq.mp less with before | rfl
        · rw [Function.update_of_ne before.ne]
          exact rel isock before
        · rw [Function.update_self, delivered]
          exact .none
      · rw [Receiving.recvAll_succ, recvAll_update, run, delivered]
        cases recvAll numSockets poutip reply <;> rfl
    | some b =>
      have has' := has numSockets (Nat.lt_succ_self _) b delivered
      rw [← length] at has'
      obtain ⟨buffer'', records, length', holds, run'⟩ :=
        recv_eq has' (length ▸ header) (all numSockets)
      refine ⟨buffer'', Function.update reply numSockets (some records), length'.trans length,
        fun isock less => ?_, fun poutip => ?_⟩
      · rcases Nat.lt_succ_iff_lt_or_eq.mp less with before | rfl
        · rw [Function.update_of_ne before.ne]
          exact rel isock before
        · rw [Function.update_self, delivered]
          exact .some holds
      · rw [Receiving.recvAll_succ, recvAll_update, run, delivered]
        cases recvAll numSockets poutip reply with
        | error fault => rfl
        | ok poutip =>
          change Receiving.recv _ ⟨buffer', poutip⟩ (bytes b) = _
          rw [run']
          simp only [bind, Except.bind]
          cases mdnsQueryRecv getIpaddrCallback records poutip <;> rfl

/-- **Run lemma.** All the datagrams of a query. -/
theorem recvs_eq {P : β → List Record → Prop} {bytes : β → List UInt8} {queryId : List ℤ}
    {numSockets : ℕ} (all : ∀ isock, queryId.getD isock 0 ≤ 0) (header : 12 ≤ buffer.length)
    {rounds : List (ℕ → Option β)} (has : ∀ round ∈ rounds, ∀ isock < numSockets, ∀ b,
      round isock = some b → HasRecords (P b) ((bytes b).take buffer.length)) :
    ∃ buffer' replies, List.Forall₂ (fun round reply => ∀ isock < numSockets,
        Option.Rel P (round isock) (reply isock)) rounds replies ∧ ∀ poutip,
      (rounds.map fun round isock => (round isock).map bytes).foldlM
        (Receiving.recvAll numSockets queryId) ⟨buffer, poutip⟩ =
        Receiving.mk buffer' <$> replies.foldlM (recvAll numSockets) poutip := by
  induction rounds generalizing buffer with
  | nil => exact ⟨buffer, [], .nil, fun _ => rfl⟩
  | cons round rounds ih =>
    obtain ⟨buffer₁, reply, length, rel, run⟩ :=
      recvAll_eq all header (has round (List.mem_cons_self ..))
    obtain ⟨buffer₂, replies, rels, runs⟩ := ih (length ▸ header) fun round member =>
      length ▸ has round (List.mem_cons_of_mem _ member)
    refine ⟨buffer₂, reply :: replies, .cons rel rels, fun poutip => ?_⟩
    rw [List.map_cons, List.foldlM_cons, run, List.foldlM_cons]
    cases recvAll numSockets poutip reply with
    | error fault => rfl
    | ok poutip => exact runs poutip

/-! ### The questions of a client -/

/-- The questions of a query: each asks this, and no answer is turned away. -/
structure Questions.Ask (service : List UInt8) (record size : ℕ) (questions : Questions) :
    Prop where
  length : questions.buffer.length = size
  all : ∀ id ∈ questions.queryId, id ≤ 0
  sent : ∀ bytes ∈ questions.sent, bytes.length ≤ service.length + 18 ∧
    ∃ port, Asks service 0 record (questionClass port) bytes

theorem Questions.Ask.getD {service : List UInt8} {record size : ℕ} {questions : Questions}
    (h : questions.Ask service record size) (isock : ℕ) : questions.queryId.getD isock 0 ≤ 0 := by
  rw [List.getD_eq_getElem?_getD]
  cases id : questions.queryId[isock]? with
  | none => exact le_rfl
  | some id => exact h.all _ (List.mem_of_getElem? ‹_›)

/-- **Step lemma.** A question on a socket. -/
theorem ask_send {service : List UInt8} {ls : List (List UInt8)} {record : ℕ}
    (isName : IsName service ls) (few : ls.length ≤ 64) (readable : (dotted ls).length ≤ 256)
    (room : service.length + 18 ≤ buffer.length) (small : buffer.length ≤ 0x4000)
    (shortType : record < 65536) {questions : Questions}
    (ask : questions.Ask service record buffer.length) (sockets : Sockets) (isock : ℕ) :
    ∃ questions', questions.send record service sockets isock = .ok questions' ∧
      questions'.Ask service record buffer.length ∧
      questions'.sent.length = questions.sent.length + if sockets.reaches isock then 1 else 0 := by
  obtain ⟨w, sent, inside, length, short, asks⟩ := asks_of_mdnsQuerySend isName few readable
    (room.trans_eq ask.length.symm) (ask.length.trans_le small) shortType (by decide : 0 < 65536)
    (sockets.port isock)
  have front : bytesAt w.buffer 0 w.data = .ok (w.buffer.take w.data) :=
    bytesAt_of_le ((Nat.zero_add _).trans_le inside)
  rw [Questions.send, sent]
  simp only [front, bind, Except.bind]
  have all : ∀ id ∈ questions.queryId ++ [0], id ≤ 0 :=
    List.forall_mem_append.mpr ⟨ask.all, by simp⟩
  have all' : ∀ id ∈ questions.queryId ++ [-1], id ≤ 0 :=
    List.forall_mem_append.mpr ⟨ask.all, by simp⟩
  split_ifs
  · refine ⟨_, rfl, ⟨length.trans ask.length, all, List.forall_mem_append.mpr ⟨ask.sent, ?_⟩⟩,
      List.length_append⟩
    rintro bytes (_ | ⟨_, ⟨⟩⟩)
    exact ⟨(List.length_take_le _ _).trans short, _, asks⟩
  · exact ⟨_, rfl, ⟨length.trans ask.length, all', ask.sent⟩, rfl⟩

/-- **Run lemma.** The questions on all sockets. -/
theorem ask_sendQueries {service : List UInt8} {ls : List (List UInt8)} {record : ℕ}
    (isName : IsName service ls) (few : ls.length ≤ 64) (readable : (dotted ls).length ≤ 256)
    (room : service.length + 18 ≤ buffer.length) (small : buffer.length ≤ 0x4000)
    (shortType : record < 65536) (sockets : Sockets) :
    ∃ questions, sendQueries record service sockets buffer = .ok questions ∧
      questions.Ask service record buffer.length ∧
      questions.sent.length = (List.range sockets.numSockets.toNat).countP sockets.reaches := by
  rw [sendQueries]
  induction sockets.numSockets.toNat with
  | zero => exact ⟨_, rfl, ⟨rfl, by simp, by simp⟩, rfl⟩
  | succ numSockets ih =>
    obtain ⟨questions, run, ask, count⟩ := ih
    obtain ⟨questions', sent, ask', count'⟩ := ask_send isName few readable room small shortType ask
      sockets numSockets
    refine ⟨questions', ?_, ask', ?_⟩
    · rw [List.range_succ, List.foldlM_append, run]
      simp only [bind, Except.bind, List.foldlM_cons, List.foldlM_nil, sent]
      rfl
    · rw [count', count, List.range_succ, List.countP_append, List.countP_singleton]

/-! ### The client and its records -/

/-- **The client on packets** is the client on the records of these packets. -/
theorem newClientOn_eq (ipv4AddressToString : SockaddrIn → String) {P : β → List Record → Prop}
    {bytes : β → List UInt8} (big : 23 ≤ buffer.length) (small : buffer.length ≤ 0x4000)
    (sockets : Sockets) {rounds : List (ℕ → Option β)}
    (has : ∀ round ∈ rounds, ∀ isock < sockets.numSockets.toNat, ∀ b, round isock = some b →
      HasRecords (P b) ((bytes b).take buffer.length)) :
    ∃ questions query, sendQueries mdnsRecordtypePtr sqWar sockets buffer = .ok questions ∧
      questions.Ask sqWar mdnsRecordtypePtr buffer.length ∧
      questions.sent.length = (List.range sockets.numSockets.toNat).countP sockets.reaches ∧
      query.numSockets = sockets.numSockets ∧
      List.Forall₂ (fun round reply => ∀ isock < sockets.numSockets.toNat,
        Option.Rel P (round isock) (reply isock)) rounds query.replies ∧
      ∀ iparray, newClientOn ipv4AddressToString sockets buffer
          (rounds.map fun round isock => (round isock).map bytes) iparray =
        (fun ipaddr => (questions.sent, ipaddr)) <$>
          newClient ipv4AddressToString query iparray := by
  obtain ⟨questions, asked, ask, count⟩ :=
    ask_sendQueries isName_sqWar (by decide) (by decide) big small
    (by decide : mdnsRecordtypePtr < 65536) sockets
  obtain ⟨buffer', replies, rels, run⟩ := recvs_eq ask.getD
    ((by decide : 12 ≤ 23).trans (big.trans_eq ask.length.symm))
    (fun round member => ask.length.symm ▸ has round member)
  refine ⟨questions, ⟨sockets.numSockets, replies, sockets.fits⟩, asked, ask, count, rfl, rels,
    fun iparray => ?_⟩
  have query : sendMdnsQueryOn sqWar mdnsRecordtypePtr sockets buffer
      (rounds.map fun round isock => (round isock).map bytes) iparray =
      (fun result => (result.1, questions.sent, result.2)) <$>
        sendMdnsQuery ⟨sockets.numSockets, replies, sockets.fits⟩ iparray := by
    rw [sendMdnsQueryOn, sendMdnsQuery]
    by_cases closed : sockets.numSockets ≤ 0
    · have none : sockets.numSockets.toNat = 0 := Int.toNat_of_nonpos closed
      rw [sendQueries, none] at asked
      cases asked
      rw [if_pos closed, if_pos closed]
      rfl
    · rw [if_neg closed, if_neg closed, if_neg (by decide)]
      simp only [asked, bind, Except.bind, run]
      cases replies.foldlM (recvAll sockets.numSockets.toNat) { iparray with count := 0 } <;> rfl
  rw [newClientOn, query, newClient]
  cases sendMdnsQuery ⟨sockets.numSockets, replies, sockets.fits⟩ iparray with
  | error fault => rfl
  | ok result =>
    simp only [Functor.map, Except.map, bind, Except.bind]
    split_ifs
    · generalize (List.foldlM _ _ _ : Except Fault (Option String)) = connected
      cases connected <;> rfl
    · rfl

theorem isSome_eq_of_rel {α : Type} {r : α → β → Prop} {o : Option α} {o' : Option β}
    (h : Option.Rel r o o') : o.isSome = o'.isSome := by
  cases h <;> rfl

/-- **Whatever is received**, the client does what it does with some records, as many rounds and
from the same sockets. It has asked for `SqWar` on each socket that can send. -/
theorem newClientOn_refines (ipv4AddressToString : SockaddrIn → String) (big : 23 ≤ buffer.length)
    (small : buffer.length ≤ 0x4000) (sockets : Sockets)
    (replies : List (ℕ → Option (List UInt8))) :
    ∃ sent query, (∀ bytes ∈ sent, ∃ port,
        Asks sqWar 0 mdnsRecordtypePtr (questionClass port) bytes) ∧
      sent.length = (List.range sockets.numSockets.toNat).countP sockets.reaches ∧
      query.numSockets = sockets.numSockets ∧
      List.Forall₂ (fun round reply => ∀ isock < sockets.numSockets.toNat,
        (round isock).isSome = (reply isock).isSome) replies query.replies ∧
      ∀ iparray, newClientOn ipv4AddressToString sockets buffer replies iparray =
        (fun ipaddr => (sent, ipaddr)) <$> newClient ipv4AddressToString query iparray := by
  obtain ⟨questions, query, -, ask, count, same, rels, run⟩ := newClientOn_eq ipv4AddressToString
    (P := fun _ _ => True) big small sockets
    (fun round (_ : round ∈ replies) _ _ bytes _ => hasRecords (bytes.take buffer.length))
  refine ⟨questions.sent, query, fun bytes member => (ask.sent bytes member).2, count,
    same, rels.imp fun round reply rel isock less => isSome_eq_of_rel (rel isock less),
    fun iparray => ?_⟩
  simpa using run iparray

/-- A packet with an address. -/
theorem newClientOn_oneAddress :
    ∃ sent query, (∀ bytes ∈ sent, ∃ port,
        Asks sqWar 0 mdnsRecordtypePtr (questionClass port) bytes) ∧
      sent.length = 1 ∧ query.numSockets = 1 ∧ List.Forall₂ (fun round reply => ∀ isock < 1,
        (round isock).isSome = (reply isock).isSome) [fun _ => some oneAddress] query.replies ∧
      ∀ iparray, newClientOn (fun _ => "192.168.1.40") ⟨1, fun _ => none, fun _ => true, by decide⟩
          (List.replicate 29 7) [fun _ => some oneAddress] iparray =
        (fun ipaddr => (sent, ipaddr)) <$> newClient (fun _ => "192.168.1.40") query iparray :=
  newClientOn_refines _ (by decide) (by decide) ⟨1, fun _ => none, fun _ => true, by decide⟩ _

end Sqwar.Network
