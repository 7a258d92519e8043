import Sqwar.Network.MdnsClient
import Sqwar.Network.MdnsService

/-!
# Servers are found

A server that hears the question of a client answers with its address, and of the servers that
answer the client connects to the one that it hears last.
-/

set_option autoImplicit false

namespace Sqwar.Network

open Data Semantics

variable {host : List (List UInt8)} {service : Service} {server : MdnsServer}
  {name bytes : List UInt8} {queryId type rclass : ℕ} {answer : MdnsRecord}
  {additional : List MdnsRecord}

/-! ### The names of a service -/

/-- The labels of `"_services._dns-sd._udp.local."`. -/
def dnsSdLabels : List (List UInt8) :=
  [[95, 115, 101, 114, 118, 105, 99, 101, 115], [95, 100, 110, 115, 45, 115, 100],
    [95, 117, 100, 112], localLabel]

/-- The names in the packets of the service `SqWar` of a host. -/
def serviceNames (host : List (List UInt8)) : Set (List (List UInt8)) :=
  {dnsSdLabels, [sqWar], host ++ [sqWar], host ++ [localLabel]}

/-- The labels of the name of a host. -/
structure IsHost (host : List (List UInt8)) : Prop where
  labels : ∀ l ∈ host, IsLabel l
  ne_nil : host ≠ []
  zeroless : ∀ l ∈ host, 0 ∉ l
  few : host.length ≤ 63
  short : (joinDots host).length ≤ 247

theorem dotted_append (ls ls' : List (List UInt8)) : dotted (ls ++ ls') = dotted ls ++ dotted ls' :=
  List.flatMap_append

/-- `"<hostname>.<last>."`. -/
theorem dotted_concat (some : host ≠ []) (last : List UInt8) :
    dotted (host ++ [last]) = joinDots host ++ [dot] ++ (last ++ [dot]) := by
  rw [dotted_append, dotted_eq some]
  simp [dotted]

theorem isLabel_sqWar : IsLabel sqWar := ⟨by decide, by decide, by decide⟩

theorem isLabel_localLabel : IsLabel localLabel := ⟨by decide, by decide, by decide⟩

theorem IsHost.named (isHost : IsHost host) {last : List UInt8} (isLabel : IsLabel last)
    (mem : host ++ [last] ∈ serviceNames host) :
    Named (serviceNames host) (joinDots host ++ [dot] ++ (last ++ [dot])) := by
  refine ⟨host ++ [last], mem, ?_, by simp, .inr (dotted_concat isHost.ne_nil last).symm⟩
  refine List.forall_mem_append.mpr ⟨isHost.labels, ?_⟩
  rintro l (_ | ⟨_, ⟨⟩⟩)
  exact isLabel

theorem IsHost.zero_not_mem (isHost : IsHost host) {last : List UInt8} (zeroless : 0 ∉ last) :
    0 ∉ joinDots host ++ [dot] ++ (last ++ [dot]) := by
  rw [← dotted_concat isHost.ne_nil, dotted, List.mem_flatMap]
  rintro ⟨l, member, zero⟩
  rcases List.mem_append.mp zero with inside | isDot
  · rcases List.mem_append.mp member with front | isLast
    · exact isHost.zeroless l front inside
    · exact zeroless (List.mem_singleton.mp isLast ▸ inside)
  · cases List.mem_singleton.mp isDot

theorem named_sqWar (host : List (List UInt8)) : Named (serviceNames host) (sqWar ++ [dot]) :=
  ⟨[sqWar], by simp [serviceNames], isName_sqWar.labels, isName_sqWar.ne_nil, .inr rfl⟩

theorem named_dnsSd (host : List (List UInt8)) : Named (serviceNames host) dnsSd := by
  refine ⟨dnsSdLabels, by simp [serviceNames], ?_, List.cons_ne_nil _ _, .inr rfl⟩
  have labels : ∀ l ∈ dnsSdLabels, 0 < l.length ∧ l.length < 64 ∧ dot ∉ l := by decide
  intro l member
  obtain ⟨positive, short, dotless⟩ := labels l member
  exact ⟨positive, short, dotless⟩

theorem IsHost.readable (isHost : IsHost host) : Readable (serviceNames host) := by
  have short := isHost.short
  have few := isHost.few
  rintro ls (rfl | rfl | rfl | rfl)
  · exact ⟨by decide, by decide⟩
  · exact ⟨by decide, by decide⟩
  · rw [dotted_concat isHost.ne_nil]
    simp [sqWar]
    omega
  · rw [dotted_concat isHost.ne_nil]
    simp [localLabel]
    omega

/-- The names are not ambiguous if no label of the host is there twice or ends another name. -/
theorem unambiguous_serviceNames (nodup : host.Nodup) (other : sqWar ∉ host ∧ localLabel ∉ host) :
    Unambiguous (serviceNames host) := by
  refine unambiguous_of_ends {sqWar, localLabel} ?_
  have front : ∀ l ∈ host, l ∉ ({sqWar, localLabel} : Set (List UInt8)) := by
    rintro l member (rfl | rfl)
    · exact other.1 member
    · exact other.2 member
  rintro name (rfl | rfl | rfl | rfl)
  · have others : ∀ l ∈ dnsSdLabels.dropLast, l ≠ sqWar ∧ l ≠ localLabel := by decide
    refine ⟨dnsSdLabels.dropLast, localLabel, rfl, by simp, by decide, fun l member => ?_⟩
    rintro (rfl | rfl)
    · exact (others _ member).1 rfl
    · exact (others _ member).2 rfl
  · exact ⟨[], sqWar, rfl, by simp, List.nodup_nil, by simp⟩
  · exact ⟨host, sqWar, rfl, by simp, nodup, front⟩
  · exact ⟨host, localLabel, rfl, by simp, nodup, front⟩

/-! ### The service of a host -/

/-- The addresses and the port of a service can be sent. -/
structure HasAddress (ipv4 : SockaddrIn) (ipv6 : SockaddrIn6) (servicePort : ℕ) : Prop where
  ipv4 : ipv4.sinFamily = afInet → ipv4.sAddr.length = 4
  ipv6 : ipv6.sin6Family = afInet6 → ipv6.sin6Addr.length = 16
  port : servicePort < 65536

/-- The service `SqWar` of a host. -/
def sqWarService (host : List (List UInt8)) (ipv4 : SockaddrIn) (ipv6 : SockaddrIn6)
    (servicePort : ℕ) : Service where
  service := sqWar ++ [dot]
  serviceInstance := joinDots host ++ [dot] ++ (sqWar ++ [dot])
  hostnameQualified := joinDots host ++ [dot] ++ (localLabel ++ [dot])
  addressIpv4 := ipv4
  addressIpv6 := ipv6
  port := servicePort

/-- No name is cut off. -/
theorem newService_sqWar (isHost : IsHost host) (ipv4 : SockaddrIn) (ipv6 : SockaddrIn6)
    (servicePort : ℕ) :
    newService (joinDots host) sqWar ipv4 ipv6 servicePort =
      some (sqWarService host ipv4 ipv6 servicePort) := by
  have short := isHost.short
  have instanceFits : (joinDots host ++ [dot] ++ (sqWar ++ [dot])).length ≤ 254 := by
    simp [sqWar]
    omega
  have qualifiedFits : (joinDots host ++ [dot] ++ (localLabel ++ [dot])).length ≤ 254 := by
    simp [localLabel]
    omega
  have last : sqWar.getLast? = some 114 := rfl
  rw [newService, last]
  simp only [if_pos (by decide : (114 : UInt8) ≠ dot), List.take_of_length_le instanceFits]
  rw [List.append_assoc (joinDots host ++ [dot]), List.take_of_length_le qualifiedFits]
  rfl

theorem proper_sqWarService (isHost : IsHost host) {ipv4 : SockaddrIn} {ipv6 : SockaddrIn6}
    {servicePort : ℕ} (hasAddress : HasAddress ipv4 ipv6 servicePort) :
    (sqWarService host ipv4 ipv6 servicePort).Proper (serviceNames host) where
  nameDnsSd := named_dnsSd host
  nameService := named_sqWar host
  nameInstance := isHost.named isLabel_sqWar (by simp [serviceNames])
  nameQualified := isHost.named isLabel_localLabel (by simp [serviceNames])
  zeroless := ⟨show 0 ∉ sqWar ++ [dot] by decide, isHost.zero_not_mem (by decide),
    isHost.zero_not_mem (by decide)⟩
  ipv4 := hasAddress.ipv4
  ipv6 := hasAddress.ipv6
  port := hasAddress.port

/-- An answer is not much longer than the name of the host seven times. -/
theorem sectionsSize_sqWarService (host : List (List UInt8)) (ipv4 : SockaddrIn)
    (ipv6 : SockaddrIn6) (servicePort : ℕ) :
    sectionsSize (sqWarService host ipv4 ipv6 servicePort).recordPtr []
      (sqWarService host ipv4 ipv6 servicePort).announced ≤ 7 * (joinDots host).length + 176 := by
  have ipv4Size : ((sqWarService host ipv4 ipv6 servicePort).ipv4Records.map MdnsRecord.size).sum ≤
      (joinDots host).length + 23 := by
    rw [Service.ipv4Records]
    split_ifs
    · simp [Service.recordA, sqWarService, MdnsRecord.size, MdnsRecordData.size, localLabel]
    · exact Nat.zero_le _
  have ipv6Size : ((sqWarService host ipv4 ipv6 servicePort).ipv6Records.map MdnsRecord.size).sum ≤
      (joinDots host).length + 35 := by
    rw [Service.ipv6Records]
    split_ifs
    · simp [Service.recordAaaa, sqWarService, MdnsRecord.size, MdnsRecordData.size, localLabel]
    · exact Nat.zero_le _
  simp only [sectionsSize, Service.announced, List.cons_append, List.map_cons, List.map_append,
    List.sum_cons, List.sum_append, List.map_nil, List.sum_nil]
  simp [Service.recordPtr, Service.recordSrv, Service.txtRecord, sqWarService, MdnsRecord.size,
    MdnsRecordData.size, localLabel, sqWar] at ipv4Size ipv6Size ⊢
  omega

/-! ### A question and its answer -/

/-- A question that a service answers, whatever is in the buffers. -/
theorem receive_asks (asks : Asks name queryId type rclass bytes)
    (fits : bytes.length ≤ server.buffer.length) (answered : type ∈ answeredTypes)
    (isAnswer : service.answer (canonical name) type = some (answer, additional)) :
    ∃ (buffer : List UInt8) (e : MdnsEntry), buffer.length = server.buffer.length ∧
      e.queryId = queryId ∧ e.rtype = type ∧ e.rclass = rclass ∧
      server.receive service bytes = MdnsServer.mk buffer <$>
        server.sending.answer e (canonical name) answer additional := by
  obtain ⟨length, heard⟩ := asks
  have within : 0 + bytes.length ≤ server.buffer.length := (Nat.zero_add _).trans_le fits
  have front : overwrite server.buffer 0 bytes = bytes ++ server.buffer.drop bytes.length :=
    overwrite_zero _ _
  obtain ⟨extract, listen⟩ := heard (server.buffer.drop bytes.length)
  refine ⟨overwrite server.buffer 0 bytes,
    ⟨.question, queryId, type, rclass, 0, 12, length, 12, length⟩, overwrite_length _ _ within, rfl,
    rfl, rfl, ?_⟩
  rw [MdnsServer.receive, List.take_of_length_le fits, front,
    listen _ _ goesOn_serviceCallback, serviceCallback, if_neg (by simp), extract]
  simp only [bind, Except.bind, if_neg (not_not.mpr answered), isAnswer]
  cases server.sending.answer ⟨.question, queryId, type, rclass, 0, 12, length, 12, length⟩
    (canonical name) answer additional <;> rfl

/-- A packet whose only address this is. -/
def Reports (addr : SockaddrIn) (bytes : List UInt8) : Prop :=
  HasRecords (fun records => addresses records = [addr]) bytes

theorem addresses_append (records records' : List Record) :
    addresses (records ++ records') = addresses records ++ addresses records' := by
  rw [addresses, List.filter_append, List.map_append]
  rfl

/-- The addresses in a packet that has been written. -/
theorem hasRecords_of_packetAt {names : Set (List (List UInt8))} {m : Known UInt8} {w : Writer}
    {rclass ttl queryId flags questions : ℕ} (writes : Writes m w)
    (small : w.buffer.length ≤ 0x4000)
    (packet : PacketAt False names m rclass ttl queryId flags questions
      ⟨answer.name, .plain answer.data⟩ (sentRecords []) (sentRecords additional) w.data)
    (answerable : Answerable names answer [] additional) (readable : Readable names)
    (few : (additional.filterMap MdnsRecord.text).length ≤ 128) (shortClass : rclass < 65536)
    (shortTtl : ttl < 65536 * 65536) (shortId : queryId < 65536) :
    HasRecords (fun records => addresses records =
        (SentRecord.addr ⟨answer.name, .plain answer.data⟩).toList ++
          (sentRecords additional).filterMap SentRecord.addr)
      (w.buffer.take w.data) := by
  intro rest _ onlyQueryId all
  have holds := writes.received rest
  have length : (w.buffer.take w.data).length = w.data := List.length_take_of_le writes.inside
  obtain ⟨_, o₁, o₂, -, -, -, third⟩ := packet.records
  have few' := third.length_le
  have small : w.data ≤ 0x4000 := writes.inside.trans small
  obtain ⟨answers, authorities, additionals, areAnswers, areAuthorities, areAdditionals, run⟩ :=
    packet.entries readable holds small shortClass shortTtl shortId (by decide) (by omega)
      (.inl all)
  have count := areAdditionals.length_eq
  have valid : ∀ record ∈ [(⟨answer.name, .plain answer.data⟩ : SentRecord)],
      record.data.Valid names := by
    rintro record (_ | ⟨_, ⟨⟩⟩)
    exact (answerable.valid answer (by simp)).2
  have valid' := valid_sentRecords additional
    (fun record member => answerable.valid record (by simp [member])) few
  obtain rfl : authorities = [] := List.forall₂_nil_right_iff.mp areAuthorities
  refine ⟨(answers ++ [] ++ additionals).map
    (MdnsEntry.record (w.buffer.take w.data ++ rest) w.data), ?_, fun parr => ?_⟩
  · change addresses ((answers ++ [] ++ additionals).map _) = _
    rw [List.append_nil, List.map_append, addresses_append,
      addresses_entries areAnswers valid holds, addresses_entries areAdditionals valid' holds]
    cases isAddr : SentRecord.addr ⟨answer.name, .plain answer.data⟩ <;> simp [isAddr]
  · rw [length, run _ _ goesOn_ipaddrCallback, ← calls_ipaddrCallback]
    simp [areAnswers.length_eq, count]
    rfl

/-- An answer for which there is room is sent. -/
theorem hasRecords_send {names : Set (List (List UInt8))} {sending : Sending} (unicast : Bool)
    {run : Except Stop Writer} {size ttl flags questions : ℕ}
    (writing : Writing False names (fun _ => none) ⟨sending.sendbuffer, 0, some .empty⟩ run size
      fun m' w' => PacketAt False names m' rclass ttl queryId flags questions
        ⟨answer.name, .plain answer.data⟩ (sentRecords []) (sentRecords additional) w'.data)
    (room : size ≤ sending.sendbuffer.length) (answerable : Answerable names answer [] additional)
    (readable : Readable names) (few : (additional.filterMap MdnsRecord.text).length ≤ 128)
    (shortClass : rclass < 65536) (shortTtl : ttl < 65536 * 65536) (shortId : queryId < 65536) :
    ∃ sending' bytes, sending.send unicast run = .ok sending' ∧
      sending'.sent = sending.sent ++ [⟨unicast, bytes⟩] ∧
      bytes.length ≤ sending.sendbuffer.length ∧
      HasRecords (fun records => addresses records =
        (SentRecord.addr ⟨answer.name, .plain answer.data⟩).toList ++
          (sentRecords additional).filterMap SentRecord.addr) bytes := by
  rcases writing with ⟨_, -, -, short⟩ | ⟨m, w, rfl, later, ready, -, packet⟩
  · have short : sending.sendbuffer.length < 0 + size := short
    omega
  · refine ⟨⟨w.buffer, sending.sent ++ [⟨unicast, w.buffer.take w.data⟩]⟩, _, ?_, rfl,
      (List.length_take_le' _ _).trans_eq later.length,
      hasRecords_of_packetAt ready.writes ready.small packet answerable readable few shortClass
        shortTtl shortId⟩
    rw [Sending.send, bytesAt_of_le ((Nat.zero_add _).trans_le ready.writes.inside)]
    rfl

/-- The only address in an answer is that of the host. -/
theorem addr_announced (host : List (List UInt8)) {ipv4 : SockaddrIn} (ipv6 : SockaddrIn6)
    (servicePort : ℕ) (isIpv4 : ipv4.sinFamily = afInet) :
    (sentRecords (sqWarService host ipv4 ipv6 servicePort).announced).filterMap SentRecord.addr =
      [⟨afInet, 0, ipv4.sAddr⟩] := by
  have isIpv4 : (sqWarService host ipv4 ipv6 servicePort).addressIpv4.sinFamily = afInet := isIpv4
  rw [Service.announced, Service.ipv4Records, if_pos isIpv4, Service.ipv6Records]
  split_ifs <;> rfl

/-- **A server answers** with a packet that has its address, and no other. The sender of the
question gets it if that is what the question says, else all get it. -/
theorem reports_receive (isHost : IsHost host) {ipv4 : SockaddrIn} {ipv6 : SockaddrIn6}
    {servicePort : ℕ} (hasAddress : HasAddress ipv4 ipv6 servicePort)
    (isIpv4 : ipv4.sinFamily = afInet) (roomy : Roomy server.sending.sendbuffer)
    (room : 7 * (joinDots host).length + 200 ≤ server.sending.sendbuffer.length)
    (asks : Asks sqWar queryId mdnsRecordtypePtr rclass bytes) (shortId : queryId < 65536)
    (fits : bytes.length ≤ server.buffer.length) :
    ∃ server' reply,
      server.receive (sqWarService host ipv4 ipv6 servicePort) bytes = .ok server' ∧
      server'.sending.sent = server.sending.sent ++ [reply] ∧
      (reply.unicast = true ↔ rclass &&& mdnsUnicastResponse ≠ 0) ∧
      reply.bytes.length ≤ server.sending.sendbuffer.length ∧
      Reports ⟨afInet, 0, ipv4.sAddr⟩ reply.bytes := by
  have proper := proper_sqWarService isHost hasAddress
  have few := (Service.Proper.length_text_announced
    (sqWarService host ipv4 ipv6 servicePort)).trans_le (by decide : 2 ≤ 128)
  have size := sectionsSize_sqWarService host ipv4 ipv6 servicePort
  have isAnswer : (sqWarService host ipv4 ipv6 servicePort).answer (canonical sqWar)
      mdnsRecordtypePtr = some ((sqWarService host ipv4 ipv6 servicePort).recordPtr,
        (sqWarService host ipv4 ipv6 servicePort).announced) := by
    have other : ¬ sameName (canonical sqWar) dnsSd = true := by decide
    have same :
        sameName (canonical sqWar) (sqWarService host ipv4 ipv6 servicePort).service = true :=
      (by decide : sameName (canonical sqWar) (sqWar ++ [dot]) = true)
    rw [Service.answer, if_neg other, if_pos same, if_pos (.inl rfl)]
    rfl
  obtain ⟨buffer, e, -, rfl, -, rfl, receives⟩ := receive_asks asks fits (by decide) isAnswer
  rw [Sending.answer] at receives
  split_ifs at receives with unicast
  · obtain ⟨sending', reply, sent, more, short, has⟩ := hasRecords_send true
      (writing_unicast roomy.big roomy.small False.elim (named_sqWar host)
        proper.answerable_recordPtr e.queryId e.rtype)
      (by simp only [List.length_append, sqWar, List.length_cons, List.length_nil]; omega)
      proper.answerable_recordPtr isHost.readable few (by decide) (by decide) shortId
    have isName : canonical sqWar = sqWar ++ [dot] := rfl
    rw [isName, sent] at receives
    refine ⟨_, ⟨true, reply⟩, receives, more, by simpa using unicast, short, ?_⟩
    rwa [addr_announced host ipv6 servicePort isIpv4] at has
  · obtain ⟨sending', reply, sent, more, short, has⟩ := hasRecords_send false
      (writing_multicast roomy.big roomy.small False.elim proper.answerable_recordPtr mdnsClassIn
        60)
      (by omega) proper.answerable_recordPtr isHost.readable few (by decide) (by decide) (by decide)
    rw [mdnsQueryAnswerMulticast, sent] at receives
    refine ⟨_, ⟨false, reply⟩, receives, more, by simpa using unicast, short, ?_⟩
    rwa [addr_announced host ipv6 servicePort isIpv4] at has

/-! ### Runs of a server -/

/-- **Every run of a server of `SqWar`.** No name is cut off. Whatever datagrams come, each with
four bytes of the buffer left, the server uses nothing outside its buffers. It sends its
announcement to each socket, then answers, and last a goodbye to each socket. If no label of the
host is there twice or ends another name, they are read so. -/
theorem serviceMdns_sqWar (isHost : IsHost host) {ipv4 : SockaddrIn} {ipv6 : SockaddrIn6}
    {servicePort : ℕ} (hasAddress : HasAddress ipv4 ipv6 servicePort)
    (capacity : server.buffer.length = 2048) (capacity' : server.sending.sendbuffer.length = 1024)
    {datagrams : List (List UInt8)} (room : ∀ datagram ∈ datagrams, datagram.length ≤ 2044)
    (numSockets : ℕ) :
    newService (joinDots host) sqWar ipv4 ipv6 servicePort =
        some (sqWarService host ipv4 ipv6 servicePort) ∧
      ∃ server' announcements answers goodbyes,
        serviceMdns (sqWarService host ipv4 ipv6 servicePort) numSockets server datagrams =
          .ok server' ∧
        server'.sending.sent = server.sending.sent ++ announcements ++ answers ++ goodbyes ∧
        announcements.length = numSockets ∧ goodbyes.length = numSockets ∧
        (host.Nodup → sqWar ∉ host ∧ localLabel ∉ host →
          (∀ datagram ∈ announcements,
            (sqWarService host ipv4 ipv6 servicePort).Announces 60 datagram) ∧
          (∀ datagram ∈ answers, (sqWarService host ipv4 ipv6 servicePort).Answers datagram) ∧
          ∀ datagram ∈ goodbyes,
            (sqWarService host ipv4 ipv6 servicePort).Announces 0 datagram) := by
  have size := sectionsSize_sqWarService host ipv4 ipv6 servicePort
  have short := isHost.short
  have ready : server.Ready := ⟨⟨by omega, by omega⟩, ⟨by omega, by omega⟩⟩
  have room' : ∀ datagram ∈ datagrams, datagram.length + 4 ≤ server.buffer.length := by
    intro datagram member
    rw [capacity]
    exact Nat.add_le_add_right (room datagram member) 4
  obtain ⟨server', announcements, answers, goodbyes, run, sent, count, count', reads⟩ :=
    (proper_sqWarService isHost hasAddress).serviceMdns_run ready room' (by omega) numSockets
  exact ⟨newService_sqWar isHost _ _ _, server', announcements, answers, goodbyes, run, sent,
    count, count', fun nodup other => reads (unambiguous_serviceNames nodup other) isHost.readable⟩

/-- A run with one question gives one answer. -/
theorem length_sent_of_asks (isHost : IsHost host) {ipv4 : SockaddrIn} {ipv6 : SockaddrIn6}
    {servicePort : ℕ} (hasAddress : HasAddress ipv4 ipv6 servicePort)
    (isIpv4 : ipv4.sinFamily = afInet) (capacity : server.buffer.length = 2048)
    (capacity' : server.sending.sendbuffer.length = 1024) (short : (joinDots host).length ≤ 117)
    (asks : Asks sqWar queryId mdnsRecordtypePtr rclass bytes) (shortId : queryId < 65536)
    (fits : bytes.length ≤ 2044) {numSockets : ℕ} {server' : MdnsServer}
    (run : serviceMdns (sqWarService host ipv4 ipv6 servicePort) numSockets server [bytes] =
      .ok server') :
    server'.sending.sent.length = server.sending.sent.length + numSockets + 1 + numSockets := by
  have proper := proper_sqWarService isHost hasAddress
  have size := sectionsSize_sqWarService host ipv4 ipv6 servicePort
  have ready : server.Ready := ⟨⟨by omega, by omega⟩, ⟨by omega, by omega⟩⟩
  obtain ⟨server₁, announcements, run₁, length₁, same₁, sent₁, count₁, -⟩ :=
    proper.announces_sendAll ready (by decide : 60 < 65536 * 65536) (by omega) numSockets
  have ready₁ : server₁.Ready := ⟨ready.buffer.of_length length₁, same₁ ▸ ready.sendbuffer⟩
  obtain ⟨server₂, reply, received, sent₂, -, -⟩ := reports_receive isHost hasAddress isIpv4
    ready₁.sendbuffer (by rw [same₁]; omega) asks shortId (by omega)
  obtain ⟨_, received', sends₂⟩ := proper.sends_receive ready₁
    (show bytes.length + 4 ≤ server₁.buffer.length by omega)
  obtain rfl := Except.ok.inj (received.symm.trans received')
  obtain ⟨server₃, goodbyes, run₃, -, -, sent₃, count₃, -⟩ :=
    proper.announces_sendAll (sends₂.ready ready₁) (by decide : 0 < 65536 * 65536)
      (by rw [sends₂.length, length₁]; omega) numSockets
  simp only [serviceMdns, mdnsAnnounceMulticast, mdnsGoodbyeMulticast, run₁, bind, Except.bind,
    List.foldlM_cons, received, List.foldlM_nil, pure, Except.pure, run₃] at run
  cases run
  rw [sent₃, sent₂, sent₁]
  simp only [List.length_append, count₁, count₃, List.length_singleton]

/-- A host called `pc`. -/
def pcHost : List (List UInt8) := [[112, 99]]

/-- The address of the host. -/
def pcAddress : SockaddrIn := ⟨afInet, 0, [192, 168, 1, 40]⟩

theorem isHost_pcHost : IsHost pcHost where
  labels l member := by
    obtain rfl := List.mem_singleton.mp member
    exact ⟨by decide, by decide, by decide⟩
  ne_nil := List.cons_ne_nil _ _
  zeroless := by decide
  few := by decide
  short := by decide

theorem hasAddress_pcAddress : HasAddress pcAddress ⟨0, []⟩ 42424 :=
  ⟨fun _ => rfl, by decide, by decide⟩

/-- The service of the host. -/
def pcService : Service := sqWarService pcHost pcAddress ⟨0, []⟩ 42424

/-- Its server, whose buffers have been used. -/
def pcServer : MdnsServer := ⟨List.replicate 2048 7, ⟨List.replicate 1024 7, []⟩⟩

/-- With two sockets, it is asked once. -/
theorem serviceMdns_pcHost : ∃ question,
    Asks sqWar 0 mdnsRecordtypePtr (questionClass none) question ∧
    newService (joinDots pcHost) sqWar pcAddress ⟨0, []⟩ 42424 = some pcService ∧
    ∃ server' announcements answer goodbyes,
      serviceMdns pcService 2 pcServer [question] = .ok server' ∧
      server'.sending.sent = announcements ++ [answer] ++ goodbyes ∧
      announcements.length = 2 ∧ goodbyes.length = 2 ∧
      (∀ datagram ∈ announcements, pcService.Announces 60 datagram) ∧ pcService.Answers answer ∧
      ∀ datagram ∈ goodbyes, pcService.Announces 0 datagram := by
  have capacity : pcServer.buffer.length = 2048 := List.length_replicate
  have capacity' : pcServer.sending.sendbuffer.length = 1024 := List.length_replicate
  obtain ⟨w, -, -, -, short, asks⟩ := asks_of_mdnsQuerySend isName_sqWar (by decide)
    (by decide) ((by decide : 23 ≤ 2048).trans_eq capacity.symm) (capacity.trans_le (by decide))
    (by decide : mdnsRecordtypePtr < 65536) (by decide : 0 < 65536) none
  have fits : (w.buffer.take w.data).length ≤ 23 := (List.length_take_le _ _).trans short
  obtain ⟨isService, server', announcements, answers, goodbyes, run, sent, count, count', reads⟩ :=
    serviceMdns_sqWar isHost_pcHost hasAddress_pcAddress capacity capacity'
      (List.forall_mem_singleton.mpr (fits.trans (by decide))) 2
  have total := length_sent_of_asks isHost_pcHost hasAddress_pcAddress rfl capacity capacity'
    (by decide) asks (by decide) (fits.trans (by decide)) run
  obtain ⟨announces, answered, announces'⟩ := reads (by decide) (by decide)
  rw [sent] at total
  simp only [List.length_append, count, count'] at total
  obtain ⟨answer, rfl⟩ := List.length_eq_one_iff.mp (show answers.length = 1 by omega)
  exact ⟨_, asks, isService, server', announcements, answer, goodbyes, run, sent, count, count',
    announces, answered answer (List.mem_singleton_self _), announces'⟩

/-! ### The client finds the servers -/

/-- A packet that a server sends for a question, from buffers as long as those of the source. -/
def Service.Replies (service : Service) (question datagram : List UInt8) : Prop :=
  ∃ (server server' : MdnsServer) (unicast : Bool),
    server.buffer.length = 2048 ∧ server.sending.sendbuffer.length = 1024 ∧
    server.receive service question = .ok server' ∧
    server'.sending.sent = server.sending.sent ++ [⟨unicast, datagram⟩]

/-- A service whose answers have an address, and fit into the buffer for them. -/
def Discoverable (service : Service) : Prop :=
  ∃ host ipv4 ipv6 servicePort, IsHost host ∧ (joinDots host).length ≤ 117 ∧
    HasAddress ipv4 ipv6 servicePort ∧ ipv4.sinFamily = afInet ∧
    newService (joinDots host) sqWar ipv4 ipv6 servicePort = some service

/-- The address of a service in its packets. -/
def Service.sentAddress (service : Service) : SockaddrIn := ⟨afInet, 0, service.addressIpv4.sAddr⟩

/-- A server that can be found replies without a fault, whatever its buffers hold. -/
theorem Discoverable.exists_replies (discoverable : Discoverable service) {question : List UInt8}
    {queryId : ℕ} (asks : Asks sqWar queryId mdnsRecordtypePtr rclass question)
    (shortId : queryId < 65536) (short : question.length ≤ 2048) (server : MdnsServer)
    (capacity : server.buffer.length = 2048) (capacity' : server.sending.sendbuffer.length = 1024) :
    ∃ server' reply, server.receive service question = .ok server' ∧
      server'.sending.sent = server.sending.sent ++ [reply] ∧
      service.Replies question reply.bytes := by
  obtain ⟨host, ipv4, ipv6, servicePort, isHost, fits, hasAddress, isIpv4, isService⟩ :=
    discoverable
  rw [newService_sqWar isHost] at isService
  obtain rfl := Option.some.inj isService
  obtain ⟨server', reply, received, sent, -⟩ := reports_receive isHost hasAddress isIpv4
    ⟨by omega, by omega⟩ (by omega) asks shortId (short.trans_eq capacity.symm)
  exact ⟨server', reply, received, sent, server, server', reply.unicast, capacity, capacity',
    received, sent⟩

theorem Service.Replies.reports {question datagram : List UInt8}
    (replies : service.Replies question datagram) (discoverable : Discoverable service)
    {queryId : ℕ} (asks : Asks sqWar queryId mdnsRecordtypePtr rclass question)
    (shortId : queryId < 65536) (short : question.length ≤ 2048) :
    datagram.length ≤ 1024 ∧ Reports service.sentAddress datagram := by
  obtain ⟨server, server', unicast, length, length', received, sent⟩ := replies
  obtain ⟨host, ipv4, ipv6, servicePort, isHost, fits, hasAddress, isIpv4, isService⟩ :=
    discoverable
  rw [newService_sqWar isHost] at isService
  obtain rfl := Option.some.inj isService
  obtain ⟨server'', reply, received', sent', -, replyFits, reports⟩ := reports_receive isHost
    hasAddress isIpv4 ⟨by omega, by omega⟩ (by omega) asks shortId (short.trans_eq length.symm)
  obtain rfl := Except.ok.inj (received.symm.trans received')
  have same := List.append_cancel_left (sent.symm.trans sent')
  obtain rfl := List.singleton_inj.mp same
  exact ⟨replyFits.trans_eq length', reports⟩

/-- The services whose packets a client hears, in the order in which it hears them. -/
def heard (numSockets : ℕ) (rounds : List (ℕ → Option (Service × List UInt8))) : List Service :=
  rounds.flatMap fun round =>
    (List.range numSockets).filterMap fun isock => (round isock).map Prod.fst

/-- What a socket delivers. -/
theorem addresses_sent {sent : Option (Service × List UInt8)} {records : Option (List Record)}
    (rel : Option.Rel (fun sent records => addresses records = [Service.sentAddress sent.1]) sent
      records) :
    addresses (records.getD []) = (sent.map Prod.fst).toList.map Service.sentAddress := by
  cases rel with
  | none => rfl
  | some isAddress => exact isAddress

theorem roundAddresses_heard {numSockets : ℕ} {round : ℕ → Option (Service × List UInt8)}
    {reply : ℕ → Option (List Record)} (rel : ∀ isock < numSockets, Option.Rel
      (fun sent records => addresses records = [Service.sentAddress sent.1]) (round isock)
      (reply isock)) :
    roundAddresses numSockets reply = ((List.range numSockets).filterMap fun isock =>
      (round isock).map Prod.fst).map Service.sentAddress := by
  induction numSockets with
  | zero => rfl
  | succ numSockets ih =>
    have last := addresses_sent (rel numSockets (Nat.lt_succ_self _))
    rw [roundAddresses] at ih ⊢
    rw [List.range_succ, List.flatMap_append,
      ih fun isock less => rel isock (Nat.lt_succ_of_lt less), List.filterMap_append,
      List.map_append, List.flatMap_singleton, last, List.filterMap_cons, List.filterMap_nil]
    cases round numSockets <;> rfl

/-- The addresses of a query are those of the services that are heard. -/
theorem flatMap_roundAddresses {numSockets : ℕ} {rounds : List (ℕ → Option (Service × List UInt8))}
    {replies : List (ℕ → Option (List Record))}
    (rels : List.Forall₂ (fun round reply => ∀ isock < numSockets, Option.Rel
      (fun sent records => addresses records = [Service.sentAddress sent.1]) (round isock)
      (reply isock)) rounds replies) :
    replies.flatMap (roundAddresses numSockets) =
      (heard numSockets rounds).map Service.sentAddress := by
  rw [heard, List.map_flatMap]
  induction rels with
  | nil => rfl
  | cons rel _ ih => rw [List.flatMap_cons, List.flatMap_cons, ih, roundAddresses_heard rel]

/-- **Servers are found.** A client asks, and a server that can be found replies to each question
without a fault. If what the client gets are packets that such servers send for its questions, ten
at most, then it uses nothing outside its buffers and connects to the address of the server that it
has heard last. -/
theorem newClientOn_discovers (ipv4AddressToString : SockaddrIn → String) (sockets : Sockets)
    (opened : 0 < sockets.numSockets) {buffer : List UInt8} (capacity : buffer.length = 2048) :
    ∃ questions, sendQueries mdnsRecordtypePtr sqWar sockets buffer = .ok questions ∧
      questions.sent.length = (List.range sockets.numSockets.toNat).countP sockets.reaches ∧
      (∀ question ∈ questions.sent, ∀ service, Discoverable service → ∀ server : MdnsServer,
        server.buffer.length = 2048 → server.sending.sendbuffer.length = 1024 →
          ∃ server' reply, server.receive service question = .ok server' ∧
            server'.sending.sent = server.sending.sent ++ [reply] ∧
            service.Replies question reply.bytes) ∧
      ∀ rounds : List (ℕ → Option (Service × List UInt8)),
        (∀ round ∈ rounds, ∀ isock < sockets.numSockets.toNat, ∀ service datagram,
          round isock = some (service, datagram) → Discoverable service ∧
            ∃ question ∈ questions.sent, service.Replies question datagram) →
        (heard sockets.numSockets.toNat rounds).length ≤ 10 → ∀ iparray,
          newClientOn ipv4AddressToString sockets buffer
              (rounds.map fun round isock => (round isock).map Prod.snd) iparray =
            .ok (questions.sent, (heard sockets.numSockets.toNat rounds).getLast?.map fun service =>
              ipv4AddressToString service.sentAddress) := by
  obtain ⟨questions, asked, ask, count⟩ := ask_sendQueries isName_sqWar (by decide) (by decide)
    ((by decide : 23 ≤ 2048).trans_eq capacity.symm) (capacity.trans_le (by decide))
    (by decide : mdnsRecordtypePtr < 65536) sockets
  refine ⟨questions, asked, count,
    fun question isSent service discoverable server length length' => ?_,
    fun rounds replied few iparray => ?_⟩
  · obtain ⟨short, port, asks⟩ := ask.sent question isSent
    exact discoverable.exists_replies asks (by decide) (short.trans (by decide)) server length
      length'
  · obtain ⟨questions', query, asked', -, -, same, rels, run⟩ := newClientOn_eq ipv4AddressToString
      (P := fun sent records => addresses records = [Service.sentAddress sent.1])
      ((by decide : 23 ≤ 2048).trans_eq capacity.symm) (capacity.trans_le (by decide)) sockets
      (fun round member isock less (sent : Service × List UInt8) delivered => by
        obtain ⟨discoverable, question, isSent, replies⟩ :=
          replied round member isock less sent.1 sent.2 delivered
        obtain ⟨short, port, asks⟩ := ask.sent question isSent
        obtain ⟨fits, reports⟩ := replies.reports discoverable asks (by decide)
          (short.trans (by decide))
        rw [List.take_of_length_le (fits.trans ((by decide : 1024 ≤ 2048).trans_eq capacity.symm))]
        exact reports)
    obtain rfl := Except.ok.inj (asked.symm.trans asked')
    have found : query.addresses =
        (heard sockets.numSockets.toNat rounds).map Service.sentAddress := by
      rw [Query.addresses, same, flatMap_roundAddresses rels]
    rw [run, newClient_eq ipv4AddressToString (same ▸ opened)
      (by rw [found, List.length_map]; exact few), found, List.getLast?_map, Option.map_map]
    rfl

theorem oneSocket_fits : (1 : ℤ) ≤ 32 := by decide

/-- A socket whose question can be sent. -/
def oneSocket : Sockets := ⟨1, fun _ => none, fun _ => true, oneSocket_fits⟩

theorem discoverable_pcHost : Discoverable pcService :=
  ⟨pcHost, pcAddress, ⟨0, []⟩, 42424, isHost_pcHost, by decide, hasAddress_pcAddress, rfl,
    newService_sqWar isHost_pcHost _ _ _⟩

/-- The client finds `pc`. -/
theorem newClientOn_pcHost :
    ∃ questions datagram, sendQueries mdnsRecordtypePtr sqWar oneSocket (List.replicate 2048 7) =
        .ok questions ∧
      (∃ question ∈ questions.sent, pcService.Replies question datagram) ∧
      newClientOn (fun _ => "192.168.1.40") oneSocket (List.replicate 2048 7)
          [fun _ => some datagram] ⟨fun _ => ⟨0, 0, []⟩, 3⟩ =
        .ok (questions.sent, some "192.168.1.40") := by
  obtain ⟨questions, asked, count, replied, finds⟩ := newClientOn_discovers
    (fun _ => "192.168.1.40") oneSocket (by decide) (List.length_replicate (a := (7 : UInt8)))
  obtain ⟨question, one⟩ := List.length_eq_one_iff.mp count
  have isSent : question ∈ questions.sent := one ▸ List.mem_singleton_self question
  obtain ⟨server', reply, -, -, replies⟩ := replied question isSent pcService discoverable_pcHost
    pcServer List.length_replicate List.length_replicate
  refine ⟨questions, reply.bytes, asked, ⟨question, isSent, replies⟩, ?_⟩
  refine finds [fun _ => some (pcService, reply.bytes)] ?_ (Nat.le_of_ble_eq_true rfl) _
  rintro round (_ | ⟨_, ⟨⟩⟩) isock less service datagram same
  cases same
  exact ⟨discoverable_pcHost, question, isSent, replies⟩

end Sqwar.Network
