import Sqwar.Network.MdnsListening
import Sqwar.Network.MdnsRoundTrip

/-!
# The mDNS service

A server answers questions about its service. Of one buffer for what it receives and one for what it
sends, both hold whatever earlier packets left there.
-/

set_option autoImplicit false

namespace Sqwar.Network

open Data Semantics

/-- `"_services._dns-sd._udp.local."`. -/
def dnsSd : List UInt8 :=
  [95, 115, 101, 114, 118, 105, 99, 101, 115, 46, 95, 100, 110, 115, 45, 115, 100, 46,
    95, 117, 100, 112, 46, 108, 111, 99, 97, 108, 46]

/-- `"local"`. -/
def localLabel : List UInt8 := [108, 111, 99, 97, 108]

/-- `service_t`, as far as it is read. -/
structure Service where
  service : List UInt8
  serviceInstance : List UInt8
  hostnameQualified : List UInt8
  addressIpv4 : SockaddrIn
  addressIpv6 : SockaddrIn6
  port : ℕ

/-- The strings that `service_mdns` makes of the names of the host and the service. `snprintf`
leaves a place free besides that of the zero. -/
def newService (hostname serviceName : List UInt8) (ipv4 : SockaddrIn) (ipv6 : SockaddrIn6)
    (servicePort : ℕ) : Option Service :=
  match serviceName.getLast? with
  | none => none
  | some c =>
    let serviceName := if c ≠ dot then serviceName ++ [dot] else serviceName
    some {
      service := serviceName
      serviceInstance := (hostname ++ [dot] ++ serviceName).take 254
      hostnameQualified := (hostname ++ [dot] ++ localLabel ++ [dot]).take 254
      addressIpv4 := ipv4
      addressIpv6 := ipv6
      port := servicePort }

namespace Service

variable (service : Service)

/-- `record_ptr`. -/
def recordPtr : MdnsRecord := ⟨service.service, .ptr service.serviceInstance⟩

/-- `record_srv`. -/
def recordSrv : MdnsRecord :=
  ⟨service.serviceInstance, .srv 0 0 service.port service.hostnameQualified⟩

/-- `record_a`. -/
def recordA : MdnsRecord := ⟨service.hostnameQualified, .a service.addressIpv4⟩

/-- `record_aaaa`. -/
def recordAaaa : MdnsRecord := ⟨service.hostnameQualified, .aaaa service.addressIpv6⟩

/-- `txt_record`: that `test` is `1`, and `other` is `value`. -/
def txtRecord : List MdnsRecord :=
  [⟨service.serviceInstance, .txt [116, 101, 115, 116] [49]⟩,
    ⟨service.serviceInstance, .txt [111, 116, 104, 101, 114] [118, 97, 108, 117, 101]⟩]

/-- The record of the IPv4 address, if there is one. -/
def ipv4Records : List MdnsRecord :=
  if service.addressIpv4.sinFamily = afInet then [service.recordA] else []

/-- The record of the IPv6 address, if there is one. -/
def ipv6Records : List MdnsRecord :=
  if service.addressIpv6.sin6Family = afInet6 then [service.recordAaaa] else []

/-- The additional records of the announcement and of the goodbye. -/
def announced : List MdnsRecord :=
  service.recordSrv :: service.ipv4Records ++ service.ipv6Records ++ service.txtRecord

end Service

/-- `strncmp(a, b, n) == 0`, of strings of `n` bytes. -/
def strncmpZero : List UInt8 → List UInt8 → Bool
  | a :: as, b :: bs => a = b ∧ (a = 0 ∨ strncmpZero as bs)
  | _, _ => true

/-- The comparison of the name of a question. -/
def sameName (name str : List UInt8) : Bool := name.length = str.length ∧ strncmpZero name str

/-- The branches of `service_callback`: the answer, and the additional records. -/
def Service.answer (service : Service) (name : List UInt8) (rtype : ℕ) :
    Option (MdnsRecord × List MdnsRecord) :=
  if sameName name dnsSd then
    if rtype = mdnsRecordtypePtr ∨ rtype = mdnsRecordtypeAny then
      some (⟨name, .ptr service.service⟩, [])
    else none
  else if sameName name service.service then
    if rtype = mdnsRecordtypePtr ∨ rtype = mdnsRecordtypeAny then
      some (service.recordPtr,
        service.recordSrv :: service.ipv4Records ++ service.ipv6Records ++ service.txtRecord)
    else none
  else if sameName name service.serviceInstance then
    if rtype = mdnsRecordtypeSrv ∨ rtype = mdnsRecordtypeAny then
      some (service.recordSrv, service.ipv4Records ++ service.ipv6Records ++ service.txtRecord)
    else none
  else if sameName name service.hostnameQualified then
    if (rtype = mdnsRecordtypeA ∨ rtype = mdnsRecordtypeAny) ∧
        service.addressIpv4.sinFamily = afInet then
      some (service.recordA, service.ipv6Records ++ service.txtRecord)
    else if (rtype = mdnsRecordtypeAaaa ∨ rtype = mdnsRecordtypeAny) ∧
        service.addressIpv6.sin6Family = afInet6 then
      some (service.recordAaaa, service.ipv4Records ++ service.txtRecord)
    else none
  else none

/-- A packet that has been sent, to the sender of the question or to all. -/
structure Datagram where
  unicast : Bool
  bytes : List UInt8
  deriving DecidableEq

/-- `sendbuffer`, and what has been sent. -/
structure Sending where
  sendbuffer : List UInt8
  sent : List Datagram

/-- What becomes of a packet. If there is none, the buffer may have changed all the same. -/
def Sending.send (sending : Sending) (unicast : Bool) : Except Stop Writer → Except Fault Sending
  | .ok w => do
    let bytes ← bytesAt w.buffer 0 w.data
    return ⟨w.buffer, sending.sent ++ [⟨unicast, bytes⟩]⟩
  | .error (.null buffer) => .ok ⟨buffer, sending.sent⟩
  | .error (.fault fault) => .error fault

/-- Sending an answer, unicast or multicast depending on the flag in the question. -/
def Sending.answer (sending : Sending) (e : MdnsEntry) (name : List UInt8) (answer : MdnsRecord)
    (additional : List MdnsRecord) : Except Fault Sending :=
  if e.rclass &&& mdnsUnicastResponse ≠ 0 then
    sending.send true
      (mdnsQueryAnswerUnicast sending.sendbuffer e.queryId e.rtype name answer [] additional)
  else sending.send false (mdnsQueryAnswerMulticast sending.sendbuffer answer [] additional)

/-- The types of questions that are answered. -/
def answeredTypes : List ℕ :=
  [mdnsRecordtypePtr, mdnsRecordtypeSrv, mdnsRecordtypeA, mdnsRecordtypeAaaa, mdnsRecordtypeAny]

/-- `service_callback`. -/
def serviceCallback (service : Service) (buffer : List UInt8) (size : ℕ) : MdnsCallback Sending :=
  fun e sending => do
    if e.entry ≠ .question then return (false, sending)
    let (_, name) ← mdnsStringExtract buffer size e.nameOffset 256
    if e.rtype ∉ answeredTypes then return (false, sending)
    match service.answer name e.rtype with
    | none => return (false, sending)
    | some (answer, additional) =>
      let sending ← sending.answer e name answer additional
      return (false, sending)

/-- A server with its buffer for what it receives. -/
structure MdnsServer where
  buffer : List UInt8
  sending : Sending

/-- A pass of the loop of `service_mdns` for one datagram. What does not fit into the buffer is cut
off. -/
def MdnsServer.receive (service : Service) (server : MdnsServer) (datagram : List UInt8) :
    Except Fault MdnsServer := do
  let bytes := datagram.take server.buffer.length
  let buffer := overwrite server.buffer 0 bytes
  let (_, sending) ← mdnsSocketListen buffer bytes.length
    (serviceCallback service buffer bytes.length) server.sending
  return ⟨buffer, sending⟩

/-- A packet for each socket, made in the buffer for what it receives. -/
def MdnsServer.sendAll (numSockets : ℕ) (make : List UInt8 → Except Stop Writer)
    (server : MdnsServer) : Except Fault MdnsServer :=
  (List.range numSockets).foldlM (fun server _ => do
    let out ← Sending.send ⟨server.buffer, server.sending.sent⟩ false (make server.buffer)
    return ⟨out.sendbuffer, ⟨server.sending.sendbuffer, out.sent⟩⟩) server

/-- `service_mdns` with these sockets, for the datagrams that come until it ends. -/
def serviceMdns (service : Service) (numSockets : ℕ) (server : MdnsServer)
    (datagrams : List (List UInt8)) : Except Fault MdnsServer := do
  let server ← server.sendAll numSockets fun buffer =>
    mdnsAnnounceMulticast buffer service.recordPtr [] service.announced
  let server ← datagrams.foldlM (MdnsServer.receive service) server
  server.sendAll numSockets fun buffer =>
    mdnsGoodbyeMulticast buffer service.recordPtr [] service.announced

/-! ### The answers of a service -/

/-- The strings of a service are names, and its data fits into its records. -/
structure Service.Proper (names : Set (List (List UInt8))) (service : Service) : Prop where
  nameDnsSd : Named names dnsSd
  nameService : Named names service.service
  nameInstance : Named names service.serviceInstance
  nameQualified : Named names service.hostnameQualified
  zeroless : 0 ∉ service.service ∧ 0 ∉ service.serviceInstance ∧ 0 ∉ service.hostnameQualified
  ipv4 : service.addressIpv4.sinFamily = afInet → service.addressIpv4.sAddr.length = 4
  ipv6 : service.addressIpv6.sin6Family = afInet6 → service.addressIpv6.sin6Addr.length = 16
  port : service.port < 65536

variable {names : Set (List (List UInt8))} {service : Service} {name str : List UInt8} {rtype : ℕ}
  {answer : MdnsRecord} {additional : List MdnsRecord}

theorem eq_of_strncmpZero (length : name.length = str.length) (zeroless : 0 ∉ str)
    (same : strncmpZero name str = true) : name = str := by
  induction name generalizing str with
  | nil => exact (List.length_eq_zero_iff.mp length.symm).symm
  | cons a as ih =>
    cases str with
    | nil => cases length
    | cons b bs =>
      obtain ⟨head, tail⟩ := not_or.mp (List.mem_cons.not.mp zeroless)
      simp only [strncmpZero, decide_eq_true_eq] at same
      obtain ⟨rfl, zero | rest⟩ := same
      · exact absurd zero.symm head
      · rw [ih (Nat.succ.inj length) tail rest]

theorem eq_of_sameName (zeroless : 0 ∉ str) (same : sameName name str = true) : name = str := by
  simp only [sameName, decide_eq_true_eq] at same
  exact eq_of_strncmpZero same.1 zeroless same.2

theorem answerable_of (valid : answer.Valid names)
    (more : ∀ record ∈ additional, record.Valid names) (plain : answer.isTxt = false) :
    Answerable names answer [] additional where
  valid := List.forall_mem_cons.mpr ⟨valid, more⟩
  plain := plain

@[simp] theorem Service.text_ipv4Records (service : Service) :
    service.ipv4Records.filterMap MdnsRecord.text = [] := by
  rw [ipv4Records]
  split_ifs <;> rfl

@[simp] theorem Service.text_ipv6Records (service : Service) :
    service.ipv6Records.filterMap MdnsRecord.text = [] := by
  rw [ipv6Records]
  split_ifs <;> rfl

@[simp] theorem Service.text_recordSrv (service : Service) : service.recordSrv.text = none := rfl

@[simp] theorem Service.length_text_txtRecord (service : Service) :
    (service.txtRecord.filterMap MdnsRecord.text).length = 2 := rfl

namespace Service.Proper

variable (proper : service.Proper names)

include proper

theorem valid_ipv4Records : ∀ record ∈ service.ipv4Records, record.Valid names := by
  intro record member
  rw [ipv4Records] at member
  split_ifs at member with isIpv4
  · obtain rfl := List.mem_singleton.mp member
    exact ⟨proper.nameQualified, proper.ipv4 isIpv4⟩
  · cases member

theorem valid_ipv6Records : ∀ record ∈ service.ipv6Records, record.Valid names := by
  intro record member
  rw [ipv6Records] at member
  split_ifs at member with isIpv6
  · obtain rfl := List.mem_singleton.mp member
    exact ⟨proper.nameQualified, proper.ipv6 isIpv6⟩
  · cases member

theorem valid_txtRecord : ∀ record ∈ service.txtRecord, record.Valid names := by
  rintro record (_ | ⟨_, _ | ⟨_, ⟨⟩⟩⟩)
  · exact ⟨proper.nameInstance, by decide, by simp [equalsSign], by decide⟩
  · exact ⟨proper.nameInstance, by decide, by simp [equalsSign], by decide⟩

theorem valid_recordSrv : service.recordSrv.Valid names :=
  ⟨proper.nameInstance, by decide, by decide, proper.port, proper.nameQualified⟩

theorem valid_recordPtr : service.recordPtr.Valid names := ⟨proper.nameService, proper.nameInstance⟩

theorem answerable_recordPtr : Answerable names service.recordPtr [] service.announced :=
  answerable_of proper.valid_recordPtr (List.forall_mem_append.mpr
    ⟨List.forall_mem_cons.mpr ⟨proper.valid_recordSrv, List.forall_mem_append.mpr
      ⟨proper.valid_ipv4Records, proper.valid_ipv6Records⟩⟩, proper.valid_txtRecord⟩) rfl

omit proper in
theorem length_text_announced (service : Service) :
    (service.announced.filterMap MdnsRecord.text).length = 2 := by
  simp [announced, List.filterMap_cons_none (text_recordSrv service)]

/-- **Inversion lemma.** Each answer is of valid records, and to a question for one of the names. -/
theorem of_answer (isAnswer : service.answer name rtype = some (answer, additional)) :
    Named names name ∧ Answerable names answer [] additional ∧
      (additional.filterMap MdnsRecord.text).length ≤ 128 := by
  have ipv4 := proper.valid_ipv4Records
  have ipv6 := proper.valid_ipv6Records
  have txt := proper.valid_txtRecord
  obtain ⟨zeroless, zeroless', zeroless''⟩ := proper.zeroless
  unfold Service.answer at isAnswer
  split_ifs at isAnswer with isDnsSd _ isService _ isInstance _ isQualified isA isAaaa
  · obtain ⟨rfl, rfl⟩ := Prod.mk.inj (Option.some.inj isAnswer)
    obtain rfl := eq_of_sameName (by decide) isDnsSd
    exact ⟨proper.nameDnsSd, answerable_of ⟨proper.nameDnsSd, proper.nameService⟩ (by simp) rfl,
      by simp⟩
  · obtain ⟨rfl, rfl⟩ := Prod.mk.inj (Option.some.inj isAnswer)
    obtain rfl := eq_of_sameName zeroless isService
    exact ⟨proper.nameService, proper.answerable_recordPtr,
      (length_text_announced service).trans_le (by decide)⟩
  · obtain ⟨rfl, rfl⟩ := Prod.mk.inj (Option.some.inj isAnswer)
    obtain rfl := eq_of_sameName zeroless' isInstance
    exact ⟨proper.nameInstance, answerable_of proper.valid_recordSrv
      (List.forall_mem_append.mpr ⟨List.forall_mem_append.mpr ⟨ipv4, ipv6⟩, txt⟩) rfl, by simp⟩
  · obtain ⟨rfl, rfl⟩ := Prod.mk.inj (Option.some.inj isAnswer)
    obtain rfl := eq_of_sameName zeroless'' isQualified
    exact ⟨proper.nameQualified, answerable_of ⟨proper.nameQualified, proper.ipv4 isA.2⟩
      (List.forall_mem_append.mpr ⟨ipv6, txt⟩) rfl, by simp⟩
  · obtain ⟨rfl, rfl⟩ := Prod.mk.inj (Option.some.inj isAnswer)
    obtain rfl := eq_of_sameName zeroless'' isQualified
    exact ⟨proper.nameQualified, answerable_of ⟨proper.nameQualified, proper.ipv6 isAaaa.2⟩
      (List.forall_mem_append.mpr ⟨ipv4, txt⟩) rfl, by simp⟩

end Service.Proper

/-! ### What is sent -/

/-- A packet that is read as an answer of the service. -/
def Service.Answers (service : Service) (datagram : Datagram) : Prop :=
  ∃ name rtype queryId answer additional,
    service.answer name rtype = some (answer, additional) ∧
    if datagram.unicast then
      ReadsAs datagram.bytes queryId (1 + (sentRecords additional).length)
        (printedAnswer (mdnsUnicastResponse ||| mdnsClassIn) 10 answer [] additional)
    else
      ReadsAs datagram.bytes 0 (1 + (sentRecords additional).length)
        (printedAnswer mdnsClassIn 60 answer [] additional)

/-- A packet that is read as an announcement that holds for some time. -/
def Service.Announces (service : Service) (ttl : ℕ) (datagram : Datagram) : Prop :=
  datagram.unicast = false ∧ ReadsAs datagram.bytes 0 (1 + (sentRecords service.announced).length)
    (printedAnswer (mdnsClassIn ||| mdnsUnicastResponse) ttl service.recordPtr [] service.announced)

/-- More has been sent, and all of it is so. -/
structure Sending.Sends (p : Datagram → Prop) (sending sending' : Sending) : Prop where
  length : sending'.sendbuffer.length = sending.sendbuffer.length
  sent : ∃ more, sending'.sent = sending.sent ++ more ∧ ∀ datagram ∈ more, p datagram

theorem Sending.Sends.refl {p : Datagram → Prop} (sending : Sending) : sending.Sends p sending :=
  ⟨rfl, [], (List.append_nil _).symm, by simp⟩

theorem Sending.Sends.trans {p : Datagram → Prop} {sending sending' sending'' : Sending}
    (h : sending.Sends p sending') (h' : sending'.Sends p sending'') :
    sending.Sends p sending'' := by
  obtain ⟨more, sent, holds⟩ := h.sent
  obtain ⟨more', sent', holds'⟩ := h'.sent
  refine ⟨h'.length.trans h.length, more ++ more', ?_, List.forall_mem_append.mpr ⟨holds, holds'⟩⟩
  rw [sent', sent, List.append_assoc]

/-- A buffer that packets can be written to. -/
structure Roomy (buffer : List UInt8) : Prop where
  big : 48 ≤ buffer.length
  small : buffer.length ≤ 0x4000

theorem Roomy.of_length {buffer buffer' : List UInt8} (roomy : Roomy buffer)
    (length : buffer'.length = buffer.length) : Roomy buffer' :=
  ⟨length ▸ roomy.big, length ▸ roomy.small⟩

/-- The packet is inside the buffer. -/
theorem Sending.send_eq {trust : Prop} (sending : Sending) (unicast : Bool) {size : ℕ}
    {run : Except Stop Writer} {post : Known UInt8 → Writer → Prop}
    (writing : Writing trust names (fun _ => none) ⟨sending.sendbuffer, 0, some .empty⟩ run size
      post) :
    (∃ buffer, run = .error (.null buffer) ∧ sending.sendbuffer.length < size ∧
      sending.send unicast run = .ok ⟨buffer, sending.sent⟩ ∧
      buffer.length = sending.sendbuffer.length) ∨
    ∃ w, run = .ok w ∧ w.buffer.length = sending.sendbuffer.length ∧
      sending.send unicast run =
        .ok ⟨w.buffer, sending.sent ++ [⟨unicast, w.buffer.take w.data⟩]⟩ := by
  rcases writing with ⟨buffer, rfl, length, short⟩ | ⟨m, w, rfl, later, ready, -, -⟩
  · exact .inl ⟨buffer, rfl, by simpa using short, rfl, length⟩
  · refine .inr ⟨w, rfl, later.length, ?_⟩
    rw [send, bytesAt_of_le ((Nat.zero_add _).trans_le ready.writes.inside)]
    rfl

theorem Sending.sends_send {trust : Prop} {sending : Sending} {unicast : Bool}
    {p : Datagram → Prop} {size : ℕ} {run : Except Stop Writer} {post : Known UInt8 → Writer → Prop}
    (writing : Writing trust names (fun _ => none) ⟨sending.sendbuffer, 0, some .empty⟩ run size
      post)
    (holds : ∀ w, run = .ok w → p ⟨unicast, w.buffer.take w.data⟩) :
    ∃ sending', sending.send unicast run = .ok sending' ∧ sending.Sends p sending' := by
  rcases sending.send_eq unicast writing with
    ⟨buffer, -, -, sent, length⟩ | ⟨w, isRun, length, sent⟩
  · exact ⟨_, sent, length, [], (List.append_nil _).symm, by simp⟩
  · refine ⟨_, sent, length, _, rfl, ?_⟩
    rintro datagram (_ | ⟨_, ⟨⟩⟩)
    exact holds w isRun

namespace Service.Proper

variable (proper : service.Proper names) {sending : Sending} {server : MdnsServer}

include proper

/-- **Step lemma.** An answer. -/
theorem sends_answer (roomy : Roomy sending.sendbuffer) {e : MdnsEntry}
    (shortId : e.queryId < 65536)
    (isAnswer : service.answer name e.rtype = some (answer, additional)) :
    ∃ sending', sending.answer e name answer additional = .ok sending' ∧
      sending.Sends (fun datagram => Unambiguous names ∧ Readable names → service.Answers datagram)
        sending' := by
  obtain ⟨named, answerable, few⟩ := proper.of_answer isAnswer
  rw [Sending.answer]
  split_ifs
  · have writing := writing_unicast roomy.big roomy.small
      (fun trusted : Unambiguous names ∧ Readable names => trusted.1) named answerable e.queryId
      e.rtype
    refine Sending.sends_send writing fun w runs trusted => ?_
    rw [eq_true trusted] at writing
    exact ⟨name, e.rtype, e.queryId, answer, additional, isAnswer,
      readBack_of_writing writing trusted.2 answerable (Nat.zero_le _) few (by decide) (by decide)
        shortId w runs⟩
  · have writing := writing_multicast roomy.big roomy.small
      (fun trusted : Unambiguous names ∧ Readable names => trusted.1) answerable mdnsClassIn 60
    refine Sending.sends_send writing fun w runs trusted => ?_
    rw [eq_true trusted] at writing
    exact ⟨name, e.rtype, e.queryId, answer, additional, isAnswer,
      readBack_of_writing writing trusted.2 answerable (Nat.zero_le _) few (by decide) (by decide)
        (by decide) w runs⟩

/-- **Step lemma.** A question. -/
theorem sends_callback (roomy : Roomy sending.sendbuffer) {buffer : List UInt8} {size : ℕ}
    (fits : size ≤ buffer.length) {e : MdnsEntry} (shortId : e.queryId < 65536) :
    ∃ sending', serviceCallback service buffer size e sending = .ok (false, sending') ∧
      sending.Sends (fun datagram => Unambiguous names ∧ Readable names → service.Answers datagram)
        sending' := by
  obtain ⟨stop, name, extracted, -⟩ := mdnsStringExtract_inside fits e.nameOffset 256
  rw [serviceCallback]
  by_cases other : e.entry ≠ .question
  · rw [if_pos other]
    exact ⟨sending, rfl, .refl sending⟩
  rw [if_neg other, extracted]
  simp only [bind, Except.bind]
  by_cases ignored : e.rtype ∉ answeredTypes
  · rw [if_pos ignored]
    exact ⟨sending, rfl, .refl sending⟩
  rw [if_neg ignored]
  cases isAnswer : service.answer name e.rtype with
  | none => exact ⟨sending, rfl, .refl sending⟩
  | some found =>
    obtain ⟨sending', answered, sends⟩ := proper.sends_answer roomy shortId isAnswer
    simp only [answered]
    exact ⟨sending', rfl, sends⟩

/-- **Run lemma.** The questions of a packet. -/
theorem sends_calls (roomy : Roomy sending.sendbuffer) {buffer : List UInt8} {size offset : ℕ}
    (fits : size ≤ buffer.length) {entries : List MdnsEntry} (asked : Asked size offset entries) :
    ∃ sending', calls (serviceCallback service buffer size) entries sending = .ok sending' ∧
      sending.Sends (fun datagram => Unambiguous names ∧ Readable names → service.Answers datagram)
        sending' := by
  induction asked generalizing sending with
  | nil => exact ⟨sending, rfl, .refl sending⟩
  | cons _ shortId _ _ _ ih =>
    obtain ⟨sending₁, called, sends₁⟩ := proper.sends_callback roomy fits shortId
    obtain ⟨sending₂, run, sends₂⟩ := ih (roomy.of_length sends₁.length)
    refine ⟨sending₂, ?_, sends₁.trans sends₂⟩
    rw [calls_cons, called]
    exact run

end Service.Proper

theorem goesOn_serviceCallback {buffer : List UInt8} {size : ℕ} :
    GoesOn (serviceCallback service buffer size) := by
  intro e sending result called
  unfold serviceCallback at called
  by_cases other : e.entry ≠ .question
  · rw [if_pos other] at called
    cases called
    rfl
  rw [if_neg other] at called
  obtain ⟨⟨stop, name⟩, -, called⟩ := bind_eq_ok_iff.mp called
  dsimp only at called
  by_cases ignored : e.rtype ∉ answeredTypes
  · rw [if_pos ignored] at called
    cases called
    rfl
  rw [if_neg ignored] at called
  cases isAnswer : service.answer name e.rtype with
  | none =>
    rw [isAnswer] at called
    cases called
    rfl
  | some found =>
    rw [isAnswer] at called
    obtain ⟨sending', -, same⟩ := bind_eq_ok_iff.mp called
    cases same
    rfl

/-! ### Whole runs -/

/-- A server with room for what it receives, announces and answers. -/
structure MdnsServer.Ready (server : MdnsServer) : Prop where
  buffer : Roomy server.buffer
  sendbuffer : Roomy server.sending.sendbuffer

/-- More has been sent, from the same buffers. -/
structure MdnsServer.Sends (p : Datagram → Prop) (server server' : MdnsServer) : Prop where
  length : server'.buffer.length = server.buffer.length
  sending : server.sending.Sends p server'.sending

theorem MdnsServer.Sends.ready {p : Datagram → Prop} {server server' : MdnsServer}
    (h : server.Sends p server') (ready : server.Ready) : server'.Ready :=
  ⟨ready.buffer.of_length h.length, ready.sendbuffer.of_length h.sending.length⟩

namespace Service.Proper

variable (proper : service.Proper names) {server : MdnsServer}

include proper

/-- **Step lemma.** A datagram. -/
theorem sends_receive (ready : server.Ready) {datagram : List UInt8}
    (room : datagram.length + 4 ≤ server.buffer.length) :
    ∃ server', server.receive service datagram = .ok server' ∧
      server.Sends (fun datagram => Unambiguous names ∧ Readable names → service.Answers datagram)
        server' := by
  have whole : datagram.take server.buffer.length = datagram := List.take_of_length_le (by omega)
  have length : (overwrite server.buffer 0 datagram).length = server.buffer.length :=
    overwrite_length _ _ (by omega)
  have header : 12 ≤ (overwrite server.buffer 0 datagram).length := by
    have big := ready.buffer.big
    omega
  obtain ⟨entries, asked, listen⟩ := mdnsSocketListen_spec (room.trans_eq length.symm) header
  obtain ⟨sending, called, sends⟩ := proper.sends_calls ready.sendbuffer
    (show datagram.length ≤ (overwrite server.buffer 0 datagram).length by omega) asked
  refine ⟨⟨overwrite server.buffer 0 datagram, sending⟩, ?_, length, sends⟩
  rw [MdnsServer.receive, whole]
  simp only [listen _ _ goesOn_serviceCallback, called]
  rfl

/-- **Run lemma.** Datagrams. -/
theorem sends_receives (ready : server.Ready) {datagrams : List (List UInt8)}
    (room : ∀ datagram ∈ datagrams, datagram.length + 4 ≤ server.buffer.length) :
    ∃ server', datagrams.foldlM (MdnsServer.receive service) server = .ok server' ∧
      server.Sends (fun datagram => Unambiguous names ∧ Readable names → service.Answers datagram)
        server' := by
  induction datagrams generalizing server with
  | nil => exact ⟨server, rfl, rfl, .refl _⟩
  | cons datagram datagrams ih =>
    obtain ⟨server₁, received, sends₁⟩ :=
      proper.sends_receive ready (room datagram (List.mem_cons_self ..))
    obtain ⟨server₂, run, sends₂⟩ := ih (sends₁.ready ready)
      fun datagram member => sends₁.length ▸ room datagram (List.mem_cons_of_mem _ member)
    refine ⟨server₂, ?_, sends₂.length.trans sends₁.length, sends₁.sending.trans sends₂.sending⟩
    rw [List.foldlM_cons, received]
    exact run

/-- **Run lemma.** Announcements: one for each socket, if the buffer has room. -/
theorem announces_sendAll (ready : server.Ready) {ttl : ℕ} (shortTtl : ttl < 65536 * 65536)
    (room : 12 + sectionsSize service.recordPtr [] service.announced ≤ server.buffer.length)
    (numSockets : ℕ) :
    ∃ server' more, server.sendAll numSockets (fun buffer => mdnsAnswerMulticastRclassTtl buffer
        (mdnsClassIn ||| mdnsUnicastResponse) service.recordPtr [] service.announced ttl) =
        .ok server' ∧
      server'.buffer.length = server.buffer.length ∧
      server'.sending.sendbuffer = server.sending.sendbuffer ∧
      server'.sending.sent = server.sending.sent ++ more ∧ more.length = numSockets ∧
      (Unambiguous names → Readable names → ∀ datagram ∈ more, service.Announces ttl datagram) := by
  induction numSockets with
  | zero => exact ⟨server, [], rfl, rfl, rfl, (List.append_nil _).symm, rfl, by simp⟩
  | succ numSockets ih =>
    obtain ⟨server₁, more, run, length₁, same, sent, count, announces⟩ := ih
    have roomy := ready.buffer.of_length length₁
    have writing := writing_multicast roomy.big roomy.small
      (fun trusted : Unambiguous names ∧ Readable names => trusted.1) proper.answerable_recordPtr
      (mdnsClassIn ||| mdnsUnicastResponse) ttl
    rcases Sending.send_eq ⟨server₁.buffer, server₁.sending.sent⟩ false writing with
      ⟨_, -, short, -⟩ | ⟨w, runs, length, send⟩
    · have short : server₁.buffer.length <
          12 + sectionsSize service.recordPtr [] service.announced := short
      omega
    · refine ⟨⟨w.buffer, ⟨server₁.sending.sendbuffer,
          server₁.sending.sent ++ [⟨false, w.buffer.take w.data⟩]⟩⟩,
        more ++ [⟨false, w.buffer.take w.data⟩], ?_, length.trans length₁, same, ?_, ?_,
        fun unambiguous readable => ?_⟩
      · rw [MdnsServer.sendAll] at run ⊢
        rw [List.range_succ, List.foldlM_append, run]
        simp only [bind, Except.bind, List.foldlM_cons, List.foldlM_nil, send]
        rfl
      · rw [sent, List.append_assoc]
      · rw [List.length_append, count, List.length_singleton]
      · refine List.forall_mem_append.mpr ⟨announces unambiguous readable, ?_⟩
        rintro datagram (_ | ⟨_, ⟨⟩⟩)
        rw [eq_true (And.intro unambiguous readable)] at writing
        exact ⟨rfl, readBack_of_writing writing readable proper.answerable_recordPtr (Nat.zero_le _)
          ((length_text_announced service).trans_le (by decide)) (by decide) shortTtl (by decide) w
          runs⟩

/-- **Every run of a server.** Whatever datagrams come, each with four bytes of the buffer left, the
server uses nothing outside its buffers. It sends its announcement to each socket, then answers, and
last a goodbye to each socket, and is read so if its names are not ambiguous. -/
theorem serviceMdns_run (ready : server.Ready) {datagrams : List (List UInt8)}
    (room : ∀ datagram ∈ datagrams, datagram.length + 4 ≤ server.buffer.length)
    (room' : 12 + sectionsSize service.recordPtr [] service.announced ≤ server.buffer.length)
    (numSockets : ℕ) :
    ∃ server' announcements answers goodbyes,
      serviceMdns service numSockets server datagrams = .ok server' ∧
      server'.sending.sent = server.sending.sent ++ announcements ++ answers ++ goodbyes ∧
      announcements.length = numSockets ∧ goodbyes.length = numSockets ∧
      (Unambiguous names → Readable names →
        (∀ datagram ∈ announcements, service.Announces 60 datagram) ∧
        (∀ datagram ∈ answers, service.Answers datagram) ∧
        ∀ datagram ∈ goodbyes, service.Announces 0 datagram) := by
  obtain ⟨server₁, announcements, run₁, length₁, same₁, sent₁, count₁, announces⟩ :=
    proper.announces_sendAll ready (by decide : 60 < 65536 * 65536) room' numSockets
  have ready₁ : server₁.Ready := ⟨ready.buffer.of_length length₁, same₁ ▸ ready.sendbuffer⟩
  obtain ⟨server₂, run₂, sends₂⟩ := proper.sends_receives ready₁
    (fun datagram member => length₁ ▸ room datagram member)
  obtain ⟨answers, sent₂, answered⟩ := sends₂.sending.sent
  obtain ⟨server₃, goodbyes, run₃, -, -, sent₃, count₃, announces'⟩ :=
    proper.announces_sendAll (sends₂.ready ready₁) (by decide : 0 < 65536 * 65536)
      (room'.trans_eq (sends₂.length.trans length₁).symm) numSockets
  refine ⟨server₃, announcements, answers, goodbyes, ?_, ?_, count₁, count₃,
    fun unambiguous readable => ⟨announces unambiguous readable,
      fun datagram member => answered datagram member ⟨unambiguous, readable⟩,
      announces' unambiguous readable⟩⟩
  · rw [serviceMdns]
    simp only [mdnsAnnounceMulticast, mdnsGoodbyeMulticast, run₁, bind, Except.bind, run₂, run₃]
  · rw [sent₃, sent₂, sent₁]

end Service.Proper

end Sqwar.Network
