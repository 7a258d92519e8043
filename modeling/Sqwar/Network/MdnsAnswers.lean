import Sqwar.Network.MdnsCompression
import Sqwar.Network.MdnsPackets

/-!
# Writing mDNS packets

`mdns_query_send` writes a question, and `mdns_query_answer_unicast` and the multicast answers write
records. The length of a record is filled in when its data has been written, and the text records of
a section become one.
-/

set_option autoImplicit false

namespace Sqwar.Network

open Data Semantics

/-- `struct sockaddr_in6`. -/
structure SockaddrIn6 where
  sin6Family : ℕ
  sin6Addr : List UInt8
  deriving DecidableEq, Repr

/-- The data of a `mdns_record_t`, by its type. -/
inductive MdnsRecordData
  | ignore
  | a (addr : SockaddrIn)
  | ptr (name : List UInt8)
  | txt (key value : List UInt8)
  | aaaa (addr : SockaddrIn6)
  | srv (priority weight port : ℕ) (name : List UInt8)
  | any
  deriving DecidableEq

/-- `mdns_record_type_t`. -/
def MdnsRecordData.type : MdnsRecordData → ℕ
  | .ignore => 0
  | .a _ => mdnsRecordtypeA
  | .ptr _ => mdnsRecordtypePtr
  | .txt _ _ => mdnsRecordtypeTxt
  | .aaaa _ => mdnsRecordtypeAaaa
  | .srv _ _ _ _ => mdnsRecordtypeSrv
  | .any => mdnsRecordtypeAny

/-- `mdns_record_t`. -/
structure MdnsRecord where
  name : List UInt8
  data : MdnsRecordData
  deriving DecidableEq

/-- Whether a record becomes a part of the text record. -/
def MdnsRecord.isTxt (record : MdnsRecord) : Bool := record.data.type = mdnsRecordtypeTxt

/-- `struct mdns_header_t`. -/
def mdnsHeader (queryId flags questions answerRrs authorityRrs additionalRrs : ℕ) : List UInt8 :=
  htonsBytes queryId ++ htonsBytes flags ++ htonsBytes questions ++ htonsBytes answerRrs ++
    htonsBytes authorityRrs ++ htonsBytes additionalRrs

/-- `mdns_query_send` on a socket with this port, if its name can be got: the packet that is
sent. -/
def mdnsQuerySend (type : ℕ) (name buffer : List UInt8) (queryId : ℕ) (port : Option ℕ) :
    Except Stop Writer :=
  if buffer.length < 17 + name.length then .error (.null buffer)
  else do
    let rclass := if port = some 5353 then mdnsClassIn else mdnsClassIn ||| mdnsUnicastResponse
    let w ← Writer.store ⟨buffer, 0, none⟩ (mdnsHeader queryId 0 1 0 0 0)
    let w ← mdnsStringMake w name
    w.store (htonsBytes type ++ htonsBytes rclass)

/-- `mdns_answer_add_question_unicast`. -/
def mdnsAnswerAddQuestionUnicast (w : Writer) (recordType : ℕ) (name : List UInt8) :
    Except Stop Writer := do
  let w ← mdnsStringMake w name
  if w.buffer.length - w.data < 4 then .error (.null w.buffer)
  else w.store (htonsBytes recordType ++ htonsBytes (mdnsUnicastResponse ||| mdnsClassIn))

/-- `mdns_answer_add_record_header`. -/
def mdnsAnswerAddRecordHeader (w : Writer) (record : MdnsRecord) (rclass ttl : ℕ) :
    Except Stop Writer := do
  let w ← mdnsStringMake w record.name
  if w.buffer.length - w.data < 10 then .error (.null w.buffer)
  else
    let w ← w.store (htonsBytes record.data.type ++ htonsBytes rclass ++ htonlBytes ttl)
    w.store (htonsBytes 0)

/-- The `switch` of `mdns_answer_add_record`. -/
def addRecordData (w : Writer) : MdnsRecordData → Except Stop Writer
  | .ptr name => mdnsStringMake w name
  | .srv priority weight port name =>
    if w.buffer.length - w.data ≤ 6 then .error (.null w.buffer)
    else do
      let w ← w.store (htonsBytes priority ++ htonsBytes weight ++ htonsBytes port)
      mdnsStringMake w name
  | .a addr =>
    if w.buffer.length - w.data < 4 then .error (.null w.buffer) else w.store addr.sAddr
  | .aaaa addr =>
    if w.buffer.length - w.data < 16 then .error (.null w.buffer) else w.store addr.sin6Addr
  | _ => .ok w

/-- Filling the length of a record whose data begins at an offset. -/
def fillLength (w : Writer) (recordData : ℕ) : Except Stop Writer :=
  if recordData ≤ w.buffer.length then
    .ok { w with buffer := overwrite w.buffer (recordData - 2) (htonsBytes (w.data - recordData)) }
  else .error (.fault .outOfBounds)

/-- `mdns_answer_add_record`. -/
def mdnsAnswerAddRecord (rclass ttl : ℕ) (w : Writer) (record : MdnsRecord) : Except Stop Writer :=
  if record.isTxt then .ok w
  else do
    let w ← mdnsAnswerAddRecordHeader w record rclass ttl
    let w' ← addRecordData w record.data
    fillLength w' w.data

/-- `'='`. -/
def equalsSign : UInt8 := 61

/-- A text of `mdns_answer_add_txt_record`. -/
def addText (w : Writer) (key value : List UInt8) : Except Stop Writer :=
  let stringLength := key.length + value.length + 1
  if w.buffer.length - w.data ≤ stringLength ∨ stringLength > 0x3FFF then .error (.null w.buffer)
  else w.store (UInt8.ofNat stringLength :: key ++ equalsSign :: value)

/-- The loop of `mdns_answer_add_txt_record`, with the offset `record_data`, if it has been set. -/
def addTxtLoop (rclass ttl : ℕ) (w : Writer) (recordData : Option ℕ) :
    List MdnsRecord → Except Stop (Writer × Option ℕ)
  | [] => .ok (w, recordData)
  | record :: records =>
    match record.data with
    | .txt key value => do
      let w ← match recordData with
        | some _ => .ok w
        | none => mdnsAnswerAddRecordHeader w record rclass ttl
      let recordData := recordData.getD w.data
      let w ← addText w key value
      addTxtLoop rclass ttl w (some recordData) records
    | _ => addTxtLoop rclass ttl w recordData records

/-- `mdns_answer_add_txt_record`. -/
def mdnsAnswerAddTxtRecord (rclass ttl : ℕ) (w : Writer) (records : List MdnsRecord) :
    Except Stop Writer := do
  let (w, recordData) ← addTxtLoop rclass ttl w none records
  match recordData with
  | some recordData => fillLength w recordData
  | none => .ok w

/-- `mdns_answer_get_record_count`. -/
def mdnsAnswerGetRecordCount (records : List MdnsRecord) : ℕ :=
  ((records.filter fun record => !record.isTxt).length +
    if records.any MdnsRecord.isTxt then 1 else 0) % 65536

/-- The records of an answer, section after section. -/
def addSections (w : Writer) (answer : MdnsRecord) (authority additional : List MdnsRecord)
    (rclass ttl : ℕ) : Except Stop Writer := do
  let w ← mdnsAnswerAddRecord rclass ttl w answer
  let w ← authority.foldlM (mdnsAnswerAddRecord rclass ttl) w
  let w ← mdnsAnswerAddTxtRecord rclass ttl w authority
  let w ← additional.foldlM (mdnsAnswerAddRecord rclass ttl) w
  mdnsAnswerAddTxtRecord rclass ttl w additional

/-- `mdns_query_answer_unicast`: the packet that is sent. -/
def mdnsQueryAnswerUnicast (buffer : List UInt8) (queryId recordType : ℕ) (name : List UInt8)
    (answer : MdnsRecord) (authority additional : List MdnsRecord) : Except Stop Writer :=
  if buffer.length < 12 + 32 + 4 then .error (.null buffer)
  else do
    let w ← Writer.store ⟨buffer, 0, some .empty⟩ (mdnsHeader queryId 0x8400 1 1
      (mdnsAnswerGetRecordCount authority) (mdnsAnswerGetRecordCount additional))
    let w ← mdnsAnswerAddQuestionUnicast w recordType name
    addSections w answer authority additional (mdnsUnicastResponse ||| mdnsClassIn) 10

/-- `mdns_answer_multicast_rclass_ttl`: the packet that is sent. -/
def mdnsAnswerMulticastRclassTtl (buffer : List UInt8) (rclass : ℕ) (answer : MdnsRecord)
    (authority additional : List MdnsRecord) (ttl : ℕ) : Except Stop Writer :=
  if buffer.length < 12 + 32 + 4 then .error (.null buffer)
  else do
    let w ← Writer.store ⟨buffer, 0, some .empty⟩ (mdnsHeader 0 0x8400 0 1
      (mdnsAnswerGetRecordCount authority) (mdnsAnswerGetRecordCount additional))
    addSections w answer authority additional rclass ttl

/-- `mdns_query_answer_multicast`. -/
def mdnsQueryAnswerMulticast (buffer : List UInt8) (answer : MdnsRecord)
    (authority additional : List MdnsRecord) : Except Stop Writer :=
  mdnsAnswerMulticastRclassTtl buffer mdnsClassIn answer authority additional 60

/-- `mdns_announce_multicast`. -/
def mdnsAnnounceMulticast (buffer : List UInt8) (answer : MdnsRecord)
    (authority additional : List MdnsRecord) : Except Stop Writer :=
  mdnsAnswerMulticastRclassTtl buffer (mdnsClassIn ||| mdnsUnicastResponse) answer authority
    additional 60

/-- `mdns_goodbye_multicast`. -/
def mdnsGoodbyeMulticast (buffer : List UInt8) (answer : MdnsRecord)
    (authority additional : List MdnsRecord) : Except Stop Writer :=
  mdnsAnswerMulticastRclassTtl buffer (mdnsClassIn ||| mdnsUnicastResponse) answer authority
    additional 0

end Sqwar.Network
