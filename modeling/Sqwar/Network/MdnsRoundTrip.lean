import Sqwar.Network.MdnsReading

/-!
# Answers are read back

Whatever is left in the buffer of an answer, and whatever is behind the packet where it is received,
`query_callback` prints the records that the answer has been made from.
-/

set_option autoImplicit false

namespace Sqwar.Network

open Data Semantics

variable {trust : Prop} {names : Set (List (List UInt8))} {m : Known UInt8} {w : Writer}
  {buffer name : List UInt8} {rclass ttl queryId recordType o stop : ℕ} {answer : MdnsRecord}
  {authority additional records : List MdnsRecord}

theorem htonsBytes_mod (val : ℕ) : htonsBytes (val % 65536) = htonsBytes val := by
  have high : UInt8.ofNat (val % 65536 / 256) = UInt8.ofNat (val / 256) := by
    apply UInt8.toNat_inj.mp
    simp only [UInt8.toNat_ofNat']
    omega
  have low : UInt8.ofNat (val % 65536) = UInt8.ofNat val := by
    apply UInt8.toNat_inj.mp
    simp only [UInt8.toNat_ofNat']
    omega
  rw [htonsBytes, htonsBytes, high, low]

/-- The header counts the records that are sent. -/
theorem htonsBytes_recordCount (records : List MdnsRecord) :
    htonsBytes (mdnsAnswerGetRecordCount records) = htonsBytes (sentRecords records).length := by
  rw [mdnsAnswerGetRecordCount, htonsBytes_mod]
  congr 1
  rw [sentRecords, List.length_append, List.length_map, List.length_map]
  congr 1
  cases first : records.filter MdnsRecord.isTxt with
  | nil =>
    have none : records.any MdnsRecord.isTxt = false := by
      rw [List.any_eq_false]
      exact List.filter_eq_nil_iff.mp first
    simp [none]
  | cons record rest =>
    have some : records.any MdnsRecord.isTxt = true := by
      rw [List.any_eq_true]
      exact ⟨record, List.mem_filter.mp (first ▸ List.mem_cons_self ..)⟩
    simp [some]

/-- An empty packet. -/
theorem ready_empty (small : buffer.length ≤ 0x4000) (unambiguous : trust → Unambiguous names) :
    Ready trust names (fun _ => none) ⟨buffer, 0, some .empty⟩ where
  writes := ⟨fun _ _ known => absurd known (by simp), fun _ _ => rfl, Nat.zero_le _⟩
  entries o member := by
    have none : (⟨buffer, 0, some .empty⟩ : Writer).entries = [] := rfl
    rw [none] at member
    cases member
  small := small
  unambiguous := unambiguous

/-- As many bytes as the records of an answer may take. -/
def sectionsSize (answer : MdnsRecord) (authority additional : List MdnsRecord) : ℕ :=
  answer.size + ((authority.map MdnsRecord.size).sum + (additional.map MdnsRecord.size).sum)

/-- The records of an answer can be written. -/
structure Answerable (names : Set (List (List UInt8))) (answer : MdnsRecord)
    (authority additional : List MdnsRecord) : Prop where
  valid : ∀ record ∈ answer :: authority ++ additional, record.Valid names
  plain : answer.isTxt = false

theorem writing_answerSections (ready : Ready trust names m w)
    (answerable : Answerable names answer authority additional) (rclass ttl : ℕ) :
    Writing trust names m w (addSections w answer authority additional rclass ttl)
      (sectionsSize answer authority additional) fun m' w' => ∃ o₁ o₂,
        SectionAt trust names m' rclass ttl [⟨answer.name, .plain answer.data⟩] w.data o₁ ∧
        SectionAt trust names m' rclass ttl (sentRecords authority) o₁ o₂ ∧
        SectionAt trust names m' rclass ttl (sentRecords additional) o₂ w'.data :=
  writing_sections ready (answerable.valid answer (by simp)) answerable.plain
    (fun record member => answerable.valid record (by simp [member]))
    (fun record member => answerable.valid record (by simp [member])) rclass ttl

/-- **A multicast answer.** -/
theorem writing_multicast (big : 48 ≤ buffer.length) (small : buffer.length ≤ 0x4000)
    (unambiguous : trust → Unambiguous names)
    (answerable : Answerable names answer authority additional) (rclass ttl : ℕ) :
    Writing trust names (fun _ => none) ⟨buffer, 0, some .empty⟩
      (mdnsAnswerMulticastRclassTtl buffer rclass answer authority additional ttl)
      (12 + sectionsSize answer authority additional) fun m' w' =>
        PacketAt trust names m' rclass ttl 0 0x8400 0 ⟨answer.name, .plain answer.data⟩
          (sentRecords authority) (sentRecords additional) w'.data := by
  have ready := ready_empty small unambiguous
  rw [mdnsAnswerMulticastRclassTtl, if_neg (by omega)]
  refine Writing.bind (.store ready (show 0 + 12 ≤ buffer.length by omega))
    fun m₁ w₁ later₁ ready₁ known => ?_
  obtain ⟨header, data⟩ := known
  have data : w₁.data = 12 := data
  simp only [mdnsHeader, htonsBytes_recordCount] at header
  refine (writing_answerSections ready₁ answerable rclass ttl).imp le_rfl
    fun m₂ w₂ later₂ sections => ?_
  obtain ⟨o₁, o₂, first, second, third⟩ := sections
  exact ⟨header.mono (later₂.le ready₁.writes), 12, o₁, o₂, .inl ⟨rfl, rfl⟩, data ▸ first, second,
    third⟩

/-- **A unicast answer.** -/
theorem writing_unicast (big : 48 ≤ buffer.length) (small : buffer.length ≤ 0x4000)
    (unambiguous : trust → Unambiguous names) (named : Named names name)
    (answerable : Answerable names answer authority additional) (queryId recordType : ℕ) :
    Writing trust names (fun _ => none) ⟨buffer, 0, some .empty⟩
      (mdnsQueryAnswerUnicast buffer queryId recordType name answer authority additional)
      (12 + (name.length + 2 + 4 + sectionsSize answer authority additional)) fun m' w' =>
        PacketAt trust names m' (mdnsUnicastResponse ||| mdnsClassIn) 10 queryId 0x8400 1
          ⟨answer.name, .plain answer.data⟩ (sentRecords authority) (sentRecords additional)
          w'.data := by
  have ready := ready_empty small unambiguous
  rw [mdnsQueryAnswerUnicast, if_neg (by omega)]
  refine Writing.bind (.store ready (show 0 + 12 ≤ buffer.length by omega))
    fun m₁ w₁ later₁ ready₁ known => ?_
  obtain ⟨header, data⟩ := known
  have data : w₁.data = 12 := data
  simp only [mdnsHeader, htonsBytes_recordCount] at header
  have question : Writing trust names m₁ w₁ (mdnsAnswerAddQuestionUnicast w₁ recordType name)
      (name.length + 2 + 4)
      fun m' w' => ∃ p, NameAt trust names m' name 12 p ∧ w'.data = p + 4 := by
    refine (writing_name ready₁ named).bind fun m₂ w₂ later₂ ready₂ isName => ?_
    refine .ite_null (fun short => by omega) fun room => ?_
    refine (Writing.store ready₂ ?_).imp le_rfl fun m₃ w₃ later₃ stored => ?_
    · change w₂.data + 4 ≤ w₂.buffer.length
      omega
    · exact ⟨w₂.data, (data ▸ isName).mono (later₃.le ready₂.writes), stored.2⟩
  refine question.bind fun m₂ w₂ later₂ ready₂ asked => ?_
  obtain ⟨p, isName, data₂⟩ := asked
  refine (writing_answerSections ready₂ answerable _ 10).imp le_rfl fun m₃ w₃ later₃ sections => ?_
  obtain ⟨o₁, o₂, first, second, third⟩ := sections
  exact ⟨(header.mono (later₂.le ready₁.writes)).mono (later₃.le ready₂.writes), p + 4, o₁, o₂,
    .inr ⟨rfl, name, p, isName.mono (later₃.le ready₂.writes), rfl⟩, data₂ ▸ first, second, third⟩

/-! ### Reading the packet -/

/-- A packet that has been received, with anything behind it. -/
theorem Writes.received (writes : Writes m w) (rest : List UInt8) :
    m.Holds (w.buffer.take w.data ++ rest) w.data := by
  intro i value known
  have before : i < w.data := by
    by_contra behind
    rw [writes.fresh i (not_lt.mp behind)] at known
    cases known
  have inside := writes.inside
  refine ⟨?_, before⟩
  rw [List.getElem?_append_left (by rw [List.length_take]; omega), List.getElem?_take_of_lt before]
  exact (writes.holds i value known).1

/-- There are no more records than bytes. -/
theorem SectionAt.length_le {sent : List SentRecord}
    (h : SectionAt trust names m rclass ttl sent o stop) : o + sent.length ≤ stop := by
  induction h with
  | nil => exact le_rfl
  | cons record _ ih =>
    have lt := record.lt
    rw [List.length_cons]
    omega

/-- The data of the records that are sent. -/
theorem valid_sentRecords (records : List MdnsRecord)
    (valid : ∀ record ∈ records, record.Valid names)
    (few : (records.filterMap MdnsRecord.text).length ≤ 128) :
    ∀ sent ∈ sentRecords records, sent.data.Valid names := by
  intro sent member
  rw [sentRecords, List.mem_append, List.mem_map, List.mem_map] at member
  rcases member with ⟨record, member, rfl⟩ | ⟨record, -, rfl⟩
  · exact (valid record (List.mem_of_mem_filter member)).2
  · exact ⟨isText_of_valid valid, few⟩

/-- What `query_callback` should print of an answer. -/
def printedAnswer (rclass ttl : ℕ) (answer : MdnsRecord) (authority additional : List MdnsRecord) :
    List Printed :=
  SentRecord.printed .answer rclass ttl ⟨answer.name, .plain answer.data⟩ ++
    (sentRecords authority).flatMap (SentRecord.printed .authority rclass ttl) ++
    (sentRecords additional).flatMap (SentRecord.printed .additional rclass ttl)

/-- What a packet is read as, wherever it is received. -/
def ReadsAs (bytes : List UInt8) (queryId count : ℕ) (printed : List Printed) : Prop :=
  ∀ (rest : List UInt8) (onlyQueryId : ℤ), onlyQueryId ≤ 0 ∨ onlyQueryId = queryId →
    mdnsQueryRecvPacket (bytes ++ rest) bytes.length (queryCallback (bytes ++ rest) bytes.length) []
      onlyQueryId = .ok (count, printed)

/-- A packet that is written is read back. -/
def ReadBack (run : Except Stop Writer) (queryId count : ℕ) (printed : List Printed) : Prop :=
  ∀ w, run = .ok w → ReadsAs (w.buffer.take w.data) queryId count printed

theorem readBack_of_writing {run : Except Stop Writer} {size flags questions : ℕ}
    (h : Writing True names (fun _ => none) ⟨buffer, 0, some .empty⟩ run size fun m' w' =>
      PacketAt True names m' rclass ttl queryId flags questions ⟨answer.name, .plain answer.data⟩
        (sentRecords authority) (sentRecords additional) w'.data)
    (readable : Readable names) (answerable : Answerable names answer authority additional)
    (few : (authority.filterMap MdnsRecord.text).length ≤ 128)
    (few' : (additional.filterMap MdnsRecord.text).length ≤ 128)
    (shortClass : rclass < 65536) (shortTtl : ttl < 65536 * 65536) (shortId : queryId < 65536) :
    ReadBack run queryId (1 + (sentRecords authority).length + (sentRecords additional).length)
      (printedAnswer rclass ttl answer authority additional) := by
  rintro w rfl rest onlyQueryId wanted
  rcases h with ⟨_, stops, -⟩ | ⟨m', w', runs, later, ready, -, packet⟩
  · cases stops
  · cases runs
    have holds := ready.writes.received rest
    have length : (w.buffer.take w.data).length = w.data :=
      List.length_take_of_le ready.writes.inside
    have small : w.data ≤ 0x4000 := ready.writes.inside.trans ready.small
    obtain ⟨start, o₁, o₂, -, first, second, third⟩ := packet.records
    have length₁ := first.length_le
    have length₂ := second.length_le
    have length₃ := third.length_le
    obtain ⟨answers, authorities, additionals, areAnswers, areAuthorities, areAdditionals, run⟩ :=
      packet.entries readable holds small shortClass shortTtl shortId (by omega) (by omega) wanted
    have valid := valid_sentRecords authority
      (fun record member => answerable.valid record (by simp [member])) few
    have valid' := valid_sentRecords additional
      (fun record member => answerable.valid record (by simp [member])) few'
    have valid'' : ∀ record ∈ [(⟨answer.name, .plain answer.data⟩ : SentRecord)],
        record.data.Valid names := by
      rintro record (_ | ⟨_, ⟨⟩⟩)
      exact (answerable.valid answer (by simp)).2
    rw [length, run _ _ goesOn_queryCallback, calls_append, calls_append,
      calls_queryCallback areAnswers valid'' readable holds]
    simp only [bind, Except.bind, calls_queryCallback areAuthorities valid readable holds,
      calls_queryCallback areAdditionals valid' readable holds]
    simp [Functor.map, Except.map, printedAnswer]

/-- A text, a service and an address. -/
def threeRecords : List MdnsRecord :=
  [⟨[97], .txt [116] [49]⟩, ⟨[97, 46], .srv 0 0 42424 [97]⟩, ⟨[97], .a ⟨2, 0, [192, 168, 1, 40]⟩⟩]

end Sqwar.Network
