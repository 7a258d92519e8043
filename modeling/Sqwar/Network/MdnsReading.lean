import Sqwar.Network.MdnsRecords

/-!
# Reading records back

`query_callback` prints what a record holds. Of the records that an answer has been made of it
prints all that they have been made from, with a dot behind each name.
-/

set_option autoImplicit false

namespace Sqwar.Network

open Data Semantics

/-! ### The data of records -/

/-- `mdns_record_parse_ptr`. -/
def mdnsRecordParsePtr (buffer : List UInt8) (size offset length capacity : ℕ) :
    Except Fault (List UInt8) :=
  if size ≥ offset + length ∧ length ≥ 2 then
    Prod.snd <$> mdnsStringExtract buffer size offset capacity
  else .ok []

/-- `mdns_record_srv_t`. -/
structure MdnsRecordSrv where
  priority : ℕ
  weight : ℕ
  port : ℕ
  name : List UInt8
  deriving DecidableEq, Repr

/-- `mdns_record_parse_srv`. -/
def mdnsRecordParseSrv (buffer : List UInt8) (size offset length capacity : ℕ) :
    Except Fault MdnsRecordSrv :=
  if size ≥ offset + length ∧ length ≥ 8 then do
    let priority ← mdnsNtohs buffer offset
    let weight ← mdnsNtohs buffer (offset + 2)
    let port ← mdnsNtohs buffer (offset + 4)
    let (_, name) ← mdnsStringExtract buffer size (offset + 6) capacity
    return ⟨priority, weight, port, name⟩
  else .ok ⟨0, 0, 0, []⟩

/-- `AF_INET6`, as it is on Windows. -/
def afInet6 : ℕ := 23

/-- `mdns_record_parse_aaaa`. -/
def mdnsRecordParseAaaa (buffer : List UInt8) (offset length : ℕ) : SockaddrIn6 :=
  if buffer.length ≥ offset + length ∧ length = 16 then ⟨afInet6, (buffer.drop offset).take 16⟩
  else ⟨afInet6, List.replicate 16 0⟩

/-- The loop that looks for the separator of a text, at the place `c`. -/
def findSeparator (buffer : List UInt8) (strdata : ℕ) : ℕ → ℕ → Except Fault ℕ
  | 0, _ => .ok 0
  | left + 1, c => do
    let char ← byteAt buffer (strdata + c)
    if char < 0x20 ∨ char > 0x7E then return 0
    else if char = equalsSign then return c
    else findSeparator buffer strdata left (c + 1)

/-- The loop of `mdns_record_parse_txt`. A separator that is found is inside the text. -/
def parseTxtLoop (buffer : List UInt8) (stop capacity offset : ℕ)
    (records : List (List UInt8 × List UInt8)) : Except Fault (List (List UInt8 × List UInt8)) :=
  if _ : offset < stop ∧ records.length < capacity then do
    let sublength := (← byteAt buffer offset).toNat
    let separator ← findSeparator buffer (offset + 1) sublength 0
    if separator = 0 then parseTxtLoop buffer stop capacity (offset + sublength + 1) records
    else
      let key ← bytesAt buffer (offset + 1) separator
      let value ← bytesAt buffer (offset + 1 + separator + 1) (sublength - (separator + 1))
      parseTxtLoop buffer stop capacity (offset + sublength + 1) (records ++ [(key, value)])
  else .ok records
termination_by stop - offset

/-- `mdns_record_parse_txt`. -/
def mdnsRecordParseTxt (buffer : List UInt8) (size offset length capacity : ℕ) :
    Except Fault (List (List UInt8 × List UInt8)) :=
  parseTxtLoop buffer (min size (offset + length)) capacity offset []

/-- A line that `query_callback` prints. -/
inductive Printed
  | ptr (entry : MdnsEntryType) (entrystr namestr : List UInt8) (rclass ttl : ℕ)
  | srv (entry : MdnsEntryType) (entrystr : List UInt8) (srv : MdnsRecordSrv)
  | a (entry : MdnsEntryType) (entrystr : List UInt8) (addr : SockaddrIn)
  | aaaa (entry : MdnsEntryType) (entrystr : List UInt8) (addr : SockaddrIn6)
  | txt (entry : MdnsEntryType) (entrystr key value : List UInt8)
  | other (entry : MdnsEntryType) (entrystr : List UInt8) (rtype rclass ttl : ℕ)
  deriving DecidableEq

/-- The lines of a record, behind its name. -/
def printRecord (buffer : List UInt8) (size : ℕ) (e : MdnsEntry) (entrystr : List UInt8) :
    Except Fault (List Printed) :=
  if e.rtype = mdnsRecordtypePtr then do
    let namestr ← mdnsRecordParsePtr buffer size e.recordOffset e.recordLength 256
    return [.ptr e.entry entrystr namestr e.rclass e.ttl]
  else if e.rtype = mdnsRecordtypeSrv then do
    let srv ← mdnsRecordParseSrv buffer size e.recordOffset e.recordLength 256
    return [.srv e.entry entrystr srv]
  else if e.rtype = mdnsRecordtypeA then
    .ok [.a e.entry entrystr (mdnsRecordParseA (buffer.take size) e.recordOffset e.recordLength)]
  else if e.rtype = mdnsRecordtypeAaaa then
    .ok [.aaaa e.entry entrystr
      (mdnsRecordParseAaaa (buffer.take size) e.recordOffset e.recordLength)]
  else if e.rtype = mdnsRecordtypeTxt then do
    let txtbuffer ← mdnsRecordParseTxt buffer size e.recordOffset e.recordLength 128
    return txtbuffer.map fun txt => .txt e.entry entrystr txt.1 txt.2
  else .ok [.other e.entry entrystr e.rtype e.rclass e.ttl]

/-- `query_callback`. -/
def queryCallback (buffer : List UInt8) (size : ℕ) : MdnsCallback (List Printed) :=
  fun e printed => do
    let (_, entrystr) ← mdnsStringExtract buffer size e.nameOffset 256
    let lines ← printRecord buffer size e entrystr
    return (false, printed ++ lines)

/-- A name as it is read. -/
def canonical (str : List UInt8) : List UInt8 :=
  if str.getLast? = some dot then str else str ++ [dot]

/-- The lines that a record should be. -/
def SentRecord.printed (entry : MdnsEntryType) (rclass ttl : ℕ) (record : SentRecord) :
    List Printed :=
  match record.data with
  | .plain (.a addr) => [.a entry (canonical record.name) ⟨afInet, 0, addr.sAddr⟩]
  | .plain (.ptr name) => [.ptr entry (canonical record.name) (canonical name) rclass ttl]
  | .plain (.aaaa addr) => [.aaaa entry (canonical record.name) ⟨afInet6, addr.sin6Addr⟩]
  | .plain (.srv priority weight port name) =>
    [.srv entry (canonical record.name) ⟨priority, weight, port, canonical name⟩]
  | .plain (.txt _ _) => []
  | .plain .ignore => [.other entry (canonical record.name) 0 rclass ttl]
  | .plain .any => [.other entry (canonical record.name) mdnsRecordtypeAny rclass ttl]
  | .texts pairs => pairs.map fun pair => .txt entry (canonical record.name) pair.1 pair.2

/-- Names that fit into the buffers for names. -/
def Readable (names : Set (List (List UInt8))) : Prop :=
  ∀ ls ∈ names, ls.length ≤ 64 ∧ (dotted ls).length ≤ 256

/-- Data that can be read back. -/
def SentData.Valid (names : Set (List (List UInt8))) : SentData → Prop
  | .plain data => data.Valid names
  | .texts pairs => (∀ pair ∈ pairs, IsText pair.1 pair.2) ∧ pairs.length ≤ 128

/-- An entry of a packet, and the record that it is of. -/
def EntryAt (trust : Prop) (names : Set (List (List UInt8))) (m : Known UInt8) (size : ℕ)
    (type : MdnsEntryType) (queryId rclass ttl : ℕ) (entry : MdnsEntry) (record : SentRecord) :
    Prop :=
  ∃ o p stop, NameAt trust names m record.name o p ∧ p + 10 ≤ stop ∧ stop ≤ size ∧
    DataAt trust names m (p + 10) stop record.data ∧
    entry = ⟨type, queryId, record.data.type, rclass, ttl, o, p - o, p + 10, stop - (p + 10)⟩

variable {trust : Prop} {names : Set (List (List UInt8))} {m : Known UInt8}
  {buffer : List UInt8} {size o p stop next rclass ttl queryId count : ℕ} {str : List UInt8}
  {ls : List (List UInt8)} {record : SentRecord} {type : MdnsEntryType}

theorem IsName.canonical (h : IsName str ls) : canonical str = dotted ls := by
  rcases h.spelling with rfl | rfl
  · obtain ⟨c, other, last⟩ := exists_getLast?_joinDots h.labels h.ne_nil
    rw [Network.canonical, last, if_neg (fun same => other (Option.some.inj same)),
      dotted_eq h.ne_nil]
  · rw [Network.canonical, dotted_eq h.ne_nil, List.getLast?_concat, if_pos rfl]

/-- Bytes that are known are read. -/
theorem bytesAt_known {values : List UInt8} (known : m.At o values) (holds : m.Holds buffer size)
    (inside : o ≤ buffer.length) : bytesAt buffer o values.length = .ok values := by
  by_cases some : values = []
  · subst some
    exact bytesAt_of_le inside
  · rw [bytesAt_of_le (known.end_le holds some).2, known.take_drop holds]

theorem SentData.type_lt (data : SentData) : data.type < 65536 := by
  match data with
  | .texts _ => exact (by decide : 16 < 65536)
  | .plain data => cases data <;> simp [type, MdnsRecordData.type, mdnsRecordtypeA,
      mdnsRecordtypePtr, mdnsRecordtypeTxt, mdnsRecordtypeAaaa, mdnsRecordtypeSrv,
      mdnsRecordtypeAny]

theorem Skips.lt (h : Skips m count o stop) : o < stop := by
  induction h with
  | zero => omega
  | ref => omega
  | label _ _ ih => omega

theorem NameAt.lt (h : NameAt trust names m str o stop) : o < stop := by
  obtain ⟨_, _, _, ⟨_, _, skips⟩, _⟩ := h
  exact skips.lt

/-- A name takes two bytes at least. -/
theorem NameAt.two_le (h : NameAt True names m str o stop) : o + 2 ≤ stop := by
  obtain ⟨ls, _, isName, _, spells⟩ := h
  cases spells trivial with
  | zero => exact absurd rfl isName.ne_nil
  | ref => exact le_rfl
  | label _ spells =>
    obtain ⟨_, _, skips⟩ := spells.skips
    have lt := skips.lt
    omega

theorem NameAt.skip (h : NameAt trust names m str o stop) (readable : Readable names)
    (holds : m.Holds buffer size) : mdnsStringSkip buffer size o = .ok (some stop) := by
  obtain ⟨ls, mem, _, ⟨count, few, skips⟩, _⟩ := h
  exact mdnsStringSkip_eq skips holds (few.trans (readable ls mem).1)

theorem NameAt.extract (h : NameAt True names m str o stop) (readable : Readable names)
    (holds : m.Holds buffer size) :
    mdnsStringExtract buffer size o 256 = .ok (stop, canonical str) := by
  obtain ⟨ls, mem, isName, _, spells⟩ := h
  rw [isName.canonical]
  exact mdnsStringExtract_eq (spells trivial) holds (readable ls mem).1 (readable ls mem).2

theorem SentAt.lt (h : SentAt trust names m rclass ttl record o stop) : o + 10 < stop := by
  obtain ⟨p, name, inside, -, -⟩ := h
  have lt := name.lt
  omega

theorem SectionAt.le {sent : List SentRecord} (h : SectionAt trust names m rclass ttl sent o stop) :
    o ≤ stop := by
  induction h with
  | nil => exact le_rfl
  | cons record _ ih =>
    have lt := record.lt
    omega

/-! ### Texts -/

theorem findSeparator_eq {strdata c left : ℕ} {key : List UInt8}
    (known : m.At (strdata + c) (key ++ [equalsSign])) (holds : m.Holds buffer size)
    (printable : ∀ c ∈ key, 0x20 ≤ c ∧ c ≤ 0x7E ∧ c ≠ equalsSign) (enough : key.length < left) :
    findSeparator buffer strdata left c = .ok (c + key.length) := by
  induction key generalizing c left with
  | nil =>
    obtain ⟨left, rfl⟩ := Nat.exists_eq_add_of_lt enough
    have read : byteAt buffer (strdata + c) = .ok equalsSign := byteAt_known (known 0 _ rfl) holds
    rw [findSeparator, read]
    rfl
  | cons char key ih =>
    obtain ⟨left, rfl⟩ := Nat.exists_eq_add_of_lt enough
    rw [List.cons_append, Known.at_cons] at known
    have read : byteAt buffer (strdata + c) = .ok char := byteAt_known known.1 holds
    obtain ⟨low, high, other⟩ := printable char (List.mem_cons_self ..)
    rw [findSeparator, read]
    simp only [bind, Except.bind]
    rw [if_neg (by simp [low, high]), if_neg other,
      ih (by rw [← Nat.add_assoc]; exact known.2)
        (fun c member => printable c (List.mem_cons_of_mem _ member))
        (by rw [List.length_cons]; omega), List.length_cons]
    congr 1
    omega

theorem parseTxtLoop_eq {pairs records : List (List UInt8 × List UInt8)} {capacity : ℕ}
    (known : m.At o (pairs.flatMap textBytes)) (holds : m.Holds buffer size)
    (valid : ∀ pair ∈ pairs, IsText pair.1 pair.2)
    (few : records.length + pairs.length ≤ capacity) :
    parseTxtLoop buffer (o + (pairs.flatMap textBytes).length) capacity o records =
      .ok (records ++ pairs) := by
  induction pairs generalizing o records with
  | nil => rw [parseTxtLoop, dif_neg (by simp), List.append_nil]
  | cons pair pairs ih =>
    obtain ⟨key, value⟩ := pair
    obtain ⟨isKey, printable, short⟩ := valid (key, value) (List.mem_cons_self ..)
    have length : (textBytes (key, value)).length = key.length + value.length + 2 := by
      simp only [textBytes, List.cons_append, List.length_cons, List.length_append]
      omega
    rw [List.flatMap_cons, Known.at_append] at known
    obtain ⟨isText, rest⟩ := known
    rw [textBytes, List.cons_append, Known.at_cons] at isText
    obtain ⟨isLength, isText⟩ := isText
    have isValue := Known.at_append.mp isText
    rw [Known.at_cons] at isValue
    have separated : m.At (o + 1 + 0) (key ++ [equalsSign]) :=
      Known.at_append.mpr ⟨isValue.1, Known.at_cons.mpr ⟨isValue.2.1, Known.at_nil⟩⟩
    have readLength : byteAt buffer o = .ok (UInt8.ofNat (key.length + value.length + 1)) :=
      byteAt_known isLength holds
    have sublength : (UInt8.ofNat (key.length + value.length + 1)).toNat =
        key.length + value.length + 1 := by
      rw [UInt8.toNat_ofNat', Nat.mod_eq_of_lt (by omega)]
    have positive := List.length_pos_iff.mpr isKey
    have inside := (List.getElem?_eq_some_iff.mp (holds _ _ isValue.2.1).1).1
    have readKey : bytesAt buffer (o + 1) key.length = .ok key :=
      bytesAt_known isValue.1 holds (by omega)
    have readValue : bytesAt buffer (o + 1 + key.length + 1) value.length = .ok value :=
      bytesAt_known isValue.2.2 holds inside
    rw [List.length_cons] at few
    rw [List.flatMap_cons, List.length_append, parseTxtLoop, dif_pos (by omega)]
    simp only [bind, Except.bind, readLength, sublength,
      findSeparator_eq separated holds printable
        (by omega : key.length < key.length + value.length + 1),
      Nat.zero_add, if_neg positive.ne', readKey]
    rw [show key.length + value.length + 1 - (key.length + 1) = value.length by omega, readValue]
    simp only
    rw [show o + (key.length + value.length + 1) + 1 = o + (textBytes (key, value)).length by omega,
      ← Nat.add_assoc, ih rest (fun pair member => valid pair (List.mem_cons_of_mem _ member))
        (by simp only [List.length_append, List.length_singleton]; omega), List.append_assoc]
    rfl

/-! ### Records -/

theorem take_drop_take {values : List UInt8} (known : m.At o values) (holds : m.Holds buffer size)
    (some : values ≠ []) : ((buffer.take size).drop o).take values.length = values ∧
      o + values.length ≤ (buffer.take size).length := by
  obtain ⟨inside, inside'⟩ := known.end_le holds some
  constructor
  · rw [List.drop_take, List.take_take, min_eq_left (by omega), known.take_drop holds]
  · rw [List.length_take]
    exact le_min inside inside'

/-- **What is printed** is what the record has been made from. -/
theorem printRecord_sent {nameOffset nameLength : ℕ}
    (data : DataAt True names m o stop record.data) (valid : record.data.Valid names)
    (readable : Readable names) (holds : m.Holds buffer size) (inside : stop ≤ size) :
    printRecord buffer size ⟨type, queryId, record.data.type, rclass, ttl, nameOffset, nameLength,
      o, stop - o⟩ (canonical record.name) = .ok (record.printed type rclass ttl) := by
  obtain ⟨name, isData⟩ := record
  match isData, data, valid with
  | .plain (.a addr), ⟨known, same⟩, length =>
    subst same
    have length : addr.sAddr.length = 4 := length
    obtain ⟨same, within⟩ := take_drop_take known holds (List.ne_nil_of_length_pos (by omega))
    rw [length] at same within
    have parsed : mdnsRecordParseA (buffer.take size) o 4 = ⟨afInet, 0, addr.sAddr⟩ := by
      rw [mdnsRecordParseA, if_pos ⟨within, rfl⟩, same]
    simp [printRecord, SentData.type, MdnsRecordData.type, mdnsRecordtypeA, mdnsRecordtypePtr,
      mdnsRecordtypeSrv, SentRecord.printed, parsed]
  | .plain (.ptr ptrName), name', _ =>
    have name' : NameAt True names m ptrName o stop := name'
    have two := name'.two_le
    have parsed : mdnsRecordParsePtr buffer size o (stop - o) 256 = .ok (canonical ptrName) := by
      rw [mdnsRecordParsePtr, if_pos (by omega), name'.extract readable holds]
      rfl
    simp [printRecord, SentData.type, MdnsRecordData.type, SentRecord.printed, parsed, bind,
      Except.bind, pure, Except.pure]
  | .plain (.aaaa addr), ⟨known, same⟩, length =>
    subst same
    have length : addr.sin6Addr.length = 16 := length
    obtain ⟨same, within⟩ := take_drop_take known holds (List.ne_nil_of_length_pos (by omega))
    rw [length] at same within
    have parsed : mdnsRecordParseAaaa (buffer.take size) o 16 = ⟨afInet6, addr.sin6Addr⟩ := by
      rw [mdnsRecordParseAaaa, if_pos ⟨within, rfl⟩, same]
    simp [printRecord, SentData.type, MdnsRecordData.type, mdnsRecordtypeA, mdnsRecordtypePtr,
      mdnsRecordtypeSrv, mdnsRecordtypeAaaa, SentRecord.printed, parsed]
  | .plain (.srv priority weight port srvName), ⟨known, name'⟩, ⟨short, short', short'', _⟩ =>
    have two := name'.two_le
    obtain ⟨⟨isPriority, isWeight⟩, isPort⟩ := by simpa only [Known.at_append] using known
    have readPriority := mdnsNtohs_eq isPriority holds short
    have readWeight : mdnsNtohs buffer (o + 2) = .ok weight := mdnsNtohs_eq isWeight holds short'
    have readPort : mdnsNtohs buffer (o + 4) = .ok port := mdnsNtohs_eq isPort holds short''
    have parsed : mdnsRecordParseSrv buffer size o (stop - o) 256 =
        .ok ⟨priority, weight, port, canonical srvName⟩ := by
      rw [mdnsRecordParseSrv, if_pos (by omega), readPriority, readWeight, readPort,
        name'.extract readable holds]
      rfl
    simp [printRecord, SentData.type, MdnsRecordData.type, mdnsRecordtypePtr, mdnsRecordtypeSrv,
      SentRecord.printed, parsed, bind, Except.bind, pure, Except.pure]
  | .plain .ignore, _, _ =>
    simp [printRecord, SentData.type, MdnsRecordData.type, mdnsRecordtypeA, mdnsRecordtypePtr,
      mdnsRecordtypeSrv, mdnsRecordtypeAaaa, mdnsRecordtypeTxt, SentRecord.printed]
  | .plain .any, _, _ =>
    simp [printRecord, SentData.type, MdnsRecordData.type, mdnsRecordtypeA, mdnsRecordtypePtr,
      mdnsRecordtypeSrv, mdnsRecordtypeAaaa, mdnsRecordtypeTxt, mdnsRecordtypeAny,
      SentRecord.printed]
  | .plain (.txt key value), same, _ =>
    obtain rfl : stop = o := same
    have parsed : mdnsRecordParseTxt buffer size stop 0 128 = .ok [] := by
      rw [mdnsRecordParseTxt, parseTxtLoop, dif_neg (by simp)]
    simp [printRecord, SentData.type, MdnsRecordData.type, mdnsRecordtypeA, mdnsRecordtypePtr,
      mdnsRecordtypeSrv, mdnsRecordtypeAaaa, mdnsRecordtypeTxt, SentRecord.printed, bind,
      Except.bind, pure, Except.pure, parsed]
  | .texts pairs, ⟨known, same⟩, ⟨texts, few⟩ =>
    subst same
    have parsed : mdnsRecordParseTxt buffer size o
        (o + (pairs.flatMap textBytes).length - o) 128 = .ok pairs := by
      rw [mdnsRecordParseTxt, Nat.add_sub_cancel_left, min_eq_right inside]
      exact parseTxtLoop_eq known holds texts (by simpa using few)
    simp only [printRecord, SentData.type, SentRecord.printed, parsed, bind, Except.bind]
    rfl

theorem queryCallback_sent {entry : MdnsEntry} {printed : List Printed}
    (h : EntryAt True names m size type queryId rclass ttl entry record)
    (valid : record.data.Valid names) (readable : Readable names) (holds : m.Holds buffer size) :
    queryCallback buffer size entry printed =
      .ok (false, printed ++ record.printed type rclass ttl) := by
  obtain ⟨o, p, stop, name, -, inside, data, rfl⟩ := h
  simp only [queryCallback, name.extract readable holds, bind, Except.bind,
    printRecord_sent data valid readable holds inside]
  rfl

theorem goesOn_queryCallback : GoesOn (queryCallback buffer size) := by
  intro entry printed result called
  obtain ⟨name, -, called⟩ := bind_eq_ok_iff.mp called
  obtain ⟨lines, -, same⟩ := bind_eq_ok_iff.mp called
  cases same
  rfl

/-- The lines of a section. -/
theorem calls_queryCallback {entries : List MdnsEntry} {sent : List SentRecord}
    (h : List.Forall₂ (EntryAt True names m size type queryId rclass ttl) entries sent)
    (valid : ∀ record ∈ sent, record.data.Valid names) (readable : Readable names)
    (holds : m.Holds buffer size) (printed : List Printed) :
    calls (queryCallback buffer size) entries printed =
      .ok (printed ++ sent.flatMap (SentRecord.printed type rclass ttl)) := by
  induction h generalizing printed with
  | nil => rw [List.flatMap_nil, List.append_nil]; rfl
  | cons entry _ ih =>
    rw [calls_cons, queryCallback_sent entry (valid _ (List.mem_cons_self ..)) readable holds,
      List.flatMap_cons, ← List.append_assoc]
    exact ih (fun record member => valid record (List.mem_cons_of_mem _ member)) _

/-! ### Addresses -/

/-- The address of a record, as `mdns_record_parse_a` reads it. -/
def SentRecord.addr (record : SentRecord) : Option SockaddrIn :=
  match record.data with
  | .plain (.a addr) => some ⟨afInet, 0, addr.sAddr⟩
  | _ => none

theorem addresses_entry {entry : MdnsEntry}
    (h : EntryAt trust names m size type queryId rclass ttl entry record)
    (valid : record.data.Valid names) (holds : m.Holds buffer size) :
    addresses [entry.record buffer size] = record.addr.toList := by
  obtain ⟨o, p, stop, -, -, -, data, rfl⟩ := h
  obtain ⟨name, isData⟩ := record
  match isData, data, valid with
  | .plain (.a addr), ⟨known, same⟩, length =>
    subst same
    have length : addr.sAddr.length = 4 := length
    obtain ⟨same, within⟩ := take_drop_take known holds (List.ne_nil_of_length_pos (by omega))
    rw [length] at same within
    have parsed : mdnsRecordParseA (buffer.take size) (p + 10) 4 = ⟨afInet, 0, addr.sAddr⟩ := by
      rw [mdnsRecordParseA, if_pos ⟨within, rfl⟩, same]
    simp [addresses, MdnsEntry.record, SentData.type, MdnsRecordData.type, SentRecord.addr, parsed]
  | .plain (.ptr _), _, _ => rfl
  | .plain (.aaaa _), _, _ => rfl
  | .plain (.srv _ _ _ _), _, _ => rfl
  | .plain .ignore, _, _ => rfl
  | .plain .any, _, _ => rfl
  | .plain (.txt _ _), _, _ => rfl
  | .texts _, _, _ => rfl

/-- The addresses of a section. -/
theorem addresses_entries {entries : List MdnsEntry} {sent : List SentRecord}
    (h : List.Forall₂ (EntryAt trust names m size type queryId rclass ttl) entries sent)
    (valid : ∀ record ∈ sent, record.data.Valid names) (holds : m.Holds buffer size) :
    addresses (entries.map (MdnsEntry.record buffer size)) = sent.filterMap SentRecord.addr := by
  induction h with
  | nil => rfl
  | cons entry _ ih =>
    rw [List.map_cons, ← flatMap_addresses, List.flatMap_cons, flatMap_addresses,
      addresses_entry entry (valid _ (List.mem_cons_self ..)) holds,
      ih fun record member => valid record (List.mem_cons_of_mem _ member)]
    cases isAddr : SentRecord.addr _ <;> simp [isAddr]

/-! ### Sections -/

/-- **Step lemma.** The callback is called for the record. -/
theorem mdnsRecordsParse_sent (h : SentAt trust names m rclass ttl record o stop)
    (readable : Readable names) (holds : m.Holds buffer size) (inside : stop ≤ size)
    (small : size ≤ 0x4000) (shortClass : rclass < 65536) (shortTtl : ttl < 65536 * 65536)
    (type : MdnsEntryType) (queryId records : ℕ) :
    ∃ entry, EntryAt trust names m size type queryId rclass ttl entry record ∧
      ∀ (σ : Type) (callback : MdnsCallback σ), GoesOn callback → ∀ userData,
        mdnsRecordsParse buffer size type queryId callback (records + 1) o userData = (do
          let result ← callback entry userData
          (fun parsed => (parsed.1 + 1, parsed.2)) <$>
            mdnsRecordsParse buffer size type queryId callback records stop result.2) := by
  obtain ⟨p, name, le, header, data⟩ := h
  obtain ⟨⟨⟨isType, isClass⟩, isTtl⟩, isLength⟩ := by simpa only [Known.at_append] using header
  have readType := mdnsNtohs_eq isType holds record.data.type_lt
  have readClass : mdnsNtohs buffer (p + 2) = .ok rclass := mdnsNtohs_eq isClass holds shortClass
  have readTtl : mdnsNtohl buffer (p + 4) = .ok ttl := mdnsNtohl_eq isTtl holds shortTtl
  have readLength : mdnsNtohs buffer (p + 8) = .ok (stop - (p + 10)) :=
    mdnsNtohs_eq isLength holds (by omega)
  refine ⟨_, ⟨o, p, stop, name, le, inside, data, rfl⟩, fun σ callback goesOn userData => ?_⟩
  rw [mdnsRecordsParse, name.skip readable holds]
  have behind : p + 10 + (stop - (p + 10)) = stop := by omega
  simp only [bind, Except.bind, Option.getD_some, if_neg (show ¬ p + 10 > size by omega), readType,
    readClass, readTtl, readLength,
    if_pos (show stop - (p + 10) ≤ size - (p + 10) by omega), behind]
  cases called : callback ⟨type, queryId, record.data.type, rclass, ttl, o, p - o, p + 10,
    stop - (p + 10)⟩ userData with
  | error fault => rfl
  | ok result =>
    simp only [goesOn _ _ _ called]
    cases mdnsRecordsParse buffer size type queryId callback records stop result.2 <;> rfl

/-- **Run lemma.** The callback is called for the records of a section. -/
theorem mdnsRecordsParse_section {sent : List SentRecord}
    (h : SectionAt trust names m rclass ttl sent o stop) (readable : Readable names)
    (holds : m.Holds buffer size) (inside : stop ≤ size) (small : size ≤ 0x4000)
    (shortClass : rclass < 65536) (shortTtl : ttl < 65536 * 65536) (type : MdnsEntryType)
    (queryId : ℕ) :
    ∃ entries, List.Forall₂ (EntryAt trust names m size type queryId rclass ttl) entries sent ∧
      ∀ (σ : Type) (callback : MdnsCallback σ), GoesOn callback → ∀ userData,
        mdnsRecordsParse buffer size type queryId callback sent.length o userData =
          (fun userData => (sent.length, stop, userData)) <$> calls callback entries userData := by
  induction h with
  | nil => exact ⟨[], .nil, fun _ _ _ _ => rfl⟩
  | @cons record records o next stop sent rest ih =>
    have le := rest.le
    obtain ⟨entry, isEntry, run⟩ :=
      mdnsRecordsParse_sent sent readable holds (le.trans inside) small
      shortClass shortTtl type queryId records.length
    obtain ⟨entries, areEntries, runs⟩ := ih inside
    refine ⟨entry :: entries, .cons isEntry areEntries, fun σ callback goesOn userData => ?_⟩
    rw [List.length_cons, run σ callback goesOn, calls_cons]
    cases callback entry userData with
    | error fault => rfl
    | ok result =>
      simp only [bind, Except.bind, runs σ callback goesOn]
      cases calls callback entries result.2 <;> rfl

/-! ### Packets -/

/-- What is known of a packet with one answer. -/
structure PacketAt (trust : Prop) (names : Set (List (List UInt8))) (m : Known UInt8)
    (rclass ttl queryId flags questions : ℕ) (answer : SentRecord)
    (authority additional : List SentRecord) (size : ℕ) : Prop where
  header : m.At 0 (mdnsHeader queryId flags questions 1 authority.length additional.length)
  records : ∃ start o₁ o₂,
    ((questions = 0 ∧ start = 12) ∨
      (questions = 1 ∧ ∃ str p, NameAt trust names m str 12 p ∧ start = p + 4)) ∧
    SectionAt trust names m rclass ttl [answer] start o₁ ∧
    SectionAt trust names m rclass ttl authority o₁ o₂ ∧
    SectionAt trust names m rclass ttl additional o₂ size

/-- **The callback is called for the records of a packet.** -/
theorem PacketAt.entries {flags questions : ℕ} {answer : SentRecord}
    {authority additional : List SentRecord}
    (h : PacketAt trust names m rclass ttl queryId flags questions answer authority additional size)
    (readable : Readable names) (holds : m.Holds buffer size) (small : size ≤ 0x4000)
    (shortClass : rclass < 65536) (shortTtl : ttl < 65536 * 65536) (shortId : queryId < 65536)
    (few : authority.length < 65536) (few' : additional.length < 65536) {onlyQueryId : ℤ}
    (wanted : onlyQueryId ≤ 0 ∨ onlyQueryId = queryId) :
    ∃ answers authorities additionals,
      List.Forall₂ (EntryAt trust names m size .answer queryId rclass ttl) answers [answer] ∧
      List.Forall₂ (EntryAt trust names m size .authority queryId rclass ttl) authorities
        authority ∧
      List.Forall₂ (EntryAt trust names m size .additional queryId rclass ttl) additionals
        additional ∧
      ∀ (σ : Type) (callback : MdnsCallback σ), GoesOn callback → ∀ userData,
        mdnsQueryRecvPacket buffer size callback userData onlyQueryId =
          (fun userData => (1 + authority.length + additional.length, userData)) <$>
            calls callback (answers ++ authorities ++ additionals) userData := by
  obtain ⟨start, o₁, o₂, question, first, second, third⟩ := h.records
  have le₂ := second.le
  have le₃ := third.le
  obtain ⟨answers, areAnswers, run₁⟩ := mdnsRecordsParse_section first readable holds
    (by omega) small shortClass shortTtl .answer queryId
  obtain ⟨authorities, areAuthorities, run₂⟩ := mdnsRecordsParse_section second readable holds
    (by omega) small shortClass shortTtl .authority queryId
  obtain ⟨additionals, areAdditionals, run₃⟩ := mdnsRecordsParse_section third readable holds le_rfl
    small shortClass shortTtl .additional queryId
  refine ⟨answers, authorities, additionals, areAnswers, areAuthorities, areAdditionals,
    fun σ callback goesOn userData => ?_⟩
  have sections : parseSections buffer size queryId 1 authority.length additional.length callback
      start userData =
      (fun userData => (1 + authority.length + additional.length, userData)) <$>
        calls callback (answers ++ authorities ++ additionals) userData := by
    have run₁ := run₁ σ callback goesOn userData
    rw [List.length_singleton] at run₁
    rw [parseSections, run₁, calls_append, calls_append]
    cases calls callback answers userData with
    | error fault => rfl
    | ok userData =>
      simp only [bind, Except.bind, Functor.map, Except.map, ne_eq, not_true_eq_false, if_false,
        run₂ σ callback goesOn]
      cases calls callback authorities userData with
      | error fault => rfl
      | ok userData =>
        simp only [not_true_eq_false, if_false, run₃ σ callback goesOn]
        cases calls callback additionals userData <;> rfl
  have header : 0 + 12 ≤ size := (h.header.end_le holds (List.cons_ne_nil _ _)).1
  obtain ⟨⟨⟨⟨⟨isId, isFlags⟩, isQuestions⟩, isAnswers⟩, isAuthorities⟩, isAdditionals⟩ := by
    simpa only [mdnsHeader, Known.at_append] using h.header
  have readId := mdnsNtohs_eq isId holds shortId
  have readFlags : mdnsNtohs buffer 2 = .ok (flags % 65536) := mdnsNtohs_mod isFlags holds
  have readAnswers : mdnsNtohs buffer 6 = .ok 1 := mdnsNtohs_eq isAnswers holds (by decide)
  have readAuthorities : mdnsNtohs buffer 8 = .ok authority.length :=
    mdnsNtohs_eq isAuthorities holds few
  have readAdditionals : mdnsNtohs buffer 10 = .ok additional.length :=
    mdnsNtohs_eq isAdditionals holds few'
  have notOther : ¬ (onlyQueryId > 0 ∧ (queryId : ℤ) ≠ onlyQueryId) := by
    rintro ⟨positive, other⟩
    rcases wanted with none | same
    · exact absurd positive (not_lt.mpr none)
    · exact other same.symm
  have positive : size ≠ 0 := by omega
  rw [mdnsQueryRecvPacket, if_neg positive, readId, readFlags]
  rcases question with ⟨rfl, rfl⟩ | ⟨rfl, str, p, name, rfl⟩
  · have readQuestions : mdnsNtohs buffer 4 = .ok 0 := mdnsNtohs_eq isQuestions holds (by decide)
    simp only [bind, Except.bind, readQuestions, readAnswers, readAuthorities, readAdditionals,
      if_neg notOther]
    exact sections
  · have readQuestions : mdnsNtohs buffer 4 = .ok 1 := mdnsNtohs_eq isQuestions holds (by decide)
    simp only [bind, Except.bind, readQuestions, readAnswers, readAuthorities, readAdditionals,
      if_neg notOther, name.skip readable holds]
    exact sections

end Sqwar.Network
