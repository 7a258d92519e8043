import Mathlib.Algebra.Order.BigOperators.Group.List
import Sqwar.Network.MdnsRules

/-!
# Records in mDNS packets

What the functions that add records to an answer write: the records of a section one behind the
other, and behind them one record with all texts.
-/

set_option autoImplicit false

namespace Sqwar.Network

open Data Semantics

/-- The data of a record as it is sent. -/
inductive SentData
  | plain (data : MdnsRecordData)
  | texts (pairs : List (List UInt8 × List UInt8))
  deriving DecidableEq

def SentData.type : SentData → ℕ
  | .plain data => data.type
  | .texts _ => mdnsRecordtypeTxt

/-- A record as it is sent. -/
structure SentRecord where
  name : List UInt8
  data : SentData
  deriving DecidableEq

/-- A text, behind its length. -/
def textBytes (pair : List UInt8 × List UInt8) : List UInt8 :=
  UInt8.ofNat (pair.1.length + pair.2.length + 1) :: pair.1 ++ equalsSign :: pair.2

/-- The key and the value of a text record. -/
def MdnsRecord.text (record : MdnsRecord) : Option (List UInt8 × List UInt8) :=
  match record.data with
  | .txt key value => some (key, value)
  | _ => none

/-- The records that are sent for those of a section. -/
def sentRecords (records : List MdnsRecord) : List SentRecord :=
  ((records.filter fun record => !record.isTxt).map fun record =>
      ⟨record.name, .plain record.data⟩) ++
    ((records.filter MdnsRecord.isTxt).head?.toList.map fun record =>
      ⟨record.name, .texts (records.filterMap MdnsRecord.text)⟩)

/-- A string that is one of the names. -/
def Named (names : Set (List (List UInt8))) (str : List UInt8) : Prop := ∃ ls ∈ names, IsName str ls

/-- A text that can be read back: the key is printable, and its length fits into a byte. -/
structure IsText (key value : List UInt8) : Prop where
  some : key ≠ []
  printable : ∀ c ∈ key, 0x20 ≤ c ∧ c ≤ 0x7E ∧ c ≠ equalsSign
  short : key.length + value.length + 1 < 256

/-- Data that its record has room for. -/
def MdnsRecordData.Valid (names : Set (List (List UInt8))) : MdnsRecordData → Prop
  | .a addr => addr.sAddr.length = 4
  | .ptr name => Named names name
  | .txt key value => IsText key value
  | .aaaa addr => addr.sin6Addr.length = 16
  | .srv priority weight port name =>
    priority < 65536 ∧ weight < 65536 ∧ port < 65536 ∧ Named names name
  | _ => True

def MdnsRecord.Valid (names : Set (List (List UInt8))) (record : MdnsRecord) : Prop :=
  Named names record.name ∧ record.data.Valid names

/-- As many bytes as the data of a record may take. -/
def MdnsRecordData.size : MdnsRecordData → ℕ
  | .a _ => 4
  | .ptr name => name.length + 2
  | .txt key value => key.length + value.length + 2
  | .aaaa _ => 16
  | .srv _ _ _ name => 6 + (name.length + 2)
  | _ => 0

/-- As many bytes as a record may take. -/
def MdnsRecord.size (record : MdnsRecord) : ℕ := record.name.length + 2 + 10 + record.data.size

/-- What is known of a name. -/
def NameAt (trust : Prop) (names : Set (List (List UInt8))) (m : Known UInt8) (str : List UInt8)
    (o stop : ℕ) : Prop :=
  ∃ ls ∈ names, IsName str ls ∧ (∃ count ≤ ls.length, Skips m count o stop) ∧
    (trust → Spells m o ls stop)

/-- What is known of the data of a record. -/
def DataAt (trust : Prop) (names : Set (List (List UInt8))) (m : Known UInt8) (o stop : ℕ) :
    SentData → Prop
  | .plain (.a addr) => m.At o addr.sAddr ∧ stop = o + 4
  | .plain (.ptr name) => NameAt trust names m name o stop
  | .plain (.aaaa addr) => m.At o addr.sin6Addr ∧ stop = o + 16
  | .plain (.srv priority weight port name) =>
    m.At o (htonsBytes priority ++ htonsBytes weight ++ htonsBytes port) ∧
      NameAt trust names m name (o + 6) stop
  | .plain _ => stop = o
  | .texts pairs => m.At o (pairs.flatMap textBytes) ∧ stop = o + (pairs.flatMap textBytes).length

/-- What is known of a record. -/
def SentAt (trust : Prop) (names : Set (List (List UInt8))) (m : Known UInt8) (rclass ttl : ℕ)
    (record : SentRecord) (o stop : ℕ) : Prop :=
  ∃ p, NameAt trust names m record.name o p ∧ p + 10 ≤ stop ∧
    m.At p (htonsBytes record.data.type ++ htonsBytes rclass ++ htonlBytes ttl ++
      htonsBytes (stop - (p + 10))) ∧
    DataAt trust names m (p + 10) stop record.data

/-- What is known of some records. -/
inductive SectionAt (trust : Prop) (names : Set (List (List UInt8))) (m : Known UInt8)
    (rclass ttl : ℕ) : List SentRecord → ℕ → ℕ → Prop
  | nil {o : ℕ} : SectionAt trust names m rclass ttl [] o o
  | cons {record : SentRecord} {records : List SentRecord} {o next stop : ℕ} :
      SentAt trust names m rclass ttl record o next →
      SectionAt trust names m rclass ttl records next stop →
      SectionAt trust names m rclass ttl (record :: records) o stop

variable {trust : Prop} {names : Set (List (List UInt8))} {m m' : Known UInt8} {w w' : Writer}
  {rclass ttl o next stop : ℕ} {str : List UInt8} {ls : List (List UInt8)} {record : MdnsRecord}
  {data : MdnsRecordData} {records : List MdnsRecord} {sent sent' : List SentRecord}

theorem NameAt.mono (h : NameAt trust names m str o stop) (le : m.Le m') :
    NameAt trust names m' str o stop := by
  obtain ⟨ls, mem, isName, ⟨count, few, skips⟩, spells⟩ := h
  exact ⟨ls, mem, isName, ⟨count, few, skips.mono le⟩, fun trusted => (spells trusted).mono le⟩

theorem DataAt.mono {data : SentData} (h : DataAt trust names m o stop data) (le : m.Le m') :
    DataAt trust names m' o stop data := by
  match data, h with
  | .plain (.a _), h => exact ⟨h.1.mono le, h.2⟩
  | .plain (.ptr _), h => exact NameAt.mono h le
  | .plain (.aaaa _), h => exact ⟨h.1.mono le, h.2⟩
  | .plain (.srv _ _ _ _), h => exact ⟨h.1.mono le, h.2.mono le⟩
  | .plain .ignore, h => exact h
  | .plain .any, h => exact h
  | .plain (.txt _ _), h => exact h
  | .texts _, h => exact ⟨h.1.mono le, h.2⟩

theorem SentAt.mono {record : SentRecord} (h : SentAt trust names m rclass ttl record o stop)
    (le : m.Le m') : SentAt trust names m' rclass ttl record o stop := by
  obtain ⟨p, name, inside, header, data⟩ := h
  exact ⟨p, name.mono le, inside, header.mono le, data.mono le⟩

theorem SectionAt.mono (h : SectionAt trust names m rclass ttl sent o stop) (le : m.Le m') :
    SectionAt trust names m' rclass ttl sent o stop := by
  induction h with
  | nil => exact .nil
  | cons record _ ih => exact .cons (record.mono le) ih

theorem SectionAt.append (h : SectionAt trust names m rclass ttl sent o next)
    (h' : SectionAt trust names m rclass ttl sent' next stop) :
    SectionAt trust names m rclass ttl (sent ++ sent') o stop := by
  induction h with
  | nil => exact h'
  | cons record _ ih => exact .cons record (ih h')

theorem IsName.length_le (h : IsName str ls) : (dotted ls).length + 1 ≤ str.length + 2 := by
  rcases h.spelling with rfl | rfl
  · rw [dotted_eq h.ne_nil, List.length_append, List.length_singleton]
  · exact Nat.le_succ _

/-! ### One record -/

theorem writing_name (ready : Ready trust names m w) (named : Named names str) :
    Writing trust names m w (mdnsStringMake w str) (str.length + 2) fun m' w' =>
      NameAt trust names m' str w.data w'.data := by
  obtain ⟨ls, mem, isName⟩ := named
  exact (Writing.make ready isName mem).imp isName.length_le
    fun _ _ _ ⟨skips, spells⟩ => ⟨ls, mem, isName, skips, spells⟩

/-- The length of the record is not known yet. -/
theorem writing_header (record : MdnsRecord) (ready : Ready trust names m w)
    (named : Named names record.name) (rclass ttl : ℕ) :
    Writing trust names m w (mdnsAnswerAddRecordHeader w record rclass ttl)
      (record.name.length + 2 + (8 + 2)) fun m' w' =>
        ∃ p, NameAt trust names m' record.name w.data p ∧
          m'.At p (htonsBytes record.data.type ++ htonsBytes rclass ++ htonlBytes ttl) ∧
          m'.Open (p + 8) 2 ∧ w'.data = p + 10 ∧ w.data ≤ p := by
  refine (writing_name ready named).bind fun m₁ w₁ later₁ ready₁ name => ?_
  refine .ite_null (fun short => by omega) fun room => ?_
  refine Writing.bind (.store ready₁ ?_) fun m₂ w₂ later₂ ready₂ known => ?_
  · change w₁.data + 8 ≤ w₁.buffer.length
    omega
  · obtain ⟨known, data⟩ := known
    have data : w₂.data = w₁.data + 8 := data
    refine (Writing.hole ready₂ ?_).imp le_rfl fun m₃ w₃ later₃ ⟨isOpen, data'⟩ => ?_
    · change w₂.data + 2 ≤ w₂.buffer.length
      have length := later₂.length
      omega
    · refine ⟨w₁.data, (name.mono (later₂.le ready₁.writes)).mono (later₃.le ready₂.writes),
        known.mono (later₃.le ready₂.writes), data ▸ isOpen, ?_, later₁.grows⟩
      have data' : w₃.data = w₂.data + 2 := data'
      omega

theorem writing_data (ready : Ready trust names m w) (valid : data.Valid names) :
    Writing trust names m w (addRecordData w data) data.size fun m' w' =>
      DataAt trust names m' w.data w'.data (.plain data) := by
  cases data with
  | ignore => exact .ok ready rfl
  | any => exact .ok ready rfl
  | txt key value => exact .ok ready rfl
  | ptr name => exact writing_name ready valid
  | a addr =>
    have length : addr.sAddr.length = 4 := valid
    refine .ite_null (fun short => by simp only [MdnsRecordData.size]; omega) fun room => ?_
    exact (Writing.store ready (by omega)).imp length.le
      fun m' w' _ ⟨known, data⟩ => ⟨known, data.trans (by rw [length])⟩
  | aaaa addr =>
    have length : addr.sin6Addr.length = 16 := valid
    refine .ite_null (fun short => by simp only [MdnsRecordData.size]; omega) fun room => ?_
    exact (Writing.store ready (by omega)).imp length.le
      fun m' w' _ ⟨known, data⟩ => ⟨known, data.trans (by rw [length])⟩
  | srv priority weight port name =>
    obtain ⟨-, -, -, named⟩ := valid
    refine .ite_null (fun short => by simp only [MdnsRecordData.size]; omega) fun room => ?_
    refine Writing.bind (.store ready ?_) fun m₁ w₁ later₁ ready₁ ⟨known, data⟩ => ?_
    · change w.data + 6 ≤ w.buffer.length
      omega
    · have data : w₁.data = w.data + 6 := data
      refine (writing_name ready₁ named).imp le_rfl fun m₂ w₂ later₂ name =>
        ⟨known.mono (later₂.le ready₁.writes), data ▸ name⟩

/-- The length of a record is filled in where nothing is known yet. -/
theorem Ready.fillLength (ready : Ready trust names m' w') (later : Later m w m' w')
    (recordData : ℕ) (behind : w.data + 2 ≤ recordData) (le : recordData ≤ w'.data)
    (isOpen : m'.Open (recordData - 2) 2) :
    ∃ m'' w'', fillLength w' recordData = .ok w'' ∧ Later m w m'' w'' ∧ Ready trust names m'' w'' ∧
      w''.data = w'.data ∧ m'.Le m'' ∧
      m''.At (recordData - 2) (htonsBytes (w'.data - recordData)) := by
  have inside := ready.writes.inside
  have fits : recordData - 2 + (htonsBytes (w'.data - recordData)).length ≤ w'.data := by
    change recordData - 2 + 2 ≤ w'.data
    omega
  have room := fits.trans inside
  have length : (overwrite w'.buffer (recordData - 2) (htonsBytes (w'.data - recordData))).length =
      w'.buffer.length := overwrite_length _ _ room
  have le' : m'.Le (m'.put (recordData - 2) (htonsBytes (w'.data - recordData))) :=
    Known.le_put isOpen
  refine ⟨m'.put (recordData - 2) (htonsBytes (w'.data - recordData)), _,
    if_pos (le.trans inside), ?_, ?_, rfl, le', Known.at_put _ _ _⟩
  · refine ⟨⟨?_, ready.writes.fresh.put_before fits, inside.trans_eq length.symm⟩,
      fun i before => ?_, length.trans later.length, later.grows⟩
    · have holds := ready.writes.holds.overwrite room le_rfl
      rwa [← length] at holds
    · rw [Known.put, if_neg (by omega)]
      exact later.same i before
  · refine ⟨⟨?_, ready.writes.fresh.put_before fits, inside.trans_eq length.symm⟩,
      fun o member => (ready.entries o member).mono le', length.trans_le ready.small,
      ready.unambiguous⟩
    have holds := ready.writes.holds.overwrite room le_rfl
    rwa [← length] at holds

/-- **A record.** -/
theorem writing_record (ready : Ready trust names m w) (valid : record.Valid names)
    (plain : record.isTxt = false) (rclass ttl : ℕ) :
    Writing trust names m w (mdnsAnswerAddRecord rclass ttl w record) record.size fun m' w' =>
      SentAt trust names m' rclass ttl ⟨record.name, .plain record.data⟩ w.data w'.data := by
  rw [mdnsAnswerAddRecord, if_neg (by simp [plain])]
  rcases writing_header record ready valid.1 rclass ttl with
    ⟨buffer, stops, length, short⟩ | ⟨m₁, w₁, runs, later₁, ready₁, within₁, p, name, header,
      isOpen, data₁, behind⟩
  · rw [stops]
    exact .inl ⟨buffer, rfl, length, by rw [MdnsRecord.size]; omega⟩
  rcases writing_data ready₁ valid.2 with
    ⟨buffer, stops, length, short⟩ | ⟨m₂, w₂, runs₂, later₂, ready₂, within₂, data⟩
  · refine .inl ⟨buffer, ?_, length.trans later₁.length, ?_⟩
    · simp only [bind, Except.bind, runs, stops]
    · have length := later₁.length
      rw [MdnsRecord.size]
      omega
  have isOpen₂ : m₂.Open (p + 8) 2 := fun i after before =>
    (later₂.same i (by omega)).trans (isOpen i after before)
  obtain ⟨m₃, w₃, runs₃, later₃, ready₃, data₃, le, filled⟩ := ready₂.fillLength
    (later₁.trans later₂) w₁.data (by omega) later₂.grows
    (by rw [show w₁.data - 2 = p + 8 by omega]; exact isOpen₂)
  refine .inr ⟨m₃, w₃, ?_, later₃, ready₃, by rw [MdnsRecord.size]; omega, p, ?_, ?_, ?_, ?_⟩
  · simp only [bind, Except.bind, runs, runs₂, runs₃]
  · exact (name.mono (later₂.le ready₁.writes)).mono le
  · have grows := later₂.grows
    omega
  · refine Known.at_append.mpr ⟨(header.mono (later₂.le ready₁.writes)).mono le, ?_⟩
    change m₃.At (p + 8) (htonsBytes (w₃.data - (p + 10)))
    rwa [data₃, ← data₁, show p + 8 = w₁.data - 2 by omega]
  · rw [data₃, ← data₁]
    exact data.mono le

/-! ### Texts -/

/-- The texts of some records are one behind the other. -/
theorem addTxtLoop_some (w : Writer) (recordData : ℕ) (records : List MdnsRecord) :
    addTxtLoop rclass ttl w (some recordData) records =
      (fun w' => (w', some recordData)) <$>
        (records.filterMap MdnsRecord.text).foldlM (fun w pair => addText w pair.1 pair.2) w := by
  induction records generalizing w with
  | nil => rfl
  | cons record records ih =>
    rw [addTxtLoop, List.filterMap_cons, MdnsRecord.text]
    cases record.data with
    | txt key value =>
      simp only [List.foldlM_cons, bind, Except.bind]
      cases addText w key value with
      | error stop => rfl
      | ok w => exact ih w
    | _ => exact ih w

/-- The first text record makes the header. -/
theorem addTxtLoop_none (w : Writer) (records : List MdnsRecord) :
    addTxtLoop rclass ttl w none records =
      (match (records.filter MdnsRecord.isTxt).head? with
      | none => .ok (w, none)
      | some record => do
        let w ← mdnsAnswerAddRecordHeader w record rclass ttl
        (fun w' => (w', some w.data)) <$>
          (records.filterMap MdnsRecord.text).foldlM (fun w pair => addText w pair.1 pair.2)
            w) := by
  induction records with
  | nil => rfl
  | cons record records ih =>
    rw [addTxtLoop, List.filterMap_cons, MdnsRecord.text, List.filter_cons, MdnsRecord.isTxt]
    cases record.data with
    | txt key value =>
      simp only [MdnsRecordData.type, decide_true, if_true, List.head?_cons, List.foldlM_cons, bind,
        Except.bind]
      cases mdnsAnswerAddRecordHeader w record rclass ttl with
      | error stop => rfl
      | ok w =>
        simp only [Option.getD_none]
        cases addText w key value with
        | error stop => rfl
        | ok w => exact addTxtLoop_some w _ records
    | _ => exact ih

theorem writing_texts {pairs : List (List UInt8 × List UInt8)} (ready : Ready trust names m w)
    (valid : ∀ pair ∈ pairs, IsText pair.1 pair.2) :
    Writing trust names m w (pairs.foldlM (fun w pair => addText w pair.1 pair.2) w)
      (pairs.flatMap textBytes).length fun m' w' =>
        m'.At w.data (pairs.flatMap textBytes) ∧
          w'.data = w.data + (pairs.flatMap textBytes).length := by
  induction pairs generalizing m w with
  | nil => exact .ok ready ⟨Known.at_nil, rfl⟩
  | cons pair pairs ih =>
    have short := (valid pair (List.mem_cons_self ..)).short
    have length : (textBytes pair).length = pair.1.length + pair.2.length + 2 := by
      simp only [textBytes, List.cons_append, List.length_cons, List.length_append]
      omega
    rw [List.flatMap_cons, List.length_append, List.foldlM_cons]
    have text : Writing trust names m w (addText w pair.1 pair.2) (textBytes pair).length
        fun m' w' => m'.At w.data (textBytes pair) ∧
          w'.data = w.data + (textBytes pair).length := by
      refine .ite_null (fun full => ?_) fun room => ?_
      · have inside := ready.writes.inside
        omega
      · exact .store ready (show w.data + (textBytes pair).length ≤ w.buffer.length by omega)
    refine text.bind fun m₁ w₁ later₁ ready₁ ⟨known, data⟩ => ?_
    refine (ih ready₁ fun pair member => valid pair (List.mem_cons_of_mem _ member)).imp le_rfl
      fun m₂ w₂ later₂ ⟨known₂, data₂⟩ => ⟨Known.at_append.mpr ⟨?_, data ▸ known₂⟩, ?_⟩
    · exact known.mono (later₂.le ready₁.writes)
    · omega

theorem length_texts (records : List MdnsRecord) :
    ((records.filterMap MdnsRecord.text).flatMap textBytes).length =
      ((records.filter MdnsRecord.isTxt).map fun record => record.data.size).sum := by
  induction records with
  | nil => rfl
  | cons record records ih =>
    rw [List.filterMap_cons, List.filter_cons, MdnsRecord.text, MdnsRecord.isTxt]
    cases isData : record.data with
    | txt key value =>
      simp only [MdnsRecordData.type, decide_true, if_true, List.flatMap_cons, List.length_append,
        ih, List.map_cons, List.sum_cons, isData, textBytes, MdnsRecordData.size, List.cons_append,
        List.length_cons]
      omega
    | _ => exact ih

theorem isText_of_valid (valid : ∀ record ∈ records, record.Valid names) :
    ∀ pair ∈ records.filterMap MdnsRecord.text, IsText pair.1 pair.2 := by
  intro pair member
  obtain ⟨record, member, isText⟩ := List.mem_filterMap.mp member
  have isValid := (valid record member).2
  rw [MdnsRecord.text] at isText
  cases isData : record.data with
  | txt key value =>
    rw [isData] at isText isValid
    cases isText
    exact isValid
  | _ =>
    rw [isData] at isText
    cases isText

/-- **The text record** of a section, if there are texts. -/
theorem writing_txtRecord (ready : Ready trust names m w)
    (valid : ∀ record ∈ records, record.Valid names) (rclass ttl : ℕ) :
    Writing trust names m w (mdnsAnswerAddTxtRecord rclass ttl w records)
      ((records.filter MdnsRecord.isTxt).map MdnsRecord.size).sum fun m' w' =>
        SectionAt trust names m' rclass ttl
          ((records.filter MdnsRecord.isTxt).head?.toList.map fun record =>
            ⟨record.name, .texts (records.filterMap MdnsRecord.text)⟩) w.data w'.data := by
  rw [mdnsAnswerAddTxtRecord, addTxtLoop_none]
  cases first : (records.filter MdnsRecord.isTxt).head? with
  | none => exact .ok ready .nil
  | some record =>
    obtain ⟨rest, isFirst⟩ := List.head?_eq_some_iff.mp first
    obtain ⟨member, isTxt⟩ :=
      List.mem_filter.mp
        (isFirst ▸ List.mem_cons_self .. : record ∈ records.filter MdnsRecord.isTxt)
    have size : record.name.length + 2 + 10 +
        ((records.filterMap MdnsRecord.text).flatMap textBytes).length ≤
          ((records.filter MdnsRecord.isTxt).map MdnsRecord.size).sum := by
      have more : (rest.map fun record => record.data.size).sum ≤ (rest.map MdnsRecord.size).sum :=
        List.sum_le_sum fun record _ => Nat.le_add_left _ _
      rw [length_texts, isFirst, List.map_cons, List.map_cons, List.sum_cons, List.sum_cons,
        MdnsRecord.size]
      omega
    have type : record.data.type = mdnsRecordtypeTxt := by simpa [MdnsRecord.isTxt] using isTxt
    rcases writing_header record ready (valid record member).1 rclass ttl with
      ⟨buffer, stops, length, short⟩ | ⟨m₁, w₁, runs, later₁, ready₁, within₁, p, name, header,
        isOpen, data₁, behind⟩
    · simp only [bind, Except.bind, stops]
      exact .inl ⟨buffer, rfl, length, by omega⟩
    rcases writing_texts ready₁ (isText_of_valid valid) with
      ⟨buffer, stops, length, short⟩ | ⟨m₂, w₂, runs₂, later₂, ready₂, within₂, known, data₂⟩
    · refine .inl ⟨buffer, ?_, length.trans later₁.length, ?_⟩
      · simp only [bind, Except.bind, runs, stops]
        rfl
      · have length := later₁.length
        omega
    have isOpen₂ : m₂.Open (p + 8) 2 := fun i after before =>
      (later₂.same i (by omega)).trans (isOpen i after before)
    obtain ⟨m₃, w₃, runs₃, later₃, ready₃, data₃, le, filled⟩ :=
      ready₂.fillLength (later₁.trans later₂) w₁.data (by omega) later₂.grows
        (by rw [show w₁.data - 2 = p + 8 by omega]; exact isOpen₂)
    refine .inr ⟨m₃, w₃, ?_, later₃, ready₃, by omega, .cons ⟨p, ?_, ?_, ?_, ?_, ?_⟩ .nil⟩
    · simp only [bind, Except.bind, runs, runs₂, Functor.map, Except.map, runs₃]
    · exact (name.mono (later₂.le ready₁.writes)).mono le
    · omega
    · refine Known.at_append.mpr ⟨?_, ?_⟩
      · rw [type] at header
        exact (header.mono (later₂.le ready₁.writes)).mono le
      · change m₃.At (p + 8) (htonsBytes (w₃.data - (p + 10)))
        rwa [data₃, ← data₁, show p + 8 = w₁.data - 2 by omega]
    · rw [← data₁]
      exact known.mono le
    · omega

/-! ### Sections -/

/-- The records of a section that are not texts. -/
theorem writing_records (ready : Ready trust names m w)
    (valid : ∀ record ∈ records, record.Valid names) (rclass ttl : ℕ) :
    Writing trust names m w (records.foldlM (mdnsAnswerAddRecord rclass ttl) w)
      ((records.filter fun record => !record.isTxt).map MdnsRecord.size).sum fun m' w' =>
        SectionAt trust names m' rclass ttl
          ((records.filter fun record => !record.isTxt).map fun record =>
            ⟨record.name, .plain record.data⟩) w.data w'.data := by
  induction records generalizing m w with
  | nil => exact .ok ready .nil
  | cons record records ih =>
    have rest := fun record member => valid record (List.mem_cons_of_mem _ member)
    rw [List.foldlM_cons]
    cases isTxt : record.isTxt with
    | true =>
      rw [mdnsAnswerAddRecord, if_pos isTxt, List.filter_cons_of_neg (by simp [isTxt])]
      exact ih ready rest
    | false =>
      rw [List.filter_cons_of_pos (by simp [isTxt]), List.map_cons, List.map_cons, List.sum_cons]
      refine (writing_record ready (valid record (List.mem_cons_self ..)) isTxt rclass ttl).bind
        fun m₁ w₁ later₁ ready₁ sent => ?_
      exact (ih ready₁ rest).imp le_rfl
        fun m₂ w₂ later₂ section₂ => .cons (sent.mono (later₂.le ready₁.writes)) section₂

theorem sum_sizes (records : List MdnsRecord) :
    ((records.filter fun record => !record.isTxt).map MdnsRecord.size).sum +
      ((records.filter MdnsRecord.isTxt).map MdnsRecord.size).sum =
        (records.map MdnsRecord.size).sum := by
  induction records with
  | nil => rfl
  | cons record records ih =>
    rw [List.filter_cons, List.filter_cons]
    cases record.isTxt <;> simp <;> omega

/-- **A section**. -/
theorem writing_section (ready : Ready trust names m w)
    (valid : ∀ record ∈ records, record.Valid names) (rclass ttl : ℕ) :
    Writing trust names m w (do
        let w ← records.foldlM (mdnsAnswerAddRecord rclass ttl) w
        mdnsAnswerAddTxtRecord rclass ttl w records)
      (records.map MdnsRecord.size).sum fun m' w' =>
        SectionAt trust names m' rclass ttl (sentRecords records) w.data w'.data := by
  rw [← sum_sizes]
  refine (writing_records ready valid rclass ttl).bind fun m₁ w₁ later₁ ready₁ front => ?_
  exact (writing_txtRecord ready₁ valid rclass ttl).imp le_rfl
    fun m₂ w₂ later₂ back => (front.mono (later₂.le ready₁.writes)).append back

/-- **All sections**. -/
theorem writing_sections {answer : MdnsRecord} {authority additional : List MdnsRecord}
    (ready : Ready trust names m w) (valid : answer.Valid names) (plain : answer.isTxt = false)
    (valid' : ∀ record ∈ authority, record.Valid names)
    (valid'' : ∀ record ∈ additional, record.Valid names) (rclass ttl : ℕ) :
    Writing trust names m w (addSections w answer authority additional rclass ttl)
      (answer.size + ((authority.map MdnsRecord.size).sum + (additional.map MdnsRecord.size).sum))
      fun m' w' => ∃ o₁ o₂,
        SectionAt trust names m' rclass ttl [⟨answer.name, .plain answer.data⟩] w.data o₁ ∧
        SectionAt trust names m' rclass ttl (sentRecords authority) o₁ o₂ ∧
        SectionAt trust names m' rclass ttl (sentRecords additional) o₂ w'.data := by
  refine (writing_record ready valid plain rclass ttl).bind fun m₁ w₁ later₁ ready₁ sent => ?_
  have second : Writing trust names m₁ w₁ ((do
        let w ← authority.foldlM (mdnsAnswerAddRecord rclass ttl) w₁
        mdnsAnswerAddTxtRecord rclass ttl w authority) >>= fun w => do
          let w ← additional.foldlM (mdnsAnswerAddRecord rclass ttl) w
          mdnsAnswerAddTxtRecord rclass ttl w additional)
      ((authority.map MdnsRecord.size).sum + (additional.map MdnsRecord.size).sum) fun m' w' =>
        ∃ o₂, SectionAt trust names m' rclass ttl (sentRecords authority) w₁.data o₂ ∧
          SectionAt trust names m' rclass ttl (sentRecords additional) o₂ w'.data :=
    (writing_section ready₁ valid' rclass ttl).bind fun m₂ w₂ later₂ ready₂ front =>
      (writing_section ready₂ valid'' rclass ttl).imp le_rfl
        fun m₃ w₃ later₃ back => ⟨w₂.data, front.mono (later₃.le ready₂.writes), back⟩
  rw [bind_assoc] at second
  exact second.imp le_rfl fun m₂ w₂ later₂ ⟨o₂, front, back⟩ =>
    ⟨w₁.data, o₂, .cons (sent.mono (later₂.le ready₁.writes)) .nil, front, back⟩

end Sqwar.Network
