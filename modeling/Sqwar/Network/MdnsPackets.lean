import Mathlib.Data.List.Pairwise
import Sqwar.Network.Discovery
import Sqwar.Network.MdnsNames

/-!
# Reading mDNS packets

`mdns_query_recv` reads the answers to a query and hands each record to a callback by its offsets.
A packet is at the front of the buffer that it has been received into.
-/

set_option autoImplicit false

namespace Sqwar.Network

open Data Semantics

/-- `mdns_entry_type_t`. -/
inductive MdnsEntryType
  | question
  | answer
  | authority
  | additional
  deriving DecidableEq

/-- `MDNS_RECORDTYPE_PTR`. -/
def mdnsRecordtypePtr : ℕ := 12

/-- `MDNS_RECORDTYPE_TXT`. -/
def mdnsRecordtypeTxt : ℕ := 16

/-- `MDNS_RECORDTYPE_AAAA`. -/
def mdnsRecordtypeAaaa : ℕ := 28

/-- `MDNS_RECORDTYPE_SRV`. -/
def mdnsRecordtypeSrv : ℕ := 33

/-- `MDNS_RECORDTYPE_ANY`. -/
def mdnsRecordtypeAny : ℕ := 255

/-- `MDNS_CLASS_IN`. -/
def mdnsClassIn : ℕ := 1

/-- `MDNS_UNICAST_RESPONSE`, and `MDNS_CACHE_FLUSH`. -/
def mdnsUnicastResponse : ℕ := 0x8000

/-- What a `mdns_record_callback_fn` is called with. -/
structure MdnsEntry where
  entry : MdnsEntryType
  queryId : ℕ
  rtype : ℕ
  rclass : ℕ
  ttl : ℕ
  nameOffset : ℕ
  nameLength : ℕ
  recordOffset : ℕ
  recordLength : ℕ
  deriving DecidableEq

/-- A callback, which may ask to stop. -/
abbrev MdnsCallback (σ : Type) := MdnsEntry → σ → Except Fault (Bool × σ)

variable {σ : Type}

/-- `mdns_records_parse`: how many records it has parsed, and where it has stopped. -/
def mdnsRecordsParse (buffer : List UInt8) (size : ℕ) (type : MdnsEntryType) (queryId : ℕ)
    (callback : MdnsCallback σ) : ℕ → ℕ → σ → Except Fault (ℕ × ℕ × σ)
  | 0, offset, userData => .ok (0, offset, userData)
  | records + 1, nameOffset, userData => do
    let offset := (← mdnsStringSkip buffer size nameOffset).getD nameOffset
    if offset + 10 > size then return (0, offset, userData)
    let rtype ← mdnsNtohs buffer offset
    let rclass ← mdnsNtohs buffer (offset + 2)
    let ttl ← mdnsNtohl buffer (offset + 4)
    let length ← mdnsNtohs buffer (offset + 8)
    if length ≤ size - (offset + 10) then
      let (stop, userData) ← callback
        ⟨type, queryId, rtype, rclass, ttl, nameOffset, offset - nameOffset, offset + 10, length⟩
        userData
      if stop then return (1, offset + 10, userData)
      let (parsed, result) ← mdnsRecordsParse buffer size type queryId callback records
        (offset + 10 + length) userData
      return (parsed + 1, result)
    else
      mdnsRecordsParse buffer size type queryId callback records (offset + 10 + length) userData

/-- The part of `mdns_query_recv` behind the questions. -/
def parseSections (buffer : List UInt8) (size queryId answerRrs authorityRrs additionalRrs : ℕ)
    (callback : MdnsCallback σ) (offset : ℕ) (userData : σ) : Except Fault (ℕ × σ) := do
  let (answers, offset, userData) ← mdnsRecordsParse buffer size .answer queryId callback answerRrs
    offset userData
  if answers ≠ answerRrs then return (answers, userData)
  let (authorities, offset, userData) ← mdnsRecordsParse buffer size .authority queryId callback
    authorityRrs offset userData
  if authorities ≠ authorityRrs then return (answers + authorities, userData)
  let (additionals, _, userData) ← mdnsRecordsParse buffer size .additional queryId callback
    additionalRrs offset userData
  return (answers + authorities + additionals, userData)

/-- `mdns_query_recv` of a packet of `size` bytes. -/
def mdnsQueryRecvPacket (buffer : List UInt8) (size : ℕ) (callback : MdnsCallback σ) (userData : σ)
    (onlyQueryId : ℤ) : Except Fault (ℕ × σ) := do
  if size = 0 then return (0, userData)
  let queryId ← mdnsNtohs buffer 0
  let _ ← mdnsNtohs buffer 2
  let questions ← mdnsNtohs buffer 4
  let answerRrs ← mdnsNtohs buffer 6
  let authorityRrs ← mdnsNtohs buffer 8
  let additionalRrs ← mdnsNtohs buffer 10
  if onlyQueryId > 0 ∧ (queryId : ℤ) ≠ onlyQueryId then return (0, userData)
  if questions > 1 then return (0, userData)
  if questions = 0 then
    parseSections buffer size queryId answerRrs authorityRrs additionalRrs callback 12 userData
  else
    match ← mdnsStringSkip buffer size 12 with
    | none => return (0, userData)
    | some offset =>
      parseSections buffer size queryId answerRrs authorityRrs additionalRrs callback (offset + 4)
        userData

/-! ### Names end inside the packet -/

variable {buffer : List UInt8} {size offset stop : ℕ} {ref : Bool} {pair : MdnsStringPair}

theorem followRef_cases {result : MdnsStringPair ⊕ ℕ}
    (run : followRef buffer size offset ref = .ok (some result)) :
    (∃ byte, byteAt buffer offset = .ok byte ∧ result = .inl ⟨offset + 1, byte.toNat, ref⟩) ∨
      (∃ target, result = .inr target) ∧ offset + 2 ≤ size := by
  unfold followRef at run
  obtain ⟨byte, read, run⟩ := bind_eq_ok_iff.mp run
  by_cases isRef : mdnsIsStringRef byte = true
  · rw [if_pos isRef] at run
    split_ifs at run with short
    · cases run
    · obtain ⟨number, -, run⟩ := bind_eq_ok_iff.mp run
      dsimp only at run
      split_ifs at run
      · cases run
      · cases run
        exact .inr ⟨⟨_, rfl⟩, not_lt.mp short⟩
  · rw [if_neg isRef] at run
    dsimp only at run
    split_ifs at run
    · cases run
    · cases run
      exact .inl ⟨byte, read, rfl⟩

/-- A reference stays one, and takes two bytes. -/
theorem followRefs_cases {left : ℕ}
    (run : followRefs buffer size left offset ref = .ok (some pair)) :
    (∃ byte, byteAt buffer offset = .ok byte ∧ pair = ⟨offset + 1, byte.toNat, ref⟩) ∨
      pair.ref = true ∧ offset + 2 ≤ size := by
  induction left generalizing offset ref with
  | zero =>
    obtain ⟨result, pass, run⟩ := bind_eq_ok_iff.mp run
    match result with
    | none => cases run
    | some (.inr _) => cases run
    | some (.inl _) =>
      cases run
      rcases followRef_cases pass with ⟨byte, read, same⟩ | ⟨⟨_, same⟩, -⟩
      · exact .inl ⟨byte, read, Sum.inl.inj same⟩
      · cases same
  | succ left ih =>
    obtain ⟨result, pass, run⟩ := bind_eq_ok_iff.mp run
    match result with
    | none => cases run
    | some (.inl _) =>
      cases run
      rcases followRef_cases pass with ⟨byte, read, same⟩ | ⟨⟨_, same⟩, -⟩
      · exact .inl ⟨byte, read, Sum.inl.inj same⟩
      · cases same
    | some (.inr target) =>
      rcases followRef_cases pass with ⟨_, -, same⟩ | ⟨-, inside⟩
      · cases same
      · rcases ih run with ⟨_, -, rfl⟩ | ⟨isRef, -⟩
        · exact .inr ⟨rfl, inside⟩
        · exact .inr ⟨isRef, inside⟩

theorem mdnsGetNextSubstring_cases
    (run : mdnsGetNextSubstring buffer size offset = .ok (some pair)) :
    (pair = ⟨offset, 0, false⟩ ∧ offset < size) ∨ (∃ length, 0 < length ∧
      pair = ⟨offset + 1, length, false⟩) ∨ pair.ref = true ∧ offset + 2 ≤ size := by
  unfold mdnsGetNextSubstring at run
  split_ifs at run with beyond
  · cases run
  · obtain ⟨byte, read, run⟩ := bind_eq_ok_iff.mp run
    split_ifs at run with zero
    · cases run
      exact .inl ⟨rfl, not_le.mp beyond⟩
    · rcases followRefs_cases run with ⟨byte', read', rfl⟩ | isRef
      · obtain rfl : byte' = byte := by simpa using read'.symm.trans read
        refine .inr (.inl ⟨_, Nat.pos_of_ne_zero fun none => zero ?_, rfl⟩)
        exact UInt8.toNat_inj.mp none
      · exact .inr (.inr isRef)

theorem skipLoop_between (fits : size ≤ buffer.length) {left : ℕ}
    (run : skipLoop buffer size left offset = .ok (some stop)) : offset < stop ∧ stop ≤ size := by
  induction left generalizing offset with
  | zero =>
    obtain ⟨_, -, run⟩ := bind_eq_ok_iff.mp run
    cases run
  | succ left ih =>
    obtain ⟨result, next, run⟩ := bind_eq_ok_iff.mp run
    cases result with
    | none => cases run
    | some pair =>
      obtain ⟨result, next', within⟩ := mdnsGetNextSubstring_inside fits offset
      have within := within pair (by simpa using next'.symm.trans next)
      rcases mdnsGetNextSubstring_cases next with ⟨rfl, inside⟩ | ⟨length, positive, rfl⟩ |
        ⟨isRef, inside⟩
      · cases run
        dsimp only
        omega
      · simp only [Bool.false_eq_true, if_false] at run
        rw [if_neg positive.ne'] at run
        have behind := ih run
        omega
      · simp only [isRef, if_true] at run
        cases run
        omega

/-- `mdns_string_skip` ends inside the packet. -/
theorem mdnsStringSkip_between (fits : size ≤ buffer.length)
    (run : mdnsStringSkip buffer size offset = .ok (some stop)) : offset < stop ∧ stop ≤ size :=
  skipLoop_between fits run

/-! ### What the callback is called with -/

/-- A callback that does not ask to stop. -/
def GoesOn (callback : MdnsCallback σ) : Prop :=
  ∀ entry userData result, callback entry userData = .ok result → result.1 = false

/-- The callback is called with one entry after the other. -/
def calls (callback : MdnsCallback σ) (entries : List MdnsEntry) (userData : σ) : Except Fault σ :=
  entries.foldlM (fun userData entry => Prod.snd <$> callback entry userData) userData

/-- Records of a packet, each behind the one before it and inside the packet. -/
inductive InOrder (size : ℕ) : ℕ → List MdnsEntry → ℕ → Prop
  | nil {offset stop : ℕ} : offset ≤ stop → InOrder size offset [] stop
  | cons {offset stop : ℕ} {entry : MdnsEntry} {entries : List MdnsEntry} :
      offset ≤ entry.nameOffset →
      entry.recordOffset = entry.nameOffset + entry.nameLength + 10 →
      entry.recordOffset + entry.recordLength ≤ size →
      InOrder size (entry.recordOffset + entry.recordLength) entries stop →
      InOrder size offset (entry :: entries) stop

variable {callback : MdnsCallback σ} {entry : MdnsEntry} {entries entries' : List MdnsEntry}
  {userData : σ} {type : MdnsEntryType} {queryId stop' : ℕ}

theorem InOrder.mono (h : InOrder size offset entries stop) {offset' : ℕ} (le : offset' ≤ offset) :
    InOrder size offset' entries stop := by
  cases h with
  | nil le' => exact .nil (le.trans le')
  | cons before follows inside rest => exact .cons (le.trans before) follows inside rest

theorem InOrder.append (h : InOrder size offset entries stop)
    (h' : InOrder size stop entries' stop') : InOrder size offset (entries ++ entries') stop' := by
  induction h with
  | nil le => exact h'.mono le
  | cons before follows inside _ ih => exact .cons before follows inside (ih h')

theorem calls_cons : calls callback (entry :: entries) userData = (do
    let result ← callback entry userData
    calls callback entries result.2) := by
  rw [calls, List.foldlM_cons]
  cases callback entry userData <;> rfl

theorem calls_append : calls callback (entries ++ entries') userData = (do
    let userData ← calls callback entries userData
    calls callback entries' userData) :=
  List.foldlM_append

/-- **Step lemma.** The records of a section. -/
theorem mdnsRecordsParse_spec (fits : size ≤ buffer.length) (type : MdnsEntryType)
    (queryId records offset : ℕ) :
    ∃ entries stop, InOrder size offset entries stop ∧
      (∀ entry ∈ entries, entry.entry = type ∧ entry.queryId = queryId) ∧
      ∀ (σ : Type) (callback : MdnsCallback σ), GoesOn callback → ∀ userData,
        mdnsRecordsParse buffer size type queryId callback records offset userData =
          (fun userData => (entries.length, stop, userData)) <$>
            calls callback entries userData := by
  induction records generalizing offset with
  | zero =>
    exact ⟨[], offset, .nil le_rfl, by simp, fun _ _ _ _ => rfl⟩
  | succ records ih =>
    obtain ⟨skipped, skip⟩ := mdnsStringSkip_inside fits offset
    obtain ⟨data, isData, le⟩ : ∃ data, skipped.getD offset = data ∧ offset ≤ data := by
      cases skipped with
      | none => exact ⟨offset, rfl, le_rfl⟩
      | some stop => exact ⟨stop, rfl, (mdnsStringSkip_between fits skip).1.le⟩
    by_cases beyond : data + 10 > size
    · refine ⟨[], data, .nil le, by simp, fun σ callback _ userData => ?_⟩
      rw [mdnsRecordsParse, skip]
      simp only [bind, Except.bind, isData, if_pos beyond]
      rfl
    · obtain ⟨rtype, -, readType⟩ := mdnsNtohs_of_le (show data + 2 ≤ buffer.length by omega)
      obtain ⟨rclass, -, readClass⟩ := mdnsNtohs_of_le (show data + 2 + 2 ≤ buffer.length by omega)
      obtain ⟨ttl, readTtl⟩ := mdnsNtohl_of_le (show data + 4 + 4 ≤ buffer.length by omega)
      obtain ⟨length, -, readLength⟩ :=
        mdnsNtohs_of_le (show data + 8 + 2 ≤ buffer.length by omega)
      obtain ⟨entries, stop, inOrder, made, run⟩ := ih (data + 10 + length)
      by_cases within : length ≤ size - (data + 10)
      · refine ⟨⟨type, queryId, rtype, rclass, ttl, offset, data - offset, data + 10, length⟩ ::
            entries,
          stop, .cons le_rfl ?_ ?_ inOrder, ?_, fun σ callback goesOn userData => ?_⟩
        · change data + 10 = offset + (data - offset) + 10
          omega
        · change data + 10 + length ≤ size
          omega
        · rintro entry (_ | ⟨_, member⟩)
          · exact ⟨rfl, rfl⟩
          · exact made entry member
        · rw [mdnsRecordsParse, skip, calls_cons]
          simp only [bind, Except.bind, isData, if_neg beyond, readType, readClass, readTtl,
            readLength, if_pos within]
          cases called : callback ⟨type, queryId, rtype, rclass, ttl, offset, data - offset,
            data + 10, length⟩ userData with
          | error fault => rfl
          | ok result =>
            simp only [goesOn _ _ _ called, run σ callback goesOn]
            cases calls callback entries result.2 <;> rfl
      · refine ⟨entries, stop, inOrder.mono (by omega), made, fun σ callback goesOn userData => ?_⟩
        rw [mdnsRecordsParse, skip]
        simp only [bind, Except.bind, isData, if_neg beyond, readType, readClass, readTtl,
          readLength, if_neg within, run σ callback goesOn]

/-- The records of all sections. -/
theorem parseSections_spec (fits : size ≤ buffer.length)
    (queryId answerRrs authorityRrs additionalRrs offset : ℕ) :
    ∃ entries stop, InOrder size offset entries stop ∧
      (∀ entry ∈ entries, entry.queryId = queryId) ∧
      ∀ (σ : Type) (callback : MdnsCallback σ), GoesOn callback → ∀ userData,
        parseSections buffer size queryId answerRrs authorityRrs additionalRrs callback offset
            userData =
          (fun userData => (entries.length, userData)) <$> calls callback entries userData := by
  obtain ⟨answers, offset₁, inOrder₁, made₁, run₁⟩ :=
    mdnsRecordsParse_spec fits .answer queryId answerRrs offset
  obtain ⟨authorities, offset₂, inOrder₂, made₂, run₂⟩ :=
    mdnsRecordsParse_spec fits .authority queryId authorityRrs offset₁
  obtain ⟨additionals, offset₃, inOrder₃, made₃, run₃⟩ :=
    mdnsRecordsParse_spec fits .additional queryId additionalRrs offset₂
  by_cases all : answers.length = answerRrs
  · by_cases all' : authorities.length = authorityRrs
    · refine ⟨answers ++ authorities ++ additionals, offset₃,
        (inOrder₁.append inOrder₂).append inOrder₃, fun entry member => ?_,
        fun σ callback goesOn userData => ?_⟩
      · simp only [List.mem_append] at member
        rcases member with (member | member) | member
        · exact (made₁ entry member).2
        · exact (made₂ entry member).2
        · exact (made₃ entry member).2
      · rw [parseSections, run₁ σ callback goesOn, calls_append, calls_append]
        cases calls callback answers userData with
        | error fault => rfl
        | ok userData =>
          simp only [bind, Except.bind, Functor.map, Except.map, all, ne_eq, not_true_eq_false,
            if_false, run₂ σ callback goesOn]
          cases calls callback authorities userData with
          | error fault => rfl
          | ok userData =>
            simp only [all', not_true_eq_false, if_false, run₃ σ callback goesOn]
            cases calls callback additionals userData <;>
              simp [Functor.map, Except.map, pure, Except.pure, all, all', Nat.add_assoc]
    · refine ⟨answers ++ authorities, offset₂, inOrder₁.append inOrder₂, fun entry member => ?_,
        fun σ callback goesOn userData => ?_⟩
      · rcases List.mem_append.mp member with member | member
        · exact (made₁ entry member).2
        · exact (made₂ entry member).2
      · rw [parseSections, run₁ σ callback goesOn, calls_append]
        cases calls callback answers userData with
        | error fault => rfl
        | ok userData =>
          simp only [bind, Except.bind, Functor.map, Except.map, all, ne_eq, not_true_eq_false,
            if_false, run₂ σ callback goesOn]
          cases calls callback authorities userData <;>
            simp [pure, Except.pure, all, all']
  · refine ⟨answers, offset₁, inOrder₁, fun entry member => (made₁ entry member).2,
      fun σ callback goesOn userData => ?_⟩
    rw [parseSections, run₁ σ callback goesOn]
    cases calls callback answers userData <;>
      simp [bind, Except.bind, Functor.map, Except.map, pure, Except.pure, all]

/-- The records of a packet. -/
theorem mdnsQueryRecvPacket_spec (fits : size ≤ buffer.length) (header : 12 ≤ buffer.length)
    (onlyQueryId : ℤ) :
    ∃ entries stop, InOrder size 12 entries stop ∧
      ∀ (σ : Type) (callback : MdnsCallback σ), GoesOn callback → ∀ userData,
        mdnsQueryRecvPacket buffer size callback userData onlyQueryId =
          (fun userData => (entries.length, userData)) <$> calls callback entries userData := by
  obtain ⟨queryId, -, readId⟩ := mdnsNtohs_of_le (show 0 + 2 ≤ buffer.length by omega)
  obtain ⟨flags, -, readFlags⟩ := mdnsNtohs_of_le (show 2 + 2 ≤ buffer.length by omega)
  obtain ⟨questions, -, readQuestions⟩ := mdnsNtohs_of_le (show 4 + 2 ≤ buffer.length by omega)
  obtain ⟨answerRrs, -, readAnswers⟩ := mdnsNtohs_of_le (show 6 + 2 ≤ buffer.length by omega)
  obtain ⟨authorityRrs, -, readAuthorities⟩ :=
    mdnsNtohs_of_le (show 8 + 2 ≤ buffer.length by omega)
  obtain ⟨additionalRrs, -, readAdditionals⟩ :=
    mdnsNtohs_of_le (show 10 + 2 ≤ buffer.length by omega)
  have nothing : InOrder size 12 [] 12 := .nil le_rfl
  by_cases empty : size = 0
  · exact ⟨[], 12, nothing, fun σ callback _ userData => by
      rw [mdnsQueryRecvPacket, if_pos empty]
      rfl⟩
  by_cases other : onlyQueryId > 0 ∧ (queryId : ℤ) ≠ onlyQueryId
  · exact ⟨[], 12, nothing, fun σ callback _ userData => by
      simp only [mdnsQueryRecvPacket, if_neg empty, readId, readFlags, readQuestions, readAnswers,
        readAuthorities, readAdditionals, bind, Except.bind, if_pos other]
      rfl⟩
  by_cases many : questions > 1
  · exact ⟨[], 12, nothing, fun σ callback _ userData => by
      simp only [mdnsQueryRecvPacket, if_neg empty, readId, readFlags, readQuestions, readAnswers,
        readAuthorities, readAdditionals, bind, Except.bind, if_neg other, if_pos many]
      rfl⟩
  by_cases none : questions = 0
  · obtain ⟨entries, stop, inOrder, -, run⟩ :=
      parseSections_spec fits queryId answerRrs authorityRrs additionalRrs 12
    refine ⟨entries, stop, inOrder, fun σ callback goesOn userData => ?_⟩
    simp only [mdnsQueryRecvPacket, if_neg empty, readId, readFlags, readQuestions, readAnswers,
      readAuthorities, readAdditionals, bind, Except.bind, if_neg other, if_neg many, if_pos none,
      run σ callback goesOn]
  obtain ⟨skipped, skip⟩ := mdnsStringSkip_inside fits 12
  cases skipped with
  | none =>
    exact ⟨[], 12, nothing, fun σ callback _ userData => by
      simp only [mdnsQueryRecvPacket, if_neg empty, readId, readFlags, readQuestions, readAnswers,
        readAuthorities, readAdditionals, bind, Except.bind, if_neg other, if_neg many, if_neg none,
        skip]
      rfl⟩
  | some offset =>
    obtain ⟨entries, stop, inOrder, -, run⟩ :=
      parseSections_spec fits queryId answerRrs authorityRrs additionalRrs (offset + 4)
    have behind := (mdnsStringSkip_between fits skip).1
    refine ⟨entries, stop, inOrder.mono (by omega), fun σ callback goesOn userData => ?_⟩
    simp only [mdnsQueryRecvPacket, if_neg empty, readId, readFlags, readQuestions, readAnswers,
      readAuthorities, readAdditionals, bind, Except.bind, if_neg other, if_neg many, if_neg none,
      skip, run σ callback goesOn]

/-! ### The addresses in a packet -/

/-- `get_ipaddr_callback` of an entry of a packet. -/
def ipaddrCallback (buffer : List UInt8) (size : ℕ) : MdnsCallback IpaddrArray :=
  fun entry parr => do
    let (stop, parr) ← getIpaddrCallback
      ⟨entry.rtype, buffer.take size, entry.recordOffset, entry.recordLength⟩ parr
    return (stop ≠ 0, parr)

/-- The record of an entry. -/
def MdnsEntry.record (buffer : List UInt8) (size : ℕ) (entry : MdnsEntry) : Record :=
  ⟨entry.rtype, buffer.take size, entry.recordOffset, entry.recordLength⟩

theorem goesOn_ipaddrCallback : GoesOn (ipaddrCallback buffer size) := by
  intro entry parr result called
  obtain ⟨⟨stop, out⟩, returned, same⟩ := bind_eq_ok_iff.mp called
  obtain rfl := getIpaddrCallback_fst returned
  cases same
  rfl

theorem snd_ipaddrCallback (entry : MdnsEntry) (parr : IpaddrArray) :
    Prod.snd <$> ipaddrCallback buffer size entry parr =
      Prod.snd <$> getIpaddrCallback (entry.record buffer size) parr := by
  rw [ipaddrCallback, MdnsEntry.record]
  cases getIpaddrCallback ⟨entry.rtype, buffer.take size, entry.recordOffset, entry.recordLength⟩
    parr <;> rfl

/-- How many records a packet has. -/
theorem mdnsQueryRecv_eq (records : List Record) (parr : IpaddrArray) :
    mdnsQueryRecv getIpaddrCallback records parr =
      (fun parr => (records.length, parr)) <$>
        (Prod.snd <$> mdnsQueryRecv getIpaddrCallback records parr) := by
  induction records generalizing parr with
  | nil => rfl
  | cons record records ih =>
    rw [mdnsQueryRecv]
    cases called : getIpaddrCallback record parr with
    | error fault => rfl
    | ok result =>
      obtain ⟨stop, out⟩ := result
      obtain rfl := getIpaddrCallback_fst called
      have rest := ih out
      cases ran : mdnsQueryRecv getIpaddrCallback records out with
      | error fault => simp [bind, Except.bind, ran]
      | ok result =>
        rw [ran] at rest
        have parsed : result.1 = records.length := congrArg Prod.fst (Except.ok.inj rest)
        simp [bind, Except.bind, ran, pure, Except.pure, parsed]

/-- The addresses of the entries that the callback is called with. -/
theorem calls_ipaddrCallback (entries : List MdnsEntry) (parr : IpaddrArray) :
    (fun parr => (entries.length, parr)) <$> calls (ipaddrCallback buffer size) entries parr =
      mdnsQueryRecv getIpaddrCallback (entries.map (MdnsEntry.record buffer size)) parr := by
  rw [mdnsQueryRecv_eq, mdnsQueryRecv_eq_foldlM, List.foldlM_map, List.length_map, calls]
  simp only [snd_ipaddrCallback]

/-- **Any packet.** Whatever has been received, `mdns_query_recv` reads nothing outside its buffer:
the callback gets records that are inside the packet, each behind the one before it, and the
addresses are those of a list of records. -/
theorem mdnsQueryRecvPacket_eq (fits : size ≤ buffer.length) (header : 12 ≤ buffer.length)
    (onlyQueryId : ℤ) :
    ∃ entries stop, InOrder size 12 entries stop ∧ ∀ parr,
      mdnsQueryRecvPacket buffer size (ipaddrCallback buffer size) parr onlyQueryId =
        mdnsQueryRecv getIpaddrCallback (entries.map (MdnsEntry.record buffer size)) parr := by
  obtain ⟨entries, stop, inOrder, run⟩ := mdnsQueryRecvPacket_spec fits header onlyQueryId
  refine ⟨entries, stop, inOrder, fun parr => ?_⟩
  rw [run _ _ goesOn_ipaddrCallback, calls_ipaddrCallback]

/-- A packet with one address. -/
def oneAddress : List UInt8 :=
  [0, 0, 0x84, 0, 0, 0, 0, 1, 0, 0, 0, 0, 1, 97, 0, 0, 1, 0x80, 1, 0, 0, 0, 10, 0, 4, 192, 168, 1,
    40]

theorem mdnsQueryRecvPacket_oneAddress :
    ∃ entries stop, InOrder 29 12 entries stop ∧ ∀ parr,
      mdnsQueryRecvPacket oneAddress 29 (ipaddrCallback oneAddress 29) parr 0 =
        mdnsQueryRecv getIpaddrCallback (entries.map (MdnsEntry.record oneAddress 29)) parr :=
  mdnsQueryRecvPacket_eq (by decide) (by decide) 0

end Sqwar.Network
