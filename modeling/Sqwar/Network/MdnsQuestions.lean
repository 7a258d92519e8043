import Sqwar.Network.MdnsListening
import Sqwar.Network.MdnsRoundTrip

/-!
# Questions are heard

Whoever gets a packet of `mdns_query_send` is asked its question, once, whatever is behind the
packet where it is received.
-/

set_option autoImplicit false

namespace Sqwar.Network

open Data Semantics

variable {names : Set (List (List UInt8))} {m : Known UInt8} {buffer rhs name : List UInt8}
  {size sizeRhs left o stop rhsCur queryId type rclass : ℕ} {ls : List (List UInt8)}

/-- Names that are equal end where the first of them ends. -/
theorem equalLoop_stop (h : Spells m o ls stop) (holds : m.Holds buffer size)
    {lhsEnd rhsEnd : Option ℕ} {result : ℕ × ℕ}
    (run : equalLoop buffer size rhs sizeRhs left o rhsCur lhsEnd rhsEnd = .ok (some result)) :
    result.1 = lhsEnd.getD stop := by
  induction left generalizing o ls stop rhsCur lhsEnd rhsEnd with
  | zero =>
    obtain ⟨_, -, run⟩ := bind_eq_ok_iff.mp run
    obtain ⟨_, -, run⟩ := bind_eq_ok_iff.mp run
    cases run
  | succ left ih =>
    obtain ⟨lhsSubstr, next, run⟩ := bind_eq_ok_iff.mp run
    obtain ⟨rhsSubstr, -, run⟩ := bind_eq_ok_iff.mp run
    match lhsSubstr, rhsSubstr with
    | none, _ => cases run
    | some _, none => cases run
    | some lhsSubstr, some rhsSubstr =>
      obtain ⟨equal, -, run⟩ := bind_eq_ok_iff.mp run
      cases equal with
      | false => cases run
      | true =>
        rw [if_pos rfl] at run
        dsimp only at run
        obtain ⟨-, next', rfl⟩ | ⟨l, rest, at_, ref, stop', -, label, next', spells, rfl⟩ :=
          h.next holds
        · cases next.symm.trans next'
          cases run
          simp
        · cases next.symm.trans next'
          rw [if_neg (Nat.pos_iff_ne_zero.mp label.isLabel.positive)] at run
          rw [ih spells run]
          cases ref <;> cases lhsEnd <;> rfl

theorem questionName_eq (h : NameAt True names m name o stop) (readable : Readable names)
    (holds : m.Holds buffer size) (fits : size ≤ buffer.length) :
    ∃ dnsSd, questionName buffer size o = .ok (some (dnsSd, stop)) := by
  obtain ⟨equal, compared⟩ := mdnsStringEqual_inside fits (le_refl mdnsServicesQuery.length) o 12
  have skip := h.skip readable holds
  obtain ⟨ls, mem, isName, -, spells⟩ := h
  rw [questionName, compared]
  cases equal with
  | none =>
    simp only [bind, Except.bind, skip]
    exact ⟨false, rfl⟩
  | some ends =>
    have same : ends.1 = stop := equalLoop_stop (spells trivial) holds compared
    exact ⟨true, same ▸ rfl⟩

/-- What is known of a packet with a question. -/
structure QuestionAt (names : Set (List (List UInt8))) (m : Known UInt8) (name : List UInt8)
    (queryId type rclass p : ℕ) : Prop where
  header : m.At 0 (mdnsHeader queryId 0 1 0 0 0)
  name : NameAt True names m name 12 p
  known : m.At p (htonsBytes type ++ htonsBytes rclass)

/-- **A question is asked once.** -/
theorem QuestionAt.listen {p : ℕ} (h : QuestionAt names m name queryId type rclass p)
    (readable : Readable names) (holds : m.Holds buffer (p + 4)) (fits : p + 4 ≤ buffer.length)
    (shortId : queryId < 65536) (shortType : type < 65536) (shortClass : rclass < 65536)
    (internet : rclass &&& 0x7FFF = mdnsClassIn) {σ : Type} {callback : MdnsCallback σ}
    (goesOn : GoesOn callback) (userData : σ) :
    mdnsSocketListen buffer (p + 4) callback userData =
      (fun result => (1, result.2)) <$>
        callback ⟨.question, queryId, type, rclass, 0, 12, p - 12, 12, p - 12⟩ userData := by
  obtain ⟨⟨⟨⟨⟨isId, isFlags⟩, isQuestions⟩, -⟩, -⟩, -⟩ := by
    simpa only [mdnsHeader, Known.at_append] using h.header
  obtain ⟨isType, isClass⟩ := by simpa only [Known.at_append] using h.known
  have readId := mdnsNtohs_eq isId holds shortId
  have readFlags : mdnsNtohs buffer 2 = .ok 0 := mdnsNtohs_eq isFlags holds (by decide)
  have readQuestions : mdnsNtohs buffer 4 = .ok 1 := mdnsNtohs_eq isQuestions holds (by decide)
  have readType := mdnsNtohs_eq isType holds shortType
  have readClass : mdnsNtohs buffer (p + 2) = .ok rclass := mdnsNtohs_eq isClass holds shortClass
  obtain ⟨dnsSd, named⟩ := questionName_eq h.name readable holds fits
  rw [mdnsSocketListen, if_neg (by omega), readId, readFlags]
  simp only [bind, Except.bind, readQuestions]
  rw [listenLoop, named]
  simp only [bind, Except.bind, readType, readClass, internet, ne_eq, not_true_eq_false, and_false,
    if_false]
  cases called : callback ⟨.question, queryId, type, rclass, 0, 12, p - 12, 12, p - 12⟩
    userData with
  | error fault => rfl
  | ok result =>
    simp only [goesOn _ _ _ called]
    rfl

/-- The class of a question of a socket with this port. -/
def questionClass (port : Option ℕ) : ℕ :=
  if port = some 5353 then mdnsClassIn else mdnsClassIn ||| mdnsUnicastResponse

theorem questionClass_lt (port : Option ℕ) : questionClass port < 65536 := by
  rw [questionClass]
  split_ifs <;> decide

theorem questionClass_internet (port : Option ℕ) : questionClass port &&& 0x7FFF = mdnsClassIn := by
  rw [questionClass]
  split_ifs <;> decide

/-- A packet of `mdns_query_send`. The names in it are never shortened. -/
theorem mdnsQuerySend_spec (isName : IsName name ls) (room : name.length + 18 ≤ buffer.length)
    (small : buffer.length ≤ 0x4000) (type queryId : ℕ) (port : Option ℕ) :
    ∃ m w p, mdnsQuerySend type name buffer queryId port = .ok w ∧ Writes m w ∧ w.data = p + 4 ∧
      w.buffer.length = buffer.length ∧ w.data ≤ name.length + 18 ∧
      QuestionAt {ls} m name queryId type (questionClass port) p := by
  have empty : Writes (fun _ => none) ⟨buffer, 0, none⟩ :=
    ⟨fun _ _ known => absurd known (by simp), fun _ _ => rfl, Nat.zero_le _⟩
  have room₁ : 0 + (mdnsHeader queryId 0 1 0 0 0).length ≤ buffer.length := by
    change 12 ≤ buffer.length
    omega
  have later₁ := empty.after room₁
  have length₁ := later₁.length
  have stored₁ := Writer.store_eq (w := ⟨buffer, 0, none⟩) room₁
  have header : Known.At _ 0 (mdnsHeader queryId 0 1 0 0 0) := Known.at_put (fun _ => none) 0 _
  generalize hw₁ : Writer.after ⟨buffer, 0, none⟩ (mdnsHeader queryId 0 1 0 0 0) = w₁ at *
  have data₁ : w₁.data = 12 := hw₁ ▸ rfl
  have table₁ : w₁.table = none := hw₁ ▸ rfl
  have length₁ : w₁.buffer.length = buffer.length := length₁
  have long := isName.length_le
  rcases mdnsStringMake_spec isName (fun _ : True => .inr table₁) (length₁.trans_le small)
    (Set.mem_singleton ls) later₁.writes (by simp [Writer.entries, table₁]) with
    ⟨_, -, -, short⟩ | ⟨m₂, w₂, made, makes⟩
  · omega
  · have within := makes.short
    have length₂ := makes.later.length
    have room₂ : w₂.data + (htonsBytes type ++ htonsBytes (questionClass port)).length ≤
        w₂.buffer.length := by
      change w₂.data + 4 ≤ w₂.buffer.length
      omega
    have later₃ := makes.later.writes.after room₂
    refine ⟨_, _, w₂.data, ?_, later₃.writes, rfl, later₃.length.trans (length₂.trans length₁), ?_,
      ?_, ?_, ?_⟩
    · rw [mdnsQuerySend, if_neg (by omega), stored₁]
      simp only [bind, Except.bind, made]
      exact Writer.store_eq room₂
    · change w₂.data + 4 ≤ name.length + 18
      omega
    · exact (header.mono (makes.later.le later₁.writes)).mono (later₃.le makes.later.writes)
    · have name : NameAt True {ls} m₂ name w₁.data w₂.data :=
        ⟨ls, rfl, isName, makes.skips, makes.spells⟩
      exact (data₁ ▸ name).mono (later₃.le makes.later.writes)
    · exact Known.at_put _ _ _

/-- Whoever gets this packet is asked this question, once: the callback is called with it, and finds
its name where it is told. -/
def Asks (name : List UInt8) (queryId type rclass : ℕ) (bytes : List UInt8) : Prop :=
  ∃ length, ∀ rest,
    mdnsStringExtract (bytes ++ rest) bytes.length 12 256 = .ok (12 + length, canonical name) ∧
    ∀ (σ : Type) (callback : MdnsCallback σ), GoesOn callback → ∀ userData,
      mdnsSocketListen (bytes ++ rest) bytes.length callback userData =
        (fun result => (1, result.2)) <$>
          callback ⟨.question, queryId, type, rclass, 0, 12, length, 12, length⟩ userData

theorem asks_of_mdnsQuerySend (isName : IsName name ls) (few : ls.length ≤ 64)
    (readable : (dotted ls).length ≤ 256) (room : name.length + 18 ≤ buffer.length)
    (small : buffer.length ≤ 0x4000) (shortType : type < 65536) (shortId : queryId < 65536)
    (port : Option ℕ) :
    ∃ w, mdnsQuerySend type name buffer queryId port = .ok w ∧ w.data ≤ w.buffer.length ∧
      w.buffer.length = buffer.length ∧ w.data ≤ name.length + 18 ∧
      Asks name queryId type (questionClass port) (w.buffer.take w.data) := by
  obtain ⟨m, w, p, sent, writes, data, length, short, question⟩ :=
    mdnsQuerySend_spec isName room small type queryId port
  have trusted : Readable {ls} := by
    rintro _ rfl
    exact ⟨few, readable⟩
  have behind := question.name.lt
  refine ⟨w, sent, writes.inside, length, short, p - 12, fun rest => ?_⟩
  have holds := writes.received rest
  have whole : (w.buffer.take w.data).length = w.data := List.length_take_of_le writes.inside
  have inside : w.data ≤ (w.buffer.take w.data ++ rest).length := by
    rw [List.length_append, whole]
    exact Nat.le_add_right _ _
  rw [whole]
  constructor
  · rw [question.name.extract trusted holds]
    congr 2
    omega
  · intro σ callback goesOn userData
    rw [data] at holds inside ⊢
    exact question.listen trusted holds inside shortId shortType (questionClass_lt port)
      (questionClass_internet port) goesOn userData

/-- **Questions are heard.** Whatever the buffer of a question holds before, it is written if the
buffer has room for eighteen bytes besides the name. Then `mdns_socket_listen` calls its callback
with this question and with nothing else. -/
theorem asks_mdnsQuerySend (isName : IsName name ls) (few : ls.length ≤ 64)
    (readable : (dotted ls).length ≤ 256) (room : name.length + 18 ≤ buffer.length)
    (small : buffer.length ≤ 0x4000) (shortType : type < 65536) (shortId : queryId < 65536)
    (port : Option ℕ) :
    ∃ w, mdnsQuerySend type name buffer queryId port = .ok w ∧ w.data ≤ w.buffer.length ∧
      Asks name queryId type (questionClass port) (w.buffer.take w.data) := by
  obtain ⟨w, sent, inside, -, -, asks⟩ :=
    asks_of_mdnsQuerySend isName few readable room small shortType shortId port
  exact ⟨w, sent, inside, asks⟩

/-- `"SqWar"`. -/
def sqWar : List UInt8 := [83, 113, 87, 97, 114]

theorem isName_sqWar : IsName sqWar [sqWar] where
  labels l member := by
    obtain rfl := List.mem_singleton.mp member
    exact ⟨by decide, by decide, by decide⟩
  ne_nil := List.cons_ne_nil _ _
  spelling := .inl rfl

/-- A question in a buffer just long enough. -/
theorem asks_sqWar :
    ∃ w, mdnsQuerySend 12 sqWar (List.replicate 23 7) 0 none = .ok w ∧
      w.data ≤ w.buffer.length ∧ Asks sqWar 0 12 (questionClass none) (w.buffer.take w.data) :=
  asks_mdnsQuerySend isName_sqWar (by decide) (by decide) (by decide) (by decide) (by decide)
    (by decide) none

end Sqwar.Network
