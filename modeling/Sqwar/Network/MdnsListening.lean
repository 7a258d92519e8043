import Sqwar.Network.MdnsPackets

/-!
# Listening for mDNS questions

`mdns_socket_listen` hands the questions of a packet to a callback. It reads the type and the class
of a question without a look at the size of the packet.
-/

set_option autoImplicit false

namespace Sqwar.Network

open Data Semantics

variable {σ : Type}

/-- `mdns_services_query`. -/
def mdnsServicesQuery : List UInt8 :=
  [0, 0, 0, 0, 0, 1, 0, 0, 0, 0, 0, 0,
    9, 95, 115, 101, 114, 118, 105, 99, 101, 115, 7, 95, 100, 110, 115, 45, 115, 100,
    4, 95, 117, 100, 112, 5, 108, 111, 99, 97, 108, 0, 0, 12, 0x80, 1]

/-- The name of a question: whether it is that of `mdns_services_query`, and its end. -/
def questionName (buffer : List UInt8) (size questionOffset : ℕ) :
    Except Fault (Option (Bool × ℕ)) := do
  match ← mdnsStringEqual buffer size questionOffset mdnsServicesQuery mdnsServicesQuery.length 12
    with
  | some (offset, _) => return some (true, offset)
  | none =>
    match ← mdnsStringSkip buffer size questionOffset with
    | some offset => return some (false, offset)
    | none => return none

/-- The loop of `mdns_socket_listen` over the questions. -/
def listenLoop (buffer : List UInt8) (size flags queryId : ℕ) (callback : MdnsCallback σ) :
    ℕ → ℕ → σ → Except Fault (ℕ × σ)
  | 0, _, userData => .ok (0, userData)
  | questions + 1, questionOffset, userData => do
    match ← questionName buffer size questionOffset with
    | none => return (0, userData)
    | some (dnsSd, offset) =>
      let rtype ← mdnsNtohs buffer offset
      let rclass ← mdnsNtohs buffer (offset + 2)
      if rclass &&& 0x7FFF ≠ mdnsClassIn then return (0, userData)
      if dnsSd ∧ flags ≠ 0 then
        listenLoop buffer size flags queryId callback questions (offset + 4) userData
      else
        let length := offset - questionOffset
        let (stop, userData) ← callback
          ⟨.question, queryId, rtype, rclass, 0, questionOffset, length, questionOffset, length⟩
          userData
        if stop then return (1, userData)
        let (parsed, userData) ← listenLoop buffer size flags queryId callback questions
          (offset + 4) userData
        return (parsed + 1, userData)

/-- `mdns_socket_listen` of a packet of `size` bytes. -/
def mdnsSocketListen (buffer : List UInt8) (size : ℕ) (callback : MdnsCallback σ) (userData : σ) :
    Except Fault (ℕ × σ) := do
  if size = 0 then return (0, userData)
  let queryId ← mdnsNtohs buffer 0
  let flags ← mdnsNtohs buffer 2
  let questions ← mdnsNtohs buffer 4
  listenLoop buffer size flags queryId callback questions 12 userData

/-! ### Names of questions -/

variable {buffer rhs : List UInt8} {size sizeRhs offset start stop left rhsCur : ℕ}

/-- Where `mdns_string_equal` ends. -/
theorem equalLoop_between {lhsEnd rhsEnd : Option ℕ} {result : ℕ × ℕ}
    (before : lhsEnd = none → start ≤ offset)
    (isEnd : ∀ stop, lhsEnd = some stop → start < stop ∧ stop ≤ size)
    (run : equalLoop buffer size rhs sizeRhs left offset rhsCur lhsEnd rhsEnd =
      .ok (some result)) : start < result.1 ∧ result.1 ≤ size := by
  induction left generalizing offset rhsCur lhsEnd rhsEnd with
  | zero =>
    obtain ⟨_, -, run⟩ := bind_eq_ok_iff.mp run
    obtain ⟨_, -, run⟩ := bind_eq_ok_iff.mp run
    cases run
  | succ left ih =>
    obtain ⟨lhsSubstr, next, run⟩ := bind_eq_ok_iff.mp run
    obtain ⟨rhsSubstr, -, run⟩ := bind_eq_ok_iff.mp run
    match lhsSubstr, rhsSubstr with
    | none, _ => cases run
    | some _, none => cases run
    | some lhsSubstr, some rhsSubstr =>
      obtain ⟨equal, -, run⟩ := bind_eq_ok_iff.mp run
      cases equal with
      | false => cases run
      | true =>
        rw [if_pos rfl] at run
        dsimp only at run
        have substr := mdnsGetNextSubstring_cases next
        -- the first reference sets the end
        obtain ⟨lhsEnd', same, isEnd', isNone⟩ : ∃ lhsEnd',
            (if lhsSubstr.ref = true ∧ lhsEnd = none then some (offset + 2) else lhsEnd) = lhsEnd' ∧
            (∀ stop, lhsEnd' = some stop → start < stop ∧ stop ≤ size) ∧
            (lhsEnd' = none → lhsSubstr.ref = false ∧ start ≤ offset) := by
          refine ⟨_, rfl, fun stop set => ?_, fun unset => ?_⟩
          · split_ifs at set with first
            · cases set
              rcases substr with ⟨rfl, -⟩ | ⟨_, -, rfl⟩ | ⟨-, inside⟩
              · cases first.1
              · cases first.1
              · have le := before first.2
                omega
            · exact isEnd stop set
          · split_ifs at unset with first
            exact ⟨by simpa [unset] using first, before unset⟩
        rw [same] at run
        generalize (if rhsSubstr.ref = true ∧ rhsEnd = none then some (rhsCur + 2) else rhsEnd) =
          rhsEnd' at run
        split_ifs at run with empty
        · cases run
          cases lhsEnd' with
          | some stop => exact isEnd' stop rfl
          | none =>
            rcases substr with ⟨rfl, inside⟩ | ⟨length, positive, rfl⟩ | ⟨isRef, -⟩
            · have le := (isNone rfl).2
              dsimp only [Option.getD_none]
              omega
            · exact absurd empty positive.ne'
            · rw [(isNone rfl).1] at isRef
              cases isRef
        · refine ih (fun unset => ?_) isEnd' run
          obtain ⟨notRef, le⟩ := isNone unset
          rcases substr with ⟨rfl, -⟩ | ⟨length, -, rfl⟩ | ⟨isRef, -⟩
          · exact le.trans (Nat.le_add_right _ _)
          · dsimp only
            omega
          · rw [notRef] at isRef
            cases isRef

/-- The name of a question ends inside the packet. -/
theorem questionName_inside (fits : size ≤ buffer.length) (offset : ℕ) :
    ∃ result, questionName buffer size offset = .ok result ∧
      ∀ dnsSd stop, result = some (dnsSd, stop) → offset < stop ∧ stop ≤ size := by
  obtain ⟨equal, compared⟩ :=
    mdnsStringEqual_inside fits (le_refl mdnsServicesQuery.length) offset 12
  obtain ⟨skipped, skip⟩ := mdnsStringSkip_inside fits offset
  rw [questionName, compared]
  cases equal with
  | some ends =>
    refine ⟨_, rfl, fun dnsSd stop same => ?_⟩
    cases same
    exact equalLoop_between (fun _ => le_rfl) (by simp) compared
  | none =>
    simp only [bind, Except.bind, skip]
    cases skipped with
    | some stop =>
      refine ⟨_, rfl, fun dnsSd stop same => ?_⟩
      cases same
      exact mdnsStringSkip_between fits skip
    | none => exact ⟨none, rfl, by simp⟩

/-! ### What the callback is called with -/

/-- Questions of a packet, each behind the one before it. -/
inductive Asked (size : ℕ) : ℕ → List MdnsEntry → Prop
  | nil {offset : ℕ} : Asked size offset []
  | cons {offset : ℕ} {entry : MdnsEntry} {entries : List MdnsEntry} :
      entry.entry = .question → entry.queryId < 65536 → offset ≤ entry.nameOffset →
      entry.nameOffset + entry.nameLength ≤ size →
      Asked size (entry.nameOffset + entry.nameLength + 4) entries →
      Asked size offset (entry :: entries)

theorem Asked.mono {entries : List MdnsEntry} (h : Asked size offset entries) {offset' : ℕ}
    (le : offset' ≤ offset) : Asked size offset' entries := by
  cases h with
  | nil => exact .nil
  | cons isQuestion short behind inside rest =>
    exact .cons isQuestion short (le.trans behind) inside rest

/-- **Step lemma.** The questions of a packet, if the buffer has room for four more bytes. -/
theorem listenLoop_spec (room : size + 4 ≤ buffer.length) (flags : ℕ) {queryId : ℕ}
    (shortId : queryId < 65536) (questions offset : ℕ) :
    ∃ entries, Asked size offset entries ∧
      ∀ (σ : Type) (callback : MdnsCallback σ), GoesOn callback → ∀ userData,
        listenLoop buffer size flags queryId callback questions offset userData =
          (fun userData => (entries.length, userData)) <$> calls callback entries userData := by
  induction questions generalizing offset with
  | zero => exact ⟨[], .nil, fun _ _ _ _ => rfl⟩
  | succ questions ih =>
    obtain ⟨result, named, inside⟩ := questionName_inside (by omega : size ≤ buffer.length) offset
    match result with
    | none =>
      refine ⟨[], .nil, fun σ callback _ userData => ?_⟩
      rw [listenLoop, named]
      rfl
    | some (dnsSd, stop) =>
      obtain ⟨behind, within⟩ := inside dnsSd stop rfl
      obtain ⟨rtype, -, readType⟩ := mdnsNtohs_of_le (show stop + 2 ≤ buffer.length by omega)
      obtain ⟨rclass, -, readClass⟩ := mdnsNtohs_of_le (show stop + 2 + 2 ≤ buffer.length by omega)
      obtain ⟨entries, asked, run⟩ := ih (stop + 4)
      by_cases other : rclass &&& 0x7FFF ≠ mdnsClassIn
      · refine ⟨[], .nil, fun σ callback _ userData => ?_⟩
        rw [listenLoop, named]
        simp only [bind, Except.bind, readType, readClass, if_pos other]
        rfl
      by_cases answered : dnsSd = true ∧ flags ≠ 0
      · refine ⟨entries, asked.mono (by omega), fun σ callback goesOn userData => ?_⟩
        rw [listenLoop, named]
        simp only [bind, Except.bind, readType, readClass, if_neg other, if_pos answered,
          run σ callback goesOn]
      · refine ⟨⟨.question, queryId, rtype, rclass, 0, offset, stop - offset, offset,
            stop - offset⟩ :: entries, .cons rfl shortId le_rfl ?_ (asked.mono ?_),
          fun σ callback goesOn userData => ?_⟩
        · change offset + (stop - offset) ≤ size
          omega
        · change offset + (stop - offset) + 4 ≤ stop + 4
          omega
        · rw [listenLoop, named, calls_cons]
          simp only [bind, Except.bind, readType, readClass, if_neg other, if_neg answered]
          cases called : callback ⟨.question, queryId, rtype, rclass, 0, offset, stop - offset,
            offset, stop - offset⟩ userData with
          | error fault => rfl
          | ok result =>
            simp only [goesOn _ _ _ called, run σ callback goesOn]
            cases calls callback entries result.2 <;> rfl

/-- **The questions of any packet** that leaves room for four more bytes. -/
theorem mdnsSocketListen_spec (room : size + 4 ≤ buffer.length) (header : 12 ≤ buffer.length) :
    ∃ entries, Asked size 12 entries ∧
      ∀ (σ : Type) (callback : MdnsCallback σ), GoesOn callback → ∀ userData,
        mdnsSocketListen buffer size callback userData =
          (fun userData => (entries.length, userData)) <$> calls callback entries userData := by
  obtain ⟨queryId, shortId, readId⟩ := mdnsNtohs_of_le (show 0 + 2 ≤ buffer.length by omega)
  obtain ⟨flags, -, readFlags⟩ := mdnsNtohs_of_le (show 2 + 2 ≤ buffer.length by omega)
  obtain ⟨questions, -, readQuestions⟩ := mdnsNtohs_of_le (show 4 + 2 ≤ buffer.length by omega)
  by_cases empty : size = 0
  · exact ⟨[], .nil, fun σ callback _ userData => by
      rw [mdnsSocketListen, if_pos empty]
      rfl⟩
  · obtain ⟨entries, asked, run⟩ := listenLoop_spec room flags shortId questions 12
    refine ⟨entries, asked, fun σ callback goesOn userData => ?_⟩
    simp only [mdnsSocketListen, if_neg empty, readId, readFlags, readQuestions, bind, Except.bind,
      run σ callback goesOn]

end Sqwar.Network
