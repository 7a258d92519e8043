import Mathlib.Order.Nat
import Mathlib.Tactic.Common
import Sqwar.Core.StdVector
import Sqwar.Data.KnownBytes
import Sqwar.Semantics.Loop

/-!
# Names in mDNS packets

A name is written as labels, each behind its length, and ends with a zero or with a reference to
where the rest of it has been written before. Names are read by following the references, at most
sixteen for a label and at most sixty-five labels.
-/

set_option autoImplicit false

namespace Sqwar.Network

open Data Semantics

/-! ### Bytes of a packet -/

/-- `buffer[offset]`. -/
def byteAt (buffer : List UInt8) (offset : ℕ) : Except Fault UInt8 :=
  match buffer[offset]? with
  | none => .error .outOfBounds
  | some byte => .ok byte

/-- The bytes that a `memcpy` or `memcmp` reads. -/
def bytesAt (buffer : List UInt8) (offset length : ℕ) : Except Fault (List UInt8) :=
  if offset + length ≤ buffer.length then .ok ((buffer.drop offset).take length)
  else .error .outOfBounds

/-- `mdns_ntohs`. -/
def mdnsNtohs (buffer : List UInt8) (offset : ℕ) : Except Fault ℕ := do
  let high ← byteAt buffer offset
  let low ← byteAt buffer (offset + 1)
  return high.toNat * 256 + low.toNat

/-- `mdns_ntohl`. -/
def mdnsNtohl (buffer : List UInt8) (offset : ℕ) : Except Fault ℕ := do
  let high ← mdnsNtohs buffer offset
  let low ← mdnsNtohs buffer (offset + 2)
  return high * 65536 + low

/-! ### Reading names -/

/-- `mdns_is_string_ref`. -/
def mdnsIsStringRef (val : UInt8) : Bool := 0xC0 == (val &&& 0xC0)

/-- `mdns_string_pair_t`, where it is valid. -/
structure MdnsStringPair where
  offset : ℕ
  length : ℕ
  ref : Bool
  deriving DecidableEq

/-- A pass of the loop that follows references: a label, or where a reference leads to. -/
def followRef (buffer : List UInt8) (size offset : ℕ) (ref : Bool) :
    Except Fault (Option (MdnsStringPair ⊕ ℕ)) := do
  let byte ← byteAt buffer offset
  if mdnsIsStringRef byte then
    if size < offset + 2 then return none
    let target := (← mdnsNtohs buffer offset) &&& 0x3fff
    if target ≥ size then return none
    return some (.inr target)
  else
    let length := byte.toNat
    if size < offset + 1 + length then return none
    return some (.inl ⟨offset + 1, length, ref⟩)

/-- The loop, after whose next pass some more are allowed. -/
def followRefs (buffer : List UInt8) (size : ℕ) :
    ℕ → ℕ → Bool → Except Fault (Option MdnsStringPair)
  | 0, offset, ref => do
    match ← followRef buffer size offset ref with
    | some (.inl pair) => return some pair
    | _ => return none
  | left + 1, offset, ref => do
    match ← followRef buffer size offset ref with
    | some (.inl pair) => return some pair
    | some (.inr target) => followRefs buffer size left target true
    | none => return none

/-- `mdns_get_next_substring`; `none` is a pair whose offset is `MDNS_INVALID_POS`. -/
def mdnsGetNextSubstring (buffer : List UInt8) (size offset : ℕ) :
    Except Fault (Option MdnsStringPair) := do
  if offset ≥ size then return none
  if (← byteAt buffer offset) = 0 then return some ⟨offset, 0, false⟩
  followRefs buffer size 16 offset false

/-- `MDNS_MAX_SUBSTRINGS`. The check `counter++ > MDNS_MAX_SUBSTRINGS` lets one more pass. -/
def mdnsMaxSubstrings : ℕ := 64

/-- The loop of `mdns_string_skip`. -/
def skipLoop (buffer : List UInt8) (size : ℕ) : ℕ → ℕ → Except Fault (Option ℕ)
  | 0, cur => do
    let _ ← mdnsGetNextSubstring buffer size cur
    return none
  | left + 1, cur => do
    match ← mdnsGetNextSubstring buffer size cur with
    | none => return none
    | some substr =>
      if substr.ref then return some (cur + 2)
      else if substr.length = 0 then return some (substr.offset + substr.length + 1)
      else skipLoop buffer size left (substr.offset + substr.length)

/-- `mdns_string_skip`: the new offset, if it returns one. -/
def mdnsStringSkip (buffer : List UInt8) (size offset : ℕ) : Except Fault (Option ℕ) :=
  skipLoop buffer size (mdnsMaxSubstrings + 1) offset

/-- `'.'`. -/
def dot : UInt8 := 46

/-- The loop of `mdns_string_extract`. `stop` is the variable `end`, if it has been set. -/
def extractLoop (buffer : List UInt8) (size : ℕ) :
    ℕ → ℕ → Option ℕ → ℕ → List UInt8 → Except Fault (Option (ℕ × List UInt8))
  | 0, cur, _, _, _ => do
    let _ ← mdnsGetNextSubstring buffer size cur
    return none
  | left + 1, cur, stop, remain, str => do
    match ← mdnsGetNextSubstring buffer size cur with
    | none => return none
    | some substr =>
      let stop := if substr.ref ∧ stop = none then some (cur + 2) else stop
      let cur := substr.offset + substr.length
      if substr.length = 0 then return some (stop.getD (cur + 1), str)
      else
        let to_copy := min substr.length remain
        let copied ← bytesAt buffer substr.offset to_copy
        let remain := remain - to_copy
        if remain ≠ 0 then
          extractLoop buffer size left cur stop (remain - 1) (str ++ copied ++ [dot])
        else extractLoop buffer size left cur stop remain (str ++ copied)

/-- `mdns_string_extract`: the new offset and the string. If the name is not valid, the string is
empty and the offset stays. -/
def mdnsStringExtract (buffer : List UInt8) (size offset capacity : ℕ) :
    Except Fault (ℕ × List UInt8) := do
  let result ← extractLoop buffer size (mdnsMaxSubstrings + 1) offset none capacity []
  return result.getD (offset, [])

/-- `tolower`. -/
def tolower (c : UInt8) : UInt8 := if 65 ≤ c ∧ c ≤ 90 then c + 32 else c

/-- `strncasecmp` of the bytes that are compared: whether there is a difference. -/
def strncasecmp : List UInt8 → List UInt8 → Bool
  | a :: as, b :: bs =>
    if tolower a ≠ tolower b then true
    else if a = 0 then false
    else strncasecmp as bs
  | _, _ => false

/-- The comparison of two labels. -/
def equalLabels (lhs rhs : List UInt8) (lhsSubstr rhsSubstr : MdnsStringPair) :
    Except Fault Bool := do
  if lhsSubstr.length ≠ rhsSubstr.length then return false
  let rhsBytes ← bytesAt rhs rhsSubstr.offset rhsSubstr.length
  let lhsBytes ← bytesAt lhs lhsSubstr.offset rhsSubstr.length
  return !strncasecmp rhsBytes lhsBytes

/-- The loop of `mdns_string_equal`, with the variables `lhs_end` and `rhs_end`. -/
def equalLoop (lhs : List UInt8) (sizeLhs : ℕ) (rhs : List UInt8) (sizeRhs : ℕ) :
    ℕ → ℕ → ℕ → Option ℕ → Option ℕ → Except Fault (Option (ℕ × ℕ))
  | 0, lhsCur, rhsCur, _, _ => do
    let _ ← mdnsGetNextSubstring lhs sizeLhs lhsCur
    let _ ← mdnsGetNextSubstring rhs sizeRhs rhsCur
    return none
  | left + 1, lhsCur, rhsCur, lhsEnd, rhsEnd => do
    match ← mdnsGetNextSubstring lhs sizeLhs lhsCur, ← mdnsGetNextSubstring rhs sizeRhs rhsCur with
    | some lhsSubstr, some rhsSubstr =>
      if ← equalLabels lhs rhs lhsSubstr rhsSubstr then
        let lhsEnd := if lhsSubstr.ref ∧ lhsEnd = none then some (lhsCur + 2) else lhsEnd
        let rhsEnd := if rhsSubstr.ref ∧ rhsEnd = none then some (rhsCur + 2) else rhsEnd
        let lhsCur := lhsSubstr.offset + lhsSubstr.length
        let rhsCur := rhsSubstr.offset + rhsSubstr.length
        if lhsSubstr.length = 0 then
          return some (lhsEnd.getD (lhsCur + 1), rhsEnd.getD (rhsCur + 1))
        else equalLoop lhs sizeLhs rhs sizeRhs left lhsCur rhsCur lhsEnd rhsEnd
      else return none
    | _, _ => return none

/-- `mdns_string_equal`: the new offsets, if the names are equal. -/
def mdnsStringEqual (lhs : List UInt8) (sizeLhs ofsLhs : ℕ) (rhs : List UInt8)
    (sizeRhs ofsRhs : ℕ) : Except Fault (Option (ℕ × ℕ)) :=
  equalLoop lhs sizeLhs rhs sizeRhs (mdnsMaxSubstrings + 1) ofsLhs ofsRhs none none

/-! ### Reading stays inside the packet -/

variable {buffer : List UInt8} {size offset length : ℕ}

theorem byteAt_of_lt (inside : offset < buffer.length) :
    byteAt buffer offset = .ok buffer[offset] := by
  rw [byteAt, List.getElem?_eq_getElem inside]

theorem byteAt_eq_ok {byte : UInt8} (found : buffer[offset]? = some byte) :
    byteAt buffer offset = .ok byte := by
  rw [byteAt, found]

theorem mdnsNtohs_of_le (inside : offset + 2 ≤ buffer.length) :
    ∃ n < 65536, mdnsNtohs buffer offset = .ok n := by
  have first : offset < buffer.length := by omega
  have second : offset + 1 < buffer.length := by omega
  refine ⟨buffer[offset].toNat * 256 + buffer[offset + 1].toNat, ?_, ?_⟩
  · have high := buffer[offset].toNat_lt
    have low := buffer[offset + 1].toNat_lt
    omega
  · rw [mdnsNtohs, byteAt_of_lt first, byteAt_of_lt second]
    rfl

theorem mdnsNtohl_of_le (inside : offset + 4 ≤ buffer.length) :
    ∃ n, mdnsNtohl buffer offset = .ok n := by
  obtain ⟨high, -, first⟩ := mdnsNtohs_of_le (show offset + 2 ≤ buffer.length by omega)
  obtain ⟨low, -, second⟩ := mdnsNtohs_of_le (show offset + 2 + 2 ≤ buffer.length by omega)
  exact ⟨high * 65536 + low, by rw [mdnsNtohl, first, second]; rfl⟩

theorem bytesAt_of_le (inside : offset + length ≤ buffer.length) :
    bytesAt buffer offset length = .ok ((buffer.drop offset).take length) := if_pos inside

/-- What a pass finds is inside the packet. -/
theorem followRef_inside (fits : size ≤ buffer.length) (inside : offset < size) (ref : Bool) :
    ∃ result, followRef buffer size offset ref = .ok result ∧
      (∀ pair, result = some (.inl pair) → pair.offset + pair.length ≤ size) ∧
      ∀ target, result = some (.inr target) → target < size := by
  rw [followRef, byteAt_of_lt (inside.trans_le fits)]
  simp only [bind, Except.bind, pure, Except.pure]
  split_ifs with isRef short long
  · exact ⟨none, rfl, by simp, by simp⟩
  · obtain ⟨n, -, read⟩ := mdnsNtohs_of_le (show offset + 2 ≤ buffer.length by omega)
    rw [read]
    dsimp only
    split_ifs with beyond
    · exact ⟨none, rfl, by simp, by simp⟩
    · exact ⟨_, rfl, by simp, fun target same => by cases same; omega⟩
  · exact ⟨none, rfl, by simp, by simp⟩
  · exact ⟨_, rfl, fun pair same => by cases same; simp only; omega, by simp⟩

theorem followRefs_inside (fits : size ≤ buffer.length) (left : ℕ) (inside : offset < size)
    (ref : Bool) : ∃ result, followRefs buffer size left offset ref = .ok result ∧
      ∀ pair, result = some pair → pair.offset + pair.length ≤ size := by
  induction left generalizing offset ref with
  | zero =>
    obtain ⟨result, pass, label, -⟩ := followRef_inside fits inside ref
    rw [followRefs, pass]
    match result with
    | none => exact ⟨none, rfl, by simp⟩
    | some (.inr target) => exact ⟨none, rfl, by simp⟩
    | some (.inl pair) => exact ⟨_, rfl, fun _ same => by cases same; exact label pair rfl⟩
  | succ left ih =>
    obtain ⟨result, pass, label, follows⟩ := followRef_inside fits inside ref
    rw [followRefs, pass]
    match result with
    | none => exact ⟨none, rfl, by simp⟩
    | some (.inr target) => exact ih (follows target rfl) true
    | some (.inl pair) => exact ⟨_, rfl, fun _ same => by cases same; exact label pair rfl⟩

/-- **A label that is found is inside the packet**, wherever references lead. -/
theorem mdnsGetNextSubstring_inside (fits : size ≤ buffer.length) (offset : ℕ) :
    ∃ result, mdnsGetNextSubstring buffer size offset = .ok result ∧
      ∀ pair, result = some pair → pair.offset + pair.length ≤ size := by
  rw [mdnsGetNextSubstring]
  split_ifs with beyond
  · exact ⟨none, rfl, by simp⟩
  · rw [byteAt_of_lt (by omega)]
    simp only [bind, Except.bind, pure, Except.pure]
    split_ifs
    · exact ⟨_, rfl, fun pair same => by cases same; simp only; omega⟩
    · exact followRefs_inside fits 16 (by omega) false

theorem skipLoop_inside (fits : size ≤ buffer.length) (left cur : ℕ) :
    ∃ result, skipLoop buffer size left cur = .ok result := by
  induction left generalizing cur with
  | zero =>
    obtain ⟨result, next, -⟩ := mdnsGetNextSubstring_inside fits cur
    exact ⟨none, by rw [skipLoop, next]; rfl⟩
  | succ left ih =>
    obtain ⟨result, next, -⟩ := mdnsGetNextSubstring_inside fits cur
    rw [skipLoop, next]
    cases result with
    | none => exact ⟨none, rfl⟩
    | some substr =>
      simp only [bind, Except.bind, pure, Except.pure]
      split_ifs
      · exact ⟨_, rfl⟩
      · exact ⟨_, rfl⟩
      · exact ih _

/-- `mdns_string_skip` of any bytes. -/
theorem mdnsStringSkip_inside (fits : size ≤ buffer.length) (offset : ℕ) :
    ∃ result, mdnsStringSkip buffer size offset = .ok result :=
  skipLoop_inside fits _ offset

theorem extractLoop_inside (fits : size ≤ buffer.length) (left cur : ℕ) (stop : Option ℕ)
    (remain : ℕ) (str : List UInt8) :
    ∃ result, extractLoop buffer size left cur stop remain str = .ok result ∧
      ∀ offset out, result = some (offset, out) → out.length ≤ str.length + remain := by
  induction left generalizing cur stop remain str with
  | zero =>
    obtain ⟨result, next, -⟩ := mdnsGetNextSubstring_inside fits cur
    exact ⟨none, by rw [extractLoop, next]; rfl, by simp⟩
  | succ left ih =>
    obtain ⟨result, next, inside⟩ := mdnsGetNextSubstring_inside fits cur
    rw [extractLoop, next]
    cases result with
    | none => exact ⟨none, rfl, by simp⟩
    | some substr =>
      have within := inside substr rfl
      have read : bytesAt buffer substr.offset (min substr.length remain) =
          .ok ((buffer.drop substr.offset).take (min substr.length remain)) :=
        bytesAt_of_le (by omega)
      simp only [bind, Except.bind, pure, Except.pure, read]
      generalize (if substr.ref = true ∧ stop = none then some (cur + 2) else stop) = stop'
      split_ifs with empty more
      · exact ⟨_, rfl, fun offset out same => by cases same; exact Nat.le_add_right _ _⟩
      · obtain ⟨result, rest, bound⟩ := ih (substr.offset + substr.length) stop'
          (remain - min substr.length remain - 1)
          (str ++ (buffer.drop substr.offset).take (min substr.length remain) ++ [dot])
        refine ⟨result, rest, fun offset out same => (bound offset out same).trans ?_⟩
        simp only [List.length_append, List.length_take, List.length_drop, List.length_singleton]
        omega
      · obtain ⟨result, rest, bound⟩ := ih (substr.offset + substr.length) stop'
          (remain - min substr.length remain)
          (str ++ (buffer.drop substr.offset).take (min substr.length remain))
        refine ⟨result, rest, fun offset out same => (bound offset out same).trans ?_⟩
        simp only [List.length_append, List.length_take, List.length_drop]
        omega

/-- `mdns_string_extract` of any bytes: the string fits into its buffer. -/
theorem mdnsStringExtract_inside (fits : size ≤ buffer.length) (offset capacity : ℕ) :
    ∃ stop str, mdnsStringExtract buffer size offset capacity = .ok (stop, str) ∧
      str.length ≤ capacity := by
  obtain ⟨result, loop, bound⟩ := extractLoop_inside fits (mdnsMaxSubstrings + 1) offset none
    capacity []
  rw [mdnsStringExtract, loop]
  cases result with
  | none => exact ⟨offset, [], rfl, Nat.zero_le _⟩
  | some found => exact ⟨found.1, found.2, rfl, by simpa using bound found.1 found.2 rfl⟩

theorem equalLoop_inside {lhs rhs : List UInt8} {sizeLhs sizeRhs : ℕ}
    (fitsLhs : sizeLhs ≤ lhs.length) (fitsRhs : sizeRhs ≤ rhs.length)
    (left lhsCur rhsCur : ℕ) (lhsEnd rhsEnd : Option ℕ) :
    ∃ result, equalLoop lhs sizeLhs rhs sizeRhs left lhsCur rhsCur lhsEnd rhsEnd = .ok result := by
  induction left generalizing lhsCur rhsCur lhsEnd rhsEnd with
  | zero =>
    obtain ⟨_, nextLhs, -⟩ := mdnsGetNextSubstring_inside fitsLhs lhsCur
    obtain ⟨_, nextRhs, -⟩ := mdnsGetNextSubstring_inside fitsRhs rhsCur
    exact ⟨none, by rw [equalLoop, nextLhs, nextRhs]; rfl⟩
  | succ left ih =>
    obtain ⟨lhsSubstr, nextLhs, insideLhs⟩ := mdnsGetNextSubstring_inside fitsLhs lhsCur
    obtain ⟨rhsSubstr, nextRhs, insideRhs⟩ := mdnsGetNextSubstring_inside fitsRhs rhsCur
    rw [equalLoop, nextLhs, nextRhs]
    match lhsSubstr, rhsSubstr with
    | none, _ => exact ⟨none, rfl⟩
    | some _, none => exact ⟨none, rfl⟩
    | some lhsSubstr, some rhsSubstr =>
      obtain ⟨equal, compared⟩ : ∃ equal, equalLabels lhs rhs lhsSubstr rhsSubstr = .ok equal := by
        have withinLhs := insideLhs lhsSubstr rfl
        have withinRhs := insideRhs rhsSubstr rfl
        rw [equalLabels]
        split_ifs with differ
        · exact ⟨false, rfl⟩
        · rw [bytesAt_of_le (by omega), bytesAt_of_le (by omega)]
          exact ⟨_, rfl⟩
      simp only [bind, Except.bind, pure, Except.pure, compared]
      cases equal with
      | false => exact ⟨none, rfl⟩
      | true =>
        rw [if_pos rfl]
        split_ifs
        all_goals first | exact ⟨_, rfl⟩ | exact ih _ _ _ _

/-- `mdns_string_equal` of any bytes. -/
theorem mdnsStringEqual_inside {lhs rhs : List UInt8} {sizeLhs sizeRhs : ℕ}
    (fitsLhs : sizeLhs ≤ lhs.length) (fitsRhs : sizeRhs ≤ rhs.length) (ofsLhs ofsRhs : ℕ) :
    ∃ result, mdnsStringEqual lhs sizeLhs ofsLhs rhs sizeRhs ofsRhs = .ok result :=
  equalLoop_inside fitsLhs fitsRhs _ ofsLhs ofsRhs none none

end Sqwar.Network
