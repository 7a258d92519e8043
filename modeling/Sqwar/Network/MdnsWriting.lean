import Mathlib.Data.Fin.Basic
import Mathlib.Data.List.Infix
import Mathlib.Data.List.Nodup
import Mathlib.Data.List.TakeWhile
import Mathlib.Logic.Function.Basic
import Sqwar.Network.MdnsSpelling

/-!
# Writing names into mDNS packets

`mdns_string_make` remembers where it has written the last sixteen labels of a packet. Where the
rest of a name matches what follows one of them it writes a reference instead. It does not look
whether the name there ends as well.
-/

set_option autoImplicit false

namespace Sqwar.Network

open Data Semantics

/-- `mdns_string_table_t`. -/
structure MdnsStringTable where
  offset : Fin 16 → ℕ
  count : ℕ
  next : Fin 16
  fits : count ≤ 16
  order : count < 16 → next.val = count

/-- `{0}`. -/
def MdnsStringTable.empty : MdnsStringTable := ⟨fun _ => 0, 0, 0, by decide, fun _ => rfl⟩

/-- The offsets that `mdns_string_table_find` looks at. -/
def MdnsStringTable.entries (table : MdnsStringTable) : List ℕ :=
  ((List.finRange 16).take table.count).map table.offset

/-- `mdns_string_table_add`. -/
def MdnsStringTable.add (table : MdnsStringTable) (offset : ℕ) : MdnsStringTable where
  offset := Function.update table.offset table.next offset
  count := if table.count + 1 > 16 then 16 else table.count + 1
  next := if h : table.next.val + 1 ≥ 16 then 0 else ⟨table.next.val + 1, by omega⟩
  fits := by split_ifs <;> omega
  order := by
    intro room
    have order := table.order
    split_ifs at room ⊢ <;> simp at * <;> omega

/-- The buffer of a packet, `data` as an offset into it, and the string table, if there is one. -/
structure Writer where
  buffer : List UInt8
  data : ℕ
  table : Option MdnsStringTable

/-- Why there is no packet: a function returned a null pointer and left this in the buffer, or
something outside a buffer was used. -/
inductive Stop
  | null (buffer : List UInt8)
  | fault (fault : Fault)
  deriving DecidableEq

/-- Bytes that are stored at `data`, which then is behind them. -/
def Writer.store (w : Writer) (bytes : List UInt8) : Except Stop Writer :=
  if w.data + bytes.length ≤ w.buffer.length then
    .ok { w with buffer := overwrite w.buffer w.data bytes, data := w.data + bytes.length }
  else .error (.fault .outOfBounds)

/-- A label of a string: what is before its first dot, as `mdns_string_find` finds it. -/
def nextLabel (str : List UInt8) : List UInt8 := str.takeWhile fun c => c ≠ dot

/-- What is behind the dot. -/
def afterLabel (str : List UInt8) : List UInt8 := str.drop ((nextLabel str).length + 1)

theorem length_afterLabel_lt {str : List UInt8} (some : str ≠ []) :
    (afterLabel str).length < str.length := by
  have positive := List.length_pos_iff.mpr some
  rw [afterLabel, List.length_drop]
  omega

/-- The loop that matches all remaining substrings. -/
def matchRest (buffer : List UInt8) (str : List UInt8) (offset : ℕ) : Except Fault Bool :=
  if _ : str = [] then .ok true
  else do
    match ← mdnsGetNextSubstring buffer buffer.length offset with
    | none => return false
    | some substr =>
      if substr.length = 0 ∨ substr.length ≠ (nextLabel str).length then return false
      if (← bytesAt buffer substr.offset substr.length) ≠ nextLabel str then return false
      matchRest buffer (afterLabel str) (substr.offset + substr.length)
termination_by str.length
decreasing_by exact length_afterLabel_lt ‹_›

/-- Whether the string at an offset of the table matches. -/
def matchEntry (buffer : List UInt8) (str : List UInt8) (offset : ℕ) : Except Fault Bool := do
  if offset ≥ buffer.length then return false
  match ← mdnsGetNextSubstring buffer buffer.length offset with
  | none => return false
  | some substr =>
    if substr.length = 0 ∨ substr.length ≠ (nextLabel str).length then return false
    if (← bytesAt buffer substr.offset substr.length) ≠ nextLabel str then return false
    matchRest buffer (afterLabel str) (substr.offset + substr.length)

/-- The loop of `mdns_string_table_find` over the offsets of the table. -/
def tableFind (buffer : List UInt8) (str : List UInt8) : List ℕ → Except Fault (Option ℕ)
  | [] => .ok none
  | offset :: offsets => do
    if ← matchEntry buffer str offset then return some offset
    tableFind buffer str offsets

/-- `mdns_string_table_find`. -/
def mdnsStringTableFind (w : Writer) (str : List UInt8) : Except Stop (Option ℕ) :=
  match w.table with
  | none => .ok none
  | some table =>
    match tableFind w.buffer str table.entries with
    | .ok found => .ok found
    | .error fault => .error (.fault fault)

/-- `mdns_string_make_ref`. -/
def mdnsStringMakeRef (w : Writer) (refOffset : ℕ) : Except Stop Writer :=
  if w.buffer.length - w.data < 2 then .error (.null w.buffer)
  else w.store (htonsBytes (0xC000 ||| refOffset % 65536))

/-- The loop of `mdns_string_make`, for what is left of the name. -/
def makeLoop (w : Writer) (str : List UInt8) : Except Stop Writer :=
  if _ : str = [] then
    if w.buffer.length - w.data = 0 then .error (.null w.buffer) else w.store [0]
  else do
    match ← mdnsStringTableFind w str with
    | some refOffset => mdnsStringMakeRef w refOffset
    | none =>
      if w.buffer.length - w.data ≤ (nextLabel str).length + 1 then .error (.null w.buffer)
      else
        let w' ← w.store (UInt8.ofNat (nextLabel str).length :: nextLabel str)
        makeLoop { w' with table := w.table.map fun table => table.add w.data } (afterLabel str)
termination_by str.length
decreasing_by exact length_afterLabel_lt ‹_›

/-- `mdns_string_make`. -/
def mdnsStringMake (w : Writer) (name : List UInt8) : Except Stop Writer :=
  match name.getLast? with
  | none => .error (.fault .outOfBounds)
  | some c => makeLoop w (if c = dot then name.dropLast else name)

/-! ### Strings of labels -/

/-- Labels with dots between them. -/
def joinDots : List (List UInt8) → List UInt8
  | [] => []
  | [l] => l
  | l :: l' :: ls => l ++ dot :: joinDots (l' :: ls)

variable {l : List UInt8} {ls : List (List UInt8)}

theorem IsLabel.ne_nil (h : IsLabel l) : l ≠ [] := List.ne_nil_of_length_pos h.positive

theorem takeWhile_label (h : IsLabel l) (rest : List UInt8) :
    (l ++ dot :: rest).takeWhile (fun c => c ≠ dot) = l := by
  rw [List.takeWhile_append_of_pos]
  · simp
  · intro c member
    simpa using fun same : c = dot => h.dotless (same ▸ member)

theorem nextLabel_joinDots (h : IsLabel l) : nextLabel (joinDots (l :: ls)) = l := by
  cases ls with
  | nil =>
    refine List.takeWhile_eq_self_iff.mpr fun c member => ?_
    simpa using fun same : c = dot => h.dotless (same ▸ member)
  | cons l' ls => exact takeWhile_label h _

theorem afterLabel_joinDots (h : IsLabel l) : afterLabel (joinDots (l :: ls)) = joinDots ls := by
  rw [afterLabel, nextLabel_joinDots h]
  cases ls with
  | nil => exact List.drop_eq_nil_of_le (Nat.le_succ _)
  | cons l' ls =>
    rw [joinDots, ← List.drop_drop, List.drop_left]
    rfl

theorem joinDots_cons_ne_nil (h : IsLabel l) : joinDots (l :: ls) ≠ [] := by
  cases ls with
  | nil => exact h.ne_nil
  | cons l' ls => simp [joinDots]

/-- A name with a dot at its end. -/
theorem dotted_eq (some : ls ≠ []) : dotted ls = joinDots ls ++ [dot] := by
  induction ls with
  | nil => exact absurd rfl some
  | cons l ls ih =>
    cases ls with
    | nil => simp [dotted, joinDots]
    | cons l' ls =>
      have rest := ih (by simp)
      rw [dotted, List.flatMap_cons, ← dotted, rest]
      simp [joinDots]

/-! ### Matching -/

variable {m m' : Known UInt8} {buffer : List UInt8} {o stop data : ℕ} {s : List (List UInt8)}

theorem matchRest_inside (buffer str : List UInt8) (offset : ℕ) :
    ∃ matched, matchRest buffer str offset = .ok matched := by
  induction length : str.length using Nat.strong_induction_on generalizing str offset with
  | _ n ih =>
    rw [matchRest]
    split_ifs with done
    · exact ⟨true, rfl⟩
    · obtain ⟨result, next, inside⟩ := mdnsGetNextSubstring_inside (le_refl buffer.length) offset
      rw [next]
      cases result with
      | none => exact ⟨false, rfl⟩
      | some substr =>
        simp only [bind, Except.bind, pure, Except.pure, bytesAt_of_le (inside substr rfl)]
        split_ifs
        · exact ⟨false, rfl⟩
        · exact ⟨false, rfl⟩
        · exact ih _ (length ▸ length_afterLabel_lt done) _ _ rfl

theorem matchEntry_inside (buffer str : List UInt8) (offset : ℕ) :
    ∃ matched, matchEntry buffer str offset = .ok matched := by
  rw [matchEntry]
  split_ifs
  · exact ⟨false, rfl⟩
  · obtain ⟨result, next, inside⟩ := mdnsGetNextSubstring_inside (le_refl buffer.length) offset
    rw [next]
    cases result with
    | none => exact ⟨false, rfl⟩
    | some substr =>
      simp only [bind, Except.bind, pure, Except.pure, bytesAt_of_le (inside substr rfl)]
      split_ifs
      · exact ⟨false, rfl⟩
      · exact ⟨false, rfl⟩
      · exact matchRest_inside _ _ _

/-- What matches the rest of a string is the beginning of a name. -/
theorem prefix_of_matchRest (h : Spells m o ls stop) (holds : m.Holds buffer buffer.length)
    (labels : ∀ l ∈ s, IsLabel l) (isMatch : matchRest buffer (joinDots s) o = .ok true) :
    s <+: ls := by
  induction s generalizing o ls stop with
  | nil => exact List.nil_prefix
  | cons l s ih =>
    have isLabel := labels l (List.mem_cons_self ..)
    rw [matchRest, dif_neg (joinDots_cons_ne_nil isLabel)] at isMatch
    obtain ⟨rfl, next, -⟩ | ⟨l', rest, at_, ref, stop', rfl, label, next, spells, -⟩ := h.next holds
    · rw [next] at isMatch
      cases isMatch
    · have read := label.bytesAt holds (le_refl l'.length)
      rw [List.take_length] at read
      rw [next, nextLabel_joinDots isLabel] at isMatch
      simp only [bind, Except.bind, pure, Except.pure, read] at isMatch
      split_ifs at isMatch with differ other
      · cases isMatch
      · cases isMatch
      · rw [afterLabel_joinDots isLabel] at isMatch
        obtain rfl : l' = l := not_not.mp other
        exact (List.cons_prefix_cons).mpr ⟨rfl, ih spells (fun l member =>
          labels l (List.mem_cons_of_mem _ member)) isMatch⟩

/-- An entry of the table matches only where its first label does. -/
theorem matchRest_of_matchEntry (label : LabelAt m o l) (holds : m.Holds buffer buffer.length)
    {h : List UInt8} (isLabel : IsLabel h)
    (isMatch : matchEntry buffer (joinDots (h :: s)) o = .ok true) :
    l = h ∧ matchRest buffer (joinDots s) (o + 1 + l.length) = .ok true := by
  have read := label.bytesAt holds (le_refl l.length)
  rw [List.take_length] at read
  have inside := (holds _ _ (label.known 0 _ rfl)).2
  rw [matchEntry, if_neg (by omega), mdnsGetNextSubstring_label label holds,
    nextLabel_joinDots isLabel, afterLabel_joinDots isLabel] at isMatch
  simp only [bind, Except.bind, pure, Except.pure, read] at isMatch
  split_ifs at isMatch with differ other
  · cases isMatch
  · cases isMatch
  · exact ⟨not_not.mp other, isMatch⟩

end Sqwar.Network
