import Mathlib.Data.Nat.Bitwise
import Sqwar.Network.MdnsNames

/-!
# What a name in a packet spells

From what is known of a packet the labels of a name follow. `mdns_string_skip` ends behind the name
and `mdns_string_extract` gets its labels, whatever else the packet holds.
-/

set_option autoImplicit false

namespace Sqwar.Network

open Data Semantics

/-- A label: as long as the length byte can say, and without dots. -/
structure IsLabel (l : List UInt8) : Prop where
  positive : 0 < l.length
  short : l.length < 64
  dotless : dot ∉ l

/-- A label behind its length. -/
structure LabelAt (m : Known UInt8) (o : ℕ) (l : List UInt8) : Prop where
  isLabel : IsLabel l
  known : m.At o (UInt8.ofNat l.length :: l)

/-- The bytes that `mdns_htons` writes. -/
def htonsBytes (val : ℕ) : List UInt8 := [UInt8.ofNat (val / 256), UInt8.ofNat val]

/-- The bytes that `mdns_htonl` writes. -/
def htonlBytes (val : ℕ) : List UInt8 := htonsBytes (val / 65536) ++ htonsBytes val

/-- A reference. -/
structure RefAt (m : Known UInt8) (o target : ℕ) : Prop where
  short : target < 0x4000
  known : m.At o (htonsBytes (0xC000 ||| target))

/-- Something that `mdns_string_skip` can skip: some labels and what ends them. -/
inductive Skips (m : Known UInt8) : ℕ → ℕ → ℕ → Prop
  | zero {o} : m.At o [0] → Skips m 0 o (o + 1)
  | ref {o target l} : RefAt m o target → LabelAt m target l → Skips m 0 o (o + 2)
  | label {count o l stop} : LabelAt m o l → Skips m count (o + 1 + l.length) stop →
      Skips m (count + 1) o stop

/-- The labels of a name. References lead to labels. -/
inductive Spells (m : Known UInt8) : ℕ → List (List UInt8) → ℕ → Prop
  | zero {o} : m.At o [0] → Spells m o [] (o + 1)
  | label {o l ls stop} : LabelAt m o l → Spells m (o + 1 + l.length) ls stop →
      Spells m o (l :: ls) stop
  | ref {o target l ls stop} : RefAt m o target → LabelAt m target l →
      Spells m (target + 1 + l.length) ls stop → Spells m o (l :: ls) (o + 2)

/-- Labels with a dot behind each. -/
def dotted (ls : List (List UInt8)) : List UInt8 := ls.flatMap fun l => l ++ [dot]

variable {m m' : Known UInt8} {buffer : List UInt8} {size o target stop count : ℕ}
  {l : List UInt8} {ls : List (List UInt8)}

theorem LabelAt.mono (h : LabelAt m o l) (le : m.Le m') : LabelAt m' o l :=
  ⟨h.isLabel, h.known.mono le⟩

theorem RefAt.mono (h : RefAt m o target) (le : m.Le m') : RefAt m' o target :=
  ⟨h.short, h.known.mono le⟩

theorem Skips.mono (h : Skips m count o stop) (le : m.Le m') : Skips m' count o stop := by
  induction h with
  | zero known => exact .zero (known.mono le)
  | ref reference label => exact .ref (reference.mono le) (label.mono le)
  | label label _ ih => exact .label (label.mono le) ih

theorem Spells.mono (h : Spells m o ls stop) (le : m.Le m') : Spells m' o ls stop := by
  induction h with
  | zero known => exact .zero (known.mono le)
  | label label _ ih => exact .label (label.mono le) ih
  | ref reference label _ ih => exact .ref (reference.mono le) (label.mono le) ih

/-! ### Numbers -/

theorem byteAt_known {byte : UInt8} (known : m o = some byte) (holds : m.Holds buffer size) :
    byteAt buffer o = .ok byte :=
  byteAt_eq_ok (holds _ _ known).1

theorem mdnsNtohs_mod (known : m.At o (htonsBytes count)) (holds : m.Holds buffer size) :
    mdnsNtohs buffer o = .ok (count % 65536) := by
  have high : byteAt buffer o = .ok (UInt8.ofNat (count / 256)) :=
    byteAt_known (known 0 _ rfl) holds
  have low : byteAt buffer (o + 1) = .ok (UInt8.ofNat count) := byteAt_known (known 1 _ rfl) holds
  rw [mdnsNtohs, high, low]
  have value : (UInt8.ofNat (count / 256)).toNat * 256 + (UInt8.ofNat count).toNat =
      count % 65536 := by
    simp only [UInt8.toNat_ofNat']
    omega
  exact congrArg Except.ok value

theorem mdnsNtohs_eq (known : m.At o (htonsBytes count)) (holds : m.Holds buffer size)
    (short : count < 65536) : mdnsNtohs buffer o = .ok count := by
  rw [mdnsNtohs_mod known holds, Nat.mod_eq_of_lt short]

theorem mdnsNtohl_eq (known : m.At o (htonlBytes count)) (holds : m.Holds buffer size)
    (short : count < 65536 * 65536) : mdnsNtohl buffer o = .ok count := by
  obtain ⟨first, second⟩ := Known.at_append.mp known
  have second : mdnsNtohs buffer (o + 2) = .ok (count % 65536) := mdnsNtohs_mod second holds
  rw [mdnsNtohl, mdnsNtohs_eq first holds (by omega), second]
  have value : count / 65536 * 65536 + count % 65536 = count := by omega
  exact congrArg Except.ok value

theorem or_refOffset (short : target < 0x4000) : 0xC000 ||| target = 0xC000 + target :=
  (Nat.two_pow_add_eq_or_of_lt (i := 14) short 3).symm

theorem RefAt.ntohs (h : RefAt m o target) (holds : m.Holds buffer size) :
    mdnsNtohs buffer o = .ok (0xC000 + target) := by
  have short := h.short
  rw [mdnsNtohs_eq h.known holds (by rw [or_refOffset short]; omega), or_refOffset short]

/-- The bits of a reference are the high ones. -/
theorem mdnsIsStringRef_iff (val : UInt8) : mdnsIsStringRef val = true ↔ 192 ≤ val.toNat := by
  have all : ∀ n < 256, (mdnsIsStringRef (UInt8.ofNat n) = true ↔ 192 ≤ n) := by decide +kernel
  simpa using all val.toNat val.toNat_lt

/-! ### One label -/

/-- Its length byte is neither zero nor a reference. -/
theorem LabelAt.followRef (h : LabelAt m o l) (holds : m.Holds buffer size) (ref : Bool) :
    followRef buffer size o ref = .ok (some (.inl ⟨o + 1, l.length, ref⟩)) := by
  have short := h.isLabel.short
  have first : byteAt buffer o = .ok (UInt8.ofNat l.length) := byteAt_known (h.known 0 _ rfl) holds
  have length : (UInt8.ofNat l.length).toNat = l.length := by
    rw [UInt8.toNat_ofNat', Nat.mod_eq_of_lt (by omega)]
  have notRef : ¬ mdnsIsStringRef (UInt8.ofNat l.length) = true := by
    rw [mdnsIsStringRef_iff, length]
    omega
  have within := (h.known.end_le holds (List.cons_ne_nil _ _)).1
  rw [List.length_cons] at within
  rw [Network.followRef, first]
  simp only [bind, Except.bind, pure, Except.pure, if_neg notRef, length]
  rw [if_neg (by omega)]

theorem mdnsGetNextSubstring_zero (known : m.At o [0]) (holds : m.Holds buffer size) :
    mdnsGetNextSubstring buffer size o = .ok (some ⟨o, 0, false⟩) := by
  have here : m o = some 0 := known 0 0 rfl
  have inside := (holds _ _ here).2
  rw [mdnsGetNextSubstring, if_neg (by omega), byteAt_known here holds]
  rfl

theorem mdnsGetNextSubstring_label (h : LabelAt m o l) (holds : m.Holds buffer size) :
    mdnsGetNextSubstring buffer size o = .ok (some ⟨o + 1, l.length, false⟩) := by
  have positive := h.isLabel.positive
  have short := h.isLabel.short
  have here : m o = some (UInt8.ofNat l.length) := h.known 0 _ rfl
  have inside := (holds _ _ here).2
  have notZero : UInt8.ofNat l.length ≠ 0 := by
    intro zero
    have length := congrArg UInt8.toNat zero
    rw [UInt8.toNat_ofNat', Nat.mod_eq_of_lt (by omega)] at length
    exact positive.ne' length
  rw [mdnsGetNextSubstring, if_neg (by omega), byteAt_known here holds]
  simp only [bind, Except.bind, pure, Except.pure, if_neg notZero, followRefs,
    h.followRef holds false]

theorem mdnsGetNextSubstring_ref (h : RefAt m o target) (label : LabelAt m target l)
    (holds : m.Holds buffer size) :
    mdnsGetNextSubstring buffer size o = .ok (some ⟨target + 1, l.length, true⟩) := by
  have short := h.short
  have here : m o = some (UInt8.ofNat ((0xC000 ||| target) / 256)) := h.known 0 _ rfl
  have inside : o + 2 ≤ size := (h.known.end_le holds (List.cons_ne_nil _ _)).1
  have targetInside := (holds _ _ (label.known 0 _ rfl)).2
  have high : 192 ≤ (UInt8.ofNat ((0xC000 ||| target) / 256)).toNat := by
    rw [or_refOffset short, UInt8.toNat_ofNat']
    omega
  have notZero : UInt8.ofNat ((0xC000 ||| target) / 256) ≠ 0 := by
    intro zero
    rw [zero] at high
    exact absurd high (by decide)
  have masked : (0xC000 + target) &&& 0x3fff = target := by
    rw [Nat.and_two_pow_sub_one_eq_mod _ 14]
    omega
  have follows : Network.followRef buffer size o false = .ok (some (.inr target)) := by
    rw [Network.followRef, byteAt_known here holds]
    simp only [bind, Except.bind, pure, Except.pure, (mdnsIsStringRef_iff _).mpr high, if_true,
      h.ntohs holds, masked]
    rw [if_neg (by omega), if_neg (by omega)]
  rw [mdnsGetNextSubstring, if_neg (by omega), byteAt_known here holds]
  simp only [bind, Except.bind, pure, Except.pure, if_neg notZero, followRefs, follows,
    label.followRef holds true]

/-- The bytes of a label. -/
theorem LabelAt.bytesAt (h : LabelAt m o l) (holds : m.Holds buffer size)
    (le : count ≤ l.length) : bytesAt buffer (o + 1) count = .ok (l.take count) := by
  have known := (Known.at_cons.mp h.known).2
  have positive := h.isLabel.positive
  have within := (known.end_le holds (List.ne_nil_of_length_pos positive)).2
  have read := known.take_drop holds
  rw [bytesAt_of_le (by omega), ← read, List.take_take, min_eq_left le]

/-! ### Whole names -/

theorem skipLoop_eq (h : Skips m count o stop) (holds : m.Holds buffer size) {left : ℕ}
    (enough : count < left) : skipLoop buffer size left o = .ok (some stop) := by
  induction h generalizing left with
  | zero known =>
    obtain ⟨left, rfl⟩ := Nat.exists_eq_add_of_lt enough
    simp [skipLoop, mdnsGetNextSubstring_zero known holds, bind, Except.bind, pure, Except.pure]
  | ref reference label =>
    obtain ⟨left, rfl⟩ := Nat.exists_eq_add_of_lt enough
    simp [skipLoop, mdnsGetNextSubstring_ref reference label holds, bind, Except.bind, pure,
      Except.pure]
  | label label _ ih =>
    obtain ⟨left, rfl⟩ := Nat.exists_eq_add_of_lt enough
    have positive := label.isLabel.positive
    rw [skipLoop, mdnsGetNextSubstring_label label holds]
    simp only [bind, Except.bind, pure, Except.pure]
    rw [if_neg (by simp), if_neg (by omega)]
    exact ih (by omega)

/-- `mdns_string_skip` ends behind the name. -/
theorem mdnsStringSkip_eq (h : Skips m count o stop) (holds : m.Holds buffer size)
    (few : count ≤ 64) : mdnsStringSkip buffer size o = .ok (some stop) :=
  skipLoop_eq h holds (Nat.lt_succ_of_le few)

theorem Spells.skips (h : Spells m o ls stop) : ∃ count ≤ ls.length, Skips m count o stop := by
  induction h with
  | zero known => exact ⟨0, le_rfl, .zero known⟩
  | label label _ ih =>
    obtain ⟨count, le, skips⟩ := ih
    exact ⟨count + 1, Nat.succ_le_succ le, .label label skips⟩
  | ref reference label _ _ => exact ⟨0, Nat.zero_le _, .ref reference label⟩

/-- The first label of a name, wherever it is, and the rest. -/
theorem Spells.next (h : Spells m o ls stop) (holds : m.Holds buffer size) :
    (ls = [] ∧ mdnsGetNextSubstring buffer size o = .ok (some ⟨o, 0, false⟩) ∧ stop = o + 1) ∨
      ∃ l rest at_ ref stop', ls = l :: rest ∧ LabelAt m at_ l ∧
        mdnsGetNextSubstring buffer size o = .ok (some ⟨at_ + 1, l.length, ref⟩) ∧
        Spells m (at_ + 1 + l.length) rest stop' ∧ stop = if ref then o + 2 else stop' := by
  cases h with
  | zero known => exact .inl ⟨rfl, mdnsGetNextSubstring_zero known holds, rfl⟩
  | @label _ l rest _ label spells =>
    exact .inr ⟨l, rest, o, false, stop, rfl, label, mdnsGetNextSubstring_label label holds, spells,
      rfl⟩
  | @ref _ target l rest stop' reference label spells =>
    exact .inr ⟨l, rest, target, true, stop', rfl, label,
      mdnsGetNextSubstring_ref reference label holds, spells, rfl⟩

theorem length_dotted_cons : (dotted (l :: ls)).length = l.length + 1 + (dotted ls).length := by
  simp [dotted]
  omega

theorem extractLoop_eq (h : Spells m o ls stop) (holds : m.Holds buffer size) {left remain : ℕ}
    (enough : ls.length < left) (room : (dotted ls).length ≤ remain) (first : Option ℕ)
    (str : List UInt8) :
    extractLoop buffer size left o first remain str =
      .ok (some (first.getD stop, str ++ dotted ls)) := by
  induction ls generalizing o stop left remain first str with
  | nil =>
    obtain ⟨left, rfl⟩ := Nat.exists_eq_add_of_lt enough
    obtain ⟨-, next, rfl⟩ | ⟨l, rest, _, _, _, none, -⟩ := h.next holds
    · rw [extractLoop, next]
      simp [bind, Except.bind, pure, Except.pure, dotted]
    · cases none
  | cons l ls ih =>
    obtain ⟨left, rfl⟩ := Nat.exists_eq_add_of_lt enough
    obtain ⟨none, -⟩ | ⟨l', rest, at_, ref, stop', same, label, next, spells, rfl⟩ := h.next holds
    · cases none
    · obtain ⟨rfl, rfl⟩ := List.cons.inj same
      have positive := label.isLabel.positive
      rw [length_dotted_cons] at room
      have whole : min l.length remain = l.length := min_eq_left (by omega)
      have read := label.bytesAt holds (le_refl l.length)
      rw [List.take_length] at read
      rw [extractLoop, next]
      simp only [bind, Except.bind, pure, Except.pure]
      rw [if_neg (by omega), whole, read]
      dsimp only
      rw [if_pos (by omega), ih spells (by simp only [List.length_cons]; omega) (by omega)]
      have spelled : str ++ l ++ [dot] ++ dotted ls = str ++ dotted (l :: ls) := by simp [dotted]
      rw [spelled]
      cases first <;> cases ref <;> rfl

/-- **`mdns_string_extract` gets the labels of a name** and ends behind it. -/
theorem mdnsStringExtract_eq (h : Spells m o ls stop) (holds : m.Holds buffer size)
    (few : ls.length ≤ 64) {capacity : ℕ} (room : (dotted ls).length ≤ capacity) :
    mdnsStringExtract buffer size o capacity = .ok (stop, dotted ls) := by
  have enough : ls.length < mdnsMaxSubstrings + 1 := Nat.lt_succ_of_le few
  rw [mdnsStringExtract, extractLoop_eq h holds enough room]
  rfl

end Sqwar.Network
