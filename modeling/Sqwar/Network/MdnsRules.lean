import Sqwar.Network.MdnsAnswers

/-!
# Rules for writing packets

A function that writes a part of a packet either fails, and then the buffer was too short for what
the part may take, or something is known of what it has written.
-/

set_option autoImplicit false

namespace Sqwar.Network

open Data Semantics

/-- A packet that more can be written into. -/
structure Ready (trust : Prop) (names : Set (List (List UInt8))) (m : Known UInt8) (w : Writer) :
    Prop where
  writes : Writes m w
  entries : ∀ o ∈ w.entries, Entry trust m names o
  small : w.buffer.length ≤ 0x4000
  unambiguous : trust → Unambiguous names

/-- A part of a packet that may take `size` bytes, and what is known when it has been written. -/
def Writing (trust : Prop) (names : Set (List (List UInt8))) (m : Known UInt8) (w : Writer)
    (run : Except Stop Writer) (size : ℕ) (post : Known UInt8 → Writer → Prop) : Prop :=
  (∃ buffer, run = .error (.null buffer) ∧ buffer.length = w.buffer.length ∧
      w.buffer.length < w.data + size) ∨
    ∃ m' w', run = .ok w' ∧ Later m w m' w' ∧ Ready trust names m' w' ∧
      w'.data ≤ w.data + size ∧ post m' w'

variable {trust : Prop} {names : Set (List (List UInt8))} {m m' : Known UInt8} {w w' : Writer}
  {run : Except Stop Writer} {size size' : ℕ} {post post' : Known UInt8 → Writer → Prop}
  {bytes : List UInt8}

/-- The table has the same entries. -/
theorem Ready.after (ready : Ready trust names m w) (later : Later m w m' (w.after bytes)) :
    Ready trust names m' (w.after bytes) where
  writes := later.writes
  entries o member := (ready.entries o member).mono (later.le ready.writes)
  small := later.length.trans_le ready.small
  unambiguous := ready.unambiguous

namespace Writing

theorem ok (ready : Ready trust names m w) (h : post m w) :
    Writing trust names m w (.ok w) size post :=
  .inr ⟨m, w, rfl, .refl ready.writes, ready, Nat.le_add_right _ _, h⟩

theorem null (short : w.buffer.length < w.data + size) :
    Writing trust names m w (.error (.null w.buffer)) size post :=
  .inl ⟨w.buffer, rfl, rfl, short⟩

theorem imp (h : Writing trust names m w run size post) (le : size ≤ size')
    (follows : ∀ m' w', Later m w m' w' → post m' w' → post' m' w') :
    Writing trust names m w run size' post' := by
  rcases h with ⟨buffer, stops, length, short⟩ | ⟨m', w', runs, later, ready, within, holds⟩
  · exact .inl ⟨buffer, stops, length, by omega⟩
  · exact .inr ⟨m', w', runs, later, ready, by omega, follows m' w' later holds⟩

theorem bind {next : Writer → Except Stop Writer} (h : Writing trust names m w run size post)
    (goesOn : ∀ m' w', Later m w m' w' → Ready trust names m' w' → post m' w' →
      Writing trust names m' w' (next w') size' post') :
    Writing trust names m w (run >>= next) (size + size') post' := by
  rcases h with ⟨buffer, rfl, length, short⟩ | ⟨m', w', rfl, later, ready, within, holds⟩
  · exact .inl ⟨buffer, rfl, length, by omega⟩
  · rcases goesOn m' w' later ready holds with ⟨buffer, stops, length, short⟩ |
      ⟨m'', w'', runs, later', ready', within', holds'⟩
    · exact .inl ⟨buffer, stops, length.trans later.length, by have := later.length; omega⟩
    · exact .inr ⟨m'', w'', runs, later.trans later', ready', by omega, holds'⟩

theorem ite_null {c : Prop} [Decidable c] (short : c → w.buffer.length < w.data + size)
    (goesOn : ¬ c → Writing trust names m w run size post) :
    Writing trust names m w (if c then .error (.null w.buffer) else run) size post := by
  split_ifs with h
  · exact null (short h)
  · exact goesOn h

theorem store (ready : Ready trust names m w) (room : w.data + bytes.length ≤ w.buffer.length) :
    Writing trust names m w (w.store bytes) bytes.length
      fun m' w' => m'.At w.data bytes ∧ w'.data = w.data + bytes.length := by
  have later := ready.writes.after room
  exact .inr ⟨_, _, Writer.store_eq room, later, ready.after later, le_rfl, Known.at_put _ _ _, rfl⟩

/-- Bytes that will be written again. -/
theorem hole (ready : Ready trust names m w) (room : w.data + bytes.length ≤ w.buffer.length) :
    Writing trust names m w (w.store bytes) bytes.length
      fun m' w' => m'.Open w.data bytes.length ∧ w'.data = w.data + bytes.length := by
  have later := ready.writes.after room
  have inside : Writes m (w.after bytes) := by
    refine ⟨fun i value known => ?_, ready.writes.fresh.mono (Nat.le_add_right _ _),
      later.writes.inside⟩
    exact later.writes.holds i value (later.le ready.writes i value known)
  have later : Later m w m (w.after bytes) :=
    ⟨inside, fun _ _ => rfl, later.length, later.grows⟩
  exact .inr ⟨_, _, Writer.store_eq room, later, ready.after later, le_rfl,
    ready.writes.fresh.isOpen _, rfl⟩

/-- A name that may be in the packet. -/
theorem make {str : List UInt8} {ls : List (List UInt8)} (ready : Ready trust names m w)
    (isName : IsName str ls) (mem : ls ∈ names) :
    Writing trust names m w (mdnsStringMake w str) ((dotted ls).length + 1) fun m' w' =>
      (∃ count ≤ ls.length, Skips m' count w.data w'.data) ∧
        (trust → Spells m' w.data ls w'.data) := by
  rcases mdnsStringMake_spec isName (fun trusted => .inl (ready.unambiguous trusted)) ready.small
    mem ready.writes ready.entries with ⟨buffer, stops, length, short⟩ | ⟨m', w', runs, makes⟩
  · exact .inl ⟨buffer, stops, length, by omega⟩
  · exact .inr ⟨m', w', runs, makes.later,
      ⟨makes.later.writes, makes.entries, makes.later.length.trans_le ready.small,
        ready.unambiguous⟩, by have := makes.short; omega, makes.skips, makes.spells⟩

end Writing

end Sqwar.Network
