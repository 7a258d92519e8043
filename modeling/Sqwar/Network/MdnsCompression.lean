import Mathlib.Data.Set.Basic
import Sqwar.Network.MdnsWriting

/-!
# Names that have been written

Whatever a packet holds, `mdns_string_make` writes something that `mdns_string_skip` skips. If no
name of the packet can be mistaken for another one, it spells the name.
-/

set_option autoImplicit false

namespace Sqwar.Network

open Data Semantics

/-- What is known of a packet that is being written. -/
structure Writes (m : Known UInt8) (w : Writer) : Prop where
  holds : m.Holds w.buffer w.buffer.length
  fresh : m.Fresh w.data
  inside : w.data ≤ w.buffer.length

/-- More has been written, and nothing has changed in front of it. -/
structure Later (m : Known UInt8) (w : Writer) (m' : Known UInt8) (w' : Writer) : Prop where
  writes : Writes m' w'
  same : ∀ i < w.data, m' i = m i
  length : w'.buffer.length = w.buffer.length
  grows : w.data ≤ w'.data

/-- The offsets that the string table has. -/
def Writer.entries (w : Writer) : List ℕ :=
  match w.table with
  | none => []
  | some table => table.entries

/-- Labels, one behind the other. -/
inductive Literal (m : Known UInt8) : ℕ → List (List UInt8) → ℕ → Prop
  | nil {o} : Literal m o [] o
  | cons {o l ls stop} : LabelAt m o l → Literal m (o + 1 + l.length) ls stop →
      Literal m o (l :: ls) stop

/-- No name has a label twice, and of two names that go on with the same labels none ends before
the other. -/
structure Unambiguous (names : Set (List (List UInt8))) : Prop where
  nodup : ∀ name ∈ names, name.Nodup
  ends : ∀ name ∈ names, ∀ name' ∈ names, ∀ s s', s ≠ [] → s <:+ name → s' <:+ name' → s <+: s' →
    s = s'

/-- An offset of the string table. If the names are not ambiguous, the end of one is there. -/
def Entry (trust : Prop) (m : Known UInt8) (names : Set (List (List UInt8))) (o : ℕ) : Prop :=
  ∃ l, LabelAt m o l ∧
    (trust → ∃ ls stop, Spells m (o + 1 + l.length) ls stop ∧ ∃ name ∈ names, (l :: ls) <:+ name)

/-- An offset that has been added for the name that is being written. -/
def Pending (m : Known UInt8) (done : List (List UInt8)) (data o : ℕ) : Prop :=
  ∃ l ls, Literal m o (l :: ls) data ∧ (l :: ls) <:+ done

variable {m m' m'' : Known UInt8} {w w' w'' : Writer} {bytes : List UInt8} {o stop stop' : ℕ}
  {l : List UInt8} {ls ls' s name done : List (List UInt8)} {names : Set (List (List UInt8))}
  {trust : Prop}

theorem Later.refl (h : Writes m w) : Later m w m w := ⟨h, fun _ _ => rfl, rfl, le_rfl⟩

theorem Later.trans (h : Later m w m' w') (h' : Later m' w' m'' w'') : Later m w m'' w'' where
  writes := h'.writes
  same i before := (h'.same i (before.trans_le h.grows)).trans (h.same i before)
  length := h'.length.trans h.length
  grows := h.grows.trans h'.grows

theorem Later.le (h : Later m w m' w') (writes : Writes m w) : m.Le m' := by
  intro i value known
  rcases Nat.lt_or_ge i w.data with before | behind
  · exact (h.same i before).trans known
  · rw [writes.fresh i behind] at known
    cases known

/-- Names whose last labels are nowhere else are not ambiguous. -/
theorem unambiguous_of_ends (ends : Set (List UInt8))
    (split : ∀ name ∈ names, ∃ front last, name = front ++ [last] ∧ last ∈ ends ∧ front.Nodup ∧
      ∀ l ∈ front, l ∉ ends) : Unambiguous names where
  nodup name mem := by
    obtain ⟨front, last, rfl, isEnd, nodup, other⟩ := split name mem
    refine List.nodup_append.mpr ⟨nodup, List.nodup_singleton _, fun l member l' member' same => ?_⟩
    obtain rfl := List.mem_singleton.mp member'
    exact other l member (same ▸ isEnd)
  ends name mem name' mem' s s' some isSuffix isSuffix' isPrefix := by
    obtain ⟨front, last, rfl, isEnd, -, -⟩ := split name mem
    obtain ⟨front', last', rfl, -, -, other'⟩ := split name' mem'
    obtain ⟨more, rfl⟩ := isPrefix
    rcases List.eq_nil_or_concat' more with rfl | ⟨more, l, rfl⟩
    · rw [List.append_nil]
    · -- the last label would be in the front of the other name
      exfalso
      rcases List.eq_nil_or_concat' s with rfl | ⟨s, l', rfl⟩
      · exact some rfl
      · have isLast : l' = last := by
          obtain ⟨before, same⟩ := isSuffix
          rw [← List.append_assoc] at same
          exact (List.append_inj' same rfl).2 |> List.singleton_inj.mp
        obtain ⟨before, same⟩ := isSuffix'
        rw [← List.append_assoc, ← List.append_assoc] at same
        have front := (List.append_inj' same rfl).1
        refine other' l' (front ▸ ?_) (isLast ▸ isEnd)
        simp

/-! ### Storing -/

/-- The writer behind some bytes. -/
def Writer.after (w : Writer) (bytes : List UInt8) : Writer :=
  { w with buffer := overwrite w.buffer w.data bytes, data := w.data + bytes.length }

@[simp] theorem Writer.after_data : (w.after bytes).data = w.data + bytes.length := rfl

@[simp] theorem Writer.after_table : (w.after bytes).table = w.table := rfl

theorem Writer.store_eq (room : w.data + bytes.length ≤ w.buffer.length) :
    w.store bytes = .ok (w.after bytes) := if_pos room

theorem Writes.after (h : Writes m w) (room : w.data + bytes.length ≤ w.buffer.length) :
    Later m w (m.put w.data bytes) (w.after bytes) := by
  have length : (overwrite w.buffer w.data bytes).length = w.buffer.length :=
    overwrite_length w.buffer bytes room
  refine ⟨⟨?_, h.fresh.put bytes, room.trans_eq length.symm⟩, fun i before => ?_, length,
    Nat.le_add_right _ _⟩
  · have holds := h.holds.overwrite room le_rfl
    rwa [← length] at holds
  · exact if_neg (by omega)

/-! ### Labels -/

theorem Literal.mono (h : Literal m o ls stop) (le : m.Le m') : Literal m' o ls stop := by
  induction h with
  | nil => exact .nil
  | cons label _ ih => exact .cons (label.mono le) ih

theorem Literal.append (h : Literal m o ls stop) (h' : Literal m stop ls' stop') :
    Literal m o (ls ++ ls') stop' := by
  induction h with
  | nil => exact h'
  | cons label _ ih => exact .cons label (ih h')

theorem Literal.spells (h : Literal m o ls stop) (h' : Spells m stop s stop') :
    Spells m o (ls ++ s) stop' := by
  induction h with
  | nil => exact h'
  | cons label _ ih => exact .label label (ih h')

theorem Entry.mono (h : Entry trust m names o) (le : m.Le m') : Entry trust m' names o := by
  obtain ⟨l, label, spelled⟩ := h
  refine ⟨l, label.mono le, fun trusted => ?_⟩
  obtain ⟨ls, stop, spells, isEnd⟩ := spelled trusted
  exact ⟨ls, stop, spells.mono le, isEnd⟩

theorem Pending.mono {data : ℕ} (h : Pending m done data o) (le : m.Le m') :
    Pending m' done data o := by
  obtain ⟨l, ls, literal, isEnd⟩ := h
  exact ⟨l, ls, literal.mono le, isEnd⟩

/-- The name has been written. -/
theorem Pending.entry {data : ℕ} (h : Pending m done data o)
    (spells : trust → Spells m data s stop) (mem : done ++ s ∈ names) : Entry trust m names o := by
  obtain ⟨l, ls, literal, isEnd⟩ := h
  cases literal with
  | cons label literal =>
    refine ⟨l, label, fun trusted => ⟨ls ++ s, stop, literal.spells (spells trusted), _, mem, ?_⟩⟩
    obtain ⟨front, rfl⟩ := isEnd
    exact ⟨front, by simp⟩

/-- Another label of the name has been written. -/
theorem Pending.next {data data' : ℕ} (h : Pending m done data o)
    (literal : Literal m data [l] data') : Pending m (done ++ [l]) data' o := by
  obtain ⟨l', ls, front, isEnd⟩ := h
  refine ⟨l', ls ++ [l], ?_, ?_⟩
  · simpa using front.append literal
  · obtain ⟨before, rfl⟩ := isEnd
    exact ⟨before, by simp⟩

/-! ### The string table -/

theorem MdnsStringTable.mem_entries {table : MdnsStringTable} :
    o ∈ table.entries ↔ ∃ i : Fin 16, i.val < table.count ∧ table.offset i = o := by
  rw [entries, List.mem_map]
  refine exists_congr fun i => and_congr_left fun _ => ?_
  rw [List.mem_take_iff_getElem]
  constructor
  · rintro ⟨j, less, found⟩
    rw [List.getElem_finRange] at found
    obtain rfl := found
    exact (lt_min_iff.mp less).1
  · intro less
    exact ⟨i, by simpa using less, by simp⟩

theorem MdnsStringTable.mem_entries_add {table : MdnsStringTable} {offset : ℕ}
    (mem : o ∈ (table.add offset).entries) : o = offset ∨ o ∈ table.entries := by
  rw [mem_entries] at mem ⊢
  obtain ⟨i, less, found⟩ := mem
  by_cases last : i = table.next
  · subst last
    exact .inl (found.symm.trans (Function.update_self ..))
  · refine .inr ⟨i, ?_, (Function.update_of_ne last ..).symm.trans found⟩
    have fits := table.fits
    have order := table.order
    have other : i.val ≠ table.next.val := fun same => last (Fin.ext same)
    simp only [add] at less
    split_ifs at less <;> omega

theorem tableFind_spec (buffer str : List UInt8) (offsets : List ℕ) :
    ∃ found, tableFind buffer str offsets = .ok found ∧
      ∀ o, found = some o → o ∈ offsets ∧ matchEntry buffer str o = .ok true := by
  induction offsets with
  | nil => exact ⟨none, rfl, by simp⟩
  | cons offset offsets ih =>
    obtain ⟨matched, isMatch⟩ := matchEntry_inside buffer str offset
    rw [tableFind, isMatch]
    cases matched with
    | true => exact ⟨some offset, rfl, fun o same => by cases same; simpa using isMatch⟩
    | false =>
      obtain ⟨found, rest, isFound⟩ := ih
      exact ⟨found, rest, fun o same => (isFound o same).imp_left (List.mem_cons_of_mem _)⟩

theorem mdnsStringTableFind_spec (w : Writer) (str : List UInt8) :
    ∃ found, mdnsStringTableFind w str = .ok found ∧
      ∀ o, found = some o → o ∈ w.entries ∧ matchEntry w.buffer str o = .ok true := by
  rw [mdnsStringTableFind, Writer.entries]
  cases w.table with
  | none => exact ⟨none, rfl, by simp⟩
  | some table =>
    obtain ⟨found, run, isFound⟩ := tableFind_spec w.buffer str table.entries
    exact ⟨found, by simp only [run], isFound⟩

theorem exists_labelAt {data : ℕ} (entry : Entry trust m names o ∨ Pending m done data o) :
    ∃ l, LabelAt m o l := by
  rcases entry with ⟨l, label, -⟩ | ⟨l, ls, literal, -⟩
  · exact ⟨l, label⟩
  · cases literal with
    | cons label _ => exact ⟨l, label⟩

/-- An entry that matches is where the rest of the name is. -/
theorem spells_of_matchEntry {data : ℕ} {buffer : List UInt8} (unambiguous : Unambiguous names)
    (holds : m.Holds buffer buffer.length) (labels : ∀ l' ∈ l :: s, IsLabel l')
    (mem : done ++ l :: s ∈ names) (trusted : trust)
    (entry : Entry trust m names o ∨ Pending m done data o)
    (isMatch : matchEntry buffer (joinDots (l :: s)) o = .ok true) :
    ∃ stop, LabelAt m o l ∧ Spells m (o + 1 + l.length) s stop := by
  have isLabel := labels l (List.mem_cons_self ..)
  rcases entry with ⟨l', label, spelled⟩ | ⟨l', ls, literal, isEnd⟩
  · obtain ⟨ls, stop, spells, name, mem', isEnd⟩ := spelled trusted
    obtain ⟨rfl, rest⟩ := matchRest_of_matchEntry label holds isLabel isMatch
    have front := prefix_of_matchRest spells holds
      (fun l member => labels l (List.mem_cons_of_mem _ member)) rest
    have same := unambiguous.ends _ mem _ mem' _ _ (List.cons_ne_nil _ _) (List.suffix_append ..)
      isEnd (List.cons_prefix_cons.mpr ⟨rfl, front⟩)
    obtain rfl := (List.cons.inj same).2
    exact ⟨stop, label, spells⟩
  · -- the label would be in this name twice
    cases literal with
    | cons label literal =>
      obtain ⟨rfl, -⟩ := matchRest_of_matchEntry label holds isLabel isMatch
      have nodup := List.nodup_append.mp (unambiguous.nodup _ mem)
      exact absurd rfl (nodup.2.2 l' (isEnd.subset (List.mem_cons_self ..)) l'
        (List.mem_cons_self ..))

/-! ### Making names -/

/-- What `mdns_string_make` does. -/
structure Makes (trust : Prop) (names : Set (List (List UInt8))) (m : Known UInt8) (w : Writer)
    (ls : List (List UInt8)) (m' : Known UInt8) (w' : Writer) : Prop where
  later : Later m w m' w'
  skips : ∃ count ≤ ls.length, Skips m' count w.data w'.data
  spells : trust → Spells m' w.data ls w'.data
  entries : ∀ o ∈ w'.entries, Entry trust m' names o
  short : w'.data ≤ w.data + (dotted ls).length + 1

/-- The end of the name makes its labels entries like the others. -/
theorem entry_of_spells (entries : ∀ o ∈ w.entries, Entry trust m names o ∨ Pending m done w.data o)
    (le : m.Le m') (spells : trust → Spells m' w.data s stop) (mem : done ++ s ∈ names) :
    ∀ o ∈ w.entries, Entry trust m' names o := by
  intro o member
  rcases entries o member with entry | pending
  · exact entry.mono le
  · exact (pending.mono le).entry spells mem

/-- A label is added to the entries. -/
theorem entries_add (entries : ∀ o ∈ w.entries, Entry trust m names o ∨ Pending m done w.data o)
    (le : m.Le m') (literal : Literal m' w.data [l] w'.data)
    (table : w'.table = w.table.map fun table => table.add w.data) :
    ∀ o ∈ w'.entries, Entry trust m' names o ∨ Pending m' (done ++ [l]) w'.data o := by
  intro o member
  have old : o ∈ w.entries → Entry trust m' names o ∨ Pending m' (done ++ [l]) w'.data o :=
    fun member => (entries o member).imp (fun entry => entry.mono le)
      fun pending => (pending.mono le).next literal
  rw [Writer.entries, table] at member
  cases isTable : w.table with
  | none =>
    rw [isTable] at member
    cases member
  | some table =>
    rw [isTable] at member
    rcases MdnsStringTable.mem_entries_add member with rfl | member
    · exact .inr ⟨l, [], literal, List.suffix_append ..⟩
    · exact old (by rwa [Writer.entries, isTable])

theorem makeLoop_spec (ambiguity : trust → Unambiguous names ∨ w.table = none)
    (small : w.buffer.length ≤ 0x4000) (labels : ∀ l ∈ s, IsLabel l) (mem : done ++ s ∈ names)
    (writes : Writes m w)
    (entries : ∀ o ∈ w.entries, Entry trust m names o ∨ Pending m done w.data o) :
    (∃ buffer, makeLoop w (joinDots s) = .error (.null buffer) ∧
        buffer.length = w.buffer.length ∧ w.buffer.length < w.data + (dotted s).length + 1) ∨
      ∃ m' w', makeLoop w (joinDots s) = .ok w' ∧ Makes trust names m w s m' w' := by
  have inside := writes.inside
  -- by induction on the labels that are left, the others of the name being pending
  induction s generalizing w m done with
  | nil =>
    rw [joinDots, makeLoop, dif_pos rfl]
    split_ifs with full
    · exact .inl ⟨w.buffer, rfl, rfl, by omega⟩
    · have room : w.data + [(0 : UInt8)].length ≤ w.buffer.length := by
        rw [List.length_singleton]
        omega
      have later := writes.after room
      have spells : Spells (m.put w.data [0]) w.data [] (w.data + 1) := .zero (Known.at_put _ _ _)
      exact .inr ⟨_, _, Writer.store_eq room, later, ⟨0, le_rfl, .zero (Known.at_put _ _ _)⟩,
        fun _ => spells, entry_of_spells (w := w) entries (later.le writes) (fun _ => spells) mem,
        Nat.le_refl _⟩
  | cons l s ih =>
    have isLabel := labels l (List.mem_cons_self ..)
    have length : (dotted (l :: s)).length = l.length + 1 + (dotted s).length := length_dotted_cons
    obtain ⟨found, find, isFound⟩ := mdnsStringTableFind_spec w (joinDots (l :: s))
    rw [makeLoop, dif_neg (joinDots_cons_ne_nil isLabel), find]
    cases found with
    | some o =>
      obtain ⟨member, isMatch⟩ := isFound o rfl
      obtain ⟨l', label⟩ := exists_labelAt (entries o member)
      have short := (writes.holds _ _ (label.known 0 _ rfl)).2
      simp only [bind, Except.bind, mdnsStringMakeRef]
      split_ifs with full
      · exact .inl ⟨w.buffer, rfl, rfl, by omega⟩
      · have room : w.data + (htonsBytes (0xC000 ||| o % 65536)).length ≤ w.buffer.length :=
          show w.data + 2 ≤ w.buffer.length by omega
        have later := writes.after room
        have reference : RefAt (m.put w.data (htonsBytes (0xC000 ||| o % 65536))) w.data o :=
          ⟨by omega, by
            rw [Nat.mod_eq_of_lt (by omega)]
            exact Known.at_put _ _ _⟩
        have spells : trust →
            Spells (m.put w.data (htonsBytes (0xC000 ||| o % 65536))) w.data (l :: s)
              (w.data + 2) := by
          intro trusted
          rcases ambiguity trusted with unambiguous | none
          · obtain ⟨stop, label, spells⟩ := spells_of_matchEntry unambiguous writes.holds labels mem
              trusted (entries o member) isMatch
            exact .ref reference (label.mono (later.le writes)) (spells.mono (later.le writes))
          · rw [Writer.entries, none] at member
            cases member
        refine .inr ⟨_, _, Writer.store_eq room, later,
          ⟨0, Nat.zero_le _, .ref reference (label.mono (later.le writes))⟩, spells,
          entry_of_spells (w := w) entries (later.le writes) spells mem, ?_⟩
        change w.data + 2 ≤ w.data + (dotted (l :: s)).length + 1
        omega
    | none =>
      simp only [bind, Except.bind, nextLabel_joinDots isLabel, afterLabel_joinDots isLabel]
      split_ifs with full
      · exact .inl ⟨w.buffer, rfl, rfl, by omega⟩
      · have room : w.data + (UInt8.ofNat l.length :: l).length ≤ w.buffer.length := by
          rw [List.length_cons]
          omega
        have later := writes.after room
        have label : LabelAt (m.put w.data (UInt8.ofNat l.length :: l)) w.data l :=
          ⟨isLabel, Known.at_put _ _ _⟩
        rw [Writer.store_eq room]
        dsimp only
        -- what is known behind the label, and the entry for it
        obtain ⟨w₁, same, buffer, data, table⟩ : ∃ w₁ : Writer,
            { w.after (UInt8.ofNat l.length :: l) with
              table := w.table.map fun table => table.add w.data } = w₁ ∧
            w₁.buffer = (w.after (UInt8.ofNat l.length :: l)).buffer ∧
            w₁.data = w.data + 1 + l.length ∧
            w₁.table = w.table.map fun table => table.add w.data :=
          ⟨_, rfl, rfl, by simp only [Writer.after_data, List.length_cons]; omega, rfl⟩
        rw [same]
        have later : Later m w (m.put w.data (UInt8.ofNat l.length :: l)) w₁ := by
          obtain rfl := same
          exact ⟨⟨later.writes.holds, later.writes.fresh, later.writes.inside⟩, later.same,
            later.length, later.grows⟩
        have rest := ih (w := w₁)
          (fun trusted => (ambiguity trusted).imp_right fun none => by rw [table, none]; rfl)
          (later.length.trans_le small) (fun l member => labels l (List.mem_cons_of_mem _ member))
          (show (done ++ [l]) ++ s ∈ names by simpa using mem) later.writes
          (entries_add entries (later.le writes) (.cons label (data ▸ .nil)) table)
          later.writes.inside
        rw [later.length, data] at rest
        rcases rest with ⟨buffer, run, length, short⟩ | ⟨m', w', run, makes⟩
        · exact .inl ⟨buffer, run, length, by omega⟩
        · refine .inr ⟨m', w', run, later.trans makes.later, ?_, fun trusted => ?_, makes.entries,
            ?_⟩
          · obtain ⟨count, le, skips⟩ := makes.skips
            exact ⟨count + 1, Nat.succ_le_succ le,
              .label (label.mono (makes.later.le later.writes)) (data ▸ skips)⟩
          · exact .label (label.mono (makes.later.le later.writes)) (data ▸ makes.spells trusted)
          · have short := makes.short
            omega

/-- A string of labels, with a dot at its end or without one. -/
structure IsName (str : List UInt8) (ls : List (List UInt8)) : Prop where
  labels : ∀ l ∈ ls, IsLabel l
  ne_nil : ls ≠ []
  spelling : str = joinDots ls ∨ str = dotted ls

theorem exists_getLast?_joinDots (labels : ∀ l ∈ ls, IsLabel l) (some : ls ≠ []) :
    ∃ c, c ≠ dot ∧ (joinDots ls).getLast? = Option.some c := by
  induction ls with
  | nil => exact absurd rfl some
  | cons l ls ih =>
    cases ls with
    | nil =>
      have isLabel := labels l (List.mem_cons_self ..)
      refine ⟨l.getLast isLabel.ne_nil, fun same => ?_, List.getLast?_eq_getLast_of_ne_nil _⟩
      exact isLabel.dotless (same ▸ List.getLast_mem _)
    | cons l' ls =>
      obtain ⟨c, other, last⟩ := ih (fun l member => labels l (List.mem_cons_of_mem _ member))
        (List.cons_ne_nil _ _)
      refine ⟨c, other, ?_⟩
      rw [joinDots, List.getLast?_append, List.getLast?_cons, last]
      rfl

/-- The dot at the end of a name does not matter. -/
theorem IsName.mdnsStringMake {str : List UInt8} (h : IsName str ls) (w : Writer) :
    mdnsStringMake w str = makeLoop w (joinDots ls) := by
  rcases h.spelling with rfl | rfl
  · obtain ⟨c, other, last⟩ := exists_getLast?_joinDots h.labels h.ne_nil
    rw [Network.mdnsStringMake, last]
    simp only [if_neg other]
  · rw [Network.mdnsStringMake, dotted_eq h.ne_nil, List.getLast?_concat]
    simp

/-- **A name** is made unless the buffer is too short for it. -/
theorem mdnsStringMake_spec {str : List UInt8} (h : IsName str ls)
    (ambiguity : trust → Unambiguous names ∨ w.table = none) (small : w.buffer.length ≤ 0x4000)
    (mem : ls ∈ names) (writes : Writes m w) (entries : ∀ o ∈ w.entries, Entry trust m names o) :
    (∃ buffer, mdnsStringMake w str = .error (.null buffer) ∧
        buffer.length = w.buffer.length ∧ w.buffer.length < w.data + (dotted ls).length + 1) ∨
      ∃ m' w', mdnsStringMake w str = .ok w' ∧ Makes trust names m w ls m' w' := by
  rw [h.mdnsStringMake]
  exact makeLoop_spec ambiguity small h.labels (show [] ++ ls ∈ names from mem) writes
    fun o member => .inl (entries o member)

end Sqwar.Network
