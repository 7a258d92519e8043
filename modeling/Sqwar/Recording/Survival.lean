import Sqwar.Recording.BlockLoop

/-!
# Reading any file

Whether `ReadAllBlocks` survives a file is decided by how its chain of blocks parses. The result of
reading the properties is not looked at, so a tag that is the last whole block makes the reader
start over behind the first two blocks, and if it comes upon that tag again it never ends. A file
without a frame of each kind lets the accesses to the first and last frames go wrong.
-/

set_option autoImplicit false

namespace Sqwar.Recording

open Data Semantics

/-- `ReadAllBlocks` terminates on the file, no pass of it copies outside a block or a vector, and
the frames whose timestamps it takes at the end are there, however the frames were sorted. -/
structure Survives (stale : ℕ → DepthDataProps) (content : List UInt8) : Prop where
  terminates : ∃ final, Finishes (readAllBody stale) (.start content) final
  copies : ∀ loop fault, Passes (readAllBody stale) (.start content) loop →
    readAllBody stale loop ≠ .error fault
  accesses : ∀ final depthFrames faceFrames, Finishes (readAllBody stale) (.start content) final →
    depthFrames.Perm final.depthFrames → faceFrames.Perm final.faceFrames →
      ∃ timeline, finish depthFrames faceFrames = .ok timeline

variable {content : List UInt8} {later : List (List UInt8)} {kinds : List FrameKind}
  {opened : Option FrameKind} {stored : List FrameKind} {final : List FrameKind}

/-- How the last blocks of a file parse: stray blocks and whole records, at the end of which there
may be a record that was cut off. Behind the cut, blocks have the sizes that the reader meets when
it is rewound; a record of which only the tag is there stays open. -/
inductive Parses (content : List UInt8) :
    List (List UInt8) → List FrameKind → Option FrameKind → Prop
  | done : Parses content [] [] none
  | stray {block : List UInt8} {later : List (List UInt8)} {kinds : List FrameKind}
      {opened : Option FrameKind} : kindOf block = none → Parses content later kinds opened →
      Parses content (block :: later) kinds opened
  | record {kind : FrameKind} {tag props first second : List UInt8} {later : List (List UInt8)}
      {kinds : List FrameKind} {opened : Option FrameKind} : kindOf tag = some kind →
      kind.Fits props.length first.length second.length → Parses content later kinds opened →
      Parses content (tag :: props :: first :: second :: later) (kind :: kinds) opened
  | cutSecond {kind : FrameKind} {tag props first : List UInt8} : kindOf tag = some kind →
      kind.Fits props.length first.length (declaredSize (chain content).2) →
      Parses content [tag, props, first] [kind] none
  | cutFirst {kind : FrameKind} {tag props front : List UInt8} {others : List (List UInt8)} :
      kindOf tag = some kind → (chain content).1 = front :: others →
      kind.Fits props.length (declaredSize (chain content).2) front.length →
      Parses content [tag, props] [kind] none
  | bare {kind : FrameKind} {tag : List UInt8} : kindOf tag = some kind →
      Parses content [tag] [] (some kind)

/-- A frame of each kind. -/
def BothKinds (kinds : List FrameKind) : Prop := .depth ∈ kinds ∧ .face ∈ kinds

instance (kinds : List FrameKind) : Decidable (BothKinds kinds) :=
  inferInstanceAs (Decidable (_ ∧ _))

/-- The files that are read without harm: their blocks parse without an open record, or with one
that fits the first two blocks and the blocks behind those parse. -/
inductive Survivable (content : List UInt8) : Prop
  | straight {kinds : List FrameKind} : Parses content (chain content).1 kinds none →
      BothKinds kinds → Survivable content
  | rewound {before after : List FrameKind} {kind : FrameKind} {first second : List UInt8}
      {later : List (List UInt8)} : Parses content (chain content).1 before (some kind) →
      (chain content).1 = first :: second :: later →
      kind.Fits (declaredSize (chain content).2) first.length second.length →
      Parses content later after none → BothKinds (before ++ kind :: after) → Survivable content

/-! ### Passes over the blocks -/

section Blocks

variable {block tag props first second : List UInt8} {kind : FrameKind}

theorem passBlocks_stray (stray : kindOf block = none) :
    passBlocks content ⟨block :: later, true, stored⟩ = .ok (.inl ⟨later, true, stored⟩) := by
  simp only [passBlocks, stray, if_true]

/-- A pass at a tag that returns stores a frame that fits. -/
theorem passBlocks_tag (kind_eq : kindOf tag = some kind) {next : BlockLoop} :
    passBlocks content ⟨tag :: later, true, stored⟩ = .ok (.inl next) ↔
      storeFrame content kind ⟨later, true, stored⟩ = .ok next := by
  simp only [passBlocks, kind_eq, if_true]
  cases storeFrame content kind ⟨later, true, stored⟩ <;> simp [Except.map]

theorem passBlocks_tag_ne_leave (kind_eq : kindOf tag = some kind) :
    passBlocks content ⟨tag :: later, true, stored⟩ ≠ .ok (.inr final) := by
  simp only [passBlocks, kind_eq, if_true]
  cases storeFrame content kind ⟨later, true, stored⟩ <;> simp [Except.map]

theorem storeFrame_record {next : BlockLoop} :
    storeFrame content kind ⟨props :: first :: second :: later, true, stored⟩ = .ok next ↔
      kind.Fits props.length first.length second.length ∧
        next = ⟨later, true, stored ++ [kind]⟩ := by
  by_cases fits : kind.Fits props.length first.length second.length <;>
    simp [storeFrame, readBlock, fits, eq_comm]

theorem passBlocks_record (kind_eq : kindOf tag = some kind)
    (fits : kind.Fits props.length first.length second.length) :
    passBlocks content ⟨tag :: props :: first :: second :: later, true, stored⟩ =
      .ok (.inl ⟨later, true, stored ++ [kind]⟩) :=
  (passBlocks_tag kind_eq).mpr (storeFrame_record.mpr ⟨fits, rfl⟩)

theorem storeFrame_cutSecond {next : BlockLoop} :
    storeFrame content kind ⟨[props, first], true, stored⟩ = .ok next ↔
      kind.Fits props.length first.length (declaredSize (chain content).2) ∧
        next = ⟨(chain content).1, false, stored ++ [kind]⟩ := by
  by_cases fits : kind.Fits props.length first.length (declaredSize (chain content).2) <;>
    simp [storeFrame, readBlock, fits, eq_comm]

theorem storeFrame_cutFirst (front : (chain content).1 = first :: later) {next : BlockLoop} :
    storeFrame content kind ⟨[props], true, stored⟩ = .ok next ↔
      kind.Fits props.length (declaredSize (chain content).2) first.length ∧
        next = ⟨later, false, stored ++ [kind]⟩ := by
  by_cases fits : kind.Fits props.length (declaredSize (chain content).2) first.length <;>
    simp [storeFrame, readBlock, front, fits, eq_comm]

/-- A bare tag: the payloads are the first two blocks of the file. -/
theorem storeFrame_bare (front : (chain content).1 = first :: second :: later)
    {next : BlockLoop} :
    storeFrame content kind ⟨[], true, stored⟩ = .ok next ↔
      kind.Fits (declaredSize (chain content).2) first.length second.length ∧
        next = ⟨later, true, stored ++ [kind]⟩ := by
  by_cases fits : kind.Fits (declaredSize (chain content).2) first.length second.length <;>
    simp [storeFrame, readBlock, front, fits, eq_comm]

/-- A bare tag that is all of the file. -/
theorem storeFrame_only (front : (chain content).1 = [tag]) {next : BlockLoop} :
    storeFrame content kind ⟨[], true, stored⟩ = .ok next →
      next = ⟨[tag], false, stored ++ [kind]⟩ := by
  by_cases fits : kind.Fits (declaredSize (chain content).2) tag.length
    (declaredSize (chain content).2) <;> simp [storeFrame, readBlock, front, fits, eq_comm]

end Blocks

/-! ### Runs over the blocks -/

/-- The blocks behind a link of the chain are blocks of the file. -/
def Within (content : List UInt8) (later : List (List UInt8)) : Prop :=
  ∀ block ∈ later, block ∈ (chain content).1

theorem Within.tail {block : List UInt8} (within : Within content (block :: later)) :
    Within content later :=
  fun other inside => within other (List.mem_cons_of_mem _ inside)

/-- What a run gets through parses. -/
theorem exists_parses_of_finishes {loop : BlockLoop}
    (finishes : Finishes (passBlocks content) loop final)
    (more : loop.more = true) (within : Within content loop.later) :
    ∃ kinds opened, Parses content loop.later kinds opened := by
  induction finishes with
  | @exit loop final exits =>
    obtain ⟨later, _, stored⟩ := loop
    obtain rfl : _ = true := more
    cases later with
    | nil => exact ⟨[], none, .done⟩
    | cons block later =>
      cases kind_eq : kindOf block with
      | none => simp [passBlocks_stray kind_eq] at exits
      | some kind => exact absurd exits (passBlocks_tag_ne_leave kind_eq)
  | @step loop next final steps rest ih =>
    obtain ⟨later, _, stored⟩ := loop
    obtain rfl : _ = true := more
    cases later with
    | nil => simp [passBlocks] at steps
    | cons tag later =>
      cases kind_eq : kindOf tag with
      | none =>
        rw [passBlocks_stray kind_eq] at steps
        obtain rfl : _ = next := by simpa using steps
        obtain ⟨kinds, opened, parses⟩ := ih rfl within.tail
        exact ⟨kinds, opened, .stray kind_eq parses⟩
      | some kind =>
        rw [passBlocks_tag kind_eq] at steps
        -- How many blocks there are behind the tag tells where the record was cut.
        match later, steps with
        | [], _ => exact ⟨[], some kind, .bare kind_eq⟩
        | [props], steps =>
          obtain ⟨front, others, front_eq⟩ := List.exists_cons_of_ne_nil
            (List.ne_nil_of_mem (within tag List.mem_cons_self))
          exact ⟨[kind], none,
            .cutFirst kind_eq front_eq ((storeFrame_cutFirst front_eq).mp steps).1⟩
        | [props, first], steps =>
          exact ⟨[kind], none, .cutSecond kind_eq (storeFrame_cutSecond.mp steps).1⟩
        | props :: first :: second :: later, steps =>
          obtain ⟨fits, rfl⟩ := storeFrame_record.mp steps
          obtain ⟨kinds, opened, parses⟩ := ih rfl within.tail.tail.tail.tail
          exact ⟨kind :: kinds, opened, .record kind_eq fits parses⟩

/-- Blocks that parse without an open record are read to their end. -/
theorem finishes_of_parses (parses : Parses content later kinds none) (stored : List FrameKind) :
    Finishes (passBlocks content) ⟨later, true, stored⟩ (stored ++ kinds) := by
  generalize closed : (none : Option FrameKind) = opened at parses
  induction parses generalizing stored with
  | done => exact .exit (by simp [passBlocks])
  | stray stray _ ih => exact .step (passBlocks_stray stray) (ih stored closed)
  | record kind_eq fits _ ih =>
    rw [List.append_cons]
    exact .step (passBlocks_record kind_eq fits) (ih _ closed)
  | cutSecond kind_eq fits =>
    exact .step ((passBlocks_tag kind_eq).mpr (storeFrame_cutSecond.mpr ⟨fits, rfl⟩)) (.exit rfl)
  | cutFirst kind_eq front fits =>
    exact .step ((passBlocks_tag kind_eq).mpr ((storeFrame_cutFirst front).mpr ⟨fits, rfl⟩))
      (.exit rfl)
  | bare => simp at closed

/-- Blocks that end in an open record are read up to its tag. -/
theorem finishes_iff_of_parses_open {kind : FrameKind}
    (parses : Parses content later kinds (some kind))
    (stored : List FrameKind) :
    ∃ tag ∈ later, kindOf tag = some kind ∧ ∀ final,
      Finishes (passBlocks content) ⟨later, true, stored⟩ final ↔
        Finishes (passBlocks content) ⟨[tag], true, stored ++ kinds⟩ final := by
  generalize opens : some kind = opened at parses
  induction parses generalizing stored with
  | done => simp at opens
  | stray stray _ ih =>
    obtain ⟨tag, inside, kind_eq, ends⟩ := ih stored opens
    exact ⟨tag, List.mem_cons_of_mem _ inside, kind_eq, fun final =>
      (finishes_iff_of_step (passBlocks_stray stray)).trans (ends final)⟩
  | record kind_eq' fits _ ih =>
    obtain ⟨tag, inside, kind_eq, ends⟩ := ih (stored ++ [_]) opens
    rw [List.append_cons]
    exact ⟨tag, by simp [inside], kind_eq, fun final =>
      (finishes_iff_of_step (passBlocks_record kind_eq' fits)).trans (ends final)⟩
  | cutSecond => simp at opens
  | cutFirst => simp at opens
  | bare kind_eq =>
    obtain rfl := Option.some.inj opens
    exact ⟨_, List.mem_cons_self, kind_eq, fun final => by rw [List.append_nil]⟩

/-- **Endless reading.** Where the blocks behind the first two end in an open record again, reading
that gets to an open record never ends. -/
theorem not_finishes_of_parses_open {first second : List UInt8} {rest : List (List UInt8)}
    {before after : List FrameKind} {kind again : FrameKind}
    (front : (chain content).1 = first :: second :: rest)
    (repeats : Parses content rest after (some again))
    (parses : Parses content later before (some kind)) (stored final : List FrameKind) :
    ¬ Finishes (passBlocks content) ⟨later, true, stored⟩ final := by
  intro finishes
  -- every state that is reached has an open record ahead
  refine finishes.invariant
    (fun loop => loop.more = true ∧ ∃ kinds kind, Parses content loop.later kinds (some kind))
    (fun _ => False) ⟨rfl, before, kind, parses⟩ ?_ ?_
  · rintro ⟨later, _, stored⟩ next ⟨rfl, kinds, kind, parses⟩ steps
    generalize opens : some kind = opened at parses
    cases parses with
    | done => simp at opens
    | stray stray parses =>
      rw [passBlocks_stray stray] at steps
      obtain rfl : _ = next := by simpa using steps
      exact ⟨rfl, _, kind, opens ▸ parses⟩
    | record kind_eq fits parses =>
      obtain ⟨-, rfl⟩ := storeFrame_record.mp ((passBlocks_tag kind_eq).mp steps)
      exact ⟨rfl, _, kind, opens ▸ parses⟩
    | cutSecond => simp at opens
    | cutFirst => simp at opens
    | bare kind_eq =>
      obtain ⟨-, rfl⟩ := (storeFrame_bare front).mp ((passBlocks_tag kind_eq).mp steps)
      exact ⟨rfl, after, again, repeats⟩
  · rintro ⟨later, _, stored⟩ final ⟨rfl, kinds, kind, parses⟩ exits
    generalize opens : some kind = opened at parses
    cases parses with
    | done => simp at opens
    | stray stray => simp [passBlocks_stray stray] at exits
    | record kind_eq => exact passBlocks_tag_ne_leave kind_eq exits
    | cutSecond => simp at opens
    | cutFirst => simp at opens
    | bare kind_eq => exact passBlocks_tag_ne_leave kind_eq exits

/-- A run that gets to an open record goes on behind its tag. -/
theorem exists_storeFrame_of_finishes {tag : List UInt8} {kind : FrameKind}
    (kind_eq : kindOf tag = some kind)
    (finishes : Finishes (passBlocks content) ⟨later, true, stored⟩ final)
    (front : later = [tag]) :
    ∃ next, storeFrame content kind ⟨[], true, stored⟩ = .ok next ∧
      Finishes (passBlocks content) next final := by
  subst front
  cases finishes with
  | exit exits => exact absurd exits (passBlocks_tag_ne_leave kind_eq)
  | step steps rest => exact ⟨_, (passBlocks_tag kind_eq).mp steps, rest⟩

/-- A file that is just an open record. -/
theorem Parses.eq_nil {only : List UInt8} {kind : FrameKind}
    (parses : Parses content [only] kinds (some kind)) : kinds = [] := by
  cases parses with
  | stray _ parses => cases parses
  | bare => rfl

/-- A run over the blocks of a file leaves a frame of each kind just for the files that are read
without harm. -/
theorem survivable_iff_blocks : Survivable content ↔
    ∃ final, Finishes (passBlocks content) ⟨(chain content).1, true, []⟩ final ∧
      BothKinds final := by
  constructor
  · rintro (⟨parses, both⟩ | @⟨before, _, _, _, _, _, parses, front, fits, later, both⟩)
    · exact ⟨_, finishes_of_parses parses [], both⟩
    -- the chain is read up to the open record, rewound, and read to its end
    · obtain ⟨tag, -, kind_eq, ends⟩ := finishes_iff_of_parses_open parses []
      have pass : passBlocks content ⟨[tag], true, [] ++ before⟩ = .ok (.inl _) :=
        (passBlocks_tag kind_eq).mpr ((storeFrame_bare front).mpr ⟨fits, rfl⟩)
      rw [List.append_cons] at both
      exact ⟨_, (ends _).mpr (.step pass (finishes_of_parses later _)), both⟩
  · rintro ⟨final, finishes, both⟩
    obtain ⟨before, opened, parses⟩ :=
      exists_parses_of_finishes finishes rfl fun _ inside => inside
    cases opened with
    | none =>
      obtain rfl := finishes.unique (finishes_of_parses parses [])
      exact .straight parses both
    | some kind =>
      obtain ⟨tag, inside, kind_eq, ends⟩ := finishes_iff_of_parses_open parses []
      obtain ⟨next, stores, rest⟩ :=
        exists_storeFrame_of_finishes kind_eq ((ends final).mp finishes) rfl
      match front : (chain content).1 with
      | [] => simp [front] at inside
      | [only] =>
        -- the tag is all there is, and its own block becomes the payload
        obtain rfl : tag = only := by simpa [front] using inside
        obtain rfl := storeFrame_only front stores
        obtain rfl := (finishes_iff_of_exit (t := [] ++ before ++ [kind]) rfl).mp rest
        obtain rfl : before = [] := Parses.eq_nil (front ▸ parses)
        cases kind <;> simp [BothKinds] at both
      | first :: second :: later =>
        obtain ⟨fits, rfl⟩ := (storeFrame_bare front).mp stores
        have within : Within content later := fun block behind => by simp [front, behind]
        obtain ⟨after, opened, parses'⟩ := exists_parses_of_finishes rest rfl within
        cases opened with
        | none =>
          obtain rfl := rest.unique (finishes_of_parses parses' _)
          rw [List.nil_append, ← List.append_cons] at both
          exact .rewound parses front fits parses' both
        -- Behind the first two blocks the reader comes upon an open record again.
        | some again => exact absurd rest (not_finishes_of_parses_open front parses' parses' _ _)

/-! ### The reader -/

variable {stale : ℕ → DepthDataProps}

theorem Counts.bothKinds_iff {loop : ReadAll} (counts : Counts loop stored) :
    BothKinds stored ↔ loop.depthFrames ≠ [] ∧ loop.faceFrames ≠ [] := by
  rw [BothKinds, ← List.count_pos_iff, ← List.count_pos_iff, ← counts.depth, ← counts.face,
    List.length_pos_iff, List.length_pos_iff]

/-- The first and last frames are there if and only if no list is empty. -/
theorem finish_eq_ok_iff {depthFrames : List DepthFrame} {faceFrames : List FaceFrame} :
    (∃ timeline, finish depthFrames faceFrames = .ok timeline) ↔
      depthFrames ≠ [] ∧ faceFrames ≠ [] := by
  refine ⟨?_, fun ⟨depth, face⟩ => finish_eq_ok depth face⟩
  rintro ⟨timeline, finished⟩
  constructor <;> rintro rfl
  · simp [finish] at finished
  · cases depthFrames <;> simp [finish] at finished

theorem survives_iff_finishes : Survives stale content ↔
    ∃ final, Finishes (readAllBody stale) (.start content) final ∧
      final.depthFrames ≠ [] ∧ final.faceFrames ≠ [] := by
  constructor
  · rintro ⟨⟨final, finishes⟩, -, accesses⟩
    exact ⟨final, finishes, finish_eq_ok_iff.mp (accesses final _ _ finishes (.refl _) (.refl _))⟩
  · rintro ⟨final, finishes, depth, face⟩
    refine ⟨⟨final, finishes⟩, fun _ fault passes => finishes.ne_error passes fault, ?_⟩
    intro final' depthFrames faceFrames finishes' depthPerm facePerm
    obtain rfl := finishes.unique finishes'
    refine finish_eq_ok_iff.mpr ⟨?_, ?_⟩
    · rintro rfl
      exact depth (List.nil_perm.mp depthPerm)
    · rintro rfl
      exact face (List.nil_perm.mp facePerm)

theorem survives_iff_blocks (stale : ℕ → DepthDataProps) (allocates : Allocates content) :
    Survives stale content ↔
      ∃ final, Finishes (passBlocks content) ⟨(chain content).1, true, []⟩ final ∧
        BothKinds final := by
  obtain ⟨forth, back⟩ := finishes_of_simulation
    (fun _ _ reads => readAllBody_atBlocks stale allocates reads)
    (ReadAll.readsBlocks_start content)
  rw [survives_iff_finishes]
  constructor
  · rintro ⟨final, finishes, frames⟩
    obtain ⟨kinds, ends, counts⟩ := forth final finishes
    exact ⟨kinds, ends, counts.bothKinds_iff.mpr frames⟩
  · rintro ⟨kinds, ends, both⟩
    obtain ⟨final, finishes, counts⟩ := back kinds ends
    exact ⟨final, finishes, counts.bothKinds_iff.mp both⟩

/-- **Survival.** `ReadAllBlocks` survives exactly the files whose blocks parse, without an open
record or with one behind which, once rewound, they parse, and that hold a frame of each kind. -/
theorem survives_iff_survivable (stale : ℕ → DepthDataProps) (content : List UInt8)
    (allocates : Allocates content) : Survives stale content ↔ Survivable content :=
  (survives_iff_blocks stale allocates).trans survivable_iff_blocks.symm

/-- A recording of a depth frame and a face frame. -/
def depthAndFace : List UInt8 := writeAll [.depth emptyDepthFrame, .face emptyFaceFrame]

theorem chain_depthAndFace : chain depthAndFace =
    ([encodeLE sizeofSizeT depthTag, emptyDepthFrame.props.toBytes, [], [],
      encodeLE sizeofSizeT faceTag, emptyFaceFrame.props.toBytes, [], []], []) := by
  simp only [depthAndFace, writeAll_cons, writeAll_nil, Record.write, writeDepthDataToFile,
    writeFaceDataToFile, List.append_assoc]
  rw [chain_append (by decide), chain_append (DepthDataProps.toBytes_fits _),
    chain_append (ByteVector.fits _), chain_append (ByteVector.fits _), chain_append (by decide),
    chain_append (FaceDataProps.toBytes_fits _), chain_append (ByteVector.fits _),
    chain_append (ByteVector.fits _), chain_nil]
  rfl

theorem depthAndFace_length : depthAndFace.length = 312 := by
  simp only [depthAndFace, writeAll_cons, writeAll_nil, Record.write, List.length_append,
    writeDepthDataToFile_length, writeFaceDataToFile_length]
  rfl

/-- Such a recording is survived. -/
theorem survives_depthAndFace : Survives (fun _ => emptyDepthFrame.props) depthAndFace := by
  have allocates : Allocates depthAndFace := by
    refine allocates_of_whole ?_ (by rw [chain_depthAndFace])
    rw [depthAndFace_length]
    decide
  have parses : Parses depthAndFace (chain depthAndFace).1 [.depth, .face] none := by
    rw [chain_depthAndFace]
    refine .record (by decide) (by decide) (.record (by decide) ⟨?_, by decide, by decide⟩ .done)
    exact (FaceDataProps.toBytes_length _).ge
  exact (survives_iff_survivable _ depthAndFace allocates).mpr (.straight parses (by decide))

/-- A recording of two depth frames that was cut behind the second tag. -/
def cutBehindTag : List UInt8 :=
  writeDepthDataToFile emptyDepthFrame ++ writeFileData (encodeLE sizeofSizeT depthTag)

theorem chain_cutBehindTag : chain cutBehindTag =
    ([encodeLE sizeofSizeT depthTag, emptyDepthFrame.props.toBytes, [], [],
      encodeLE sizeofSizeT depthTag], []) := by
  rw [cutBehindTag, ← List.append_nil (writeFileData (encodeLE sizeofSizeT depthTag))]
  simp only [writeDepthDataToFile, List.append_assoc]
  iterate 5 rw [chain_append (by decide)]
  rw [chain_nil]
  rfl

/-- **The cut behind the tag.** The file is small, but reading it never ends. -/
theorem not_survives_cutBehindTag : Allocates cutBehindTag ∧
    ¬ Survives (fun _ => emptyDepthFrame.props) cutBehindTag := by
  have allocates : Allocates cutBehindTag := by
    constructor <;> rw [chain_cutBehindTag] <;> decide
  refine ⟨allocates, fun survives => ?_⟩
  obtain ⟨final, finishes, -⟩ := (survives_iff_blocks _ allocates).mp survives
  -- behind the first two blocks there are two payloads without tag, and the open record again
  have repeats : Parses cutBehindTag [[], [], encodeLE sizeofSizeT depthTag] [] (some .depth) :=
    .stray (by decide) (.stray (by decide) (.bare (by decide)))
  have parses : Parses cutBehindTag (chain cutBehindTag).1 [.depth] (some .depth) := by
    rw [chain_cutBehindTag]
    exact .record (by decide) (by decide) (.bare (by decide))
  exact not_finishes_of_parses_open (congrArg Prod.fst chain_cutBehindTag) repeats parses [] final
    finishes

end Sqwar.Recording
