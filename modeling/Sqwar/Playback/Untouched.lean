import Sqwar.Playback.Passes

/-!
# What playing leaves of a recording

The depth frames are handed over as copies, and of a face frame only the properties are passed by
non-const reference: `OnFaceData` subtracts the epoch from the timestamp that is stored, and all
that it calls reads. So a recording stays as it was read if and only if no face frame is handed
over whose timestamp the subtraction changes; in exact arithmetic, if and only if its depth frames
begin at zero.
-/

set_option autoImplicit false

namespace Sqwar.Playback

open Data Semantics

variable {T α β : Type*} [LinearOrder T] {clock : Clock T} {recording : Recording T α β}
  {player player' : Player T α β}

/-- The stored frames are the ones `ReadAllBlocks` read. -/
structure Unchanged (recording : Recording T α β) (player : Player T α β) : Prop where
  depthFrames : player.depthFrames = recording.depthFrames
  faceFrames : player.faceFrames = recording.faceFrames

/-- The application's start time once a depth frame has been handed over, or has not. -/
def Player.startTimeAfterDepth (player : Player T α β) (clock : Clock T) (prevDepth : ℕ) : T :=
  if player.firsttick ∨ player.curDepthIdx ≠ prevDepth then
    player.depthFrames[player.curDepthIdx]?.elim player.appStartTime
      fun frame => clock.rebase player.appStartTime frame.timestamp
  else player.appStartTime

/-- The condition on the state in which a tick looks for frames: if it hands over a face frame,
subtracting the start time then in force leaves the timestamp as it is. -/
def KeepsTimestamp (clock : Clock T) (player : Player T α β) : Prop :=
  player.firsttick ∨ player.moveCursors.curFaceIdx ≠ player.curFaceIdx →
    ∀ frame ∈ player.faceFrames[player.moveCursors.curFaceIdx]?,
      clock.sub frame.timestamp (clock.rebase
        (player.moveCursors.startTimeAfterDepth clock player.curDepthIdx) frame.timestamp) =
          frame.timestamp

/-! ### One tick -/

/-- Nothing but the start time and the display changes when a depth frame is handed over. -/
theorem showDepth_eq {prevDepth : ℕ} (inside : player.curDepthIdx < player.depthFrames.length) :
    player.showDepth clock prevDepth = some { player with
      appStartTime := player.startTimeAfterDepth clock prevDepth
      lastDepth :=
        shownAfter player.firsttick player.lastDepth prevDepth player.curDepthIdx } := by
  have entry := List.getElem?_eq_getElem inside
  unfold Player.showDepth Player.startTimeAfterDepth shownAfter
  split_ifs
  · rw [Player.onDepthBuffer, entry]
    rfl
  · rfl

/-- Of the face frames at most the one handed over changes, and of that one the timestamp. -/
theorem showFace_faceFrames {frame : Frame T β} {prevFace : ℕ}
    (entry : player.faceFrames[player.curFaceIdx]? = some frame)
    (shows : player.showFace clock prevFace = some player') :
    player'.faceFrames =
      if player.firsttick ∨ player.curFaceIdx ≠ prevFace then
        player.faceFrames.set player.curFaceIdx { frame with
          timestamp := clock.sub frame.timestamp
            (clock.rebase player.appStartTime frame.timestamp) }
      else player.faceFrames := by
  unfold Player.showFace at shows
  split_ifs at shows ⊢
  · rw [Player.onFaceData, entry, Option.map_some] at shows
    rw [← Option.some.inj shows]
  · rw [← Option.some.inj shows]

theorem set_eq_self_iff {γ : Type*} {frames : List γ} {idx : ℕ} {old new : γ}
    (entry : frames[idx]? = some old) : frames.set idx new = frames ↔ new = old := by
  obtain ⟨inside, rfl⟩ := List.getElem?_eq_some_iff.mp entry
  constructor
  · intro same
    have read := List.getElem_set_self (a := new)
      (by simpa using inside : idx < (frames.set idx new).length)
    simp only [same] at read
    exact read.symm
  · rintro rfl
    exact List.set_getElem_self inside

omit [LinearOrder T] in
theorem Frame.eq_iff_timestamp {frame : Frame T α} {timestamp : T} :
    { frame with timestamp } = frame ↔ timestamp = frame.timestamp := by
  cases frame
  simp

/-- **The effect of a tick** on the face frames. -/
theorem play_faceFrames {frame : Frame T β} (depth : player.curDepthIdx < player.depthFrames.length)
    (face : player.curFaceIdx < player.faceFrames.length)
    (entry : player.faceFrames[player.moveCursors.curFaceIdx]? = some frame)
    (plays : player.play clock = some player') :
    player'.faceFrames =
      if player.firsttick ∨ player.moveCursors.curFaceIdx ≠ player.curFaceIdx then
        player.faceFrames.set player.moveCursors.curFaceIdx { frame with
          timestamp := clock.sub frame.timestamp (clock.rebase
            (player.moveCursors.startTimeAfterDepth clock player.curDepthIdx) frame.timestamp) }
      else player.faceFrames := by
  obtain ⟨depthInside, -⟩ := Player.moveCursors_inside depth face
  obtain ⟨handed, showsDepth, rest⟩ := Option.bind_eq_some_iff.mp plays
  obtain ⟨shown, showsFace, last⟩ := Option.bind_eq_some_iff.mp rest
  obtain rfl := Option.some.inj ((showDepth_eq depthInside).symm.trans showsDepth)
  -- The clock leaves the frames alone.
  have kept : player'.faceFrames = shown.faceFrames := by
    rw [← Option.some.inj last]
    simp only [Player.advance, Player.wrap_faceFrames]
  exact kept.trans (showFace_faceFrames entry showsFace)

theorem play_faceFrames_iff (depth : player.curDepthIdx < player.depthFrames.length)
    (face : player.curFaceIdx < player.faceFrames.length)
    (plays : player.play clock = some player') :
    player'.faceFrames = player.faceFrames ↔ KeepsTimestamp clock player := by
  have entry := List.getElem?_eq_getElem (Player.moveCursors_inside depth face).2
  rw [play_faceFrames depth face entry plays, KeepsTimestamp, entry]
  split_ifs with handed
  · rw [set_eq_self_iff entry, Frame.eq_iff_timestamp]
    constructor
    · rintro same - frame ⟨⟩
      exact same
    · intro keeps
      exact keeps handed _ rfl
  · exact iff_of_true rfl fun moves => absurd moves handed

/-! ### Runs -/

/-- A state in which a tick looks for frames, with nothing changed so far. -/
structure Player.Intact (recording : Recording T α β) (player : Player T α β) : Prop
    extends Unchanged recording player where
  depthInside : player.curDepthIdx < player.depthFrames.length
  faceInside : player.curFaceIdx < player.faceFrames.length

theorem Player.intact_start (clock : Clock T) (recording : Recording T α β) :
    ((Player.start clock).begin recording).Intact recording :=
  ⟨⟨rfl, rfl⟩, List.length_pos_iff.mpr recording.depth_ne_nil,
    List.length_pos_iff.mpr recording.face_ne_nil⟩

/-- The clock moves no cursor on. -/
theorem Player.advance_cursors_le (player : Player T α β) (clock : Clock T) :
    (player.advance clock).curDepthIdx ≤ player.curDepthIdx ∧
      (player.advance clock).curFaceIdx ≤ player.curFaceIdx := by
  rcases le_or_gt (clock.advance player.sCurtime) player.sEndTime with before | behind
  · obtain ⟨-, depth, face⟩ := Player.advance_of_le before
    exact ⟨depth.le, face.le⟩
  · obtain ⟨depth, face⟩ := Player.advance_of_lt behind
    rw [depth, face]
    exact ⟨Nat.zero_le _, Nat.zero_le _⟩

/-- **Step lemma.** A tick changes nothing if and only if it keeps the timestamp. -/
theorem Player.Intact.tick_iff (intact : (player.begin recording).Intact recording)
    (ticks : tick clock recording player = some player') :
    (Unchanged recording player' ↔ KeepsTimestamp clock (player.begin recording)) ∧
      (Unchanged recording player' → (player'.begin recording).Intact recording) := by
  obtain ⟨shown, spec, plays⟩ := play_spec clock intact.depthInside intact.faceInside
  obtain ⟨depthInside, faceInside⟩ :=
    Player.moveCursors_inside intact.depthInside intact.faceInside
  obtain rfl : shown.advance clock = player' := Option.some.inj (plays.symm.trans ticks)
  have depthFrames : (shown.advance clock).depthFrames = recording.depthFrames := by
    simp only [Player.advance, Player.wrap_depthFrames, spec.depthFrames, intact.depthFrames]
  constructor
  · rw [← play_faceFrames_iff intact.depthInside intact.faceInside plays, intact.faceFrames]
    exact ⟨Unchanged.faceFrames, fun same => ⟨depthFrames, same⟩⟩
  · intro unchanged
    obtain ⟨depth, face⟩ := shown.advance_cursors_le clock
    rw [spec.curDepthIdx] at depth
    rw [spec.curFaceIdx] at face
    rw [Player.begin_advance]
    refine ⟨unchanged, depth.trans_lt ?_, face.trans_lt ?_⟩
    · rwa [depthFrames, ← intact.depthFrames]
    · rwa [unchanged.faceFrames, ← intact.faceFrames]

/-- Nothing changes in exactly the runs in which every tick keeps the timestamp of the face frame
that it hands over. -/
theorem along_unchanged_iff (clock : Clock T) (recording : Recording T α β) (calls : List Unit) :
    Along (step clock recording) (fun player _ => ∃ player',
        tick clock recording player = some player' ∧ Unchanged recording player')
        (.start clock) calls ↔
      Along (step clock recording) (fun player _ => KeepsTimestamp clock (player.begin recording))
        (.start clock) calls := by
  -- Up to the first change, the two conditions are the same at every tick.
  refine along_congr (fun player => (player.begin recording).Intact recording) ?_ ?_
    (Player.intact_start clock recording)
  · intro player _ intact
    obtain ⟨shown, -, plays⟩ := play_spec clock intact.depthInside intact.faceInside
    rw [← (intact.tick_iff plays).1]
    constructor
    · rintro ⟨player', ticks, unchanged⟩
      rwa [Option.some.inj (plays.symm.trans ticks)]
    · intro unchanged
      exact ⟨shown.advance clock, plays, unchanged⟩
  · rintro player _ player' intact ⟨_, ticks, unchanged⟩ next
    obtain rfl := Option.some.inj (ticks.symm.trans next)
    exact (intact.tick_iff ticks).2 unchanged

/-! ### What no tick changes -/

/-- Of the stored frames only the timestamps of face frames may have changed. -/
structure SameContents (recording : Recording T α β) (player : Player T α β) : Prop where
  depthFrames : player.depthFrames = recording.depthFrames
  faceContents : player.faceFrames.map Frame.content = recording.faceFrames.map Frame.content

omit [LinearOrder T] in
theorem map_content_set {frames : List (Frame T β)} {idx : ℕ} {frame : Frame T β}
    (entry : frames[idx]? = some frame) (timestamp : T) :
    (frames.set idx { frame with timestamp }).map Frame.content = frames.map Frame.content := by
  have content : (frames.map Frame.content)[idx]? = some frame.content := by
    rw [List.getElem?_map, entry, Option.map_some]
  rw [List.map_set, set_eq_self_iff content]

/-- A state in which a tick looks for frames, with at most face timestamps changed so far. -/
structure Player.Sound (recording : Recording T α β) (player : Player T α β) : Prop
    extends SameContents recording player where
  depthInside : player.curDepthIdx < player.depthFrames.length
  faceInside : player.curFaceIdx < player.faceFrames.length

theorem Player.sound_start (clock : Clock T) (recording : Recording T α β) :
    ((Player.start clock).begin recording).Sound recording :=
  ⟨⟨rfl, rfl⟩, List.length_pos_iff.mpr recording.depth_ne_nil,
    List.length_pos_iff.mpr recording.face_ne_nil⟩

/-- **Step lemma.** A tick changes no depth frame and no content. -/
theorem Player.Sound.play (sound : player.Sound recording) (clock : Clock T) :
    ∃ shown : Player T α β, player.play clock = some (shown.advance clock) ∧
      (shown.advance clock).Sound recording := by
  obtain ⟨shown, spec, plays⟩ := play_spec clock sound.depthInside sound.faceInside
  obtain ⟨depthInside, faceInside⟩ :=
    Player.moveCursors_inside sound.depthInside sound.faceInside
  obtain ⟨depth, face⟩ := shown.advance_cursors_le clock
  have depthFrames : (shown.advance clock).depthFrames = player.depthFrames := by
    simp only [Player.advance, Player.wrap_depthFrames, spec.depthFrames]
  have entry := List.getElem?_eq_getElem faceInside
  have faceFrames := play_faceFrames sound.depthInside sound.faceInside entry plays
  -- At most one timestamp has been overwritten.
  have contents : (shown.advance clock).faceFrames.map Frame.content =
      player.faceFrames.map Frame.content := by
    rw [faceFrames]
    split_ifs
    · exact map_content_set entry _
    · rfl
  have length : (shown.advance clock).faceFrames.length = player.faceFrames.length := by
    simpa using congrArg List.length contents
  rw [spec.curDepthIdx] at depth
  rw [spec.curFaceIdx] at face
  exact ⟨shown, plays, ⟨depthFrames.trans sound.depthFrames, contents.trans sound.faceContents⟩,
    depth.trans_lt (depthFrames ▸ depthInside), face.trans_lt (length ▸ faceInside)⟩

/-- **The depth frames and all payloads stay** as they were read, in every run. -/
theorem sameContents (clock : Clock T) (recording : Recording T α β) (calls : List Unit) :
    Along (step clock recording) (fun player _ => ∃ player',
      tick clock recording player = some player' ∧ SameContents recording player')
      (.start clock) calls := by
  have sound : Along (step clock recording)
      (fun player _ => (player.begin recording).Sound recording) (.start clock) calls := by
    refine along_invariant (fun player : Player T α β => (player.begin recording).Sound recording)
      ?_ (Player.sound_start clock recording) along_true
    intro player _ player' sound _ ticks
    obtain ⟨shown, plays, sound'⟩ := sound.play clock
    obtain rfl : shown.advance clock = player' := Option.some.inj (plays.symm.trans ticks)
    rwa [Player.begin_advance]
  refine sound.mono fun player _ sound => ?_
  obtain ⟨shown, plays, sound'⟩ := sound.play clock
  exact ⟨shown.advance clock, plays, sound'.toSameContents⟩

/-! ### Exact arithmetic -/

theorem Clock.rebase_zero (clock : Clock T) (timestamp : T) :
    clock.rebase clock.zero timestamp = clock.zero := if_neg (lt_irrefl _)

/-- The depth frame that is due first has the timestamp of the first one recorded. -/
theorem Recording.timestamp_of_lastDue {idx : ℕ} {frame : Frame T α}
    (found : LastDue (timestamps recording.depthFrames) recording.startTime idx)
    (entry : recording.depthFrames[idx]? = some frame) :
    frame.timestamp = (recording.depthFrames.head recording.depth_ne_nil).timestamp := by
  obtain ⟨first, later, frames⟩ := List.exists_cons_of_ne_nil recording.depth_ne_nil
  have start : recording.startTime ≤ first.timestamp := by
    simp only [Recording.startTime, frames, List.head_cons, min_le_left]
  have sorted := recording.depth_sorted
  have due := found.due
  simp only [frames, timestamps, List.map_cons, List.pairwise_cons, List.head_cons]
    at sorted due entry ⊢
  cases idx with
  | zero => rw [← Option.some.inj entry]
  | succ idx =>
    obtain ⟨time, reached, early⟩ := due.resolve_left (Nat.succ_ne_zero idx)
    rw [List.getElem?_cons_succ] at entry reached
    rw [List.getElem?_map, entry] at reached
    obtain rfl : frame.timestamp = time := Option.some.inj reached
    have ordered := sorted.1 _ (List.mem_map_of_mem (List.mem_of_getElem? entry))
    exact (early.trans start).antisymm ordered

/-- The first frame handed over sets the application's start time. -/
theorem Player.startTimeAfterDepth_first {frame : Frame T α} (first : player.firsttick)
    (unset : player.appStartTime < clock.zero)
    (entry : player.depthFrames[player.curDepthIdx]? = some frame) (prevDepth : ℕ) :
    player.startTimeAfterDepth clock prevDepth = frame.timestamp := by
  rw [Player.startTimeAfterDepth, if_pos (.inl first), entry, Option.elim_some, Clock.rebase,
    if_pos unset]

theorem Player.startTimeAfterDepth_start (recording : Recording T α β)
    (unset : clock.unset < clock.zero) :
    ((Player.start clock).begin recording).moveCursors.startTimeAfterDepth clock 0 =
      (recording.depthFrames.head recording.depth_ne_nil).timestamp := by
  have found : LastDue (timestamps recording.depthFrames) recording.startTime
      (seek (timestamps recording.depthFrames) recording.startTime 0) :=
    seek_lastDue recording.depth_sorted
      (isCursor_zero (timestamps_ne_nil recording.depth_ne_nil) _)
  have inside := found.lt_length
  rw [timestamps_length] at inside
  have entry := List.getElem?_eq_getElem inside
  rw [Player.startTimeAfterDepth_first rfl unset entry]
  exact recording.timestamp_of_lastDue found entry

/-- A start time of zero stays when a depth frame is handed over, -/
theorem Player.startTimeAfterDepth_zero (zero : player.appStartTime = clock.zero)
    (prevDepth : ℕ) : player.startTimeAfterDepth clock prevDepth = clock.zero := by
  unfold Player.startTimeAfterDepth
  rw [zero]
  split_ifs
  · cases player.depthFrames[player.curDepthIdx]? with
    | none => rfl
    | some frame => exact clock.rebase_zero _
  · rfl

/-- and when a face frame is. -/
theorem showFace_appStartTime {prevFace : ℕ} (zero : player.appStartTime = clock.zero)
    (shows : player.showFace clock prevFace = some player') :
    player'.appStartTime = clock.zero := by
  unfold Player.showFace at shows
  split_ifs at shows
  · obtain ⟨frame, -, rfl⟩ := Option.map_eq_some_iff.mp shows
    simp only [zero, clock.rebase_zero]
  · rw [← Option.some.inj shows, zero]

@[simp] theorem Player.wrap_appStartTime : player.wrap.appStartTime = player.appStartTime := by
  unfold Player.wrap
  split_ifs <;> rfl

/-- A tick that finds a start time of zero leaves it. -/
theorem play_appStartTime (depth : player.curDepthIdx < player.depthFrames.length)
    (face : player.curFaceIdx < player.faceFrames.length)
    (zero : player.moveCursors.startTimeAfterDepth clock player.curDepthIdx = clock.zero)
    (plays : player.play clock = some player') : player'.appStartTime = clock.zero := by
  obtain ⟨depthInside, -⟩ := Player.moveCursors_inside depth face
  obtain ⟨handed, showsDepth, rest⟩ := Option.bind_eq_some_iff.mp plays
  obtain ⟨shown, showsFace, last⟩ := Option.bind_eq_some_iff.mp rest
  obtain rfl := Option.some.inj ((showDepth_eq depthInside).symm.trans showsDepth)
  have kept := showFace_appStartTime zero showsFace
  rw [← Option.some.inj last]
  simp only [Player.advance, Player.wrap_appStartTime, kept, clock.rebase_zero]

/-- A state in which a tick looks for frames, with a start time of zero once it has found one. -/
structure Player.StartsAtZero (clock : Clock T) (recording : Recording T α β)
    (player : Player T α β) : Prop where
  sound : (player.begin recording).Sound recording
  zero : (player.begin recording).moveCursors.startTimeAfterDepth clock
    (player.begin recording).curDepthIdx = clock.zero

theorem Player.StartsAtZero.tick (startsAtZero : player.StartsAtZero clock recording)
    (ticks : tick clock recording player = some player') :
    player'.StartsAtZero clock recording := by
  obtain ⟨sound, zero⟩ := startsAtZero
  obtain ⟨shown, plays, sound'⟩ := sound.play clock
  have zero' := play_appStartTime sound.depthInside sound.faceInside zero plays
  obtain rfl : shown.advance clock = player' := Option.some.inj (plays.symm.trans ticks)
  have kept : (shown.advance clock).moveCursors.appStartTime = clock.zero := zero'
  refine ⟨?_, ?_⟩ <;> rw [Player.begin_advance]
  · exact sound'
  · exact Player.startTimeAfterDepth_zero kept _

/-- **Exact arithmetic.** Where only the subtraction of zero leaves a timestamp as it is, and the
depth frames begin at zero or later, all ticks keep the timestamps if they begin at zero; otherwise
already the first tick does not. -/
theorem keepsTimestamp_iff_beginsAtZero (exact : ∀ t s, clock.sub t s = t ↔ s = clock.zero)
    (unset : clock.unset < clock.zero) (recording : Recording T α β)
    (nonneg : clock.zero ≤ (recording.depthFrames.head recording.depth_ne_nil).timestamp)
    {calls : List Unit} (nonempty : calls ≠ []) :
    Along (step clock recording) (fun player _ => KeepsTimestamp clock (player.begin recording))
        (.start clock) calls ↔
      (recording.depthFrames.head recording.depth_ne_nil).timestamp = clock.zero := by
  have start := Player.startTimeAfterDepth_start recording unset
  constructor
  · intro keeps
    obtain ⟨call, calls, rfl⟩ := List.exists_cons_of_ne_nil nonempty
    -- the first tick hands over a face frame, with the first depth timestamp as the start time
    have intact := Player.intact_start clock recording
    have inside := (Player.moveCursors_inside intact.depthInside intact.faceInside).2
    have kept : clock.rebase (Player.startTimeAfterDepth _ clock 0) _ = clock.zero :=
      (exact _ _).mp (keeps.1 (.inl rfl) _ (List.getElem?_eq_getElem inside))
    rwa [start, Clock.rebase, if_neg (not_lt.mpr nonneg)] at kept
  · intro begins
    -- from the first tick on, all start times are zero
    have zeros : Along (step clock recording)
        (fun player _ => player.StartsAtZero clock recording) (.start clock) calls := by
      refine along_invariant (Player.StartsAtZero clock recording) ?_
        ⟨Player.sound_start clock recording, start.trans begins⟩ along_true
      intro player _ player' startsAtZero _ ticks
      exact startsAtZero.tick ticks
    refine zeros.mono fun player _ startsAtZero _ frame _ => ?_
    rw [startsAtZero.zero, exact]
    exact clock.rebase_zero _

/-- **Playing leaves a recording as it is** in exactly the runs in which every tick keeps the
timestamp of the face frame that it hands over. In exact arithmetic, for depth frames that begin at
zero or later, these are the runs of a recording whose depth frames begin at zero. -/
theorem unchanged_iff_keepsTimestamp (clock : Clock T) (recording : Recording T α β)
    (calls : List Unit) :
    (Along (step clock recording) (fun player _ => ∃ player',
        tick clock recording player = some player' ∧ Unchanged recording player')
        (.start clock) calls ↔
      Along (step clock recording) (fun player _ => KeepsTimestamp clock (player.begin recording))
        (.start clock) calls) ∧
    ((∀ t s, clock.sub t s = t ↔ s = clock.zero) → clock.unset < clock.zero →
      clock.zero ≤ (recording.depthFrames.head recording.depth_ne_nil).timestamp → calls ≠ [] →
        (Along (step clock recording) (fun player _ => ∃ player',
            tick clock recording player = some player' ∧ Unchanged recording player')
            (.start clock) calls ↔
          (recording.depthFrames.head recording.depth_ne_nil).timestamp = clock.zero)) := by
  have keeps := along_unchanged_iff clock recording calls
  refine ⟨keeps, fun exact unset nonneg nonempty => keeps.trans ?_⟩
  exact keepsTimestamp_iff_beginsAtZero exact unset recording nonneg nonempty

/-! ### Two recordings -/

/-- A recording that begins at zero stays as it is, in the second pass as in the first. -/
theorem unchanged_twinRecording : Along (step unitClock twinRecording) (fun player _ => ∃ player',
      tick unitClock twinRecording player = some player' ∧ Unchanged twinRecording player')
      (.start unitClock) [(), (), ()] :=
  ((unchanged_iff_keepsTimestamp unitClock twinRecording [(), (), ()]).2 (fun _ _ => sub_eq_self)
    (by decide) le_rfl (List.cons_ne_nil _ _)).mpr rfl

/-- A recording that begins at an epoch other than zero. -/
def lateRecording : Recording ℤ Unit Unit where
  depthFrames := [⟨1000, ()⟩]
  faceFrames := [⟨1000, ()⟩]
  depth_ne_nil := List.cons_ne_nil _ _
  face_ne_nil := List.cons_ne_nil _ _
  depth_sorted := List.pairwise_singleton _ _
  face_sorted := List.pairwise_singleton _ _

/-- Its face frame is rebased by the first tick. -/
theorem not_unchanged_lateRecording : ∃ player',
    tick unitClock lateRecording (.start unitClock) = some player' ∧
      ¬ Unchanged lateRecording player' := by
  refine ⟨_, rfl, fun unchanged => ?_⟩
  exact absurd unchanged.faceFrames (by decide)

end Sqwar.Playback
