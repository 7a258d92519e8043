import Mathlib.Algebra.Order.Group.Int
import Sqwar.Playback.Tick

/-!
# What a tick shows

The depth cursor always stands at the frame that is due: the depth frames are never written to.
A frame is handed over only when its cursor moves, though, so after a wrap the last frame of the
old pass stays on until the second one is due. The face cursor may also go astray, since the
timestamps it is compared with are rebased frame by frame. Neither happens before the first wrap.
-/

set_option autoImplicit false

namespace Sqwar.Playback

open Data Semantics

variable {T α β : Type*} [LinearOrder T] {clock : Clock T} {recording : Recording T α β}
  {player player' : Player T α β}

/-! ### What a tick does -/

/-- The frame on display after a cursor has moved. -/
def shownAfter (first : Bool) (last : Option ℕ) (prev cur : ℕ) : Option ℕ :=
  if first ∨ cur ≠ prev then some cur else last

theorem showDepth_spec (player : Player T α β) (clock : Clock T) (prevDepth : ℕ)
    (inside : player.curDepthIdx < player.depthFrames.length) :
    ∃ appStartTime, player.showDepth clock prevDepth = some { player with
      appStartTime
      lastDepth := shownAfter player.firsttick player.lastDepth prevDepth player.curDepthIdx } := by
  unfold Player.showDepth shownAfter
  split_ifs
  · exact ⟨_, by rw [Player.onDepthBuffer, List.getElem?_eq_getElem inside, Option.map_some]⟩
  · exact ⟨player.appStartTime, rfl⟩

/-- No face frame behind the one handed over changes. -/
theorem showFace_spec (player : Player T α β) (clock : Clock T) (prevFace : ℕ)
    (inside : player.curFaceIdx < player.faceFrames.length) :
    ∃ appStartTime faceFrames, player.showFace clock prevFace = some { player with
        appStartTime
        faceFrames
        lastFace := shownAfter player.firsttick player.lastFace prevFace player.curFaceIdx } ∧
      faceFrames.length = player.faceFrames.length ∧
      ∀ j, player.curFaceIdx < j → faceFrames[j]? = player.faceFrames[j]? := by
  unfold Player.showFace shownAfter
  split_ifs
  · exact ⟨_, _, by rw [Player.onFaceData, List.getElem?_eq_getElem inside, Option.map_some],
      List.length_set, fun _ behind => List.getElem?_set_ne behind.ne⟩
  · exact ⟨player.appStartTime, player.faceFrames, rfl, rfl, fun _ _ => rfl⟩

/-- The state before the clock goes on: the cursors have moved, the display follows them, and no
face frame behind its cursor has changed. -/
structure Player.Shown (player shown : Player T α β) : Prop where
  sCurtime : shown.sCurtime = player.sCurtime
  sEndTime : shown.sEndTime = player.sEndTime
  curDepthIdx : shown.curDepthIdx = player.moveCursors.curDepthIdx
  curFaceIdx : shown.curFaceIdx = player.moveCursors.curFaceIdx
  depthFrames : shown.depthFrames = player.depthFrames
  faceLength : shown.faceFrames.length = player.faceFrames.length
  faceFrames : ∀ j, shown.curFaceIdx < j → shown.faceFrames[j]? = player.faceFrames[j]?
  lastDepth : shown.lastDepth =
    shownAfter player.firsttick player.lastDepth player.curDepthIdx shown.curDepthIdx
  lastFace : shown.lastFace =
    shownAfter player.firsttick player.lastFace player.curFaceIdx shown.curFaceIdx

/-- The cursors stay inside their vectors. -/
theorem Player.moveCursors_inside (depth : player.curDepthIdx < player.depthFrames.length)
    (face : player.curFaceIdx < player.faceFrames.length) :
    player.moveCursors.curDepthIdx < player.depthFrames.length ∧
      player.moveCursors.curFaceIdx < player.faceFrames.length := by
  rw [← timestamps_length] at depth face ⊢
  rw [← timestamps_length player.faceFrames]
  exact ⟨seek_lt_length player.sCurtime depth, seek_lt_length player.sCurtime face⟩

/-- **What a tick does.** It never reads past the end of a vector. -/
theorem play_spec (clock : Clock T) (depth : player.curDepthIdx < player.depthFrames.length)
    (face : player.curFaceIdx < player.faceFrames.length) :
    ∃ shown, player.Shown shown ∧ player.play clock = some (shown.advance clock) := by
  obtain ⟨depthInside, faceInside⟩ := Player.moveCursors_inside depth face
  obtain ⟨depthStart, depthShown⟩ :=
    showDepth_spec player.moveCursors clock player.curDepthIdx depthInside
  obtain ⟨appStartTime, faceFrames, faceShown, length, kept⟩ := showFace_spec
    { player.moveCursors with
      appStartTime := depthStart
      lastDepth := shownAfter player.firsttick player.lastDepth player.curDepthIdx
        player.moveCursors.curDepthIdx } clock player.curFaceIdx faceInside
  have plays := congrArg (Option.bind · fun shown => some (shown.advance clock)) faceShown
  rw [Option.bind_some] at plays
  refine ⟨{ player.moveCursors with
    appStartTime
    faceFrames
    lastDepth := shownAfter player.firsttick player.lastDepth player.curDepthIdx
      player.moveCursors.curDepthIdx
    lastFace := shownAfter player.firsttick player.lastFace player.curFaceIdx
      player.moveCursors.curFaceIdx }, ⟨rfl, rfl, rfl, rfl, rfl, length, kept, rfl, rfl⟩, ?_⟩
  rw [Player.play, depthShown, Option.bind_eq_bind, Option.bind_some]
  exact plays

@[simp] theorem Player.wrap_firsttick : player.wrap.firsttick = player.firsttick := by
  unfold Player.wrap
  split_ifs <;> rfl

@[simp] theorem Player.wrap_depthFrames : player.wrap.depthFrames = player.depthFrames := by
  unfold Player.wrap
  split_ifs <;> rfl

@[simp] theorem Player.wrap_faceFrames : player.wrap.faceFrames = player.faceFrames := by
  unfold Player.wrap
  split_ifs <;> rfl

@[simp] theorem Player.wrap_sEndTime : player.wrap.sEndTime = player.sEndTime := by
  unfold Player.wrap
  split_ifs <;> rfl

@[simp] theorem Player.wrap_lastDepth : player.wrap.lastDepth = player.lastDepth := by
  unfold Player.wrap
  split_ifs <;> rfl

@[simp] theorem Player.wrap_lastFace : player.wrap.lastFace = player.lastFace := by
  unfold Player.wrap
  split_ifs <;> rfl

/-- Before the end of the recording the clock goes on and the cursors stay. -/
theorem Player.advance_of_le (before : clock.advance player.sCurtime ≤ player.sEndTime) :
    (player.advance clock).sCurtime = clock.advance player.sCurtime ∧
      (player.advance clock).curDepthIdx = player.curDepthIdx ∧
      (player.advance clock).curFaceIdx = player.curFaceIdx := by
  simp only [Player.advance, Player.wrap, gt_iff_lt, not_lt.mpr before, if_false, and_self]

/-- Behind its end the cursors start over. -/
theorem Player.advance_of_lt (behind : player.sEndTime < clock.advance player.sCurtime) :
    (player.advance clock).curDepthIdx = 0 ∧ (player.advance clock).curFaceIdx = 0 := by
  simp only [Player.advance, Player.wrap, gt_iff_lt, behind, if_true, and_self]

theorem isCursor_advance {times : List T} {cur cur' : ℕ}
    (cursor : IsCursor times player.sCurtime cur) (clock : Clock T)
    (kept : clock.advance player.sCurtime ≤ player.sEndTime → cur' = cur)
    (reset : player.sEndTime < clock.advance player.sCurtime → cur' = 0) :
    IsCursor times (player.advance clock).sCurtime cur' := by
  rcases le_or_gt (clock.advance player.sCurtime) player.sEndTime with before | behind
  · rw [kept before, (Player.advance_of_le before).1]
    exact cursor.mono (clock.le_advance _)
  · rw [reset behind]
    exact ⟨(Nat.zero_le _).trans_lt cursor.lt_length, .inl rfl⟩

/-! ### Frames that are due -/

/-- A fresh display shows the frame that is due once the cursor has moved. -/
theorem Fresh.lastDue {times : List T} {now : T} {first : Bool} {last : Option ℕ} {cur : ℕ}
    (fresh : Fresh times now first last cur) (sorted : times.Pairwise (· ≤ ·))
    (cursor : IsCursor times now cur) :
    ∃ idx, shownAfter first last cur (seek times now cur) = some idx ∧ LastDue times now idx := by
  have found := seek_lastDue sorted cursor
  refine ⟨seek times now cur, ?_, found⟩
  unfold shownAfter
  split_ifs with handed
  · rfl
  · obtain ⟨notFirst, stays⟩ := not_or.mp handed
    rw [not_not] at stays
    rcases fresh with first | shown | ⟨time, next, due⟩
    · exact absurd first notFirst
    · rw [shown, stays]
    · -- the cursor would have moved on to the next frame
      have passed := found.latest _ time next due
      omega

/-- What holds of every state in which a tick looks for frames, as long as all ticks were ready:
the depth frames are the recorded ones, and both cursors stand at frames that are due. -/
structure Player.OnTime (recording : Recording T α β) (player : Player T α β) : Prop where
  sEndTime : player.sEndTime = recording.endTime
  depthFrames : player.depthFrames = recording.depthFrames
  faceLength : player.faceFrames.length = recording.faceFrames.length
  depth : IsCursor (timestamps recording.depthFrames) player.sCurtime player.curDepthIdx
  face : IsCursor (timestamps recording.faceFrames) player.sCurtime player.curFaceIdx

theorem Player.onTime_start (clock : Clock T) (recording : Recording T α β) :
    ((Player.start clock).begin recording).OnTime recording :=
  ⟨rfl, rfl, rfl, isCursor_zero (timestamps_ne_nil recording.depth_ne_nil) _,
    isCursor_zero (timestamps_ne_nil recording.face_ne_nil) _⟩

/-- **Step lemma.** A tick that is ready shows the frames that are due, and leaves both cursors on
time. -/
theorem Player.OnTime.play (onTime : player.OnTime recording) (ready : Ready recording player)
    (clock : Clock T) :
    ∃ shown, player.Shown shown ∧ player.play clock = some (shown.advance clock) ∧
      (shown.advance clock).OnTime recording ∧
      (∃ idx, shown.lastDepth = some idx ∧
        LastDue (timestamps recording.depthFrames) player.sCurtime idx) ∧
      ∃ idx, shown.lastFace = some idx ∧
        LastDue (timestamps recording.faceFrames) player.sCurtime idx := by
  obtain ⟨shown, spec, plays⟩ := play_spec clock
    (by rw [onTime.depthFrames, ← timestamps_length]; exact onTime.depth.lt_length)
    (by rw [onTime.faceLength, ← timestamps_length]; exact onTime.face.lt_length)
  have depthCursor : shown.curDepthIdx =
      seek (timestamps recording.depthFrames) player.sCurtime player.curDepthIdx := by
    rw [spec.curDepthIdx, ← onTime.depthFrames]
    rfl
  -- The stored timestamps compare like the recorded ones, so the cursor is moved alike.
  have faceCursor : shown.curFaceIdx =
      seek (timestamps recording.faceFrames) player.sCurtime player.curFaceIdx :=
    spec.curFaceIdx.trans
      (seek_congr (by rw [timestamps_length, timestamps_length, onTime.faceLength]) ready.stored)
  have depthDue := seek_lastDue recording.depth_sorted onTime.depth
  have faceDue := seek_lastDue recording.face_sorted onTime.face
  rw [← depthCursor, ← spec.sCurtime] at depthDue
  rw [← faceCursor, ← spec.sCurtime] at faceDue
  refine ⟨shown, spec, plays, ⟨?_, ?_, ?_, ?_, ?_⟩, ?_, ?_⟩
  · simp only [Player.advance, Player.wrap_sEndTime, spec.sEndTime, onTime.sEndTime]
  · simp only [Player.advance, Player.wrap_depthFrames, spec.depthFrames, onTime.depthFrames]
  · simp only [Player.advance, Player.wrap_faceFrames, spec.faceLength, onTime.faceLength]
  · exact isCursor_advance depthDue.toIsCursor clock
      (fun before => (Player.advance_of_le before).2.1)
      fun behind => (Player.advance_of_lt behind).1
  · exact isCursor_advance faceDue.toIsCursor clock
      (fun before => (Player.advance_of_le before).2.2)
      fun behind => (Player.advance_of_lt behind).2
  · rw [spec.lastDepth, depthCursor]
    exact ready.depth.lastDue recording.depth_sorted onTime.depth
  · rw [spec.lastFace, faceCursor]
    exact ready.face.lastDue recording.face_sorted onTime.face

/-- A tick leaves a state that does not read the recording again. -/
theorem Player.begin_advance (shown : Player T α β) (clock : Clock T)
    (recording : Recording T α β) :
    (shown.advance clock).begin recording = shown.advance clock := by
  have later : (shown.advance clock).firsttick = false := by
    simp only [Player.advance, Player.wrap_firsttick]
  rw [Player.begin, later]
  rfl

/-- **Ready ticks follow the recorded timeline.** In every run of ticks, over any number of
wraps, each of which finds a state that is ready, every tick shows the frames that are due. -/
theorem showsDue_of_ready (clock : Clock T) (recording : Recording T α β) (calls : List Unit)
    (ready : Along (step clock recording) (fun player _ => Ready recording (player.begin recording))
      (.start clock) calls) :
    Along (step clock recording) (fun player _ => ∃ player',
      tick clock recording player = some player' ∧ ShowsDue recording player player')
      (.start clock) calls := by
  have onTime : Along (step clock recording)
      (fun player _ => (player.begin recording).OnTime recording) (.start clock) calls := by
    refine along_invariant (fun player => (player.begin recording).OnTime recording) ?_
      (Player.onTime_start clock recording) ready
    intro player _ player' onTime ready ticks
    obtain ⟨shown, -, plays, onTime', -⟩ := onTime.play ready clock
    obtain rfl : shown.advance clock = player' := Option.some.inj (plays.symm.trans ticks)
    rwa [Player.begin_advance]
  refine (onTime.and ready).mono fun player _ ⟨onTime, ready⟩ => ?_
  obtain ⟨shown, -, plays, -, depth, face⟩ := onTime.play ready clock
  refine ⟨shown.advance clock, plays, ⟨?_, ?_⟩⟩
  · simpa only [Player.advance, Player.wrap_lastDepth] using depth
  · simpa only [Player.advance, Player.wrap_lastFace] using face

/-! ### The first pass -/

/-- The displays show what the cursors stand at, and the face frames behind the cursor are the
recorded ones. -/
structure Player.FirstPass (recording : Recording T α β) (player : Player T α β) : Prop where
  depth : player.firsttick = true ∨ player.lastDepth = some player.curDepthIdx
  face : player.firsttick = true ∨ player.lastFace = some player.curFaceIdx
  faceFrames : ∀ j, player.curFaceIdx < j → player.faceFrames[j]? = recording.faceFrames[j]?

theorem Player.FirstPass.ready (firstPass : player.FirstPass recording) :
    Ready recording player := by
  refine ⟨firstPass.depth.imp_right .inl, firstPass.face.imp_right .inl, ?_⟩
  have same : (timestamps player.faceFrames).drop (player.curFaceIdx + 1) =
      (timestamps recording.faceFrames).drop (player.curFaceIdx + 1) := by
    refine List.ext_getElem? fun j => ?_
    rw [List.getElem?_drop, List.getElem?_drop, timestamps, timestamps, List.getElem?_map,
      List.getElem?_map, firstPass.faceFrames _ (by omega)]
  rw [same]
  exact comparesAlike_refl _ _

theorem shownAfter_of_fresh {first : Bool} {last : Option ℕ} {prev cur : ℕ}
    (fresh : first = true ∨ last = some prev) : shownAfter first last prev cur = some cur := by
  unfold shownAfter
  split_ifs with handed
  · rfl
  · obtain ⟨notFirst, stays⟩ := not_or.mp handed
    rw [fresh.resolve_left notFirst, not_not.mp stays]

/-- A tick that does not pass the end of the recording stays in the first pass. -/
theorem Player.FirstPass.advance {shown : Player T α β} (firstPass : player.FirstPass recording)
    (spec : player.Shown shown) (before : clock.advance player.sCurtime ≤ player.sEndTime) :
    (shown.advance clock).FirstPass recording := by
  rw [← spec.sCurtime, ← spec.sEndTime] at before
  obtain ⟨-, depthKept, faceKept⟩ := Player.advance_of_le before
  have onward : player.curFaceIdx ≤ shown.curFaceIdx := by
    rw [spec.curFaceIdx]
    exact le_seekFrom _ _ _
  refine ⟨.inr ?_, .inr ?_, ?_⟩
  · rw [depthKept]
    simp only [Player.advance, Player.wrap_lastDepth, spec.lastDepth,
      shownAfter_of_fresh firstPass.depth]
  · rw [faceKept]
    simp only [Player.advance, Player.wrap_lastFace, spec.lastFace,
      shownAfter_of_fresh firstPass.face]
  · intro j behind
    rw [faceKept] at behind
    simp only [Player.advance, Player.wrap_faceFrames, spec.faceFrames j behind]
    exact firstPass.faceFrames j (onward.trans_lt behind)

/-- **Every first pass is ready**, as long as the clock does not pass the end. -/
theorem ready_of_firstPass (clock : Clock T) (recording : Recording T α β) (calls : List Unit)
    (before : Along (step clock recording) (fun player _ =>
      clock.advance (player.begin recording).sCurtime ≤ recording.endTime) (.start clock) calls) :
    Along (step clock recording) (fun player _ => Ready recording (player.begin recording))
      (.start clock) calls := by
  refine (along_invariant (fun player => (player.begin recording).OnTime recording ∧
    (player.begin recording).FirstPass recording) ?_ ?_ before).mono
      fun player _ inv => inv.2.ready
  · rintro player _ player' ⟨onTime, firstPass⟩ before ticks
    obtain ⟨shown, spec, plays, onTime', -⟩ := onTime.play firstPass.ready clock
    obtain rfl : shown.advance clock = player' := Option.some.inj (plays.symm.trans ticks)
    rw [Player.begin_advance]
    exact ⟨onTime', firstPass.advance spec (by rwa [onTime.sEndTime])⟩
  · exact ⟨Player.onTime_start clock recording, .inl rfl, .inl rfl, fun _ _ => rfl⟩

/-! ### A recording -/

/-- Times in units of `2 ^ -29` seconds, in which `1 / 60.0f` is a whole number. -/
def unitClock : Clock ℤ where
  zero := 0
  unset := -536870912
  sub := (· - ·)
  advance t := t + 8947849
  le_advance t := by omega

/-- A recording of two depth frames, due at the first and the second tick, and one at the end. -/
def depthRecording (last : ℤ) (behind : 8947849 ≤ last) : Recording ℤ Unit Unit where
  depthFrames := [⟨0, ()⟩, ⟨8947849, ()⟩, ⟨last, ()⟩]
  faceFrames := [⟨0, ()⟩]
  depth_ne_nil := List.cons_ne_nil _ _
  face_ne_nil := List.cons_ne_nil _ _
  depth_sorted := by
    simp only [timestamps, List.map_cons, List.map_nil, List.pairwise_cons, List.mem_cons,
      List.not_mem_nil, or_false, forall_eq_or_imp, forall_eq, IsEmpty.forall_iff, implies_true,
      List.Pairwise.nil, and_true]
    omega
  face_sorted := List.pairwise_singleton _ _

/-- A recording whose first two depth frames are due at once. -/
def twinRecording : Recording ℤ Unit Unit where
  depthFrames := [⟨0, ()⟩, ⟨0, ()⟩, ⟨8947849, ()⟩]
  faceFrames := [⟨0, ()⟩]
  depth_ne_nil := List.cons_ne_nil _ _
  face_ne_nil := List.cons_ne_nil _ _
  depth_sorted := by decide
  face_sorted := List.pairwise_singleton _ _

/-- Two ticks of its first pass, and behind the wrap one of the second. -/
theorem showsDue_twinRecording :
    (∃ player, run (step unitClock twinRecording) (.start unitClock) [(), ()] = some player ∧
      player.sCurtime = 0 ∧ player.curDepthIdx = 0 ∧ player.lastDepth = some 2) ∧
    Along (step unitClock twinRecording) (fun player _ => ∃ player',
      tick unitClock twinRecording player = some player' ∧
        ShowsDue twinRecording player player') (.start unitClock) [(), (), ()] := by
  refine ⟨⟨_, rfl, rfl, rfl, rfl⟩, showsDue_of_ready _ _ _ ?_⟩
  have first : Ready twinRecording ((Player.start unitClock).begin twinRecording) :=
    ⟨.inl rfl, .inl rfl, comparesAlike_refl _ []⟩
  exact .cons first rfl (.cons ⟨.inr (.inl rfl), .inr (.inl rfl), comparesAlike_refl _ []⟩ rfl
    (.cons ⟨.inr (.inr ⟨0, rfl, le_rfl⟩), .inr (.inl rfl), comparesAlike_refl _ []⟩ rfl trivial))

/-- With all frames due by the second tick, the third is the first of the next pass. It hands
nothing over, and the last depth frame stays on. -/
theorem not_showsDue_after_wrap :
    ∃ player player', run (step unitClock (depthRecording 8947849 (by decide)))
        (.start unitClock) [(), ()] = some player ∧
      tick unitClock (depthRecording 8947849 (by decide)) player = some player' ∧
      ¬ ShowsDue (depthRecording 8947849 (by decide)) player player' := by
  refine ⟨_, _, rfl, rfl, fun shows => ?_⟩
  obtain ⟨idx, shown, due⟩ := shows.depth
  obtain rfl : 2 = idx := Option.some.inj shown
  obtain none | ⟨time, entry, le⟩ := due.due
  · simp at none
  · obtain rfl : 8947849 = time := Option.some.inj entry
    exact absurd le (by decide)

end Sqwar.Playback
