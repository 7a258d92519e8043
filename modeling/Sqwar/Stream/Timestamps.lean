import Mathlib.Data.List.Pairwise
import Mathlib.Data.List.Range
import Mathlib.Tactic.Ring
import Sqwar.Data.MachineInt

/-!
# The timestamps of the video stream

`FFmpegOutputStreamer` numbers its frames and scales the number to the time base of the stream.
The number is multiplied by the denominator in 32 bits before the division, so the timestamps
grow until the product leaves the type, and then jump back.
-/

set_option autoImplicit false

namespace Sqwar.Stream

open Data

/-! ### The source functions -/

/-- `FFmpegOutputStreamer::fps`, which nothing changes. -/
def fps : ℤ := 30

/-- `stream->time_base`, of positive `int`s, with a tick that no frame outlasts. -/
structure TimeBase where
  num : ℤ
  den : ℤ
  num_pos : 0 < num
  den_isInt32 : IsInt32 den
  fps_le : num * fps ≤ den

/-- The state of the streamer: whether its frame has been allocated, and the number of the next
frame. -/
structure FFmpegOutputStreamer where
  videoFrame : Bool := false
  frameCounter : ℤ := 0

/-- What `av_frame_get_buffer` and `avcodec_send_frame` return to a call, if it calls them. -/
structure Returned where
  getBuffer : ℤ
  sendFrame : ℤ

/-- How a call ends: without a buffer, or with the frame that it has stamped refused or sent. -/
inductive Outcome where
  | noBuffer
  | notSent (pts : ℤ)
  | sent (pts : ℤ)

/-- The timestamp that was assigned to the frame. -/
def Outcome.pts : Outcome → Option ℤ
  | .noBuffer => none
  | .notSent pts | .sent pts => some pts

/-- `FFmpegOutputStreamer::WriteFrameYUV420`, as far as timestamps go. -/
def FFmpegOutputStreamer.writeFrameYUV420 (timeBase : TimeBase) (s : FFmpegOutputStreamer)
    (returned : Returned) : FFmpegOutputStreamer × Outcome :=
  if s.videoFrame = false ∧ returned.getBuffer < 0 then
    -- the frame stays allocated, so no later call asks for a buffer
    ({ s with videoFrame := true }, .noBuffer)
  else
    let pts := (wrap32 (s.frameCounter * timeBase.den)).tdiv (wrap32 (timeBase.num * fps))
    ({ videoFrame := true, frameCounter := wrap32 (s.frameCounter + 1) },
      if returned.sendFrame < 0 then .notSent pts else .sent pts)

/-- The calls on one streamer, in order. -/
def FFmpegOutputStreamer.writeFrames (timeBase : TimeBase) :
    FFmpegOutputStreamer → List Returned → List Outcome
  | _, [] => []
  | s, returned :: calls =>
    let written := s.writeFrameYUV420 timeBase returned
    written.2 :: written.1.writeFrames timeBase calls

/-- The timestamps that the calls on a new streamer assign. -/
def timestamps (timeBase : TimeBase) (calls : List Returned) : List ℤ :=
  (FFmpegOutputStreamer.writeFrames timeBase {} calls).filterMap Outcome.pts

/-- The number of calls that stamp a frame: all of them, or all but the first. -/
def stamped : List Returned → ℕ
  | [] => 0
  | returned :: calls => if returned.getBuffer < 0 then calls.length else calls.length + 1

/-! ### One timestamp -/

/-- The timestamp of the frame of a number. -/
def TimeBase.stamp (timeBase : TimeBase) (k : ℕ) : ℤ :=
  (wrap32 (k * timeBase.den)).tdiv (wrap32 (timeBase.num * fps))

variable {timeBase : TimeBase} {calls : List Returned} {i j k n : ℕ}

theorem TimeBase.ticks_pos (timeBase : TimeBase) : 0 < timeBase.num * fps :=
  mul_pos timeBase.num_pos (by decide)

theorem TimeBase.den_pos (timeBase : TimeBase) : 0 < timeBase.den :=
  timeBase.ticks_pos.trans_le timeBase.fps_le

theorem TimeBase.wrap32_ticks (timeBase : TimeBase) :
    wrap32 (timeBase.num * fps) = timeBase.num * fps := by
  refine wrap32_of_isInt32 ⟨?_, timeBase.fps_le.trans_lt timeBase.den_isInt32.2⟩
  exact (by norm_num : (-2 ^ 31 : ℤ) ≤ 0).trans timeBase.ticks_pos.le

theorem TimeBase.stamp_of_fits (fits : k * timeBase.den < 2 ^ 31) :
    timeBase.stamp k = k * timeBase.den / (timeBase.num * fps) := by
  have nonneg : 0 ≤ k * timeBase.den := mul_nonneg k.cast_nonneg timeBase.den_pos.le
  have same : wrap32 (k * timeBase.den) = k * timeBase.den :=
    wrap32_of_isInt32 ⟨(by norm_num : (-2 ^ 31 : ℤ) ≤ 0).trans nonneg, fits⟩
  rw [TimeBase.stamp, same, timeBase.wrap32_ticks, Int.tdiv_eq_ediv_of_nonneg nonneg]

/-- A frame number that fits has a later timestamp than those before it, since a frame takes a
tick. -/
theorem TimeBase.stamp_lt_stamp (less : i < j) (fits : j * timeBase.den < 2 ^ 31) :
    timeBase.stamp i < timeBase.stamp j := by
  have tick : (i : ℤ) * timeBase.den + timeBase.num * fps ≤ j * timeBase.den := by
    calc (i : ℤ) * timeBase.den + timeBase.num * fps ≤ i * timeBase.den + timeBase.den := by
          linarith [timeBase.fps_le]
      _ = (i + 1) * timeBase.den := by ring
      _ ≤ j * timeBase.den := mul_le_mul_of_nonneg_right (by exact_mod_cast less)
          timeBase.den_pos.le
  rw [TimeBase.stamp_of_fits (by linarith [timeBase.ticks_pos]), TimeBase.stamp_of_fits fits]
  calc (i : ℤ) * timeBase.den / (timeBase.num * fps)
      < (i * timeBase.den + timeBase.num * fps) / (timeBase.num * fps) := by
        rw [Int.add_ediv_of_dvd_right dvd_rfl, Int.ediv_self timeBase.ticks_pos.ne']
        exact Int.lt_succ _
    _ ≤ j * timeBase.den / (timeBase.num * fps) :=
        Int.ediv_le_ediv timeBase.ticks_pos tick

/-- The first frame number whose product does not fit gets no later timestamp than the one
before it. -/
theorem TimeBase.stamp_succ_le (fits : k * timeBase.den < 2 ^ 31)
    (tooLarge : 2 ^ 31 ≤ (k + 1 : ℕ) * timeBase.den) :
    timeBase.stamp (k + 1) ≤ timeBase.stamp k := by
  have next : ((k + 1 : ℕ) : ℤ) * timeBase.den < 2 ^ 32 := by
    have := timeBase.den_isInt32.2
    push_cast at tooLarge ⊢
    linarith
  have negative : timeBase.stamp (k + 1) ≤ 0 := by
    rw [TimeBase.stamp, wrap32_of_overflow tooLarge next, timeBase.wrap32_ticks]
    rw [← neg_nonneg, ← Int.neg_tdiv]
    exact Int.tdiv_nonneg (by linarith) timeBase.ticks_pos.le
  rw [TimeBase.stamp_of_fits fits]
  exact negative.trans (Int.ediv_nonneg (mul_nonneg k.cast_nonneg timeBase.den_pos.le)
    timeBase.ticks_pos.le)

/-! ### The calls on one streamer -/

/-- Once the frame is allocated, every call stamps it with the next number. -/
theorem FFmpegOutputStreamer.writeFrames_pts (calls : List Returned) (s : FFmpegOutputStreamer)
    (allocated : s.videoFrame = true) (counted : s.frameCounter = wrap32 k) :
    (s.writeFrames timeBase calls).filterMap Outcome.pts =
      (List.range' k calls.length).map timeBase.stamp := by
  induction calls generalizing s k with
  | nil => rfl
  | cons returned calls ih =>
    have written : s.writeFrameYUV420 timeBase returned =
        (⟨true, wrap32 (k + 1 : ℕ)⟩, if returned.sendFrame < 0 then .notSent (timeBase.stamp k)
          else .sent (timeBase.stamp k)) := by
      simp [FFmpegOutputStreamer.writeFrameYUV420, allocated, counted, TimeBase.stamp]
    have assigned : (s.writeFrameYUV420 timeBase returned).2.pts = some (timeBase.stamp k) := by
      rw [written]
      split <;> rfl
    rw [FFmpegOutputStreamer.writeFrames, List.filterMap_cons_some assigned, List.length_cons,
      List.range'_succ, List.map_cons]
    exact congrArg _ (ih _ (by rw [written]) (by rw [written]))

theorem timestamps_eq : timestamps timeBase calls =
    (List.range (stamped calls)).map timeBase.stamp := by
  cases calls with
  | nil => rfl
  | cons returned calls =>
    by_cases fails : returned.getBuffer < 0
    · have written : FFmpegOutputStreamer.writeFrameYUV420 timeBase {} returned =
          (⟨true, 0⟩, .noBuffer) := by simp [FFmpegOutputStreamer.writeFrameYUV420, fails]
      rw [timestamps, FFmpegOutputStreamer.writeFrames, written, stamped, if_pos fails,
        List.range_eq_range', List.filterMap_cons_none rfl]
      exact FFmpegOutputStreamer.writeFrames_pts _ _ rfl rfl
    · -- the buffer is there, as in a streamer that has one already
      have same : FFmpegOutputStreamer.writeFrameYUV420 timeBase {} returned =
          FFmpegOutputStreamer.writeFrameYUV420 timeBase ⟨true, 0⟩ returned := by
        simp [FFmpegOutputStreamer.writeFrameYUV420, fails]
      rw [timestamps, FFmpegOutputStreamer.writeFrames, same, stamped, if_neg fails,
        List.range_eq_range']
      exact FFmpegOutputStreamer.writeFrames_pts (returned :: calls) ⟨true, 0⟩ rfl rfl

/-- The timestamps of the first `n` frames increase as long as every product fits. -/
theorem TimeBase.pairwise_stamp_iff :
    ((List.range n).map timeBase.stamp).Pairwise (· < ·) ↔
      ((n - 1 : ℕ) : ℤ) * timeBase.den < 2 ^ 31 := by
  constructor
  · intro increase
    induction n with
    | zero => norm_num
    | succ n ih =>
      cases n with
      | zero => norm_num
      | succ n =>
        rw [List.range_succ, List.map_append, List.pairwise_append] at increase
        obtain ⟨before, -, last⟩ := increase
        by_contra! tooLarge
        refine (timeBase.stamp_succ_le (ih before) tooLarge).not_gt
          (last _ ?_ _ (List.mem_singleton_self _))
        exact List.mem_map_of_mem (List.mem_range.mpr n.lt_succ_self)
  · intro fits
    rw [List.pairwise_map]
    refine List.pairwise_lt_range.imp_of_mem fun {i j} _ inside less => ?_
    refine TimeBase.stamp_lt_stamp less (lt_of_le_of_lt ?_ fits)
    exact mul_le_mul_of_nonneg_right
      (by exact_mod_cast Nat.le_sub_one_of_lt (List.mem_range.mp inside)) timeBase.den_pos.le

/-- **Video timestamps never go back**, as long as the number of the last frame times the
denominator fits an `int`. -/
theorem timestamps_increase_iff (timeBase : TimeBase) (calls : List Returned) :
    (timestamps timeBase calls).Pairwise (· < ·) ↔
      ((stamped calls - 1 : ℕ) : ℤ) * timeBase.den < 2 ^ 31 := by
  rw [timestamps_eq, TimeBase.pairwise_stamp_iff]

/-- The time base that the muxer prefers. -/
def TimeBase.ninetyThousandths : TimeBase :=
  ⟨1, 90000, by decide, ⟨by norm_num, by norm_num⟩, by decide⟩

/-- After thirteen minutes and a quarter, the timestamps jump back. -/
theorem not_timestamps_increase : ¬ (timestamps .ninetyThousandths
    (List.replicate 23862 ⟨0, 0⟩)).Pairwise (· < ·) := by
  have all : stamped (List.replicate 23862 ⟨0, 0⟩) = 23862 := by
    rw [List.replicate_succ, stamped, if_neg (by decide), List.length_replicate]
  rw [timestamps_eq, all, TimeBase.pairwise_stamp_iff]
  norm_num [TimeBase.ninetyThousandths]

end Sqwar.Stream
