import Mathlib.Algebra.Group.Nat.Even
import Sqwar.Capture.Application

/-!
# Recording sessions

The callbacks bracket what they write by a start and a stop as long as only depth callbacks see the
edges of the record button. A face callback on an edge reacts to it and leaves it to be seen again.
-/

set_option autoImplicit false

namespace Sqwar.Capture

open Semantics

variable {T α β : Type*} {calls : List (Call T α β)} {call : Call T α β}

/-- The starts and stops among some calls; a start is `true`. -/
def markers (calls : List (Call T α β)) : List Bool :=
  calls.filterMap fun
    | .startRecording => some true
    | .stopRecording => some false
    | _ => none

/-- `WriteFrame` and `WriteFaceFrame`. -/
def Call.isWrite : Call T α β → Bool
  | .writeFrame _ => true
  | .writeFaceFrame _ => true
  | _ => false

/-- There is a start that no stop follows. -/
def SessionOpen (calls : List (Call T α β)) : Prop :=
  ∃ before after, calls = before ++ .startRecording :: after ∧ .stopRecording ∉ after

/-- Starts and stops alternate, a start first, and every write lies in a session. -/
structure WellBracketed (calls : List (Call T α β)) : Prop where
  alternate : ∀ before marker after, markers calls = before ++ marker :: after →
    (marker = true ↔ Even before.length)
  inside : ∀ before call after, calls = before ++ call :: after → call.isWrite = true →
    SessionOpen before

/-! ### One more call -/

theorem split_snoc {γ : Type*} {xs before after : List γ} {x y : γ}
    (split : xs ++ [x] = before ++ y :: after) :
    (before = xs ∧ y = x) ∨ ∃ after', xs = before ++ y :: after' := by
  rcases List.eq_nil_or_concat after with rfl | ⟨after', z, rfl⟩
  · obtain ⟨rfl, last⟩ := List.append_inj' split rfl
    exact .inl ⟨rfl, (List.singleton_inj.mp last).symm⟩
  · rw [List.concat_eq_append, ← List.cons_append, ← List.append_assoc] at split
    exact .inr ⟨after', (List.append_inj' split rfl).1⟩

theorem markers_append (first later : List (Call T α β)) :
    markers (first ++ later) = markers first ++ markers later :=
  List.filterMap_append

theorem WellBracketed.snoc (wb : WellBracketed calls)
    (alternates : ∀ marker, markers [call] = [marker] →
      (marker = true ↔ Even (markers calls).length))
    (lies : call.isWrite = true → SessionOpen calls) : WellBracketed (calls ++ [call]) where
  alternate before marker after split := by
    rw [markers_append] at split
    -- A write adds no marker, a start or a stop adds one.
    match one : markers [call] with
    | [] =>
      rw [one, List.append_nil] at split
      exact wb.alternate _ _ _ split
    | [m] =>
      rw [one] at split
      rcases split_snoc split with ⟨rfl, rfl⟩ | ⟨after', split⟩
      · exact alternates _ one
      · exact wb.alternate _ _ _ split
    | _ :: _ :: _ => cases call <;> simp [markers] at one
  inside before call' after split isWrite := by
    rcases split_snoc split with ⟨rfl, rfl⟩ | ⟨after', split⟩
    · exact lies isWrite
    · exact wb.inside _ _ _ split isWrite

/-- Behind well bracketed calls, a session is open or not. -/
structure Session (opened : Bool) (calls : List (Call T α β)) : Prop where
  bracketed : WellBracketed calls
  isOpen : opened = true → SessionOpen calls
  even : Even (markers calls).length ↔ opened = false

theorem Session.nil : Session false ([] : List (Call T α β)) where
  bracketed := ⟨by simp [markers], by simp⟩
  isOpen closed := by cases closed
  even := by simp [markers]

theorem Session.start (session : Session false calls) :
    Session true (calls ++ [.startRecording]) where
  bracketed := by
    refine session.bracketed.snoc (fun marker one => ?_) fun write => by cases write
    obtain rfl : true = marker := List.singleton_inj.mp one
    exact iff_of_true rfl (session.even.mpr rfl)
  isOpen _ := ⟨calls, [], rfl, List.not_mem_nil⟩
  even := by
    have length : (markers (calls ++ [.startRecording])).length = (markers calls).length + 1 := by
      rw [markers_append, List.length_append]
      rfl
    rw [length, Nat.even_add_one, session.even]
    decide

theorem Session.stop (session : Session true calls) :
    Session false (calls ++ [.stopRecording]) where
  bracketed := by
    refine session.bracketed.snoc (fun marker one => ?_) fun write => by cases write
    obtain rfl : false = marker := List.singleton_inj.mp one
    rw [session.even]
    decide
  isOpen closed := by cases closed
  even := by
    have length : (markers (calls ++ [.stopRecording])).length = (markers calls).length + 1 := by
      rw [markers_append, List.length_append]
      rfl
    rw [length, Nat.even_add_one, session.even]
    decide

theorem Session.write (session : Session true calls) (write : call.isWrite = true) :
    Session true (calls ++ [call]) where
  bracketed := by
    refine session.bracketed.snoc (fun marker one => ?_) fun _ => session.isOpen rfl
    cases call <;> simp [markers, Call.isWrite] at one write
  isOpen _ := by
    obtain ⟨before, after, rfl, unclosed⟩ := session.isOpen rfl
    refine ⟨before, after ++ [call], by simp, fun member => ?_⟩
    rcases List.mem_append.mp member with earlier | last
    · exact unclosed earlier
    · obtain rfl := List.mem_singleton.mp last
      cases write
  even := by
    have same : markers (calls ++ [call]) = markers calls := by
      rw [markers_append]
      cases call <;> simp [markers, Call.isWrite] at write ⊢
    rw [same, session.even]

/-! ### Callbacks -/

variable {app : Application T α β}

/-- The edge of the button brings the session in line with it. -/
theorem Session.edgeCalls (session : Session app.wasrecording app.calls) :
    Session app.isrecording (app.calls ++ app.edgeCalls) := by
  unfold Application.edgeCalls
  cases isNow : app.isrecording <;> cases was : app.wasrecording <;> rw [was] at session
  · simpa using session
  -- a falling edge, and below a rising one
  · simpa using session.stop
  · simpa using session.start
  · simpa using session

theorem Session.write_if (session : Session app.isrecording calls) (write : call.isWrite = true) :
    Session app.isrecording (calls ++ if app.isrecording then [call] else []) := by
  cases isNow : app.isrecording <;> rw [isNow] at session
  · simpa using session
  · simpa using session.write write

/-- A face callback does not see an edge of the record button. -/
def FaceSeesNoEdge (app : Application T α β) (event : Event T α β) : Prop :=
  ∀ face, event = .faceData face → app.isrecording = app.wasrecording

instance (app : Application T α β) : (event : Event T α β) → Decidable (FaceSeesNoEdge app event)
  | .faceData face => decidable_of_iff (app.isrecording = app.wasrecording)
      ⟨fun same _ _ => same, fun noEdge => noEdge face rfl⟩
  | .tick _ => .isTrue fun _ other => by cases other
  | .depthBuffer _ => .isTrue fun _ other => by cases other
  | .recordButton => .isTrue fun _ other => by cases other

variable [LinearOrder T] {times : Times T} {event : Event T α β} {events : List (Event T α β)}

theorem Session.handle (session : Session app.wasrecording app.calls)
    (noEdge : FaceSeesNoEdge app event) :
    Session (app.handle times event).wasrecording (app.handle times event).calls := by
  cases event with
  | tick deviceTimestamp =>
    rw [Application.handle, Application.tick, Application.fixStartTime_eq]
    exact session
  | depthBuffer depth =>
    rw [Application.handle, Application.onDepthBufferInst_eq]
    exact session.edgeCalls.write_if rfl
  | faceData face =>
    rw [Application.handle, Application.onFaceDataInst_eq]
    dsimp only
    -- `wasrecording` is not assigned here, but equal to `isrecording` already.
    rw [← noEdge face rfl]
    exact session.edgeCalls.write_if rfl
  | recordButton => exact session

/-- **Sessions are well bracketed** in every run in which no face callback sees an edge of the
record button. -/
theorem wellBracketed_of_faceSeesNoEdge
    (meets : Along (react times) FaceSeesNoEdge (.start times) events)
    (runs : run (react times) (.start times) events = some app) : WellBracketed app.calls := by
  have session : Session app.wasrecording app.calls := by
    refine run_invariant (fun app : Application T α β => Session app.wasrecording app.calls) ?_
      .nil meets runs
    intro app event app' session noEdge reacts
    obtain rfl := Option.some.inj reacts
    exact session.handle noEdge
  exact session.bracketed

/-! ### Unseen edges -/

omit [LinearOrder T] in
/-- Calls in which two starts or two stops follow each other are not well bracketed. -/
theorem not_wellBracketed_of_repeated (before after : List Bool) {marker : Bool}
    (repeated : markers calls = before ++ marker :: marker :: after) : ¬ WellBracketed calls := by
  intro wb
  have first := wb.alternate before marker (marker :: after) repeated
  have second := wb.alternate (before ++ [marker]) marker after (by simpa using repeated)
  rw [List.length_append, List.length_singleton, Nat.even_add_one, ← first] at second
  cases marker <;> simp at second

omit [LinearOrder T] in
theorem markers_edgeCalls (edge : app.isrecording ≠ app.wasrecording) :
    markers app.edgeCalls = [app.isrecording] := by
  unfold Application.edgeCalls
  cases isNow : app.isrecording <;> cases was : app.wasrecording
  · exact absurd (isNow.trans was.symm) edge
  · rfl
  · rfl
  · exact absurd (isNow.trans was.symm) edge

omit [LinearOrder T] in
theorem markers_write_if (isNow : Bool) (write : call.isWrite = true) :
    markers (if isNow then [call] else []) = [] := by
  cases isNow <;> cases call <;> first | rfl | cases write

/-- Every callback that meets an edge reacts to it. -/
theorem markers_handle (times : Times T) (edge : app.isrecording ≠ app.wasrecording)
    (callback : (∃ depth, event = .depthBuffer depth) ∨ ∃ face, event = .faceData face) :
    markers (app.handle times event).calls = markers app.calls ++ [app.isrecording] := by
  rcases callback with ⟨depth, rfl⟩ | ⟨face, rfl⟩
  · rw [Application.handle, Application.onDepthBufferInst_eq]
    dsimp only
    rw [markers_append, markers_append, markers_edgeCalls edge, markers_write_if _ rfl,
      List.append_nil]
  · rw [Application.handle, Application.onFaceDataInst_eq]
    dsimp only
    rw [markers_append, markers_append, markers_edgeCalls edge, markers_write_if _ rfl,
      List.append_nil]

/-- The condition is no stronger than need be: when a face callback has seen an edge, the next
callback of either kind sees it again and breaks the brackets. -/
theorem not_wellBracketed_of_edge {face : FaceData T β} (edge : app.isrecording ≠ app.wasrecording)
    (callback : (∃ depth, event = .depthBuffer depth) ∨ ∃ face, event = .faceData face) :
    ¬ WellBracketed ((app.handle times (.faceData face)).handle times event).calls := by
  have still : (app.handle times (.faceData face)).isrecording = app.isrecording ∧
      (app.handle times (.faceData face)).wasrecording = app.wasrecording := by
    rw [Application.handle, Application.onFaceDataInst_eq]
    exact ⟨rfl, rfl⟩
  have again := markers_handle times (by rwa [still.1, still.2]) callback
  rw [markers_handle times edge (.inr ⟨face, rfl⟩), still.1, List.append_assoc] at again
  exact not_wellBracketed_of_repeated _ [] again

/-! ### Two runs -/

/-- A depth callback sees both edges of the button. -/
def depthFirst : List (Event ℤ Unit Unit) :=
  [.depthBuffer (emptyFrame 1), .faceData ⟨2, ()⟩, .recordButton, .depthBuffer (emptyFrame 3)]

theorem wellBracketed_depthFirst : ∃ app : Application ℤ Unit Unit,
    run (react seconds) (.start seconds) depthFirst = some app ∧ WellBracketed app.calls := by
  have meets : Along (react seconds) FaceSeesNoEdge (.start seconds) depthFirst := by decide
  exact ⟨_, rfl, wellBracketed_of_faceSeesNoEdge meets rfl⟩

/-- Two face callbacks in a row start two recordings. -/
theorem not_wellBracketed_face_first : ∃ app : Application ℤ Unit Unit,
    run (react seconds) (.start seconds) [.faceData ⟨1, ()⟩, .faceData ⟨2, ()⟩] = some app ∧
      ¬ WellBracketed app.calls :=
  ⟨_, rfl, not_wellBracketed_of_repeated [] [] rfl⟩

end Sqwar.Capture
