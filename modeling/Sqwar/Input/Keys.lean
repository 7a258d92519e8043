import Mathlib.Data.Fin.VecNotation
import Mathlib.Data.Fintype.Basic
import Mathlib.Data.Rat.Defs
import Mathlib.Tactic.FinCases
import Mathlib.Tactic.Ring
import Sqwar.Data.LittleEndian
import Sqwar.Semantics.Run

/-!
# The keys and the velocity of the camera

`WndProc` drops the messages that repeat what its table of keys says. `World::KeyDown` adds the
speed of a key to a component of `g_vel`, and `World::KeyUp` resets the component, as if the key on
the other side could not be held as well.
-/

set_option autoImplicit false

namespace Sqwar.Input

open Semantics Function

/-- The messages about keys. -/
inductive MessageKind | keyDown | sysKeyDown | keyUp | sysKeyUp
  deriving DecidableEq, Repr

/-- A message and its `wParam`, the virtual-key code. -/
structure Message where
  kind : MessageKind
  wParam : ℕ
  deriving DecidableEq, Repr

/-- A key goes down. -/
def Message.isDown (m : Message) : Bool :=
  match m.kind with
  | .keyDown | .sysKeyDown => true
  | .keyUp | .sysKeyUp => false

/-! ### `World` -/

def leftShift : ℤ := 16
def spaceBar : ℤ := 32
def aButton : ℤ := 65
def dButton : ℤ := 68
def wButton : ℤ := 87
def sButton : ℤ := 83

/-- `speed`. -/
def speed : ℚ := 1 / 10

/-- What keys change: `isPaused`, `g_maxTileLod` and `g_vel`. -/
structure World where
  isPaused : Bool
  maxTileLod : ℤ
  vel : Fin 3 → ℚ

namespace World

/-- `g_vel[i] += dv`. -/
def accelerate (world : World) (i : Fin 3) (dv : ℚ) : World :=
  { world with vel := update world.vel i (world.vel i + dv) }

/-- `g_vel[i] = 0`. -/
def stop (world : World) (i : Fin 3) : World := { world with vel := update world.vel i 0 }

/-- `World::KeyDown`. -/
def keyDown (world : World) (k : ℤ) : World :=
  let world :=
    if k = 80 then { world with isPaused := !world.isPaused }
    else if k = leftShift then world.accelerate 1 (-speed)
    else if k = spaceBar then world.accelerate 1 speed
    else if k = aButton then world.accelerate 0 (-speed)
    else if k = dButton then world.accelerate 0 speed
    else if k = wButton then world.accelerate 2 (-speed)
    else if k = sButton then world.accelerate 2 speed
    else world
  if k ≥ 49 ∧ k ≤ 57 then { world with maxTileLod := k - 48 } else world

/-- `World::KeyUp`. -/
def keyUp (world : World) (k : ℤ) : World :=
  if k = leftShift ∨ k = spaceBar then world.stop 1
  else if k = aButton ∨ k = dButton then world.stop 0
  else if k = wButton ∨ k = sButton then world.stop 2
  else world

end World

/-! ### `WndProc` -/

/-- The table of `WndProc`, and what the messages that pass it change. -/
structure Window where
  keystate : Fin 256 → Bool
  world : World

/-- The part of `WndProc` about keys. A code outside the table is `none`. -/
def wndProc (window : Window) (m : Message) : Option Window :=
  if inside : m.wParam < 256 then
    let wParam : Fin 256 := ⟨m.wParam, inside⟩
    if m.isDown then
      if window.keystate wParam = false then
        some ⟨update window.keystate wParam true, window.world.keyDown m.wParam⟩
      else some window
    else if window.keystate wParam ≠ false then
      some ⟨update window.keystate wParam false, window.world.keyUp m.wParam⟩
    else some window
  else none

/-- Before the first message. -/
def Window.start : Window := ⟨fun _ => false, ⟨false, 9, 0⟩⟩

/-! ### The keys of an axis -/

/-- The key that adds to a component of `g_vel`. -/
def positiveKey : Fin 3 → ℤ := ![dButton, spaceBar, sButton]

/-- The key that subtracts from it. -/
def negativeKey : Fin 3 → ℤ := ![aButton, leftShift, wButton]

/-- After some messages the key is held: the last message about it was that it goes down. -/
def held (past : List Message) (k : ℤ) : Bool :=
  past.foldl (fun down m => if (m.wParam : ℤ) = k then m.isDown else down) false

/-- The velocity that goes with the keys that are held. -/
def heldVelocity (down : ℤ → Bool) (i : Fin 3) : ℚ :=
  speed * (if down (positiveKey i) then 1 else 0) - speed * (if down (negativeKey i) then 1 else 0)

theorem positiveKey_ne_negativeKey (i j : Fin 3) : positiveKey i ≠ negativeKey j := by
  revert i j
  decide

theorem positiveKey_inj {i j : Fin 3} : positiveKey i = positiveKey j ↔ i = j := by
  revert i j
  decide

theorem negativeKey_inj {i j : Fin 3} : negativeKey i = negativeKey j ↔ i = j := by
  revert i j
  decide

/-- Every key adds to one component, subtracts from one, or moves nothing. -/
theorem key_cases (k : ℤ) : (∃ i, k = positiveKey i) ∨ (∃ i, k = negativeKey i) ∨
    ∀ i, k ≠ positiveKey i ∧ k ≠ negativeKey i := by
  by_cases positive : ∃ i, k = positiveKey i
  · exact .inl positive
  · by_cases negative : ∃ i, k = negativeKey i
    · exact .inr (.inl negative)
    · exact .inr (.inr fun i => ⟨fun same => positive ⟨i, same⟩, fun same => negative ⟨i, same⟩⟩)

/-- A key that moves nothing is none of those that `KeyUp` looks for. -/
theorem buttons_of_other {k : ℤ} (other : ∀ i, k ≠ positiveKey i ∧ k ≠ negativeKey i) :
    (k ≠ leftShift ∧ k ≠ spaceBar) ∧ (k ≠ aButton ∧ k ≠ dButton) ∧ k ≠ wButton ∧ k ≠ sButton :=
  ⟨(other 1).symm, (other 0).symm, (other 2).symm⟩

namespace World

variable (world : World) {k : ℤ}

theorem keyDown_positiveKey (i : Fin 3) :
    world.keyDown (positiveKey i) = world.accelerate i speed := by
  fin_cases i <;> rfl

theorem keyDown_negativeKey (i : Fin 3) :
    world.keyDown (negativeKey i) = world.accelerate i (-speed) := by
  fin_cases i <;> rfl

theorem keyUp_positiveKey (i : Fin 3) : world.keyUp (positiveKey i) = world.stop i := by
  fin_cases i <;> rfl

theorem keyUp_negativeKey (i : Fin 3) : world.keyUp (negativeKey i) = world.stop i := by
  fin_cases i <;> rfl

theorem vel_keyDown_of_other (other : ∀ i, k ≠ positiveKey i ∧ k ≠ negativeKey i) :
    (world.keyDown k).vel = world.vel := by
  obtain ⟨⟨shift, space⟩, ⟨a, d⟩, w, s⟩ := buttons_of_other other
  simp only [keyDown, shift, space, a, d, w, s, if_false]
  split_ifs <;> rfl

theorem vel_keyUp_of_other (other : ∀ i, k ≠ positiveKey i ∧ k ≠ negativeKey i) :
    (world.keyUp k).vel = world.vel := by
  obtain ⟨vertical, sideways, forward⟩ := buttons_of_other other
  rw [keyUp, if_neg (not_or.mpr vertical), if_neg (not_or.mpr sideways),
    if_neg (not_or.mpr forward)]

/-- A key that goes down moves the component that it belongs to. -/
theorem vel_keyDown (k : ℤ) (i : Fin 3) :
    (world.keyDown k).vel i = world.vel i + speed * (if k = positiveKey i then 1 else 0) -
      speed * (if k = negativeKey i then 1 else 0) := by
  rcases key_cases k with ⟨j, rfl⟩ | ⟨j, rfl⟩ | other
  · simp only [keyDown_positiveKey, if_neg (positiveKey_ne_negativeKey j i), positiveKey_inj]
    rcases eq_or_ne j i with rfl | ne
    · simp [accelerate]
    · simp [accelerate, ne, ne.symm]
  · simp only [keyDown_negativeKey, if_neg (positiveKey_ne_negativeKey i j).symm, negativeKey_inj]
    rcases eq_or_ne j i with rfl | ne
    · simp [accelerate, sub_eq_add_neg]
    · simp [accelerate, ne, ne.symm]
  · rw [vel_keyDown_of_other world other, if_neg (other i).1, if_neg (other i).2]
    simp

/-- A key that goes up resets it. -/
theorem vel_keyUp (k : ℤ) (i : Fin 3) :
    (world.keyUp k).vel i = if k = positiveKey i ∨ k = negativeKey i then 0 else world.vel i := by
  rcases key_cases k with ⟨j, rfl⟩ | ⟨j, rfl⟩ | other
  · simp only [keyUp_positiveKey, positiveKey_inj, or_iff_left (positiveKey_ne_negativeKey j i)]
    simp [stop, update_apply, eq_comm]
  · simp only [keyUp_negativeKey, negativeKey_inj,
      or_iff_right (positiveKey_ne_negativeKey i j).symm]
    simp [stop, update_apply, eq_comm]
  · rw [vel_keyUp_of_other world other, if_neg (not_or.mpr (other i))]

end World

/-! ### The table -/

/-- The keys that the table has down. -/
def tableDown (keystate : Fin 256 → Bool) (k : ℤ) : Bool :=
  if inside : 0 ≤ k ∧ k < 256 then keystate ⟨k.toNat, by omega⟩ else false

variable {window window' : Window} {m : Message} {past messages : List Message}
  {keystate : Fin 256 → Bool} {n : ℕ} {down : ℤ → Bool} {k : ℤ} {i : Fin 3}

theorem tableDown_natCast (inside : n < 256) : tableDown keystate n = keystate ⟨n, inside⟩ :=
  dif_pos (show 0 ≤ (n : ℤ) ∧ (n : ℤ) < 256 by omega)

theorem tableDown_update (inside : n < 256) (b : Bool) :
    tableDown (update keystate ⟨n, inside⟩ b) = update (tableDown keystate) n b := by
  funext k
  rcases eq_or_ne k n with rfl | ne
  · rw [tableDown_natCast inside, update_self, update_self]
  · rw [update_of_ne ne]
    unfold tableDown
    split
    · exact update_of_ne (fun same => ne (by rw [Fin.mk.injEq] at same; omega)) _ _
    · rfl

/-- **What a message does.** The table follows the message, and the world sees it if the table
changes. -/
theorem wndProc_eq_some (next : wndProc window m = some window') :
    tableDown window'.keystate = update (tableDown window.keystate) m.wParam m.isDown ∧
      window'.world = if tableDown window.keystate m.wParam = m.isDown then window.world
        else if m.isDown then window.world.keyDown m.wParam else window.world.keyUp m.wParam := by
  by_cases inside : m.wParam < 256
  · rw [wndProc, dif_pos inside] at next
    rw [← tableDown_update inside, tableDown_natCast inside]
    cases goesDown : m.isDown <;> cases state : window.keystate ⟨m.wParam, inside⟩ <;>
      simp only [goesDown, state, Bool.false_eq_true, if_true, if_false, ne_eq, not_true_eq_false,
        not_false_eq_true, Bool.true_eq_false, Option.some.injEq] at next <;>
      subst next
    · exact ⟨by rw [← state, update_eq_self], rfl⟩
    · exact ⟨rfl, rfl⟩
    · exact ⟨rfl, rfl⟩
    · exact ⟨by rw [← state, update_eq_self], rfl⟩
  · rw [wndProc, dif_neg inside] at next
    cases next

theorem held_concat (past : List Message) (m : Message) :
    held (past ++ [m]) = update (held past) m.wParam m.isDown := by
  funext k
  rw [held, List.foldl_concat, update_apply]
  exact if_congr eq_comm rfl rfl

/-- **Run lemma.** The table has the keys down that are held. -/
theorem tableDown_of_run (runs : run wndProc .start past = some window) :
    tableDown window.keystate = held past := by
  have start : tableDown Window.start.keystate = held [] := by
    funext k
    unfold tableDown
    split <;> rfl
  refine run_history_invariant (fun past window => tableDown window.keystate = held past) ?_ start
    along_true runs
  intro past window m window' table _ next
  rw [(wndProc_eq_some next).1, table, held_concat]

/-! ### The velocity -/

/-- The velocity is that of the keys that are down. -/
def Reflects (window : Window) : Prop :=
  ∀ i, window.world.vel i = heldVelocity (tableDown window.keystate) i

/-- A key goes up while it and the other key of its axis are down. -/
def ReleasesOpposed (down : ℤ → Bool) (m : Message) : Prop :=
  m.isDown = false ∧ ∃ i, down (positiveKey i) ∧ down (negativeKey i) ∧
    ((m.wParam : ℤ) = positiveKey i ∨ (m.wParam : ℤ) = negativeKey i)

theorem heldVelocity_press (up : down k = false) : heldVelocity (update down k true) i =
    heldVelocity down i + speed * (if k = positiveKey i then 1 else 0) -
      speed * (if k = negativeKey i then 1 else 0) := by
  have apart := positiveKey_ne_negativeKey i i
  unfold heldVelocity
  by_cases positive : k = positiveKey i
  · subst positive
    rw [update_self, update_of_ne apart.symm, up, if_neg apart]
    simp only [if_true, Bool.false_eq_true, if_false]
    ring
  · rw [update_of_ne (Ne.symm positive), if_neg positive]
    by_cases negative : k = negativeKey i
    · subst negative
      rw [update_self, up]
      simp only [if_true, Bool.false_eq_true, if_false]
      ring
    · rw [update_of_ne (Ne.symm negative), if_neg negative]
      ring

/-- Without its opposite, a key leaves no velocity behind. -/
theorem heldVelocity_release (goesUp : down k = true) :
    (heldVelocity (update down k false) i =
      if k = positiveKey i ∨ k = negativeKey i then 0 else heldVelocity down i) ↔
    ¬ (down (positiveKey i) ∧ down (negativeKey i) ∧ (k = positiveKey i ∨ k = negativeKey i)) := by
  have apart := positiveKey_ne_negativeKey i i
  unfold heldVelocity
  by_cases positive : k = positiveKey i
  · subst positive
    rw [update_self, update_of_ne apart.symm]
    cases down (negativeKey i) <;> simp [goesUp, speed]
  · rw [update_of_ne (Ne.symm positive)]
    by_cases negative : k = negativeKey i
    · subst negative
      rw [update_self]
      cases down (positiveKey i) <;> simp [goesUp, speed]
    · rw [update_of_ne (Ne.symm negative)]
      simp [positive, negative]

/-- **Step lemma.** A message keeps the velocity right exactly if it releases no key whose opposite
is held. -/
theorem reflects_step_iff (reflects : Reflects window) (next : wndProc window m = some window') :
    Reflects window' ↔ ¬ ReleasesOpposed (tableDown window.keystate) m := by
  obtain ⟨table, world⟩ := wndProc_eq_some next
  have before (i : Fin 3) : window.world.vel i = heldVelocity (tableDown window.keystate) i :=
    reflects i
  unfold Reflects ReleasesOpposed
  rw [table, world]
  split
  · rename_i same
    rw [← same, update_eq_self]
    refine iff_of_true reflects ?_
    rintro ⟨up, i, positive, negative, released | released⟩
    · exact absurd (released ▸ positive) (by simp [up])
    · exact absurd (released ▸ negative) (by simp [up])
  · rename_i differs
    cases goesDown : m.isDown
    · rw [goesDown, Bool.not_eq_false] at differs
      simp only [Bool.false_eq_true, if_false, World.vel_keyUp, before, true_and, not_exists]
      exact forall_congr' fun i => eq_comm.trans (heldVelocity_release differs)
    · rw [goesDown, Bool.not_eq_true] at differs
      refine iff_of_true (fun i => ?_) (by simp)
      rw [if_pos rfl, World.vel_keyDown, before, heldVelocity_press differs]

theorem wndProc_isSome (inside : m.wParam < 256) : ∃ window', wndProc window m = some window' := by
  rw [wndProc, dif_pos inside]
  dsimp only
  split_ifs <;> exact ⟨_, rfl⟩

/-- Messages with codes of the table are handled, one after another. -/
theorem run_isSome_iff : (∃ window, run wndProc .start messages = some window) ↔
    ∀ m ∈ messages, m.wParam < 256 :=
  exists_run_iff (fun _ => True)
    (fun _ _ _ inside => (wndProc_isSome inside).imp fun _ next => ⟨next, trivial⟩)
    (fun _ _ _ outside => dif_neg outside) trivial

theorem not_releasesOpposed_of_refused (refused : wndProc window m = none) :
    ¬ ReleasesOpposed down m := by
  have codes : ∀ i, positiveKey i < 256 ∧ negativeKey i < 256 := by decide
  rintro ⟨-, i, -, -, key⟩
  have inside : m.wParam < 256 := by
    have := codes i
    omega
  obtain ⟨window', next⟩ := @wndProc_isSome window m inside
  exact Option.some_ne_none _ (next.symm.trans refused)

theorem reflects_start : Reflects .start := by
  intro i
  simp [Window.start, heldVelocity, tableDown]

/-- The exact condition, in terms of the states of the run. -/
theorem always_reflects_iff : Always wndProc Reflects .start messages ↔
    Along wndProc (fun window m => ¬ ReleasesOpposed (tableDown window.keystate) m) .start
      messages :=
  always_iff_along_of_refused Reflects Reflects (fun _ _ => True) _
    (fun _ _ _ reflects _ next => reflects_step_iff reflects next)
    (fun _ _ _ reflects _ meets next => (reflects_step_iff reflects next).mpr meets)
    (fun _ _ _ _ refused => not_releasesOpposed_of_refused refused)
    reflects_start reflects_start along_true

/-- **The velocity reflects the held keys** after every message of a sequence, exactly if no message
releases a key of an axis while both keys of the axis are held. -/
theorem velocity_iff (messages : List Message) :
    (∀ past later window, messages = past ++ later → run wndProc .start past = some window →
      ∀ i, window.world.vel i = heldVelocity (held past) i) ↔
    ∀ past m later, messages = past ++ m :: later → (∀ m' ∈ past, m'.wParam < 256) →
      ¬ ReleasesOpposed (held past) m := by
  have conditions := @always_reflects_iff messages
  rw [always_iff, along_iff] at conditions
  constructor
  · intro holds
    have along := conditions.mp fun past later window split runs i => by
      rw [tableDown_of_run runs]
      exact holds past later window split runs i
    intro past m later split inside
    obtain ⟨window, runs⟩ := run_isSome_iff.mpr inside
    rw [← tableDown_of_run runs]
    exact along past m later window split runs
  · intro meets
    have always := conditions.mpr fun past m later window split runs => by
      rw [tableDown_of_run runs]
      exact meets past m later split (run_isSome_iff.mp ⟨window, runs⟩)
    intro past later window split runs i
    rw [← tableDown_of_run runs]
    exact always past later window split runs i

/-- The A key goes down, the D key goes down, and the A key goes up. -/
def overlapping : List Message := [⟨.keyDown, 65⟩, ⟨.keyDown, 68⟩, ⟨.keyUp, 65⟩]

/-- Then the D key is held and nothing moves. -/
theorem not_velocity_overlapping : ¬ ∀ messages past later window, messages = past ++ later →
    run wndProc .start past = some window →
      ∀ i, window.world.vel i = heldVelocity (held past) i := by
  intro reflects
  have stopped := reflects overlapping overlapping [] _ rfl rfl 0
  exact absurd stopped (by decide +kernel)

end Sqwar.Input
