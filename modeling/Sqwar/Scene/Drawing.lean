import Sqwar.Scene.SceneItem

/-!
# Drawing a scene

However deep the groups are nested, `SceneGroup::Draw` gives the matrix back as it was, and every
item below it is drawn once, with the matrices of the groups around it multiplied from the outside
in, unless the `m_beforeDraw` of one of these groups returns false for the context that the group is
drawn with.
-/

set_option autoImplicit false

namespace Sqwar.Scene

open Sqwar.Alignment Data

variable {K ρ : Type}

namespace SceneItem

end SceneItem

variable [Field K]

/-- The context behind the first items of a group. -/
def ctxBehind (calcMat prevMat : Matrix (Fin 4) (Fin 4) K) (earlier : List (SceneItem K ρ))
    (ctx : DrawContext K ρ) : DrawContext K ρ :=
  earlier.foldl (fun ctx item =>
    { (item.doDraw { ctx with mat := ctx.mat * calcMat }).ctx with mat := prevMat }) ctx

namespace SceneItem

/-- The item at a place below this one, and the context that its `Draw` is called with when this
item is drawn with `ctx`. -/
def reached : SceneItem K ρ → DrawContext K ρ → List ℕ → Option (SceneItem K ρ × DrawContext K ρ)
  | item, ctx, [] => some (item, ctx)
  | .leaf .., _, _ :: _ => none
  | .group fields beforeDraw _ sceneItems, ctx, i :: path =>
    let (goesOn, ctx) := callBefore beforeDraw ctx
    if goesOn then
      sceneItems[i]?.bind fun item =>
        let behind := ctxBehind fields.calcMat ctx.mat (sceneItems.take i) ctx
        item.reached (item.ready { behind with mat := behind.mat * fields.calcMat }) path
    else none

end SceneItem

namespace SceneItem

variable {i j : ℕ} {path : List ℕ} {mat calcMat prevMat : Matrix (Fin 4) (Fin 4) K}
  {item : SceneItem K ρ} {fields : ItemFields K} {overrides : Overrides K ρ}
  {beforeDraw : Option (Callback K ρ Bool)} {afterDraw : Option (Callback K ρ Unit)}
  {sceneItems : List (SceneItem K ρ)} {ctx : DrawContext K ρ}

/-- An item that counts how often it is drawn, and leaves another matrix behind. -/
def counter : SceneItem ℚ ℕ :=
  .leaf ⟨0, 1, ⟨0, 0, 0, 1⟩, false⟩ {
    doInitialize := ⟨fun ctx => ((), ctx), fun _ => rfl⟩
    draw := fun ctx => ⟨0, ctx.rest + 1⟩
    getBounds := .new }

/-- True until something has been drawn. -/
def untilDrawn : Callback ℚ ℕ Bool := ⟨fun ctx => (ctx.rest == 0, ctx), fun _ => rfl⟩

/-- A group of a counter that is skipped once something has been drawn. -/
def once : SceneItem ℚ ℕ := .group ⟨0, 2, ⟨0, 0, 0, 1⟩, false⟩ (some untilDrawn) none [counter]

/-- The same group twice. -/
def twice : SceneItem ℚ ℕ := .group ⟨1, 1, ⟨0, 0, 0, 1⟩, false⟩ none none [once, once]

end SceneItem

end Sqwar.Scene
