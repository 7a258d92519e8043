import Sqwar.Alignment.Gmtl
import Sqwar.Data.PathLog

/-!
# Scene items

A scene is a tree of groups. Every item has an offset, a scale and a rotation, which make up its
matrix. `SceneGroup::Draw` multiplies the matrix of the context by that of the group for every child
and puts the old one back behind it.
-/

set_option autoImplicit false

namespace Sqwar.Scene

open Sqwar.Alignment Data

variable {K ρ : Type} [Field K]

/-- `makeScale`. -/
def makeScale (scale : Fin 3 → K) : Matrix (Fin 4) (Fin 4) K :=
  !![scale 0, 0, 0, 0;
    0, scale 1, 0, 0;
    0, 0, scale 2, 0;
    0, 0, 0, 1]

/-- `AABox`. -/
@[ext]
structure AABox (K : Type) where
  mMin : Fin 3 → K
  mMax : Fin 3 → K
  mEmpty : Bool
  deriving DecidableEq

/-- The constructor of an empty box. -/
def AABox.new : AABox K := ⟨0, 0, true⟩

/-- `DrawContext`: its matrix, and its other fields with all else that drawing can change. -/
structure DrawContext (K ρ : Type) where
  mat : Matrix (Fin 4) (Fin 4) K
  rest : ρ

/-- A function that is called with the context and leaves its matrix alone. -/
structure Callback (K ρ α : Type) where
  call : DrawContext K ρ → α × DrawContext K ρ
  keeps : ∀ ctx, (call ctx).2.mat = ctx.mat

/-- The fields of every `SceneItem` that place it, and `m_isInitialized`. -/
structure ItemFields (K : Type) where
  offset : Fin 3 → K
  scale : Fin 3 → K
  rotate : Quat K
  isInitialized : Bool

/-- `CalcMat`. -/
def ItemFields.calcMat (fields : ItemFields K) : Matrix (Fin 4) (Fin 4) K :=
  makeTrans fields.offset * makeRot fields.rotate * makeScale fields.scale

/-- What a class of items other than groups overrides. Its `Draw` may change the whole context. -/
structure Overrides (K ρ : Type) where
  doInitialize : Callback K ρ Unit
  draw : DrawContext K ρ → DrawContext K ρ
  getBounds : AABox K

/-- `SceneItem`: a `SceneGroup` with its functions and its items, or any other item. -/
inductive SceneItem (K ρ : Type)
  | leaf (fields : ItemFields K) (overrides : Overrides K ρ)
  | group (fields : ItemFields K) (beforeDraw : Option (Callback K ρ Bool))
      (afterDraw : Option (Callback K ρ Unit)) (sceneItems : List (SceneItem K ρ))

/-! ### Drawing -/

/-- What is noted of a traversal at an item: it is drawn with a matrix, or it is a group whose
`m_beforeDraw` returns false. -/
inductive Outcome (K : Type)
  | drawn (mat : Matrix (Fin 4) (Fin 4) K)
  | skipped

/-- What drawing leaves behind: the items, the context and what was noted. -/
structure Traversal (T K ρ : Type) where
  drawn : T
  ctx : DrawContext K ρ
  events : PathLog (Outcome K)

/-- `m_beforeDraw(ctx)`, true without such a function. -/
def callBefore (beforeDraw : Option (Callback K ρ Bool)) (ctx : DrawContext K ρ) :
    Bool × DrawContext K ρ :=
  match beforeDraw with
  | some f => f.call ctx
  | none => (true, ctx)

/-- `m_afterDraw(ctx)`, if there is such a function. -/
def callAfter (afterDraw : Option (Callback K ρ Unit)) (ctx : DrawContext K ρ) : DrawContext K ρ :=
  match afterDraw with
  | some f => (f.call ctx).2
  | none => ctx

namespace SceneItem

/-- The first half of `DoDraw`. A group does not override `Initialize`. -/
def ready : SceneItem K ρ → DrawContext K ρ → DrawContext K ρ
  | .leaf fields overrides, ctx =>
    if fields.isInitialized then ctx else (overrides.doInitialize.call ctx).2
  | .group .., ctx => ctx

/-- `m_isInitialized = true`. -/
def initialized : SceneItem K ρ → SceneItem K ρ
  | .leaf fields overrides => .leaf { fields with isInitialized := true } overrides
  | .group fields beforeDraw afterDraw sceneItems =>
    .group { fields with isInitialized := true } beforeDraw afterDraw sceneItems

mutual

/-- `Draw`. -/
def draw : SceneItem K ρ → DrawContext K ρ → Traversal (SceneItem K ρ) K ρ
  | .leaf fields overrides, ctx =>
    ⟨.leaf fields overrides, overrides.draw ctx, [([], .drawn ctx.mat)]⟩
  | .group fields beforeDraw afterDraw sceneItems, ctx =>
    let (goesOn, ctx) := callBefore beforeDraw ctx
    if goesOn then
      let items := drawItems fields.calcMat ctx.mat 0 sceneItems ctx
      ⟨.group fields beforeDraw afterDraw items.drawn, callAfter afterDraw items.ctx, items.events⟩
    else ⟨.group fields beforeDraw afterDraw sceneItems, ctx, [([], .skipped)]⟩

/-- The loop of `SceneGroup::Draw` from an index on. The body of `DoDraw` is written out;
`m_isInitialized`, which `Draw` does not read, is set behind it. -/
def drawItems (calcMat prevMat : Matrix (Fin 4) (Fin 4) K) (i : ℕ) :
    List (SceneItem K ρ) → DrawContext K ρ → Traversal (List (SceneItem K ρ)) K ρ
  | [], ctx => ⟨[], ctx, []⟩
  | item :: sceneItems, ctx =>
    let first := item.draw (item.ready { ctx with mat := ctx.mat * calcMat })
    let others := drawItems calcMat prevMat (i + 1) sceneItems { first.ctx with mat := prevMat }
    ⟨first.drawn.initialized :: others.drawn, others.ctx,
      first.events.under i ++ others.events⟩

end

/-- `DoDraw`. -/
def doDraw (item : SceneItem K ρ) (ctx : DrawContext K ρ) : Traversal (SceneItem K ρ) K ρ :=
  let first := item.draw (item.ready ctx)
  { first with drawn := first.drawn.initialized }

end SceneItem

end Sqwar.Scene
