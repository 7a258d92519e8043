import Mathlib.Data.List.TakeWhile
import Sqwar.Data.BoxImage
import Sqwar.Scene.SceneItem

/-!
# The bounds of groups

`SceneGroup::GetBounds` unites the boxes of the items and moves the lowest and the highest corner of
the union with the group. `AABoxAdd` does not ask whether the box that is added is empty, and two
corners of a box that is turned or mirrored do not bound it.
-/

set_option autoImplicit false

namespace Sqwar.Scene

open Sqwar.Alignment Data
open scoped Matrix

variable {K ρ : Type} [Field K] [LinearOrder K]

namespace AABox

/-- `isInVolume` of a point. -/
def isInVolume (container : AABox K) (pt : Fin 3 → K) : Prop :=
  container.mEmpty = false ∧ (∀ i, container.mMin i ≤ pt i) ∧ ∀ i, pt i ≤ container.mMax i

/-- `AABoxAdd`. -/
def add (aab1 aab2 : AABox K) : AABox K :=
  if aab1.mEmpty then aab2
  else
    { aab1 with
      mMin := fun i => if aab2.mMin i < aab1.mMin i then aab2.mMin i else aab1.mMin i
      mMax := fun i => if aab2.mMax i > aab1.mMax i then aab2.mMax i else aab1.mMax i }

/-- A union moved with a group: `setMin` and `setMax` of the moved corners. -/
def moved (fields : ItemFields K) (bnds : AABox K) : AABox K :=
  { bnds with mMin := xform fields.calcMat bnds.mMin, mMax := xform fields.calcMat bnds.mMax }

end AABox

namespace SceneItem

mutual

/-- `GetBounds`. -/
def getBounds : SceneItem K ρ → AABox K
  | .leaf _ overrides => overrides.getBounds
  | .group fields _ _ sceneItems => (addBounds .new sceneItems).moved fields

/-- The loop of `SceneGroup::GetBounds`. -/
def addBounds (bnds : AABox K) : List (SceneItem K ρ) → AABox K
  | [] => bnds
  | item :: sceneItems => addBounds (bnds.add item.getBounds) sceneItems

end

end SceneItem

/-- The boxes of some items. -/
def boxesOf (sceneItems : List (SceneItem K ρ)) : List (AABox K) :=
  sceneItems.map SceneItem.getBounds

/-- The boxes from the first one on that is not empty. -/
def counted (boxes : List (AABox K)) : List (AABox K) := boxes.dropWhile (·.mEmpty)

/-- The boxes that are not empty. -/
def occupied (boxes : List (AABox K)) : List (AABox K) := boxes.filter fun box => !box.mEmpty

/-- The lowest coordinates of the corners of some boxes. -/
def lowest (boxes : List (AABox K)) : Fin 3 → K := (boxes.map (·.mMin)).min?.getD 0

/-- The highest coordinates. -/
def highest (boxes : List (AABox K)) : Fin 3 → K := (boxes.map (·.mMax)).max?.getD 0

/-- The rotation of a group after its scale. -/
def ItemFields.turn (fields : ItemFields K) : Matrix (Fin 3) (Fin 3) K :=
  fields.rotate.rotation * Matrix.diagonal fields.scale

/-- The bounds of a group are well-formed and contain its items, and its empty items do not enlarge
them. -/
structure ContainsItems (fields : ItemFields K) (beforeDraw : Option (Callback K ρ Bool))
    (afterDraw : Option (Callback K ρ Unit)) (sceneItems : List (SceneItem K ρ)) : Prop where
  ordered : ∀ i, (SceneItem.group fields beforeDraw afterDraw sceneItems).getBounds.mMin i ≤
    (SceneItem.group fields beforeDraw afterDraw sceneItems).getBounds.mMax i
  contains : ∀ item ∈ sceneItems, ∀ pt, item.getBounds.isInVolume pt →
    (SceneItem.group fields beforeDraw afterDraw sceneItems).getBounds.isInVolume
      (xform fields.calcMat pt)
  notEnlarged : ∀ pt,
    (SceneItem.group fields beforeDraw afterDraw sceneItems).getBounds.isInVolume pt →
      (SceneItem.group fields beforeDraw afterDraw
        (sceneItems.filter fun item => !item.getBounds.mEmpty)).getBounds.isInVolume pt

/-- When two corners bound some boxes that are turned. In every row of the matrix, the negative
entries take less away than the positive ones add. -/
structure CornersBound (turn : Matrix (Fin 3) (Fin 3) K) (boxes : List (AABox K)) : Prop where
  low : ∀ box ∈ boxes, box.mEmpty = false → ∀ r, (turn r)⁻ ⬝ᵥ (box.mMax - lowest (counted boxes)) ≤
    (turn r)⁺ ⬝ᵥ (box.mMin - lowest (counted boxes))
  high : ∀ box ∈ boxes, box.mEmpty = false → ∀ r,
    (turn r)⁻ ⬝ᵥ (highest (counted boxes) - box.mMin) ≤
      (turn r)⁺ ⬝ᵥ (highest (counted boxes) - box.mMax)
  emptyLow : ∀ r, turn r ⬝ᵥ (lowest (occupied boxes) - lowest (counted boxes)) ≤ 0
  emptyHigh : ∀ r, turn r ⬝ᵥ (highest (counted boxes) - highest (occupied boxes)) ≤ 0
  allEmpty : (∀ box ∈ boxes, box.mEmpty = true) → ∀ last ∈ boxes.getLast?, ∀ r,
    0 ≤ turn r ⬝ᵥ (last.mMax - last.mMin)

/-! ### The union -/

omit [Field K] in
theorem AABox.isInVolume_iff_mem_Icc {box : AABox K} {pt : Fin 3 → K}
    (isFull : box.mEmpty = false) : box.isInVolume pt ↔ pt ∈ Set.Icc box.mMin box.mMax :=
  and_iff_right isFull

section Union

variable {first bnds box : AABox K} {boxes rest : List (AABox K)}

omit [Field K] in
theorem AABox.add_of_occupied (isFull : first.mEmpty = false) :
    first.add box = ⟨first.mMin ⊓ box.mMin, first.mMax ⊔ box.mMax, false⟩ := by
  rw [AABox.add, isFull, if_neg Bool.false_ne_true]
  refine AABox.ext (funext fun i => ?_) (funext fun i => ?_) rfl
  · exact (min_def_lt _ _).symm.trans (min_comm _ _)
  · exact (max_def_lt _ _).symm

omit [Field K] in
theorem foldl_add_of_occupied (isFull : first.mEmpty = false) : rest.foldl AABox.add first =
    ⟨(rest.map (·.mMin)).foldl (· ⊓ ·) first.mMin, (rest.map (·.mMax)).foldl (· ⊔ ·) first.mMax,
      false⟩ := by
  induction rest generalizing first with
  | nil => exact AABox.ext rfl rfl isFull
  | cons box rest ih =>
    rw [List.foldl_cons, ih (by rw [AABox.add_of_occupied isFull]), AABox.add_of_occupied isFull]
    rfl

omit [Field K] [LinearOrder K] in
theorem counted_cons_of_empty (isEmpty : box.mEmpty = true) :
    counted (box :: boxes) = counted boxes := List.dropWhile_cons_of_pos isEmpty

omit [Field K] [LinearOrder K] in
theorem counted_cons_of_occupied (isFull : box.mEmpty = false) :
    counted (box :: boxes) = box :: boxes := List.dropWhile_cons_of_neg (by simp [isFull])

/-- **The union**: the last box if all are empty, and otherwise the corners of the boxes from the
first one on that is not empty. -/
theorem foldl_add_of_empty (isEmpty : bnds.mEmpty = true) : boxes.foldl AABox.add bnds =
    if counted boxes = [] then boxes.getLast?.getD bnds
    else ⟨lowest (counted boxes), highest (counted boxes), false⟩ := by
  induction boxes generalizing bnds with
  | nil => rfl
  | cons box boxes ih =>
    rw [List.foldl_cons, AABox.add, if_pos isEmpty]
    cases state : box.mEmpty with
    | true =>
      rw [ih state, counted_cons_of_empty state, List.getLast?_cons]
      rfl
    | false =>
      rw [counted_cons_of_occupied state, foldl_add_of_occupied state,
        if_neg (List.cons_ne_nil _ _)]
      rfl

omit [Field K] [LinearOrder K] in
theorem counted_eq_nil_iff : counted boxes = [] ↔ ∀ box ∈ boxes, box.mEmpty = true :=
  List.dropWhile_eq_nil_iff

/-- No box begins below the lowest coordinates. -/
theorem lowest_le (member : box ∈ boxes) : lowest boxes ≤ box.mMin := by
  have : Std.LawfulOrderInf (Fin 3 → K) := ⟨fun _ _ _ => le_inf_iff⟩
  have among := List.mem_map_of_mem (f := AABox.mMin) member
  obtain ⟨least, isLeast⟩ := Option.isSome_iff_exists.mp (List.isSome_min?_of_mem among)
  rw [lowest, isLeast]
  exact (List.le_min?_iff isLeast).mp le_rfl _ among

/-- No box ends above the highest coordinates. -/
theorem le_highest (member : box ∈ boxes) : box.mMax ≤ highest boxes := by
  have : Std.LawfulOrderSup (Fin 3 → K) := ⟨fun _ _ _ => sup_le_iff⟩
  have among := List.mem_map_of_mem (f := AABox.mMax) member
  obtain ⟨greatest, isGreatest⟩ := Option.isSome_iff_exists.mp (List.isSome_max?_of_mem among)
  rw [highest, isGreatest]
  exact (List.max?_le_iff isGreatest).mp le_rfl _ among

omit [Field K] [LinearOrder K] in
/-- Without empty boxes, all count. -/
theorem counted_occupied (boxes : List (AABox K)) : counted (occupied boxes) = occupied boxes := by
  refine List.dropWhile_eq_self_iff.mpr fun inside => ?_
  have isFull := List.of_mem_filter (List.getElem_mem inside)
  simpa using isFull

end Union

/-! ### The matrix -/

section Turn

variable [IsStrictOrderedRing K] {fields : ItemFields K}

/-- **`CalcMat`** scales a point, turns it and moves it. -/
theorem xform_calcMat (pt : Fin 3 → K) :
    xform fields.calcMat pt = fields.turn.mulVec pt + fields.offset := by
  have last : (fields.calcMat *ᵥ ![pt 0, pt 1, pt 2, 1]) 3 = 1 := by
    simp [ItemFields.calcMat, makeTrans, makeRot, makeScale, Matrix.mul_apply, Matrix.mulVec,
      dotProduct, Fin.sum_univ_four]
  have far : ¬ |(1 : K) - 0| ≤ 1 / 10000 := by
    norm_num
  rw [xform, last, if_neg far]
  ext i
  fin_cases i <;>
    simp [ItemFields.calcMat, ItemFields.turn, makeTrans, makeRot, makeScale, Matrix.mul_apply,
      Matrix.mulVec, dotProduct, Fin.sum_univ_four, Fin.sum_univ_three]

/-- A group that bounds some boxes: what is inside it, in the place where the union is moved to. -/
theorem isInVolume_moved_iff {lo hi pt : Fin 3 → K} :
    (AABox.moved fields ⟨lo, hi, false⟩).isInVolume (xform fields.calcMat pt) ↔
      fields.turn.mulVec lo ≤ fields.turn.mulVec pt ∧
        fields.turn.mulVec pt ≤ fields.turn.mulVec hi := by
  simp [AABox.isInVolume, AABox.moved, xform_calcMat, Pi.le_def]

end Turn

/-! ### Groups -/

section Group

/-- The loop adds the boxes of the items. -/
theorem addBounds_eq (bnds : AABox K) (sceneItems : List (SceneItem K ρ)) :
    SceneItem.addBounds bnds sceneItems = (boxesOf sceneItems).foldl AABox.add bnds := by
  induction sceneItems generalizing bnds with
  | nil => rfl
  | cons item sceneItems ih => exact ih _

/-- **The bounds of a group**, by the boxes of its items. -/
theorem getBounds_group (fields : ItemFields K) (beforeDraw : Option (Callback K ρ Bool))
    (afterDraw : Option (Callback K ρ Unit)) (sceneItems : List (SceneItem K ρ)) :
    (SceneItem.group fields beforeDraw afterDraw sceneItems).getBounds =
      AABox.moved fields ((boxesOf sceneItems).foldl AABox.add .new) := by
  rw [SceneItem.getBounds, addBounds_eq]

/-- The boxes of the items that are not empty. -/
theorem boxesOf_filter (sceneItems : List (SceneItem K ρ)) :
    boxesOf (sceneItems.filter fun item => !item.getBounds.mEmpty) =
      occupied (boxesOf sceneItems) := by
  rw [boxesOf, boxesOf, occupied, List.filter_map]
  rfl

end Group

/-! ### What two corners bound -/

section Corners

variable [IsStrictOrderedRing K] {fields : ItemFields K}
  {beforeDraw : Option (Callback K ρ Bool)} {afterDraw : Option (Callback K ρ Unit)}
  {sceneItems : List (SceneItem K ρ)} {turn : Matrix (Fin 3) (Fin 3) K} {boxes : List (AABox K)}

/-- **All boxes lie between the images of two points** if in every row the negative entries take
less away than the positive ones add. -/
theorem forall_box_mem_iff {lo hi : Fin 3 → K}
    (wellFormed : ∀ box ∈ boxes, box.mEmpty = false → box.mMin ≤ box.mMax) :
    (∀ box ∈ boxes, ∀ pt, box.isInVolume pt →
        turn.mulVec lo ≤ turn.mulVec pt ∧ turn.mulVec pt ≤ turn.mulVec hi) ↔
      (∀ box ∈ boxes, box.mEmpty = false →
          ∀ r, (turn r)⁻ ⬝ᵥ (box.mMax - lo) ≤ (turn r)⁺ ⬝ᵥ (box.mMin - lo)) ∧
        ∀ box ∈ boxes, box.mEmpty = false →
          ∀ r, (turn r)⁻ ⬝ᵥ (hi - box.mMin) ≤ (turn r)⁺ ⬝ᵥ (hi - box.mMax) := by
  constructor
  · intro bounds
    have rows := fun box member isFull =>
      (forall_mulVec_mem_iff (wellFormed box member isFull)).mp fun pt inside =>
        bounds box member pt ⟨isFull, inside.1, inside.2⟩
    exact ⟨fun box member isFull r => (rows box member isFull r).1,
      fun box member isFull r => (rows box member isFull r).2⟩
  · rintro ⟨low, high⟩ box member pt ⟨isFull, above, below⟩
    exact (forall_mulVec_mem_iff (wellFormed box member isFull)).mpr
      (fun r => ⟨low box member isFull r, high box member isFull r⟩) pt ⟨above, below⟩

/-- When the corners of a box that is moved are in order. -/
theorem moved_ordered_iff {box : AABox K} :
    (∀ i, (box.moved fields).mMin i ≤ (box.moved fields).mMax i) ↔
      ∀ r, 0 ≤ fields.turn r ⬝ᵥ (box.mMax - box.mMin) := by
  simp only [AABox.moved, xform_calcMat, Pi.add_apply, add_le_add_iff_right, dotProduct_sub,
    sub_nonneg]
  rfl

/-- **If all items are empty**, the last box is moved, and nothing is inside. -/
theorem containsItems_iff_of_empty (allEmpty : ∀ box ∈ boxesOf sceneItems, box.mEmpty = true) :
    ContainsItems fields beforeDraw afterDraw sceneItems ↔
      CornersBound fields.turn (boxesOf sceneItems) := by
  have none_counted := counted_eq_nil_iff.mpr allEmpty
  have none_occupied : occupied (boxesOf sceneItems) = [] :=
    List.filter_eq_nil_iff.mpr fun box member => by simp [allEmpty box member]
  have bounds := getBounds_group fields beforeDraw afterDraw sceneItems
  rw [foldl_add_of_empty rfl, if_pos none_counted] at bounds
  have isEmpty :
      (SceneItem.group fields beforeDraw afterDraw sceneItems).getBounds.mEmpty = true := by
    rw [bounds]
    cases isLast : (boxesOf sceneItems).getLast? with
    | none => rfl
    | some last => exact allEmpty last (List.mem_of_getLast? isLast)
  constructor
  · intro contained
    refine ⟨fun box member isFull => ?_, fun box member isFull => ?_, fun r => ?_, fun r => ?_,
      fun _ last isLast => ?_⟩
    · exact absurd (allEmpty box member) (by simp [isFull])
    · exact absurd (allEmpty box member) (by simp [isFull])
    · rw [none_counted, none_occupied, sub_self, dotProduct_zero]
    · rw [none_counted, none_occupied, sub_self, dotProduct_zero]
    · have ordered := contained.ordered
      rw [bounds, Option.mem_def.mp isLast] at ordered
      exact moved_ordered_iff.mp ordered
  · intro bound
    refine ⟨?_, fun item member pt inside => ?_, fun pt inside => ?_⟩
    · rw [bounds]
      refine moved_ordered_iff.mpr fun r => ?_
      cases isLast : (boxesOf sceneItems).getLast? with
      | none => simp [AABox.new]
      | some last => exact bound.allEmpty allEmpty last isLast r
    · exact absurd (allEmpty _ (List.mem_map_of_mem member)) (by simp [inside.1])
    · exact absurd isEmpty (by simp [inside.1])

omit [IsStrictOrderedRing K] in
/-- The bounds of a group with its empty items left out. -/
theorem getBounds_filter (fields : ItemFields K) (beforeDraw : Option (Callback K ρ Bool))
    (afterDraw : Option (Callback K ρ Unit)) (someFull : counted (boxesOf sceneItems) ≠ []) :
    (SceneItem.group fields beforeDraw afterDraw
      (sceneItems.filter fun item => !item.getBounds.mEmpty)).getBounds =
      AABox.moved fields ⟨lowest (occupied (boxesOf sceneItems)),
        highest (occupied (boxesOf sceneItems)), false⟩ := by
  have stillFull : occupied (boxesOf sceneItems) ≠ [] := fun none_occupied =>
    someFull (counted_eq_nil_iff.mpr (by simpa [occupied] using none_occupied))
  rw [getBounds_group, boxesOf_filter, foldl_add_of_empty rfl, counted_occupied,
    if_neg stillFull]

omit [IsStrictOrderedRing K] in
theorem mulVec_le_mulVec_iff [IsOrderedAddMonoid K] {v w : Fin 3 → K} :
    turn.mulVec v ≤ turn.mulVec w ↔ ∀ r, turn r ⬝ᵥ (v - w) ≤ 0 := by
  simp only [dotProduct_sub, sub_nonpos]
  rfl

/-- **Otherwise** the lowest and the highest corner are moved. -/
theorem containsItems_iff_of_occupied
    (wellFormed : ∀ box ∈ boxesOf sceneItems, box.mEmpty = false → box.mMin ≤ box.mMax)
    (someFull : ∃ box ∈ boxesOf sceneItems, box.mEmpty = false) :
    ContainsItems fields beforeDraw afterDraw sceneItems ↔
      CornersBound fields.turn (boxesOf sceneItems) := by
  obtain ⟨full, member, isFull⟩ := someFull
  have someCounted : counted (boxesOf sceneItems) ≠ [] := fun none_counted =>
    absurd (counted_eq_nil_iff.mp none_counted full member) (by simp [isFull])
  have bounds := getBounds_group fields beforeDraw afterDraw sceneItems
  have filtered := getBounds_filter fields beforeDraw afterDraw someCounted
  rw [foldl_add_of_empty rfl, if_neg someCounted] at bounds
  constructor
  · intro contained
    have images := (forall_box_mem_iff wellFormed).mp fun box among pt inside => by
      obtain ⟨item, isItem, rfl⟩ := List.mem_map.mp among
      exact isInVolume_moved_iff.mp (bounds ▸ contained.contains item isItem pt inside)
    have ordered := contained.ordered
    rw [bounds] at ordered
    have smaller := (Set.Icc_subset_Icc_iff ordered).mp fun pt inside =>
      (AABox.isInVolume_iff_mem_Icc rfl).mp (filtered ▸ contained.notEnlarged pt
        (bounds ▸ (AABox.isInVolume_iff_mem_Icc rfl).mpr inside))
    simp only [AABox.moved, xform_calcMat, add_le_add_iff_right] at smaller
    exact ⟨images.1, images.2, mulVec_le_mulVec_iff.mp smaller.1, mulVec_le_mulVec_iff.mp smaller.2,
      fun allEmpty => absurd (allEmpty full member) (by simp [isFull])⟩
  · intro bound
    have images := (forall_box_mem_iff wellFormed).mpr ⟨bound.low, bound.high⟩
    have between := images full member full.mMin
      ⟨isFull, fun _ => le_rfl, wellFormed full member isFull⟩
    refine ⟨?_, fun item isItem pt inside => ?_, fun pt inside => ?_⟩
    · rw [bounds]
      intro i
      simpa only [AABox.moved, xform_calcMat, Pi.add_apply, add_le_add_iff_right] using
        (between.1.trans between.2) i
    · rw [bounds]
      exact isInVolume_moved_iff.mpr (images _ (List.mem_map_of_mem isItem) pt inside)
    · rw [bounds, AABox.isInVolume_iff_mem_Icc rfl] at inside
      rw [filtered, AABox.isInVolume_iff_mem_Icc rfl]
      simp only [AABox.moved, xform_calcMat] at inside ⊢
      exact Set.Icc_subset_Icc (add_le_add_left (mulVec_le_mulVec_iff.mpr bound.emptyLow) _)
        (add_le_add_left (mulVec_le_mulVec_iff.mpr bound.emptyHigh) _) inside

/-- Without empty boxes, two corners bound the others if no entry is negative. -/
theorem cornersBound_of_nonneg (nonneg : ∀ r j, 0 ≤ turn r j)
    (allFull : ∀ box ∈ boxes, box.mEmpty = false) : CornersBound turn boxes := by
  have all_occupied : occupied boxes = boxes :=
    List.filter_eq_self.mpr fun box member => by simp [allFull box member]
  have all_counted : counted boxes = boxes := by
    rw [← all_occupied, counted_occupied]
  refine ⟨fun box member _ r => ?_, fun box member _ r => ?_, fun r => ?_, fun r => ?_,
    fun allEmpty last isLast => ?_⟩
  · rw [all_counted]
    exact negPart_dotProduct_le (nonneg r) (sub_nonneg.mpr (lowest_le member))
  · rw [all_counted]
    exact negPart_dotProduct_le (nonneg r) (sub_nonneg.mpr (le_highest member))
  · rw [all_counted, all_occupied, sub_self, dotProduct_zero]
  · rw [all_counted, all_occupied, sub_self, dotProduct_zero]
  · have member := List.mem_of_getLast? isLast
    exact absurd (allEmpty last member) (by simp [allFull last member])

/-- An item with a box that draws nothing. -/
def SceneItem.ofBounds (box : AABox K) : SceneItem K ρ :=
  .leaf ⟨0, 1, ⟨0, 0, 0, 1⟩, false⟩ ⟨⟨fun ctx => ((), ctx), fun _ => rfl⟩, id, box⟩

/-- **The placements** whose bounds contain all boxes: without negative entries. -/
theorem forall_containsItems_iff :
    (∀ sceneItems : List (SceneItem K ρ),
      (∀ item ∈ sceneItems, item.getBounds.mEmpty = false ∧
        ∀ i, item.getBounds.mMin i ≤ item.getBounds.mMax i) →
      ContainsItems fields beforeDraw afterDraw sceneItems) ↔ ∀ r j, 0 ≤ fields.turn r j := by
  constructor
  · intro contained r j
    -- a box that is long along one axis
    have long : (0 : Fin 3 → K) ≤ Pi.single j 1 := Pi.single_nonneg.mpr zero_le_one
    have bound := (containsItems_iff_of_occupied (List.forall_mem_singleton.mpr fun _ => long)
      ⟨_, List.mem_singleton_self _, rfl⟩).mp
        (contained [.ofBounds ⟨0, Pi.single j 1, false⟩]
          (List.forall_mem_singleton.mpr ⟨rfl, long⟩))
    have row : (fields.turn r)⁻ ⬝ᵥ (Pi.single j 1 - 0) ≤ (fields.turn r)⁺ ⬝ᵥ (0 - 0) :=
      bound.low _ (List.mem_singleton_self _) rfl r
    rw [sub_zero, sub_zero, dotProduct_single_one, dotProduct_zero, Pi.negPart_apply] at row
    exact negPart_eq_zero.mp (row.antisymm (negPart_nonneg _))
  · intro nonneg sceneItems allFull
    have bound : CornersBound fields.turn (boxesOf sceneItems) :=
      cornersBound_of_nonneg nonneg
        (List.forall_mem_map.mpr fun item member => (allFull item member).1)
    cases sceneItems with
    | nil => exact (containsItems_iff_of_empty (List.forall_mem_nil _)).mpr bound
    | cons item sceneItems =>
      refine (containsItems_iff_of_occupied (List.forall_mem_map.mpr fun item member _ =>
        (allFull item member).2) ⟨item.getBounds, List.mem_cons_self, ?_⟩).mpr bound
      exact (allFull item List.mem_cons_self).1

/-- **The bounds of a group contain its items** exactly when two corners bound their boxes. -/
theorem containsItems_iff
    (wellFormed : ∀ item ∈ sceneItems, item.getBounds.mEmpty = false →
      ∀ i, item.getBounds.mMin i ≤ item.getBounds.mMax i) :
    ContainsItems fields beforeDraw afterDraw sceneItems ↔
      CornersBound fields.turn (boxesOf sceneItems) := by
  by_cases someFull : ∃ box ∈ boxesOf sceneItems, box.mEmpty = false
  · exact containsItems_iff_of_occupied (List.forall_mem_map.mpr wellFormed) someFull
  · push Not at someFull
    exact containsItems_iff_of_empty fun box member => by simpa using someFull box member

end Corners

/-- A box with equal sides. -/
def cube (lo hi : ℚ) : AABox ℚ := ⟨fun _ => lo, fun _ => hi, false⟩

/-- A turn that takes every axis to the next one. -/
def axisTurn : ItemFields ℚ := ⟨0, 1, ⟨1 / 2, 1 / 2, 1 / 2, 1 / 2⟩, false⟩

theorem containsItems_axisTurn : ContainsItems axisTurn none none
    [(.ofBounds (cube 0 1) : SceneItem ℚ Unit), .ofBounds (cube 2 3)] :=
  (containsItems_iff (by simp [SceneItem.ofBounds, SceneItem.getBounds, cube]; norm_num)).mpr
    (cornersBound_of_nonneg (fun r j => by fin_cases r <;> fin_cases j <;> decide +kernel)
      (by decide))

/-- Half a turn. -/
def halfTurn : ItemFields ℚ := ⟨0, 1, ⟨0, 1, 0, 0⟩, false⟩

/-- No turn. -/
def unturned : ItemFields ℚ := ⟨0, 1, ⟨0, 0, 0, 1⟩, false⟩

/-- After half a turn, the corners of a cube have changed places. An empty box behind another one
stretches the union to the origin. -/
theorem not_containsItems_halfTurn :
    ¬ ContainsItems halfTurn none none [(.ofBounds (cube 0 1) : SceneItem ℚ Unit)] ∧
      ¬ ContainsItems unturned none none
        [(.ofBounds (cube 1 2) : SceneItem ℚ Unit), .ofBounds .new] := by
  constructor
  · intro contained
    exact absurd (contained.ordered 0) (by decide +kernel)
  · intro contained
    have inside := contained.notEnlarged 0 ⟨by decide, by decide +kernel, by decide +kernel⟩
    exact absurd (inside.2.1 0) (by decide +kernel)

end Sqwar.Scene
