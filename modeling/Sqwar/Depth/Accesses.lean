import Sqwar.Data.Trace
import Sqwar.Depth.Lods

/-!
# The accesses of `ConvertDepthToYUV` before it encodes

Every loop of `DepthBuildLods` and `DepthFillEmpty` with the floats that it reads and writes, and
the level and cell that each of these is meant for. Addresses are computed as the code does; that a
level has the width with which its neighbour is addressed is a matter of proof.
-/

set_option autoImplicit false

namespace Sqwar.Depth

open Data Function

variable {m : Floats} {w h : ℕ}

/-! ### `DepthBuildLods` -/

/-- Floats that a loop goes through one after another. -/
def sweep (start : Pointer Buffer) (count : ℕ) : Raster Buffer := ⟨start, count, 1⟩

/-- A pass of the loop that fills `dinv`. -/
def inversePass (dbuf : Pointer Buffer) (m : Floats) (i : ℕ) : Floats :=
  update m (Pointer.base Buffer.dinv + i) (inverse (m (dbuf + i)))

def inversePassAccesses (dbuf : Pointer Buffer) (count i : ℕ) : List (Access Buffer) :=
  [⟨dbuf + i, sweep dbuf count, i, 0⟩] ++
    [⟨Pointer.base Buffer.dinv + i, sweep (.base .dinv) count, i, 0⟩]

def buildInversesAccesses (dbuf : Pointer Buffer) (depthWidth depthHeight : ℕ) (m : Floats) :
    List (Access Buffer) :=
  loopAccesses (inversePass dbuf)
    (fun _ => inversePassAccesses dbuf (depthWidth * depthHeight)) m
    (List.range (depthWidth * depthHeight))

/-- A pass of the loops over the cells of a level. -/
def levelPass (dsrc dptr : Pointer Buffer) (dsw dw : ℕ) (m : Floats) (c : ℕ × ℕ) : Floats :=
  update m (dptr + (c.2 * dw + c.1)) (average
    [m (dsrc + (c.2 * 2 * dsw + c.1 * 2)), m (dsrc + (c.2 * 2 * dsw + c.1 * 2 + 1)),
      m (dsrc + ((c.2 * 2 + 1) * dsw + c.1 * 2)), m (dsrc + ((c.2 * 2 + 1) * dsw + c.1 * 2 + 1))])

/-- The four cells of the level below, and the cell. -/
def levelPassAccesses (src dst : Raster Buffer) (dsw : ℕ) (c : ℕ × ℕ) : List (Access Buffer) :=
  [⟨src.start + (c.2 * 2 * dsw + c.1 * 2), src, c.1 * 2, c.2 * 2⟩,
    ⟨src.start + (c.2 * 2 * dsw + c.1 * 2 + 1), src, c.1 * 2 + 1, c.2 * 2⟩,
    ⟨src.start + ((c.2 * 2 + 1) * dsw + c.1 * 2), src, c.1 * 2, c.2 * 2 + 1⟩,
    ⟨src.start + ((c.2 * 2 + 1) * dsw + c.1 * 2 + 1), src, c.1 * 2 + 1, c.2 * 2 + 1⟩] ++
  [⟨dst.start + (c.2 * dst.width + c.1), dst, c.1, c.2⟩]

def buildLevelAccesses (src dst : Raster Buffer) (dsw : ℕ) (m : Floats) : List (Access Buffer) :=
  loopAccesses (levelPass src.start dst.start dsw dst.width)
    (fun _ => levelPassAccesses src dst dsw) m (grid dst.width dst.height)

/-- Where the next level goes. -/
def nextLevel (dst : Raster Buffer) : Raster Buffer :=
  ⟨dst.start + dst.width * dst.height, dst.width / 2, dst.height / 2⟩

def buildLevelsAccesses (src dst : Raster Buffer) (dsw : ℕ) (m : Floats) :
    List (Access Buffer) :=
  if 16 ≤ dst.width then
    buildLevelAccesses src dst dsw m ++ buildLevelsAccesses dst (nextLevel dst) (dsw / 2)
      (buildLevel src.start dst.start dsw dst.width dst.height m)
  else []
termination_by dst.width
decreasing_by
  simp only [nextLevel]
  omega

/-- A pass of the last loop. -/
def invertPass (outpts : Pointer Buffer) (m : Floats) (i : ℕ) : Floats :=
  update m (outpts + i) (if (m (outpts + i)).isNaN then .nan else .num 1 / m (outpts + i))

def invertPassAccesses (outpts : Pointer Buffer) (count i : ℕ) : List (Access Buffer) :=
  [⟨outpts + i, sweep outpts count, i, 0⟩] ++ [⟨outpts + i, sweep outpts count, i, 0⟩]

def invertLodsAccesses (outpts dend : Pointer Buffer) (m : Floats) : List (Access Buffer) :=
  loopAccesses (invertPass outpts)
    (fun _ => invertPassAccesses outpts (dend.offset - outpts.offset)) m
    (List.range (dend.offset - outpts.offset))

def depthBuildLodsAccesses (dbuf outpts : Pointer Buffer) (depthWidth depthHeight : ℕ)
    (m : Floats) : List (Access Buffer) :=
  let inverses := buildInverses dbuf depthWidth depthHeight m
  let built :=
    buildLevels (.base .dinv) outpts depthWidth (depthWidth / 2) (depthHeight / 2) inverses
  buildInversesAccesses dbuf depthWidth depthHeight m ++
    buildLevelsAccesses ⟨.base .dinv, depthWidth, depthHeight⟩
      ⟨outpts, depthWidth / 2, depthHeight / 2⟩ depthWidth inverses ++
    invertLodsAccesses outpts built.2 built.1

/-! ### Hole filling -/

/-- A pass of `DepthFillEmpty`. -/
def fillPass (lod1 lod0 : Pointer Buffer) (depthWidth0 : ℕ) (m : Floats) (c : ℕ × ℕ) : Floats :=
  if (m (lod0 + (c.2 * depthWidth0 + c.1))).isNaN then
    update m (lod0 + (c.2 * depthWidth0 + c.1)) (m (lod1 + (c.2 / 2 * (depthWidth0 / 2) + c.1 / 2)))
  else m

/-- The cell is tested, and if it is missing its parent is read and the cell written. -/
def fillPassAccesses (coarse fine : Raster Buffer) (m : Floats) (c : ℕ × ℕ) :
    List (Access Buffer) :=
  [⟨fine.start + (c.2 * fine.width + c.1), fine, c.1, c.2⟩] ++
    if (m (fine.start + (c.2 * fine.width + c.1))).isNaN then
      [⟨coarse.start + (c.2 / 2 * (fine.width / 2) + c.1 / 2), coarse, c.1 / 2, c.2 / 2⟩] ++
        [⟨fine.start + (c.2 * fine.width + c.1), fine, c.1, c.2⟩]
    else []

def depthFillEmptyAccesses (coarse fine : Raster Buffer) (m : Floats) : List (Access Buffer) :=
  loopAccesses (fillPass coarse.start fine.start fine.width) (fillPassAccesses coarse fine) m
    (grid fine.width fine.height)

/-- A level as the tables tell it. -/
def LodTable.raster (table : LodTable) (i : ℕ) : Raster Buffer :=
  ⟨Pointer.base Buffer.lods + table.lodOffsets.getD i 0, (table.lodSizes.getD i (0, 0)).1,
    (table.lodSizes.getD i (0, 0)).2⟩

def fillLodAccesses (table : LodTable) (m : Floats) (lodIdx : ℕ) : List (Access Buffer) :=
  let idx1 := table.lodSizes.length - lodIdx - 1
  depthFillEmptyAccesses (table.raster idx1) (table.raster (idx1 - 1)) m

/-- The fill loop. -/
def fillLods (table : LodTable) (m : Floats) : Floats :=
  (List.range (sizeMinusOne table.lodSizes.length)).foldl (fillLod table) m

def fillLodsAccesses (table : LodTable) (m : Floats) : List (Access Buffer) :=
  loopAccesses (fillLod table) (fillLodAccesses table) m
    (List.range (sizeMinusOne table.lodSizes.length))

/-- `fillHoles` behind the allocation of the levels. -/
def fillZeroed (width height : ℕ) (m : Floats) : Floats :=
  let table := lodTable width height
  depthFillEmpty (table.raster 0).start (.base .data) width height
    (fillLods table (depthBuildLods (.base .data) (.base .lods) width height m))

def fillZeroedAccesses (width height : ℕ) (m : Floats) : List (Access Buffer) :=
  let table := lodTable width height
  let built := depthBuildLods (.base .data) (.base .lods) width height m
  depthBuildLodsAccesses (.base .data) (.base .lods) width height m ++
    fillLodsAccesses table built ++
    depthFillEmptyAccesses (table.raster 0) ⟨.base .data, width, height⟩ (fillLods table built)

/-- The accesses of `fillHoles`, without the zeros that a new vector is given. -/
def fillHolesAccesses (width height : ℕ) (m : Floats) : List (Access Buffer) :=
  fillZeroedAccesses width height (zeroLods (lodTable width height).size m)

theorem fillHoles_eq (w h : ℕ) (m : Floats) :
    fillHoles w h m = fillZeroed w h (zeroLods (lodTable w h).size m) := rfl

/-! ### The traces are sound -/

theorem traces_buildInverses (dbuf : Pointer Buffer) (w h : ℕ) :
    Traces (buildInverses dbuf w h) (buildInversesAccesses dbuf w h) := by
  refine traces_foldl _ fun i => traces_store _ ⟨_, _, i, 0⟩ (fun m => inverse (m (dbuf + i))) ?_
  intro m m' same
  exact congrArg inverse (same _ List.mem_cons_self)

theorem traces_buildLevel (src dst : Raster Buffer) (dsw : ℕ) :
    Traces (buildLevel src.start dst.start dsw dst.width dst.height)
      (buildLevelAccesses src dst dsw) := by
  refine traces_foldl _ fun c => traces_store _ ⟨_, dst, c.1, c.2⟩ _ ?_
  intro m m' same
  simp only [List.mem_cons, List.not_mem_nil, or_false, forall_eq_or_imp, forall_eq] at same
  obtain ⟨first, second, third, fourth⟩ := same
  rw [first, second, third, fourth]

/-- The loop over the levels. What it returns besides the memory does not depend on it. -/
theorem traces_buildLevels (src dst : Raster Buffer) (dsw : ℕ) :
    Traces (fun m => (buildLevels src.start dst.start dsw dst.width dst.height m).1)
        (buildLevelsAccesses src dst dsw) ∧
      ∀ m m', (buildLevels src.start dst.start dsw dst.width dst.height m').2 =
        (buildLevels src.start dst.start dsw dst.width dst.height m).2 := by
  generalize size : dst.width = n
  induction n using Nat.strong_induction_on generalizing src dst dsw with
  | _ n ih =>
    subst size
    by_cases wide : 16 ≤ dst.width
    -- The level just written is the source of the next one.
    · obtain ⟨later, same⟩ := ih (dst.width / 2) (by omega) dst (nextLevel dst) (dsw / 2) rfl
      have unfoldAccesses : buildLevelsAccesses src dst dsw = fun m =>
          buildLevelAccesses src dst dsw m ++ buildLevelsAccesses dst (nextLevel dst) (dsw / 2)
            (buildLevel src.start dst.start dsw dst.width dst.height m) := by
        funext m
        rw [buildLevelsAccesses, if_pos wide]
      have unfoldLevels : ∀ m, buildLevels src.start dst.start dsw dst.width dst.height m =
          buildLevels dst.start (nextLevel dst).start (dsw / 2) (nextLevel dst).width
            (nextLevel dst).height (buildLevel src.start dst.start dsw dst.width dst.height m) := by
        intro m
        rw [buildLevels, if_pos wide]
        rfl
      simp only [unfoldLevels, unfoldAccesses]
      exact ⟨(traces_buildLevel src dst dsw).comp later, fun m m' => same _ _⟩
    · have unfoldAccesses : buildLevelsAccesses src dst dsw = fun _ => [] := by
        funext m
        rw [buildLevelsAccesses, if_neg wide]
      have unfoldLevels : ∀ m, buildLevels src.start dst.start dsw dst.width dst.height m =
          (m, dst.start) := by
        intro m
        rw [buildLevels, if_neg wide]
      simp only [unfoldLevels, unfoldAccesses]
      exact ⟨traces_id, fun _ _ => trivial⟩

theorem traces_invertLods (outpts dend : Pointer Buffer) :
    Traces (invertLods outpts dend) (invertLodsAccesses outpts dend) := by
  refine traces_foldl _ fun i => traces_store _ ⟨_, _, i, 0⟩ _ ?_
  intro m m' same
  rw [same _ List.mem_cons_self]

/-- **The trace of `DepthBuildLods`.** -/
theorem traces_depthBuildLods (dbuf outpts : Pointer Buffer) (w h : ℕ) :
    Traces (depthBuildLods dbuf outpts w h) (depthBuildLodsAccesses dbuf outpts w h) := by
  obtain ⟨levels, same⟩ :=
    traces_buildLevels ⟨.base .dinv, w, h⟩ ⟨outpts, w / 2, h / 2⟩ w
  have built := (traces_buildInverses dbuf w h).comp levels
  generalize dend : (buildLevels (.base .dinv) outpts w (w / 2) (h / 2) fun _ => .nan).2 = stop
  -- Where the loop stops depends on the sizes alone, so the bounds of the last loop are fixed.
  have stops : ∀ m, (buildLevels (.base .dinv) outpts w (w / 2) (h / 2) m).2 = stop :=
    fun m => (same _ m).trans dend
  have run : depthBuildLods dbuf outpts w h = fun m => invertLods outpts stop
      (buildLevels (.base .dinv) outpts w (w / 2) (h / 2) (buildInverses dbuf w h m)).1 := by
    funext m
    rw [← stops (buildInverses dbuf w h m)]
    rfl
  have accesses : depthBuildLodsAccesses dbuf outpts w h = fun m =>
      buildInversesAccesses dbuf w h m ++ buildLevelsAccesses ⟨.base .dinv, w, h⟩
        ⟨outpts, w / 2, h / 2⟩ w (buildInverses dbuf w h m) ++
      invertLodsAccesses outpts stop
        (buildLevels (.base .dinv) outpts w (w / 2) (h / 2) (buildInverses dbuf w h m)).1 := by
    funext m
    rw [← stops (buildInverses dbuf w h m)]
    rfl
  rw [run, accesses]
  exact built.comp (traces_invertLods outpts stop)

theorem traces_depthFillEmpty (coarse fine : Raster Buffer) :
    Traces (depthFillEmpty coarse.start fine.start fine.width fine.height)
      (depthFillEmptyAccesses coarse fine) := by
  refine traces_foldl _ fun c =>
    traces_ite _ _ ?_ (traces_store _ ⟨_, fine, c.1, c.2⟩ _ ?_) traces_id
  · intro m m' same
    exact congrArg ExactFloat.isNaN (same _ List.mem_cons_self)
  · intro m m' same
    exact same _ List.mem_cons_self

theorem traces_fillLods (table : LodTable) :
    Traces (fillLods table) (fillLodsAccesses table) :=
  traces_foldl _ fun lodIdx => traces_depthFillEmpty
    (table.raster (table.lodSizes.length - lodIdx - 1))
    (table.raster (table.lodSizes.length - lodIdx - 1 - 1))

/-- **The trace of filling holes.** -/
theorem traces_fillZeroed (w h : ℕ) : Traces (fillZeroed w h) (fillZeroedAccesses w h) :=
  ((traces_depthBuildLods (.base .data) (.base .lods) w h).comp (traces_fillLods _)).comp
    (traces_depthFillEmpty ((lodTable w h).raster 0) ⟨.base .data, w, h⟩)

end Sqwar.Depth
