import Mathlib.Algebra.Order.Floor.Ring
import Mathlib.Data.List.FinRange
import Mathlib.Data.Rat.Floor
import Sqwar.Data.LittleEndian
import Sqwar.Planes.Grouping
import Sqwar.Planes.SweepLine

/-!
# Drawing tiles

`DepthMakePlanes` erases the results that cover too much, groups the others, counts the vertices
that they need and fills two vectors of this size, six entries for each tile of each group. Every
tile that is left is in one group, so every entry is written, and written once.
-/

set_option autoImplicit false

namespace Sqwar.Planes

open Data Function

variable {α β K Tile : Type*}

/-! ### The coverage filter -/

/-- The loop over `resultTiles` that erases while it goes on. -/
def eraseLoop (remove : α → Prop) [DecidablePred remove] (resultTiles : List α) (itRes : ℕ) :
    List α :=
  if _ : itRes < resultTiles.length then
    if remove resultTiles[itRes] then eraseLoop remove (resultTiles.eraseIdx itRes) itRes
    else eraseLoop remove resultTiles (itRes + 1)
  else resultTiles
termination_by resultTiles.length - itRes
decreasing_by
  · rw [List.length_eraseIdx_of_lt ‹_›]
    omega
  · omega

/-- No tile is skipped after another one is erased. -/
theorem eraseLoop_append (remove : α → Prop) [DecidablePred remove] (done todo : List α) :
    eraseLoop remove (done ++ todo) done.length =
      done ++ todo.filter fun res => ¬ remove res := by
  induction todo generalizing done with
  | nil =>
    rw [eraseLoop, dif_neg (by simp)]
    simp
  | cons res todo ih =>
    have inside : done.length < (done ++ res :: todo).length := by simp
    have here : (done ++ res :: todo)[done.length] = res := by simp
    rw [eraseLoop, dif_pos inside, here]
    by_cases removed : remove res
    · have erased : (done ++ res :: todo).eraseIdx done.length = done ++ todo := by
        rw [List.eraseIdx_append_of_length_le le_rfl, Nat.sub_self, List.eraseIdx_cons_zero]
      rw [if_pos removed, erased, ih, List.filter_cons_of_neg (by simpa using removed)]
    · have later := ih (done ++ [res])
      rw [List.length_append, List.length_singleton, List.append_assoc] at later
      rw [if_neg removed, List.filter_cons_of_pos (by simpa using removed)]
      exact later.trans (List.append_assoc _ _ _)

theorem eraseLoop_eq_filter (remove : α → Prop) [DecidablePred remove] (resultTiles : List α) :
    eraseLoop remove resultTiles 0 = resultTiles.filter fun res => ¬ remove res :=
  eraseLoop_append remove [] resultTiles

section Coverage

variable [Field K] [LinearOrder K] (c : PlaneConstants K) (depthWidth depthHeight : ℤ)

/-- `longestDiag`, before its root is taken. -/
def longestDiagSquared (pts : Fin 4 → Vec4f K) : K :=
  [(0, 1), (0, 2), (0, 3), (1, 2), (1, 3), (2, 3)].foldl
    (fun longest (i, j) =>
      max longest (((pts i).v3 - (pts j).v3) ⬝ᵥ ((pts i).v3 - (pts j).v3))) 0

/-- `coverage > g_maxCoverage`. A coverage that is divided by zero is infinite, or not a number,
which is not greater. -/
def CoversTooMuch (res : Result K) : Prop :=
  let fullDiagonal := c.sqrt ((depthWidth * depthWidth + depthHeight * depthHeight : ℤ) : K)
  let longestDiag := c.sqrt (longestDiagSquared res.q)
  let diagonal := c.sqrt ((res.r.w * res.r.w + res.r.h * res.r.h : ℤ) : K)
  if diagonal = 0 then fullDiagonal ≠ 0 ∧ longestDiag ≠ 0
  else |longestDiag / (diagonal / fullDiagonal)| > c.maxCoverage

instance (res : Result K) : Decidable (CoversTooMuch c depthWidth depthHeight res) := by
  unfold CoversTooMuch
  infer_instance

/-- The tiles that are kept. A pointer to a result is its place among all results. -/
def keptTiles (results : List (Result K)) : List (Fin results.length) :=
  eraseLoop (fun t => CoversTooMuch c depthWidth depthHeight (results.get t))
    (List.finRange results.length) 0

theorem keptTiles_eq_filter (results : List (Result K)) :
    keptTiles c depthWidth depthHeight results = (List.finRange results.length).filter
      fun t => ¬ CoversTooMuch c depthWidth depthHeight (results.get t) :=
  eraseLoop_eq_filter _ _

theorem nodup_keptTiles (results : List (Result K)) :
    (keptTiles c depthWidth depthHeight results).Nodup := by
  rw [keptTiles_eq_filter]
  exact (List.nodup_finRange _).filter _

theorem length_keptTiles_le (results : List (Result K)) :
    (keptTiles c depthWidth depthHeight results).length ≤ results.length := by
  rw [keptTiles_eq_filter]
  exact (List.length_filter_le _ _).trans_eq (List.length_finRange)

end Coverage

/-- The neighbor lists that `PopulateNeighbors` builds. -/
def NeighborLists.populated [DecidableEq Tile] (r : Tile → Rect) (resultTiles : List Tile) :
    NeighborLists resultTiles where
  lists := neighbors r resultTiles
  mem t n inList := by
    obtain ⟨push, pushed, rfl⟩ := List.mem_map.mp inList
    exact (mem_of_mem_populateNeighbors (List.mem_filter.mp pushed).1).2

/-! ### The vertices -/

/-- `v[i] = a`, which must be inside the vector. -/
def assign (v : List α) (i : ℕ) (a : α) : Option (List α) :=
  if i < v.length then some (v.set i a) else none

/-- Assignments to successive entries. -/
def assignFrom : List α → ℕ → List α → Option (List α)
  | v, _, [] => some v
  | v, i, a :: as => do
    let v ← assign v i a
    assignFrom v (i + 1) as

/-- `resize`. -/
def resize (v : List α) (n : ℕ) (fresh : α) : List α :=
  v.take n ++ List.replicate (n - v.length) fresh

theorem length_resize (v : List α) (n : ℕ) (fresh : α) : (resize v n fresh).length = n := by
  rw [resize, List.length_append, List.length_take, List.length_replicate]
  omega

/-- Assignments inside a vector overwrite a part of it. -/
theorem assignFrom_eq_some {v as : List α} {i : ℕ} (inside : i + as.length ≤ v.length) :
    assignFrom v i as = some (overwrite v i as) := by
  induction as generalizing v i with
  | nil => simp [assignFrom, overwrite]
  | cons a as ih =>
    rw [List.length_cons] at inside
    have small : i < v.length := by omega
    rw [assignFrom, assign, if_pos small]
    have front : (v.set i a).take (i + 1) = v.take i ++ [a] := by
      rw [List.take_add_one, List.take_set_of_le le_rfl, List.getElem?_set_self small]
      rfl
    refine (ih (by rw [List.length_set]; omega)).trans (congrArg some ?_)
    unfold overwrite
    rw [front, List.drop_set_of_lt (by omega), List.append_assoc, List.append_assoc,
      List.append_assoc, List.length_cons, Nat.add_right_comm i, Nat.add_assoc i]
    rfl

/-- Blocks of one length together. -/
theorem length_flatMap_blocks {f : α → List β} {n : ℕ} (block : ∀ a, (f a).length = n)
    (as : List α) : (as.flatMap f).length = n * as.length := by
  induction as with
  | nil => rfl
  | cons a as ih =>
    rw [List.flatMap_cons, List.length_append, block, ih, List.length_cons, Nat.mul_succ,
      Nat.add_comm]

/-- The blocks of one group lie next to each other. -/
theorem blocks_of_group {f : α → List β} {n : ℕ} (block : ∀ a, (f a).length = n)
    (before : List (List α)) (group : List α) (after : List (List α)) :
    (((before ++ group :: after).flatten.flatMap f).drop (n * before.flatten.length)).take
      (n * group.length) = group.flatMap f := by
  rw [List.flatten_append, List.flatten_cons, List.flatMap_append, List.flatMap_append,
    ← length_flatMap_blocks block before.flatten, List.drop_left,
    ← length_flatMap_blocks block group, List.take_left]

section Drawing

variable [Field K] [LinearOrder K] [FloorRing K]

/-- `unpackColor`. -/
def unpackColor (f : K) : Fin 3 → K :=
  let blue : K := ⌊f / (256 * 256)⌋
  let green : K := ⌊(f - blue * 256 * 256) / 256⌋
  ![⌊f - blue * 256 * 256 - green * 256⌋, green, blue]

/-- `PackColor`. -/
def packColor (c : Fin 3 → K) : K := ⌊c 0⌋ + ⌊c 1⌋ * 256 + ⌊c 2⌋ * 256 * 256

/-- `avgf`. -/
def averageColor (q : Fin 4 → Vec4f K) : K :=
  packColor (fun i => (unpackColor (q 0).w i + unpackColor (q 1).w i + unpackColor (q 2).w i +
    unpackColor (q 3).w i) * (1 / 4))

/-- `idxs`: the two triangles of a quad. -/
def triangleCorners : List (Fin 4) := [0, 1, 2, 1, 3, 2]

/-- The vertices of a tile. -/
def quadVertices (result : Result K) : List (Fin 3 → K) :=
  triangleCorners.map fun i => (result.q i).v3

/-- The texture coordinates of a tile. -/
def quadTexCoords (result : Result K) : List (Fin 3 → K) :=
  triangleCorners.map fun _ =>
    if result.isPicked then ![1, 1, 1] else ![averageColor result.q, 0, 0]

/-- `outVertices`, `outTexCoords` and `vIdx`. -/
structure Drawing (K : Type*) where
  outVertices : List (Fin 3 → K)
  outTexCoords : List (Fin 3 → K)
  vIdx : ℕ

/-- The body of the loop over the tiles of a group. -/
def drawTile (tile : Tile → Result K) (s : Drawing K) (result : Tile) : Option (Drawing K) := do
  let outVertices ← assignFrom s.outVertices s.vIdx (quadVertices (tile result))
  let outTexCoords ← assignFrom s.outTexCoords s.vIdx (quadTexCoords (tile result))
  some ⟨outVertices, outTexCoords, s.vIdx + 6⟩

/-- `vtxCount`. -/
def vtxCount (outTiles : List (List Tile)) : ℕ :=
  outTiles.foldl (fun count itVec => itVec.foldl (fun count _ => count + 6) count) 0

/-- The second half of `DepthMakePlanes`: the vectors are resized and filled. -/
def drawTiles (tile : Tile → Result K) (outTiles : List (List Tile))
    (outVertices outTexCoords : List (Fin 3 → K)) : Option (Drawing K) :=
  outTiles.foldlM (fun s itVec => itVec.foldlM (drawTile tile) s)
    ⟨resize outVertices (vtxCount outTiles) 0, resize outTexCoords (vtxCount outTiles) 0, 0⟩

omit [LinearOrder K] [FloorRing K] in
theorem length_quadVertices (result : Result K) : (quadVertices result).length = 6 := rfl

theorem length_quadTexCoords (result : Result K) : (quadTexCoords result).length = 6 := rfl

/-- Some tiles have been drawn, one after another from the front. -/
structure Drawn (tile : Tile → Result K) (count : ℕ) (ts : List Tile) (s : Drawing K) : Prop where
  vIdx : s.vIdx = 6 * ts.length
  lengthVertices : s.outVertices.length = count
  lengthTexCoords : s.outTexCoords.length = count
  vertices : s.outVertices.take s.vIdx = ts.flatMap fun t => quadVertices (tile t)
  texCoords : s.outTexCoords.take s.vIdx = ts.flatMap fun t => quadTexCoords (tile t)

variable {tile : Tile → Result K} {count : ℕ} {ts : List Tile} {s : Drawing K}

/-- While there is room, a tile can be drawn. -/
theorem Drawn.drawTile (drawn : Drawn tile count ts s) (t : Tile)
    (room : 6 * (ts.length + 1) ≤ count) :
    ∃ s', drawTile tile s t = some s' ∧ Drawn tile count (ts ++ [t]) s' := by
  have start := drawn.vIdx
  have inVertices : s.vIdx + (quadVertices (tile t)).length ≤ s.outVertices.length := by
    rw [length_quadVertices, drawn.lengthVertices]
    omega
  have inTexCoords : s.vIdx + (quadTexCoords (tile t)).length ≤ s.outTexCoords.length := by
    rw [length_quadTexCoords, drawn.lengthTexCoords]
    omega
  refine ⟨⟨overwrite s.outVertices s.vIdx (quadVertices (tile t)),
    overwrite s.outTexCoords s.vIdx (quadTexCoords (tile t)), s.vIdx + 6⟩, ?_, ?_⟩
  · rw [Planes.drawTile, assignFrom_eq_some inVertices, assignFrom_eq_some inTexCoords]
    rfl
  · refine ⟨?_, ?_, ?_, ?_, ?_⟩
    · rw [List.length_append, List.length_singleton]
      simp only
      omega
    · exact (overwrite_length _ _ inVertices).trans drawn.lengthVertices
    · exact (overwrite_length _ _ inTexCoords).trans drawn.lengthTexCoords
    · rw [List.flatMap_append, List.flatMap_singleton, ← drawn.vertices]
      exact overwrite_take s.outVertices (quadVertices (tile t))
        ((Nat.le_add_right _ _).trans inVertices)
    · rw [List.flatMap_append, List.flatMap_singleton, ← drawn.texCoords]
      exact overwrite_take s.outTexCoords (quadTexCoords (tile t))
        ((Nat.le_add_right _ _).trans inTexCoords)

/-- So can some tiles. -/
theorem Drawn.foldlM (drawn : Drawn tile count ts s) (more : List Tile)
    (room : 6 * (ts.length + more.length) ≤ count) :
    ∃ s', more.foldlM (Planes.drawTile tile) s = some s' ∧ Drawn tile count (ts ++ more) s' := by
  induction more generalizing ts s with
  | nil => exact ⟨s, rfl, by rwa [List.append_nil]⟩
  | cons t more ih =>
    rw [List.length_cons] at room
    obtain ⟨s', draws, drawn'⟩ := drawn.drawTile t (by omega)
    obtain ⟨s'', rest, drawn''⟩ := ih drawn' (by
      rw [List.length_append, List.length_singleton]
      omega)
    refine ⟨s'', ?_, by rwa [List.append_assoc] at drawn''⟩
    rw [List.foldlM_cons, draws]
    exact rest

/-- So can some groups. -/
theorem Drawn.foldlM_groups (drawn : Drawn tile count ts s) (groups : List (List Tile))
    (room : 6 * (ts.length + groups.flatten.length) ≤ count) :
    ∃ s', groups.foldlM (fun s itVec => itVec.foldlM (Planes.drawTile tile) s) s = some s' ∧
      Drawn tile count (ts ++ groups.flatten) s' := by
  induction groups generalizing ts s with
  | nil => exact ⟨s, rfl, by rwa [List.flatten_nil, List.append_nil]⟩
  | cons group groups ih =>
    rw [List.flatten_cons, List.length_append] at room
    obtain ⟨s', draws, drawn'⟩ := drawn.foldlM group (by omega)
    obtain ⟨s'', rest, drawn''⟩ := ih drawn' (by
      rw [List.length_append]
      omega)
    refine ⟨s'', ?_, by rwa [List.append_assoc] at drawn''⟩
    rw [List.foldlM_cons, draws]
    exact rest

/-- The first pass counts six vertices for each tile. -/
theorem vtxCount_eq (outTiles : List (List Tile)) :
    vtxCount outTiles = 6 * outTiles.flatten.length := by
  have inner : ∀ (itVec : List Tile) count,
      itVec.foldl (fun count _ => count + 6) count = count + 6 * itVec.length := by
    intro itVec
    induction itVec with
    | nil => exact fun count => rfl
    | cons t itVec ih =>
      intro count
      rw [List.foldl_cons, ih, List.length_cons]
      omega
  suffices outer : ∀ count, outTiles.foldl
      (fun count itVec => itVec.foldl (fun count _ => count + 6) count) count =
        count + 6 * outTiles.flatten.length by
    exact (outer 0).trans (Nat.zero_add _)
  induction outTiles with
  | nil => exact fun count => rfl
  | cons itVec outTiles ih =>
    intro count
    rw [List.foldl_cons, inner, ih, List.flatten_cons, List.length_append]
    omega

/-- **Every entry is written once**: the vectors end up with six entries for each tile, in the
order of the groups. -/
theorem drawTiles_eq_some (tile : Tile → Result K) (outTiles : List (List Tile))
    (outVertices outTexCoords : List (Fin 3 → K)) :
    drawTiles tile outTiles outVertices outTexCoords =
      some ⟨outTiles.flatten.flatMap fun t => quadVertices (tile t),
        outTiles.flatten.flatMap fun t => quadTexCoords (tile t), 6 * outTiles.flatten.length⟩ := by
  have start : Drawn tile (vtxCount outTiles) []
      ⟨resize outVertices (vtxCount outTiles) 0, resize outTexCoords (vtxCount outTiles) 0, 0⟩ :=
    ⟨rfl, length_resize _ _ _, length_resize _ _ _, rfl, rfl⟩
  obtain ⟨s, draws, drawn⟩ := start.foldlM_groups outTiles (by
    rw [vtxCount_eq, List.length_nil, Nat.zero_add])
  rw [List.nil_append] at drawn
  refine draws.trans (congrArg some ?_)
  have full := drawn.vIdx.trans (vtxCount_eq outTiles).symm
  have vertices := drawn.vertices
  have texCoords := drawn.texCoords
  rw [List.take_of_length_le (drawn.lengthVertices.trans full.symm).le] at vertices
  rw [List.take_of_length_le (drawn.lengthTexCoords.trans full.symm).le] at texCoords
  rw [← vertices, ← texCoords, ← drawn.vIdx]

end Drawing

/-! ### `DepthMakePlanes` -/

section DepthMakePlanes

variable [Field K] [LinearOrder K] [FloorRing K] (c : PlaneConstants K)

/-- `DepthMakePlanes` from the coverage filter on, with the neighbor lists of the tiles that are
kept and a bound on the depth of `FindConnected`. -/
def drawResults (depthWidth depthHeight : ℤ) (results : List (Result K))
    (neighbors : NeighborLists (keptTiles c depthWidth depthHeight results)) (depth : ℕ)
    (outVertices outTexCoords : List (Fin 3 → K)) : Except Failure (Drawing K) :=
  match groupTiles c results.get neighbors.lists depth (keptTiles c depthWidth depthHeight results)
      (fun _ => 0) with
  | none => .error .tooDeep
  | some outTiles =>
    match drawTiles results.get outTiles outVertices outTexCoords with
    | none => .error .outside
    | some drawing => .ok drawing

/-- `DepthMakePlanes`. -/
def depthMakePlanes (b : Buffer K) (depth : ℕ) (outVertices outTexCoords : List (Fin 3 → K)) :
    Except Failure (Drawing K) := do
  let (_, results) ← process c b depth ⟨0, 0, b.width, b.height⟩ []
  drawResults c b.width b.height results
    (.populated (fun t => (results.get t).r) (keptTiles c b.width b.height results)) depth
    outVertices outTexCoords

variable {c}

/-- Once the tiles are grouped, the drawing follows the groups. -/
theorem drawResults_of_groupTiles {depthWidth depthHeight : ℤ} {results : List (Result K)}
    {neighbors : NeighborLists (keptTiles c depthWidth depthHeight results)} {depth : ℕ}
    {groups : List (List (Fin results.length))}
    (runs : groupTiles c results.get neighbors.lists depth
      (keptTiles c depthWidth depthHeight results) (fun _ => 0) = some groups)
    (outVertices outTexCoords : List (Fin 3 → K)) :
    drawResults c depthWidth depthHeight results neighbors depth outVertices outTexCoords =
      .ok ⟨groups.flatten.flatMap fun t => quadVertices (results.get t),
        groups.flatten.flatMap fun t => quadTexCoords (results.get t),
        6 * groups.flatten.length⟩ := by
  rw [drawResults, runs]
  simp only [drawTiles_eq_some]

variable (c)

/-- **Every tile that is kept is drawn once.** Whatever the results and the neighbor lists of those
that are kept, the grouping returns, its groups together are the kept tiles in another order, and
the vectors hold six entries for each tile, those of a group one after another. -/
theorem drawn_once (depthWidth depthHeight : ℤ) (results : List (Result K))
    (neighbors : NeighborLists (keptTiles c depthWidth depthHeight results))
    (outVertices outTexCoords : List (Fin 3 → K)) {depth : ℕ} (deep : results.length < depth) :
    ∃ groups drawing, groupTiles c results.get neighbors.lists depth
          (keptTiles c depthWidth depthHeight results) (fun _ => 0) = some groups ∧
      drawResults c depthWidth depthHeight results neighbors depth outVertices outTexCoords =
        .ok drawing ∧
      groups.flatten.Perm (keptTiles c depthWidth depthHeight results) ∧
      drawing.outVertices.length = 6 * (keptTiles c depthWidth depthHeight results).length ∧
      drawing.outTexCoords.length = 6 * (keptTiles c depthWidth depthHeight results).length ∧
      ∀ before group after, groups = before ++ group :: after →
        (drawing.outVertices.drop (6 * before.flatten.length)).take (6 * group.length) =
            group.flatMap (fun t => quadVertices (results.get t)) ∧
          (drawing.outTexCoords.drop (6 * before.flatten.length)).take (6 * group.length) =
            group.flatMap fun t => quadTexCoords (results.get t) := by
  have deep' := (length_keptTiles_le c depthWidth depthHeight results).trans_lt deep
  obtain ⟨groups, runs, isGroups⟩ := exists_groupTiles (c := c) neighbors (fun _ => id) deep'
  have perm := isGroups.flatten_perm (nodup_keptTiles c depthWidth depthHeight results)
    fun _ _ _ goesOn => connected_subset neighbors goesOn
  refine ⟨groups, _, runs, drawResults_of_groupTiles runs _ _, perm, ?_, ?_, ?_⟩
  · rw [length_flatMap_blocks fun t => length_quadVertices (results.get t), perm.length_eq]
  · rw [length_flatMap_blocks fun t => length_quadTexCoords (results.get t), perm.length_eq]
  · rintro before group after rfl
    exact ⟨blocks_of_group (fun t => length_quadVertices (results.get t)) before group after,
      blocks_of_group (fun t => length_quadTexCoords (results.get t)) before group after⟩

/-- **`DepthMakePlanes` returns** for every image with a pixel. -/
theorem depthMakePlanes_returns (b : Buffer K) (wide : 0 < b.width) (high : 0 < b.height)
    (outVertices outTexCoords : List (Fin 3 → K)) :
    ∃ depth drawing, depthMakePlanes c b depth outVertices outTexCoords = .ok drawing := by
  have corner : b.CornerInside ⟨0, 0, b.width, b.height⟩ :=
    Buffer.cornerInside_of_nonneg wide high le_rfl le_rfl
  let results := (leaves (splitTests c b) ⟨0, 0, b.width, b.height⟩).filterMap (kept c b)
  let depth := max (b.width + b.height) results.length + 1
  have processed := process_eq_ok (c := c) corner (show (b.width + b.height : ℤ).toNat < depth by
    omega) []
  obtain ⟨-, drawing, -, draws, -⟩ := drawn_once c b.width b.height results
    (.populated (fun t => (results.get t).r) (keptTiles c b.width b.height results)) outVertices
    outTexCoords (show results.length < depth by omega)
  refine ⟨depth, drawing, ?_⟩
  rw [depthMakePlanes, processed]
  exact draws

end DepthMakePlanes

/-- The results of the two tiles of the stair. -/
def stairResults : List (Result ℚ) := [stair.tile 0, stair.tile 1]

theorem keptTiles_stairResults :
    keptTiles defaultConstants 2 1 stairResults = List.finRange stairResults.length := by
  rw [keptTiles_eq_filter]
  decide +kernel

/-- Both tiles of the stair are drawn, with six vertices each. -/
theorem drawn_once_stair : ∃ drawing, drawResults defaultConstants 2 1 stairResults
    (.populated (fun t => (stairResults.get t).r) _) 3 [] [] = .ok drawing ∧
      drawing.outVertices.length = 12 := by
  obtain ⟨groups, drawing, -, draws, -, vertices, -⟩ := drawn_once defaultConstants 2 1 stairResults
    (.populated (fun t => (stairResults.get t).r) _) [] [] (show stairResults.length < 3 by decide)
  rw [keptTiles_stairResults] at vertices
  exact ⟨drawing, draws, vertices⟩

end Sqwar.Planes
