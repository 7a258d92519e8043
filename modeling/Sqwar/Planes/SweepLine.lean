import Mathlib.Data.List.Dedup
import Mathlib.Data.List.Pairwise
import Sqwar.Planes.Neighbors

/-!
# The sweep along a line

The events of a line are sorted strictly when the tiles do not overlap: no two of them tie. So the
sweep can be read off the order: a tile meets the current tile of the other side when it starts,
and what one axis pushes is what its lines push, each push once.
-/

set_option autoImplicit false

namespace Sqwar.Planes

open Data Function

variable {Tile : Type*}

/-! ### The order of the events -/

theorem TileBreak.less_iff {a b : TileBreak Tile} :
    a.Less b ↔ a.xyVal < b.xyVal ∨ a.xyVal = b.xyVal ∧
      (a.start.value < b.start.value ∨ a.start = b.start ∧ a.edge.value < b.edge.value) := by
  unfold TileBreak.Less
  split_ifs with xy start
  · exact ⟨Or.inl, fun either => either.resolve_right fun tie => xy tie.1⟩
  · rw [not_not] at xy
    simp [xy, start]
  · rw [not_not] at xy start
    simp [xy, start]

theorem TileBreak.less_asymm (a b : TileBreak Tile) (less : a.Less b) : ¬ b.Less a := by
  rw [TileBreak.less_iff] at less ⊢
  intro greater
  rcases less with xy | ⟨xy, start | ⟨start, edge⟩⟩ <;>
    rcases greater with xy' | ⟨xy', start' | ⟨start', edge'⟩⟩ <;>
      first | omega | (rw [start] at start'; omega) | (rw [start'] at start; omega)

/-- Events that are not ordered agree in all that the order looks at. -/
theorem TileBreak.tie {a b : TileBreak Tile} (notLess : ¬ a.Less b) (notGreater : ¬ b.Less a) :
    a.xyVal = b.xyVal ∧ a.start = b.start ∧ a.edge = b.edge := by
  rw [TileBreak.less_iff] at notLess notGreater
  push Not at notLess notGreater
  have xy : a.xyVal = b.xyVal := le_antisymm notGreater.1 notLess.1
  have start : a.start = b.start := BreakType.value_injective
    (le_antisymm (notGreater.2 xy.symm).1 (notLess.2 xy).1)
  exact ⟨xy, start, Side.value_injective (le_antisymm ((notGreater.2 xy.symm).2 start.symm)
    ((notLess.2 xy).2 start))⟩

theorem TileBreak.notLess_trans {a b c : TileBreak Tile} (ab : ¬ b.Less a) (bc : ¬ c.Less b) :
    ¬ c.Less a := by
  rw [TileBreak.less_iff] at ab bc ⊢
  push Not at ab bc
  rintro (xy | ⟨xy, start | ⟨start, edge⟩⟩)
  · omega
  · have := ab.2 (by omega)
    have := bc.2 (by omega)
    omega
  · have left := ab.2 (by omega)
    have right := bc.2 (by omega)
    have same : c.start.value = a.start.value := by rw [start]
    have middle : b.start = a.start := BreakType.value_injective (by omega)
    have := left.2 middle
    have := right.2 (start.trans middle.symm)
    omega

/-- The tile that becomes current at an event. -/
def TileBreak.opens (v : TileBreak Tile) : Option Tile :=
  match v.start with
  | .start => some v.pTile
  | .stop => none

theorem TileBreak.start_of_isSome {v : TileBreak Tile} (opens : v.opens.isSome) :
    v.start = .start := by
  unfold TileBreak.opens at opens
  split at opens
  · assumption
  · cases opens

theorem TileBreak.opens_eq_some {v : TileBreak Tile} {t : Tile} :
    v.opens = some t ↔ v.start = .start ∧ v.pTile = t := by
  unfold TileBreak.opens
  split <;> simp [*]

/-- What one contact pushes. -/
def contactPushes (contact : TileBreak Tile × Tile) : List (Push Tile) :=
  [⟨contact.2, contact.1.pTile, contact.1.edge.opposite⟩,
    ⟨contact.1.pTile, contact.2, contact.1.edge⟩]

theorem sweep_eq_flatMap (tbreaks : List (TileBreak Tile)) :
    sweep tbreaks = (contacts TileBreak.edge TileBreak.opens Side.opposite (fun _ => none)
      tbreaks).flatMap contactPushes := by
  -- generalised to any lanes and any pushes so far, which each pass appends to
  suffices loop : ∀ current pushed, (tbreaks.foldl sweepStep (current, pushed)).2 =
      pushed ++ (contacts TileBreak.edge TileBreak.opens Side.opposite current
        tbreaks).flatMap contactPushes from loop _ _
  induction tbreaks with
  | nil => simp [contacts]
  | cons tb later ih =>
    intro current pushed
    rw [List.foldl_cons, contacts, sweepStep]
    cases kind : tb.start with
    | start =>
      have opens : tb.opens = some tb.pTile := TileBreak.opens_eq_some.mpr ⟨kind, rfl⟩
      simp only [opens]
      cases met : update current tb.edge (some tb.pTile) tb.edge.opposite with
      | none => simp only [ih]
      | some other => simp only [ih, List.flatMap_cons, contactPushes, List.append_assoc]
    | stop =>
      have opens : tb.opens = none := by simp [TileBreak.opens, kind]
      simp only [opens, ih]

/-- Tiles are pushed to each other only if they have breaks. -/
theorem pTile_of_mem_sweep {tbreaks : List (TileBreak Tile)} {push : Push Tile}
    (pushed : push ∈ sweep tbreaks) :
    (∃ v ∈ tbreaks, v.pTile = push.owner) ∧ ∃ v ∈ tbreaks, v.pTile = push.neighbor := by
  rw [sweep_eq_flatMap] at pushed
  obtain ⟨⟨v, other⟩, contact, isPush⟩ := List.mem_flatMap.mp pushed
  obtain ⟨here, ⟨edge, met⟩ | ⟨u, there, opened⟩⟩ := mem_of_mem_contacts contact
  · cases met
  · obtain ⟨-, rfl⟩ := TileBreak.opens_eq_some.mp opened
    have either : push = ⟨u.pTile, v.pTile, v.edge.opposite⟩ ∨
        push = ⟨v.pTile, u.pTile, v.edge⟩ := by
      simpa [contactPushes] using isPush
    rcases either with rfl | rfl
    · exact ⟨⟨u, there, rfl⟩, v, here, rfl⟩
    · exact ⟨⟨v, here, rfl⟩, u, there, rfl⟩

/-- The breaks of a line belong to the given tiles. -/
theorem pTile_of_mem_lineBreaks {r : Tile → Rect} {axis : Axis} {resultTiles : List Tile} {c : ℤ}
    {v : TileBreak Tile} (member : v ∈ lineBreaks r axis resultTiles c) :
    v.pTile ∈ resultTiles := by
  have ofBucket : ∀ {edge key}, v ∈ tileBreaks r axis edge (bucket r key c resultTiles) →
      v.pTile ∈ resultTiles := by
    intro edge key member
    obtain ⟨ptr, inBucket, isBreak⟩ := List.mem_flatMap.mp member
    have same : v.pTile = ptr := by
      rcases List.mem_pair.mp isBreak with rfl | rfl <;> rfl
    rw [same]
    exact (List.mem_filter.mp inBucket).1
  rw [lineBreaks, List.mem_mergeSort, List.mem_append] at member
  exact member.elim ofBucket ofBucket

/-- **`PopulateNeighbors` knows only the tiles it is given.** -/
theorem mem_of_mem_populateNeighbors {r : Tile → Rect} {resultTiles : List Tile} {push : Push Tile}
    (pushed : push ∈ populateNeighbors r resultTiles) :
    push.owner ∈ resultTiles ∧ push.neighbor ∈ resultTiles := by
  have ofAxis : ∀ axis, push ∈ sweepBuckets r axis resultTiles →
      push.owner ∈ resultTiles ∧ push.neighbor ∈ resultTiles := by
    intro axis pushed
    obtain ⟨c, -, pushed⟩ := List.mem_flatMap.mp pushed
    split_ifs at pushed
    · exact absurd pushed List.not_mem_nil
    · obtain ⟨⟨v, here, owner⟩, u, there, neighbor⟩ := pTile_of_mem_sweep pushed
      rw [← owner, ← neighbor]
      exact ⟨pTile_of_mem_lineBreaks here, pTile_of_mem_lineBreaks there⟩
  exact (List.mem_append.mp pushed).elim (ofAxis columns) (ofAxis rows)

/-! ### The events of a line -/

/-- Result tiles of positive width and height that do not overlap. -/
structure ResultTiles (Tile : Type*) where
  r : Tile → Rect
  tiles : List Tile
  positive : ∀ t ∈ tiles, 0 < (r t).w ∧ 0 < (r t).h
  apart : tiles.Pairwise fun a b => Disjoint (r a).pixels (r b).pixels

/-- The line at which a tile is bucketed with an edge. -/
def Axis.key (axis : Axis) (edge : Side) : Rect → ℤ :=
  if edge = axis.firstEdge then axis.first else axis.second

/-- Where a tile has its breaks along a line. -/
def Axis.coord (axis : Axis) : BreakType → Rect → ℤ
  | .start => axis.lo
  | .stop => axis.hi

/-- The edges of a line. -/
def Axis.HasEdge (axis : Axis) (edge : Side) : Prop :=
  edge = axis.firstEdge ∨ edge = axis.secondEdge

variable {axis : Axis} {edge s : Side} {c : ℤ} {T : ResultTiles Tile} {a b p q t other : Tile}
  {v w : TileBreak Tile}

@[simp] theorem Axis.opposite_firstEdge : axis.firstEdge.opposite = axis.secondEdge :=
  axis.edges.symm

@[simp] theorem Axis.opposite_secondEdge : axis.secondEdge.opposite = axis.firstEdge := by
  rw [axis.edges, Side.opposite_opposite]

theorem Axis.secondEdge_ne : axis.secondEdge ≠ axis.firstEdge := by
  rw [axis.edges]
  exact Side.opposite_ne _

@[simp] theorem Axis.key_firstEdge : axis.key axis.firstEdge = axis.first := if_pos rfl

@[simp] theorem Axis.key_secondEdge : axis.key axis.secondEdge = axis.second :=
  if_neg Axis.secondEdge_ne

theorem Axis.HasEdge.opposite (has : axis.HasEdge edge) : axis.HasEdge edge.opposite := by
  rcases has with rfl | rfl
  · exact .inr Axis.opposite_firstEdge
  · exact .inl Axis.opposite_secondEdge

namespace ResultTiles

theorem across (T : ResultTiles Tile) (axis : Axis) (member : t ∈ T.tiles) :
    axis.first (T.r t) < axis.second (T.r t) :=
  axis.across _ (T.positive t member).1 (T.positive t member).2

theorem along (T : ResultTiles Tile) (axis : Axis) (member : t ∈ T.tiles) :
    axis.lo (T.r t) < axis.hi (T.r t) :=
  axis.along _ (T.positive t member).1 (T.positive t member).2

/-- Tiles that overlap across and along are one tile. -/
theorem eq_of_meet (axis : Axis) (aMem : a ∈ T.tiles) (bMem : b ∈ T.tiles)
    (ab : axis.first (T.r a) < axis.second (T.r b)) (ba : axis.first (T.r b) < axis.second (T.r a))
    (ab' : axis.lo (T.r a) < axis.hi (T.r b)) (ba' : axis.lo (T.r b) < axis.hi (T.r a)) :
    a = b := by
  by_contra distinct
  -- different tiles are disjoint, but these have a pixel in common
  have symm : Std.Symm fun a b => Disjoint (T.r a).pixels (T.r b).pixels :=
    ⟨fun _ _ disjoint => disjoint.symm⟩
  obtain ⟨aw, ah⟩ := T.positive a aMem
  obtain ⟨bw, bh⟩ := T.positive b bMem
  obtain ⟨pixel, inA, inB⟩ := axis.meet _ _ aw ah bw bh ab ba ab' ba'
  exact Set.disjoint_left.mp (T.apart.forall aMem bMem distinct) inA inB

/-- Two tiles on the same side of a line are apart along it. -/
theorem separate (axis : Axis) (edge : Side) (aMem : a ∈ T.tiles) (bMem : b ∈ T.tiles)
    (distinct : a ≠ b) (same : axis.key edge (T.r a) = axis.key edge (T.r b)) :
    axis.hi (T.r a) ≤ axis.lo (T.r b) ∨ axis.hi (T.r b) ≤ axis.lo (T.r a) := by
  by_contra! overlap
  have aAcross := T.across axis aMem
  have bAcross := T.across axis bMem
  refine distinct (eq_of_meet axis aMem bMem ?_ ?_ overlap.2 overlap.1) <;>
    unfold Axis.key at same <;> split_ifs at same <;> omega

theorem nodup (T : ResultTiles Tile) : T.tiles.Nodup := by
  refine List.Pairwise.imp_of_mem (fun {a b} aMem _ disjoint => ?_) T.apart
  rintro rfl
  obtain ⟨w, h⟩ := T.positive a aMem
  have corner : ((T.r a).x, (T.r a).y) ∈ (T.r a).pixels := by
    rw [Rect.mem_pixels]
    omega
  exact Set.disjoint_left.mp disjoint corner corner

/-- The sorted events of a line. -/
def breaks (T : ResultTiles Tile) (axis : Axis) (c : ℤ) : List (TileBreak Tile) :=
  lineBreaks T.r axis T.tiles c

theorem mem_tileBreaks {bucket : List Tile} :
    v ∈ tileBreaks T.r axis edge bucket ↔
      v.edge = edge ∧ v.pTile ∈ bucket ∧ v.xyVal = axis.coord v.start (T.r v.pTile) := by
  obtain ⟨xy, kind, side, tile⟩ := v
  simp only [tileBreaks, List.mem_flatMap, List.mem_cons, List.not_mem_nil, or_false,
    TileBreak.mk.injEq]
  constructor
  · rintro ⟨ptr, member, ⟨rfl, rfl, rfl, rfl⟩ | ⟨rfl, rfl, rfl, rfl⟩⟩ <;>
      exact ⟨rfl, member, rfl⟩
  · rintro ⟨rfl, member, rfl⟩
    refine ⟨tile, member, ?_⟩
    cases kind
    · exact .inl ⟨rfl, rfl, rfl, rfl⟩
    · exact .inr ⟨rfl, rfl, rfl, rfl⟩

/-- **What happens along a line.** The events are the breaks of the tiles that have an edge on
it. -/
theorem mem_breaks : v ∈ T.breaks axis c ↔ axis.HasEdge v.edge ∧ v.pTile ∈ T.tiles ∧
    axis.key v.edge (T.r v.pTile) = c ∧ v.xyVal = axis.coord v.start (T.r v.pTile) := by
  simp only [breaks, lineBreaks, List.mem_mergeSort, List.mem_append, mem_tileBreaks, bucket,
    List.mem_filter, decide_eq_true_eq, Axis.HasEdge]
  constructor
  · rintro (⟨edge, ⟨member, onLine⟩, at'⟩ | ⟨edge, ⟨member, onLine⟩, at'⟩)
    · exact ⟨.inl edge, member, by rw [edge, Axis.key_firstEdge, onLine], at'⟩
    · exact ⟨.inr edge, member, by rw [edge, Axis.key_secondEdge, onLine], at'⟩
  · rintro ⟨edge | edge, member, onLine, at'⟩
    · exact .inl ⟨edge, ⟨member, by rwa [edge, Axis.key_firstEdge] at onLine⟩, at'⟩
    · exact .inr ⟨edge, ⟨member, by rwa [edge, Axis.key_secondEdge] at onLine⟩, at'⟩

theorem nodup_tileBreaks {bucket : List Tile} (nodup : bucket.Nodup) :
    (tileBreaks T.r axis edge bucket).Nodup := by
  refine List.nodup_flatMap.mpr ⟨fun ptr _ => by simp, nodup.imp fun {a b} distinct => ?_⟩
  intro v inA inB
  simp only [List.mem_cons, List.not_mem_nil, or_false] at inA inB
  rcases inA with rfl | rfl <;> rcases inB with same | same <;>
    exact distinct (congrArg TileBreak.pTile same)

theorem nodup_breaks (T : ResultTiles Tile) (axis : Axis) (c : ℤ) : (T.breaks axis c).Nodup := by
  refine (List.mergeSort_perm _ _).nodup_iff.mpr (List.nodup_append'.mpr
    ⟨nodup_tileBreaks (T.nodup.filter _), nodup_tileBreaks (T.nodup.filter _), fun v inFirst => ?_⟩)
  intro inSecond
  exact Axis.secondEdge_ne ((mem_tileBreaks.mp inSecond).1.symm.trans (mem_tileBreaks.mp inFirst).1)

/-- No two events of a line tie. -/
theorem sorted_breaks (T : ResultTiles Tile) (axis : Axis) (c : ℤ) :
    (T.breaks axis c).Pairwise TileBreak.Less := by
  have sorted : (T.breaks axis c).Pairwise fun a b => ¬ b.Less a := by
    have sorted := @List.pairwise_mergeSort _ (fun a b : TileBreak Tile => decide (¬ b.Less a))
      (fun a b c ab bc => decide_eq_true (TileBreak.notLess_trans (of_decide_eq_true ab)
        (of_decide_eq_true bc)))
      (fun a b => by
        by_cases less : a.Less b
        · simp [TileBreak.less_asymm a b less]
        · simp [less])
      (tileBreaks T.r axis axis.firstEdge (bucket T.r axis.first c T.tiles) ++
        tileBreaks T.r axis axis.secondEdge (bucket T.r axis.second c T.tiles))
    exact sorted.imp fun le => of_decide_eq_true le
  refine List.Pairwise.imp_of_mem (fun {a b} aMem bMem both => ?_)
    (sorted.and (T.nodup_breaks axis c))
  obtain ⟨notGreater, distinct⟩ := both
  by_contra notLess
  obtain ⟨xy, kind, edge⟩ := TileBreak.tie notLess notGreater
  obtain ⟨-, aTile, aOn, aAt⟩ := mem_breaks.mp aMem
  obtain ⟨-, bTile, bOn, bAt⟩ := mem_breaks.mp bMem
  -- two tiles of one side that start together, or end together, overlap
  have same : a.pTile = b.pTile := by
    by_contra different
    have aLong := T.along axis aTile
    have bLong := T.along axis bTile
    rw [kind, xy, bAt] at aAt
    have := separate axis _ aTile bTile different (edge ▸ aOn.trans bOn.symm)
    cases h : b.start <;> rw [h] at aAt <;> simp only [Axis.coord] at aAt <;> omega
  apply distinct
  cases a
  cases b
  simp_all

/-! ### Contacts along a line -/

/-- Some tile with this edge on the line has this break there. -/
def BreakAt (T : ResultTiles Tile) (axis : Axis) (edge : Side) (kind : BreakType) (c z : ℤ) :
    Prop :=
  ∃ t ∈ T.tiles, axis.key edge (T.r t) = c ∧ axis.coord kind (T.r t) = z

/-- When `tile` starts with `edge`, `other` is the current tile of the opposite edge: it started
before and has not ended yet, and since then no tile has ended or started there. -/
structure Meets (T : ResultTiles Tile) (axis : Axis) (c : ℤ) (edge : Side) (tile other : Tile) :
    Prop where
  hasEdge : axis.HasEdge edge
  mem : tile ∈ T.tiles
  mem_other : other ∈ T.tiles
  onLine : axis.key edge (T.r tile) = c
  onLine_other : axis.key edge.opposite (T.r other) = c
  started : axis.lo (T.r other) < axis.lo (T.r tile) ∨
    axis.lo (T.r other) = axis.lo (T.r tile) ∧ edge.opposite.value < edge.value
  current : axis.lo (T.r tile) ≤ axis.hi (T.r other)
  notEnded : axis.lo (T.r other) < axis.lo (T.r tile) →
    ¬ T.BreakAt axis edge.opposite .stop c (axis.lo (T.r other))
  notReplaced : axis.lo (T.r other) < axis.lo (T.r tile) → edge.opposite.value < edge.value →
    ¬ T.BreakAt axis edge.opposite .start c (axis.lo (T.r tile))

/-- Two events meet if the first is the last start across from the second. -/
theorem meets_of_quiet {u : TileBreak Tile} (inside : v ∈ T.breaks axis c)
    (uInside : u ∈ T.breaks axis c) (uEdge : u.edge = v.edge.opposite) (vStart : v.start = .start)
    (uStart : u.start = .start) (less : u.Less v)
    (quiet : ∀ w ∈ T.breaks axis c, w.edge = v.edge.opposite → u.Less w → ¬ w.Less v) :
    v.xyVal = axis.lo (T.r v.pTile) ∧ T.Meets axis c v.edge v.pTile u.pTile := by
  obtain ⟨hasEdge, mem, onLine, at'⟩ := mem_breaks.mp inside
  obtain ⟨-, uMem, uOnLine, uAt⟩ := mem_breaks.mp uInside
  rw [vStart] at at'
  rw [uStart] at uAt
  rw [uEdge] at uOnLine
  rw [TileBreak.less_iff, uEdge, uStart, vStart, uAt, at'] at less
  have long := T.along axis uMem
  simp only [Axis.coord] at at' uAt less
  -- a break between the two starts would be an event that is not quiet
  refine ⟨at', hasEdge, mem, uMem, onLine, uOnLine, by omega, ?_, ?_, ?_⟩
  · by_contra! ended
    refine quiet ⟨axis.hi (T.r u.pTile), .stop, v.edge.opposite, u.pTile⟩
      (mem_breaks.mpr ⟨hasEdge.opposite, uMem, uOnLine, rfl⟩) rfl ?_ ?_ <;>
      rw [TileBreak.less_iff]
    · left
      simpa only [uAt] using long
    · left
      simpa only [at'] using ended
  · rintro before ⟨t, tMem, tOnLine, tAt⟩
    refine quiet ⟨axis.hi (T.r t), .stop, v.edge.opposite, t⟩
      (mem_breaks.mpr ⟨hasEdge.opposite, tMem, tOnLine, rfl⟩) rfl ?_ ?_ <;>
      rw [TileBreak.less_iff] <;> simp only [Axis.coord] at tAt
    · refine .inr ⟨by rw [uAt, tAt], .inl ?_⟩
      rw [uStart]
      exact Nat.zero_lt_one
    · left
      rwa [at', tAt]
  · rintro before edges ⟨t, tMem, tOnLine, tAt⟩
    refine quiet ⟨axis.lo (T.r t), .start, v.edge.opposite, t⟩
      (mem_breaks.mpr ⟨hasEdge.opposite, tMem, tOnLine, rfl⟩) rfl ?_ ?_ <;>
      rw [TileBreak.less_iff] <;> simp only [Axis.coord] at tAt
    · left
      rwa [uAt, tAt]
    · exact .inr ⟨by rw [at', tAt], .inr ⟨vStart.symm, edges⟩⟩

/-- Between the starts of two tiles that meet, nothing happens across from the second. -/
theorem Meets.quiet (meets : T.Meets axis c v.edge v.pTile other) (vStart : v.start = .start)
    (at' : v.xyVal = axis.lo (T.r v.pTile)) {w : TileBreak Tile} (wInside : w ∈ T.breaks axis c)
    (wEdge : w.edge = v.edge.opposite)
    (behind : TileBreak.Less ⟨axis.lo (T.r other), .start, v.edge.opposite, other⟩ w) :
    ¬ w.Less v := by
  intro before
  obtain ⟨-, wMem, wOnLine, wAt⟩ := mem_breaks.mp wInside
  rw [wEdge] at wOnLine
  rw [TileBreak.less_iff] at behind before
  rw [at', vStart, wEdge] at before
  rw [wEdge] at behind
  have long := T.along axis wMem
  have current := meets.current
  have apart : w.pTile ≠ other → axis.hi (T.r w.pTile) ≤ axis.lo (T.r other) ∨
      axis.hi (T.r other) ≤ axis.lo (T.r w.pTile) := fun distinct =>
    separate axis _ wMem meets.mem_other distinct (wOnLine.trans meets.onLine_other.symm)
  cases kind : w.start with
  | start =>
    rw [kind] at wAt behind before
    simp only [Axis.coord, BreakType.value, lt_self_iff_false, false_or, true_and, and_false,
      or_false] at wAt behind before
    -- a tile that starts in between replaces the other one where that ends
    have distinct : w.pTile ≠ other := by
      intro same
      rw [wAt, same] at behind
      omega
    rcases apart distinct with below | above
    · omega
    · have together : axis.lo (T.r w.pTile) = axis.lo (T.r v.pTile) := by omega
      exact meets.notReplaced (by omega) (by omega) ⟨w.pTile, wMem, wOnLine, together⟩
  | stop =>
    rw [kind] at wAt behind before
    simp only [Axis.coord, BreakType.value, Nat.not_lt_zero, reduceCtorEq, false_and, or_self,
      and_false, or_false] at wAt behind before
    have distinct : w.pTile ≠ other := by
      intro same
      rw [wAt, same] at before
      omega
    -- a tile that ends in between does so where the other one starts
    rcases apart distinct with below | above
    · have together : axis.hi (T.r w.pTile) = axis.lo (T.r other) := by omega
      exact meets.notEnded (by omega) ⟨w.pTile, wMem, wOnLine, together⟩
    · omega

/-- The contacts of the sweep along a line are the meetings of its tiles. -/
theorem mem_contacts_breaks :
    (v, other) ∈ contacts TileBreak.edge TileBreak.opens Side.opposite (fun _ => none)
        (T.breaks axis c) ↔
      v.start = .start ∧ v.xyVal = axis.lo (T.r v.pTile) ∧
        T.Meets axis c v.edge v.pTile other := by
  rw [mem_contacts_iff TileBreak.less_asymm (T.sorted_breaks axis c) Side.opposite_ne]
  constructor
  · rintro ⟨inside, isSome, u, uInside, uEdge, uOpens, less, quiet⟩
    have vStart := TileBreak.start_of_isSome isSome
    obtain ⟨uStart, rfl⟩ := TileBreak.opens_eq_some.mp uOpens
    exact ⟨vStart, meets_of_quiet inside uInside uEdge vStart uStart less quiet⟩
  · rintro ⟨vStart, at', meets⟩
    have inside : v ∈ T.breaks axis c :=
      mem_breaks.mpr ⟨meets.hasEdge, meets.mem, meets.onLine, by rw [vStart]; exact at'⟩
    refine ⟨inside, by simp [TileBreak.opens, vStart],
      ⟨axis.lo (T.r other), .start, v.edge.opposite, other⟩,
      mem_breaks.mpr ⟨meets.hasEdge.opposite, meets.mem_other, meets.onLine_other, rfl⟩,
      rfl, rfl, ?_, fun w wInside wEdge behind => meets.quiet vStart at' wInside wEdge behind⟩
    rw [TileBreak.less_iff, at', vStart]
    rcases meets.started with before | ⟨together, edges⟩
    · exact .inl before
    · exact .inr ⟨together, .inr ⟨rfl, edges⟩⟩

theorem Meets.asymm (meets : T.Meets axis c s a b) : ¬ T.Meets axis c s.opposite b a := by
  intro back
  have started := meets.started
  have started' := back.started
  rw [Side.opposite_opposite] at started'
  omega

/-! ### The pushes -/

/-- `b` gets into the list of `a` with a side. -/
def Records (T : ResultTiles Tile) (axis : Axis) (s : Side) (a b : Tile) : Prop :=
  ∃ c, T.Meets axis c s a b ∨ T.Meets axis c s.opposite b a

theorem records_opposite : T.Records axis s.opposite b a ↔ T.Records axis s a b := by
  unfold Records
  rw [Side.opposite_opposite]
  exact exists_congr fun c => Or.comm

theorem Records.hasEdge (records : T.Records axis s a b) : axis.HasEdge s := by
  obtain ⟨c, meets | meets⟩ := records
  · exact meets.hasEdge
  · have := meets.hasEdge.opposite
    rwa [Side.opposite_opposite] at this

theorem mem_sweep_breaks :
    ⟨a, b, s⟩ ∈ sweep (T.breaks axis c) ↔
      T.Meets axis c s a b ∨ T.Meets axis c s.opposite b a := by
  simp only [sweep_eq_flatMap, List.mem_flatMap, Prod.exists, mem_contacts_breaks, contactPushes,
    List.mem_cons, List.not_mem_nil, or_false, Push.mk.injEq]
  constructor
  · rintro ⟨v, other, ⟨-, -, meets⟩, ⟨rfl, rfl, rfl⟩ | ⟨rfl, rfl, rfl⟩⟩
    · right
      rwa [Side.opposite_opposite]
    · exact .inl meets
  · rintro (meets | meets)
    · exact ⟨⟨axis.lo (T.r a), .start, s, a⟩, b, ⟨rfl, rfl, meets⟩, .inr ⟨rfl, rfl, rfl⟩⟩
    · refine ⟨⟨axis.lo (T.r b), .start, s.opposite, b⟩, a, ⟨rfl, rfl, meets⟩, .inl ⟨rfl, rfl, ?_⟩⟩
      exact (Side.opposite_opposite s).symm

/-- The line of a push can be read off its owner. -/
theorem key_of_mem_sweep (pushed : ⟨a, b, s⟩ ∈ sweep (T.breaks axis c)) :
    axis.key s (T.r a) = c := by
  rcases mem_sweep_breaks.mp pushed with meets | meets
  · exact meets.onLine
  · have := meets.onLine_other
    rwa [Side.opposite_opposite] at this

theorem nodup_sweep_breaks (T : ResultTiles Tile) (axis : Axis) (c : ℤ) :
    (sweep (T.breaks axis c)).Nodup := by
  rw [sweep_eq_flatMap]
  refine List.nodup_flatMap.mpr ⟨fun contact _ => ?_, ?_⟩
  · have := Side.opposite_ne contact.1.edge
    simp [contactPushes, this]
  refine List.Pairwise.imp_of_mem (fun {x y} xMem yMem distinct => ?_)
    (contacts_nodup (T.nodup_breaks axis c))
  obtain ⟨xStart, xAt, xMeets⟩ := mem_contacts_breaks.mp xMem
  obtain ⟨yStart, yAt, yMeets⟩ := mem_contacts_breaks.mp yMem
  obtain ⟨⟨xy, kind, edge, tile⟩, other⟩ := x
  obtain ⟨⟨xy', kind', edge', tile'⟩, other'⟩ := y
  simp only at xStart xAt xMeets yStart yAt yMeets
  subst xStart xAt yStart yAt
  intro push inX inY
  simp only [contactPushes, List.mem_cons, List.not_mem_nil, or_false] at inX inY
  -- the same push from different contacts would need each tile to start before the other
  rcases inX with rfl | rfl <;> rcases inY with same | same <;>
    obtain ⟨rfl, rfl, sides⟩ := Push.mk.inj same
  · rw [← Side.opposite_opposite edge, sides, Side.opposite_opposite] at distinct
    exact distinct rfl
  · subst sides
    exact yMeets.asymm (by rwa [Side.opposite_opposite])
  · subst sides
    exact yMeets.asymm xMeets
  · subst sides
    exact distinct rfl

theorem mem_bucket {key : Rect → ℤ} : t ∈ bucket T.r key c T.tiles ↔
    t ∈ T.tiles ∧ key (T.r t) = c := by
  simp [bucket]

theorem mem_mapKeys {key : Rect → ℤ} : c ∈ mapKeys T.r key T.tiles ↔
    ∃ t ∈ T.tiles, key (T.r t) = c := by
  simp [mapKeys, List.mem_mergeSort, List.mem_dedup]

/-- Two tiles can only meet on a line on which one begins and the other one ends. -/
theorem Meets.line (meets : T.Meets axis c s a b) :
    c ∈ mapKeys T.r axis.first T.tiles ∧ (bucket T.r axis.second c T.tiles).isEmpty = false := by
  -- which of the two ends there depends on the edge of the one that starts
  have both : ∃ p ∈ T.tiles, ∃ q ∈ T.tiles, axis.second (T.r p) = c ∧ axis.first (T.r q) = c := by
    have here := meets.onLine
    have there := meets.onLine_other
    rcases meets.hasEdge with rfl | rfl
    · rw [Axis.opposite_firstEdge, Axis.key_secondEdge] at there
      exact ⟨b, meets.mem_other, a, meets.mem, there, by rwa [Axis.key_firstEdge] at here⟩
    · rw [Axis.opposite_secondEdge, Axis.key_firstEdge] at there
      exact ⟨a, meets.mem, b, meets.mem_other, by rwa [Axis.key_secondEdge] at here, there⟩
  obtain ⟨p, pMem, q, qMem, pOn, qOn⟩ := both
  refine ⟨mem_mapKeys.mpr ⟨q, qMem, qOn⟩, ?_⟩
  rw [List.isEmpty_eq_false_iff_exists_mem]
  exact ⟨p, mem_bucket.mpr ⟨pMem, pOn⟩⟩

theorem mem_sweepBuckets :
    ⟨a, b, s⟩ ∈ sweepBuckets T.r axis T.tiles ↔ T.Records axis s a b := by
  simp only [sweepBuckets, List.mem_flatMap]
  refine ⟨fun ⟨c, _, pushed⟩ => ⟨c, ?_⟩, fun ⟨c, meets⟩ => ⟨c, ?_⟩⟩
  · split_ifs at pushed
    · exact absurd pushed List.not_mem_nil
    · exact mem_sweep_breaks.mp pushed
  · have line : c ∈ mapKeys T.r axis.first T.tiles ∧
        (bucket T.r axis.second c T.tiles).isEmpty = false :=
      meets.elim Meets.line Meets.line
    refine ⟨line.1, ?_⟩
    rw [line.2]
    exact mem_sweep_breaks.mpr meets

theorem nodup_sweepBuckets (T : ResultTiles Tile) (axis : Axis) :
    (sweepBuckets T.r axis T.tiles).Nodup := by
  have keys : (mapKeys T.r axis.first T.tiles).Nodup :=
    (List.mergeSort_perm _ _).nodup_iff.mpr (List.nodup_dedup _)
  refine List.nodup_flatMap.mpr ⟨fun c _ => ?_, keys.imp fun {c d} distinct => ?_⟩
  · split_ifs
    · exact List.nodup_nil
    · exact T.nodup_sweep_breaks axis c
  · rintro ⟨a, b, s⟩ inC inD
    beta_reduce at inC inD
    split_ifs at inC inD
    all_goals first
      | exact absurd inC List.not_mem_nil
      | exact absurd inD List.not_mem_nil
      | exact distinct ((key_of_mem_sweep inC).symm.trans (key_of_mem_sweep inD))

end ResultTiles

end Sqwar.Planes
