import Sqwar.Planes.SweepLine

/-!
# Tile adjacency

A side of a line has no current tile any more once a tile ends on it, even if the next one on that
side started at the same place, because starts come before ends; and a tile whose end is another
one's start is still current then. So the neighbor lists say which tiles share an edge only where
these ties do no harm.
-/

set_option autoImplicit false

namespace Sqwar.Planes

variable {Tile : Type*} {axis axis' : Axis} {s : Side} {T : ResultTiles Tile} {a b p q : Tile}

namespace ResultTiles

/-! ### Ties -/

/-- The tiles `p` and `q` on the two sides of a line share a segment of it. -/
def Overlap (T : ResultTiles Tile) (axis : Axis) (p q : Tile) : Prop :=
  axis.lo (T.r p) < axis.hi (T.r q) ∧ axis.lo (T.r q) < axis.hi (T.r p)

/-- Where the breaks of `p` and `q`, before and behind a line, tie with others there, the sweep
still takes the right one for the current tile. -/
structure TiesHarmless (T : ResultTiles Tile) (axis : Axis) (p q : Tile) : Prop where
  /-- If `p` starts inside `q`, no tile on the side of `q` ends where `q` starts. -/
  keepsFirst : axis.lo (T.r q) < axis.lo (T.r p) → axis.lo (T.r p) < axis.hi (T.r q) →
    ¬ T.BreakAt axis axis.firstEdge .stop (axis.first (T.r q)) (axis.lo (T.r q))
  /-- If `p` starts at the end of `q`, some tile on the side of `q` ends where `q` starts. -/
  dropsFirst : axis.lo (T.r p) = axis.hi (T.r q) →
    T.BreakAt axis axis.firstEdge .stop (axis.first (T.r q)) (axis.lo (T.r q))
  /-- If `q` starts inside `p`, no tile on the side of `p` ends where `p` starts. -/
  keepsSecond : axis.lo (T.r p) < axis.lo (T.r q) → axis.lo (T.r q) < axis.hi (T.r p) →
    ¬ T.BreakAt axis axis.secondEdge .stop (axis.first (T.r q)) (axis.lo (T.r p))
  /-- If `q` starts at the end of `p`, some tile on the side of `p` ends where `p` starts or starts
  where `p` ends. -/
  dropsSecond : axis.lo (T.r q) = axis.hi (T.r p) →
    T.BreakAt axis axis.secondEdge .stop (axis.first (T.r q)) (axis.lo (T.r p)) ∨
      T.BreakAt axis axis.secondEdge .start (axis.first (T.r q)) (axis.lo (T.r q))

theorem not_second_lt_first : ¬ axis.firstEdge.value < axis.secondEdge.value :=
  axis.order.asymm

/-- `p` starts while `q` is current. -/
theorem meets_secondEdge_iff (pMem : p ∈ T.tiles) (qMem : q ∈ T.tiles)
    (line : axis.second (T.r p) = axis.first (T.r q)) :
    T.Meets axis (axis.first (T.r q)) axis.secondEdge p q ↔
      axis.lo (T.r q) < axis.lo (T.r p) ∧ axis.lo (T.r p) ≤ axis.hi (T.r q) ∧
        ¬ T.BreakAt axis axis.firstEdge .stop (axis.first (T.r q)) (axis.lo (T.r q)) := by
  constructor
  · intro meets
    have started := meets.started
    have notEnded := meets.notEnded
    rw [Axis.opposite_secondEdge] at started notEnded
    have before := started.resolve_right fun tie => not_second_lt_first tie.2
    exact ⟨before, meets.current, notEnded before⟩
  · rintro ⟨before, current, notEnded⟩
    exact
      { hasEdge := .inr rfl
        mem := pMem
        mem_other := qMem
        onLine := by rw [Axis.key_secondEdge, line]
        onLine_other := by rw [Axis.opposite_secondEdge, Axis.key_firstEdge]
        started := .inl before
        current := current
        notEnded := fun _ => by rwa [Axis.opposite_secondEdge]
        notReplaced := fun _ edges => by
          rw [Axis.opposite_secondEdge] at edges
          exact absurd edges not_second_lt_first }

/-- `q` starts while `p` is current. -/
theorem meets_firstEdge_iff (pMem : p ∈ T.tiles) (qMem : q ∈ T.tiles)
    (line : axis.second (T.r p) = axis.first (T.r q)) :
    T.Meets axis (axis.first (T.r q)) axis.firstEdge q p ↔
      axis.lo (T.r p) ≤ axis.lo (T.r q) ∧ axis.lo (T.r q) ≤ axis.hi (T.r p) ∧
        (axis.lo (T.r p) < axis.lo (T.r q) →
          ¬ T.BreakAt axis axis.secondEdge .stop (axis.first (T.r q)) (axis.lo (T.r p)) ∧
          ¬ T.BreakAt axis axis.secondEdge .start (axis.first (T.r q)) (axis.lo (T.r q))) := by
  have order := axis.order
  constructor
  · intro meets
    have started := meets.started
    have notEnded := meets.notEnded
    have notReplaced := meets.notReplaced
    rw [Axis.opposite_firstEdge] at started notEnded notReplaced
    exact ⟨by omega, meets.current, fun before => ⟨notEnded before, notReplaced before order⟩⟩
  · rintro ⟨before, current, quiet⟩
    exact
      { hasEdge := .inl rfl
        mem := qMem
        mem_other := pMem
        onLine := by rw [Axis.key_firstEdge]
        onLine_other := by rw [Axis.opposite_firstEdge, Axis.key_secondEdge, line]
        started := by
          rw [Axis.opposite_firstEdge]
          omega
        current := current
        notEnded := fun strict => by
          rw [Axis.opposite_firstEdge]
          exact (quiet strict).1
        notReplaced := fun strict _ => by
          rw [Axis.opposite_firstEdge]
          exact (quiet strict).2 }

theorem records_secondEdge_iff (line : axis.second (T.r p) = axis.first (T.r q)) :
    T.Records axis axis.secondEdge p q ↔
      T.Meets axis (axis.first (T.r q)) axis.secondEdge p q ∨
        T.Meets axis (axis.first (T.r q)) axis.firstEdge q p := by
  unfold Records
  rw [Axis.opposite_secondEdge]
  refine ⟨fun ⟨c, meets⟩ => ?_, fun meets => ⟨_, meets⟩⟩
  have same : c = axis.first (T.r q) := by
    rcases meets with meets | meets
    · rw [← meets.onLine, Axis.key_secondEdge, line]
    · rw [← meets.onLine, Axis.key_firstEdge]
  rwa [same] at meets

/-- **One line.** The sweep is right about two tiles at a line if and only if their ties are
harmless. -/
theorem records_iff_overlap_iff (pMem : p ∈ T.tiles) (qMem : q ∈ T.tiles)
    (line : axis.second (T.r p) = axis.first (T.r q)) :
    (T.Records axis axis.secondEdge p q ↔ T.Overlap axis p q) ↔ T.TiesHarmless axis p q := by
  rw [records_secondEdge_iff line, meets_secondEdge_iff pMem qMem line,
    meets_firstEdge_iff pMem qMem line, Overlap]
  have pLong := T.along axis pMem
  have qLong := T.along axis qMem
  -- no other tile on the side of `p` starts inside it
  have unreplaced : axis.lo (T.r p) < axis.lo (T.r q) → axis.lo (T.r q) < axis.hi (T.r p) →
      ¬ T.BreakAt axis axis.secondEdge .start (axis.first (T.r q)) (axis.lo (T.r q)) := by
    rintro above below ⟨t, tMem, tOnLine, tAt⟩
    simp only [Axis.coord] at tAt
    have tLong := T.along axis tMem
    have distinct : t ≠ p := by
      rintro rfl
      omega
    have := separate axis axis.secondEdge tMem pMem distinct
      (by rw [tOnLine, Axis.key_secondEdge, line])
    omega
  rcases lt_trichotomy (axis.lo (T.r p)) (axis.lo (T.r q)) with before | together | behind
  · -- `q` starts later and meets `p`, or a tile that has ended at its start
    constructor
    · intro right
      refine ⟨fun _ _ => by omega, fun _ => by omega, fun _ inside ended => ?_, fun touch => ?_⟩
      · rcases right.mpr ⟨by omega, inside⟩ with ⟨above, -⟩ | ⟨-, -, quiet⟩
        · omega
        · exact (quiet before).1 ended
      · by_contra! kept
        have := right.mp (.inr ⟨before.le, touch.le, fun _ => kept⟩)
        omega
    · intro harmless
      constructor
      · rintro (⟨above, -⟩ | ⟨-, current, quiet⟩)
        · omega
        · refine ⟨by omega, lt_of_le_of_ne current fun touch => ?_⟩
          exact (harmless.dropsSecond touch).elim (quiet before).1 (quiet before).2
      · rintro ⟨-, inside⟩
        exact .inr ⟨before.le, inside.le,
          fun _ => ⟨harmless.keepsSecond before inside, unreplaced before inside⟩⟩
  · -- tiles that start together meet
    refine iff_of_true (iff_of_true (.inr ⟨together.le, by omega, fun strict => ?_⟩) ?_)
      ⟨fun _ => by omega, fun _ => by omega, fun _ => by omega, fun _ => by omega⟩
    · omega
    · omega
  · constructor
    · intro right
      refine ⟨fun _ inside ended => ?_, fun touch => ?_, fun _ => by omega, fun _ => by omega⟩
      · rcases right.mpr ⟨inside, by omega⟩ with ⟨-, -, notEnded⟩ | ⟨above, -⟩
        · exact notEnded ended
        · omega
      · by_contra kept
        have := right.mp (.inl ⟨behind, touch.le, kept⟩)
        omega
    · intro harmless
      constructor
      · rintro (⟨-, current, notEnded⟩ | ⟨above, -⟩)
        · exact ⟨lt_of_le_of_ne current fun touch => notEnded (harmless.dropsFirst touch), by omega⟩
        · omega
      · rintro ⟨inside, -⟩
        exact .inl ⟨behind, inside.le, harmless.keepsFirst behind inside⟩

/-! ### The neighbor lists -/

theorem mem_populateNeighbors :
    ⟨a, b, s⟩ ∈ populateNeighbors T.r T.tiles ↔
      T.Records columns s a b ∨ T.Records rows s a b := by
  rw [populateNeighbors, List.mem_append, mem_sweepBuckets, mem_sweepBuckets]

/-- A column and a row have no edge in common. -/
theorem columns_rows_apart (column : columns.HasEdge s) (row : rows.HasEdge s) : False := by
  rcases column with rfl | rfl <;> rcases row with same | same <;> cases same

theorem nodup_populateNeighbors (T : ResultTiles Tile) : (populateNeighbors T.r T.tiles).Nodup := by
  refine List.nodup_append'.mpr
    ⟨T.nodup_sweepBuckets columns, T.nodup_sweepBuckets rows, fun push inColumns inRows => ?_⟩
  exact columns_rows_apart (mem_sweepBuckets.mp inColumns).hasEdge
    (mem_sweepBuckets.mp inRows).hasEdge

variable [DecidableEq Tile]

theorem mem_neighbors :
    (b, s) ∈ neighbors T.r T.tiles a ↔ T.Records columns s a b ∨ T.Records rows s a b := by
  rw [← mem_populateNeighbors]
  simp only [neighbors, List.mem_map, List.mem_filter, decide_eq_true_eq, Prod.mk.injEq]
  constructor
  · rintro ⟨push, ⟨pushed, rfl⟩, rfl, rfl⟩
    exact pushed
  · intro pushed
    exact ⟨_, ⟨pushed, rfl⟩, rfl, rfl⟩

theorem nodup_neighbors (T : ResultTiles Tile) (a : Tile) : (neighbors T.r T.tiles a).Nodup := by
  refine List.Nodup.map_on (fun x xMem y yMem same => ?_) (T.nodup_populateNeighbors.filter _)
  obtain ⟨-, xOwner⟩ := List.mem_filter.mp xMem
  obtain ⟨-, yOwner⟩ := List.mem_filter.mp yMem
  obtain ⟨neighbor, side⟩ := Prod.mk.inj same
  have owner : x.owner = y.owner := (of_decide_eq_true xOwner).trans (of_decide_eq_true yOwner).symm
  cases x
  cases y
  simp_all

/-- The entries of one tile in the list of another one. -/
def entries (T : ResultTiles Tile) (a b : Tile) : List (Tile × Side) :=
  (neighbors T.r T.tiles a).filter (·.1 = b)

theorem entries_eq_singleton (inList : (b, s) ∈ neighbors T.r T.tiles a)
    (only : ∀ s', (b, s') ∈ neighbors T.r T.tiles a → s' = s) : T.entries a b = [(b, s)] := by
  refine List.perm_singleton.mp ((List.perm_ext_iff_of_nodup ((T.nodup_neighbors a).filter _)
    (List.nodup_singleton _)).mpr fun entry => ?_)
  simp only [List.mem_filter, decide_eq_true_eq, List.mem_singleton]
  constructor
  · rintro ⟨inside, rfl⟩
    rw [← only entry.2 inside]
  · rintro rfl
    exact ⟨inList, rfl⟩

end ResultTiles

/-! ### Adjacency -/

/-- The unit segments that make up the two edges of a rectangle across an axis: each is given by
its line and by where it starts on it. -/
def Axis.segments (axis : Axis) (r : Rect) : Set (ℤ × ℤ) :=
  { p | (p.1 = axis.first r ∨ p.1 = axis.second r) ∧ axis.lo r ≤ p.2 ∧ p.2 < axis.hi r }

theorem Axis.mem_segments {r : Rect} {p : ℤ × ℤ} : p ∈ axis.segments r ↔
    (p.1 = axis.first r ∨ p.1 = axis.second r) ∧ axis.lo r ≤ p.2 ∧ p.2 < axis.hi r := Iff.rfl

/-- The boundaries of two rectangles have a segment of positive length in common. -/
def Rect.SharesSegment (a b : Rect) : Prop :=
  (columns.segments a ∩ columns.segments b).Nonempty ∨ (rows.segments a ∩ rows.segments b).Nonempty

/-- The two axes, either one first. -/
inductive Crossed : Axis → Axis → Prop
  | columns : Crossed columns rows
  | rows : Crossed rows columns

namespace ResultTiles

/-- Distinct tiles share a segment across an axis when one begins where the other one ends and they
overlap along the line. -/
theorem segments_inter_iff (aMem : a ∈ T.tiles) (bMem : b ∈ T.tiles) (distinct : a ≠ b) :
    (axis.segments (T.r a) ∩ axis.segments (T.r b)).Nonempty ↔
      (axis.second (T.r a) = axis.first (T.r b) ∧ T.Overlap axis a b) ∨
        axis.second (T.r b) = axis.first (T.r a) ∧ T.Overlap axis b a := by
  have aLong := T.along axis aMem
  have bLong := T.along axis bMem
  constructor
  · rintro ⟨⟨line, z⟩, inA, inB⟩
    rw [Axis.mem_segments] at inA inB
    obtain ⟨aLine, aLo, aHi⟩ := inA
    obtain ⟨bLine, bLo, bHi⟩ := inB
    have overlap : T.Overlap axis a b := ⟨by omega, by omega⟩
    have apart : ∀ edge, axis.key edge (T.r a) ≠ axis.key edge (T.r b) := by
      intro edge same
      have := separate axis edge aMem bMem distinct same
      omega
    have firsts := apart axis.firstEdge
    have seconds := apart axis.secondEdge
    simp only [Axis.key_firstEdge, Axis.key_secondEdge] at firsts seconds
    rcases aLine with rfl | rfl <;> rcases bLine with same | same
    · exact absurd same firsts
    · exact .inr ⟨same.symm, overlap.symm⟩
    · exact .inl ⟨same, overlap⟩
    · exact absurd same seconds
  · rintro (⟨line, overlap, overlap'⟩ | ⟨line, overlap, overlap'⟩)
    · refine ⟨(axis.first (T.r b), max (axis.lo (T.r a)) (axis.lo (T.r b))), ?_, ?_⟩ <;>
        rw [Axis.mem_segments] <;> dsimp only <;> omega
    · refine ⟨(axis.first (T.r a), max (axis.lo (T.r a)) (axis.lo (T.r b))), ?_, ?_⟩ <;>
        rw [Axis.mem_segments] <;> dsimp only <;> omega

theorem sharesSegment_iff (crossed : Crossed axis axis') :
    (T.r a).SharesSegment (T.r b) ↔ (axis.segments (T.r a) ∩ axis.segments (T.r b)).Nonempty ∨
      (axis'.segments (T.r a) ∩ axis'.segments (T.r b)).Nonempty := by
  cases crossed
  · exact Iff.rfl
  · exact Or.comm

theorem overlap_crossed (crossed : Crossed axis axis') : T.Overlap axis' p q ↔
    axis.first (T.r p) < axis.second (T.r q) ∧ axis.first (T.r q) < axis.second (T.r p) := by
  cases crossed <;> exact Iff.rfl

theorem line_crossed (crossed : Crossed axis axis')
    (line : axis'.second (T.r p) = axis'.first (T.r q)) :
    axis.hi (T.r p) = axis.lo (T.r q) := by
  cases crossed <;> exact line

/-- Tiles that touch a line from its two sides share no other segment. -/
theorem overlap_of_sharesSegment (crossed : Crossed axis axis') (pMem : p ∈ T.tiles)
    (qMem : q ∈ T.tiles) (line : axis.second (T.r p) = axis.first (T.r q))
    (shares : (T.r p).SharesSegment (T.r q)) : T.Overlap axis p q := by
  have pAcross := T.across axis pMem
  have qAcross := T.across axis qMem
  have distinct : p ≠ q := by
    rintro rfl
    omega
  rw [sharesSegment_iff crossed, segments_inter_iff pMem qMem distinct,
    segments_inter_iff pMem qMem distinct, overlap_crossed crossed,
    overlap_crossed crossed] at shares
  rcases shares with (⟨-, overlap⟩ | ⟨back, -⟩) | (⟨-, overlap⟩ | ⟨-, overlap⟩)
  · exact overlap
  all_goals omega

/-- The line on which one tile got into the list of another one. -/
theorem Records.line (records : T.Records axis s a b) :
    (s = axis.secondEdge ∧ axis.second (T.r a) = axis.first (T.r b)) ∨
      s = axis.firstEdge ∧ axis.second (T.r b) = axis.first (T.r a) := by
  have keys : axis.key s (T.r a) = axis.key s.opposite (T.r b) := by
    obtain ⟨c, meets | meets⟩ := records
    · rw [meets.onLine, meets.onLine_other]
    · have other := meets.onLine_other
      rw [Side.opposite_opposite] at other
      rw [other, meets.onLine]
  rcases records.hasEdge with rfl | rfl
  · rw [Axis.opposite_firstEdge, Axis.key_firstEdge, Axis.key_secondEdge] at keys
    exact .inr ⟨rfl, keys.symm⟩
  · rw [Axis.opposite_secondEdge, Axis.key_firstEdge, Axis.key_secondEdge] at keys
    exact .inl ⟨rfl, keys⟩

theorem mem_neighbors_crossed [DecidableEq Tile] (crossed : Crossed axis axis') :
    (b, s) ∈ neighbors T.r T.tiles a ↔ T.Records axis s a b ∨ T.Records axis' s a b := by
  cases crossed
  · exact mem_neighbors
  · exact mem_neighbors.trans Or.comm

/-- Tiles that overlap along a line can get into each other's lists only there. -/
theorem records_of_mem_neighbors [DecidableEq Tile] (crossed : Crossed axis axis')
    (pMem : p ∈ T.tiles) (qMem : q ∈ T.tiles) (line : axis.second (T.r p) = axis.first (T.r q))
    (overlap : T.Overlap axis p q) (inList : (q, s) ∈ neighbors T.r T.tiles p) :
    s = axis.secondEdge ∧ T.Records axis axis.secondEdge p q := by
  have pAcross := T.across axis pMem
  have qAcross := T.across axis qMem
  obtain ⟨overlap, overlap'⟩ := overlap
  rcases (mem_neighbors_crossed crossed).mp inList with records | records
  · rcases records.line with ⟨rfl, -⟩ | ⟨-, back⟩
    · exact ⟨rfl, records⟩
    · omega
  · rcases records.line with ⟨-, line⟩ | ⟨-, line⟩ <;> have := line_crossed crossed line <;> omega

variable [DecidableEq Tile]

/-- Two tiles are in each other's lists, once each and with opposite sides, exactly if they share a
segment. -/
def AdjacencyExact (T : ResultTiles Tile) : Prop :=
  ∀ a ∈ T.tiles, ∀ b ∈ T.tiles, a ≠ b →
    ((∃ s, (b, s) ∈ neighbors T.r T.tiles a) ↔ (T.r a).SharesSegment (T.r b)) ∧
      ((T.r a).SharesSegment (T.r b) →
        ∃ s, T.entries a b = [(b, s)] ∧ T.entries b a = [(a, s.opposite)])

/-- The ties of any two tiles at a common line are harmless. -/
def AllHarmless (T : ResultTiles Tile) : Prop :=
  ∀ p ∈ T.tiles, ∀ q ∈ T.tiles,
    ((T.r p).right = (T.r q).x → T.TiesHarmless columns p q) ∧
      ((T.r p).bottom = (T.r q).y → T.TiesHarmless rows p q)

omit [DecidableEq Tile] in
theorem AllHarmless.crossed (harmless : T.AllHarmless) (crossed : Crossed axis axis')
    (pMem : p ∈ T.tiles) (qMem : q ∈ T.tiles) (line : axis.second (T.r p) = axis.first (T.r q)) :
    T.TiesHarmless axis p q := by
  cases crossed
  · exact (harmless p pMem q qMem).1 line
  · exact (harmless p pMem q qMem).2 line

omit [DecidableEq Tile] in
theorem allHarmless_of_crossed (harmless : ∀ axis axis', Crossed axis axis' → ∀ p ∈ T.tiles,
    ∀ q ∈ T.tiles, axis.second (T.r p) = axis.first (T.r q) → T.TiesHarmless axis p q) :
    T.AllHarmless :=
  fun p pMem q qMem => ⟨harmless _ _ .columns p pMem q qMem, harmless _ _ .rows p pMem q qMem⟩

/-- Exact lists show that the ties are harmless. -/
theorem AdjacencyExact.allHarmless (right : T.AdjacencyExact) : T.AllHarmless := by
  refine allHarmless_of_crossed fun axis axis' crossed p pMem q qMem line => ?_
  have pAcross := T.across axis pMem
  have qAcross := T.across axis qMem
  have distinct : p ≠ q := by
    rintro rfl
    omega
  obtain ⟨listed, -⟩ := right p pMem q qMem distinct
  refine (records_iff_overlap_iff pMem qMem line).mp ⟨fun records => ?_, fun overlap => ?_⟩
  · exact overlap_of_sharesSegment crossed pMem qMem line
      (listed.mp ⟨_, (mem_neighbors_crossed crossed).mpr (.inl records)⟩)
  · have shares : (T.r p).SharesSegment (T.r q) := (sharesSegment_iff crossed).mpr
      (.inl ((segments_inter_iff pMem qMem distinct).mpr (.inl ⟨line, overlap⟩)))
    obtain ⟨s, inList⟩ := listed.mpr shares
    exact (records_of_mem_neighbors crossed pMem qMem line overlap inList).2

omit [DecidableEq Tile] in
/-- With harmless ties, the sweep is right about every two tiles at a line. -/
theorem AllHarmless.records_iff (harmless : T.AllHarmless) (crossed : Crossed axis axis')
    (pMem : p ∈ T.tiles) (qMem : q ∈ T.tiles) (line : axis.second (T.r p) = axis.first (T.r q)) :
    T.Records axis axis.secondEdge p q ↔ T.Overlap axis p q :=
  (records_iff_overlap_iff pMem qMem line).mpr (harmless.crossed crossed pMem qMem line)

omit [DecidableEq Tile] in
/-- A tile that got into a list shares a segment with its owner. -/
theorem AllHarmless.sharesSegment (harmless : T.AllHarmless) (crossed : Crossed axis axis')
    (aMem : a ∈ T.tiles) (bMem : b ∈ T.tiles) (distinct : a ≠ b)
    (records : T.Records axis s a b) : (T.r a).SharesSegment (T.r b) := by
  refine (sharesSegment_iff crossed).mpr (.inl ((segments_inter_iff aMem bMem distinct).mpr ?_))
  rcases records.line with ⟨rfl, line⟩ | ⟨rfl, line⟩
  · exact .inl ⟨line, (harmless.records_iff crossed aMem bMem line).mp records⟩
  · rw [← records_opposite, Axis.opposite_firstEdge] at records
    exact .inr ⟨line, (harmless.records_iff crossed bMem aMem line).mp records⟩

/-- Tiles that touch a line from its two sides and overlap along it are entered once each. -/
theorem AllHarmless.entries_eq (harmless : T.AllHarmless) (crossed : Crossed axis axis')
    (pMem : p ∈ T.tiles) (qMem : q ∈ T.tiles) (line : axis.second (T.r p) = axis.first (T.r q))
    (overlap : T.Overlap axis p q) :
    T.entries p q = [(q, axis.secondEdge)] ∧ T.entries q p = [(p, axis.firstEdge)] := by
  have records := (harmless.records_iff crossed pMem qMem line).mpr overlap
  constructor
  · refine entries_eq_singleton ((mem_neighbors_crossed crossed).mpr (.inl records)) ?_
    exact fun s inList => (records_of_mem_neighbors crossed pMem qMem line overlap inList).1
  · have back : T.Records axis axis.firstEdge q p := by
      rwa [← records_opposite, Axis.opposite_firstEdge]
    refine entries_eq_singleton ((mem_neighbors_crossed crossed).mpr (.inl back)) fun s inList => ?_
    have mutual' : (q, s.opposite) ∈ neighbors T.r T.tiles p := by
      rw [mem_neighbors_crossed crossed] at inList ⊢
      exact inList.imp records_opposite.mpr records_opposite.mpr
    have side := (records_of_mem_neighbors crossed pMem qMem line overlap mutual').1
    rw [← Side.opposite_opposite s, side, Axis.opposite_secondEdge]

/-- Harmless ties make the lists exact. -/
theorem AllHarmless.adjacencyExact (harmless : T.AllHarmless) : T.AdjacencyExact := by
  intro a aMem b bMem distinct
  have exactly : (T.r a).SharesSegment (T.r b) →
      ∃ s, T.entries a b = [(b, s)] ∧ T.entries b a = [(a, s.opposite)] := by
    have here : ∀ axis axis', Crossed axis axis' →
        (axis.segments (T.r a) ∩ axis.segments (T.r b)).Nonempty →
        ∃ s, T.entries a b = [(b, s)] ∧ T.entries b a = [(a, s.opposite)] := by
      intro axis axis' crossed common
      rcases (segments_inter_iff aMem bMem distinct).mp common with
        ⟨line, overlap⟩ | ⟨line, overlap⟩
      · have := harmless.entries_eq crossed aMem bMem line overlap
        exact ⟨axis.secondEdge, by rwa [Axis.opposite_secondEdge]⟩
      · have := harmless.entries_eq crossed bMem aMem line overlap
        exact ⟨axis.firstEdge, by rw [Axis.opposite_firstEdge]; exact this.symm⟩
    rintro (common | common)
    · exact here _ _ .columns common
    · exact here _ _ .rows common
  refine ⟨⟨?_, fun shares => ?_⟩, exactly⟩
  · rintro ⟨s, inList⟩
    rcases mem_neighbors.mp inList with records | records
    · exact harmless.sharesSegment .columns aMem bMem distinct records
    · exact harmless.sharesSegment .rows aMem bMem distinct records
  · obtain ⟨s, once, -⟩ := exactly shares
    have entry : (b, s) ∈ T.entries a b := by
      rw [once]
      exact List.mem_singleton_self _
    exact ⟨s, List.mem_of_mem_filter entry⟩

/-- **Adjacency is exact when no tie does harm.** For all result tiles of positive size that do not
overlap: `PopulateNeighbors` enters two tiles in each other's lists, once each and with opposite
sides, exactly if they share a boundary segment, if and only if all ties are harmless. -/
theorem adjacencyExact_iff (T : ResultTiles Tile) : T.AdjacencyExact ↔ T.AllHarmless :=
  ⟨AdjacencyExact.allHarmless, AllHarmless.adjacencyExact⟩

end ResultTiles

/-- Four unit tiles around a point, as two levels of splits leave them. -/
def fourTiles : ResultTiles (Fin 4) where
  r
    | 0 => ⟨0, 0, 1, 1⟩
    | 1 => ⟨1, 0, 1, 1⟩
    | 2 => ⟨0, 1, 1, 1⟩
    | 3 => ⟨1, 1, 1, 1⟩
  tiles := [0, 1, 2, 3]
  positive := by decide
  apart := by
    have pixel : ∀ x y x' y' : ℤ, x ≠ x' ∨ y ≠ y' →
        Disjoint (Rect.pixels ⟨x, y, 1, 1⟩) (Rect.pixels ⟨x', y', 1, 1⟩) := by
      intro x y x' y' distinct
      refine Set.disjoint_left.mpr fun p => ?_
      simp only [Rect.mem_pixels]
      omega
    simp [List.pairwise_cons, pixel]

/-- The third tile starts where the second one, diagonal to it, ends, and gets into its list. -/
theorem not_adjacencyExact_fourTiles : ¬ fourTiles.AdjacencyExact := by
  intro right
  have harmless := (right.allHarmless 2 (by decide) 1 (by decide)).1 (by decide)
  obtain ⟨t, -, line, stop⟩ := harmless.dropsFirst (by decide)
  revert line stop
  revert t
  decide

end Sqwar.Planes
