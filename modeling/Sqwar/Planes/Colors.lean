import Mathlib.Algebra.BigOperators.Fin
import Mathlib.Tactic.FinCases
import Sqwar.Planes.Drawing

/-!
# The colors of tiles

`GetDepthPointsWithColor` packs the three bytes of a color into one number. `DepthMakePlanes`
unpacks the colors of the corners of a tile, averages them channel by channel and packs the averages
again. As `PackColor` rounds every channel down first, no fraction of a channel gets into another.
-/

set_option autoImplicit false

namespace Sqwar.Planes

variable {K : Type*} [Field K] [LinearOrder K] [FloorRing K]

/-- `RGBt`. -/
structure RGBt where
  R : UInt8
  G : UInt8
  B : UInt8
  deriving DecidableEq, Repr

namespace RGBt

/-- `v`, the color that `GetDepthPointsWithColor` stores with a point. -/
def packed (rgbt : RGBt) : K := rgbt.R.toNat + rgbt.G.toNat * 256 + rgbt.B.toNat * 256 * 256

/-- The bytes in the order of `unpackColor`. -/
def channels (rgbt : RGBt) : Fin 3 → ℕ := ![rgbt.R.toNat, rgbt.G.toNat, rgbt.B.toNat]

theorem channels_lt (rgbt : RGBt) (i : Fin 3) : rgbt.channels i < 256 := by
  fin_cases i
  · exact rgbt.R.toNat_lt
  · exact rgbt.G.toNat_lt
  · exact rgbt.B.toNat_lt

end RGBt

/-- Three channels in one number. -/
def packedChannels (c : Fin 3 → ℕ) : ℕ := c 0 + c 1 * 256 + c 2 * 65536

omit [LinearOrder K] [FloorRing K] in
theorem RGBt.packed_eq (rgbt : RGBt) : (rgbt.packed : K) = (packedChannels rgbt.channels : ℕ) := by
  simp only [packed, packedChannels, channels, Matrix.cons_val_zero, Matrix.cons_val_one,
    Matrix.cons_val]
  push_cast
  ring

theorem packedChannels_lt {c : Fin 3 → ℕ} (bytes : ∀ i, c i < 256) :
    packedChannels c < 2 ^ 24 := by
  have red := bytes 0
  have green := bytes 1
  have blue := bytes 2
  unfold packedChannels
  omega

/-- `PackColor` rounds every channel down first. -/
theorem packColor_of_floor {c : Fin 3 → K} {m : Fin 3 → ℕ} (floors : ∀ i, ⌊c i⌋ = m i) :
    packColor c = (packedChannels m : ℕ) := by
  simp only [packColor, packedChannels, floors]
  push_cast
  ring

variable [IsStrictOrderedRing K]

theorem floor_natCast_div (m n : ℕ) : ⌊(m : K) / n⌋ = (m / n : ℕ) := by
  rw [Int.floor_div_natCast, Int.floor_natCast, Int.natCast_div]

/-- `unpackColor` takes the digits of a number to the base 256. -/
theorem unpackColor_natCast (n : ℕ) (i : Fin 3) :
    unpackColor (n : K) i = (![n % 256, n / 256 % 256, n / 65536] i : ℕ) := by
  have blue : ⌊(n : K) / (256 * 256)⌋ = (n / 65536 : ℕ) := by
    rw [← floor_natCast_div (K := K)]
    norm_num
  have rest : (n : K) - ((n / 65536 : ℕ) : K) * 256 * 256 = (n % 65536 : ℕ) := by
    rw [sub_eq_iff_eq_add]
    norm_cast
    omega
  have green : ⌊((n % 65536 : ℕ) : K) / 256⌋ = (n / 256 % 256 : ℕ) := by
    rw [← Nat.cast_ofNat (R := K), floor_natCast_div]
    norm_cast
    omega
  have red : ((n % 65536 : ℕ) : K) - ((n / 256 % 256 : ℕ) : K) * 256 = (n % 256 : ℕ) := by
    rw [sub_eq_iff_eq_add]
    norm_cast
    omega
  fin_cases i
  · simp only [unpackColor, blue, Int.cast_natCast, rest, green, red, Int.floor_natCast]
    rfl
  · simp only [unpackColor, blue, Int.cast_natCast, rest, green]
    rfl
  · simp only [unpackColor, blue, Int.cast_natCast]
    rfl

theorem digits_packedChannels {c : Fin 3 → ℕ} (bytes : ∀ i, c i < 256) :
    packedChannels c % 256 = c 0 ∧ packedChannels c / 256 % 256 = c 1 ∧
      packedChannels c / 65536 = c 2 := by
  have red := bytes 0
  have green := bytes 1
  unfold packedChannels
  omega

/-- Unpacking gives back the bytes that were packed. -/
theorem unpackColor_packedChannels {c : Fin 3 → ℕ} (bytes : ∀ i, c i < 256) (i : Fin 3) :
    unpackColor ((packedChannels c : ℕ) : K) i = (c i : ℕ) := by
  obtain ⟨red, green, blue⟩ := digits_packedChannels bytes
  rw [unpackColor_natCast, red, green, blue]
  fin_cases i <;> rfl

/-- `PackColor` undoes `unpackColor`, and `unpackColor` undoes `PackColor`. -/
theorem packColor_unpackColor (rgbt : RGBt) :
    packColor (unpackColor (rgbt.packed : K)) = rgbt.packed ∧
      unpackColor (packColor fun i => (rgbt.channels i : K)) = fun i => (rgbt.channels i : K) := by
  constructor
  · rw [RGBt.packed_eq]
    refine packColor_of_floor fun i => ?_
    rw [unpackColor_packedChannels rgbt.channels_lt, Int.floor_natCast]
  · rw [packColor_of_floor fun i => Int.floor_natCast (R := K) (rgbt.channels i)]
    exact funext fun i => unpackColor_packedChannels rgbt.channels_lt i

/-- The mean of a channel of four colors, rounded down. -/
def meanChannel (colors : Fin 4 → RGBt) (i : Fin 3) : ℕ := (∑ j, (colors j).channels i) / 4

theorem meanChannel_lt (colors : Fin 4 → RGBt) (i : Fin 3) : meanChannel colors i < 256 := by
  have bytes := fun j => (colors j).channels_lt i
  have := bytes 0
  have := bytes 1
  have := bytes 2
  have := bytes 3
  rw [meanChannel, Fin.sum_univ_four]
  omega

/-- `avgf` is made of the means of the channels. -/
theorem averageColor_eq (points : Fin 4 → Option (Fin 3 → K)) (colors : Fin 4 → RGBt) :
    averageColor (fun j => ⟨points j, (colors j).packed⟩) =
      ((packedChannels (meanChannel colors) : ℕ) : K) := by
  refine packColor_of_floor fun i => ?_
  simp only [RGBt.packed_eq, unpackColor_packedChannels (RGBt.channels_lt _)]
  rw [meanChannel, Fin.sum_univ_four, ← floor_natCast_div (K := K), mul_one_div]
  push_cast
  rfl

/-- **Packed colors average channel by channel.** The color of a tile with packed colors at its
corners is an integer of 24 bits, whose channels are the means of theirs, rounded down. -/
theorem averageColor_channels (points : Fin 4 → Option (Fin 3 → K)) (colors : Fin 4 → RGBt) :
    (∃ n : ℕ, averageColor (fun j => ⟨points j, (colors j).packed⟩) = (n : K) ∧ n < 2 ^ 24 ∧
      ∀ i, unpackColor (n : K) i = ⌊(∑ j, ((colors j).channels i : K)) / 4⌋) ∧
    ∀ rgbt : RGBt, packColor (unpackColor (rgbt.packed : K)) = rgbt.packed ∧
      unpackColor (packColor fun i => (rgbt.channels i : K)) = fun i => (rgbt.channels i : K) := by
  refine ⟨⟨packedChannels (meanChannel colors), averageColor_eq points colors,
    packedChannels_lt (meanChannel_lt colors), fun i => ?_⟩, packColor_unpackColor⟩
  have mean : ⌊(∑ j, ((colors j).channels i : K)) / 4⌋ = meanChannel colors i := by
    rw [meanChannel, ← floor_natCast_div (K := K)]
    push_cast
    rfl
  rw [unpackColor_packedChannels (meanChannel_lt colors), mean, Int.cast_natCast]

/-- Red, green, blue and white. -/
def redGreenBlueWhite : Fin 4 → RGBt := ![⟨255, 0, 0⟩, ⟨0, 255, 0⟩, ⟨0, 0, 255⟩, ⟨255, 255, 255⟩]

/-- Their mean is `510 / 4` in every channel. -/
theorem averageColor_channels_redGreenBlueWhite :
    ∃ n : ℕ, averageColor (fun j => (⟨none, (redGreenBlueWhite j).packed⟩ : Vec4f ℚ)) = n ∧
      n < 2 ^ 24 ∧ ∀ i, unpackColor (n : ℚ) i = 127 := by
  obtain ⟨⟨n, average, small, means⟩, -⟩ :=
    averageColor_channels (K := ℚ) (fun _ => none) redGreenBlueWhite
  refine ⟨n, average, small, fun i => (means i).trans ?_⟩
  have total : ∑ j, (redGreenBlueWhite j).channels i = 510 := by
    revert i
    decide
  have floor := floor_natCast_div (K := ℚ) 510 4
  rw [← total, Nat.cast_sum, Nat.cast_ofNat] at floor
  rw [floor, total]
  rfl

/-! ### The colors of a drawing -/

section Drawing

variable {c : PlaneConstants K} {b : Buffer K} {r : Rect} {result : Result K}

/-- What `Tile::Process` makes of a buffer: corners that are its points, and no picked tile. -/
structure Result.MadeOf (result : Result K) (b : Buffer K) : Prop where
  corner : ∀ i, result.q i ∈ b.depthPths
  unpicked : result.isPicked = false

omit [Field K] [LinearOrder K] [FloorRing K] [IsStrictOrderedRing K] in
theorem mem_of_getPt {x y : ℤ} {pt : Vec4f K} (reads : b.getPt r x y = .ok pt) :
    pt ∈ b.depthPths := by
  unfold Buffer.getPt at reads
  split at reads
  · split at reads
    · rename_i found
      exact Except.ok.inj reads ▸ List.mem_of_getElem? found
    · cases reads
  · cases reads

omit [FloorRing K] [IsStrictOrderedRing K] in
theorem mem_of_firstValid {ps : List (ℤ × ℤ)} {pt : Vec4f K}
    (finds : firstValid b r ps = .ok (some pt)) : pt ∈ b.depthPths := by
  induction ps with
  | nil => cases finds
  | cons p ps ih =>
    obtain ⟨x, y⟩ := p
    obtain ⟨here, reads, rest⟩ := Semantics.bind_eq_ok_iff.mp finds
    split at rest
    · obtain rfl := Option.some.inj (Except.ok.inj rest)
      exact mem_of_getPt reads
    · exact ih rest

omit [FloorRing K] [IsStrictOrderedRing K] in
theorem madeOf_of_tests (keeps : tests c b r = .ok (.keep result)) : result.MadeOf b := by
  unfold tests at keeps
  obtain ⟨ptl, findsTl, keeps⟩ := Semantics.bind_eq_ok_iff.mp keeps
  obtain ⟨ptr, findsTr, keeps⟩ := Semantics.bind_eq_ok_iff.mp keeps
  obtain ⟨pbl, findsBl, keeps⟩ := Semantics.bind_eq_ok_iff.mp keeps
  obtain ⟨pbr, findsBr, keeps⟩ := Semantics.bind_eq_ok_iff.mp keeps
  split at keeps
  · split at keeps
    · cases keeps
    · obtain ⟨⟨split, sum, numPts⟩, -, keeps⟩ := Semantics.bind_eq_ok_iff.mp keeps
      dsimp only at keeps
      split at keeps
      · cases keeps
      · obtain rfl := Verdict.keep.inj (Except.ok.inj keeps)
        refine ⟨fun i => ?_, rfl⟩
        fin_cases i
        · exact mem_of_firstValid findsTl
        · exact mem_of_firstValid findsTr
        · exact mem_of_firstValid findsBl
        · exact mem_of_firstValid findsBr
  · cases keeps

omit [FloorRing K] [IsStrictOrderedRing K] in
/-- The recursion adds only such results. -/
theorem madeOf_of_process {depth : ℕ} {quads made : List (Result K)} {any : Bool}
    (before : ∀ result ∈ quads, result.MadeOf b)
    (processed : process c b depth r quads = .ok (any, made)) :
    ∀ result ∈ made, result.MadeOf b := by
  induction depth generalizing r quads any made with
  | zero => cases processed
  | succ depth ih =>
    obtain ⟨verdict, tested, processed⟩ := Semantics.bind_eq_ok_iff.mp processed
    cases verdict with
    | discard =>
      obtain ⟨-, rfl⟩ := Prod.mk.inj (Except.ok.inj processed)
      exact before
    | keep result =>
      obtain ⟨-, rfl⟩ := Prod.mk.inj (Except.ok.inj processed)
      intro other member
      rcases List.mem_append.mp member with old | new
      · exact before other old
      · exact List.mem_singleton.mp new ▸ madeOf_of_tests tested
    | split =>
      obtain ⟨⟨_, first⟩, processedFirst, processed⟩ := Semantics.bind_eq_ok_iff.mp processed
      obtain ⟨⟨_, second⟩, processedSecond, processed⟩ := Semantics.bind_eq_ok_iff.mp processed
      obtain ⟨-, rfl⟩ := Prod.mk.inj (Except.ok.inj processed)
      exact ih (ih before processedFirst) processedSecond

/-- **The colors that `DepthMakePlanes` puts out** for points with packed colors are integers of 24
bits. -/
theorem outTexCoords_packed {depth : ℕ} {outVertices outTexCoords : List (Fin 3 → K)}
    {drawing : Drawing K} (colored : ∀ pt ∈ b.depthPths, ∃ rgbt : RGBt, pt.w = rgbt.packed)
    (draws : depthMakePlanes c b depth outVertices outTexCoords = .ok drawing) :
    ∀ texCoord ∈ drawing.outTexCoords, ∃ n : ℕ, n < 2 ^ 24 ∧ texCoord = ![(n : K), 0, 0] := by
  obtain ⟨⟨any, results⟩, processed, draws⟩ := Semantics.bind_eq_ok_iff.mp draws
  have made := madeOf_of_process (by simp) processed
  dsimp only [drawResults] at draws
  split at draws
  · cases draws
  · rename_i groups _
    rw [drawTiles_eq_some] at draws
    obtain rfl := Except.ok.inj draws
    intro texCoord member
    obtain ⟨t, -, inTile⟩ := List.mem_flatMap.mp member
    obtain ⟨corner, unpicked⟩ := made (results.get t) (List.get_mem results t)
    choose colors hasColor using fun i => colored _ (corner i)
    have corners : (results.get t).q =
        fun i => ⟨((results.get t).q i).point, (colors i).packed⟩ :=
      funext fun i => by rw [← hasColor i]
    obtain ⟨-, -, rfl⟩ := List.mem_map.mp inTile
    refine ⟨packedChannels (meanChannel colors), packedChannels_lt (meanChannel_lt colors), ?_⟩
    rw [unpicked, if_neg Bool.false_ne_true, corners, averageColor_eq]

end Drawing

end Sqwar.Planes
