import Sqwar.Stream.Rebuilding

/-!
# Reading the colours of points

`GetDepthPointsWithColor` takes the colour of every depth from the pixel of the video that lies at
the same place of the picture.
-/

set_option autoImplicit false

namespace Sqwar.Stream

open Data

/-- Where `GetRGBVal` reads, behind the header: a luma, a Cb and a Cr. -/
def rgbReads (ix iy : ℕ) (uvData yPitch : ℤ) : Option (List ℤ) := do
  let yVal ← int32 ((← int32 (iy * yPitch)) + ix)
  let uvy := iy / 2
  -- clears the lowest bit, and all bits from the 16th on
  let uvx := ix &&& 0xFFFE
  let uVal ← int32 ((← int32 (uvy * yPitch)) + uvx)
  let vVal ← int32 (uVal + 1)
  return [yVal, uvData + uVal, uvData + vVal]

/-- Where a pass of the loops of `GetDepthPointsWithColor` reads, behind the header. -/
def colourReads (yuvData : YCrCbData) (vWidth vHeight depthWidth depthHeight x y : ℕ) :
    Option (List ℤ) := do
  let yuvData ← yuvData.rebase
  -- the index of the depth, `y * depthWidth + x`
  let _ ← nat32 ((← nat32 (y * depthWidth)) + x)
  let vx := (← nat32 (x * vWidth)) / depthWidth
  let vy := (← nat32 (y * vHeight)) / depthHeight
  rgbReads vx vy yuvData.cbCrOffset yuvData.yRowBytes

/-- Every byte that `GetDepthPointsWithColor` reads lies inside the vector. -/
def ColoursInside (vid : VideoBuffer) (vWidth vHeight depthWidth depthHeight : ℕ) : Prop :=
  sizeofYCrCbData ≤ vid.size ∧ ∀ x < depthWidth, ∀ y < depthHeight,
    ∃ reads, colourReads vid.header vWidth vHeight depthWidth depthHeight x y = some reads ∧
      ∀ i ∈ reads, vid.Inside i

/-! ### Rebuilt frames -/

variable {w h x y : ℕ} {planes : Depth.Bytes}

/-- The column of a pair is even, and not behind the pixel. -/
theorem land_fffe (x : ℕ) : x &&& 0xFFFE ≤ x ∧ (x &&& 0xFFFE) % 2 = 0 := by
  refine ⟨Nat.and_le_left, ?_⟩
  have low := Nat.and_mod_two_pow (a := x) (b := 0xFFFE) (n := 1)
  simpa using low

/-- Up to 65536 columns, the pair of a pixel starts at its column or at the one before. -/
theorem land_fffe_of_lt (small : x < 65536) : x &&& 0xFFFE = x / 2 * 2 := by
  have half : (x &&& 0xFFFE) / 2 = x / 2 := by
    -- Halved, the mask is `2 ^ 15 - 1`.
    have masked := Nat.and_two_pow_sub_one_eq_mod (x / 2) 15
    rw [Nat.mod_eq_of_lt (show x / 2 < 2 ^ 15 by omega)] at masked
    rw [Nat.and_div_two]
    exact masked
  have := (land_fffe x).2
  omega

theorem rebase_rebuiltVideo (fits : w * h + 16 < 2 ^ 31) :
    (rebuiltVideo w h planes).header.rebase = some ⟨0, w, ↑(w * h), w⟩ := by
  have offset : int32 (↑(sizeofYCrCbData + w * h) - ↑sizeofYCrCbData) = some ↑(w * h) := by
    rw [Nat.cast_add, add_sub_cancel_left, int32_of_isInt32 (isInt32_of_lt (by omega))]
  simp only [rebuiltVideo, YCrCbData.rebase, offset, Option.bind_eq_bind, Option.bind_some,
    Option.pure_def]

/-- The Cr of a pixel lies in the rows of the pairs. -/
theorem pair_lt (evenW : Even w) (evenH : Even h) (inRow : x < w) (inColumn : y < h) :
    y / 2 * w + ((x &&& 0xFFFE) + 1) < w * h / 4 * 2 := by
  have rows : w * h / 4 * 2 = w * (h / 2) := by
    rw [← cbCr_room evenW evenH, Nat.mul_right_comm, Nat.div_mul_cancel evenW.two_dvd]
  rw [rows]
  obtain ⟨before, even_column⟩ := land_fffe x
  generalize x &&& 0xFFFE = uvx at before even_column
  refine cell_lt ?_ (Nat.div_lt_div_of_lt_of_dvd evenH.two_dvd inColumn)
  obtain ⟨half, rfl⟩ := evenW
  omega

/-- Where a pixel of a picture without gaps is read. -/
theorem rgbReads_of_lt (fits : w * h < 2 ^ 31) (evenW : Even w) (evenH : Even h) (inRow : x < w)
    (inColumn : y < h) (uvData : ℤ) :
    rgbReads x y uvData w = some [↑(y * w + x), uvData + ↑(y / 2 * w + (x &&& 0xFFFE)),
      uvData + ↑(y / 2 * w + (x &&& 0xFFFE) + 1)] := by
  have cell := cell_lt inRow inColumn
  have pair := pair_lt evenW evenH inRow inColumn
  unfold rgbReads
  generalize x &&& 0xFFFE = uvx at pair ⊢
  have next := @int32_add (y / 2 * w + uvx) 1 (by omega)
  rw [Nat.cast_one] at next
  simp only [int32_mul (show y * w < 2 ^ 31 by omega),
    int32_add (show y * w + x < 2 ^ 31 by omega),
    int32_mul (show y / 2 * w < 2 ^ 31 by omega),
    int32_add (show y / 2 * w + uvx < 2 ^ 31 by omega), next, Option.bind_eq_bind,
    Option.bind_some, Option.pure_def]

/-- Where a pixel of a rebuilt frame is read. -/
theorem colourReads_rebuiltVideo (fits : w * h + 16 < 2 ^ 31) (evenW : Even w) (evenH : Even h)
    (inRow : x < w) (inColumn : y < h) (column : x * w < 2 ^ 31) (row : y * h < 2 ^ 31) :
    colourReads (rebuiltVideo w h planes).header w h w h x y =
      some [((y * w + x : ℕ) : ℤ), ((w * h : ℕ) : ℤ) + ((y / 2 * w + (x &&& 0xFFFE) : ℕ) : ℤ),
        ((w * h : ℕ) : ℤ) + ((y / 2 * w + (x &&& 0xFFFE) + 1 : ℕ) : ℤ)] := by
  have cell := cell_lt inRow inColumn
  simp only [colourReads, rebase_rebuiltVideo fits, nat32_of_lt (show y * w < 2 ^ 31 by omega),
    nat32_of_lt (show y * w + x < 2 ^ 31 by omega), nat32_of_lt column, nat32_of_lt row,
    Option.bind_eq_bind, Option.bind_some, Nat.mul_div_cancel _ (Nat.zero_lt_of_lt inRow),
    Nat.mul_div_cancel _ (Nat.zero_lt_of_lt inColumn)]
  exact rgbReads_of_lt (by omega) evenW evenH inRow inColumn _

/-- The colours of a rebuilt frame are read inside its video buffer, if no product of a coordinate
and a size overflows. -/
theorem coloursInside_rebuiltVideo (fits : w * h + 16 < 2 ^ 31) (evenW : Even w) (evenH : Even h)
    (lastColumn : (w - 1) * w < 2 ^ 31) (lastRow : (h - 1) * h < 2 ^ 31) :
    ColoursInside (rebuiltVideo w h planes) w h w h := by
  refine ⟨Nat.le_add_left _ _, fun x inRow y inColumn => ?_⟩
  have column : x * w < 2 ^ 31 :=
    (Nat.mul_le_mul_right w (Nat.le_sub_one_of_lt inRow)).trans_lt lastColumn
  have row : y * h < 2 ^ 31 :=
    (Nat.mul_le_mul_right h (Nat.le_sub_one_of_lt inColumn)).trans_lt lastRow
  refine ⟨_, colourReads_rebuiltVideo fits evenW evenH inRow inColumn column row, ?_⟩
  have cell := cell_lt inRow inColumn
  have pair := pair_lt evenW evenH inRow inColumn
  -- Only the bound of the pair is needed from here on.
  generalize x &&& 0xFFFE = uvx at pair ⊢
  simp only [← Nat.cast_add, List.mem_cons, List.not_mem_nil, or_false]
  rintro i (rfl | rfl | rfl)
  · exact inside_rebuiltVideo (by omega)
  · exact inside_rebuiltVideo (by omega)
  · exact inside_rebuiltVideo (by omega)

/-- The largest even size whose product with its last coordinate fits. -/
theorem le_of_pixels {n : ℕ} (even : Even n) (fits : (n - 1) * n < 2 ^ 31) : n ≤ 46340 := by
  obtain ⟨half, rfl⟩ := even
  by_contra! beyond
  have := Nat.mul_le_mul (show 46341 ≤ half + half - 1 by omega) (show 46342 ≤ half + half by omega)
  omega

/-- The last pair of a picture of an odd size lies behind its video buffer. -/
theorem even_of_pair_lt (wide : 0 < w) (high : 0 < h)
    (inside : (h - 1) / 2 * w + (w - 1) / 2 * 2 + 1 < w * h / 4 * 2) : Even w ∧ Even h := by
  have room : w * h / 4 * 2 * 2 ≤ w * h := by omega
  -- Of an odd number of pixels, the quarter is rounded down below the last pair.
  rcases Nat.even_or_odd' h with ⟨k, rfl | rfl⟩
  · rcases Nat.even_or_odd' w with ⟨j, rfl | rfl⟩
    · exact ⟨even_two_mul j, even_two_mul k⟩
    · exfalso
      obtain ⟨k, rfl⟩ : ∃ k', k = k' + 1 := ⟨k - 1, by omega⟩
      have rows : (2 * (k + 1) - 1) / 2 = k := by omega
      rw [rows] at inside
      have : (2 * j + 1) * (2 * (k + 1)) = k * (2 * j + 1) * 2 + 2 * (2 * j + 1) := by ring
      omega
  · exfalso
    have rows : (2 * k + 1 - 1) / 2 = k := by omega
    rw [rows] at inside
    have : w * (2 * k + 1) = k * w * 2 + w := by ring
    omega

/-- Where a pixel's Cr is read. -/
theorem mem_of_rgbReads {ix iy : ℕ} {uvData yPitch : ℤ} {reads : List ℤ}
    (isRead : rgbReads ix iy uvData yPitch = some reads) :
    uvData + (↑(iy / 2) * yPitch + ↑(ix &&& 0xFFFE) + 1) ∈ reads := by
  simp only [rgbReads, Option.bind_eq_bind, Option.bind_eq_some_iff, int32_eq_some_iff,
    Option.pure_def, Option.some.injEq] at isRead
  obtain ⟨_, -, _, -, _, ⟨-, rfl⟩, _, ⟨-, rfl⟩, _, ⟨-, rfl⟩, rfl⟩ := isRead
  exact List.mem_cons_of_mem _ (List.mem_cons_of_mem _ List.mem_cons_self)

/-- Where the colours of a rebuilt frame can be read, its sizes are even, and no product of a
coordinate and a size overflows. -/
theorem of_coloursInside_rebuiltVideo (fits : w * h + 16 < 2 ^ 31) (wide : 0 < w) (high : 0 < h)
    (colours : ColoursInside (rebuiltVideo w h planes) w h w h) :
    (Even w ∧ Even h) ∧ (w - 1) * w < 2 ^ 31 ∧ (h - 1) * h < 2 ^ 31 := by
  obtain ⟨reads, isRead, inside⟩ := colours.2 (w - 1) (by omega) (h - 1) (by omega)
  simp only [colourReads, rebase_rebuiltVideo fits, Option.bind_eq_bind, Option.bind_eq_some_iff,
    Option.some.injEq, nat32_eq_some_iff] at isRead
  obtain ⟨_, rfl, _, -, _, -, _, ⟨column, rfl⟩, _, ⟨row, rfl⟩, isRead⟩ := isRead
  refine ⟨?_, column, row⟩
  -- The product of the last column fits, so the mask keeps all of the column but its parity.
  have narrow : w - 1 < 65536 := by
    by_contra! beyond
    have := Nat.mul_le_mul beyond (show 65536 ≤ w by omega)
    omega
  have last := (inside _ (mem_of_rgbReads isRead)).2
  rw [Nat.mul_div_cancel _ wide, Nat.mul_div_cancel _ high, land_fffe_of_lt narrow,
    ← Nat.cast_mul] at last
  change ((16 : ℕ) : ℤ) + (((w * h : ℕ) : ℤ) + _) <
    ((w * h + w * h / 4 * 2 + 16 : ℕ) : ℤ) at last
  exact even_of_pair_lt wide high (by omega)

end Sqwar.Stream
