import Mathlib.Algebra.GroupWithZero.Nat
import Mathlib.Data.Nat.Cast.Defs
import Mathlib.Data.Nat.ModEq
import Mathlib.Tactic.Positivity
import Mathlib.Tactic.Ring

/-!
# Little-endian words and byte-range copies

Fixed-width little-endian encodings of naturals as byte lists, the injectivity that lets a
reader recover a number from its bytes, and the overlay a `memcpy` leaves in its destination.
-/

set_option autoImplicit false

namespace Data

/-- The natural number that little-endian bytes spell. -/
def decodeLE : List UInt8 → ℕ
  | [] => 0
  | byte :: rest => byte.toNat + 256 * decodeLE rest

/-- The low `width` bytes of `n`, least significant byte first. -/
def encodeLE : ℕ → ℕ → List UInt8
  | 0, _ => []
  | width + 1, n => UInt8.ofNat n :: encodeLE width (n / 256)

@[simp] theorem encodeLE_length (width n : ℕ) : (encodeLE width n).length = width := by
  induction width generalizing n with
  | zero => rw [encodeLE, List.length_nil]
  | succ width ih => rw [encodeLE, List.length_cons, ih]

/-- Decoding returns the encoded number, reduced to the width. -/
theorem decodeLE_encodeLE_eq_mod (width n : ℕ) :
    decodeLE (encodeLE width n) = n % 256 ^ width := by
  induction width generalizing n with
  | zero => simp [encodeLE, decodeLE, Nat.mod_one]
  | succ width ih =>
    have low : (UInt8.ofNat n).toNat = n % 256 := by simp
    rw [encodeLE, decodeLE, ih, low, pow_succ', Nat.mod_mul]

theorem decodeLE_encodeLE {width n : ℕ} (fits : n < 256 ^ width) :
    decodeLE (encodeLE width n) = n := by
  rw [decodeLE_encodeLE_eq_mod, Nat.mod_eq_of_lt fits]

/-- Every byte string is the encoding of the number it spells. -/
theorem encodeLE_decodeLE (bytes : List UInt8) :
    encodeLE bytes.length (decodeLE bytes) = bytes := by
  induction bytes with
  | nil => rfl
  | cons byte rest ih =>
    have small : byte.toNat < 256 := byte.toNat_lt
    have high : (byte.toNat + 256 * decodeLE rest) / 256 = decodeLE rest := by omega
    have low : UInt8.ofNat (byte.toNat + 256 * decodeLE rest) = byte := by
      apply UInt8.toNat_inj.mp
      simp only [UInt8.toNat_ofNat']
      omega
    rw [decodeLE, List.length_cons, encodeLE, high, ih, low]

/-- Bytes of the right width that spell a number are its encoding. -/
theorem eq_encodeLE_of_decodeLE_eq {bytes : List UInt8} {width n : ℕ}
    (length : bytes.length = width) (spells : decodeLE bytes = n) :
    bytes = encodeLE width n := by
  rw [← spells, ← length, encodeLE_decodeLE]

/-- A prefix of the bytes spells at most the number they spell. -/
theorem decodeLE_take_le (bytes : List UInt8) (n : ℕ) :
    decodeLE (bytes.take n) ≤ decodeLE bytes := by
  induction bytes generalizing n with
  | nil => simp
  | cons byte rest ih =>
    cases n with
    | zero => simp [decodeLE]
    | succ n =>
      rw [List.take_succ_cons, decodeLE, decodeLE]
      have := ih n
      omega

/-! ### Words -/

/-- The numbers of a fixed byte width: the values of a trivially copyable scalar. -/
abbrev Word (width : ℕ) := Fin (256 ^ width)

/-!
A literal of a word, of an index or of a field carries a proof that it is not too small. The general
instances assemble that proof at each literal, and elaboration keeps it as a lemma of the definition
where it first occurs; given by name, it is the same in every module.
-/

instance neZero_word_four : NeZero (256 ^ 4) := ⟨by decide⟩

instance neZero_word_eight : NeZero (256 ^ 8) := ⟨by decide⟩

instance neZero_two : NeZero 2 := ⟨by decide⟩

instance neZero_three : NeZero 3 := ⟨by decide⟩

instance neZero_four : NeZero 4 := ⟨by decide⟩

instance atLeastTwo_two : Nat.AtLeastTwo 2 := ⟨by decide⟩

instance atLeastTwo_four : Nat.AtLeastTwo 4 := ⟨by decide⟩

instance atLeastTwo_256 : Nat.AtLeastTwo 256 := ⟨by decide⟩

/-- The word at the front of some bytes, and the bytes behind it. -/
def takeWord (width : ℕ) (bytes : List UInt8) : Word width × List UInt8 :=
  (⟨decodeLE (bytes.take width) % 256 ^ width, Nat.mod_lt _ (by positivity)⟩, bytes.drop width)

@[simp] theorem takeWord_encodeLE {width : ℕ} (word : Word width) (rest : List UInt8) :
    takeWord width (encodeLE width word ++ rest) = (word, rest) := by
  have length := encodeLE_length width word
  simp only [takeWord, Prod.mk.injEq]
  refine ⟨Fin.ext ?_, List.drop_left' length⟩
  simp only [List.take_left' length, decodeLE_encodeLE word.isLt, Nat.mod_eq_of_lt word.isLt]

/-- The bytes of consecutive words. -/
def encodeWords {width : ℕ} (words : List (Word width)) : List UInt8 :=
  words.flatMap fun word => encodeLE width word

/-- The given number of consecutive words at the front of some bytes. -/
def decodeWords (width : ℕ) : ℕ → List UInt8 → List (Word width)
  | 0, _ => []
  | count + 1, bytes =>
    (takeWord width bytes).1 :: decodeWords width count (takeWord width bytes).2

@[simp] theorem encodeWords_cons {width : ℕ} (word : Word width) (words : List (Word width)) :
    encodeWords (word :: words) = encodeLE width word ++ encodeWords words := rfl

@[simp] theorem decodeWords_length (width count : ℕ) (bytes : List UInt8) :
    (decodeWords width count bytes).length = count := by
  induction count generalizing bytes with
  | zero => rfl
  | succ count ih => rw [decodeWords, List.length_cons, ih]

theorem encodeWords_append {width : ℕ} (words words' : List (Word width)) :
    encodeWords (words ++ words') = encodeWords words ++ encodeWords words' := by
  induction words with
  | nil => rfl
  | cons word words ih =>
    rw [List.cons_append, encodeWords_cons, encodeWords_cons, ih, List.append_assoc]

theorem encodeWords_length {width : ℕ} (words : List (Word width)) :
    (encodeWords words).length = words.length * width := by
  induction words with
  | nil => simp [encodeWords]
  | cons word words ih =>
    rw [encodeWords_cons, List.length_append, encodeLE_length, ih, List.length_cons]
    ring

/-- Decoding returns the words at the front, whatever follows them. -/
@[simp] theorem decodeWords_encodeWords_append {width : ℕ} (words : List (Word width))
    (rest : List UInt8) : decodeWords width words.length (encodeWords words ++ rest) = words := by
  induction words with
  | nil => rfl
  | cons word words ih =>
    rw [List.length_cons, decodeWords, encodeWords_cons, List.append_assoc, takeWord_encodeLE, ih]

theorem decodeWords_encodeWords {width : ℕ} (words : List (Word width)) :
    decodeWords width words.length (encodeWords words) = words := by
  simpa using decodeWords_encodeWords_append words []

/-! ### Copies into a destination -/

variable {α : Type*}

/-- The destination after a `memcpy` of `src` to offset `offset`. -/
def overwrite (dst : List α) (offset : ℕ) (src : List α) : List α :=
  dst.take offset ++ src ++ dst.drop (offset + src.length)

theorem overwrite_length (dst src : List α) {offset : ℕ}
    (within : offset + src.length ≤ dst.length) :
    (overwrite dst offset src).length = dst.length := by
  simp only [overwrite, List.length_append, List.length_take, List.length_drop]
  omega

/-- Below the end of the copy, the destination is its old prefix followed by the source. -/
theorem overwrite_take (dst src : List α) {offset : ℕ} (within : offset ≤ dst.length) :
    (overwrite dst offset src).take (offset + src.length) = dst.take offset ++ src := by
  have length : (dst.take offset ++ src).length = offset + src.length := by
    simp only [List.length_append, List.length_take]
    omega
  rw [overwrite, ← length, List.take_left]

/-- A copy from the start of the destination keeps only what lies behind the source. -/
theorem overwrite_zero (dst src : List α) :
    overwrite dst 0 src = src ++ dst.drop src.length := by
  simp [overwrite]

end Data
