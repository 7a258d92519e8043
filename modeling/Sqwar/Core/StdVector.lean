import Sqwar.Data.LittleEndian

/-!
# Vectors and the faults of using them

What the modelled code needs of `std::vector`: a size that `max_size()` bounds, and `resize`.
Undefined behaviour and exceptions end a model's run as a `Fault`.
-/

set_option autoImplicit false

namespace Sqwar

open Data

/-- `sizeof(size_t)`. -/
def sizeofSizeT : ℕ := 8

/-- `sizeof(float)`. -/
def sizeofFloat : ℕ := 4

/-- The bytes a vector can hold, `max_size() * sizeof(T)`; a longer `resize` throws. -/
def vectorMaxSize : ℕ := 2 ^ 63 - 1

/-- What ends a run abnormally: `std::length_error` from `resize`, or an access outside the
object it is made through. -/
inductive Fault | lengthError | outOfBounds
  deriving DecidableEq, Repr

/-- A `std::vector<unsigned char>`. -/
@[ext] structure ByteVector where
  bytes : List UInt8
  fits : bytes.length ≤ vectorMaxSize
  deriving DecidableEq

/-- A `std::vector<T>` of a trivially copyable `T` of `width` bytes, seen as the numbers its
elements' bytes spell. -/
@[ext] structure WordVector (width : ℕ) where
  words : List (Word width)
  fits : words.length * width ≤ vectorMaxSize
  deriving DecidableEq

/-- The empty vector. -/
def ByteVector.empty : ByteVector := ⟨[], Nat.zero_le _⟩

/-- `resize`: what is kept keeps its bytes, what is new is zero. -/
def ByteVector.resize (vector : ByteVector) (size : ℕ) : Except Fault ByteVector :=
  if within : size ≤ vectorMaxSize then
    .ok ⟨vector.bytes.take size ++ List.replicate (size - vector.bytes.length) 0, by
      rw [List.length_append, List.length_take, List.length_replicate]
      omega⟩
  else .error .lengthError

/-- The vector once bytes have been read into its front. -/
def ByteVector.fill (vector : ByteVector) (bytes : List UInt8) : ByteVector :=
  ⟨(overwrite vector.bytes 0 bytes).take vector.bytes.length,
    (List.length_take_le _ _).trans vector.fits⟩

/-- `resize(bytes.size() / sizeof(T))` followed by a `memcpy` of all the bytes. -/
def WordVector.ofBytes (width : ℕ) (vector : ByteVector) : Except Fault (WordVector width) :=
  let words := decodeWords width (vector.bytes.length / width) vector.bytes
  if vector.bytes.length % width ≠ 0 then .error .outOfBounds
  else if within : words.length * width ≤ vectorMaxSize then .ok ⟨words, within⟩
  else .error .lengthError

/-- The bytes of the elements. -/
def WordVector.toBytes {width : ℕ} (vector : WordVector width) : ByteVector :=
  ⟨encodeWords vector.words, by rw [encodeWords_length]; exact vector.fits⟩

theorem ByteVector.resize_eq_ok (vector : ByteVector) {size : ℕ} (within : size ≤ vectorMaxSize) :
    ∃ resized, vector.resize size = .ok resized ∧ resized.bytes.length = size := by
  refine ⟨_, dif_pos within, ?_⟩
  rw [List.length_append, List.length_take, List.length_replicate]
  omega

theorem ByteVector.length_of_resize {vector resized : ByteVector} {size : ℕ}
    (resize : vector.resize size = .ok resized) :
    resized.bytes.length = size ∧ size ≤ vectorMaxSize := by
  by_cases within : size ≤ vectorMaxSize
  · obtain ⟨resized', resize', length⟩ := vector.resize_eq_ok within
    obtain rfl := Except.ok.inj (resize.symm.trans resize')
    exact ⟨length, within⟩
  · rw [ByteVector.resize, dif_neg within] at resize
    cases resize

/-- Bytes that fill a vector replace its content. -/
theorem ByteVector.fill_of_length_eq {vector : ByteVector} {bytes : List UInt8}
    (whole : bytes.length = vector.bytes.length) : (vector.fill bytes).bytes = bytes := by
  change (overwrite vector.bytes 0 bytes).take vector.bytes.length = bytes
  rw [overwrite_zero, ← whole, List.take_left]

/-- The elements of a vector survive the way through its bytes. -/
theorem WordVector.ofBytes_toBytes {width : ℕ} (pos : 0 < width) (vector : WordVector width) :
    WordVector.ofBytes width vector.toBytes = .ok vector := by
  have words : decodeWords width (vector.toBytes.bytes.length / width) vector.toBytes.bytes =
      vector.words := by
    rw [WordVector.toBytes, encodeWords_length, Nat.mul_div_cancel _ pos, decodeWords_encodeWords]
  have aligned : vector.toBytes.bytes.length % width = 0 := by
    rw [WordVector.toBytes, encodeWords_length, Nat.mul_mod_left]
  simp only [WordVector.ofBytes, words, aligned, vector.fits, ne_eq, not_true_eq_false, if_false,
    dite_true]

end Sqwar
