/-!
# Byte strings and file images

Two containers hold bytes. A `Bytes` is a list, read from the front: a record payload, a field, a
written plugin. An `Image` is a whole file, read at any offset. `Image.slice` is the bridge: it cuts
a `Bytes` out of an image, and it agrees with cutting the list of all the image's bytes.

Numbers are stored least significant byte first.

## Main definitions

* `Bytes.toNat`, `Bytes.ofNat` — a little-endian number and its bytes.
* `Image.slice`, `Image.read` — the bytes at an offset, and the same with a bounds check.
-/

namespace GamePlugin

/-- A byte string that is read from the front. -/
abbrev Bytes := List UInt8

namespace Bytes

/-- The number written least significant byte first. -/
def toNat : Bytes → Nat
  | [] => 0
  | b :: bs => b.toNat + 256 * toNat bs

/-- The `width` low bytes of a number, least significant byte first. -/
def ofNat : (width n : Nat) → Bytes
  | 0, _ => []
  | width + 1, n => UInt8.ofNat n :: ofNat width (n / 256)

@[simp] theorem length_ofNat (width n : Nat) : (ofNat width n).length = width := by
  induction width generalizing n with
  | zero => rfl
  | succ width ih => simp [ofNat, ih]

/-- The 16-bit word at the front; missing bytes count as zero. -/
def word16 (bs : Bytes) : UInt16 := UInt16.ofNat (toNat (bs.take 2))

/-- The 32-bit word at the front; missing bytes count as zero. -/
def word32 (bs : Bytes) : UInt32 := UInt32.ofNat (toNat (bs.take 4))

/-- The two bytes of a word. -/
def ofUInt16 (w : UInt16) : Bytes := ofNat 2 w.toNat

/-- The four bytes of a word. -/
def ofUInt32 (w : UInt32) : Bytes := ofNat 4 w.toNat

@[simp] theorem length_ofUInt16 (w : UInt16) : (ofUInt16 w).length = 2 := length_ofNat ..

@[simp] theorem length_ofUInt32 (w : UInt32) : (ofUInt32 w).length = 4 := length_ofNat ..

/-- `n` zero bytes. -/
def zeros (n : Nat) : Bytes := List.replicate n 0

/-- The bytes cut or filled up with zeros to exactly `n`. -/
def padTo (n : Nat) (bs : Bytes) : Bytes := bs.take n ++ zeros (n - bs.length)

end Bytes

/-- The contents of a file. -/
abbrev Image := ByteArray

namespace Image

/-- All bytes of an image, in order. -/
def bytes (image : Image) : Bytes := image.data.toList

/-- An image with the given contents. -/
def ofBytes (bs : Bytes) : Image := ⟨bs.toArray⟩

@[simp] theorem bytes_ofBytes (bs : Bytes) : bytes (ofBytes bs) = bs := by
  simp [bytes, ofBytes]

/-- Up to `n` bytes from an offset on; fewer where the image ends. -/
def slice (image : Image) (offset n : Nat) : Bytes :=
  (image.extract offset (offset + n)).data.toList

/-- A slice of an image is the same slice of the list of its bytes. -/
theorem slice_eq (image : Image) (offset n : Nat) :
    slice image offset n = (bytes image |>.drop offset |>.take n) := by
  simp [slice, bytes, ByteArray.data_extract]

/-- Exactly `n` bytes from an offset on, if the image reaches that far. -/
def read (image : Image) (offset n : Nat) : Option Bytes :=
  if offset + n ≤ image.size then some (slice image offset n) else none

end Image

end GamePlugin
