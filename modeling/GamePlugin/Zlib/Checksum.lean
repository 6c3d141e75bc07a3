import GamePlugin.Bytes

/-!
# The checksum of a stream

Two running sums modulo the largest prime below `2^16`: of the bytes, and of the first sum's values.
-/

namespace GamePlugin.Zlib

/-- The modulus of both sums. -/
def checksumModulus : Nat := 65521

/-- Both sums after one more byte. -/
def checksumStep (sums : Nat × Nat) (b : UInt8) : Nat × Nat :=
  let low := (sums.1 + b.toNat) % checksumModulus
  (low, (sums.2 + low) % checksumModulus)

/-- The checksum of a byte string: the second sum in the high half, the first, which starts at one,
in the low half. -/
def checksum (bs : Bytes) : Nat :=
  let sums := bs.foldl checksumStep (1, 0)
  sums.2 * 0x10000 + sums.1

end GamePlugin.Zlib
