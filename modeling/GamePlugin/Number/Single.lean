/-!
# Single-precision numbers

Plugins store all fractions in single precision. Whole numbers are rounded to the nearest
representable value, ties to even, as every operation on these numbers does.
-/

namespace GamePlugin.Single

/-- The stored form of a number is its 32 bits. -/
def ofBits (bits : UInt32) : Float32 := Float32.ofBits bits

/-- The nearest number to an unsigned word. -/
def ofUInt32 (n : UInt32) : Float32 := n.toFloat32

/-- The nearest number to a signed word; rounding is symmetric about zero. -/
def ofInt32 (n : Int32) : Float32 :=
  if n < 0 then -(UInt32.ofNat n.toInt.natAbs).toFloat32 else n.toUInt32.toFloat32

end GamePlugin.Single
