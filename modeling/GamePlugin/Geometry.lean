import GamePlugin.Field.Layout

/-!
# Colors, points and placements
-/

namespace GamePlugin

/-- A color with four channels. -/
structure Color where
  r : UInt8 := 0
  g : UInt8 := 0
  b : UInt8 := 0
  a : UInt8 := 0
deriving DecidableEq

/-- A point of the plane. -/
structure Planar where
  x : Float32 := 0
  y : Float32 := 0

/-- A point of space. -/
structure Point where
  x : Float32 := 0
  y : Float32 := 0
  z : Float32 := 0

/-- Where something stands and how it is turned. -/
structure Placement where
  position : Point := {}
  rotation : Point := {}

/-- A corner of a box with whole coordinates. -/
structure Corner where
  x : Int16 := 0
  y : Int16 := 0
  z : Int16 := 0
deriving DecidableEq

/-- A box with whole coordinates. -/
structure Bounds where
  min : Corner := {}
  max : Corner := {}
deriving DecidableEq

namespace Layout

/-- Four bytes: red, green, blue and the fourth channel. -/
def color : Layout Color :=
  ((byte.append (byte.append (byte.append byte))).map fun (r, g, b, a) => ⟨r, g, b, a⟩).named

/-- Two numbers. -/
def planar : Layout Planar := (single.append single).map fun (x, y) => ⟨x, y⟩

/-- Three numbers. -/
def point : Layout Point := (single.append (single.append single)).map fun (x, y, z) => ⟨x, y, z⟩

/-- Position, then rotation. -/
def placement : Layout Placement := ((point.append point).map fun (p, r) => ⟨p, r⟩).named

/-- Three signed words. -/
def corner : Layout Corner := (int16.append (int16.append int16)).map fun (x, y, z) => ⟨x, y, z⟩

/-- Least corner, then greatest. -/
def bounds : Layout Bounds := ((corner.append corner).map fun (low, high) => ⟨low, high⟩).named

end Layout

end GamePlugin
