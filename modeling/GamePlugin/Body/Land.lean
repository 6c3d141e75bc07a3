import GamePlugin.Body.Rule

/-!
# Landscape

The heights of a cell are stored as differences: the first of a row to the first of the row before,
every other one to its neighbour before it. One stored unit is eight units of the world.
-/

namespace GamePlugin

open Field.Reader

/-! ## Heights -/

/-- Heights as stored. -/
structure HeightMap where
  /-- Height before the first difference. -/
  offset : Float32
  /-- Differences, row after row. -/
  deltas : List Int8

namespace HeightMap

/-- How many points a side can have. -/
def sides : List Nat := [65, 33]

/-- How many points a side has. -/
def side? (m : HeightMap) : Option Nat := sides.find? fun n => n * n == m.deltas.length

/-- Sums of a start and ever more differences. -/
def runningSums (start : Float32) : List Int8 → List Float32
  | [] => []
  | delta :: deltas =>
    let sum := start + Single.ofInt32 delta.toInt32
    sum :: runningSums sum deltas

/-- Differences cut into rows. -/
def rows (side : Nat) (deltas : List Int8) : List (List Int8) :=
  (List.range side).map fun i => (deltas.drop (i * side)).take side

/-- Heights of rows, each of which starts from the first height of the one before. -/
def sumRows (start : Float32) : List (List Int8) → List (List Float32)
  | [] => []
  | row :: rest =>
    let heights := runningSums start row
    heights :: sumRows (heights.headD start) rest

/-- Heights in units of the world, row after row. -/
def heights? (m : HeightMap) : Option (List Float32) :=
  m.side?.map fun side => (sumRows m.offset (rows side m.deltas)).flatten.map (· * 8)

end HeightMap

/-! ## Land -/

/-- How opaque a texture is at a point. -/
structure Opacity where
  position : UInt16
  opacity : Float32

/-- Position, two unused bytes, opacity. -/
def Layout.opacity : Layout Opacity :=
  (word16.append (word16.append single)).map fun (position, _, opacity) => ⟨position, opacity⟩

/-- A texture on a quarter of the land. -/
structure LandLayer where
  texture : FormId
  quadrant : UInt8
  /-- Number of the layer; none for the lowest. -/
  layer : Option UInt16
  alpha : List Opacity := []

/-- The landscape of a cell. -/
structure Land where
  flags : UInt32 := 0
  /-- Coordinates, in the oldest schema. -/
  grid : Option (Int32 × Int32) := none
  /-- Normals, as stored. -/
  normals : Option Bytes := none
  heightMap : Option HeightMap := none
  /-- Colors, as stored. -/
  colors : Option Bytes := none
  textureIndices : Option (List UInt16) := none
  layers : Array LandLayer := #[]

namespace Land

/-- How many points a side has. -/
def side? (l : Land) : Option Nat := l.heightMap.bind (·.side?)

/-- Heights in units of the world, row after row. -/
def heights? (l : Land) : Option (List Float32) := l.heightMap.bind (·.heights?)

/-- Heights of a land with so many points a side. -/
def readHeights (side : Nat) (l : Land) : Field.Reader Land := do
  let offset ← single
  let deltas ← bytes (side * side)
  skip 3
  return { l with heightMap := some ⟨offset, deltas.map (·.toInt8)⟩ }

/-- Adds a layer, which is the lowest one unless it is `numbered`. -/
def readLayer (numbered : Bool) (l : Land) : Field.Reader Land := do
  let texture ← formId
  let quadrant ← byte
  skip 1
  let number ← word16
  let layer := if numbered then some number else none
  return { l with layers := l.layers.push { texture, quadrant, layer } }

/-- Fields of a land. -/
def rules : List (Rule Land) :=
  [ .on .INTV (.exactly 8) fun l => do
      let x ← int32
      let y ← int32
      return { l with grid := some (x, y) },
    .on .DATA (.exactly 4) fun l => return { l with flags := ← word32 },
    .on .VNML .any fun l => return { l with normals := some (← toEnd) },
    .on .VCLR .any fun l => return { l with colors := some (← toEnd) },
    .on .VHGT (.exactly 4232) (readHeights 65),
    .on .VHGT (.exactly 1096) (readHeights 33),
    .on .VTEX (.exactly 512) fun l =>
      return { l with textureIndices := some (← items Layout.word16) },
    .on .BTXT (.exactly 8) (readLayer false),
    .on .ATXT (.exactly 8) (readLayer true),
    .on .VTXT (.multipleOf 8) fun l => do
      let alpha ← items Layout.opacity
      return { l with layers := modifyLast l.layers ({ · with alpha }) } ]

end Land

end GamePlugin
