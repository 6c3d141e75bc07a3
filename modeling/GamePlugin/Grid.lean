import GamePlugin.FormId

/-!
# Grid positions

An exterior cell lies at whole coordinates of a world. Cells are collected in blocks of 32 by 32 and
sub-blocks of 8 by 8; the label of such a group packs the two quotients, each in 16 bits. Interior
cells have coordinates but no world, which is written as world `-1`.
-/

namespace GamePlugin

/-- A cell's coordinates and its world. -/
structure GridPosition where
  x : Int32
  y : Int32
  /-- The world's form id as a signed word; `-1` for none. -/
  world : Int32
deriving DecidableEq

namespace GridPosition

/-- A position outside any world. -/
def interior (x y : Int32) : GridPosition := ⟨x, y, -1⟩

/-- A position in a world. -/
def exterior (world : FormId) (x y : Int32) : GridPosition := ⟨x, y, world.value.toInt32⟩

/-- Whether the position lies outside any world. -/
def isInterior (p : GridPosition) : Bool := p.world = -1

/-- The form id of the position's world. -/
def worldForm (p : GridPosition) : FormId := ⟨p.world.toUInt32⟩

/-- Two coordinates in one word, the first in the low half, each modulo `2^16`. -/
def pack (x y : Int) : UInt32 :=
  UInt32.ofNat ((x % 0x10000).toNat + 0x10000 * (y % 0x10000).toNat)

/-- The label of the block that holds the position. -/
def blockKey (p : GridPosition) : UInt32 := pack (p.x.toInt / 32) (p.y.toInt / 32)

/-- The label of the sub-block that holds the position. -/
def subBlockKey (p : GridPosition) : UInt32 := pack (p.x.toInt / 8) (p.y.toInt / 8)

/-- The position as text. -/
def text (p : GridPosition) : String :=
  let place := if p.isInterior then "interior" else "in " ++ p.worldForm.text
  s!"({p.x.toInt}, {p.y.toInt}) {place}"

end GridPosition

end GamePlugin
