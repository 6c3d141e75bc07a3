import GamePlugin.Error
import GamePlugin.Tag.Names

/-!
# Chunks

A file is a run of chunks. A record chunk has a payload of fields; a group chunk has a payload of
further chunks. Both start with a header, after which the payload lies at `position` and ends at
`stop`.

A group's label means different things for different kinds of groups: a record tag, a form id, or a
pair of grid coordinates.
-/

namespace GamePlugin

/-- What a group collects. -/
inductive GroupKind where
  | top
  | worldChildren
  | interiorCellBlock
  | interiorCellSubBlock
  | exteriorCellBlock
  | exteriorCellSubBlock
  | cellChildren
  | topicChildren
  | cellPersistentChildren
  | cellTemporaryChildren
  | cellVisibleDistantChildren
deriving DecidableEq

namespace GroupKind

/-- Every kind, in the order of their numbers. -/
def all : List GroupKind :=
  [top, worldChildren, interiorCellBlock, interiorCellSubBlock, exteriorCellBlock,
    exteriorCellSubBlock, cellChildren, topicChildren, cellPersistentChildren,
    cellTemporaryChildren, cellVisibleDistantChildren]

/-- The kind's number in a file. -/
def number : GroupKind → Nat
  | top => 0
  | worldChildren => 1
  | interiorCellBlock => 2
  | interiorCellSubBlock => 3
  | exteriorCellBlock => 4
  | exteriorCellSubBlock => 5
  | cellChildren => 6
  | topicChildren => 7
  | cellPersistentChildren => 8
  | cellTemporaryChildren => 9
  | cellVisibleDistantChildren => 10

/-- The kind's name in one word. -/
def name : GroupKind → String
  | top => "Top"
  | worldChildren => "WorldChildren"
  | interiorCellBlock => "InteriorCellBlock"
  | interiorCellSubBlock => "InteriorCellSubBlock"
  | exteriorCellBlock => "ExteriorCellBlock"
  | exteriorCellSubBlock => "ExteriorCellSubBlock"
  | cellChildren => "CellChildren"
  | topicChildren => "TopicChildren"
  | cellPersistentChildren => "CellPersistentChildren"
  | cellTemporaryChildren => "CellTemporaryChildren"
  | cellVisibleDistantChildren => "CellVisibleDistantChildren"

/-- The kind with a number, if there is one. -/
def ofNumber? (n : Int) : Option GroupKind :=
  match n with
  | 0 => some top
  | 1 => some worldChildren
  | 2 => some interiorCellBlock
  | 3 => some interiorCellSubBlock
  | 4 => some exteriorCellBlock
  | 5 => some exteriorCellSubBlock
  | 6 => some cellChildren
  | 7 => some topicChildren
  | 8 => some cellPersistentChildren
  | 9 => some cellTemporaryChildren
  | 10 => some cellVisibleDistantChildren
  | _ => none

@[simp] theorem ofNumber?_number (kind : GroupKind) : ofNumber? kind.number = some kind := by
  cases kind <;> rfl

end GroupKind

/-- The header of a record. -/
@[ext]
structure RecordHeader where
  tag : Tag
  /-- Bytes in the payload, as stored. -/
  dataSize : UInt32
  flags : UInt32
  form : FormId
  /-- Where the payload starts. -/
  position : Nat
  /-- The group node that the record was read into, if any. -/
  parent : Option Nat
deriving DecidableEq

namespace RecordHeader

/-- Flag of a plugin that others build on. -/
def masterFlag : UInt32 := 0x1

/-- Flag of a deleted record. -/
def deletedFlag : UInt32 := 0x20

/-- Flag of a root record whose plugin keeps its texts in string tables. -/
def localizedFlag : UInt32 := 0x80

/-- Flag of a compressed payload. -/
def compressedFlag : UInt32 := 0x40000

/-- Whether the payload is compressed. -/
def isCompressed (h : RecordHeader) : Bool := h.flags &&& compressedFlag != 0

/-- Whether the record is deleted. -/
def isDeleted (h : RecordHeader) : Bool := h.flags &&& deletedFlag != 0

/-- Where the payload ends. -/
def stop (h : RecordHeader) : Nat := h.position + h.dataSize.toNat

end RecordHeader

/-- The header of a group. -/
structure GroupHeader where
  label : UInt32
  kind : GroupKind
  /-- Bytes in the payload; the header itself does not count. -/
  dataSize : UInt32
  /-- Where the payload starts. -/
  position : Nat
deriving DecidableEq

namespace GroupHeader

/-- The label as a record tag. -/
def labelTag (h : GroupHeader) : Tag := ⟨h.label⟩

/-- The label as a form id. -/
def labelForm (h : GroupHeader) : FormId := ⟨h.label⟩

/-- The label as a pair of signed grid coordinates, the first in the low half. -/
def labelGrid (h : GroupHeader) : Int16 × Int16 :=
  (h.label.toUInt16.toInt16, (h.label >>> 16).toUInt16.toInt16)

/-- Where the payload ends. -/
def stop (h : GroupHeader) : Nat := h.position + h.dataSize.toNat

end GroupHeader

/-- The header of a chunk. -/
inductive Chunk where
  | record (header : RecordHeader)
  | group (header : GroupHeader)
deriving DecidableEq

namespace Chunk

/-- Where the payload starts. -/
def position : Chunk → Nat
  | record h => h.position
  | group h => h.position

/-- Where the payload, and so the chunk, ends. -/
def stop : Chunk → Nat
  | record h => h.stop
  | group h => h.stop

theorem position_le_stop (c : Chunk) : c.position ≤ c.stop := by
  cases c <;> simp [position, stop, RecordHeader.stop, GroupHeader.stop]

end Chunk

end GamePlugin
