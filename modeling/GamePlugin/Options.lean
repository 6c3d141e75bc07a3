import GamePlugin.Record
import GamePlugin.Registry.Standard

/-!
# Reading options

What a caller can choose: the edition, limits, whether cells are prepared at once, and the registry.
The registry and the size limit decide for each record whether it is read, passed over or refused.
-/

namespace GamePlugin

/-- Choices for reading a file. -/
structure Options where
  /-- Edition to take instead of the one that the file suggests. -/
  edition : Option Edition := none
  /-- Bytes that a payload, plain or inflated, may have. -/
  maxRecordSize : Nat := 256 * 1024 * 1024
  /-- How many sub-blocks may be resolved in a session. -/
  subBlockLimit : Option Nat := none
  /-- Whether the top groups of cells and worlds are loaded as soon as they are found. -/
  eager : Bool := true
  registry : Registry := .standard

namespace Options

/-- The shape to read a record as; none if it is to be passed over. A record that is to be read must
be within the size limit. -/
def shapeFor (o : Options) (edition : Edition) (header : RecordHeader) :
    Except Error (Option Shape) :=
  match o.registry.shape? header.tag edition with
  | none => pure none
  | some shape =>
    if o.maxRecordSize < header.dataSize.toNat then
      throw (.memoryLimit header.dataSize.toNat o.maxRecordSize)
    else pure (some shape)

/-- The record of a header; none if it is passed over. -/
def readRecord (o : Options) (image : Image) (context : Context) (header : RecordHeader) :
    Except Error (Option Record) := do
  match ← o.shapeFor context.edition header with
  | none => return none
  | some shape =>
    let payload := image.slice header.position header.dataSize.toNat
    if payload.length < header.dataSize.toNat then throw .shortRead
    else return some (← Record.decode header shape payload context o.maxRecordSize)

end Options

end GamePlugin
