import GamePlugin.Options
import GamePlugin.Outline

/-!
# Decoding by outline

Once a file's outline is known, each record can be read on its own, without loading groups.
-/

namespace GamePlugin.Outline

/-- The record of an entry; none if it is passed over. The image need not be the one that the
outline was made from, but it has to have the record's payload. -/
def decodeEntry (image : Image) (context : Context) (options : Options) (entry : RecordEntry) :
    Except Error (Option Record) := do
  let header := entry.header
  match ← options.shapeFor context.edition header with
  | none => return none
  | some shape =>
    if image.size < header.stop then
      throw (.sizeMismatch header.tag none header.position header.dataSize.toNat
        (image.size - header.position))
    else
      let payload := image.slice header.position header.dataSize.toNat
      return some (← Record.decode header shape payload context options.maxRecordSize)

/-- All records that are not passed over, in file order. -/
def decode (o : Outline) (image : Image) (context : Context) (options : Options) :
    Except Error (List Record) := do
  let records ← o.records.toList.mapM (decodeEntry image context options)
  return records.filterMap id

end GamePlugin.Outline
