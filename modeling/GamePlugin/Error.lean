import GamePlugin.Edition
import GamePlugin.FormId
import GamePlugin.Tag

/-!
# Errors

Every way in which reading can fail, with what its message says. Two of them only ever explain why a
record was skipped; all others end the operation that met them.
-/

namespace GamePlugin

/-- Why an operation failed. -/
inductive Error where
  /-- The file ends inside something that has to be read. -/
  | shortRead
  /-- A structured value could not be read. -/
  | malformed (text : String)
  /-- The file starts with an unknown tag. -/
  | badMagic (found : Tag) (offset : Nat)
  /-- The file uses something this library does not know. -/
  | unsupportedVersion (text : String)
  /-- The edition asked for does not fit the file's schema. -/
  | editionMismatch (edition : Edition) (expected detected : Schema)
  /-- A record or field is not as long as it says. -/
  | sizeMismatch (record : Tag) (field : Option Tag) (offset expected actual : Nat)
  /-- An inflated payload is not as long as announced. -/
  | inflatedSize (form : FormId) (expected actual : Nat)
  /-- A payload cannot be inflated. -/
  | inflate (form : FormId) (text : String)
  /-- A group claims to be smaller than its own header. -/
  | groupTooSmall (total headerSize offset : Nat)
  /-- The chunks in a group do not end where the group does. -/
  | groupSizeMismatch (label : UInt32) (offset expected actual : Nat)
  /-- A size escape is not four bytes long. -/
  | badEscape (offset size : Nat)
  /-- A payload is larger than allowed. -/
  | memoryLimit (requested limit : Nat)
  /-- No shape is registered for a tag. -/
  | unknownTag (tag : Tag) (offset : Nat)
  /-- The tag's shape is not registered for the edition. -/
  | unsupportedTag (tag : Tag) (edition : Edition)
deriving DecidableEq

namespace Error

/-- What the failure of a short read is called. -/
def shortReadText : String := "failed to fill whole buffer"

/-- The message for people. -/
def message : Error → String
  | shortRead => "IO error: " ++ shortReadText
  | malformed text => "binrw error: " ++ text
  | badMagic found offset => s!"Invalid magic bytes: found {found.text} at offset {offset}"
  | unsupportedVersion text => "Unsupported file version: " ++ text
  | editionMismatch edition expected detected =>
    s!"Edition {edition.title} expects {expected.text} headers but the file uses {detected.text}"
  | sizeMismatch record field offset expected actual =>
    let place := record.text ++ (field.map ("/" ++ ·.text)).getD ""
    s!"Size mismatch in {place} at offset {offset}: declared {expected} bytes, consumed {actual}"
  | inflatedSize form expected actual =>
    s!"Decompressed size mismatch for record {form.text}: expected {expected}, got {actual}"
  | inflate form text => s!"Decompression failed for record {form.text}: {text}"
  | groupTooSmall total headerSize offset =>
    s!"Invalid group size {total} at offset {offset}: header alone is {headerSize} bytes"
  | groupSizeMismatch label offset expected actual =>
    let shown := "0x" ++ Text.paddedHex 8 label.toNat
    s!"Group {shown} at offset {offset} should end at {expected}, children end at {actual}"
  | badEscape offset size =>
    s!"Oversize field escape at offset {offset} declares {size} bytes, expected 4"
  | memoryLimit requested limit =>
    s!"Memory limit exceeded: attempted to allocate {requested} bytes, limit is {limit}"
  | unknownTag tag offset => s!"Unknown record tag {tag.text} at offset {offset} (skipping)"
  | unsupportedTag tag edition =>
    s!"Record tag {tag.text} is not supported by {edition.title} (skipping)"

/-- Whether the error ends an operation, or only explains a skipped record. -/
def isFatal : Error → Bool
  | unknownTag .. => false
  | unsupportedTag .. => false
  | _ => true

end Error

end GamePlugin
