import GamePlugin.Error
import GamePlugin.Field.Layout
import GamePlugin.Text.Stored

/-!
# Reading inside a field

A field is a tagged piece of a record's payload. Its reader hands out values from the front and
never leaves the field: asking for more than is left is an error that moves nothing. The error says
how far the read would have gone.

## Main definitions

* `Field.Reader` — a computation that reads from a field.
* `Field.Reader.bytes`, `item`, `items` and the words and texts made from them.
-/

namespace GamePlugin

/-- A text for display: itself, or the number of its entry in a string table. -/
inductive DisplayText where
  | text (s : String)
  | entry (id : UInt32)
deriving DecidableEq

/-- The text, if it is here. -/
def DisplayText.text? : DisplayText → Option String
  | text s => some s
  | entry _ => none

/-- A field of a record. -/
structure Field where
  tag : Tag
  /-- Tag of the record it belongs to. -/
  record : Tag
  /-- Where its header starts, for errors. -/
  offset : Nat
  context : Context
  payload : Bytes

namespace Field

/-- Bytes in the field. -/
def size (f : Field) : Nat := f.payload.length

/-- A place inside a field. -/
structure Cursor where
  /-- Bytes still to be read. -/
  rest : Bytes
  /-- Bytes read so far. -/
  pos : Nat
deriving DecidableEq

/-- Where reading a field starts. -/
def start (f : Field) : Cursor := ⟨f.payload, 0⟩

/-- A computation that reads from a field; a failure leaves a place as well. -/
abbrev Reader (α : Type) := ReaderT Field (EStateM Error Cursor) α

namespace Reader

variable {α : Type}

/-- Fails for `wanted` bytes that are not there. -/
def overrun (wanted : Nat) : Reader α := fun f c =>
  .error (.sizeMismatch f.record (some f.tag) f.offset f.size (c.pos + wanted)) c

/-- Exactly `n` bytes. -/
def bytes (n : Nat) : Reader Bytes := fun f c =>
  let got := c.rest.take n
  if got.length = n then .ok got ⟨c.rest.drop n, c.pos + n⟩ else overrun n f c

/-- All bytes that are left. -/
def toEnd : Reader Bytes := fun _ c => .ok c.rest ⟨[], c.pos + c.rest.length⟩

/-- How many bytes are left. -/
def remaining : Reader Nat := fun _ c => .ok c.rest.length c

/-- Steps over `n` bytes. -/
def skip (n : Nat) : Reader Unit := do let _ ← bytes n

/-- Steps over all that is left. -/
def skipRest : Reader Unit := do let _ ← toEnd

def byte : Reader UInt8 := Layout.byte.parse <$> bytes 1
def int8 : Reader Int8 := (·.toInt8) <$> byte
def word16 : Reader UInt16 := Layout.word16.parse <$> bytes 2
def int16 : Reader Int16 := Layout.int16.parse <$> bytes 2
def word32 : Reader UInt32 := Layout.word32.parse <$> bytes 4
def int32 : Reader Int32 := Layout.int32.parse <$> bytes 4
def single : Reader Float32 := Layout.single.parse <$> bytes 4
def formId : Reader FormId := FormId.mk <$> word32
def tag : Reader Tag := Tag.mk <$> word32

/-- A text in exactly `n` bytes. -/
def fixedText (n : Nat) : Reader String := Text.decode <$> bytes n

/-- A text in all that is left. -/
def text : Reader String := Text.decode <$> toEnd

/-- A text for display in all that is left. A localized plugin stores four bytes in its place. -/
def displayText : Reader DisplayText := do
  if (← read).context.localized && (← remaining) == 4 then return .entry (← word32)
  else return .text (← text)

/-- The error for a value that the field ends inside of. -/
def cutShort (l : Layout α) (f : Field) : Error :=
  if l.structured then .malformed "structure does not fit its field"
  else .sizeMismatch f.record (some f.tag) f.offset f.size (f.size + 1)

/-- One value of a layout. -/
def item (l : Layout α) : Reader α := fun f c =>
  let got := c.rest.take l.size
  if got.length = l.size then .ok (l.parse got) ⟨c.rest.drop l.size, c.pos + l.size⟩
  else .error (cutShort l f) c

/-- Values of a layout in all that is left. If the last one does not fit, the place is before it. -/
def items (l : Layout α) : Reader (List α) := fun f c =>
  let (values, rest) := l.split c.rest
  let c' : Cursor := ⟨rest, c.pos + (c.rest.length - rest.length)⟩
  if rest.isEmpty then .ok values c' else .error (cutShort l f) c'

/-- Form ids in all that is left. -/
def formIds : Reader (List FormId) := do
  let odd := (← remaining) % 4
  if odd = 0 then items Layout.formId else overrun (4 - odd)

/-- A reference: an editor id in the oldest schema, a form id in the others. -/
def ref : Reader FormRef := do
  match (← read).context.schema with
  | .tes3 => return .editorId (← text)
  | .tes4 => return .id (← formId)
  | .tes5 => return .id (← formId)

/-- A reference by form id. -/
def idRef : Reader FormRef := FormRef.id <$> formId

/-- A reference by editor id in 32 bytes. -/
def nameRef : Reader FormRef := FormRef.editorId <$> fixedText 32

end Reader

end Field

end GamePlugin
