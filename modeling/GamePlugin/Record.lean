import GamePlugin.Body
import GamePlugin.Chunk
import GamePlugin.Payload

/-!
# Records

A record is its header and its body. The body comes from the payload, which may be compressed;
offsets in errors count from the record's header, or from the start of the inflated payload.
-/

namespace GamePlugin

/-- A record with its body. -/
structure Record where
  header : RecordHeader
  body : Body

namespace Record

/-- The record's tag. -/
def tag (r : Record) : Tag := r.header.tag

/-- The record's form id. -/
def form (r : Record) : FormId := r.header.form

/-- The record's editor id, if it has one. -/
def editorId (r : Record) : Option String := r.body.editorId

/-- The record's name for display, if it has one. -/
def name (r : Record) : Option DisplayText := r.body.name

/-- The body as a cell. -/
def cell? (r : Record) : Option Cell :=
  match r.body with
  | .cell c => some c
  | _ => none

/-- The body as a land. -/
def land? (r : Record) : Option Land :=
  match r.body with
  | .land l => some l
  | _ => none

/-- Reads a payload into a body of the given shape. An inflated payload may have up to `limit`
bytes. -/
def decode (header : RecordHeader) (shape : Shape) (payload : Bytes) (context : Context)
    (limit : Nat) : Except Error Record := do
  let (fields, base) ←
    if header.isCompressed then
      pure (← Payload.inflate payload header.form limit, 0)
    else pure (payload, header.position)
  let body ← readFields (Offer.sink Body.offer) context header.tag base fields shape.empty
  return ⟨header, body⟩

end Record

end GamePlugin
