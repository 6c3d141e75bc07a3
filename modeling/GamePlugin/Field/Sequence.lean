import GamePlugin.Field.Reader
import GamePlugin.Tag.Names

/-!
# Field sequences

A payload is a run of fields: a tag, a size, and that many bytes. Where the size has only 16 bits, a
larger field is announced by an escape, a field `XXXX` of four bytes that hold the size of the field
after it. The offset table of a worldspace does not state its size at all and takes the rest of the
payload.

`readFields` offers each field to a sink in turn. A sink that handles a field has to read all of it;
a declined field is stepped over. Bytes too few for another header may not be left at the end.

## Main definitions

* `Field.encode` — a field as it is stored.
* `Sink` — how a state takes fields; `Offer.sink` — the sink of a body.
* `readFields` — offers the fields of a payload to a sink.
-/

namespace GamePlugin

namespace Field

/-- Tag and size at the front of a field. -/
structure Header where
  tag : Tag
  size : UInt32
deriving DecidableEq

/-- The header in exactly as many bytes as the schema's field headers have. -/
def Header.ofBytes (schema : Schema) (bs : Bytes) : Header :=
  let size :=
    match schema with
    | .tes3 => Bytes.word32 (bs.drop 4)
    | .tes4 => (Bytes.word16 (bs.drop 4)).toUInt32
    | .tes5 => (Bytes.word16 (bs.drop 4)).toUInt32
  ⟨Tag.ofBytes bs, size⟩

/-- Reads a header from the front, and gives the bytes after it. -/
def Header.read (schema : Schema) (bs : Bytes) : Except Error (Header × Bytes) :=
  let head := bs.take schema.fieldHeaderSize
  if head.length < schema.fieldHeaderSize then throw .shortRead
  else return (Header.ofBytes schema head, bs.drop schema.fieldHeaderSize)

/-- The largest size that fits a 16-bit size. -/
def maxShortSize : Nat := 0xFFFF

/-- A field as it is stored, with an escape in front where its size needs one. -/
def encode (schema : Schema) (tag : Tag) (payload : Bytes) : Bytes :=
  match schema with
  | .tes3 => tag.bytes ++ Bytes.ofNat 4 payload.length ++ payload
  | .tes4 | .tes5 =>
    if payload.length ≤ maxShortSize then
      tag.bytes ++ Bytes.ofNat 2 payload.length ++ payload
    else
      Tag.XXXX.bytes ++ Bytes.ofNat 2 4 ++ Bytes.ofNat 4 payload.length ++
        tag.bytes ++ Bytes.ofNat 2 0 ++ payload

/-- What a sink says of a field. -/
inductive Outcome where
  | handled
  | declined
deriving DecidableEq

end Field

/-- How a state takes a field: what is said of the field, and the state after it. -/
abbrev Sink (σ : Type) := σ → Field.Reader (Field.Outcome × σ)

/-- How a body takes a field: the new body, or none if it declines. -/
abbrev Offer (β : Type) := β → Field.Reader (Option β)

/-- A body as a sink. A field that it declines leaves it as it is. -/
def Offer.sink {β : Type} (offer : Offer β) : Sink β := fun b => do
  match ← offer b with
  | some b' => return (.handled, b')
  | none => return (.declined, b)

namespace Fields

/-- A run of fields being read. -/
structure Frame where
  context : Context
  /-- Tag of the record. -/
  record : Tag
  /-- Offset of the payload, for errors. -/
  base : Nat
  /-- Bytes in the payload. -/
  length : Nat

/-- The error for a field that the payload ends inside of, or that is not read to its end. -/
def Frame.mismatch (frame : Frame) (tag : Option Tag) (offset expected actual : Nat) : Error :=
  .sizeMismatch frame.record tag offset expected actual

variable {σ : Type}

/-- Offers one field to a sink. The reader's place after a handled field must be its end. -/
def offerField (sink : Sink σ) (field : Field) (s : σ) : Except Error σ :=
  match sink s field field.start with
  | .error e _ => .error e
  | .ok (.declined, s') _ => .ok s'
  | .ok (.handled, s') c =>
    if c.pos = field.size then .ok s'
    else .error (.sizeMismatch field.record (some field.tag) field.offset field.size c.pos)

/-- Reads the fields in `rest`, which starts `pos` bytes into the payload. `pending` is a size that
an escape has announced. -/
def loop (sink : Sink σ) (frame : Frame) (pending : Option UInt32) (pos : Nat) (rest : Bytes)
    (s : σ) : Except Error σ :=
  let schema := frame.context.schema
  let head := rest.take schema.fieldHeaderSize
  if head.length < schema.fieldHeaderSize then
    if rest.isEmpty then .ok s else .error (frame.mismatch none frame.base frame.length pos)
  else
    let offset := frame.base + pos
    let header := Field.Header.ofBytes schema head
    let rest' := rest.drop schema.fieldHeaderSize
    let pos := pos + schema.fieldHeaderSize
    if header.tag = .XXXX then
      if header.size ≠ 4 then .error (.badEscape offset header.size.toNat)
      else if (rest'.take 4).length < 4 then
        .error (frame.mismatch (some .XXXX) offset 4 rest'.length)
      else loop sink frame (some (Bytes.word32 rest')) (pos + 4) (rest'.drop 4) s
    else if frame.record = .WRLD ∧ header.tag = .OFST then .ok s
    else
      let size := (pending.getD header.size).toNat
      let payload := rest'.take size
      if payload.length < size then
        .error (frame.mismatch (some header.tag) offset size rest'.length)
      else
        match offerField sink ⟨header.tag, frame.record, offset, frame.context, payload⟩ s with
        | .error e => .error e
        | .ok s => loop sink frame none (pos + size) (rest'.drop size) s
termination_by rest.length
decreasing_by
  all_goals
    have : 0 < frame.context.schema.fieldHeaderSize := by
      cases frame.context.schema <;> decide
    simp only [List.length_take, List.length_drop, head, rest', schema] at *
    omega

end Fields

/-- Offers the fields of a payload to a sink. -/
def readFields {σ : Type} (sink : Sink σ) (context : Context) (record : Tag) (base : Nat)
    (payload : Bytes) (s : σ) : Except Error σ :=
  Fields.loop sink ⟨context, record, base, payload.length⟩ none 0 payload s

end GamePlugin
