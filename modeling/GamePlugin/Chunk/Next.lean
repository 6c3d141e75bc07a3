import GamePlugin.Chunk.Read

/-!
# Taking the next chunk header

`Chunk.read` looks at a header as a whole and says where its payload starts. A file that can only be
read from a place onwards is read by `Chunk.next` instead, which takes one word of the header after
another and leaves the place behind it. Words at the end of a group header are not looked at, so the
place can then lie past the end of the file.

## Main definitions

* `Image.Reader` — a computation that reads a file from a place on.
* `Chunk.next` — the chunk header at the place.
-/

namespace GamePlugin

/-- A computation that reads a file from a place on, and moves the place. -/
abbrev Image.Reader (α : Type) := ReaderT Image (StateT Nat (Except Error)) α

namespace Image.Reader

/-- The place. -/
def place : Reader Nat := fun _ pos => .ok (pos, pos)

/-- The word at the place, which moves behind it. -/
def word : Reader UInt32 := fun image pos =>
  match image.read pos 4 with
  | some bs => .ok (Bytes.word32 bs, pos + 4)
  | none => .error .shortRead

/-- Moves the place, whether there is something or not. -/
def skip (n : Nat) : Reader Unit := fun _ pos => .ok ((), pos + n)

end Image.Reader

namespace Chunk

open Image.Reader

/-- The words of a group header after the tag. The chunk starts at `offset`. -/
def nextGroup (schema : Schema) (offset : Nat) : Image.Reader GroupHeader := do
  let headerSize := schema.groupHeaderSize
  let total ← word
  if total.toNat < headerSize then throw (.groupTooSmall total.toNat headerSize offset)
  else
    let label ← word
    let number := (← word).toInt32.toInt
    match GroupKind.ofNumber? number with
    | none => throw (.unsupportedVersion s!"unknown group type {number} at offset {offset}")
    | some kind =>
      skip (if schema = .tes5 then 8 else 4)
      return {
        label
        kind
        dataSize := total - UInt32.ofNat headerSize
        position := offset + headerSize }

/-- The words of a record header after the payload size: the flags, the form id, and those that
nothing uses. -/
def nextFlags : Schema → Image.Reader (UInt32 × FormId)
  | .tes3 => do
    let _ ← word
    let flags ← word
    return (flags, FormId.none)
  | .tes4 => do
    let flags ← word
    let form ← word
    let _ ← word
    return (flags, ⟨form⟩)
  | .tes5 => do
    let flags ← word
    let form ← word
    let _ ← word
    let _ ← word
    return (flags, ⟨form⟩)

/-- The words of a record header after the tag. The chunk starts at `offset`. -/
def nextRecord (schema : Schema) (offset : Nat) (parent : Option Nat) (tag : Tag) :
    Image.Reader RecordHeader := do
  let dataSize ← word
  let (flags, form) ← nextFlags schema
  return { tag, dataSize, flags, form, position := offset + schema.recordHeaderSize, parent }

/-- The chunk header at the place, which moves to the payload. -/
def next (schema : Schema) (parent : Option Nat) : Image.Reader Chunk := do
  let offset ← place
  let tag : Tag := ⟨← word⟩
  if tag = .GRUP ∧ schema.hasGroups then
    return group (← nextGroup schema offset)
  else
    return record (← nextRecord schema offset parent tag)

end Chunk

end GamePlugin
