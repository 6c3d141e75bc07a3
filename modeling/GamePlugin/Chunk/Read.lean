import GamePlugin.Chunk

/-!
# Reading chunk headers

`Chunk.read` takes the header at an offset of an image. In words of four bytes a header is

* a record: tag, payload size, flags, form id, version control and, in the longest schema, one more
  unused word; the oldest schema has an unused word before the flags and no form id;
* a group: `GRUP`, total size with the header included, label, kind, and one or two unused words.

All words of a record header have to be there. The unused words at the end of a group header are
stepped over without being looked at, so the file may end before them.

`Schema.detect` tells the schema of a file from where the first field of its first record lies.
-/

namespace GamePlugin

namespace Chunk

/-- The header of a group whose first word, the tag, has been seen. -/
def readGroup (schema : Schema) (offset : Nat) (bs : Bytes) : Except Error GroupHeader :=
  let headerSize := schema.groupHeaderSize
  if bs.length < 8 then throw .shortRead
  else
    let total := Bytes.word32 (bs.drop 4)
    if total.toNat < headerSize then throw (.groupTooSmall total.toNat headerSize offset)
    else if bs.length < 16 then throw .shortRead
    else
      let number := (Bytes.word32 (bs.drop 12)).toInt32.toInt
      match GroupKind.ofNumber? number with
      | none => throw (.unsupportedVersion s!"unknown group type {number} at offset {offset}")
      | some kind =>
        pure {
          label := Bytes.word32 (bs.drop 8)
          kind
          dataSize := total - UInt32.ofNat headerSize
          position := offset + headerSize }

/-- The header of a record whose first word, the tag, has been seen. -/
def readRecord (schema : Schema) (offset : Nat) (parent : Option Nat) (bs : Bytes) :
    Except Error RecordHeader :=
  if bs.length < schema.recordHeaderSize then throw .shortRead
  else
    let (flags, form) :=
      match schema with
      | .tes3 => (Bytes.word32 (bs.drop 12), FormId.none)
      | .tes4 => (Bytes.word32 (bs.drop 8), ⟨Bytes.word32 (bs.drop 12)⟩)
      | .tes5 => (Bytes.word32 (bs.drop 8), ⟨Bytes.word32 (bs.drop 12)⟩)
    pure {
      tag := Tag.ofBytes bs
      dataSize := Bytes.word32 (bs.drop 4)
      flags
      form
      position := offset + schema.recordHeaderSize
      parent }

/-- The chunk header at an offset. A record's header remembers the group node it is read for. -/
def read (image : Image) (schema : Schema) (offset : Nat) (parent : Option Nat) :
    Except Error Chunk :=
  let bs := image.slice offset 24
  if bs.length < 4 then throw .shortRead
  else if Tag.ofBytes bs = .GRUP ∧ schema.hasGroups then
    return group (← readGroup schema offset bs)
  else
    return record (← readRecord schema offset parent bs)

theorem readGroup_position {schema : Schema} {offset : Nat} {bs : Bytes} {h : GroupHeader}
    (eq : readGroup schema offset bs = .ok h) : h.position = offset + schema.groupHeaderSize := by
  simp only [readGroup] at eq
  split at eq
  · cases eq
  split at eq
  · cases eq
  split at eq
  · cases eq
  split at eq
  · cases eq
  · cases eq; rfl

theorem readRecord_position {schema : Schema} {offset : Nat} {parent : Option Nat} {bs : Bytes}
    {h : RecordHeader} (eq : readRecord schema offset parent bs = .ok h) :
    h.position = offset + schema.recordHeaderSize := by
  simp only [readRecord] at eq
  split at eq
  · cases eq
  · cases eq; rfl

/-- A header has at least one byte, so a chunk ends after its offset. -/
theorem lt_position_of_read {image : Image} {schema : Schema} {offset : Nat}
    {parent : Option Nat} {c : Chunk} (eq : read image schema offset parent = .ok c) :
    offset < c.position := by
  simp only [read] at eq
  split at eq
  · cases eq
  split at eq
  · cases h : readGroup schema offset (image.slice offset 24) with
    | error e => simp [h, bind, Except.bind] at eq
    | ok g =>
      simp only [h, bind, Except.bind, pure, Except.pure, Except.ok.injEq] at eq
      subst eq
      have := readGroup_position h
      cases schema <;> simp_all [position, Schema.groupHeaderSize]
  · cases h : readRecord schema offset parent (image.slice offset 24) with
    | error e => simp [h, bind, Except.bind] at eq
    | ok r =>
      simp only [h, bind, Except.bind, pure, Except.pure, Except.ok.injEq] at eq
      subst eq
      have := readRecord_position h
      cases schema <;> simp_all [position, Schema.recordHeaderSize]

theorem lt_stop_of_read {image : Image} {schema : Schema} {offset : Nat}
    {parent : Option Nat} {c : Chunk} (eq : read image schema offset parent = .ok c) :
    offset < c.stop :=
  Nat.lt_of_lt_of_le (lt_position_of_read eq) c.position_le_stop

end Chunk

/-- The schema of a file. The two grouped schemas differ in the length of the root record's header,
so the place of its first field, `HEDR`, tells them apart. -/
def Schema.detect (image : Image) : Except Error Schema :=
  let bs := image.slice 0 28
  if bs.length < 4 then throw .shortRead
  else
    let tag := Tag.ofBytes bs
    if tag = .TES3 then pure .tes3
    else if tag = .TES4 then
      if bs.length ≥ 24 ∧ Tag.ofBytes (bs.drop 20) = .HEDR then pure .tes4
      else if bs.length ≥ 28 ∧ Tag.ofBytes (bs.drop 24) = .HEDR then pure .tes5
      else throw (.unsupportedVersion "TES4 root record without a HEDR field")
    else throw (.badMagic tag 0)

end GamePlugin
