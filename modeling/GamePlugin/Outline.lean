import GamePlugin.Chunk.Read

/-!
# Outlines

An outline lists every chunk header of a file, in file order, without looking at a payload. Each
entry knows the group that directly holds it, by its index in the list of groups.

The walk insists on exact framing: a group may not reach past what holds it, and the chunks in a
range have to end exactly where the range does.

## Main definitions

* `Outline.ofImage` — the outline of a file.
* `Outline.histogram` — how often each record tag occurs, the most frequent first.
-/

namespace GamePlugin

namespace Outline

/-- A record in an outline. -/
structure RecordEntry where
  header : RecordHeader
  /-- Index of the group that holds the record. -/
  group : Option Nat
deriving DecidableEq

/-- A group in an outline. -/
structure GroupEntry where
  header : GroupHeader
  /-- Index of the group that holds this one. -/
  parent : Option Nat
deriving DecidableEq

end Outline

/-- All chunk headers of a file. -/
structure Outline where
  schema : Schema
  /-- Bytes in the file. -/
  length : Nat
  records : Array Outline.RecordEntry := #[]
  groups : Array Outline.GroupEntry := #[]
deriving DecidableEq

namespace Outline

/-- A group being walked: its index and its header. -/
structure Owner where
  index : Nat
  header : GroupHeader

/-- The outline with one more record. -/
def addRecord (o : Outline) (owner : Option Owner) (header : RecordHeader) : Outline :=
  { o with records := o.records.push ⟨header, owner.map (·.index)⟩ }

/-- The outline with one more group. -/
def addGroup (o : Outline) (owner : Option Owner) (header : GroupHeader) : Outline :=
  { o with groups := o.groups.push ⟨header, owner.map (·.index)⟩ }

/-- The error for chunks of a range that stop at `actual` instead of the range's end. The whole file
has no group to blame. -/
def misframed (owner : Option Owner) (start stop actual : Nat) : Error :=
  match owner with
  | some o => .groupSizeMismatch o.header.label o.header.position stop actual
  | none => .sizeMismatch .GRUP none start stop actual

/-- The error for a group that reaches past what holds it. The holder is blamed, if it is a group.
-/
def overrun (owner : Option Owner) (child : GroupHeader) (stop : Nat) : Error :=
  let blamed := (owner.map (·.header)).getD child
  .groupSizeMismatch blamed.label blamed.position stop child.stop

/-- Adds the chunks from `pos` up to `stop`, and all that they hold, to an outline. The range being
walked starts at `start`. -/
def walk (image : Image) (schema : Schema) (owner : Option Owner) (start stop pos : Nat)
    (o : Outline) : Except Error Outline :=
  if pos < stop then
    match _read : Chunk.read image schema pos none with
    | .error e => .error e
    | .ok (.record header) =>
      walk image schema owner start stop header.stop (o.addRecord owner header)
    | .ok (.group header) =>
      if stop < header.stop then .error (overrun owner header stop)
      else
        let inner : Owner := ⟨o.groups.size, header⟩
        match walk image schema (some inner) header.position header.stop header.position
            (o.addGroup owner header) with
        | .error e => .error e
        | .ok o => walk image schema owner start stop header.stop o
  else if pos = stop then .ok o
  else .error (misframed owner start stop pos)
termination_by stop - pos
decreasing_by
  · have := Chunk.lt_stop_of_read _read
    simp only [Chunk.stop] at this
    omega
  · have lower := Chunk.lt_position_of_read _read
    have upper := Chunk.position_le_stop (.group header)
    simp only [Chunk.position, Chunk.stop] at lower upper
    omega
  · have := Chunk.lt_stop_of_read _read
    simp only [Chunk.stop] at this
    omega

/-- The outline of a file. -/
def ofImage (image : Image) : Except Error Outline := do
  let schema ← Schema.detect image
  walk image schema none 0 image.size 0 { schema, length := image.size }

/-- The record tags, in file order. -/
def tags (o : Outline) : List Tag := o.records.toList.map (·.header.tag)

/-- How many records have a tag. -/
def count (o : Outline) (tag : Tag) : Nat := o.tags.count tag

/-- The records directly in the group at an index. -/
def recordsIn (o : Outline) (index : Nat) : List RecordEntry :=
  o.records.toList.filter (·.group = some index)

/-- How many records are compressed. -/
def compressed (o : Outline) : Nat := o.records.toList.countP (·.header.isCompressed)

/-- Listing order of a histogram: more frequent tags first, equally frequent ones by tag. -/
def histogramLe (a b : Tag × Nat) : Bool := b.2 < a.2 || (a.2 == b.2 && a.1.le b.1)

/-- Counts one more record with a tag: on the tag's line, or on a new one. -/
def tally : List (Tag × Nat) → Tag → List (Tag × Nat)
  | [], tag => [(tag, 1)]
  | (t, n) :: lines, tag => if t = tag then (t, n + 1) :: lines else (t, n) :: tally lines tag

/-- Each record tag with its number of records, counted in one pass over the records. -/
def histogram (o : Outline) : List (Tag × Nat) := (o.tags.foldl tally []).mergeSort histogramLe

end Outline

end GamePlugin
