import GamePlugin.Session.Cells

/-!
# Flat tables

A file without groups is read whole. Its records are found by tag, by editor id, and cells and lands
by name or coordinates; of several records under one key the latest is found.
-/

namespace GamePlugin

/-- The records of a file without groups. -/
structure FlatTables where
  /-- Records of each tag, in file order. -/
  byTag : Std.TreeMap UInt32 (Array Record) := ∅
  byEditorId : Std.TreeMap String Record := ∅
  /-- Interior cells by name. -/
  cellsByName : Std.TreeMap String Record := ∅
  /-- Exterior cells by coordinates. -/
  cellsByGrid : Std.TreeMap Nat Record := ∅
  landsByGrid : Std.TreeMap Nat Record := ∅

namespace FlatTables

/-- Enters a record by its editor id, unless that is empty. -/
def insertName (t : FlatTables) (r : Record) : FlatTables :=
  match r.editorId with
  | none => t
  | some name =>
    if name.isEmpty then t
    else { t with byEditorId := t.byEditorId.insert (LoadedIndex.foldName name) r }

/-- Enters a cell: an interior by its name, if it has one, an exterior by its coordinates. -/
def insertCell (t : FlatTables) (r : Record) : FlatTables :=
  match r.cell? with
  | none => t
  | some cell =>
    if cell.isInterior then
      match r.editorId with
      | none => t
      | some name => { t with cellsByName := t.cellsByName.insert (LoadedIndex.foldName name) r }
    else
      let (x, y) := cell.coordinates
      { t with cellsByGrid := t.cellsByGrid.insert (GridPosition.planarKey x y) r }

/-- Enters a land by its coordinates, if it has any. -/
def insertLand (t : FlatTables) (r : Record) : FlatTables :=
  match r.land?.bind (·.grid) with
  | none => t
  | some (x, y) => { t with landsByGrid := t.landsByGrid.insert (GridPosition.planarKey x y) r }

/-- Enters a record by its tag, after the others. -/
def insertTag (t : FlatTables) (r : Record) : FlatTables :=
  { t with byTag := t.byTag.alter r.tag.code fun records => some ((records.getD #[]).push r) }

/-- Enters a record. -/
def insert (t : FlatTables) (r : Record) : FlatTables :=
  (((t.insertName r).insertCell r).insertLand r).insertTag r

/-- The tables of a list of records. -/
def ofRecords (records : List Record) : FlatTables := records.foldl insert {}

/-- Records with a tag, in file order. -/
def records (t : FlatTables) (tag : Tag) : List Record := (t.byTag.getD tag.code #[]).toList

/-- The record with an editor id. -/
def editorId? (t : FlatTables) (name : String) : Option Record :=
  t.byEditorId[LoadedIndex.foldName name]?

/-- The interior cell with a name. -/
def cellName? (t : FlatTables) (name : String) : Option Record :=
  t.cellsByName[LoadedIndex.foldName name]?

/-- The exterior cell at the coordinates of a position; there is but one world. -/
def cell? (t : FlatTables) (p : GridPosition) : Option Record :=
  t.cellsByGrid[GridPosition.planarKey p.x p.y]?

/-- The land at the coordinates of a position. -/
def land? (t : FlatTables) (p : GridPosition) : Option Record :=
  t.landsByGrid[GridPosition.planarKey p.x p.y]?

end FlatTables

end GamePlugin
