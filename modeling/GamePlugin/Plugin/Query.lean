import GamePlugin.Plugin
import GamePlugin.Session.Cells

/-!
# Looking things up

Records are found by tag, editor id, cell name or position, and references are followed to what has
been loaded. A look-up loads the groups that it needs and no others.

## Main definitions

* `Query`, `Plugin.query` — look-ups.
* `Plugin.resolve?` — follows a reference.
-/

namespace GamePlugin

/-- What to look up. -/
inductive Query where
  /-- The record with an editor id. -/
  | editorId (name : String)
  /-- The cell at a position. -/
  | cell (p : GridPosition)
  /-- The cell with a name. -/
  | cellName (name : String)
  /-- The land of the cell at a position. -/
  | land (p : GridPosition)
deriving DecidableEq

namespace Plugin

open Session (Step)

/-- Loads all groups. -/
def loadAll (p : Plugin) : Step Unit := p.topGroups.forM fun id => do let _ ← Session.load id true

/-- Records with a tag: all of a file without groups, or those directly in their top group. -/
def records (p : Plugin) (tag : Tag) : Step (List Record) := do
  match p.flat with
  | some tables => return tables.records tag
  | none =>
    match p.topGroup? (← get) tag with
    | none => return []
    | some id => return (← Session.load id false).filter (·.tag = tag)

/-- The group of a world's children. -/
def worldChildren (p : Plugin) (world : FormId) : Step (Option Nat) := do
  match p.topGroup? (← get) .WRLD with
  | none => return none
  | some worlds =>
    Session.loadOne worlds
    return ((← get).childrenOfKind worlds world.value .worldChildren).head?

/-- What a world's blocks remember at a position, after resolving the blocks that may hold it. -/
def atPosition (p : Plugin) (find : Session → Nat → GridPosition → Option Record)
    (position : GridPosition) : Step (Option Record) := do
  if position.isInterior then return none
  else
    match ← p.worldChildren position.worldForm with
    | none => return none
    | some world =>
      let blocks ← Session.resolveBlocks world position
      let s ← get
      return blocks.findSome? (find s · position)

/-- Looks something up in a file with groups. -/
def queryGroups (p : Plugin) : Query → Step (Option Record)
  | .editorId name => return (← get).index.editorId? name
  | .cellName name => do
    match p.topGroup? (← get) .CELL with
    | none => pure ()
    | some cells => let _ ← Session.load cells true
    return ((← get).index.editorId? name).filter (·.tag = .CELL)
  | .cell position => p.atPosition Session.cellAt position
  | .land position => p.atPosition Session.landAt position

/-- Looks something up in flat tables. -/
def queryFlat (t : FlatTables) : Query → Option Record
  | .editorId name => t.editorId? name
  | .cellName name => t.cellName? name
  | .cell position => t.cell? position
  | .land position => t.land? position

/-- Looks something up. -/
def query (p : Plugin) (q : Query) : Step (Option Record) :=
  match p.flat with
  | some tables => return queryFlat tables q
  | none => p.queryGroups q

/-- The loaded record that a reference means. -/
def target? (p : Plugin) (s : Session) : FormRef → Option Record
  | .id form => if form.isNone then none else s.index.form? form
  | .editorId name =>
    match p.flat with
    | some tables => tables.editorId? name
    | none => s.index.editorId? name

/-- Follows a reference to a loaded record, of the given shape if there is one. -/
def resolve? (p : Plugin) (s : Session) (shape : Option Shape) (reference : FormRef) :
    Option Record :=
  (p.target? s reference).filter fun r => shape.all (· = r.body.shape)

end Plugin

end GamePlugin
