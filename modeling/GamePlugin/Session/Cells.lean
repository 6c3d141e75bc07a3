import GamePlugin.Session.Load

/-!
# Finding cells by position

A world's exterior cells lie in blocks and sub-blocks, whose labels follow from a cell's
coordinates. Looking for a position loads only the block and sub-block that may hold it. A block
remembers the cells and lands of the sub-blocks that have been resolved.
-/

namespace GamePlugin

/-- The position of a cell in a world. An interior has a position outside of worlds. -/
def GridPosition.ofCell (c : Cell) (world : FormId) : GridPosition :=
  let (x, y) := c.coordinates
  if c.isInterior then interior x y else exterior world x y

/-- Coordinates as one number; different coordinates have different ones. -/
def GridPosition.planarKey (x y : Int32) : Nat := x.toUInt32.toNat * UInt32.size + y.toUInt32.toNat

/-- The position as one number; different positions have different ones. -/
def GridPosition.key (p : GridPosition) : Nat :=
  planarKey p.x p.y * UInt32.size + p.world.toUInt32.toNat

namespace CellCache

/-- Enters a cell and its land, if it has one. -/
def insert (c : CellCache) (p : GridPosition) (cell : Record) (land : Option Record) : CellCache :=
  { c with
    cells := c.cells.insert p.key cell
    lands :=
      match land with
      | none => c.lands
      | some land => c.lands.insert p.key land }

/-- The cell at a position. -/
def cell? (c : CellCache) (p : GridPosition) : Option Record := c.cells[p.key]?

/-- The land at a position. -/
def land? (c : CellCache) (p : GridPosition) : Option Record := c.lands[p.key]?

end CellCache

namespace Session

/-- The cell at a position that a block remembers. -/
def cellAt (s : Session) (block : Nat) (p : GridPosition) : Option Record :=
  (s.group? block).bind (·.cache.cell? p)

/-- The land at a position that a block remembers. -/
def landAt (s : Session) (block : Nat) (p : GridPosition) : Option Record :=
  (s.group? block).bind (·.cache.land? p)

/-- Changes what a block remembers. -/
def modifyCache (s : Session) (block : Nat) (f : CellCache → CellCache) : Session :=
  s.modifyGroup block fun g => { g with cache := f g.cache }

/-- The land of a cell in a sub-block: the first one among the temporary children of the cell. -/
def landOf (s : Session) (subBlock : Nat) (cell : Record) : Option Record :=
  let label := cell.form.value
  (s.childrenOfKind subBlock label .cellChildren).flatMap (fun children =>
    (s.childrenOfKind children label .cellTemporaryChildren).flatMap s.records)
  |>.find? (·.land?.isSome)

/-- What a block remembers of a sub-block's records: its cells, each with its land. -/
def remember (s : Session) (subBlock : Nat) (world : FormId) (cache : CellCache) (r : Record) :
    CellCache :=
  if r.tag = .CELL then
    match r.cell? with
    | none => cache
    | some cell => cache.insert (.ofCell cell world) r (s.landOf subBlock r)
  else cache

/-- Loads a sub-block with all that is below it, and lets its block remember the cells. -/
def absorb (block : Nat) (world : FormId) (subBlock : Nat) : Step Unit := do
  let records ← load subBlock true
  modify fun s => s.modifyCache block fun cache =>
    records.foldl (s.remember subBlock world) { cache with loads := cache.loads + 1 }

/-- Takes one from the number of sub-blocks that may be resolved, if there is one left. -/
def takeBudget : Step Bool := do
  let s ← get
  if s.options.subBlockLimit.any (· ≤ s.subBlocksLoaded) then return false
  else
    set { s with subBlocksLoaded := s.subBlocksLoaded + 1 }
    return true

/-- Resolves the sub-block of a block that may hold a position. Says whether it is resolved now: not
if the block has no such sub-block, or no more may be resolved. -/
def resolveSubBlock (block : Nat) (p : GridPosition) : Step Bool := do
  let key := p.subBlockKey
  if ((← get).group? block).any (·.cache.resolved.contains key) then return true
  else
    loadOne block
    let subBlocks := (← get).childrenOfKind block key .exteriorCellSubBlock
    if subBlocks.isEmpty then return false
    else if ← takeBudget then
      subBlocks.forM (absorb block p.worldForm)
      modify (·.modifyCache block fun cache => { cache with resolved := key :: cache.resolved })
      return true
    else return false

/-- Resolves the blocks of a world that may hold a position, and gives those that do have the
sub-block. The world is given by the group of its children. -/
def resolveBlocks (world : Nat) (p : GridPosition) : Step (List Nat) := do
  loadOne world
  ((← get).childrenOfKind world p.blockKey .exteriorCellBlock).filterM (resolveSubBlock · p)

end Session

end GamePlugin
