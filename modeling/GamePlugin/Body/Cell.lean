import GamePlugin.Body.Identity

/-!
# Cells

In the oldest schema a cell's record also holds what stands in the cell: a field starts a reference,
and every later field belongs to the latest reference and to nothing else.
-/

namespace GamePlugin

open Field.Reader

/-- Light and fog of a cell. -/
structure Ambient where
  ambient : Color
  sunlight : Color
  fog : Color
  fogDensity : Float32

/-! ## References inside a cell -/

/-- Something that stands in a cell, stored in the cell's record. -/
structure CellReference where
  index : UInt32 := 0
  /-- Id of the object that stands there. -/
  base : String := ""
  scale : Option Float32 := none
  placement : Placement := {}
  /-- Where a door leads. -/
  destination : Option Placement := none
  destinationCell : Option String := none
  owner : Option String := none
  /-- How many of it. -/
  count : Option Int32 := none
  deleted : Bool := false

/-- Fields of a reference inside a cell. -/
def CellReference.rules : List (Rule CellReference) :=
  [ .on .NAME .any fun r => return { r with base := ← text },
    .on .XSCL (.exactly 4) fun r => return { r with scale := some (← single) },
    .on .DATA (.exactly 24) fun r => return { r with placement := ← item Layout.placement },
    .on .DODT (.exactly 24) fun r =>
      return { r with destination := some (← item Layout.placement) },
    .on .DNAM .any fun r => return { r with destinationCell := some (← text) },
    .on .ANAM .any fun r => return { r with owner := some (← text) },
    .on .NAM9 (.exactly 4) fun r => return { r with count := some (← int32) },
    .on .DELE .any fun r => do skipRest; return { r with deleted := true } ]

/-! ## Cells -/

/-- A cell. -/
structure Cell where
  identity : Identity := {}
  flags : UInt32 := 0
  /-- Coordinates of an exterior cell. -/
  grid : Option (Int32 × Int32) := none
  waterHeight : Option Float32 := none
  /-- Region by name, in the oldest schema. -/
  region : Option String := none
  regions : List FormId := []
  climate : Option FormId := none
  water : Option FormId := none
  owner : Option FormId := none
  ambient : Option Ambient := none
  references : Array CellReference := #[]

namespace Cell

/-- Whether the cell is an interior. -/
def isInterior (c : Cell) : Bool := c.flags &&& 1 ≠ 0

/-- Coordinates for looking the cell up; an interior has none and counts as the origin. -/
def coordinates (c : Cell) : Int32 × Int32 := if c.isInterior then (0, 0) else c.grid.getD (0, 0)

/-- Starts a reference. -/
def startReference (c : Cell) : Field.Reader Cell :=
  return { c with references := c.references.push { index := ← word32 } }

/-- Fields of the cell itself. -/
def rules : List (Rule Cell) :=
  [ .onTes3 .FRMR (.exactly 4) startReference,
    .onTes3 .DATA (.exactly 12) fun c => do
      let flags ← word32
      let x ← int32
      let y ← int32
      return { c with flags, grid := some (x, y) },
    .onTes3 .RGNN .any fun c => return { c with region := some (← text) },
    .onTes3 .WHGT (.exactly 4) fun c => return { c with waterHeight := some (← single) },
    .onTes3 .INTV (.exactly 4) fun c =>
      return { c with waterHeight := some (Single.ofInt32 (← int32)) },
    .onTes3 .AMBI (.exactly 16) fun c => do
      let ambient ← item Layout.color
      let sunlight ← item Layout.color
      let fog ← item Layout.color
      let fogDensity ← single
      return { c with ambient := some ⟨ambient, sunlight, fog, fogDensity⟩ },
    -- The number of references that follow; the references themselves are what counts.
    .onTes3 .NAM0 (.exactly 4) fun c => do let _ ← word32; return c,
    .on .DATA (.exactly 1) fun c => return { c with flags := (← byte).toUInt32 },
    .on .DATA (.exactly 2) fun c => return { c with flags := (← word16).toUInt32 },
    .on .XCLC (.oneOf [8, 12]) fun c => do
      let x ← int32
      let y ← int32
      skipRest
      return { c with grid := some (x, y) },
    .on .XCLW (.exactly 4) fun c => return { c with waterHeight := some (← single) },
    .on .XCLR .any fun c => return { c with regions := ← formIds },
    .on .XCCM (.exactly 4) fun c => return { c with climate := some (← formId) },
    .on .XCWT (.exactly 4) fun c => return { c with water := some (← formId) },
    .on .XOWN (.exactly 4) fun c => return { c with owner := some (← formId) } ] ++
    Identity.rulesWithin (·.identity) fun c i => { c with identity := i }

/-- Offers a field to the latest reference. -/
def offerToLatest : Offer Cell := fun c => do
  match c.references.back? with
  | none => return none
  | some latest =>
    let latest? ← offerTo CellReference.rules latest
    return latest?.map fun latest =>
      { c with references := modifyLast c.references fun _ => latest }

/-- Whether a field belongs to the latest reference. -/
def belongsToReference (c : Cell) (f : Field) : Bool :=
  f.context.schema = .tes3 && !c.references.isEmpty && !(f.tag = .FRMR && f.size = 4)

/-- Offers a field to the cell or to its latest reference. -/
def offer : Offer Cell := fun c => do
  if c.belongsToReference (← read) then offerToLatest c else offerTo rules c

end Cell

end GamePlugin
