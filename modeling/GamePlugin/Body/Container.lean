import GamePlugin.Body.Identity

/-!
# Inventories, containers, doors and sounds
-/

namespace GamePlugin

open Field.Reader

/-! ## Inventories -/

/-- So many of an item. -/
structure ItemEntry where
  item : FormRef
  count : Int32
deriving DecidableEq

/-- Fields of an inventory. -/
def ItemEntry.rules : List (Rule (Array ItemEntry)) :=
  [ .on .NPCO (.exactly 36) fun items => do
      let count ← int32
      return items.push ⟨← nameRef, count⟩,
    .on .CNTO (.exactly 8) fun items => do
      let item ← idRef
      return items.push ⟨item, ← int32⟩ ]

/-- Fields of an inventory, as rules of a body that has one. -/
def ItemEntry.rulesWithin {β : Type} (get : β → Array ItemEntry)
    (set : β → Array ItemEntry → β) : List (Rule β) :=
  ItemEntry.rules.map (Rule.within get set)

/-! ## Containers and doors -/

/-- A container. -/
structure Container where
  identity : Identity := {}
  /-- Weight, or in the oldest schema how much fits in. -/
  weight : Float32 := 0
  flags : UInt32 := 0
  items : Array ItemEntry := #[]
  openSound : Option FormRef := none
  closeSound : Option FormRef := none

/-- Fields of a container. -/
def Container.rules : List (Rule Container) :=
  ItemEntry.rulesWithin (·.items) (fun c items => { c with items }) ++
  [ .on .CNDT (.exactly 4) fun c => return { c with weight := ← single },
    .on .FLAG (.exactly 4) fun c => return { c with flags := ← word32 },
    .onGrouped .DATA (.exactly 5) fun c => do
      let flags ← byte
      let weight ← single
      return { c with flags := flags.toUInt32, weight },
    -- The number of items that follow; the items themselves are what counts.
    .on .COCT (.exactly 4) fun c => do let _ ← word32; return c,
    .onGrouped .SNAM (.exactly 4) fun c => return { c with openSound := some (← ref) },
    .onGrouped .QNAM (.exactly 4) fun c => return { c with closeSound := some (← ref) } ] ++
    Identity.rulesWithin (·.identity) fun c i => { c with identity := i }

/-- A door. -/
structure Door where
  identity : Identity := {}
  openSound : Option FormRef := none
  closeSound : Option FormRef := none
  loopSound : Option FormRef := none
  flags : UInt8 := 0
  /-- Places one of which it leads to. -/
  randomTeleports : Array FormId := #[]

/-- Fields of a door. -/
def Door.rules : List (Rule Door) :=
  [ .on .SNAM .any fun d => return { d with openSound := some (← ref) },
    .on .ANAM .any fun d => return { d with closeSound := some (← ref) },
    .onGrouped .BNAM (.exactly 4) fun d => return { d with loopSound := some (← ref) },
    .onGrouped .FNAM (.exactly 1) fun d => return { d with flags := ← byte },
    .onGrouped .TNAM (.exactly 4) fun d =>
      return { d with randomTeleports := d.randomTeleports.push (← formId) } ] ++
    Identity.rulesWithin (·.identity) fun d i => { d with identity := i }

/-! ## Sounds -/

/-- A sound. -/
structure Sound where
  identity : Identity := {}
  /-- Path of the sound file. -/
  file : Option String := none
  volume : Option UInt8 := none
  /-- Least and greatest distance. -/
  range : Option (UInt8 × UInt8) := none

/-- Fields of a sound. -/
def Sound.rules : List (Rule Sound) :=
  [ .on .FNAM .any fun s => return { s with file := some (← text) },
    .onTes3 .DATA (.exactly 3) fun s => do
      let volume ← byte
      let near ← byte
      let far ← byte
      return { s with volume := some volume, range := some (near, far) } ] ++
    Identity.rulesWithin (·.identity) fun s i => { s with identity := i }

end GamePlugin
