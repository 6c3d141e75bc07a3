import GamePlugin.Body.Container

/-!
# Actors

Characters and creatures. In the oldest schema the rank within a faction stands among the figures of
the character and belongs to the latest faction.
-/

namespace GamePlugin

open Field.Reader

/-- Membership of a faction. -/
structure Membership where
  faction : FormRef
  rank : Int8
deriving DecidableEq

/-- A character or creature. -/
structure Actor where
  identity : Identity := {}
  flags : UInt32 := 0
  /-- Level, or what the player's level is multiplied with. -/
  level : Int16 := 0
  /-- Bounds of a level that goes with the player's. -/
  levelBounds : Option (UInt16 × UInt16) := none
  gold : Option Int32 := none
  race : Option FormRef := none
  profession : Option FormRef := none
  factions : Array Membership := #[]
  items : Array ItemEntry := #[]
  spells : Array FormRef := #[]
  /-- What the actor does when left alone. -/
  packages : Array FormId := #[]
  /-- What the actor leaves behind. -/
  deathItem : Option FormId := none

namespace Actor

/-- Sets the rank in the latest faction, if there is one. -/
def setRank (a : Actor) (rank : Int8) : Actor :=
  { a with factions := modifyLast a.factions ({ · with rank }) }

/-- A level that is stored as a word, brought into range. -/
def clampLevel (n : Int32) : Int16 :=
  if n < 0 then 0 else if 32767 < n then 32767 else n.toInt16

/-- The short figures of a character. -/
def readShortStats (a : Actor) : Field.Reader Actor := do
  let level ← int16
  let _disposition ← byte
  let _reputation ← byte
  let rank ← int8
  skip 3
  let gold ← int32
  return { a with level, gold := some gold }.setRank rank

/-- The long figures of a character. -/
def readLongStats (a : Actor) : Field.Reader Actor := do
  let level ← int16
  skip 44
  let rank ← int8
  skip 1
  let gold ← int32
  return { a with level, gold := some gold }.setRank rank

/-- The figures of a creature. -/
def readCreatureStats (a : Actor) : Field.Reader Actor := do
  let _kind ← int32
  let level ← int32
  skip 84
  let gold ← int32
  return { a with level := clampLevel level, gold := some gold }

/-- Figures of 96 bytes, which only a creature has; any other record reads the short ones. -/
def readWideStats (a : Actor) : Field.Reader Actor := do
  if (← read).record = .CREA then readCreatureStats a else readShortStats a

/-- Level and its bounds. -/
def readLevels (flags : UInt32) (a : Actor) : Field.Reader Actor := do
  let level ← int16
  let low ← word16
  let high ← word16
  return { a with flags, level, levelBounds := some (low, high) }

/-- Fields of an actor. -/
def rules : List (Rule Actor) :=
  ItemEntry.rulesWithin (·.items) (fun a items => { a with items }) ++
  [ .onTes3 .NPDT (.exactly 12) readShortStats,
    .onTes3 .NPDT (.exactly 52) readLongStats,
    .onTes3 .NPDT (.exactly 96) readWideStats,
    .onTes3 .FLAG (.exactly 4) fun a => return { a with flags := ← word32 },
    .onTes3 .ANAM .any fun a => return { a with factions := a.factions.push ⟨← ref, 0⟩ },
    .onTes3 .NPCS (.exactly 32) fun a => return { a with spells := a.spells.push (← nameRef) },
    .on .RNAM .any fun a => return { a with race := some (← ref) },
    .on .CNAM .any fun a => return { a with profession := some (← ref) },
    .on .ACBS (.exactly 16) fun a => do
      let flags ← word32
      skip 6
      readLevels flags a,
    .on .ACBS (.exactly 24) fun a => do
      let flags ← word32
      skip 4
      let a ← readLevels flags a
      skipRest
      return a,
    .onGrouped .SNAM (.oneOf [5, 8]) fun a => do
      let faction ← idRef
      let rank ← int8
      skipRest
      return { a with factions := a.factions.push ⟨faction, rank⟩ },
    .on .SPLO (.exactly 4) fun a => return { a with spells := a.spells.push (← idRef) },
    .on .PKID (.exactly 4) fun a => return { a with packages := a.packages.push (← formId) },
    .onGrouped .INAM (.exactly 4) fun a => return { a with deathItem := some (← formId) } ] ++
    Identity.rulesWithin (·.identity) fun a i => { a with identity := i }

end Actor

end GamePlugin
