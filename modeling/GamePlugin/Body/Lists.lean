import GamePlugin.Body.Identity

/-!
# Lists of forms

A leveled list gives, for each entry, the level from which it may be chosen. In the oldest schema
the level follows the entry's name in a field of its own.
-/

namespace GamePlugin

open Field.Reader

/-- A list of forms. -/
structure FormList where
  identity : Identity := {}
  entries : Array FormId := #[]

/-- Fields of a list of forms. -/
def FormList.rules : List (Rule FormList) :=
  [ .on .LNAM (.exactly 4) fun l => return { l with entries := l.entries.push (← formId) } ] ++
    Identity.rulesWithin (·.identity) fun l i => { l with identity := i }

/-- An entry of a leveled list. -/
structure LeveledEntry where
  /-- Level of the player from which it may be chosen. -/
  level : UInt16
  item : FormRef
  count : UInt16
deriving DecidableEq

/-- A list from which a creature, item or spell is chosen by level. -/
structure LeveledList where
  identity : Identity := {}
  /-- Percentage of choosing nothing. -/
  chanceNone : UInt8 := 0
  flags : UInt32 := 0
  /-- Global variable that overrides the chance. -/
  chanceGlobal : Option FormId := none
  entries : Array LeveledEntry := #[]

namespace LeveledList

/-- Adds an entry whose level is still to come. -/
def readName (l : LeveledList) : Field.Reader LeveledList :=
  return { l with entries := l.entries.push ⟨0, ← ref, 1⟩ }

/-- Fields of a leveled list. -/
def rules : List (Rule LeveledList) :=
  [ .onTes3 .DATA (.exactly 4) fun l => return { l with flags := ← word32 },
    .onTes3 .NNAM (.exactly 1) fun l => return { l with chanceNone := ← byte },
    -- The number of entries that follow; the entries themselves are what counts.
    .onTes3 .INDX (.exactly 4) fun l => do let _ ← word32; return l,
    .onTes3 .CNAM .any readName,
    .onTes3 .INAM .any readName,
    ⟨.INTV, .exactly 2, [.tes3], fun l => do
      let level ← word16
      if l.entries.isEmpty then return none
      else return some { l with entries := modifyLast l.entries ({ · with level }) }⟩,
    .on .LVLD (.exactly 1) fun l => return { l with chanceNone := ← byte },
    .on .LVLF (.exactly 1) fun l => return { l with flags := (← byte).toUInt32 },
    .onGrouped .DATA (.exactly 1) fun l => return { l with flags := (← byte).toUInt32 },
    .on .LVLG (.exactly 4) fun l => return { l with chanceGlobal := some (← formId) },
    .on .LLCT (.exactly 1) fun l => do let _ ← byte; return l,
    .on .LVLO (.exactly 8) fun l => do
      let level ← int16
      skip 2
      let item ← idRef
      return { l with entries := l.entries.push ⟨clampHalf level, item, 1⟩ },
    .on .LVLO (.exactly 12) fun l => do
      let level ← int16
      skip 2
      let item ← idRef
      let count ← int16
      skip 2
      return { l with entries := l.entries.push ⟨clampHalf level, item, clampHalf count⟩ } ] ++
    Identity.rulesWithin (·.identity) fun l i => { l with identity := i }

end LeveledList

end GamePlugin
