import GamePlugin.Body.Condition
import GamePlugin.Body.Identity

/-!
# Quests

A quest goes through stages, each with entries for the journal, and has objectives. An entry or a
flag belongs to the latest stage and is dropped before the first; the text of an objective belongs
to the latest objective and is declined before the first.
-/

namespace GamePlugin

open Field.Reader

/-- A stage of a quest. -/
structure QuestStage where
  index : Int16
  flags : UInt8 := 0
  /-- Entries for the journal. -/
  logEntries : Array DisplayText := #[]

/-- An objective of a quest. -/
structure QuestObjective where
  index : Int32
  text : Option DisplayText := none
deriving DecidableEq

/-- A quest. -/
structure Quest where
  identity : Identity := {}
  flags : UInt16 := 0
  priority : UInt8 := 0
  kind : Option UInt32 := none
  stages : Array QuestStage := #[]
  objectives : Array QuestObjective := #[]
  conditions : Array Condition := #[]

namespace Quest

/-- Reads the text of the latest objective. -/
def readObjectiveText : Offer Quest := fun q => do
  if q.objectives.isEmpty then return none
  else
    let line ← displayText
    return some { q with objectives := modifyLast q.objectives ({ · with text := some line }) }

/-- Fields of a quest. -/
def rules : List (Rule Quest) :=
  [ .on .DATA (.oneOf [2, 8]) fun q => do
      let flags ← byte
      let priority ← byte
      skipRest
      return { q with flags := flags.toUInt16, priority },
    .on .DNAM (.exactly 12) fun q => do
      let flags ← word16
      let priority ← byte
      skip 5
      let kind ← word32
      return { q with flags, priority, kind := some kind },
    .on .INDX (.exactly 2) fun q => return { q with stages := q.stages.push { index := ← int16 } },
    .on .INDX (.exactly 4) fun q => do
      let index ← int16
      let flags ← byte
      skip 1
      return { q with stages := q.stages.push { index, flags } },
    .on .QSDT (.exactly 1) fun q => do
      let flags ← byte
      return { q with stages := modifyLast q.stages ({ · with flags }) },
    .on .CNAM .any fun q => do
      let entry ← displayText
      return { q with
        stages := modifyLast q.stages fun stage =>
          { stage with logEntries := stage.logEntries.push entry } },
    .on .QOBJ (.exactly 2) fun q =>
      return { q with objectives := q.objectives.push { index := (← word16).toUInt32.toInt32 } },
    .on .QOBJ (.exactly 4) fun q =>
      return { q with objectives := q.objectives.push { index := ← int32 } },
    ⟨.NNAM, .any, [.tes3, .tes4, .tes5], readObjectiveText⟩,
    .on .CTDA (.atLeast 20) fun q =>
      return { q with conditions := q.conditions.push (← Condition.read) } ] ++
    Identity.rulesWithin (·.identity) fun q i => { q with identity := i }

end Quest

end GamePlugin
