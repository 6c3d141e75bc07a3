import GamePlugin.Body.Condition
import GamePlugin.Body.Identity

/-!
# Topics of conversation

A topic has lines, each a record of its own. A line has responses; texts belong to the latest
response, and the first text starts one if there is none yet.
-/

namespace GamePlugin

open Field.Reader

/-! ## Topics -/

/-- A topic of conversation. -/
structure Topic where
  identity : Identity := {}
  kind : UInt8 := 0
  flags : UInt8 := 0
  /-- Quests that the topic belongs to. -/
  quests : Array FormId := #[]
  /-- The one quest that the topic belongs to, in newer games. -/
  quest : Option FormId := none
  priority : Option Float32 := none
  subtype : Option UInt16 := none
  /-- How many lines it has. -/
  infoCount : Option UInt32 := none

namespace Topic

/-- The kind of topic in the first byte, and nothing else. -/
def readKind (t : Topic) : Field.Reader Topic := do
  let kind ← byte
  skipRest
  return { t with kind }

/-- Fields of a topic. -/
def rules : List (Rule Topic) :=
  [ .onTes3 .DATA (.oneOf [1, 4]) readKind,
    .onSchema .tes5 .DATA (.exactly 4) fun t => do
      let flags ← byte
      let kind ← byte
      let subtype ← word16
      return { t with flags, kind, subtype := some subtype },
    .on .DATA (.exactly 1) fun t => return { t with kind := ← byte },
    .on .DATA (.exactly 2) fun t => do
      let kind ← byte
      let flags ← byte
      return { t with kind, flags },
    .on .QSTI (.exactly 4) fun t => return { t with quests := t.quests.push (← formId) },
    .on .QNAM (.exactly 4) fun t => return { t with quest := some (← formId) },
    .on .PNAM (.exactly 4) fun t => return { t with priority := some (← single) },
    .on .TIFC (.exactly 4) fun t => return { t with infoCount := some (← word32) } ] ++
    Identity.rulesWithin (·.identity) fun t i => { t with identity := i }

end Topic

/-! ## Lines -/

/-- What is said. -/
structure Response where
  emotion : UInt32 := 0
  emotionValue : Int32 := 0
  number : UInt8 := 0
  text : Option DisplayText := none
  /-- Notes for the actor. -/
  notes : Option String := none
deriving DecidableEq

/-- A line of a topic. -/
structure Info where
  identity : Identity := {}
  kind : UInt8 := 0
  /-- Disposition that the speaker must have. -/
  disposition : Option Int32 := none
  /-- The line before it. -/
  previous : Option FormRef := none
  /-- The line after it. -/
  next : Option String := none
  topic : Option FormId := none
  quest : Option FormId := none
  speaker : Option FormRef := none
  responses : Array Response := #[]
  conditions : Array Condition := #[]
  /-- Conditions on scripts, in the oldest schema. -/
  scriptConditions : Array String := #[]
  /-- Source of the script that runs afterwards. -/
  resultScript : Option String := none

namespace Info

/-- Changes the latest response, or a new one if there is none. -/
def changeLatest (n : Info) (f : Response → Response) : Info :=
  { n with
    responses := if n.responses.isEmpty then #[f {}] else modifyLast n.responses f }

/-- Fields of a line in the oldest schema. -/
def tes3Rules : List (Rule Info) :=
  [ .onTes3 .INAM .any fun n =>
      return { n with identity := { n.identity with editorId := some (← text) } },
    .onTes3 .PNAM .any fun n => return { n with previous := some (← ref) },
    .onTes3 .NNAM .any fun n => return { n with next := some (← text) },
    .onTes3 .DATA (.exactly 12) fun n => do
      let kind ← byte
      skip 3
      let disposition ← int32
      skip 4
      return { n with kind, disposition := some disposition },
    .onTes3 .ONAM .any fun n => return { n with speaker := some (← ref) },
    .onTes3 .NAME .any fun n => do
      let line ← text
      return n.changeLatest ({ · with text := some (.text line) }),
    .onTes3 .SCVR .any fun n =>
      return { n with scriptConditions := n.scriptConditions.push (← text) },
    .onTes3 .INTV (.exactly 4) fun n => do skip 4; return n,
    .onTes3 .FLTV (.exactly 4) fun n => do skip 4; return n,
    .onTes3 .BNAM .any fun n => return { n with resultScript := some (← text) } ]

/-- Fields of a line in the newer schemas. -/
def groupedRules : List (Rule Info) :=
  [ .onGrouped .DATA (.oneOf [2, 3, 4]) fun n => do
      let kind ← byte
      skipRest
      return { n with kind },
    .onGrouped .QSTI (.exactly 4) fun n => return { n with quest := some (← formId) },
    .onGrouped .TPIC (.exactly 4) fun n => return { n with topic := some (← formId) },
    .onGrouped .PNAM (.exactly 4) fun n => return { n with previous := some (← idRef) },
    .onGrouped .ANAM (.exactly 4) fun n => return { n with speaker := some (← idRef) },
    .onGrouped .TRDT (.oneOf [20, 24]) fun n => do
      let emotion ← word32
      let emotionValue ← int32
      skip 4
      let number ← byte
      skipRest
      return { n with responses := n.responses.push { emotion, emotionValue, number } },
    .onGrouped .NAM1 .any fun n => do
      let line ← displayText
      return n.changeLatest ({ · with text := some line }),
    .onGrouped .NAM2 .any fun n => do
      let notes ← text
      return n.changeLatest ({ · with notes := some notes }),
    .onGrouped .CTDA (.atLeast 20) fun n =>
      return { n with conditions := n.conditions.push (← Condition.read) },
    .onGrouped .SCTX .any fun n => return { n with resultScript := some (← text) } ]

/-- Fields of a line. -/
def rules : List (Rule Info) :=
  tes3Rules ++ groupedRules ++
    Identity.rulesWithin (·.identity) fun n i => { n with identity := i }

end Info

end GamePlugin
