import GamePlugin.Body.Identity

/-!
# Scripts

The oldest schema packs the names of all local variables into one field.
-/

namespace GamePlugin

open Field.Reader

/-- Sizes and counts of a script. -/
structure ScriptHeader where
  shortCount : UInt32 := 0
  longCount : UInt32 := 0
  floatCount : UInt32 := 0
  compiledSize : UInt32 := 0
  variableCount : UInt32 := 0
  kind : Option UInt16 := none
deriving DecidableEq

/-- A script. -/
structure Script where
  identity : Identity := {}
  header : ScriptHeader := {}
  /-- Names of local variables. -/
  locals : Array String := #[]
  compiled : Bytes := []
  source : String := ""

/-- Fields of a script. -/
def Script.rules : List (Rule Script) :=
  [ .on .SCHD (.exactly 52) fun s => do
      let name ← fixedText 32
      let shortCount ← word32
      let longCount ← word32
      let floatCount ← word32
      let compiledSize ← word32
      let variableCount ← word32
      return { s with
        identity := { s.identity with editorId := some name }
        header := { s.header with
          shortCount, longCount, floatCount, compiledSize, variableCount } },
    .on .SCHR (.exactly 20) fun s => do
      skip 4
      let _referenceCount ← word32
      let compiledSize ← word32
      let variableCount ← word32
      let kind ← word16
      let _flags ← word16
      return { s with header := { s.header with compiledSize, variableCount, kind := some kind } },
    .on .SCVR .any fun s =>
      return { s with locals := s.locals ++ Text.decodeAll (← toEnd) },
    .on .SCDT .any fun s => return { s with compiled := ← toEnd },
    .on .SCDA .any fun s => return { s with compiled := ← toEnd },
    .on .SCTX .any fun s => return { s with source := ← text } ] ++
    Identity.rulesWithin (·.identity) fun s i => { s with identity := i }

end GamePlugin
