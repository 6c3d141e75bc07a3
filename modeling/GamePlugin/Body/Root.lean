import GamePlugin.Body.Rule

/-!
# The root record

The first record of a plugin tells the version of the file, its author, and the masters it builds
on. The oldest schema packs author and description into one field of 300 bytes.
-/

namespace GamePlugin

open Field.Reader

/-- A plugin that another one builds on. -/
structure Master where
  name : String
  /-- Size of the file when the plugin was saved. -/
  size : Option UInt64 := none
deriving DecidableEq

/-- What a plugin says about itself. -/
structure Root where
  version : Float32 := 0
  /-- Plugin, master or save, in the oldest schema. -/
  fileType : Option UInt32 := none
  author : String := ""
  description : String := ""
  /-- Number of records and groups. -/
  recordCount : UInt32 := 0
  /-- Next free object number. -/
  nextObject : Option UInt32 := none
  /-- Masters, in load order. -/
  masters : Array Master := #[]
  /-- Forms of the masters that the plugin changes. -/
  overrides : Array FormId := #[]
  internalVersion : Option UInt32 := none
  incrementalCount : Option UInt32 := none

namespace Root

/-- Names of the masters, in load order. -/
def masterNames (r : Root) : List String := r.masters.toList.map (·.name)

/-- Two words as one number, the low one first. -/
def joined (low high : UInt32) : UInt64 := low.toUInt64 ||| (high.toUInt64 <<< 32)

/-- Fields of a root record. -/
def rules : List (Rule Root) :=
  [ .on .HEDR (.exactly 300) fun r => do
      let version ← single
      let fileType ← word32
      let author ← fixedText 32
      let description ← fixedText 256
      let recordCount ← word32
      return { r with version, fileType := some fileType, author, description, recordCount },
    .on .HEDR (.exactly 12) fun r => do
      let version ← single
      let recordCount ← int32
      let nextObject ← word32
      return { r with
        version, recordCount := clampWord recordCount, nextObject := some nextObject },
    .on .CNAM .any fun r => return { r with author := ← text },
    .on .SNAM .any fun r => return { r with description := ← text },
    .on .MAST .any fun r => return { r with masters := r.masters.push { name := ← text } },
    .on .DATA (.exactly 8) fun r => do
      let low ← word32
      let high ← word32
      return { r with masters := modifyLast r.masters ({ · with size := some (joined low high) }) },
    .on .ONAM .any fun r => return { r with overrides := r.overrides ++ (← formIds) },
    .on .INTV (.exactly 4) fun r => return { r with internalVersion := some (← word32) },
    .on .INCC (.exactly 4) fun r => return { r with incrementalCount := some (← word32) } ]

end Root

end GamePlugin
