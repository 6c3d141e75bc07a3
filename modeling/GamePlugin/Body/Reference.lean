import GamePlugin.Body.Rule
import GamePlugin.Geometry

/-!
# Placed references

An object or actor that stands in a cell, as a record of its own.
-/

namespace GamePlugin

open Field.Reader

/-- A reference that decides whether another one is enabled. -/
structure EnableParent where
  reference : FormId
  flags : UInt8
deriving DecidableEq

/-- Where a door leads. -/
structure Teleport where
  /-- The door at the other side. -/
  door : FormId
  placement : Placement

/-- A placed reference. -/
structure Reference where
  editorId : Option String := none
  /-- The object that stands there. -/
  base : Option FormRef := none
  placement : Placement := {}
  scale : Option Float32 := none
  enableParent : Option EnableParent := none
  teleport : Option Teleport := none
  owner : Option FormId := none

/-- Fields of a placed reference. -/
def Reference.rules : List (Rule Reference) :=
  [ .on .EDID .any fun r => return { r with editorId := some (← text) },
    .on .NAME (.exactly 4) fun r => return { r with base := some (← idRef) },
    .on .DATA (.exactly 24) fun r => return { r with placement := ← item Layout.placement },
    .on .XSCL (.exactly 4) fun r => return { r with scale := some (← single) },
    .on .XESP (.exactly 8) fun r => do
      let reference ← formId
      let flags ← byte
      skip 3
      return { r with enableParent := some ⟨reference, flags⟩ },
    .on .XTEL (.oneOf [28, 32]) fun r => do
      let door ← formId
      let placement ← item Layout.placement
      skipRest
      return { r with teleport := some ⟨door, placement⟩ },
    .on .XOWN (.exactly 4) fun r => return { r with owner := some (← formId) } ]

end GamePlugin
