import GamePlugin.Body.Identity

/-!
# Textures
-/

namespace GamePlugin

open Field.Reader

/-- A set of textures for one surface. -/
structure TextureSet where
  identity : Identity := {}
  /-- Path for each of the eight slots. -/
  textures : Vector (Option String) 8 := .replicate 8 none
  flags : UInt16 := 0

namespace TextureSet

/-- The field of each slot. -/
def slots : Vector Tag 8 :=
  #v[.TX00, .TX01, .TX02, .TX03, .TX04, .TX05, .TX06, .TX07]

/-- Fields of a set of textures. -/
def rules : List (Rule TextureSet) :=
  (List.finRange 8).map (fun slot => .on (slots.get slot) .any fun s =>
    return { s with textures := s.textures.set slot (some (← text)) }) ++
  [ .on .DNAM (.exactly 2) fun s => return { s with flags := ← word16 } ] ++
    Identity.rulesWithin (·.identity) fun s i => { s with identity := i }

end TextureSet

/-- A texture of the ground. -/
structure LandTexture where
  identity : Identity := {}
  /-- Number of the texture, in the oldest schema. -/
  index : Option UInt32 := none
  /-- Path of the texture. -/
  texture : Option String := none
  textureSet : Option FormId := none
  material : Option FormId := none
  /-- Physical properties, as stored. -/
  havok : Option Bytes := none
  specular : Option UInt8 := none
  grasses : Array FormId := #[]

/-- Fields of a texture of the ground. -/
def LandTexture.rules : List (Rule LandTexture) :=
  [ .onTes3 .INTV (.exactly 4) fun t => return { t with index := some (← word32) },
    .onTes3 .DATA .any fun t => return { t with texture := some (← text) },
    .onGrouped .ICON .any fun t => return { t with texture := some (← text) },
    .on .TNAM (.exactly 4) fun t => return { t with textureSet := some (← formId) },
    .on .MNAM (.exactly 4) fun t => return { t with material := some (← formId) },
    .on .HNAM (.oneOf [2, 3]) fun t => return { t with havok := some (← toEnd) },
    .on .SNAM (.exactly 1) fun t => return { t with specular := some (← byte) },
    .on .GNAM (.exactly 4) fun t => return { t with grasses := t.grasses.push (← formId) } ] ++
    Identity.rulesWithin (·.identity) fun t i => { t with identity := i }

end GamePlugin
