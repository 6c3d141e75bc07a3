import GamePlugin.Body.Identity

/-!
# Armor and clothing
-/

namespace GamePlugin

open Field.Reader

/-- A piece of armor. -/
structure Armor where
  identity : Identity := {}
  /-- Armor rating. -/
  rating : Float32 := 0
  /-- Price in gold. -/
  value : Int32 := 0
  weight : Float32 := 0
  health : Option UInt32 := none
  kind : Option UInt32 := none
  /-- Parts of the body that it covers. -/
  bipedFlags : Option UInt32 := none
  enchantment : Option FormRef := none

/-- Fields of a piece of armor. The newer schemas store hundredths of the rating. -/
def Armor.rules : List (Rule Armor) :=
  [ .on .AODT (.exactly 24) fun a => do
      let kind ← word32
      let weight ← single
      let value ← int32
      let health ← word32
      let _enchantPoints ← word32
      let rating ← int32
      return { a with
        weight, value
        kind := some kind
        health := some health
        rating := Single.ofInt32 rating },
    .on .DATA (.exactly 14) fun a => do
      let rating ← word16
      let value ← int32
      let health ← word32
      let weight ← single
      return { a with
        value, weight
        rating := Single.ofUInt32 rating.toUInt32 / 100
        health := some health },
    .on .DATA (.exactly 12) fun a => do
      let value ← int32
      let health ← word32
      let weight ← single
      return { a with value, weight, health := some health },
    .on .DATA (.exactly 8) fun a => do
      let value ← int32
      let weight ← single
      return { a with value, weight },
    .on .DNAM (.exactly 4) fun a => return { a with rating := Single.ofInt32 (← int32) / 100 },
    .on .BMDT (.oneOf [4, 8]) fun a => do
      let flags ← word32
      skipRest
      return { a with bipedFlags := some flags },
    .on .ENAM .any fun a => return { a with enchantment := some (← ref) } ] ++
    Identity.rulesWithin (·.identity) fun a i => { a with identity := i }

/-- A piece of clothing. -/
structure Clothing where
  identity : Identity := {}
  kind : Option UInt32 := none
  /-- Price in gold. -/
  value : Int32 := 0
  weight : Float32 := 0
  /-- Parts of the body that it covers. -/
  bipedFlags : Option UInt32 := none
  enchantment : Option FormRef := none

/-- Fields of a piece of clothing. -/
def Clothing.rules : List (Rule Clothing) :=
  [ .on .CTDT (.exactly 12) fun c => do
      let kind ← word32
      let weight ← single
      let value ← word16
      let _enchantPoints ← word16
      return { c with kind := some kind, weight, value := value.toUInt32.toInt32 },
    .on .DATA (.exactly 8) fun c => do
      let value ← int32
      let weight ← single
      return { c with value, weight },
    .on .BMDT (.exactly 4) fun c => return { c with bipedFlags := some (← word32) },
    .on .ENAM .any fun c => return { c with enchantment := some (← ref) } ] ++
    Identity.rulesWithin (·.identity) fun c i => { c with identity := i }

end GamePlugin
