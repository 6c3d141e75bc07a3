import GamePlugin.Body.Identity

/-!
# Weapons and ammunition

The figures moved between fields and changed their width from game to game. Within a schema the size
of the field tells which figures it holds.
-/

namespace GamePlugin

open Field.Reader

/-! ## Weapons -/

/-- Figures of a weapon. -/
structure WeaponStats where
  /-- Price in gold. -/
  value : Int32 := 0
  weight : Float32 := 0
  /-- Greatest damage of a blow. -/
  damage : UInt16 := 0
  health : Option UInt32 := none
  speed : Option Float32 := none
  reach : Option Float32 := none
  kind : Option UInt32 := none
  flags : UInt32 := 0

/-- A weapon. -/
structure Weapon where
  identity : Identity := {}
  stats : WeaponStats := {}
  enchantment : Option FormRef := none
  enchantPoints : Option UInt16 := none

/-- Fields of a weapon. -/
def Weapon.rules : List (Rule Weapon) :=
  [ .on .WPDT (.exactly 32) fun w => do
      let weight ← single
      let value ← int32
      let kind ← word16
      let health ← word16
      let speed ← single
      let reach ← single
      let points ← word16
      let _leastChop ← byte
      let damage ← byte
      skip 4
      let flags ← word32
      return { w with
        enchantPoints := some points
        stats := {
          value, weight, flags
          damage := damage.toUInt16
          health := some health.toUInt32
          speed := some speed
          reach := some reach
          kind := some kind.toUInt32 } },
    .on .DATA (.exactly 30) fun w => do
      let kind ← word32
      let speed ← single
      let reach ← single
      let flags ← word32
      let value ← int32
      let health ← word32
      let weight ← single
      let damage ← word16
      return { w with
        stats := {
          value, weight, damage, flags
          health := some health
          speed := some speed
          reach := some reach
          kind := some kind } },
    .on .DATA (.exactly 15) fun w => do
      let value ← int32
      let health ← int32
      let weight ← single
      let damage ← int16
      let _clipSize ← byte
      return { w with
        stats := { w.stats with
          value, weight
          health := some (clampWord health)
          damage := clampHalf damage } },
    .on .DATA (.exactly 10) fun w => do
      let value ← int32
      let weight ← single
      let damage ← word16
      return { w with stats := { w.stats with value, weight, damage } },
    .on .ENAM .any fun w => return { w with enchantment := some (← ref) },
    .on .ANAM (.exactly 2) fun w => return { w with enchantPoints := some (← word16) } ] ++
    Identity.rulesWithin (·.identity) fun w i => { w with identity := i }

/-! ## Ammunition -/

/-- Ammunition. -/
structure Ammo where
  identity : Identity := {}
  /-- Price in gold. -/
  value : UInt32 := 0
  weight : Option Float32 := none
  damage : Float32 := 0
  flags : UInt32 := 0
  projectile : Option FormId := none

/-- Fields of ammunition. -/
def Ammo.rules : List (Rule Ammo) :=
  [ .on .DATA (.exactly 18) fun a => do
      let _speed ← single
      let flags ← byte
      skip 3
      let value ← word32
      let weight ← single
      let damage ← word16
      return { a with
        value
        flags := flags.toUInt32
        weight := some weight
        damage := Single.ofUInt32 damage.toUInt32 },
    .on .DATA (.exactly 13) fun a => do
      let _speed ← single
      let flags ← byte
      skip 3
      let value ← word32
      let _clipRounds ← byte
      return { a with value, flags := flags.toUInt32 },
    .on .DATA (.oneOf [16, 20]) fun a => do
      let projectile ← formId
      let flags ← word32
      let damage ← single
      let value ← word32
      let weight ← if (← remaining) = 4 then some <$> single else pure a.weight
      return { a with projectile := some projectile, flags, damage, value, weight } ] ++
    Identity.rulesWithin (·.identity) fun a i => { a with identity := i }

end GamePlugin
