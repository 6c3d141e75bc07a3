import GamePlugin.Body.Effect
import GamePlugin.Body.Identity

/-!
# Spells, enchantments and kinds of effects
-/

namespace GamePlugin

open Field.Reader

/-! ## Kinds of effects -/

/-- A kind of magic effect. -/
structure MagicEffect where
  identity : Identity := {}
  /-- Index in the fixed list of the oldest schema. -/
  index : Option UInt32 := none
  school : Option Int32 := none
  baseCost : Float32 := 0
  flags : UInt32 := 0

/-- Fields of a kind of magic effect. -/
def MagicEffect.rules : List (Rule MagicEffect) :=
  [ .onTes3 .INDX (.exactly 4) fun m => return { m with index := some (← word32) },
    .onTes3 .MEDT (.exactly 36) fun m => do
      let school ← int32
      let baseCost ← single
      let flags ← word32
      skipRest
      return { m with school := some school, baseCost, flags },
    .onGrouped .DATA (.atLeast 36) fun m => do
      let flags ← word32
      let baseCost ← single
      skipRest
      return { m with baseCost, flags } ] ++
    Identity.rulesWithin (·.identity) fun m i => { m with identity := i }

/-! ## Spells and enchantments -/

/-- Figures of a spell or an enchantment. -/
structure MagicData where
  kind : UInt32 := 0
  cost : UInt32 := 0
  /-- Charge of an enchantment. -/
  charge : Option UInt32 := none
  flags : UInt32 := 0
deriving DecidableEq

/-- A spell. -/
structure Spell where
  identity : Identity := {}
  data : MagicData := {}
  effects : Array Effect := #[]

/-- Fields of a spell. -/
def Spell.rules : List (Rule Spell) :=
  [ .on .SPDT (.exactly 12) fun s => do
      let kind ← word32
      let cost ← word32
      let flags ← word32
      return { s with data := ⟨kind, cost, none, flags⟩ },
    .on .SPIT (.exactly 16) fun s => do
      let kind ← word32
      let cost ← word32
      let _level ← word32
      let flags ← byte
      skip 3
      return { s with data := ⟨kind, cost, none, flags.toUInt32⟩ },
    .on .SPIT (.exactly 36) fun s => do
      let cost ← word32
      let flags ← word32
      let kind ← word32
      skipRest
      return { s with data := ⟨kind, cost, none, flags⟩ } ] ++
    Effect.rulesWithin (·.effects) (fun s effects => { s with effects }) ++
    Identity.rulesWithin (·.identity) fun s i => { s with identity := i }

/-- An enchantment. -/
structure Enchantment where
  identity : Identity := {}
  data : MagicData := {}
  effects : Array Effect := #[]

/-- Fields of an enchantment. -/
def Enchantment.rules : List (Rule Enchantment) :=
  [ .on .ENDT (.exactly 16) fun e => do
      let kind ← word32
      let cost ← word32
      let charge ← word32
      let flags ← word32
      return { e with data := ⟨kind, cost, some charge, flags⟩ },
    .onSchema .tes4 .ENIT (.exactly 16) fun e => do
      let kind ← word32
      let charge ← word32
      let cost ← word32
      let flags ← byte
      skip 3
      return { e with data := ⟨kind, cost, some charge, flags.toUInt32⟩ },
    .onSchema .tes5 .ENIT (.oneOf [32, 36]) fun e => do
      let cost ← word32
      let flags ← word32
      let kind ← word32
      let charge ← word32
      skipRest
      return { e with data := ⟨kind, cost, some charge, flags⟩ } ] ++
    Effect.rulesWithin (·.effects) (fun e effects => { e with effects }) ++
    Identity.rulesWithin (·.identity) fun e i => { e with identity := i }

end GamePlugin
