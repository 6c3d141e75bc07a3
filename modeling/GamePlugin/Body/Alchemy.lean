import GamePlugin.Body.Effect
import GamePlugin.Body.Identity

/-!
# Potions and ingredients
-/

namespace GamePlugin

open Field.Reader

/-- A potion. -/
structure Potion where
  identity : Identity := {}
  weight : Float32 := 0
  /-- Price in gold. -/
  value : Int32 := 0
  flags : UInt32 := 0
  effects : Array Effect := #[]

/-- Fields of a potion. -/
def Potion.rules : List (Rule Potion) :=
  [ .on .ALDT (.exactly 12) fun p => do
      let weight ← single
      let value ← int32
      let flags ← word32
      return { p with weight, value, flags },
    .onTes3 .TEXT .any fun p =>
      return { p with identity := { p.identity with icon := some (← text) } },
    .on .DATA (.exactly 4) fun p => return { p with weight := ← single },
    .on .ENIT (.exactly 8) fun p => do
      let value ← int32
      let flags ← byte
      skip 3
      return { p with value, flags := flags.toUInt32 },
    .on .ENIT (.exactly 20) fun p => do
      let value ← int32
      let flags ← word32
      skipRest
      return { p with value, flags } ] ++
    Effect.rulesWithin (·.effects) (fun p effects => { p with effects }) ++
    Identity.rulesWithin (·.identity) fun p i => { p with identity := i }

/-- One of the four effects an ingredient has in the oldest schema. -/
structure IngredientSlot where
  effect : Int32
  /-- Skill that is affected. -/
  skill : Int32
  /-- Attribute that is affected. -/
  governing : Int32
deriving DecidableEq

/-- An ingredient. -/
structure Ingredient where
  identity : Identity := {}
  weight : Float32 := 0
  /-- Price in gold. -/
  value : Int32 := 0
  flags : UInt32 := 0
  /-- Used slots, in the oldest schema. -/
  slots : List IngredientSlot := []
  effects : Array Effect := #[]

namespace Ingredient

/-- The used slots: three rows of four hold the effects, the skills and the attributes, and a
negative effect marks an unused slot. -/
def usedSlots (rows : List (List Int32)) : List IngredientSlot :=
  let cell (row i : Nat) : Int32 := ((rows[row]?.getD [])[i]?).getD 0
  ((List.range 4).map fun i => ⟨cell 0 i, cell 1 i, cell 2 i⟩).filter fun slot => 0 ≤ slot.effect

/-- Fields of an ingredient. -/
def rules : List (Rule Ingredient) :=
  [ .on .IRDT (.exactly 56) fun n => do
      let weight ← single
      let value ← int32
      let rows ← item (Layout.times 3 (Layout.times 4 Layout.int32))
      return { n with weight, value, slots := usedSlots rows },
    .on .DATA (.exactly 4) fun n => return { n with weight := ← single },
    .on .ENIT (.exactly 8) fun n => do
      let value ← int32
      let flags ← byte
      skip 3
      return { n with value, flags := flags.toUInt32 } ] ++
    Effect.rulesWithin (·.effects) (fun n effects => { n with effects }) ++
    Identity.rulesWithin (·.identity) fun n i => { n with identity := i }

end Ingredient

end GamePlugin
