import GamePlugin.Body.Rule

/-!
# Magic effects in use

Spells, enchantments, potions and ingredients have a list of effects. The oldest schema stores an
effect in one field; the newer ones start it with one field and give its figures in the next, which
belong to the latest effect. Figures without an effect start one themselves.
-/

namespace GamePlugin

open Field.Reader

/-- Which effect is meant. -/
inductive EffectId where
  /-- Index into the fixed list of effects of the oldest schema. -/
  | index (n : UInt16)
  /-- Four-letter name. -/
  | code (tag : Tag)
  /-- Form id of the effect's record. -/
  | form (id : FormId)
deriving DecidableEq

/-- One effect of a spell, enchantment, potion or ingredient. -/
structure Effect where
  id : EffectId
  /-- Strength; the least one in the oldest schema. -/
  magnitude : Float32 := 0
  /-- Greatest strength, in the oldest schema. -/
  magnitudeMax : Option Float32 := none
  area : UInt32 := 0
  /-- Seconds. -/
  duration : UInt32 := 0
  /-- On self, touch or target. -/
  range : Option UInt32 := none
  /-- Skill or attribute that is affected. -/
  actorValue : Option Int32 := none

namespace Effect

/-- Sets the figures of the latest effect, which is a new one with the given id if there is none. -/
def setLatest (id : EffectId) (f : Effect → Effect) (effects : Array Effect) : Array Effect :=
  if effects.isEmpty then #[f { id }] else modifyLast effects f

/-- The figures that the middle schemas store as whole numbers. -/
def wholeFigures : Field.Reader (Effect → Effect) := do
  let magnitude ← word32
  let area ← word32
  let duration ← word32
  let range ← word32
  let actorValue ← int32
  return fun effect =>
    { effect with
      magnitude := Single.ofUInt32 magnitude
      area
      duration
      range := some range
      actorValue := some actorValue }

/-- Fields of a list of effects. -/
def rules : List (Rule (Array Effect)) :=
  [ .onTes3 .ENAM (.exactly 24) fun effects => do
      let index ← word16
      let skill ← int8
      let governing ← int8
      let range ← int32
      let area ← int32
      let duration ← int32
      let low ← int32
      let high ← int32
      return effects.push {
        id := .index index
        magnitude := Single.ofInt32 low
        magnitudeMax := some (Single.ofInt32 high)
        area := clampWord area
        duration := clampWord duration
        range := some (clampWord range)
        actorValue := some (if 0 ≤ skill then skill else governing).toInt32 },
    .onSchema .tes4 .EFID (.exactly 4) fun effects =>
      return effects.push { id := .code (← tag) },
    .onSchema .tes5 .EFID (.exactly 4) fun effects =>
      return effects.push { id := .form (← formId) },
    .onSchema .tes4 .EFIT (.exactly 24) fun effects => do
      let code ← tag
      return setLatest (.code code) (← wholeFigures) effects,
    .onSchema .tes5 .EFIT (.exactly 20) fun effects =>
      return setLatest (.form .none) (← wholeFigures) effects,
    .onSchema .tes5 .EFIT (.exactly 12) fun effects => do
      let magnitude ← single
      let area ← word32
      let duration ← word32
      return setLatest (.form .none) ({ · with magnitude, area, duration }) effects ]

/-- Fields of a list of effects, as rules of a body that has one. -/
def rulesWithin {β : Type} (get : β → Array Effect) (set : β → Array Effect → β) :
    List (Rule β) :=
  rules.map (Rule.within get set)

end Effect

end GamePlugin
