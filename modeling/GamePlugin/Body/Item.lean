import GamePlugin.Body.Identity

/-!
# Small items and lights

Keys, soul gems, apparatus, lock picks, probes, repair tools and everything else that lies about
have the same few figures, in a different order in each kind of field.
-/

namespace GamePlugin

open Field.Reader

/-- A small item. -/
structure Item where
  identity : Identity := {}
  /-- Price in gold. -/
  value : Int32 := 0
  weight : Float32 := 0
  /-- Quality of a tool. -/
  quality : Option Float32 := none
  uses : Option UInt32 := none
  /-- Kind of apparatus. -/
  kind : Option UInt32 := none
  /-- Soul in a gem. -/
  soul : Option UInt8 := none
  soulCapacity : Option UInt8 := none

namespace Item

/-- Weight, price, quality and uses. -/
def readPick (n : Item) : Field.Reader Item := do
  let weight ← single
  let value ← int32
  let quality ← single
  let uses ← word32
  return { n with weight, value, quality := some quality, uses := some uses }

/-- Fields of a small item. -/
def rules : List (Rule Item) :=
  [ .on .MCDT (.exactly 12) fun n => do
      let weight ← single
      let value ← int32
      let _flags ← word32
      return { n with weight, value },
    .on .LKDT (.exactly 16) readPick,
    .on .PBDT (.exactly 16) readPick,
    .on .RIDT (.exactly 16) fun n => do
      let weight ← single
      let value ← int32
      let uses ← word32
      let quality ← single
      return { n with weight, value, uses := some uses, quality := some quality },
    .on .AADT (.exactly 16) fun n => do
      let kind ← word32
      let quality ← single
      let weight ← single
      let value ← int32
      return { n with kind := some kind, quality := some quality, weight, value },
    .on .DATA (.exactly 8) fun n => do
      let value ← int32
      let weight ← single
      return { n with value, weight },
    .on .DATA (.exactly 13) fun n => do
      let kind ← byte
      let value ← int32
      let weight ← single
      let quality ← single
      return { n with kind := some kind.toUInt32, value, weight, quality := some quality },
    .on .DATA (.exactly 16) fun n => do
      let uses ← word32
      let value ← int32
      let weight ← single
      let quality ← single
      return { n with uses := some uses, value, weight, quality := some quality },
    .on .SOUL (.exactly 1) fun n => return { n with soul := some (← byte) },
    .on .SLCP (.exactly 1) fun n => return { n with soulCapacity := some (← byte) } ] ++
    Identity.rulesWithin (·.identity) fun n i => { n with identity := i }

end Item

/-- A light that can be placed or carried. -/
structure Light where
  identity : Identity := {}
  /-- Seconds that it burns; `-1` if it never goes out. -/
  time : Int32 := 0
  radius : UInt32 := 0
  color : Color := {}
  flags : UInt32 := 0
  falloff : Option Float32 := none
  /-- Field of view. -/
  fov : Option Float32 := none
  /-- Price in gold. -/
  value : Int32 := 0
  weight : Float32 := 0
  sound : Option FormRef := none

namespace Light

/-- Burning time, radius, color and flags, with which the figures of the newer schemas start. -/
def readShine (l : Light) : Field.Reader Light := do
  let time ← int32
  let radius ← word32
  let color ← item Layout.color
  let flags ← word32
  return { l with time, radius, color, flags }

/-- Falloff and field of view, which follow in the longer forms. -/
def readCone (l : Light) : Field.Reader Light := do
  let falloff ← single
  let fov ← single
  return { l with falloff := some falloff, fov := some fov }

/-- Price and weight, which come last. -/
def readWorth (l : Light) : Field.Reader Light := do
  let value ← int32
  let weight ← single
  return { l with value, weight }

/-- Fields of a light. -/
def rules : List (Rule Light) :=
  [ .on .LHDT (.exactly 24) fun l => do
      let weight ← single
      let value ← int32
      let l ← readShine l
      return { l with weight, value },
    .on .DATA (.exactly 24) fun l => do readWorth (← readShine l),
    .on .DATA (.exactly 32) fun l => do readWorth (← readCone (← readShine l)),
    .on .DATA (.exactly 48) fun l => do
      let l ← readCone (← readShine l)
      skip 16
      readWorth l,
    .on .SNAM .any fun l => return { l with sound := some (← ref) } ] ++
    Identity.rulesWithin (·.identity) fun l i => { l with identity := i }

end Light

end GamePlugin
