import GamePlugin.Body.Identity

/-!
# Worlds, regions and climates
-/

namespace GamePlugin

open Field.Reader

/-! ## Worlds -/

/-- A world of exterior cells. -/
structure Worldspace where
  identity : Identity := {}
  parent : Option FormRef := none
  climate : Option FormRef := none
  water : Option FormId := none
  flags : UInt8 := 0
  /-- South-west corner. -/
  min : Option Planar := none
  /-- North-east corner. -/
  max : Option Planar := none

/-- Fields of a world. -/
def Worldspace.rules : List (Rule Worldspace) :=
  [ .on .WNAM (.exactly 4) fun w => return { w with parent := some (← ref) },
    .on .CNAM (.exactly 4) fun w => return { w with climate := some (← ref) },
    .on .NAM2 (.exactly 4) fun w => return { w with water := some (← formId) },
    .on .DATA (.exactly 1) fun w => return { w with flags := ← byte },
    .on .NAM0 (.exactly 8) fun w => return { w with min := some (← item Layout.planar) },
    .on .NAM9 (.exactly 8) fun w => return { w with max := some (← item Layout.planar) } ] ++
    Identity.rulesWithin (·.identity) fun w i => { w with identity := i }

/-! ## Regions -/

/-- A sound that is heard in a region. -/
structure RegionSound where
  name : String
  chance : UInt8
deriving DecidableEq

/-- A region of a world. -/
structure Region where
  identity : Identity := {}
  /-- Color on the map. -/
  color : Option Color := none
  world : Option FormId := none
  /-- Chance of each kind of weather, as stored. -/
  weatherChances : Bytes := []
  /-- Creature that may disturb a sleeper. -/
  sleepCreature : Option String := none
  sounds : Array RegionSound := #[]
  /-- Outlines of its areas. -/
  areas : Array (List Planar) := #[]

/-- Fields of a region. -/
def Region.rules : List (Rule Region) :=
  [ .onTes3 .WEAT .any fun r => return { r with weatherChances := ← toEnd },
    .onTes3 .BNAM .any fun r => return { r with sleepCreature := some (← text) },
    .onTes3 .CNAM (.exactly 4) fun r => return { r with color := some (← item Layout.color) },
    .onTes3 .SNAM (.exactly 33) fun r => do
      let name ← fixedText 32
      let chance ← byte
      return { r with sounds := r.sounds.push ⟨name, chance⟩ },
    .on .RCLR (.exactly 4) fun r => return { r with color := some (← item Layout.color) },
    .onGrouped .WNAM (.exactly 4) fun r => return { r with world := some (← formId) },
    .on .RPLD (.multipleOf 8) fun r =>
      return { r with areas := r.areas.push (← items Layout.planar) } ] ++
    Identity.rulesWithin (·.identity) fun r i => { r with identity := i }

/-! ## Climates -/

/-- A weather that a climate may have. -/
structure ClimateWeather where
  weather : FormId
  chance : Int32
  /-- Global variable that controls the chance. -/
  control : Option FormId := none
deriving DecidableEq

/-- Weather and chance. -/
def Layout.plainWeather : Layout ClimateWeather :=
  (formId.append int32).map fun (weather, chance) => { weather, chance }

/-- Weather, chance and global variable. -/
def Layout.controlledWeather : Layout ClimateWeather :=
  (formId.append (int32.append formId)).map fun (weather, chance, control) =>
    ⟨weather, chance, some control⟩

/-- A climate. -/
structure Climate where
  identity : Identity := {}
  weathers : Array ClimateWeather := #[]
  sunTexture : Option String := none
  glareTexture : Option String := none
  /-- Sunrise, sunset, volatility and phases of the moon, six bytes. -/
  timing : Option Bytes := none

namespace Climate

/-- How a list of weathers of a size is stored. The middle schema has short entries only; elsewhere
the long ones are taken if they fill the field. -/
def weatherLayout (schema : Schema) (size : Nat) : Layout ClimateWeather :=
  if schema = .tes4 ∨ size % 12 ≠ 0 then Layout.plainWeather else Layout.controlledWeather

/-- Adds a list of weathers; declined if its entries do not fill the field. -/
def readWeathers : Offer Climate := fun c => do
  let field ← read
  let layout := weatherLayout field.context.schema field.size
  if field.size % layout.size ≠ 0 then return none
  else return some { c with weathers := c.weathers ++ (← items layout) }

/-- Fields of a climate. -/
def rules : List (Rule Climate) :=
  [ ⟨.WLST, .any, [.tes3, .tes4, .tes5], readWeathers⟩,
    .on .FNAM .any fun c => return { c with sunTexture := some (← text) },
    .on .GNAM .any fun c => return { c with glareTexture := some (← text) },
    .on .TNAM (.exactly 6) fun c => return { c with timing := some (← bytes 6) } ] ++
    Identity.rulesWithin (·.identity) fun c i => { c with identity := i }

end Climate

end GamePlugin
