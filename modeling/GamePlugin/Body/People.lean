import GamePlugin.Body.Identity

/-!
# Classes, races, birthsigns and skills

What a character is made of.
-/

namespace GamePlugin

open Field.Reader

/-! ## Classes -/

/-- A class's figures in the oldest schema. -/
structure ClassData where
  attributes : List Int32
  specialization : Int32
  /-- Pairs of a minor and a major skill. -/
  skills : List (List Int32)
  flags : UInt32
  services : UInt32
deriving DecidableEq

/-- Sixty bytes of class figures. -/
def Layout.classData : Layout ClassData :=
  let skills := times 5 (times 2 int32)
  (((times 2 int32).append (int32.append (skills.append (word32.append word32)))).map
    fun (attributes, specialization, skills, flags, services) =>
      ⟨attributes, specialization, skills, flags, services⟩).named

/-- A class. -/
structure Class where
  identity : Identity := {}
  data : Option ClassData := none

/-- Fields of a class. -/
def Class.rules : List (Rule Class) :=
  [ .on .CLDT (.exactly 60) fun c => return { c with data := some (← item Layout.classData) } ] ++
    Identity.rulesWithin (·.identity) fun c i => { c with identity := i }

/-! ## Races -/

/-- Points that a race adds to a skill. -/
structure SkillBonus where
  skill : Int32
  bonus : Int32
deriving DecidableEq

/-- Skill, then points. -/
def Layout.skillBonus : Layout SkillBonus :=
  ((int32.append int32).map fun (skill, bonus) => ⟨skill, bonus⟩).named

/-- A race's figures in the oldest schema; pairs are male and female. -/
structure RaceData where
  skillBonuses : List SkillBonus
  attributes : List (List Int32)
  height : List Float32
  weight : List Float32
  flags : UInt32

/-- A hundred and forty bytes of race figures. -/
def Layout.raceData : Layout RaceData :=
  (((times 7 skillBonus).append ((times 8 (times 2 int32)).append
    ((times 2 single).append ((times 2 single).append word32)))).map
    fun (skillBonuses, attributes, height, weight, flags) =>
      ⟨skillBonuses, attributes, height, weight, flags⟩).named

/-- A race. -/
structure Race where
  identity : Identity := {}
  data : Option RaceData := none
  /-- Spells and powers of the race. -/
  spells : Array FormRef := #[]

/-- Fields of a race. -/
def Race.rules : List (Rule Race) :=
  [ .on .RADT (.exactly 140) fun r => return { r with data := some (← item Layout.raceData) },
    .on .NPCS (.exactly 32) fun r => return { r with spells := r.spells.push (← nameRef) },
    .on .SPLO (.exactly 4) fun r => return { r with spells := r.spells.push (← idRef) } ] ++
    Identity.rulesWithin (·.identity) fun r i => { r with identity := i }

/-! ## Birthsigns -/

/-- A birthsign. -/
structure Birthsign where
  identity : Identity := {}
  /-- Picture of the constellation. -/
  texture : Option String := none
  spells : Array FormRef := #[]

/-- Fields of a birthsign. -/
def Birthsign.rules : List (Rule Birthsign) :=
  [ .on .TNAM .any fun b => return { b with texture := some (← text) },
    .on .NPCS (.exactly 32) fun b => return { b with spells := b.spells.push (← nameRef) },
    .on .SPLO (.exactly 4) fun b => return { b with spells := b.spells.push (← idRef) } ] ++
    Identity.rulesWithin (·.identity) fun b i => { b with identity := i }

/-! ## Skills -/

/-- How a skill is trained. -/
structure SkillData where
  /-- The attribute that governs the skill. -/
  governing : Int32
  specialization : UInt32
  /-- Experience for each use. -/
  useValues : List Float32

/-- A skill. -/
structure Skill where
  identity : Identity := {}
  index : Option Int32 := none
  data : Option SkillData := none

/-- Fields of a skill. -/
def Skill.rules : List (Rule Skill) :=
  [ .on .INDX (.exactly 4) fun s => return { s with index := some (← int32) },
    .on .SKDT (.exactly 24) fun s => do
      let governing ← int32
      let specialization ← int32
      let useValues ← items Layout.single
      return { s with data := some ⟨governing, clampWord specialization, useValues⟩ },
    .on .DATA (.exactly 20) fun s => do
      let _action ← int32
      let governing ← int32
      let specialization ← word32
      let useValues ← items Layout.single
      return { s with data := some ⟨governing, specialization, useValues⟩ } ] ++
    Identity.rulesWithin (·.identity) fun s i => { s with identity := i }

end GamePlugin
