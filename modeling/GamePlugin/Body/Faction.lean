import GamePlugin.Body.Identity

/-!
# Factions

A relation to another faction is one field in the newer schemas; the oldest one stores the other
faction's name and, in a field after it, the reaction.
-/

namespace GamePlugin

open Field.Reader

/-- How a faction stands to another. -/
structure FactionRelation where
  faction : FormRef
  /-- Change of disposition. -/
  modifier : Int32 := 0
  /-- Reaction in combat. -/
  reaction : Option UInt32 := none
deriving DecidableEq

/-- A rank within a faction. -/
structure FactionRank where
  number : Int32
  maleTitle : Option String := none
  femaleTitle : Option String := none
deriving DecidableEq

/-- A faction. -/
structure Faction where
  identity : Identity := {}
  flags : UInt32 := 0
  relations : Array FactionRelation := #[]
  ranks : Array FactionRank := #[]

namespace Faction

/-- Reads a title into the latest rank; declined before the first rank. -/
def readTitle (set : FactionRank → String → FactionRank) (f : Faction) :
    Field.Reader (Option Faction) := do
  if f.ranks.isEmpty then return none
  else
    let title ← text
    return some { f with ranks := modifyLast f.ranks (set · title) }

/-- Fields of a faction. -/
def rules : List (Rule Faction) :=
  [ .onTes3 .RNAM (.exactly 32) fun f => do
      let title ← fixedText 32
      return { f with ranks := f.ranks.push ⟨Int32.ofNat f.ranks.size, some title, none⟩ },
    .onTes3 .ANAM .any fun f =>
      return { f with relations := f.relations.push { faction := ← ref } },
    ⟨.INTV, .exactly 4, [.tes3], fun f => do
      let modifier ← int32
      if f.relations.isEmpty then return none
      else return some { f with relations := modifyLast f.relations ({ · with modifier }) }⟩,
    .onTes3 .FADT (.exactly 240) fun f => do skip 236; return { f with flags := ← word32 },
    .onGrouped .XNAM (.oneOf [8, 12]) fun f => do
      let faction ← idRef
      let modifier ← int32
      let reaction ← if (← remaining) = 4 then some <$> word32 else pure none
      return { f with relations := f.relations.push ⟨faction, modifier, reaction⟩ },
    .onGrouped .DATA (.exactly 1) fun f => return { f with flags := (← byte).toUInt32 },
    .onGrouped .DATA (.exactly 2) fun f => return { f with flags := (← word16).toUInt32 },
    .onGrouped .DATA (.exactly 4) fun f => return { f with flags := ← word32 },
    .onGrouped .RNAM (.exactly 4) fun f =>
      return { f with ranks := f.ranks.push { number := ← int32 } },
    ⟨.MNAM, .any, [.tes4, .tes5],
      readTitle fun rank title => { rank with maleTitle := some title }⟩,
    ⟨.FNAM, .any, [.tes4, .tes5],
      readTitle fun rank title => { rank with femaleTitle := some title }⟩ ] ++
    Identity.rulesWithin (·.identity) fun f i => { f with identity := i }

end Faction

end GamePlugin
