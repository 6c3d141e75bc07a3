import GamePlugin.Body.Identity

/-!
# Path grids

Points that actors walk along, and which of them are connected. The oldest schema stores whole
coordinates.
-/

namespace GamePlugin

open Field.Reader

/-- A point of a path grid. -/
structure PathPoint where
  position : Point
  /-- How many points it is connected with. -/
  connections : UInt8

/-- Whole coordinates, a mark, the number of connections and two unused bytes. -/
def Layout.wholePathPoint : Layout PathPoint :=
  (int32.append (int32.append (int32.append (byte.append (byte.append word16))))).map
    fun (x, y, z, _, connections, _) =>
      ⟨⟨Single.ofInt32 x, Single.ofInt32 y, Single.ofInt32 z⟩, connections⟩

/-- Coordinates, the number of connections and three unused bytes. -/
def Layout.pathPoint : Layout PathPoint :=
  (point.append (byte.append (byte.append word16))).map fun (position, connections, _, _) =>
    ⟨position, connections⟩

/-- A path grid. -/
structure PathGrid where
  identity : Identity := {}
  /-- Coordinates of its cell, in the oldest schema. -/
  grid : Option (Int32 × Int32) := none
  granularity : Option UInt16 := none
  /-- Number of points as stored. -/
  pointCount : UInt16 := 0
  points : Array PathPoint := #[]
  /-- The points that each point in turn is connected with. -/
  edges : List UInt32 := []

/-- Fields of a path grid. -/
def PathGrid.rules : List (Rule PathGrid) :=
  [ .onTes3 .DATA (.exactly 12) fun g => do
      let x ← int32
      let y ← int32
      let granularity ← word16
      let pointCount ← word16
      return { g with grid := some (x, y), granularity := some granularity, pointCount },
    .on .DATA (.exactly 2) fun g => return { g with pointCount := ← word16 },
    .onTes3 .PGRP (.multipleOf 16) fun g =>
      return { g with points := g.points ++ (← items Layout.wholePathPoint) },
    .onGrouped .PGRP (.multipleOf 16) fun g =>
      return { g with points := g.points ++ (← items Layout.pathPoint) },
    .onTes3 .PGRC (.multipleOf 4) fun g => return { g with edges := ← items Layout.word32 },
    .onGrouped .PGRR (.multipleOf 2) fun g =>
      return { g with edges := (← items Layout.word16).map (·.toUInt32) } ] ++
    Identity.rulesWithin (·.identity) fun g i => { g with identity := i }

end GamePlugin
