import GamePlugin.Body.Identity

/-!
# Books
-/

namespace GamePlugin

open Field.Reader

/-- A book or scroll. -/
structure Book where
  identity : Identity := {}
  /-- Price in gold. -/
  value : Int32 := 0
  weight : Float32 := 0
  flags : UInt32 := 0
  /-- Skill or spell that reading it teaches. -/
  teaches : Int32 := 0
  /-- Text, where it has a field of its own. -/
  text : Option String := none
  enchantment : Option FormRef := none

namespace Book

/-- What is written in the book: its own text, else its description. -/
def contents (b : Book) : Option DisplayText :=
  match b.text with
  | some s => some (.text s)
  | none => b.identity.description

/-- Fields of a book. -/
def rules : List (Rule Book) :=
  [ .on .BKDT (.exactly 20) fun b => do
      let weight ← single
      let value ← int32
      let flags ← word32
      let teaches ← int32
      let _enchantPoints ← int32
      return { b with weight, value, flags, teaches },
    .onTes3 .TEXT .any fun b => return { b with text := some (← Field.Reader.text) },
    .on .DATA (.exactly 10) fun b => do
      let flags ← byte
      let teaches ← int8
      let value ← int32
      let weight ← single
      return { b with flags := flags.toUInt32, teaches := teaches.toInt32, value, weight },
    .on .DATA (.exactly 16) fun b => do
      let flags ← byte
      let _kind ← byte
      skip 2
      let teaches ← int32
      let value ← int32
      let weight ← single
      return { b with flags := flags.toUInt32, teaches, value, weight },
    .on .ENAM .any fun b => return { b with enchantment := some (← ref) } ] ++
    Identity.rulesWithin (·.identity) fun b i => { b with identity := i }

end Book

end GamePlugin
