/-!
# Editions and header schemas

Nine games share three layouts of chunk and field headers. The schema says how to cut a file into
chunks and fields; the edition says which records it may hold. Editions are ordered by their tier.

A file says its schema by the shape of its first record, but its edition only by a version number
that games reused, so `Edition.infer` is a table of ranges.
-/

namespace GamePlugin

/-- A layout of chunk and field headers. -/
inductive Schema where
  | tes3
  | tes4
  | tes5
deriving DecidableEq

namespace Schema

/-- Bytes in a record header. -/
def recordHeaderSize : Schema → Nat
  | tes3 => 16
  | tes4 => 20
  | tes5 => 24

/-- Bytes in a group header. -/
def groupHeaderSize : Schema → Nat
  | tes3 => 20
  | tes4 => 20
  | tes5 => 24

/-- Bytes in a field header. -/
def fieldHeaderSize : Schema → Nat
  | tes3 => 8
  | tes4 => 6
  | tes5 => 6

/-- Whether records are kept in groups. -/
def hasGroups : Schema → Bool
  | tes3 => false
  | tes4 => true
  | tes5 => true

/-- The schema as messages name it. -/
def text : Schema → String
  | tes3 => "TES3"
  | tes4 => "TES4"
  | tes5 => "TES5"

/-- The schema's name in one word. -/
def name : Schema → String
  | tes3 => "Tes3"
  | tes4 => "Tes4"
  | tes5 => "Tes5"

end Schema

/-- A game whose files can be read. -/
inductive Edition where
  | morrowind
  | oblivion
  | fallout3
  | falloutNV
  | skyrim
  | skyrimSE
  | fallout4
  | fallout76
  | starfield
deriving DecidableEq

namespace Edition

/-- Every edition, by tier. -/
def all : List Edition :=
  [morrowind, oblivion, fallout3, falloutNV, skyrim, skyrimSE, fallout4, fallout76, starfield]

/-- The edition's place in the order of games. -/
def tier : Edition → Nat
  | morrowind => 3
  | oblivion => 4
  | fallout3 => 5
  | falloutNV => 6
  | skyrim => 7
  | skyrimSE => 8
  | fallout4 => 9
  | fallout76 => 10
  | starfield => 11

/-- The schema the edition's files use. -/
def schema : Edition → Schema
  | morrowind => .tes3
  | oblivion => .tes4
  | _ => .tes5

/-- The game's title. -/
def title : Edition → String
  | morrowind => "Morrowind"
  | oblivion => "Oblivion"
  | fallout3 => "Fallout 3"
  | falloutNV => "Fallout: New Vegas"
  | skyrim => "Skyrim"
  | skyrimSE => "Skyrim Special Edition"
  | fallout4 => "Fallout 4"
  | fallout76 => "Fallout 76"
  | starfield => "Starfield"

/-- The edition's name in one word. -/
def name : Edition → String
  | morrowind => "Morrowind"
  | oblivion => "Oblivion"
  | fallout3 => "Fallout3"
  | falloutNV => "FalloutNV"
  | skyrim => "Skyrim"
  | skyrimSE => "SkyrimSE"
  | fallout4 => "Fallout4"
  | fallout76 => "Fallout76"
  | starfield => "Starfield"

/-- The version number that the edition's files carry. -/
def fileVersion : Edition → Float32
  | morrowind => 1.3
  | oblivion => 1.0
  | fallout3 => 0.94
  | falloutNV => 1.34
  | skyrim => 0.94
  | skyrimSE => 1.71
  | fallout4 => 1.0
  | fallout76 => 68.0
  | starfield => 0.96

/-- The edition meant by a schema and a file's version number. A version that no edition uses is
taken for Skyrim's. -/
def infer (schema : Schema) (version : Float32) : Edition :=
  let near (v : Float32) : Bool := (version - v).abs < 0.005
  match schema with
  | .tes3 => morrowind
  | .tes4 => oblivion
  | .tes5 =>
    if near 0.94 then skyrim
    else if 1.3 ≤ version ∧ version < 1.35 then falloutNV
    else if 1.69 ≤ version ∧ version < 1.75 then skyrimSE
    else if near 0.95 ∨ near 1.0 then fallout4
    else if near 0.96 then starfield
    else if 60.0 ≤ version then fallout76
    else skyrim

end Edition

/-- What a payload is read under: how headers are laid out, which game wrote it, and whether display
texts are numbers of entries in string tables. The three may disagree. -/
structure Context where
  schema : Schema
  edition : Edition
  localized : Bool
deriving DecidableEq

/-- The usual context of an edition. -/
def Context.ofEdition (edition : Edition) : Context := ⟨edition.schema, edition, false⟩

end GamePlugin
