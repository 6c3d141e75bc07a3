import GamePlugin.Body.Rule

/-!
# Game settings and global variables

From the second schema on, the first letter of a setting's editor id says what its value is, so the
value can only be read once the editor id is known.
-/

namespace GamePlugin

open Field.Reader

/-- The value of a game setting. -/
inductive SettingValue where
  | none
  | int (n : Int32)
  | float (x : Float32)
  | bool (b : Bool)
  | string (s : DisplayText)

/-- A game setting. -/
structure GameSetting where
  editorId : Option String := Option.none
  value : SettingValue := .none

namespace GameSetting

/-- The letter that says what the value is. -/
def letter (s : GameSetting) : Option Char := do
  let name ← s.editorId
  let first ← name.toList.head?
  return first.toLower

/-- The value in a field, going by the setting's letter and the field's size. -/
def readValue (s : GameSetting) : Field.Reader (Option SettingValue) := do
  let size := (← read).size
  match s.letter with
  | some 's' => return some (.string (← displayText))
  | some 'f' => if size = 4 then return some (.float (← single)) else return Option.none
  | some 'i' => if size = 4 then return some (.int (← int32)) else return Option.none
  | some 'u' => if size = 4 then return some (.int (← int32)) else return Option.none
  | some 'b' => if size = 4 then return some (.bool ((← word32) != 0)) else return Option.none
  | _ => return Option.none

/-- Fields of a game setting. -/
def rules : List (Rule GameSetting) :=
  [ .onTes3 .NAME .any fun s => return { s with editorId := some (← text) },
    .onGrouped .EDID .any fun s => return { s with editorId := some (← text) },
    .onTes3 .STRV .any fun s => return { s with value := .string (.text (← text)) },
    .onTes3 .INTV (.exactly 4) fun s => return { s with value := .int (← int32) },
    .onTes3 .FLTV (.exactly 4) fun s => return { s with value := .float (← single) },
    ⟨.DATA, .any, [.tes4, .tes5], fun s => do
      return (← s.readValue).map fun value => { s with value }⟩ ]

end GameSetting

/-- A global variable. -/
structure Global where
  editorId : Option String := none
  /-- Declared type: short, long or float. -/
  kind : Option Char := none
  /-- Value, always kept as a fraction. -/
  value : Float32 := 0

/-- Fields of a global variable. -/
def Global.rules : List (Rule Global) :=
  [ .onTes3 .NAME .any fun g => return { g with editorId := some (← text) },
    .onGrouped .EDID .any fun g => return { g with editorId := some (← text) },
    .on .FNAM (.exactly 1) fun g => return { g with kind := some (Char.ofNat (← byte).toNat) },
    .on .FLTV (.exactly 4) fun g => return { g with value := ← single } ]

end GamePlugin
