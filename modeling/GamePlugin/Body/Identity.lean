import GamePlugin.Body.Rule
import GamePlugin.Geometry

/-!
# Identity and presentation

Nearly every record has an editor id, a name, a model, icons, a description, a script and keywords,
stored in the same fields. A body offers a field to its own rules first and to these after.
-/

namespace GamePlugin

open Field.Reader

/-- A mesh and what belongs to it. -/
structure Model where
  /-- Path of the mesh. -/
  path : String := ""
  boundRadius : Option Float32 := none
  /-- Hashes of the mesh's textures, as stored. -/
  textureHashes : Option Bytes := none

/-- What nearly every record has. -/
structure Identity where
  editorId : Option String := none
  /-- Name for display. -/
  name : Option DisplayText := none
  model : Option Model := none
  /-- Icon in an inventory. -/
  icon : Option String := none
  smallIcon : Option String := none
  description : Option DisplayText := none
  script : Option FormRef := none
  bounds : Option Bounds := none
  keywords : Array FormId := #[]
  /-- Mark of a deleted record in the oldest schema. -/
  deleted : Bool := false

namespace Identity

/-- The model, or an empty one to start from. -/
def modelOrEmpty (i : Identity) : Model := i.model.getD {}

/-- Fields of the identity. -/
def rules : List (Rule Identity) :=
  [ .onGrouped .EDID .any fun i => return { i with editorId := some (← text) },
    .onTes3 .NAME .any fun i => return { i with editorId := some (← text) },
    .onGrouped .FULL .any fun i => return { i with name := some (← displayText) },
    .onTes3 .FNAM .any fun i => return { i with name := some (.text (← text)) },
    .on .MODL .any fun i => return { i with model := some { i.modelOrEmpty with path := ← text } },
    .on .MODB (.exactly 4) fun i =>
      return { i with model := some { i.modelOrEmpty with boundRadius := some (← single) } },
    .on .MODT .any fun i =>
      return { i with model := some { i.modelOrEmpty with textureHashes := some (← toEnd) } },
    .on .ICON .any fun i => return { i with icon := some (← text) },
    .on .ITEX .any fun i => return { i with icon := some (← text) },
    .on .MICO .any fun i => return { i with smallIcon := some (← text) },
    .on .DESC .any fun i => return { i with description := some (← displayText) },
    .on .SCRI .any fun i => return { i with script := some (← ref) },
    .on .OBND (.exactly 12) fun i => return { i with bounds := some (← item Layout.bounds) },
    -- The number of keywords that follow; the keywords themselves are what counts.
    .on .KSIZ (.exactly 4) fun i => do let _ ← word32; return i,
    .on .KWDA .any fun i => return { i with keywords := i.keywords ++ (← formIds) },
    .onTes3 .DELE .any fun i => do skipRest; return { i with deleted := true } ]

/-- Fields of the identity, as rules of a body that has one. -/
def rulesWithin {β : Type} (get : β → Identity) (set : β → Identity → β) : List (Rule β) :=
  rules.map (Rule.within get set)

end Identity

/-- The body of a record that has an identity and nothing else that is read. -/
structure Plain where
  identity : Identity := {}

/-- Fields of a plain record. -/
def Plain.rules : List (Rule Plain) :=
  Identity.rulesWithin (·.identity) fun b i => { b with identity := i }

end GamePlugin
