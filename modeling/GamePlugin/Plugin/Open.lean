import GamePlugin.Plugin
import GamePlugin.Session.Load

/-!
# Opening plugins

Opening a file reads its root record, settles the edition, and finds the top groups. The contents of
groups are read later, except that cells and worlds may be prepared at once. A file without groups
is read whole.

## Main definitions

* `Plugin.open?` — opens a file.
-/

namespace GamePlugin.Plugin

/-- The edition that is assumed while the root record is read. -/
def provisionalEdition : Schema → Edition
  | .tes3 => .morrowind
  | .tes4 => .oblivion
  | .tes5 => .skyrim

/-- The root record, what it says, and the context that it gives. -/
def readRoot (image : Image) (options : Options) (schema : Schema) :
    Except Error (Record × Root × Context) := do
  match ← Chunk.read image schema 0 none with
  | .group _ => throw (.badMagic .GRUP 0)
  | .record header =>
    let context : Context :=
      { schema
        edition := options.edition.getD (provisionalEdition schema)
        localized := header.flags &&& RecordHeader.localizedFlag != 0 }
    match ← options.readRecord image context header with
    | none =>
      throw (.unsupportedVersion s!"no root record shape registered for {header.tag.text}")
    | some root =>
      match root.body with
      | .root content =>
        let edition := options.edition.getD (Edition.infer schema content.version)
        return (root, content, { context with edition })
      | _ => throw (.unsupportedVersion s!"{header.tag.text} is not a plugin header")

/-- Headers of the groups from `pos` up to `length`, in file order. Records between groups are
stepped over, even past the end. -/
def topHeaders (image : Image) (schema : Schema) (length pos : Nat) :
    Except Error (List GroupHeader) :=
  if pos < length then
    match _read : Chunk.read image schema pos none with
    | .error e => .error e
    | .ok (.record header) => topHeaders image schema length header.stop
    | .ok (.group header) =>
      if length < header.stop then
        .error (.groupSizeMismatch header.label header.position header.stop length)
      else
        match topHeaders image schema length header.stop with
        | .error e => .error e
        | .ok headers => .ok (header :: headers)
  else .ok []
termination_by length - pos
decreasing_by
  all_goals
    have := Chunk.lt_stop_of_read _read
    simp only [Chunk.stop] at this
    omega

/-- Records from `pos` up to `length` of a file without groups, in file order. -/
def flatRecords (s : Session) (length pos : Nat) : Except Error (List Record) :=
  if pos < length then
    match _read : Chunk.read s.image .tes3 pos none with
    | .error e => .error e
    | .ok (.group header) => flatRecords s length header.stop
    | .ok (.record header) =>
      match s.options.readRecord s.image s.context header with
      | .error e => .error e
      | .ok record =>
        match flatRecords s length header.stop with
        | .error e => .error e
        | .ok records => .ok (record.toList ++ records)
  else .ok []
termination_by length - pos
decreasing_by
  all_goals
    have := Chunk.lt_stop_of_read _read
    simp only [Chunk.stop] at this
    omega

/-- Adds the header of a top group to the group with its label, which is made if it is new. Gives
the indices of the top groups. -/
def registerTop (eager : Bool) (ids : List Nat) (header : GroupHeader) :
    Session.Step (List Nat) := do
  match (← get).labelled? ids header.label with
  | some id =>
    Session.addHeader id header eager
    return ids
  | none =>
    let id ← Session.createGroup none header.label header.kind #[]
    Session.addHeader id header eager
    return ids ++ [id]

/-- The error for a forced edition whose files have another schema. -/
def checkEdition (options : Options) (schema : Schema) : Except Error Unit :=
  match options.edition with
  | none => pure ()
  | some edition =>
    if edition.schema = schema then pure ()
    else throw (.editionMismatch edition edition.schema schema)

/-- Opens a file, whose length may be given instead of taken from the image. -/
def open? (image : Image) (options : Options) (length? : Option Nat) :
    Except Error (Plugin × Session) := do
  let schema ← Schema.detect image
  checkEdition options schema
  let length := length?.getD image.size
  let (root, header, context) ← readRoot image options schema
  let session : Session := { image, length := some length, context, options }
  if schema.hasGroups then
    let headers ← topHeaders image schema length root.header.stop
    match (headers.foldlM (registerTop options.eager) []).run session with
    | .error e _ => throw e
    | .ok topGroups session => return ({ root, header, topGroups }, session)
  else
    let records ← flatRecords session length root.header.stop
    let index := records.foldl LoadedIndex.insert session.index
    return ({ root, header, flat := some (.ofRecords records) }, { session with index })

end GamePlugin.Plugin
