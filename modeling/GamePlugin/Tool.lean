import GamePlugin.Number.Places
import GamePlugin.Outline
import GamePlugin.Plugin.Open
import GamePlugin.Plugin.Query
import GamePlugin.Text.Quoted
import GamePlugin.Tool.Arguments

/-!
# The command line tool

What each command prints for a file. A failure says what was being done and, below it, what went
wrong.
-/

namespace GamePlugin.Tool

/-- What a call prints. -/
structure Report where
  output : List String := []
  /-- Lines about a failure, if there was one. -/
  failure : Option (List String) := none
deriving DecidableEq

/-- A failed call: what was being done, if that is said, and why it failed. -/
structure Failure where
  doing : Option String
  cause : Error

namespace Failure

/-- Why an error came about, from the outermost to the innermost reason. -/
def reasons : Error → List String
  | .shortRead => [Error.message .shortRead, Error.shortReadText]
  | e => [e.message]

/-- Reasons below a headline: a single one is indented, several are numbered. -/
def below : List String → List String
  | [] => []
  | [reason] => ["", "Caused by:", "    " ++ reason]
  | reasons => ["", "Caused by:"] ++ reasons.mapIdx fun i reason => s!"    {i}: {reason}"

/-- The lines about a failure. -/
def lines (f : Failure) : List String :=
  match f.doing, reasons f.cause with
  | some doing, reasons => ("Error: " ++ doing) :: below reasons
  | none, [] => []
  | none, reason :: reasons => ("Error: " ++ reason) :: below reasons

end Failure

/-- Lines to print, or a failure. -/
abbrev Result := Except Failure (List String)

/-- Says what was being done when something fails. -/
def during {α : Type} (doing : String) : Except Error α → Except Failure α
  | .ok a => .ok a
  | .error e => .error ⟨some doing, e⟩

/-- Runs a step without saying what was being done. -/
def runStep {α : Type} (s : Session) (step : Session.Step α) : Except Error (α × Session) :=
  match step.run s with
  | .ok a s => .ok (a, s)
  | .error e _ => .error e

/-- A failure that says only why. -/
def bare {α : Type} : Except Error α → Except Failure α
  | .ok a => .ok a
  | .error e => .error ⟨none, e⟩

/-- Opens the file of a call. -/
def openFile (file : String) (image : Image) (options : Options) :
    Except Failure (Plugin × Session) :=
  during ("Failed to open " ++ file) (Plugin.open? image options none)

/-- What the root record says, and the top groups. -/
def info (plugin : Plugin) (session : Session) : List String :=
  let header := plugin.header
  let groups := plugin.topGroups.filterMap session.group?
  [ "Plugin File Information:",
    "  Schema: " ++ session.context.schema.text,
    "  Edition: " ++ session.context.edition.title,
    "  Version: " ++ Number.twoPlaces header.version,
    s!"  Records: {header.recordCount}",
    "  Author: " ++ header.author,
    "  Description: " ++ header.description,
    s!"  Localized: {session.context.localized}" ] ++
  header.masterNames.map ("  Master: " ++ ·) ++
  (if groups.isEmpty then [] else ["Top-level groups:"]) ++
  groups.map fun g => s!"  {g.labelTag.text} ({g.dataSize} bytes)"

/-- Records counted by tag. -/
def stats (outline : Outline) : List String :=
  [ s!"{outline.records.size} records in {outline.groups.size} groups",
    s!"{outline.compressed} compressed" ] ++
  outline.histogram.map fun (tag, count) => s!"  {tag.text}: {count}"

/-- The record with an editor id: its tag, form id and shape. -/
def find (plugin : Plugin) (session : Session) (editorId : String) : Result := do
  let (_, session) ← during "Failed to load all groups" (runStep session plugin.loadAll)
  let (record?, _) ← bare (runStep session (plugin.query (.editorId editorId)))
  match record? with
  | some r => return [s!"{r.tag.text} {r.form.text} {r.body.shape.text}("]
  | none => return [s!"No record with editor id '{editorId}'"]

/-- An optional text as it is shown. -/
def shown : Option String → String
  | none => "None"
  | some s => "Some(" ++ Text.quoted s ++ ")"

/-- The exterior cell at a position, and its land. -/
def cell (plugin : Plugin) (session : Session) (p : GridPosition) : Report :=
  match runStep session (plugin.query (.cell p)) with
  | .error e => { failure := some (Failure.lines ⟨none, e⟩) }
  | .ok (none, _) => { output := ["No cell at " ++ p.text] }
  | .ok (some r, session) =>
    let found := s!"Cell {p.text}: {r.form.text} {shown r.editorId}"
    match runStep session (plugin.query (.land p)) with
    | .error e => { output := [found], failure := some (Failure.lines ⟨none, e⟩) }
    | .ok (none, _) => { output := [found] }
    | .ok (some land, _) => { output := [found, "  Land: " ++ land.form.text] }

/-- A report of lines or a failure. -/
def Report.ofResult : Result → Report
  | .ok output => { output }
  | .error f => { failure := some f.lines }

/-- Carries out a call on the contents of its file. -/
def run (call : Call) (image : Image) : Report :=
  let options : Options := { edition := call.edition }
  match call.command with
  | .info => .ofResult do
    let (plugin, session) ← openFile call.file image { options with eager := false }
    return info plugin session
  | .stats => .ofResult do
    return stats (← during "Failed to walk chunk headers" (Outline.ofImage image))
  | .find editorId => .ofResult do
    let (plugin, session) ← openFile call.file image options
    find plugin session editorId
  | .cell world x y =>
    match openFile call.file image options with
    | .error f => { failure := some f.lines }
    | .ok (plugin, session) => cell plugin session (.exterior world x y)

/-- Answers a request; `image` holds the contents of the file it names, if it names one. -/
def respond (request : Request) (image : Image) : Report :=
  match request with
  | .run call => run call image
  | .help verb => { output := verb.help }

end GamePlugin.Tool
