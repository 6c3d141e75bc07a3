/-!
# Commands and their help

Every command can be asked what it is for. The help gives a sentence about it, how to write a call,
and then the values and the options it takes, each with its meaning in a column of its own.
-/

namespace GamePlugin.Tool

/-- What the program is called in its help. -/
def programName : String := "esm_tool"

/-- The name of a command. -/
inductive Verb where
  | info
  | stats
  | find
  | cell
deriving DecidableEq

/-- Something that may be written in a call, and its meaning. -/
structure Entry where
  form : String
  meaning : String

/-- The help of a command. -/
structure Help where
  about : String
  values : List Entry
  options : List Entry

namespace Help

/-- Entries below each other, with their meanings aligned. -/
def columns (entries : List Entry) : List String :=
  let width := (entries.map (·.form.length)).foldl max 0
  entries.map fun e =>
    "  " ++ e.form ++ String.ofList (List.replicate (width - e.form.length) ' ') ++ "  " ++
      e.meaning

/-- The lines of the help of a command with the given name. -/
def lines (h : Help) (name : String) : List String :=
  let values := " ".intercalate (h.values.map (·.form))
  [h.about, "", s!"Usage: {programName} {name} [OPTIONS] {values}", "", "Arguments:"] ++
    columns h.values ++ ["", "Options:"] ++ columns h.options

end Help

namespace Verb

/-- All commands. -/
def all : List Verb := [info, stats, find, cell]

/-- The word that names a command. -/
def name : Verb → String
  | info => "info"
  | stats => "stats"
  | find => "find"
  | cell => "cell"

/-- The command that a word names. -/
def ofName? (word : String) : Option Verb := all.find? (·.name = word)

/-- What a command is for. -/
def about : Verb → String
  | info => "Display the root record and top-level groups"
  | stats => "Count records by type without decoding them"
  | find => "Look up a record by editor id"
  | cell => "Look up an exterior cell by grid coordinate"

/-- The file that every command works on. -/
def file : Entry := ⟨"<FILE>", "The master or plugin file"⟩

/-- The values of a command, in order. -/
def values : Verb → List Entry
  | info => [file]
  | stats => [file]
  | find => [file, ⟨"<EDITOR_ID>", "Editor id (case-insensitive)"⟩]
  | cell => [file, ⟨"<X>", "Grid x"⟩, ⟨"<Y>", "Grid y"⟩]

/-- Whether a command takes a world. -/
def takesWorld : Verb → Bool
  | cell => true
  | _ => false

/-- The options of a command. -/
def options (v : Verb) : List Entry :=
  let edition : Entry :=
    ⟨"-e, --edition <EDITION>", "Force the game edition instead of inferring it"⟩
  let world : Entry :=
    ⟨"-w, --world <WORLD>", "Worldspace form id in hex (0 for Morrowind) [default: 3C]"⟩
  let help : Entry := ⟨"-h, --help", "Print help"⟩
  if v.takesWorld then [edition, world, help] else [edition, help]

/-- The lines of a command's help. -/
def help (v : Verb) : List String := Help.lines ⟨v.about, v.values, v.options⟩ v.name

end Verb

end GamePlugin.Tool
