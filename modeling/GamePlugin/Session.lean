import GamePlugin.Grid
import GamePlugin.Options
import Std.Data.TreeMap

/-!
# Sessions

A session reads a file piece by piece and remembers what it has read. Groups are nodes of an arena,
known by their index. A node may have several headers, since a file may cut one group into pieces;
it counts how many of them it has processed.

Reading is described by steps, which may fail. A failed step still leaves a session, so a step that
fails in the middle keeps what was finished before.

## Main definitions

* `GroupNode` — a group with what was loaded from it.
* `Session` — the arena, the index of loaded records and the count of resolved sub-blocks.
* `Session.Step` — a computation on a session.
-/

namespace GamePlugin

/-! ## Groups -/

/-- What is known of the cells in a block. -/
structure CellCache where
  /-- Cells by the key of their position. -/
  cells : Std.TreeMap Nat Record := ∅
  /-- Lands by the key of their cell's position. -/
  lands : Std.TreeMap Nat Record := ∅
  /-- Labels of the sub-blocks that have been resolved. -/
  resolved : List UInt32 := []
  /-- How many sub-blocks have been loaded for it. -/
  loads : Nat := 0

/-- A group and what was loaded from it. -/
structure GroupNode where
  /-- Index of the group itself; what is found in it names it by that. -/
  id : Nat
  /-- Index of the group that holds this one. -/
  parent : Option Nat
  label : UInt32
  kind : GroupKind
  headers : Array GroupHeader := #[]
  /-- How many of the headers have been processed. -/
  processed : Nat := 0
  records : Array Record := #[]
  /-- Indices of the groups in this one. -/
  children : Array Nat := #[]
  /-- The same by label, as of the latest pass. -/
  byLabel : Std.TreeMap UInt32 (List Nat) := ∅
  cache : CellCache := {}
  /-- How many times something was read for this group. -/
  passes : Nat := 0

namespace GroupNode

/-- Whether all headers have been processed. -/
def isLoaded (g : GroupNode) : Bool := g.processed = g.headers.size

/-- The label as a tag. -/
def labelTag (g : GroupNode) : Tag := ⟨g.label⟩

/-- Bytes in the payloads of all headers. -/
def dataSize (g : GroupNode) : Nat := g.headers.foldl (fun n h => n + h.dataSize.toNat) 0

end GroupNode

/-! ## Loaded records -/

/-- Loaded records by form id and by editor id; the latest wins. -/
structure LoadedIndex where
  byForm : Std.TreeMap UInt32 Record := ∅
  byEditorId : Std.TreeMap String Record := ∅

namespace LoadedIndex

/-- Editor ids are the same if they differ only in the case of ASCII letters. -/
def foldName (name : String) : String := name.map Char.toLower

/-- Enters a record by its form id, unless that is zero, and by its editor id, if it has one. -/
def insert (x : LoadedIndex) (r : Record) : LoadedIndex :=
  { byForm := if r.form.isNone then x.byForm else x.byForm.insert r.form.value r
    byEditorId :=
      match r.editorId with
      | none => x.byEditorId
      | some name => x.byEditorId.insert (foldName name) r }

/-- The record with a form id. -/
def form? (x : LoadedIndex) (id : FormId) : Option Record := x.byForm[id.value]?

/-- The record with an editor id. -/
def editorId? (x : LoadedIndex) (name : String) : Option Record := x.byEditorId[foldName name]?

end LoadedIndex

/-! ## Sessions -/

/-- The state of reading a file. -/
structure Session where
  image : Image
  /-- Length of the file, where it is known. -/
  length : Option Nat := none
  context : Context
  options : Options := {}
  groups : Array GroupNode := #[]
  index : LoadedIndex := {}
  /-- How many sub-blocks have been resolved. -/
  subBlocksLoaded : Nat := 0

namespace Session

/-- A computation on a session. -/
abbrev Step (α : Type) := EStateM Error Session α

/-- The group at an index. -/
def group? (s : Session) (id : Nat) : Option GroupNode := s.groups[id]?

/-- Changes the group at an index. -/
def modifyGroup (s : Session) (id : Nat) (f : GroupNode → GroupNode) : Session :=
  { s with groups := s.groups.modify id f }

/-- Adds a group, whose index is the number of groups before. -/
def addGroup (s : Session) (g : GroupNode) : Session := { s with groups := s.groups.push g }

/-- Gives a group one more header. -/
def pushHeader (s : Session) (id : Nat) (h : GroupHeader) : Session :=
  s.modifyGroup id fun g => { g with headers := g.headers.push h }

/-- Indices of the groups in a group. -/
def children (s : Session) (id : Nat) : List Nat :=
  ((s.group? id).map (·.children.toList)).getD []

/-- Indices of the groups in a group that have a label. -/
def childrenWithLabel (s : Session) (id : Nat) (label : UInt32) : List Nat :=
  ((s.group? id).map (·.byLabel.getD label [])).getD []

/-- Indices of the groups in a group that have a label and a kind. -/
def childrenOfKind (s : Session) (id : Nat) (label : UInt32) (kind : GroupKind) : List Nat :=
  (s.childrenWithLabel id label).filter fun child => (s.group? child).any (·.kind = kind)

/-- Records loaded from a group. -/
def records (s : Session) (id : Nat) : List Record :=
  ((s.group? id).map (·.records.toList)).getD []

/-- Adds a group with the given header, or without any. -/
def createGroup (parent : Option Nat) (label : UInt32) (kind : GroupKind)
    (headers : Array GroupHeader) : Step Nat := do
  let id := (← get).groups.size
  modify (·.addGroup { id, parent, label, kind, headers })
  return id

/-- A session as text. -/
def text (s : Session) : String :=
  let length :=
    match s.length with
    | none => "None"
    | some n => s!"Some({n})"
  let context := s!"format: {s.context.schema.name}, edition: {s.context.edition.name}, " ++
    s!"localized: {s.context.localized}"
  s!"ParseSession \x7b length: {length}, ctx: ReadContext \x7b {context} \x7d, " ++
    s!"groups: {s.groups.size}, .. \x7d"

end Session

end GamePlugin
