import GamePlugin.Chunk.Read
import GamePlugin.Session

/-!
# Loading groups

Loading a group reads the headers that it has not processed yet: records directly in the group are
read, groups in it become its children and are not looked into. All headers are scanned before
anything is kept, so a failed load changes nothing. A group is never read twice.

## Main definitions

* `Session.scan` — what a header's payload holds.
* `Session.loadOne` — loads a group.
* `Session.loadDeep` — loads a group and all groups below it.
-/

namespace GamePlugin.Session

/-- What was found in a group. -/
structure Found where
  records : Array Record := #[]
  groups : Array GroupHeader := #[]

/-- Adds the chunks of a group's payload from `pos` on to what was found. The records are for the
group at index `id`. -/
def scanFrom (s : Session) (id : Nat) (header : GroupHeader) (pos : Nat) (found : Found) :
    Except Error Found :=
  if pos < header.stop then
    match _read : Chunk.read s.image s.context.schema pos (some id) with
    | .error e => .error e
    | .ok (.group inner) =>
      scanFrom s id header inner.stop { found with groups := found.groups.push inner }
    | .ok (.record inner) =>
      match s.options.readRecord s.image s.context inner with
      | .error e => .error e
      | .ok none => scanFrom s id header inner.stop found
      | .ok (some record) =>
        scanFrom s id header inner.stop { found with records := found.records.push record }
  else if pos = header.stop then .ok found
  else .error (.groupSizeMismatch header.label header.position header.stop pos)
termination_by header.stop - pos
decreasing_by
  all_goals
    have := Chunk.lt_stop_of_read _read
    simp only [Chunk.stop] at this
    omega

/-- Adds what a header's payload holds to what was found. -/
def scan (s : Session) (id : Nat) (found : Found) (header : GroupHeader) : Except Error Found :=
  scanFrom s id header header.position found

/-- Makes a group found in another one its child. If there is a child of that label and kind, the
header is one more piece of it. -/
def adopt (s : Session) (id : Nat) (header : GroupHeader) : Session :=
  let fits (child : Nat) : Bool :=
    (s.group? child).any fun g => g.label = header.label && g.kind = header.kind
  match (s.children id).find? fits with
  | some child => s.pushHeader child header
  | none =>
    let child := s.groups.size
    (s.addGroup {
      id := child
      parent := some id
      label := header.label
      kind := header.kind
      headers := #[header] }).modifyGroup id fun g => { g with children := g.children.push child }

/-- Enters a group by its label, after the others. -/
def enterLabel (s : Session) (index : Std.TreeMap UInt32 (List Nat)) (child : Nat) :
    Std.TreeMap UInt32 (List Nat) :=
  match s.group? child with
  | none => index
  | some g => index.alter g.label fun children => some (children.getD [] ++ [child])

/-- Makes the index of a group's children by label anew. -/
def indexLabels (s : Session) (id : Nat) : Session :=
  s.modifyGroup id fun g => { g with byLabel := g.children.foldl s.enterLabel ∅ }

/-- Keeps what was found in a group, of which the first `processed` headers are now processed. -/
def commit (s : Session) (id processed : Nat) (found : Found) : Session :=
  let s := { s with index := found.records.foldl LoadedIndex.insert s.index }
  let s := s.modifyGroup id fun g =>
    { g with records := g.records ++ found.records, processed, passes := g.passes + 1 }
  (found.groups.foldl (adopt · id) s).indexLabels id

/-- Loads the headers of a group that have not been processed. -/
def loadOne (id : Nat) : Step Unit := do
  let s ← get
  match s.group? id with
  | none => return
  | some g =>
    if g.isLoaded then return
    else
      match (g.headers.toList.drop g.processed).foldlM (s.scan g.id) {} with
      | .error e => throw e
      | .ok found => set (s.commit g.id g.headers.size found)

/-- Loads a group and the groups below it, down to a depth. -/
def loadDeep : (depth : Nat) → (id : Nat) → Step Unit
  | 0, _ => return
  | depth + 1, id => do
    loadOne id
    ((← get).children id).forM (loadDeep depth)

/-- A depth that no chain of groups reaches. A new group lies inside the payload of the one that
holds it, so there are fewer below a group than the file has bytes. -/
def depthBound (s : Session) : Nat := s.groups.size + s.image.size + 2

/-- Loads a group, with all groups below it if `deep`, and gives its records. -/
def load (id : Nat) (deep : Bool) : Step (List Record) := do
  if deep then loadDeep (← get).depthBound id else loadOne id
  return (← get).records id

/-- Whether a header belongs to the top group of cells or of worlds. -/
def isSpatial (h : GroupHeader) : Bool :=
  h.kind = .top && (h.labelTag = .CELL || h.labelTag = .WRLD)

/-- Gives a group one more header. With `eager`, cells and worlds are loaded at once. -/
def addHeader (id : Nat) (header : GroupHeader) (eager : Bool) : Step Unit := do
  modify (·.pushHeader id header)
  if eager && isSpatial header then loadOne id

end GamePlugin.Session
