import GamePlugin.Body
import GamePlugin.Edition

/-!
# Registry of record types

A registry says, for each tag, what the records are called, which editions have them and which shape
their bodies take. A tag has at most one entry; the latest wins.
-/

namespace GamePlugin

/-- A range of editions. -/
structure Support where
  first : Edition
  last : Edition
deriving DecidableEq

namespace Support

/-- All editions. -/
def all : Support := ⟨.morrowind, .starfield⟩

/-- An edition and those after it. -/
def since (e : Edition) : Support := ⟨e, .starfield⟩

/-- An edition and those before it. -/
def upTo (e : Edition) : Support := ⟨.morrowind, e⟩

/-- One edition. -/
def only (e : Edition) : Support := ⟨e, e⟩

/-- Whether an edition is in the range. -/
def contains (s : Support) (e : Edition) : Bool := s.first.tier ≤ e.tier && e.tier ≤ s.last.tier

end Support

/-- An entry of a registry. -/
structure RecordType where
  tag : Tag
  name : String
  support : Support
  shape : Shape
deriving DecidableEq

/-- Record types by tag. -/
structure Registry where
  /-- The entries, each with its own tag. -/
  types : List RecordType

namespace Registry

/-- A registry without entries. -/
def empty : Registry := ⟨[]⟩

/-- The entry of a tag. -/
def find? (r : Registry) (tag : Tag) : Option RecordType := r.types.find? (·.tag = tag)

/-- Sets the entry of a tag. -/
def register (r : Registry) (t : RecordType) : Registry :=
  ⟨t :: r.types.filter (·.tag ≠ t.tag)⟩

@[simp] theorem find?_register_self (r : Registry) (t : RecordType) :
    (r.register t).find? t.tag = some t := by
  simp [find?, register]

theorem find?_register_of_ne (r : Registry) {t : RecordType} {tag : Tag} (h : tag ≠ t.tag) :
    (r.register t).find? tag = r.find? tag := by
  have keep (u : RecordType) : (u.tag ≠ t.tag ∧ u.tag = tag) ↔ u.tag = tag :=
    ⟨And.right, fun e => ⟨e ▸ h, e⟩⟩
  simp [find?, register, h.symm, List.find?_filter, keep]

/-- Number of entries. -/
def size (r : Registry) : Nat := r.types.length

/-- Whether a tag has an entry that an edition is in the range of. -/
def supports (r : Registry) (tag : Tag) (e : Edition) : Bool :=
  (r.find? tag).any (·.support.contains e)

/-- The shape of records of a tag in an edition; none if they are to be passed over. -/
def shape? (r : Registry) (tag : Tag) (e : Edition) : Option Shape :=
  ((r.find? tag).filter (·.support.contains e)).map (·.shape)

end Registry

end GamePlugin
