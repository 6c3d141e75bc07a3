import GamePlugin.Plugin.Flat
import GamePlugin.Session

/-!
# Plugins

An open plugin: its root record, what that says, and where the rest is found. In a file with groups
the top groups are nodes of the session; a file without groups has been read whole into flat tables.

What changes while a plugin is used is the session, so operations on a plugin are session steps.
-/

namespace GamePlugin

/-- What is known of an open file and does not change. -/
structure Plugin where
  /-- The first record. -/
  root : Record
  /-- What the first record says. -/
  header : Root
  /-- Indices of the top groups, in file order. -/
  topGroups : List Nat := []
  /-- All records, for a file without groups. -/
  flat : Option FlatTables := none

/-- The top group with a label. -/
def Session.labelled? (s : Session) (ids : List Nat) (label : UInt32) : Option Nat :=
  ids.find? fun id => (s.group? id).any (·.label = label)

/-- The top group of records with a tag. -/
def Plugin.topGroup? (p : Plugin) (s : Session) (tag : Tag) : Option Nat :=
  s.labelled? p.topGroups tag.code

end GamePlugin
