import GamePlugin.Text.Quoted

/-!
# Form ids and references

A record is known by a form id, a word whose top byte says which of the plugin's masters defines it
and whose rest counts within that master. Older files name records by editor id instead, so a
reference holds one or the other. Zero and the empty name refer to nothing.
-/

namespace GamePlugin

/-- The number a record is known by. -/
structure FormId where
  value : UInt32
deriving DecidableEq

namespace FormId

/-- The id of no record. -/
def none : FormId := ⟨0⟩

/-- Whether the id names no record. -/
def isNone (id : FormId) : Bool := id.value = 0

/-- Which master defines the record. -/
def masterIndex (id : FormId) : Nat := id.value.toNat / 0x1000000

/-- The record's number within its master. -/
def objectIndex (id : FormId) : Nat := id.value.toNat % 0x1000000

/-- Eight upper-case hexadecimal digits. -/
def text (id : FormId) : String := Text.paddedHexUpper 8 id.value.toNat

end FormId

/-- A reference to a record, by form id or by editor id. -/
inductive FormRef where
  | id (form : FormId)
  | editorId (name : String)
deriving DecidableEq

namespace FormRef

/-- The form id of a reference that has one. -/
def formId? : FormRef → Option FormId
  | id form => some form
  | editorId _ => Option.none

/-- Whether the reference refers to nothing. -/
def isNull : FormRef → Bool
  | id form => form.isNone
  | editorId name => name.isEmpty

/-- The reference as text: the id's digits, or the name in quotes. -/
def text : FormRef → String
  | id form => form.text
  | editorId name => Text.quoted name

end FormRef

end GamePlugin
