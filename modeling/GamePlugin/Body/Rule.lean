import GamePlugin.Field.Sequence

/-!
# Field rules

A body is described by a table of rules. A rule names a tag, the sizes and schemas it holds for, and
how the field changes the body. The first rule that applies to a field decides; a field to which
none applies is declined.

Bodies have parts in common, so a rule for a part can be used as a rule for the whole
(`Rule.within`).

Where a field belongs to the latest element of a list, the rule changes that element with
`modifyLast`.
-/

namespace GamePlugin

/-- Changes the last element, if there is one. -/
def modifyLast {α : Type} (xs : Array α) (f : α → α) : Array α := xs.modify (xs.size - 1) f

/-- A signed word with everything below zero taken for zero. -/
def clampWord (n : Int32) : UInt32 := if n < 0 then 0 else n.toUInt32

/-- A signed half word with everything below zero taken for zero. -/
def clampHalf (n : Int16) : UInt16 := if n < 0 then 0 else n.toUInt16

/-- Sizes of a field that a rule holds for. -/
inductive Sizes where
  | any
  | exactly (n : Nat)
  | oneOf (ns : List Nat)
  | atLeast (n : Nat)
  | multipleOf (n : Nat)
deriving DecidableEq

/-- Whether a size is among them. -/
def Sizes.allow : Sizes → Nat → Bool
  | any, _ => true
  | exactly n, size => size = n
  | oneOf ns, size => ns.contains size
  | atLeast n, size => n ≤ size
  | multipleOf n, size => size % n = 0

/-- One line of a body's table of fields. -/
structure Rule (β : Type) where
  tag : Tag
  sizes : Sizes
  schemas : List Schema
  /-- Reads the field into the body, or declines it. -/
  read : Offer β

namespace Rule

variable {α β : Type}

/-- Whether the rule holds for a field. -/
def applies (r : Rule β) (f : Field) : Bool :=
  r.tag = f.tag && r.schemas.contains f.context.schema && r.sizes.allow f.size

/-- A rule of all schemas. -/
def on (tag : Tag) (sizes : Sizes) (read : β → Field.Reader β) : Rule β :=
  ⟨tag, sizes, [.tes3, .tes4, .tes5], fun b => some <$> read b⟩

/-- A rule of the oldest schema. -/
def onTes3 (tag : Tag) (sizes : Sizes) (read : β → Field.Reader β) : Rule β :=
  ⟨tag, sizes, [.tes3], fun b => some <$> read b⟩

/-- A rule of the schemas with groups. -/
def onGrouped (tag : Tag) (sizes : Sizes) (read : β → Field.Reader β) : Rule β :=
  ⟨tag, sizes, [.tes4, .tes5], fun b => some <$> read b⟩

/-- A rule of one schema. -/
def onSchema (schema : Schema) (tag : Tag) (sizes : Sizes) (read : β → Field.Reader β) : Rule β :=
  ⟨tag, sizes, [schema], fun b => some <$> read b⟩

/-- A rule for a part, used for the whole. -/
def within (get : α → β) (set : α → β → α) (r : Rule β) : Rule α :=
  { tag := r.tag
    sizes := r.sizes
    schemas := r.schemas
    read := fun a => do return (← r.read (get a)).map (set a) }

end Rule

/-- Offers a field to a table of rules. -/
def offerTo {β : Type} (rules : List (Rule β)) : Offer β := fun b f c =>
  match rules.find? (·.applies f) with
  | some r => r.read b f c
  | none => .ok none c

end GamePlugin
