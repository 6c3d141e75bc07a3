import GamePlugin.FormId
import GamePlugin.Number.Single
import GamePlugin.Tag

/-!
# Layouts of fixed size

A layout says how many bytes a value takes and how to read it from them. Layouts are put together
from those of words; `structured` marks the ones that have a name of their own, for which running
out of bytes is a different error.
-/

namespace GamePlugin

/-- How a value of fixed size is stored. -/
structure Layout (α : Type) where
  /-- Bytes that the value takes. -/
  size : Nat
  /-- Whether the value is a named structure. -/
  structured : Bool := false
  /-- The value of that many bytes. -/
  parse : Bytes → α

namespace Layout

variable {α β : Type}

/-- The same bytes, seen as something else. -/
def map (f : α → β) (l : Layout α) : Layout β :=
  { size := l.size, structured := l.structured, parse := fun bs => f (l.parse bs) }

/-- One value after another. -/
def append (a : Layout α) (b : Layout β) : Layout (α × β) :=
  { size := a.size + b.size
    parse := fun bs => (a.parse (bs.take a.size), b.parse (bs.drop a.size)) }

/-- `n` values in a row. -/
def times (n : Nat) (l : Layout α) : Layout (List α) :=
  { size := n * l.size
    parse := fun bs => (List.range n).map fun i => l.parse ((bs.drop (i * l.size)).take l.size) }

/-- Marks a named structure. -/
def named (l : Layout α) : Layout α := { l with structured := true }

/-- An unsigned byte. -/
def byte : Layout UInt8 := { size := 1, parse := fun bs => bs.headD 0 }

/-- An unsigned 16-bit word. -/
def word16 : Layout UInt16 := { size := 2, parse := Bytes.word16 }

/-- A signed 16-bit word. -/
def int16 : Layout Int16 := word16.map (·.toInt16)

/-- An unsigned 32-bit word. -/
def word32 : Layout UInt32 := { size := 4, parse := Bytes.word32 }

/-- A signed 32-bit word. -/
def int32 : Layout Int32 := word32.map (·.toInt32)

/-- A single-precision number. -/
def single : Layout Float32 := word32.map Single.ofBits

/-- A form id. -/
def formId : Layout FormId := (word32.map FormId.mk).named

/-- A tag. -/
def tag : Layout Tag := (word32.map Tag.mk).named

/-- As many whole values as there are, and the bytes left over. -/
def split (l : Layout α) (bs : Bytes) : List α × Bytes :=
  let item := bs.take l.size
  if l.size = 0 ∨ item.length < l.size then ([], bs)
  else
    let (values, rest) := split l (bs.drop l.size)
    (l.parse item :: values, rest)
termination_by bs.length
decreasing_by
  simp only [List.length_take, List.length_drop, item] at *
  omega

end Layout

end GamePlugin
