import GamePlugin.Bytes

/-!
# Tags

Records, groups and fields are named by four bytes. A tag is kept as the 32-bit word those bytes
spell, which is also the order tags are listed in; its text is for people.
-/

namespace GamePlugin

/-- A four-byte name, kept as its little-endian word. -/
structure Tag where
  code : UInt32
deriving DecidableEq

namespace Tag

/-- The tag spelled by the first four bytes. -/
def ofBytes (bs : Bytes) : Tag := ⟨Bytes.word32 bs⟩

/-- The four bytes, in file order. -/
def bytes (t : Tag) : Bytes := Bytes.ofUInt32 t.code

/-- The tag spelled by four characters, each of which stands for one byte. -/
def ofChars (a b c d : Char) : Tag :=
  ⟨a.val ||| b.val <<< 8 ||| c.val <<< 16 ||| d.val <<< 24⟩

/-- The tag spelled by a text of exactly four bytes. -/
def ofString? (s : String) : Option Tag :=
  if s.utf8ByteSize = 4 then some (ofBytes s.toUTF8.data.toList) else none

/-- How a byte of a tag is shown: graphic ASCII and the space as they are, all else as `?`. -/
def shown (b : UInt8) : Char :=
  if 0x20 ≤ b ∧ b ≤ 0x7E then Char.ofNat b.toNat else '?'

/-- The tag as text. -/
def text (t : Tag) : String := String.ofList (t.bytes.map shown)

/-- Tags are listed by their word, not by their text. -/
def le (s t : Tag) : Bool := s.code ≤ t.code

end Tag

end GamePlugin
