import GamePlugin.Text.Utf8

/-!
# Stored text

Text ends at the first zero byte, or where its field ends. What follows the zero byte is never text.
-/

namespace GamePlugin.Text

/-- The text in a byte string: everything before the first zero byte. -/
def decode (bs : Bytes) : String := String.ofList (Utf8.decode (bs.takeWhile (· ≠ 0)))

/-- A text with the zero byte that ends it. -/
def terminated (s : String) : Bytes := Utf8.encode s ++ [0]

/-- The texts in a run of them, divided by zero bytes; empty ones are dropped. -/
def decodeAll (bs : Bytes) : List String :=
  ((bs.splitOnP (· == 0)).filter (!·.isEmpty)).map fun name => String.ofList (Utf8.decode name)

end GamePlugin.Text
