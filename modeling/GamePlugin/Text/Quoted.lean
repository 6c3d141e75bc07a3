import GamePlugin.Text.Printable

/-!
# Quoted text and hexadecimal numbers

How messages and reports show a text (between double quotes, with escapes) and a word (with a fixed
number of hexadecimal digits).
-/

namespace GamePlugin.Text

/-- A number in hexadecimal, lower case, without leading zeros. -/
def hex (n : Nat) : String := String.ofList (Nat.toDigits 16 n)

/-- A number in hexadecimal, lower case, filled up with zeros to `width` digits. -/
def paddedHex (width n : Nat) : String :=
  let digits := Nat.toDigits 16 n
  String.ofList (List.replicate (width - digits.length) '0' ++ digits)

/-- As `paddedHex`, in upper case. -/
def paddedHexUpper (width n : Nat) : String := (paddedHex width n).toUpper

/-- One character inside quotes. -/
def escape (c : Char) : String :=
  if c = '\x00' then "\\0"
  else if c = '\t' then "\\t"
  else if c = '\r' then "\\r"
  else if c = '\n' then "\\n"
  else if c = '"' then "\\\""
  else if c = '\\' then "\\\\"
  else if isPrintable c then c.toString
  else "\\u\x7b" ++ hex c.toNat ++ "\x7d"

/-- A text between double quotes, with all that could mislead a reader escaped. -/
def quoted (s : String) : String :=
  "\"" ++ String.join (s.toList.map escape) ++ "\""

end GamePlugin.Text
