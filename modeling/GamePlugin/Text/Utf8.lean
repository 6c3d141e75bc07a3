import GamePlugin.Bytes

/-!
# Lenient UTF-8

Stored text is meant to be UTF-8 but need not be. Reading never fails: each maximal run of bytes
that starts a character and is then cut short, and each byte that cannot start one, becomes one
replacement character.

A lead byte fixes how many bytes follow and the range of the first of them, which rules out overlong
forms, surrogates and values past the last code point. All later ones are in `0x80..0xBF`.
-/

namespace GamePlugin.Text.Utf8

/-- The character that stands for bytes that are not text. -/
def replacement : Char := '\uFFFD'

/-- What a lead byte announces. -/
structure Lead where
  /-- Bytes that follow. -/
  tails : Nat
  /-- Least value of the first byte that follows. -/
  low : UInt8
  /-- Greatest value of the first byte that follows. -/
  high : UInt8
  /-- The lead byte's own share of the code point. -/
  payload : Nat
deriving DecidableEq

/-- Reads a lead byte; none for a byte that cannot start a character. -/
def lead (b : UInt8) : Option Lead :=
  if b < 0x80 then some ⟨0, 0x80, 0xBF, b.toNat⟩
  else if b < 0xC2 then none
  else if b < 0xE0 then some ⟨1, 0x80, 0xBF, b.toNat - 0xC0⟩
  else if b = 0xE0 then some ⟨2, 0xA0, 0xBF, 0⟩
  else if b = 0xED then some ⟨2, 0x80, 0x9F, 0xD⟩
  else if b < 0xF0 then some ⟨2, 0x80, 0xBF, b.toNat - 0xE0⟩
  else if b = 0xF0 then some ⟨3, 0x90, 0xBF, 0⟩
  else if b < 0xF4 then some ⟨3, 0x80, 0xBF, b.toNat - 0xF0⟩
  else if b = 0xF4 then some ⟨3, 0x80, 0x8F, 4⟩
  else none

/-- The bytes, at most `n`, that continue a character: the first within the given range, each later
one within the general one. -/
def tails : (n : Nat) → (low high : UInt8) → Bytes → Bytes
  | 0, _, _, _ => []
  | _ + 1, _, _, [] => []
  | n + 1, low, high, b :: bs =>
    if low ≤ b ∧ b ≤ high then b :: tails n 0x80 0xBF bs else []

/-- The code point of a lead byte's share and the bytes after it, six bits each. -/
def codePoint (payload : Nat) (bs : Bytes) : Nat :=
  bs.foldl (fun acc b => acc * 64 + b.toNat % 64) payload

/-- The characters of a byte string. -/
def decode : Bytes → List Char
  | [] => []
  | b :: bs =>
    match lead b with
    | none => replacement :: decode bs
    | some l =>
      let ts := tails l.tails l.low l.high bs
      let c := if ts.length = l.tails then Char.ofNat (codePoint l.payload ts) else replacement
      c :: decode (bs.drop ts.length)
termination_by bs => bs.length
decreasing_by
  all_goals simp only [List.length_cons, List.length_drop]; omega

/-- The bytes of a text. -/
def encode (s : String) : Bytes := s.toUTF8.data.toList

end GamePlugin.Text.Utf8
