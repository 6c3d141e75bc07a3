import GamePlugin.Bytes

/-!
# Bit strings

A deflated stream is read bit by bit, each byte from its least significant bit up. Numbers arrive
least significant bit first.

What is still to be read is kept as the bits left of the byte that has been started and the bytes
after it, so stepping to the next whole byte only drops the former.
-/

namespace GamePlugin.Zlib

/-- Bits still to be read. -/
structure Bits where
  /-- Bits left of the byte that has been started. -/
  started : List Bool
  /-- The bytes after it. -/
  whole : Bytes
deriving DecidableEq

namespace Bits

/-- The bits of a byte string. -/
def ofBytes (bs : Bytes) : Bits := ⟨[], bs⟩

/-- Number of bits. -/
def length (bits : Bits) : Nat := bits.started.length + 8 * bits.whole.length

/-- The bits of a byte after its first one. -/
def laterBits (b : UInt8) : List Bool := [1, 2, 3, 4, 5, 6, 7].map b.toNat.testBit

/-- The next bit and those after it. -/
def next? : Bits → Option (Bool × Bits)
  | ⟨b :: started, whole⟩ => some (b, ⟨started, whole⟩)
  | ⟨[], b :: whole⟩ => some (b.toNat.testBit 0, ⟨laterBits b, whole⟩)
  | ⟨[], []⟩ => none

/-- The number in the next `n` bits and the bits after it. -/
def number : (n : Nat) → Bits → Option (Nat × Bits)
  | 0, bits => some (0, bits)
  | n + 1, bits =>
    match bits.next? with
    | none => none
    | some (b, bits) =>
      match number n bits with
      | none => none
      | some (value, rest) => some (b.toNat + 2 * value, rest)

/-- Skips to the next whole byte. -/
def align (bits : Bits) : Bits := ⟨[], bits.whole⟩

/-- Up to `n` whole bytes and the bits after them; fewer bytes only where the stream ends. -/
def bytes (n : Nat) (bits : Bits) : Bytes × Bits :=
  (bits.whole.take n, ⟨[], bits.whole.drop n⟩)

theorem length_of_next {bits rest : Bits} {b : Bool} (h : bits.next? = some (b, rest)) :
    bits.length = 1 + rest.length := by
  obtain ⟨started, whole⟩ := bits
  cases started with
  | cons c started =>
    cases h
    simp only [length, List.length_cons]
    omega
  | nil =>
    cases whole with
    | nil => cases h
    | cons c whole =>
      cases h
      simp only [length, laterBits, List.length_map, List.length_cons, List.length_nil]
      omega

theorem length_of_number {n : Nat} {bits rest : Bits} {value : Nat}
    (h : number n bits = some (value, rest)) : bits.length = n + rest.length := by
  induction n generalizing bits value with
  | zero =>
    cases h
    omega
  | succ n ih =>
    simp only [number] at h
    split at h
    · cases h
    · rename_i hb
      split at h
      · cases h
      · rename_i hr
        cases h
        have := length_of_next hb
        have := ih hr
        omega

theorem length_bytes_le (n : Nat) (bits : Bits) : (bytes n bits).2.length ≤ bits.length := by
  simp only [bytes, length, List.length_nil, List.length_drop]
  omega

theorem length_align_le (bits : Bits) : (align bits).length ≤ bits.length := by
  simp only [align, length, List.length_nil]
  omega

end Bits

end GamePlugin.Zlib
