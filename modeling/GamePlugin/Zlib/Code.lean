import GamePlugin.Zlib.Bits

/-!
# Prefix codes

A code gives symbols bit strings of which none starts another, so that they can be written without
gaps. It is kept as the binary tree of its bit strings; reading a symbol walks from the root to a
leaf.

Streams describe a code only by the length of each symbol's bit string. Bit strings are then
assigned in order: shorter ones first, equally long ones by symbol, each the successor of the one
before.
-/

namespace GamePlugin.Zlib

/-- Why inflating cannot go on. -/
inductive Fault where
  /-- The stream ends too early. -/
  | truncated
  /-- The stream says something impossible. -/
  | corrupt
  /-- The output has reached its bound. -/
  | full
deriving DecidableEq

/-- A prefix code as a tree; a missing branch is a bit string that stands for nothing. -/
inductive Code where
  | missing
  | symbol (s : Nat)
  | branch (zero one : Code)

namespace Code

/-- What is left of the code after one bit. -/
def child : Code → Bool → Code
  | branch zero _, false => zero
  | branch _ one, true => one
  | _, _ => missing

/-- Walks down to a symbol. -/
def walk : Code → Bits → Except Fault (Nat × Bits)
  | missing, _ => .error .corrupt
  | symbol s, bits => .ok (s, bits)
  | branch zero one, bits =>
    match bits.next? with
    | none => .error .truncated
    | some (b, bits) => if b then walk one bits else walk zero bits

/-- Reads the next symbol, of at least one bit. -/
def next (code : Code) (bits : Bits) : Except Fault (Nat × Bits) :=
  match bits.next? with
  | none => .error .truncated
  | some (b, bits) => walk (code.child b) bits

theorem length_walk_le {code : Code} {bits rest : Bits} {s : Nat}
    (h : code.walk bits = .ok (s, rest)) : rest.length ≤ bits.length := by
  induction code generalizing bits with
  | missing => cases h
  | symbol t =>
    cases h
    exact Nat.le_refl _
  | branch zero one ihz iho =>
    simp only [walk] at h
    split at h
    · cases h
    · rename_i hb
      have := Bits.length_of_next hb
      split at h
      · have := iho h
        omega
      · have := ihz h
        omega

theorem length_next_lt {code : Code} {bits rest : Bits} {s : Nat}
    (h : code.next bits = .ok (s, rest)) : rest.length < bits.length := by
  simp only [next] at h
  split at h
  · cases h
  · rename_i hb
    have := Bits.length_of_next hb
    have := length_walk_le h
    omega

/-- The code with one more symbol at the given bit string. -/
def insert : Code → List Bool → Nat → Code
  | _, [], s => symbol s
  | branch zero one, false :: bits, s => branch (insert zero bits s) one
  | branch zero one, true :: bits, s => branch zero (insert one bits s)
  | _, false :: bits, s => branch (insert missing bits s) missing
  | _, true :: bits, s => branch missing (insert missing bits s)

/-- The `n` low bits of a number, most significant first. -/
def bitString : (n value : Nat) → List Bool
  | 0, _ => []
  | n + 1, value => value.testBit n :: bitString n value

/-- The symbols of each length, in order: pairs of a length and a symbol, shorter lengths first. -/
def ordered (maxLength : Nat) (lengths : List Nat) : List (Nat × Nat) :=
  (List.range maxLength).flatMap fun i =>
    lengths.zipIdx.filter fun (length, _) => length = i + 1

/-- Adds symbols in order. `value` is the bit string, `length` bits long, from which the next one is
counted. -/
def assign : (length value : Nat) → List (Nat × Nat) → Code → Code
  | _, _, [], code => code
  | length, value, (l, s) :: rest, code =>
    let value := value <<< (l - length)
    assign l (value + 1) rest (code.insert (bitString l value) s)

/-- Longest bit string of any code. -/
def maxLength : Nat := 15

/-- How much of all bit strings the lengths use up; `2 ^ maxLength` is all of it. -/
def usage (lengths : List Nat) : Nat :=
  (lengths.filter (· ≠ 0)).foldl (fun n l => n + 1 <<< (maxLength - l)) 0

/-- The code with the given lengths, where zero marks an unused symbol. -/
def build (lengths : List Nat) : Code := assign 0 0 (ordered maxLength lengths) missing

/-- Whether every bit string stands for something. Where `lone` allows it, a code without symbols
and one with a single symbol, which must be one bit long, are excepted. -/
def isComplete (lone : Bool) (lengths : List Nat) : Bool :=
  let used := lengths.filter (· ≠ 0)
  usage lengths = 1 <<< maxLength || (lone && (used = [] || used = [1]))

/-- The code with the given lengths, if it is complete. -/
def ofLengths (lone : Bool) (lengths : List Nat) : Except Fault Code :=
  if isComplete lone lengths then .ok (build lengths) else .error .corrupt

end Code

end GamePlugin.Zlib
