import GamePlugin.Zlib.Checksum
import GamePlugin.Zlib.Code

/-!
# Inflating

A stream is a two-byte header, a run of blocks, and a checksum of what they inflate to. A block
holds plain bytes, or symbols of two codes: literal bytes, references that repeat earlier output,
and an end mark. Bytes before the start of the output read as zero.

Inflating has a bound on its output, so that a stream that inflates to more than anyone asked for
costs no more than the bound. A run that stops early says why and what it had put out by then; a
stream that needs one more byte than the bound allows stops with `Fault.full`, and everything up to
that byte has been examined.

## Main definitions

* `inflate` — the bytes a stream inflates to.
-/

namespace GamePlugin.Zlib

/-- What has been put out so far. -/
abbrev Output := Array UInt8

/-- A run that can stop early, with its output up to then. -/
abbrev Run := Except (Fault × Output)

/-! ## References -/

/-- Shortest length and number of extra bits of each length symbol, from 257 on. -/
def lengthTable : List (Nat × Nat) :=
  [(3, 0), (4, 0), (5, 0), (6, 0), (7, 0), (8, 0), (9, 0), (10, 0), (11, 1), (13, 1), (15, 1),
    (17, 1), (19, 2), (23, 2), (27, 2), (31, 2), (35, 3), (43, 3), (51, 3), (59, 3), (67, 4),
    (83, 4), (99, 4), (115, 4), (131, 5), (163, 5), (195, 5), (227, 5), (258, 0)]

/-- Shortest distance and number of extra bits of each distance symbol. -/
def distanceTable : List (Nat × Nat) :=
  [(1, 0), (2, 0), (3, 0), (4, 0), (5, 1), (7, 1), (9, 2), (13, 2), (17, 3), (25, 3), (33, 4),
    (49, 4), (65, 5), (97, 5), (129, 6), (193, 6), (257, 7), (385, 7), (513, 8), (769, 8),
    (1025, 9), (1537, 9), (2049, 10), (3073, 10), (4097, 11), (6145, 11), (8193, 12), (12289, 12),
    (16385, 13), (24577, 13)]

/-- The value that a symbol and its extra bits stand for. -/
def extended (table : List (Nat × Nat)) (s : Nat) (bits : Bits) : Except Fault (Nat × Bits) :=
  match table[s]? with
  | none => .error .corrupt
  | some (base, extra) =>
    match Bits.number extra bits with
    | none => .error .truncated
    | some (value, rest) => .ok (base + value, rest)

/-- Length and distance of the reference that starts with a length symbol, of those from 257 on. -/
def reference (distances : Code) (s : Nat) (bits : Bits) : Except Fault (Nat × Nat × Bits) :=
  match extended lengthTable (s % 256 - 1) bits with
  | .error f => .error f
  | .ok (length, bits) =>
    match distances.next bits with
    | .error f => .error f
    | .ok (d, bits) =>
      match extended distanceTable d bits with
      | .error f => .error f
      | .ok (distance, bits) => .ok (length, distance, bits)

/-- The byte put out `distance` bytes ago. -/
def back (out : Output) (distance : Nat) : UInt8 :=
  if distance ≤ out.size then out.getD (out.size - distance) 0 else 0

/-- Repeats `n` bytes from `distance` bytes ago; they may be among those being put out. -/
def copy (distance : Nat) : (n : Nat) → Output → Output
  | 0, out => out
  | n + 1, out => copy distance n (out.push (back out distance))

theorem length_extended_le {table : List (Nat × Nat)} {s value : Nat} {bits rest : Bits}
    (h : extended table s bits = .ok (value, rest)) : rest.length ≤ bits.length := by
  simp only [extended] at h
  split at h
  · cases h
  · split at h
    · cases h
    · rename_i hn
      cases h
      have := Bits.length_of_number hn
      omega

theorem length_reference_le {distances : Code} {s length distance : Nat} {bits rest : Bits}
    (h : reference distances s bits = .ok (length, distance, rest)) :
    rest.length ≤ bits.length := by
  simp only [reference] at h
  split at h
  · cases h
  · rename_i hl
    split at h
    · cases h
    · rename_i hd
      split at h
      · cases h
      · rename_i hv
        cases h
        have := length_extended_le hl
        have := Code.length_next_lt hd
        have := length_extended_le hv
        omega

/-! ## Blocks -/

/-- Puts out the symbols of a block up to its end mark. -/
def symbols (bound : Nat) (literals distances : Code) (out : Output) (bits : Bits) :
    Run (Output × Bits) :=
  match _next : literals.next bits with
  | .error f => .error (f, out)
  | .ok (s, rest) =>
    if s < 256 then
      if out.size < bound then symbols bound literals distances (out.push (UInt8.ofNat s)) rest
      else .error (.full, out)
    else if s = 256 then .ok (out, rest)
    else
      match _reference : reference distances s rest with
      | .error f => .error (f, out)
      | .ok (length, distance, rest) =>
        let room := bound - out.size
        if room < length then .error (.full, copy distance room out)
        else symbols bound literals distances (copy distance length out) rest
termination_by bits.length
decreasing_by
  · exact Code.length_next_lt _next
  · have := Code.length_next_lt _next
    have := length_reference_le _reference
    omega

/-- Puts out a block of plain bytes: from the next whole byte on, a length, the same with all bits
turned over, and the bytes. -/
def stored (bound : Nat) (out : Output) (bits : Bits) : Run (Output × Bits) :=
  match Bits.number 16 (Bits.align bits) with
  | none => .error (.truncated, out)
  | some (length, bits) =>
    match Bits.number 16 bits with
    | none => .error (.truncated, out)
    | some (check, bits) =>
      if length + check ≠ 0xFFFF then .error (.corrupt, out)
      else
        let room := bound - out.size
        let wanted := min length room
        let (bs, rest) := Bits.bytes wanted bits
        let out := out ++ bs
        if bs.length < wanted then .error (.truncated, out)
        else if room < length then .error (.full, out)
        else .ok (out, rest)

/-! ## Codes of a block -/

/-- The order in which the lengths of the code for code lengths are stored. -/
def lengthOrder : List Nat := [16, 17, 18, 0, 8, 7, 9, 6, 10, 5, 11, 4, 12, 3, 13, 2, 14, 1, 15]

/-- The next `count` numbers of `width` bits each. -/
def numbers (width : Nat) : (count : Nat) → Bits → Option (List Nat × Bits)
  | 0, bits => some ([], bits)
  | count + 1, bits =>
    match Bits.number width bits with
    | none => none
    | some (value, bits) =>
      match numbers width count bits with
      | none => none
      | some (values, bits) => some (value :: values, bits)

/-- A run of equal code lengths: the one before again, or zeros. -/
def lengthRun (lengths : Array Nat) (s : Nat) (bits : Bits) :
    Except Fault (Nat × Nat × Bits) :=
  let run (value shortest width : Nat) : Except Fault (Nat × Nat × Bits) :=
    match Bits.number width bits with
    | none => .error .truncated
    | some (more, rest) => .ok (value, shortest + more, rest)
  if s = 16 then
    match lengths.back? with
    | none => .error .corrupt
    | some previous => run previous 3 2
  else if s = 17 then run 0 3 3
  else run 0 11 7

theorem length_lengthRun_le {lengths : Array Nat} {s value n : Nat} {bits rest : Bits}
    (h : lengthRun lengths s bits = .ok (value, n, rest)) : rest.length ≤ bits.length := by
  have run {value' shortest width : Nat} (h : (match Bits.number width bits with
      | none => Except.error Fault.truncated
      | some (more, rest) => .ok (value', shortest + more, rest)) = .ok (value, n, rest)) :
      rest.length ≤ bits.length := by
    split at h
    · cases h
    · rename_i hn
      cases h
      have := Bits.length_of_number hn
      omega
  simp only [lengthRun] at h
  split at h
  · split at h
    · cases h
    · exact run h
  · split at h
    · exact run h
    · exact run h

/-- Reads exactly `total` code lengths. -/
def codeLengths (code : Code) (total : Nat) (lengths : Array Nat) (bits : Bits) :
    Except Fault (Array Nat × Bits) :=
  if lengths.size < total then
    match _next : code.next bits with
    | .error f => .error f
    | .ok (s, rest) =>
      if s < 16 then codeLengths code total (lengths.push s) rest
      else
        match _run : lengthRun lengths s rest with
        | .error f => .error f
        | .ok (value, n, rest) =>
          codeLengths code total (lengths ++ List.replicate n value) rest
  else if lengths.size = total then .ok (lengths, bits)
  else .error .corrupt
termination_by bits.length
decreasing_by
  · exact Code.length_next_lt _next
  · have := Code.length_next_lt _next
    have := length_lengthRun_le _run
    omega

/-- The code for literals and lengths in a block that describes none. -/
def agreedLiterals : Code :=
  Code.build
    (List.replicate 144 8 ++ List.replicate 112 9 ++ List.replicate 24 7 ++ List.replicate 8 8)

/-- The code for distances in a block that describes none. -/
def agreedDistances : Code := Code.build (List.replicate 32 5)

/-- The two codes of a block that describes its own. -/
def describedCodes (bits : Bits) : Except Fault (Code × Code × Bits) :=
  match Bits.number 14 bits with
  | none => .error .truncated
  | some (sizes, bits) =>
    let literalCount := 257 + sizes % 32
    let distanceCount := 1 + sizes / 32 % 32
    let lengthCount := 4 + sizes / 1024
    if 286 < literalCount ∨ 30 < distanceCount then .error .corrupt
    else
      match numbers 3 lengthCount bits with
      | none => .error .truncated
      | some (given, bits) =>
        let lengths := (List.range 19).map fun s => ((lengthOrder.zip given).lookup s).getD 0
        match Code.ofLengths false lengths with
        | .error f => .error f
        | .ok code =>
          match codeLengths code (literalCount + distanceCount) #[] bits with
          | .error f => .error f
          | .ok (lengths, bits) =>
            match Code.ofLengths true (lengths.toList.take literalCount) with
            | .error f => .error f
            | .ok literals =>
              match Code.ofLengths true (lengths.toList.drop literalCount) with
              | .error f => .error f
              | .ok distances => .ok (literals, distances, bits)

/-! ## Streams -/

/-- Puts out one block of the given kind. -/
def block (bound kind : Nat) (out : Output) (bits : Bits) : Run (Output × Bits) :=
  match kind with
  | 0 => stored bound out bits
  | 1 => symbols bound agreedLiterals agreedDistances out bits
  | 2 =>
    match describedCodes bits with
    | .error f => .error (f, out)
    | .ok (literals, distances, bits) => symbols bound literals distances out bits
  | _ => .error (.corrupt, out)

theorem length_symbols_le {bound : Nat} {literals distances : Code} {out out' : Output}
    {bits rest : Bits} (h : symbols bound literals distances out bits = .ok (out', rest)) :
    rest.length ≤ bits.length := by
  fun_induction symbols bound literals distances out bits with
  | case1 => cases h
  | case2 out bits s rest' hn _ _ ih =>
    have := ih h
    have := Code.length_next_lt hn
    omega
  | case3 => cases h
  | case4 out bits rest' hn =>
    cases h
    exact Nat.le_of_lt (Code.length_next_lt hn)
  | case5 => cases h
  | case6 => cases h
  | case7 out bits s rest' hn _ _ _ _ rest'' hr _ _ ih =>
    have := ih h
    have := Code.length_next_lt hn
    have := length_reference_le hr
    omega

theorem length_stored_le {bound : Nat} {out out' : Output} {bits rest : Bits}
    (h : stored bound out bits = .ok (out', rest)) : rest.length ≤ bits.length := by
  simp only [stored] at h
  split at h
  · cases h
  rename_i length bits₁ h₁
  split at h
  · cases h
  rename_i check bits₂ h₂
  split at h
  · cases h
  split at h
  · cases h
  split at h
  · cases h
  cases h
  have := Bits.length_align_le bits
  have := Bits.length_of_number h₁
  have := Bits.length_of_number h₂
  have := Bits.length_bytes_le (min length (bound - out.size)) bits₂
  omega

theorem length_codeLengths_le {code : Code} {total : Nat} {lengths lengths' : Array Nat}
    {bits rest : Bits} (h : codeLengths code total lengths bits = .ok (lengths', rest)) :
    rest.length ≤ bits.length := by
  fun_induction codeLengths code total lengths bits with
  | case1 => cases h
  | case2 lengths bits _ s rest' hn _ ih =>
    have := ih h
    have := Code.length_next_lt hn
    omega
  | case3 => cases h
  | case4 lengths bits _ s rest' hn _ _ _ rest'' hr ih =>
    have := ih h
    have := Code.length_next_lt hn
    have := length_lengthRun_le hr
    omega
  | case5 => cases h; exact Nat.le_refl _
  | case6 => cases h

theorem length_numbers_le {width count : Nat} {bits rest : Bits} {values : List Nat}
    (h : numbers width count bits = some (values, rest)) : rest.length ≤ bits.length := by
  induction count generalizing bits values with
  | zero => cases h; exact Nat.le_refl _
  | succ count ih =>
    simp only [numbers] at h
    split at h
    · cases h
    rename_i hn
    split at h
    · cases h
    rename_i hr
    cases h
    have := Bits.length_of_number hn
    have := ih hr
    omega

theorem length_describedCodes_le {bits rest : Bits} {literals distances : Code}
    (h : describedCodes bits = .ok (literals, distances, rest)) : rest.length ≤ bits.length := by
  simp only [describedCodes] at h
  split at h
  · cases h
  rename_i hs
  split at h
  · cases h
  split at h
  · cases h
  rename_i hg
  split at h
  · cases h
  split at h
  · cases h
  rename_i hl
  split at h
  · cases h
  split at h
  · cases h
  cases h
  have := Bits.length_of_number hs
  have := length_numbers_le hg
  have := length_codeLengths_le hl
  omega

theorem length_block_le {bound kind : Nat} {out out' : Output} {bits rest : Bits}
    (h : block bound kind out bits = .ok (out', rest)) : rest.length ≤ bits.length := by
  simp only [block] at h
  split at h
  · exact length_stored_le h
  · exact length_symbols_le h
  · split at h
    · cases h
    · rename_i hc
      have := length_describedCodes_le hc
      have := length_symbols_le h
      omega
  · cases h

/-- Puts out blocks up to the one marked as the last: each starts with that mark and its kind. -/
def blocks (bound : Nat) (out : Output) (bits : Bits) : Run (Output × Bits) :=
  match _header : Bits.number 3 bits with
  | none => .error (.truncated, out)
  | some (header, rest) =>
    match _block : block bound (header / 2) out rest with
    | .error e => .error e
    | .ok (out, rest) => if header % 2 = 1 then .ok (out, rest) else blocks bound out rest
termination_by bits.length
decreasing_by
  have := Bits.length_of_number _header
  have := length_block_le _block
  omega

/-- Whether two bytes are the header of a stream that can be inflated: the right method, a window of
at most 32 KiB, no preset dictionary, and a check that makes the two a multiple of 31. -/
def validHeader (method flags : UInt8) : Bool :=
  (method.toNat * 256 + flags.toNat) % 31 = 0 &&
    method.toNat % 16 = 8 && method.toNat / 16 ≤ 7 && !flags.toNat.testBit 5

/-- The bytes a stream inflates to, if they are no more than `bound`. Bytes after the end of the
stream do not matter. -/
def inflate (bound : Nat) : Bytes → Run Output
  | method :: flags :: body =>
    if validHeader method flags then
      match blocks bound #[] (Bits.ofBytes body) with
      | .error e => .error e
      | .ok (out, rest) =>
        let (check, _) := Bits.bytes 4 (Bits.align rest)
        if check.length < 4 then .error (.truncated, out)
        else if Bytes.toNat check.reverse = checksum out.toList then .ok out
        else .error (.corrupt, out)
    else .error (.corrupt, #[])
  | _ => .error (.truncated, #[])

end GamePlugin.Zlib
