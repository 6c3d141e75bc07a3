import GamePlugin.Payload
import GamePlugin.Proofs.Words

/-!
# Inflating the announced bytes

A compressed payload announces its plain size and goes on with a stream. If the stream inflates to
some bytes at all, it does so with any room that they fit in, whatever comes after it, and in less
room it stops exactly when the room is used up (`Zlib.Inflates.yields`). Inflating has room for at
least one byte more than announced, so the outcome is decided by three numbers: the limit, the
announced size and the size of the bytes (`Payload.inflate_of_inflates`).

Which stream is written for a payload is up to the deflater. All that is asked of it is that its
stream for the payload inflates to the payload; the announced size then agrees, and the payload
survives being compressed (`Payload.inflate_deflate`).

## Main definitions

* `Zlib.Yields` — what a part of a stream puts out, with room and without.
* `Zlib.Inflates` — a stream that inflates to the given bytes.
-/

namespace GamePlugin.Zlib

/-! ## Bytes after a stream -/

namespace Bits

/-- The bits with more bytes after them. -/
def append (bits : Bits) (more : Bytes) : Bits := ⟨bits.started, bits.whole ++ more⟩

variable {bits rest : Bits}

theorem next?_append {b : Bool} (h : bits.next? = some (b, rest)) (more : Bytes) :
    (bits.append more).next? = some (b, rest.append more) := by
  obtain ⟨started, whole⟩ := bits
  cases started with
  | cons c started =>
    cases h
    rfl
  | nil =>
    cases whole with
    | nil => cases h
    | cons c whole =>
      cases h
      rfl

theorem number_append {n value : Nat} (h : number n bits = some (value, rest)) (more : Bytes) :
    number n (bits.append more) = some (value, rest.append more) := by
  induction n generalizing bits value with
  | zero =>
    cases h
    rfl
  | succ n ih =>
    simp only [number] at h
    split at h
    · cases h
    rename_i hnext
    split at h
    · cases h
    rename_i hnumber
    cases h
    simp only [number, next?_append hnext, ih hnumber]

end Bits

namespace Code

variable {code : Code} {bits rest : Bits} {s : Nat}

theorem walk_append (h : code.walk bits = .ok (s, rest)) (more : Bytes) :
    code.walk (bits.append more) = .ok (s, rest.append more) := by
  induction code generalizing bits with
  | missing => cases h
  | symbol t =>
    cases h
    rfl
  | branch zero one ihz iho =>
    simp only [walk] at h ⊢
    split at h
    · cases h
    rename_i hnext
    rw [Bits.next?_append hnext]
    split at h
    case isTrue hb =>
      simp only [hb, if_true]
      exact iho h
    case isFalse hb =>
      simp only [hb]
      exact ihz h

theorem next_append (h : code.next bits = .ok (s, rest)) (more : Bytes) :
    code.next (bits.append more) = .ok (s, rest.append more) := by
  simp only [next] at h ⊢
  split at h
  · cases h
  rename_i hnext
  rw [Bits.next?_append hnext]
  exact walk_append h more

end Code

variable {bits rest : Bits}

theorem extended_append {table : List (Nat × Nat)} {s value : Nat}
    (h : extended table s bits = .ok (value, rest)) (more : Bytes) :
    extended table s (bits.append more) = .ok (value, rest.append more) := by
  simp only [extended] at h ⊢
  split at h
  · cases h
  split at h
  · cases h
  rename_i hnumber
  cases h
  rw [Bits.number_append hnumber]

theorem reference_append {distances : Code} {s length distance : Nat}
    (h : reference distances s bits = .ok (length, distance, rest)) (more : Bytes) :
    reference distances s (bits.append more) = .ok (length, distance, rest.append more) := by
  simp only [reference] at h ⊢
  split at h
  · cases h
  rename_i hlength
  split at h
  · cases h
  rename_i hnext
  split at h
  · cases h
  rename_i hdistance
  cases h
  simp only [extended_append hlength, Code.next_append hnext, extended_append hdistance]

theorem numbers_append {width count : Nat} {values : List Nat}
    (h : numbers width count bits = some (values, rest)) (more : Bytes) :
    numbers width count (bits.append more) = some (values, rest.append more) := by
  induction count generalizing bits values with
  | zero =>
    cases h
    rfl
  | succ count ih =>
    simp only [numbers] at h ⊢
    split at h
    · cases h
    rename_i hnumber
    split at h
    · cases h
    rename_i hnumbers
    cases h
    simp only [Bits.number_append hnumber, ih hnumbers]

theorem lengthRun_append {lengths : Array Nat} {s value n : Nat}
    (h : lengthRun lengths s bits = .ok (value, n, rest)) (more : Bytes) :
    lengthRun lengths s (bits.append more) = .ok (value, n, rest.append more) := by
  simp only [lengthRun] at h ⊢
  split at h
  case isTrue hs =>
    simp only [if_pos hs]
    cases hback : lengths.back? with
    | none => simp only [hback] at h; cases h
    | some previous =>
      simp only [hback] at h ⊢
      split at h
      · cases h
      rename_i hnumber
      cases h
      simp only [Bits.number_append hnumber]
  case isFalse hs =>
    simp only [if_neg hs]
    split at h
    case isTrue hs' =>
      split at h
      · cases h
      rename_i hnumber
      cases h
      simp only [if_pos hs', Bits.number_append hnumber]
    case isFalse hs' =>
      split at h
      · cases h
      rename_i hnumber
      cases h
      simp only [if_neg hs', Bits.number_append hnumber]

theorem codeLengths_append {code : Code} {total : Nat} {lengths lengths' : Array Nat}
    (h : codeLengths code total lengths bits = .ok (lengths', rest)) (more : Bytes) :
    codeLengths code total lengths (bits.append more) = .ok (lengths', rest.append more) := by
  fun_induction codeLengths code total lengths bits with
  | case1 | case3 | case6 => cases h
  | case2 lengths bits hlt s rest' hnext hs ih =>
    have hnext' := Code.next_append hnext more
    rw [codeLengths, if_pos hlt]
    split
    case h_1 hnone => rw [hnext'] at hnone; cases hnone
    case h_2 hsome =>
      rw [hnext'] at hsome
      cases hsome
      rw [if_pos hs]
      exact ih h
  | case4 lengths bits hlt s rest' hnext hs value n rest'' hrun ih =>
    have hnext' := Code.next_append hnext more
    have hrun' := lengthRun_append hrun more
    rw [codeLengths, if_pos hlt]
    split
    case h_1 hnone => rw [hnext'] at hnone; cases hnone
    case h_2 hsome =>
      rw [hnext'] at hsome
      cases hsome
      rw [if_neg hs]
      split
      case h_1 hnone => rw [hrun'] at hnone; cases hnone
      case h_2 hsome =>
        rw [hrun'] at hsome
        cases hsome
        exact ih h
  | case5 lengths bits hlt htotal =>
    cases h
    rw [codeLengths, if_neg hlt, if_pos htotal]

theorem describedCodes_append {literals distances : Code}
    (h : describedCodes bits = .ok (literals, distances, rest)) (more : Bytes) :
    describedCodes (bits.append more) = .ok (literals, distances, rest.append more) := by
  simp only [describedCodes] at h ⊢
  split at h
  · cases h
  rename_i hsizes
  split at h
  · cases h
  rename_i hcounts
  split at h
  · cases h
  rename_i hgiven
  split at h
  · cases h
  rename_i hcode
  split at h
  · cases h
  rename_i hlengths
  split at h
  · cases h
  rename_i hliterals
  split at h
  · cases h
  rename_i hdistances
  cases h
  simp only [Bits.number_append hsizes, if_neg hcounts, numbers_append hgiven, hcode,
    codeLengths_append hlengths, hliterals, hdistances]

/-! ## Bounds -/

/-- A run with room for all its output ends as given, whatever bytes come after, and with less room
it stops when the room is used up. -/
structure Yields (run : Nat → Bits → Run (Output × Bits)) (out : Output) (bits : Bits)
    (out' : Output) (rest : Bits) : Prop where
  size_le : out.size ≤ out'.size
  ok : ∀ {bound}, out'.size ≤ bound → ∀ more,
    run bound (bits.append more) = .ok (out', rest.append more)
  full : ∀ {bound}, out.size ≤ bound → bound < out'.size → ∀ more,
    ∃ cut, run bound (bits.append more) = .error (.full, cut) ∧ cut.size = bound

theorem size_copy (distance n : Nat) (out : Output) :
    (copy distance n out).size = out.size + n := by
  induction n generalizing out with
  | zero => rfl
  | succ n ih =>
    rw [copy, ih, Array.size_push]
    omega

section Symbols

variable {bound s : Nat} {literals distances : Code} {out : Output}

theorem symbols_of_literal (hnext : literals.next bits = .ok (s, rest)) (hs : s < 256) :
    symbols bound literals distances out bits =
      if out.size < bound then symbols bound literals distances (out.push (UInt8.ofNat s)) rest
      else .error (.full, out) := by
  rw [symbols]
  split
  case h_1 hnone => rw [hnext] at hnone; cases hnone
  case h_2 hsome =>
    rw [hnext] at hsome
    cases hsome
    rw [if_pos hs]

theorem symbols_of_stop (hnext : literals.next bits = .ok (256, rest)) :
    symbols bound literals distances out bits = .ok (out, rest) := by
  rw [symbols]
  split
  case h_1 hnone => rw [hnext] at hnone; cases hnone
  case h_2 hsome =>
    rw [hnext] at hsome
    cases hsome
    rfl

theorem symbols_of_reference {length distance : Nat} {rest' : Bits}
    (hnext : literals.next bits = .ok (s, rest)) (hliteral : ¬s < 256) (hstop : s ≠ 256)
    (hreference : reference distances s rest = .ok (length, distance, rest')) :
    symbols bound literals distances out bits =
      if bound - out.size < length then .error (.full, copy distance (bound - out.size) out)
      else symbols bound literals distances (copy distance length out) rest' := by
  rw [symbols]
  split
  case h_1 hnone => rw [hnext] at hnone; cases hnone
  case h_2 hsome =>
    rw [hnext] at hsome
    cases hsome
    rw [if_neg hliteral, if_neg hstop]
    split
    case h_1 hnone => rw [hreference] at hnone; cases hnone
    case h_2 hsome =>
      rw [hreference] at hsome
      cases hsome
      rfl

end Symbols

variable {bound : Nat} {out out' : Output}

theorem yields_symbols {literals distances : Code}
    (h : symbols bound literals distances out bits = .ok (out', rest)) :
    Yields (symbols · literals distances out) out bits out' rest := by
  fun_induction symbols bound literals distances out bits with
  | case1 | case3 | case5 | case6 => cases h
  | case2 out bits s rest' hnext hs hroom ih =>
    obtain ⟨hle, hok, hfull⟩ := ih h
    rw [Array.size_push] at hle
    refine ⟨by omega, fun {bound} hbound more => ?_, fun {bound} hout hbound more => ?_⟩
    · rw [symbols_of_literal (Code.next_append hnext more) hs, if_pos (by omega)]
      exact hok hbound more
    · rw [symbols_of_literal (Code.next_append hnext more) hs]
      split
      case isTrue hroom =>
        exact hfull (by rw [Array.size_push]; omega) hbound more
      case isFalse hroom => exact ⟨out, rfl, by omega⟩
  | case4 out bits rest' hnext =>
    cases h
    refine ⟨Nat.le_refl _, fun _ more => ?_, fun _ _ => by omega⟩
    exact symbols_of_stop (Code.next_append hnext more)
  | case7 out bits s rest' hnext hs hstop length distance rest'' hreference room hroom ih =>
    obtain ⟨hle, hok, hfull⟩ := ih h
    rw [size_copy] at hle
    refine ⟨by omega, fun {bound} hbound more => ?_, fun {bound} hout hbound more => ?_⟩
    · rw [symbols_of_reference (Code.next_append hnext more) hs hstop
        (reference_append hreference more), if_neg (by omega)]
      exact hok hbound more
    · rw [symbols_of_reference (Code.next_append hnext more) hs hstop
        (reference_append hreference more)]
      split
      case isTrue hcut => exact ⟨_, rfl, by rw [size_copy]; omega⟩
      case isFalse hcut => exact hfull (by rw [size_copy]; omega) hbound more

/-- A block of plain bytes that are all there. -/
theorem stored_of_whole (bound : Nat) (out : Output) (bits : Bits) {length check : Nat}
    {bits₁ bits₂ : Bits}
    (hlength : Bits.number 16 bits.align = some (length, bits₁))
    (hcheck : Bits.number 16 bits₁ = some (check, bits₂)) (hsum : length + check = 0xFFFF)
    (hwhole : length ≤ bits₂.whole.length) :
    stored bound out bits =
      if bound - out.size < length then .error (.full, out ++ bits₂.whole.take (bound - out.size))
      else .ok (out ++ bits₂.whole.take length, ⟨[], bits₂.whole.drop length⟩) := by
  have hthere (n : Nat) : ¬(bits₂.whole.take (min length n)).length < min length n := by
    rw [List.length_take]
    omega
  simp only [stored, hlength, hcheck, hsum, ne_eq, not_true_eq_false, if_false, Bits.bytes, hthere]
  split
  case isTrue hroom => rw [Nat.min_eq_right (Nat.le_of_lt hroom)]
  case isFalse hroom => rw [Nat.min_eq_left (Nat.le_of_not_lt hroom)]

theorem size_append_take {bs : Bytes} {n : Nat} (h : n ≤ bs.length) (out : Output) :
    (out ++ bs.take n).size = out.size + n := by
  rw [← Array.length_toList, Array.toList_appendList, List.length_append,
    List.length_take_of_le h, Array.length_toList]

theorem yields_stored (h : stored bound out bits = .ok (out', rest)) :
    Yields (stored · out) out bits out' rest := by
  simp only [stored] at h
  split at h
  · cases h
  rename_i length bits₁ hlength
  split at h
  · cases h
  rename_i check bits₂ hcheck
  split at h
  · cases h
  rename_i hsum
  split at h
  · cases h
  rename_i hwhole
  split at h
  · cases h
  rename_i hroom
  cases h
  simp only [Bits.bytes, List.length_take, Nat.min_eq_left (Nat.le_of_not_lt hroom)] at hwhole ⊢
  have hlen : length ≤ bits₂.whole.length := by omega
  have hstored (bound : Nat) (more : Bytes) := stored_of_whole bound out (bits.append more)
    (Bits.number_append hlength more) (Bits.number_append hcheck more) (Decidable.not_not.mp hsum)
    (by rw [Bits.append, List.length_append]; omega)
  have hsize := size_append_take hlen out
  refine ⟨by omega, fun {bound} hbound more => ?_, fun {bound} hout hbound more => ?_⟩
  · rw [hstored, if_neg (by omega)]
    simp only [Bits.append, List.take_append_of_le_length hlen,
      List.drop_append_of_le_length hlen]
  · rw [hstored, if_pos (by omega)]
    refine ⟨_, rfl, ?_⟩
    rw [size_append_take (by rw [Bits.append, List.length_append]; omega)]
    omega

theorem yields_block {kind : Nat} (h : block bound kind out bits = .ok (out', rest)) :
    Yields (block · kind out) out bits out' rest := by
  simp only [block] at h
  split at h
  · exact yields_stored h
  · exact yields_symbols h
  · split at h
    · cases h
    rename_i literals distances bits' hcodes
    obtain ⟨hle, hok, hfull⟩ := yields_symbols h
    refine ⟨hle, fun hbound more => ?_, fun hout hbound more => ?_⟩
    · simp only [block, describedCodes_append hcodes more, hok hbound more]
    · simpa only [block, describedCodes_append hcodes more] using hfull hout hbound more
  · cases h

section Blocks

variable {n : Nat}

theorem blocks_of_ok {rest' : Bits} (hheader : Bits.number 3 bits = some (n, rest))
    (hblock : block bound (n / 2) out rest = .ok (out', rest')) :
    blocks bound out bits =
      if n % 2 = 1 then .ok (out', rest') else blocks bound out' rest' := by
  rw [blocks]
  split
  case h_1 hnone => rw [hheader] at hnone; cases hnone
  case h_2 hsome =>
    rw [hheader] at hsome
    cases hsome
    split
    case h_1 herror => rw [hblock] at herror; cases herror
    case h_2 hok =>
      rw [hblock] at hok
      cases hok
      rfl

theorem blocks_of_error {e : Fault × Output} (hheader : Bits.number 3 bits = some (n, rest))
    (hblock : block bound (n / 2) out rest = .error e) : blocks bound out bits = .error e := by
  rw [blocks]
  split
  case h_1 hnone => rw [hheader] at hnone; cases hnone
  case h_2 hsome =>
    rw [hheader] at hsome
    cases hsome
    split
    case h_1 herror =>
      rw [hblock] at herror
      cases herror
      rfl
    case h_2 hok => rw [hblock] at hok; cases hok

end Blocks

theorem yields_blocks (h : blocks bound out bits = .ok (out', rest)) :
    Yields (blocks · out) out bits out' rest := by
  fun_induction blocks bound out bits with
  | case1 | case2 => cases h
  | case3 out bits header rest' hheader out₁ rest₁ hblock hlast =>
    cases h
    obtain ⟨hle, hok, hfull⟩ := yields_block hblock
    refine ⟨hle, fun hbound more => ?_, fun hout hbound more => ?_⟩
    · rw [blocks_of_ok (Bits.number_append hheader more) (hok hbound more), if_pos hlast]
    · obtain ⟨cut, hcut, hsize⟩ := hfull hout hbound more
      exact ⟨cut, blocks_of_error (Bits.number_append hheader more) hcut, hsize⟩
  | case4 out bits header rest' hheader out₁ rest₁ hblock hlast ih =>
    obtain ⟨hle, hok, hfull⟩ := yields_block hblock
    obtain ⟨hle', hok', hfull'⟩ := ih h
    refine ⟨by omega, fun {bound} hbound more => ?_, fun {bound} hout hbound more => ?_⟩
    · rw [blocks_of_ok (Bits.number_append hheader more) (hok (by omega) more), if_neg hlast]
      exact hok' hbound more
    · by_cases hfirst : out₁.size ≤ bound
      · rw [blocks_of_ok (Bits.number_append hheader more) (hok hfirst more), if_neg hlast]
        exact hfull' hfirst hbound more
      · obtain ⟨cut, hcut, hsize⟩ := hfull hout (by omega) more
        exact ⟨cut, blocks_of_error (Bits.number_append hheader more) hcut, hsize⟩

/-! ## Whole streams -/

/-- The stream inflates to the bytes, if there is room for them. What comes after the stream does
not matter. -/
def Inflates (stream plain : Bytes) : Prop := ∃ bound, inflate bound stream = .ok plain.toArray

theorem inflate_of_blocks {method flags : UInt8} {body : Bytes} (hvalid : validHeader method flags)
    (hblocks : blocks bound #[] (Bits.ofBytes body) = .ok (out, rest))
    (hsum : 4 ≤ rest.whole.length)
    (hcheck : Bytes.toNat (rest.whole.take 4).reverse = checksum out.toList) :
    inflate bound (method :: flags :: body) = .ok out := by
  have hlen : ¬(rest.whole.take 4).length < 4 := by
    rw [List.length_take]
    omega
  simp only [inflate, hvalid, if_true, hblocks, Bits.bytes, Bits.align, hlen, if_false, hcheck]

theorem Inflates.yields {stream plain : Bytes} (h : Inflates stream plain) (bound : Nat)
    (more : Bytes) :
    (plain.length ≤ bound → inflate bound (stream ++ more) = .ok plain.toArray) ∧
    (bound < plain.length →
      ∃ cut, inflate bound (stream ++ more) = .error (.full, cut) ∧ cut.size = bound) := by
  obtain ⟨bound₀, h⟩ := h
  rw [inflate.eq_def] at h
  split at h
  case h_2 => cases h
  case h_1 method flags body =>
    split at h
    case isFalse => cases h
    case isTrue hvalid =>
      split at h
      case h_1 => cases h
      case h_2 out rest hblocks =>
        dsimp only [Bits.bytes, Bits.align] at h
        split at h
        · cases h
        rename_i hlen
        split at h
        case isFalse => cases h
        case isTrue hcheck =>
        cases h
        obtain ⟨-, hok, hfull⟩ := yields_blocks hblocks
        rw [List.length_take] at hlen
        constructor
        · intro hbound
          refine inflate_of_blocks hvalid (hok (by simpa using hbound) more) ?_ ?_
          · simp only [Bits.append, List.length_append]
            omega
          · rw [Bits.append, List.take_append_of_le_length (by omega)]
            exact hcheck
        · intro hbound
          obtain ⟨cut, hcut, hsize⟩ := hfull (Nat.zero_le _) (by simpa using hbound) more
          refine ⟨cut, ?_, hsize⟩
          have hcut : blocks bound #[] (Bits.ofBytes (body ++ more)) = .error (.full, cut) := hcut
          simp only [List.cons_append, inflate, hvalid, if_true, hcut]

end GamePlugin.Zlib

namespace GamePlugin.Payload

open Zlib

section Announced

variable {expected : UInt32} {stream : Bytes} {limit : Nat}

/-- There is room for one byte more than announced. -/
theorem lt_window (n : Nat) : n < (n / window + 1) * window := by
  rw [window]
  omega

theorem inflate_of_limit_lt (hlimit : limit < expected.toNat) (form : FormId) :
    inflate (Bytes.ofUInt32 expected ++ stream) form limit =
      .error (.memoryLimit expected.toNat limit) := by
  have hlong : ¬(Bytes.ofUInt32 expected ++ stream).length < 4 := by simp
  simp only [inflate, if_neg hlong, Bytes.word32_ofUInt32_append, if_pos hlimit]
  rfl

theorem inflate_of_ok (hlimit : expected.toNat ≤ limit) {out : Output}
    (h : inflateStream expected.toNat stream = .ok out) (form : FormId) :
    inflate (Bytes.ofUInt32 expected ++ stream) form limit =
      if expected.toNat = out.size then .ok out.toList
      else .error (.inflatedSize form expected.toNat (min out.size (expected.toNat + 1))) := by
  have hlong : ¬(Bytes.ofUInt32 expected ++ stream).length < 4 := by simp
  have hdrop : (Bytes.ofUInt32 expected ++ stream).drop 4 = stream :=
    List.drop_left' (Bytes.length_ofUInt32 expected)
  simp only [inflate, if_neg hlong, Bytes.word32_ofUInt32_append, if_neg (Nat.not_lt.mpr hlimit),
    hdrop, h, eq_comm (a := out.size)]
  rfl

theorem inflate_of_full (hlimit : expected.toNat ≤ limit) {out : Output}
    (h : inflateStream expected.toNat stream = .error (.full, out))
    (hout : expected.toNat < out.size) (form : FormId) :
    inflate (Bytes.ofUInt32 expected ++ stream) form limit =
      .error (.inflatedSize form expected.toNat (expected.toNat + 1)) := by
  have hlong : ¬(Bytes.ofUInt32 expected ++ stream).length < 4 := by simp
  have hdrop : (Bytes.ofUInt32 expected ++ stream).drop 4 = stream :=
    List.drop_left' (Bytes.length_ofUInt32 expected)
  simp only [inflate, if_neg hlong, Bytes.word32_ofUInt32_append, if_neg (Nat.not_lt.mpr hlimit),
    hdrop, h, if_pos hout, Nat.min_eq_right hout]
  rfl

end Announced

/-- What becomes of a payload whose stream inflates to the given bytes: the announced size must be
within the limit, and then it must be theirs. -/
theorem inflate_of_inflates {stream plain : Bytes} (h : Inflates stream plain) (more : Bytes)
    (expected : UInt32) (form : FormId) (limit : Nat) :
    inflate (Bytes.ofUInt32 expected ++ (stream ++ more)) form limit =
      if limit < expected.toNat then .error (.memoryLimit expected.toNat limit)
      else if expected.toNat = plain.length then .ok plain
      else .error (.inflatedSize form expected.toNat (min plain.length (expected.toNat + 1))) := by
  have hroom := lt_window expected.toNat
  obtain ⟨hok, hfull⟩ := h.yields ((expected.toNat / window + 1) * window) more
  by_cases hlimit : limit < expected.toNat
  · rw [if_pos hlimit, inflate_of_limit_lt hlimit]
  rw [if_neg hlimit]
  by_cases hfits : plain.length ≤ (expected.toNat / window + 1) * window
  · rw [inflate_of_ok (Nat.le_of_not_lt hlimit) (hok hfits), List.size_toArray]
  · obtain ⟨cut, hcut, hsize⟩ := hfull (Nat.lt_of_not_le hfits)
    rw [inflate_of_full (Nat.le_of_not_lt hlimit) hcut (by omega), if_neg (by omega),
      Nat.min_eq_right (by omega)]

/-- The stream in a compressed payload is the deflater's. -/
theorem drop_deflate (deflater : Bytes → Bytes) (plain : Bytes) :
    (deflate deflater plain).drop 4 = deflater plain :=
  List.drop_left' (Bytes.length_ofNat 4 plain.length)

theorem inflate_deflate {plain : Bytes} (hlt : plain.length < UInt32.size)
    {deflater : Bytes → Bytes} (hdeflater : Inflates (deflater plain) plain) (form : FormId)
    {limit : Nat} (hlimit : plain.length ≤ limit) :
    inflate (deflate deflater plain) form limit = .ok plain := by
  have hsize : (UInt32.ofNat plain.length).toNat = plain.length := UInt32.toNat_ofNat_of_lt' hlt
  have h := inflate_of_inflates hdeflater [] (.ofNat plain.length) form limit
  rw [hsize, if_neg (Nat.not_lt.mpr hlimit), if_pos rfl, List.append_nil,
    Bytes.ofUInt32_ofNat] at h
  exact h

/-- **Inflating gives exactly the announced bytes.** A stream that inflates to the given bytes, with
an announced size before it and anything after it, is refused if more than the limit is announced,
gives the bytes if their size is announced, and else fails with the size they have, up to the first
byte too many. If the deflater's stream for the bytes inflates to them, then the stream in their
compressed payload is of this kind, and the payload is given back. -/
theorem inflate_announced {plain : Bytes} (hlt : plain.length < UInt32.size)
    (deflater : Bytes → Bytes) (hdeflater : Inflates (deflater plain) plain) :
    (∀ {stream : Bytes}, Inflates stream plain →
      ∀ (more : Bytes) (expected : UInt32) (form : FormId) (limit : Nat),
        inflate (Bytes.ofUInt32 expected ++ (stream ++ more)) form limit =
          if limit < expected.toNat then .error (.memoryLimit expected.toNat limit)
          else if expected.toNat = plain.length then .ok plain
          else .error
            (.inflatedSize form expected.toNat (min plain.length (expected.toNat + 1)))) ∧
    Inflates ((deflate deflater plain).drop 4) plain ∧
    ∀ (form : FormId) {limit : Nat}, plain.length ≤ limit →
      inflate (deflate deflater plain) form limit = .ok plain := by
  refine ⟨inflate_of_inflates, ?_, inflate_deflate hlt hdeflater⟩
  rw [drop_deflate]
  exact hdeflater

/-- The text `short`. -/
def shortText : Bytes := [115, 104, 111, 114, 116]

/-- The stream of a usual deflater for it: one block of literal bytes in the fixed code. -/
def shortStream : Bytes := [120, 156, 43, 206, 200, 47, 42, 1, 0, 6, 137, 2, 49]

/-- The deflater gives this stream. Too much is announced and too little, with a byte after the
stream, and then the right size. -/
theorem inflate_announced_shortText :
    let deflater : Bytes → Bytes := fun _ => shortStream
    shortText.length < UInt32.size ∧ Inflates (deflater shortText) shortText ∧
    inflate (Bytes.ofUInt32 9 ++ (shortStream ++ [255])) ⟨2⟩ 9 = .error (.inflatedSize ⟨2⟩ 9 5) ∧
    inflate (Bytes.ofUInt32 3 ++ (shortStream ++ [255])) ⟨3⟩ 9 = .error (.inflatedSize ⟨3⟩ 3 4) ∧
    inflate (deflate deflater shortText) ⟨1⟩ 5 = .ok shortText := by
  intro deflater
  have hdeflater : Inflates shortStream shortText := by
    have hsome : (Zlib.inflate 5 shortStream).toOption = some shortText.toArray := by
      decide +kernel
    refine ⟨5, ?_⟩
    cases hrun : Zlib.inflate 5 shortStream with
    | error e => rw [hrun] at hsome; cases hsome
    | ok out => rw [hrun] at hsome; rw [Option.some.inj hsome]
  have hlt : shortText.length < UInt32.size := by decide
  obtain ⟨hall, -, hback⟩ := inflate_announced hlt deflater hdeflater
  exact ⟨hlt, hdeflater, hall hdeflater [255] 9 ⟨2⟩ 9, hall hdeflater [255] 3 ⟨3⟩ 9,
    hback ⟨1⟩ (by decide)⟩

end GamePlugin.Payload
