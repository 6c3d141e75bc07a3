import GamePlugin.Proofs.Readers
import GamePlugin.Tag.Names
import Mathlib.Data.List.Basic

/-!
# Stored text is read back

Reading gives back every text that was stored, though it never fails on bytes that are no text.
`Text.Utf8.Spells` says that bytes are a whole character: a lead byte and all that it announces.
What stands behind a whole character does not matter for reading it, and the bytes that a character
is stored in are one, so a text is read back character by character.

Whole characters never spell a number that is no character, and the zero character is spelled by the
zero byte alone. So a text that is read from the bytes before a zero byte has no zero character, and
a text that has none can be stored with a zero byte behind it, and anything behind that.

## Main definitions

* `Text.Utf8.Follow` — bytes that can follow a lead byte.
* `Text.Utf8.Spells` — bytes that are a whole character.
-/

namespace GamePlugin

namespace Text.Utf8

/-! ## Lead bytes -/

/-- The lead of a character in two bytes. -/
def Lead.two (p : Nat) : Lead := ⟨1, 0x80, 0xBF, p⟩

/-- The lead of a character in three bytes. The first share has no characters that fit two bytes,
and the one before the last but one no surrogates. -/
def Lead.three (p : Nat) : Lead :=
  ⟨2, if p = 0 then 0xA0 else 0x80, if p = 13 then 0x9F else 0xBF, p⟩

/-- The lead of a character in four bytes. The first share has no characters that fit three bytes,
and the last ends with the last code point. -/
def Lead.four (p : Nat) : Lead :=
  ⟨3, if p = 0 then 0x90 else 0x80, if p = 4 then 0x8F else 0xBF, p⟩

theorem Lead.toNat_low_three (p : Nat) : (three p).low.toNat = if p = 0 then 160 else 128 :=
  apply_ite UInt8.toNat ..

theorem Lead.toNat_high_three (p : Nat) : (three p).high.toNat = if p = 13 then 159 else 191 :=
  apply_ite UInt8.toNat ..

theorem Lead.toNat_low_four (p : Nat) : (four p).low.toNat = if p = 0 then 144 else 128 :=
  apply_ite UInt8.toNat ..

theorem Lead.toNat_high_four (p : Nat) : (four p).high.toNat = if p = 4 then 143 else 191 :=
  apply_ite UInt8.toNat ..

theorem lead_of_lt {b : UInt8} (h : b < 0x80) : lead b = some ⟨0, 0x80, 0xBF, b.toNat⟩ := if_pos h

theorem lead_two : ∀ p < 32, 2 ≤ p → lead (UInt8.ofNat (p + 192)) = some (.two p) := by decide

theorem lead_three : ∀ p < 16, lead (UInt8.ofNat (p + 224)) = some (.three p) := by decide

theorem lead_four : ∀ p < 5, lead (UInt8.ofNat (p + 240)) = some (.four p) := by decide

theorem lead_eq_none : ∀ n < 256, 128 ≤ n ∧ n < 194 ∨ 245 ≤ n → lead (UInt8.ofNat n) = none := by
  decide +kernel

/-- There are no other lead bytes. -/
theorem lead_cases {b : UInt8} {l : Lead} (h : lead b = some l) :
    l = ⟨0, 0x80, 0xBF, b.toNat⟩ ∧ b < 0x80 ∨ (∃ p, l = .two p ∧ 2 ≤ p ∧ p < 32) ∨
      (∃ p, l = .three p ∧ p < 16) ∨ ∃ p, l = .four p ∧ p < 5 := by
  have hb := b.toNat_lt
  have heq {k : Nat} (hk : k ≤ b.toNat) : UInt8.ofNat (b.toNat - k + k) = b := by
    rw [Nat.sub_add_cancel hk, UInt8.ofNat_toNat]
  by_cases hone : b.toNat < 128
  · have hlt : b < 0x80 := UInt8.lt_iff_toNat_lt.mpr hone
    exact .inl ⟨Option.some.inj (h.symm.trans (lead_of_lt hlt)), hlt⟩
  by_cases hnone : b.toNat < 194 ∨ 245 ≤ b.toNat
  · have hlead := lead_eq_none b.toNat hb (by omega)
    rw [UInt8.ofNat_toNat, h] at hlead
    cases hlead
  by_cases htwo : b.toNat < 224
  · have hlead := lead_two (b.toNat - 192) (by omega) (by omega)
    rw [heq (by omega), h] at hlead
    exact .inr (.inl ⟨_, Option.some.inj hlead, by omega, by omega⟩)
  by_cases hthree : b.toNat < 240
  · have hlead := lead_three (b.toNat - 224) (by omega)
    rw [heq (by omega), h] at hlead
    exact .inr (.inr (.inl ⟨_, Option.some.inj hlead, by omega⟩))
  · have hlead := lead_four (b.toNat - 240) (by omega)
    rw [heq (by omega), h] at hlead
    exact .inr (.inr (.inr ⟨_, Option.some.inj hlead, by omega⟩))

theorem low_pos_of_lead {b : UInt8} {l : Lead} (h : lead b = some l) : 0 < l.low := by
  have hgeneral : (0 : UInt8) < 0x80 := by decide
  rcases lead_cases h with ⟨rfl, -⟩ | ⟨p, rfl, -⟩ | ⟨p, rfl, -⟩ | ⟨p, rfl, -⟩
  · exact hgeneral
  · exact hgeneral
  · rw [UInt8.lt_iff_toNat_lt, Lead.toNat_low_three]
    split <;> decide
  · rw [UInt8.lt_iff_toNat_lt, Lead.toNat_low_four]
    split <;> decide

/-! ## Bytes that follow -/

/-- The bytes can follow a lead byte: the first of them is within the given range, and each later
one within the general one. -/
def Follow (low high : UInt8) : Bytes → Prop
  | [] => True
  | b :: bs => (low ≤ b ∧ b ≤ high) ∧ Follow 0x80 0xBF bs

theorem follow_tails (n : Nat) (low high : UInt8) (bs : Bytes) :
    Follow low high (tails n low high bs) := by
  fun_induction tails n low high bs with
  | case1 | case2 | case4 => exact trivial
  | case3 n low high b bs hb ih => exact ⟨hb, ih⟩

theorem tails_isPrefix (n : Nat) (low high : UInt8) (bs : Bytes) :
    tails n low high bs <+: bs := by
  fun_induction tails n low high bs with
  | case1 | case2 | case4 => exact List.nil_prefix
  | case3 n low high b bs hb ih => exact (List.prefix_cons_inj b).mpr ih

theorem tails_of_follow {low high : UInt8} {ts : Bytes} (h : Follow low high ts) (rest : Bytes) :
    tails ts.length low high (ts ++ rest) = ts := by
  induction ts generalizing low high with
  | nil => rw [List.length_nil, tails]
  | cons t ts ih => rw [List.length_cons, List.cons_append, tails, if_pos h.1, ih h.2]

theorem Follow.zero_notMem {low high : UInt8} {ts : Bytes} (h : Follow low high ts)
    (hlow : 0 < low) : 0 ∉ ts := by
  induction ts generalizing low high with
  | nil => exact List.not_mem_nil
  | cons t ts ih =>
    obtain ⟨⟨ht, -⟩, hts⟩ := h
    rw [List.mem_cons]
    rintro (rfl | hzero)
    · exact UInt8.not_lt.mpr ht hlow
    · exact ih hts (by decide) hzero

theorem codePoint_nil (p : Nat) : codePoint p [] = p := rfl

theorem codePoint_cons (p : Nat) (b : UInt8) (bs : Bytes) :
    codePoint p (b :: bs) = codePoint (p * 64 + b.toNat % 64) bs := rfl

/-! ## Whole characters -/

/-- The bytes are a lead byte and all the bytes that it announces, and `n` is their code point. -/
inductive Spells : Bytes → Nat → Prop
  | intro {b : UInt8} {l : Lead} {ts : Bytes} {n : Nat} (hlead : lead b = some l)
      (hlength : ts.length = l.tails) (hfollow : Follow l.low l.high ts)
      (hpoint : codePoint l.payload ts = n) : Spells (b :: ts) n

namespace Spells

variable {bs : Bytes} {n : Nat}

/-- Reading goes on behind a whole character, whatever stands there. -/
theorem decode_append (h : Spells bs n) (rest : Bytes) :
    decode (bs ++ rest) = Char.ofNat n :: decode rest := by
  obtain @⟨b, l, ts, _, hlead, hlength, hfollow, rfl⟩ := h
  have htails : tails l.tails l.low l.high (ts ++ rest) = ts := by
    rw [← hlength]
    exact tails_of_follow hfollow rest
  rw [List.cons_append, decode]
  simp only [hlead, htails, hlength, if_true]
  rw [← hlength, List.drop_left]

/-- A character is one byte for itself, or it is neither in the range of a byte nor a surrogate nor
past the last code point. -/
theorem byte_or_wide (h : Spells bs n) :
    (∃ b : UInt8, bs = [b] ∧ n = b.toNat ∧ n < 128) ∨ 0 ∉ bs ∧ 128 ≤ n ∧ n.isValidChar := by
  obtain @⟨b, l, ts, _, hlead, hlength, hfollow, rfl⟩ := h
  have hzero : 0 ∉ ts := hfollow.zero_notMem (low_pos_of_lead hlead)
  have hwide {m : Nat} (hm : 128 ≤ m ∧ m.isValidChar) (hl : l.tails ≠ 0) :
      0 ∉ b :: ts ∧ 128 ≤ m ∧ m.isValidChar := by
    refine ⟨fun hmem => ?_, hm⟩
    obtain rfl := (List.mem_cons.mp hmem).resolve_right hzero
    exact hl (Option.some.inj hlead ▸ rfl)
  rcases lead_cases hlead with ⟨rfl, hb⟩ | ⟨p, rfl, hlow, hhigh⟩ | ⟨p, rfl, hp⟩ | ⟨p, rfl, hp⟩
  · obtain rfl := List.length_eq_zero_iff.mp hlength
    exact .inl ⟨b, rfl, rfl, UInt8.lt_iff_toNat_lt.mp hb⟩
  · refine .inr (hwide ?_ Nat.one_ne_zero)
    obtain ⟨x, rfl⟩ := List.length_eq_one_iff.mp hlength
    simp only [codePoint_cons, codePoint_nil, Lead.two, Nat.isValidChar]
    omega
  · refine .inr (hwide ?_ (Nat.succ_ne_zero 1))
    obtain ⟨x, y, rfl⟩ := List.length_eq_two.mp hlength
    obtain ⟨⟨hfirst, hlast⟩, -⟩ := hfollow
    rw [UInt8.le_iff_toNat_le, Lead.toNat_low_three] at hfirst
    rw [UInt8.le_iff_toNat_le, Lead.toNat_high_three] at hlast
    simp only [codePoint_cons, codePoint_nil, Lead.three, Nat.isValidChar]
    split at hfirst <;> split at hlast <;> omega
  · refine .inr (hwide ?_ (Nat.succ_ne_zero 2))
    obtain ⟨x, y, z, rfl⟩ := List.length_eq_three.mp hlength
    obtain ⟨⟨hfirst, hlast⟩, -⟩ := hfollow
    rw [UInt8.le_iff_toNat_le, Lead.toNat_low_four] at hfirst
    rw [UInt8.le_iff_toNat_le, Lead.toNat_high_four] at hlast
    simp only [codePoint_cons, codePoint_nil, Lead.four, Nat.isValidChar]
    split at hfirst <;> split at hlast <;> omega

theorem isValidChar (h : Spells bs n) : n.isValidChar := by
  rcases h.byte_or_wide with ⟨-, -, -, hlt⟩ | ⟨-, -, hvalid⟩
  · exact .inl (Nat.lt_trans hlt (by decide))
  · exact hvalid

/-- The zero character is spelled by a zero byte, and no other character has one. -/
theorem zero_mem_iff (h : Spells bs n) : 0 ∈ bs ↔ n = 0 := by
  rcases h.byte_or_wide with ⟨b, rfl, rfl, -⟩ | ⟨hzero, hle, -⟩
  · rw [List.mem_singleton, eq_comm]
    exact UInt8.toNat_inj.symm
  · exact iff_of_false hzero (Nat.ne_of_gt (Nat.lt_of_lt_of_le (by decide) hle))

end Spells

/-! ## Texts -/

/-- The byte for the lowest six bits of a number. -/
def tail (n : Nat) : UInt8 := UInt8.ofNat (n % 64 + 128)

theorem toNat_tail (n : Nat) : (tail n).toNat = n % 64 + 128 := by
  rw [tail, UInt8.toNat_ofNat']
  omega

theorem codePoint_tail (p n : Nat) (ts : Bytes) :
    codePoint p (tail n :: ts) = codePoint (p * 64 + n % 64) ts := by
  have hlow : (n % 64 + 128) % 64 = n % 64 := by omega
  rw [codePoint_cons, toNat_tail, hlow]

theorem follow_tail {low high : UInt8} {n : Nat} {ts : Bytes} (hlow : low.toNat ≤ n % 64 + 128)
    (hhigh : n % 64 + 128 ≤ high.toNat) (h : Follow 0x80 0xBF ts) :
    Follow low high (tail n :: ts) := by
  refine ⟨⟨?_, ?_⟩, h⟩ <;> rwa [UInt8.le_iff_toNat_le, toNat_tail]

theorem follow_tail_general (n : Nat) {ts : Bytes} (h : Follow 0x80 0xBF ts) :
    Follow 0x80 0xBF (tail n :: ts) := by
  refine follow_tail (Nat.le_add_left 128 _) ?_ h
  have hlt : n % 64 + 128 ≤ 191 := by omega
  exact hlt

/-- The bytes of a character spell it. -/
theorem spells_utf8EncodeChar (c : Char) : Spells (String.utf8EncodeChar c) c.toNat := by
  have hvalid : c.toNat.isValidChar := c.valid
  simp only [String.utf8EncodeChar, Char.toNat_val]
  generalize c.toNat = v at hvalid
  split_ifs with hone htwo hthree
  · have hbyte : (UInt8.ofNat v).toNat = v := by
      rw [UInt8.toNat_ofNat']
      omega
    have hlt : UInt8.ofNat v < 0x80 := by
      rw [UInt8.lt_iff_toNat_lt, hbyte]
      exact Nat.lt_succ_of_le hone
    have hfollow : Follow 0x80 0xBF [] := trivial
    exact .intro (lead_of_lt hlt) rfl hfollow hbyte
  · have hfollow : Follow 0x80 0xBF [tail v] := follow_tail_general _ trivial
    have hpoint : codePoint (v / 64 % 32) [tail v] = v := by
      simp only [codePoint_tail, codePoint_nil]
      omega
    exact .intro (lead_two _ (by omega) (by omega)) rfl hfollow hpoint
  · have hfollow : Follow (Lead.three (v / 4096 % 16)).low (Lead.three (v / 4096 % 16)).high
        [tail (v / 64), tail v] := by
      refine follow_tail ?_ ?_ (follow_tail_general _ trivial)
      · rw [Lead.toNat_low_three]
        split <;> omega
      · rw [Lead.toNat_high_three]
        split <;> omega
    have hpoint : codePoint (v / 4096 % 16) [tail (v / 64), tail v] = v := by
      simp only [codePoint_tail, codePoint_nil]
      omega
    exact .intro (lead_three _ (by omega)) rfl hfollow hpoint
  · have hfollow : Follow (Lead.four (v / 262144 % 8)).low (Lead.four (v / 262144 % 8)).high
        [tail (v / 4096), tail (v / 64), tail v] := by
      refine follow_tail ?_ ?_ (follow_tail_general _ (follow_tail_general _ trivial))
      · rw [Lead.toNat_low_four]
        split <;> omega
      · rw [Lead.toNat_high_four]
        split <;> omega
    have hpoint : codePoint (v / 262144 % 8) [tail (v / 4096), tail (v / 64), tail v] = v := by
      simp only [codePoint_tail, codePoint_nil]
      omega
    exact .intro (lead_four _ (by omega)) rfl hfollow hpoint

theorem encode_eq (s : String) : encode s = s.toList.flatMap String.utf8EncodeChar := by
  rw [encode, String.toUTF8_eq_toByteArray, ← String.utf8Encode_toList, List.utf8Encode]
  exact List.toList_data_toByteArray

/-- Reading gives a text back from its bytes. -/
theorem decode_encode (s : String) : decode (encode s) = s.toList := by
  rw [encode_eq]
  induction s.toList with
  | nil => rw [List.flatMap_nil, decode]
  | cons c cs ih =>
    rw [List.flatMap_cons, (spells_utf8EncodeChar c).decode_append, ih, Char.ofNat_toNat]

theorem toNat_ofNat {n : Nat} (h : n.isValidChar) : (Char.ofNat n).toNat = n := by
  rw [Char.ofNat, dif_pos h]
  rfl

theorem eq_null_iff {c : Char} : '\x00' = c ↔ c.toNat = 0 := by
  rw [eq_comm, ← Char.toNat_inj]
  rfl

theorem zero_mem_encode_iff (s : String) : 0 ∈ encode s ↔ '\x00' ∈ s.toList := by
  simp only [encode_eq, List.mem_flatMap, (spells_utf8EncodeChar _).zero_mem_iff, ← eq_null_iff]
  simp

theorem null_ne_replacement : '\x00' ≠ replacement := by decide

/-- Bytes without a zero byte are read as a text without the zero character. -/
theorem null_notMem_decode {bs : Bytes} (h : 0 ∉ bs) : '\x00' ∉ decode bs := by
  fun_induction decode bs with
  | case1 => exact List.not_mem_nil
  | case2 b bs hlead ih =>
    exact List.not_mem_cons_of_ne_of_not_mem null_ne_replacement
      (ih fun hzero => h (List.mem_cons_of_mem b hzero))
  | case3 b bs l hlead ts c ih =>
    have hts : b :: ts <+: b :: bs := (List.prefix_cons_inj b).mpr (tails_isPrefix ..)
    have hc : '\x00' ≠ c := by
      simp only [c]
      split
      case isTrue hlength =>
        have hspells := Spells.intro hlead hlength (follow_tails ..) rfl
        rw [Ne, eq_null_iff, toNat_ofNat hspells.isValidChar, ← hspells.zero_mem_iff]
        exact fun hzero => h (hts.subset hzero)
      case isFalse => exact null_ne_replacement
    exact List.not_mem_cons_of_ne_of_not_mem hc
      (ih fun hzero => h (List.mem_cons_of_mem b (List.mem_of_mem_drop hzero)))

end Text.Utf8

namespace Field.Reader

variable {f : Field} {k n : Nat}

theorem text_place (h : k ≤ f.size) :
    text f (f.place k) = .ok (Text.decode (f.place k).rest) (f.place f.size) := by
  rw [← place_add_rest h]
  rfl

theorem fixedText_place (h : n ≤ f.size - k) :
    fixedText n f (f.place k) = .ok (Text.decode ((f.place k).rest.take n)) (f.place (k + n)) :=
  map_of_ok (bytes_of_le h) _

end Field.Reader

namespace Text

/-! ## Stored text -/

open Field.Reader

/-- Nothing, or a zero byte and what is behind it. -/
def Ended (rest : Bytes) : Prop := ∀ b ∈ rest.head?, b = 0

theorem ended_nil : Ended [] := by simp [Ended]

theorem ended_zero_cons (tail : Bytes) : Ended (0 :: tail) := by simp [Ended]

theorem ended_zeros (n : Nat) : Ended (Bytes.zeros n) := by
  cases n with
  | zero => exact ended_nil
  | succ n => exact ended_zero_cons (Bytes.zeros n)

/-- Only the bytes before the first zero byte are text. -/
theorem decode_append {p rest : Bytes} (hp : 0 ∉ p) (hrest : Ended rest) :
    decode (p ++ rest) = String.ofList (Utf8.decode p) := by
  have htext : ∀ b ∈ p, decide (b ≠ 0) = true := fun b hb =>
    decide_eq_true fun hzero => hp (hzero ▸ hb)
  have hend : rest.takeWhile (· ≠ 0) = [] := by
    cases rest with
    | nil => rfl
    | cons b rest => simp [hrest b rfl]
  rw [decode, List.takeWhile_append_of_pos htext, hend, List.append_nil]

theorem decode_of_zero_notMem {p : Bytes} (hp : 0 ∉ p) :
    decode p = String.ofList (Utf8.decode p) := by
  have h := decode_append hp ended_nil
  rwa [List.append_nil] at h

/-- What is read has no zero character. -/
theorem null_notMem_decode (bs : Bytes) : '\x00' ∉ (decode bs).toList := by
  have hzero : 0 ∉ bs.takeWhile (· ≠ 0) := by
    intro hmem
    have hall : (bs.takeWhile (· ≠ 0)).all (· ≠ 0) := List.all_takeWhile
    exact absurd rfl (of_decide_eq_true (List.all_eq_true.mp hall 0 hmem))
  rw [decode, String.toList_ofList]
  exact Utf8.null_notMem_decode hzero

variable {s : String} {f : Field} {k n : Nat}

/-- A text is read back if nothing comes after it, or a zero byte. -/
theorem decode_encode_append (hs : '\x00' ∉ s.toList) {rest : Bytes} (hrest : Ended rest) :
    decode (Utf8.encode s ++ rest) = s := by
  have hzero : 0 ∉ Utf8.encode s := mt (Utf8.zero_mem_encode_iff s).mp hs
  rw [decode_append hzero hrest, Utf8.decode_encode, String.ofList_toList]

theorem decode_encode (hs : '\x00' ∉ s.toList) : decode (Utf8.encode s) = s := by
  have h := decode_encode_append hs ended_nil
  rwa [List.append_nil] at h

theorem text_terminated (hs : '\x00' ∉ s.toList) (hrest : (f.place k).rest = terminated s) :
    text f (f.place k) = .ok s (f.place f.size) := by
  have hk : k ≤ f.size := by
    have hlength := f.length_rest_place k
    rw [hrest, terminated, List.length_append, List.length_singleton] at hlength
    omega
  rw [text_place hk, hrest, terminated, decode_encode_append hs (ended_zero_cons [])]

theorem length_padTo (n : Nat) (bs : Bytes) : (Bytes.padTo n bs).length = n := by
  rw [Bytes.padTo, Bytes.zeros, List.length_append, List.length_take, List.length_replicate]
  omega

theorem fixedText_padTo (hs : '\x00' ∉ s.toList) (hn : (Utf8.encode s).length ≤ n) {tail : Bytes}
    (hrest : (f.place k).rest = Bytes.padTo n (Utf8.encode s) ++ tail) :
    fixedText n f (f.place k) = .ok s (f.place (k + n)) := by
  have hlength := f.length_rest_place k
  rw [hrest, List.length_append, length_padTo] at hlength
  have hpadded : decode (Bytes.padTo n (Utf8.encode s)) = s := by
    rw [Bytes.padTo, List.take_of_length_le hn]
    exact decode_encode_append hs (ended_zeros _)
  rw [fixedText_place (by omega), hrest, List.take_left' (length_padTo n _), hpadded]

/-- **Stored text is read back.** A text without zero characters is read back from its bytes,
whatever comes after a zero byte behind them. So it is from a field that it fills with the zero byte
at its end, and from a fixed number of bytes that zeros fill up. Of any bytes, only those before the
first zero byte count, and what is read has no zero character. -/
theorem stored_text_read_back :
    (∀ s : String, '\x00' ∉ s.toList →
      decode (Utf8.encode s) = s ∧ (∀ tail, decode (Utf8.encode s ++ 0 :: tail) = s) ∧
      ∀ (f : Field) (k : Nat),
        ((f.place k).rest = terminated s → text f (f.place k) = .ok s (f.place f.size)) ∧
        ∀ n tail, (Utf8.encode s).length ≤ n →
          (f.place k).rest = Bytes.padTo n (Utf8.encode s) ++ tail →
          fixedText n f (f.place k) = .ok s (f.place (k + n))) ∧
    ∀ bs : Bytes, '\x00' ∉ (decode bs).toList ∧
      (0 ∉ bs → ∀ tail, decode (bs ++ 0 :: tail) = decode bs) := by
  refine ⟨fun s hs => ⟨decode_encode hs, fun tail => ?_, fun f k => ⟨text_terminated hs, ?_⟩⟩,
    fun bs => ⟨null_notMem_decode bs, fun hbs tail => ?_⟩⟩
  · exact decode_encode_append hs (ended_zero_cons tail)
  · exact fun n tail hn hrest => fixedText_padTo hs hn hrest
  · rw [decode_append hbs (ended_zero_cons tail), decode_of_zero_notMem hbs]

/-- A text with characters of one to four bytes, in a field of its own and in twelve bytes with one
more behind them. -/
theorem stored_text_read_back_wide :
    let s := "aé€😀"
    let field (payload : Bytes) : Field := ⟨.FULL, .WEAP, 20, .ofEdition .oblivion, payload⟩
    let name := field (terminated s)
    let fixed := field (Bytes.padTo 12 (Utf8.encode s) ++ [255])
    '\x00' ∉ s.toList ∧ (Utf8.encode s).length = 10 ∧ decode (Utf8.encode s ++ [0, 255]) = s ∧
      text name (name.place 0) = .ok s (name.place 11) ∧
      fixedText 12 fixed (fixed.place 0) = .ok s (fixed.place 12) := by
  intro s field name fixed
  have hs : '\x00' ∉ s.toList := by decide
  have hlength : (Utf8.encode s).length = 10 := by decide
  obtain ⟨-, htail, hread⟩ := stored_text_read_back.1 s hs
  exact ⟨hs, hlength, htail [255], (hread name 0).1 rfl,
    (hread fixed 0).2 12 [255] (by rw [hlength]; decide) rfl⟩

end Text

end GamePlugin
