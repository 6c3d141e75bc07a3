import GamePlugin.Proofs.Contents
import GamePlugin.Proofs.Transport

/-!
# Offsets in errors

Where a payload lies in the file is known to its readers only for the sake of their errors. If it is
moved, the same bodies are read and the same errors arise, with their offsets moved along.

A compressed payload is read where it does not lie, with offsets that count from zero, so this is
what compares it with a plain one.

## Main definitions

* `Error.moved` — an error with its offsets moved forward.
* `Field.Change.moved` — moving fields forward, which all readers respect.
-/

namespace GamePlugin

/-- The error with its offsets moved forward. -/
def Error.moved (n : Nat) : Error → Error
  | badMagic found offset => badMagic found (offset + n)
  | sizeMismatch record field offset expected actual =>
    sizeMismatch record field (offset + n) expected actual
  | groupTooSmall total headerSize offset => groupTooSmall total headerSize (offset + n)
  | groupSizeMismatch label offset expected actual =>
    groupSizeMismatch label (offset + n) (expected + n) (actual + n)
  | badEscape offset size => badEscape (offset + n) size
  | unknownTag tag offset => unknownTag tag (offset + n)
  | e => e

/-- The field moved forward in its file. -/
def Field.moved (n : Nat) (f : Field) : Field := { f with offset := f.offset + n }

/-- Moving fields forward in their file. -/
def Field.Change.moved (n : Nat) : Field.Change where
  field := Field.moved n
  error := Error.moved n
  payload _ := rfl
  tag _ := rfl
  record _ := rfl
  schema _ := rfl
  malformed _ := rfl
  sizeMismatch _ _ _ := rfl

instance (n : Nat) : (Field.Change.moved n).KeepsLocalized := ⟨fun _ => rfl⟩

namespace Fields

/-- The frame moved forward in its file. -/
def Frame.moved (n : Nat) (frame : Frame) : Frame := { frame with base := frame.base + n }

theorem Frame.base_moved_add (n pos : Nat) (frame : Frame) :
    (frame.moved n).base + pos = frame.base + pos + n := Nat.add_right_comm ..

variable {σ : Type} (sink : Sink σ) [∀ n s, Field.Reader.Respects (.moved n) (sink s)]

/-- A payload is read alike wherever it lies. -/
theorem follows_moved (n : Nat) (frame : Frame) :
    Follows id (Error.moved n) sink frame (frame.moved n) where
  schema := rfl
  record := rfl
  length := rfl
  mismatch tag pos expected actual := by
    rw [Frame.base_moved_add]
    rfl
  badEscape pos size := by
    rw [Frame.base_moved_add]
    rfl
  offer tag pos payload s := by
    rw [Frame.base_moved_add, Except.map_id]
    exact offerField_field (φ := .moved n) ⟨tag, frame.record, frame.base + pos, frame.context,
      payload⟩ s

end Fields

theorem readFields_moved {σ : Type} (sink : Sink σ)
    [∀ n s, Field.Reader.Respects (.moved n) (sink s)] (n : Nat)
    (context : Context) (record : Tag) (base : Nat) (payload : Bytes) (s : σ) :
    readFields sink context record (base + n) payload s =
      (readFields sink context record base payload s).mapError (Error.moved n) := by
  have hloop := (Fields.follows_moved sink n ⟨context, record, base, payload.length⟩).loop_eq none 0
    payload s
  rwa [Except.map_id] at hloop

/-! ## Compressed records -/

namespace RecordHeader

/-- The header with the mark of a compressed payload. -/
def compressed (h : RecordHeader) : RecordHeader := { h with flags := h.flags ||| compressedFlag }

/-- The header without the mark of a compressed payload. -/
def plain (h : RecordHeader) : RecordHeader := { h with flags := h.flags &&& ~~~compressedFlag }

theorem isCompressed_compressed (h : RecordHeader) : h.compressed.isCompressed := by
  have hflags : (h.flags ||| compressedFlag) &&& compressedFlag = compressedFlag := by
    apply UInt32.eq_of_toBitVec_eq
    ext i
    simpa using fun hbit => .inr hbit
  simp only [isCompressed, compressed, hflags]
  decide

theorem isCompressed_plain (h : RecordHeader) : h.plain.isCompressed = false := by
  have hflags : (h.flags &&& ~~~compressedFlag) &&& compressedFlag = 0 := by
    rw [UInt32.and_assoc, UInt32.not_and_self, UInt32.and_zero]
  simp only [isCompressed, plain, hflags]
  decide

end RecordHeader

namespace Record

variable {h : RecordHeader} {payload fields : Bytes} {limit : Nat}

theorem decodeBody_of_compressed (hcompressed : h.isCompressed)
    (hfields : Payload.inflate payload h.form limit = .ok fields) (shape : Shape)
    (context : Context) :
    decodeBody h shape payload context limit =
      readFields (Offer.sink Body.offer) context h.tag 0 fields shape.empty := by
  simp only [decodeBody, if_pos hcompressed, hfields]
  rfl

theorem decodeBody_of_plain (hplain : h.isCompressed = false) (shape : Shape) (fields : Bytes)
    (context : Context) (limit : Nat) :
    decodeBody h shape fields context limit =
      readFields (Offer.sink Body.offer) context h.tag h.position fields shape.empty := by
  simp only [decodeBody, hplain]
  rfl

/-- The plain payload lies at the record's position, the inflated one at the start. -/
theorem decodeBody_plain (hfields : Payload.inflate payload h.form limit = .ok fields)
    (shape : Shape) (context : Context) :
    decodeBody h.plain shape fields context limit =
      (decodeBody h.compressed shape payload context limit).mapError (Error.moved h.position) := by
  have hmoved := readFields_moved (Offer.sink Body.offer) h.position context h.tag 0 fields
    shape.empty
  rw [Nat.zero_add] at hmoved
  rw [decodeBody_of_plain h.isCompressed_plain,
    decodeBody_of_compressed h.isCompressed_compressed hfields]
  exact hmoved

/-- **A compressed record decodes like its plain payload.** Both are read or neither is. If they are
read, their bodies are the same; if not, the errors are, but for their offsets, which count from the
record's position in the plain one. -/
theorem decode_compressed_like_plain (hfields : Payload.inflate payload h.form limit = .ok fields)
    (shape : Shape) (context : Context) :
    ((∃ r, decode h.compressed shape payload context limit = .ok r) ↔
      ∃ r, decode h.plain shape fields context limit = .ok r) ∧
    (∀ r r', decode h.compressed shape payload context limit = .ok r →
      decode h.plain shape fields context limit = .ok r' → r.body = r'.body) ∧
    (∀ e e', decode h.compressed shape payload context limit = .error e →
      decode h.plain shape fields context limit = .error e' → e' = e.moved h.position) := by
  rw [decode_eq, decode_eq, decodeBody_plain hfields]
  cases decodeBody h.compressed shape payload context limit with
  | ok body =>
    refine ⟨iff_of_true ⟨_, rfl⟩ ⟨_, rfl⟩, fun r r' hr hr' => ?_, fun e e' he => by cases he⟩
    cases hr
    cases hr'
    rfl
  | error e =>
    refine ⟨iff_of_false ?_ ?_, fun r r' hr => ?_, fun e₁ e₂ he₁ he₂ => ?_⟩
    · rintro ⟨r, hr⟩
      cases hr
    · rintro ⟨r, hr⟩
      cases hr
    · cases hr
    · cases he₁
      cases he₂
      rfl

/-- A weapon whose second field, a reference of two bytes, is a misfit. -/
def misfitFields : Bytes :=
  Field.encode .tes4 .EDID [97, 97, 97, 97, 97, 0] ++ Field.encode .tes4 .ENAM [1, 2]

/-- The same fields, compressed. -/
def misfitPayload : Bytes :=
  [20, 0, 0, 0, 120, 218, 115, 117, 241, 116, 97, 99, 72, 4, 1, 6, 87, 63, 71, 95, 38, 6, 70, 38,
    0, 50, 163, 4, 40]

/-- The weapon is refused either way, at offsets that differ by its position. -/
theorem decode_compressed_like_plain_misfit :
    let h : RecordHeader := ⟨.WEAP, 29, 0, ⟨7⟩, 100, none⟩
    Payload.inflate misfitPayload h.form 64 = .ok misfitFields ∧
    ∃ e, decode h.compressed .weapon misfitPayload (.ofEdition .oblivion) 64 = .error e ∧
      decode h.plain .weapon misfitFields (.ofEdition .oblivion) 64 = .error (e.moved 100) := by
  intro h
  have hinflate : (Payload.inflate misfitPayload h.form 64).toOption = some misfitFields := by
    decide +kernel
  have hrefused : (decode h.compressed .weapon misfitPayload (.ofEdition .oblivion) 64).isOk =
      false := by
    decide +kernel
  have hfields : Payload.inflate misfitPayload h.form 64 = .ok misfitFields := by
    cases hcase : Payload.inflate misfitPayload h.form 64 with
    | error e => rw [hcase] at hinflate; cases hinflate
    | ok fields => rw [hcase] at hinflate; cases hinflate; rfl
  obtain ⟨hiff, -, herrors⟩ := decode_compressed_like_plain hfields .weapon (.ofEdition .oblivion)
  refine ⟨hfields, ?_⟩
  cases hc : decode h.compressed .weapon misfitPayload (.ofEdition .oblivion) 64 with
  | ok r => rw [hc] at hrefused; cases hrefused
  | error e =>
    cases hp : decode h.plain .weapon misfitFields (.ofEdition .oblivion) 64 with
    | ok r' =>
      obtain ⟨r, hr⟩ := hiff.mpr ⟨r', hp⟩
      cases hc.symm.trans hr
    | error e' => exact ⟨e, rfl, by rw [herrors e e' hc hp]⟩

end Record

end GamePlugin
