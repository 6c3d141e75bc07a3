import GamePlugin.Proofs.FieldGrammar

/-!
# Reading back fields that were written

A field that is written is one or two items of a sequence: the field, and in front of it an escape
if its size does not fit a short header. Nothing is pending after it, so fields that are written one
after another are read back one after another (`Fields.sequence_written`), each with its payload and
at its own place (`Fields.written`).

## Main definitions

* `Field.escapeSize` — bytes of the escape in front of a written field.
* `Fields.written` — the fields that are read back.
* `Fields.collect` — the sink that keeps the fields it is offered.
-/

namespace GamePlugin

namespace Field

/-- Bytes of the escape that is written in front of a payload, if its size needs one. -/
def escapeSize (schema : Schema) (payload : Bytes) : Nat :=
  if schema ≠ .tes3 ∧ maxShortSize < payload.length then schema.fieldHeaderSize + 4 else 0

/-- A short size is written as it stands in a header. -/
theorem ofNat_eq_ofUInt16 {n : Nat} (h : n ≤ maxShortSize) :
    Bytes.ofNat 2 n = Bytes.ofUInt16 (UInt32.ofNat n).toUInt16 := by
  have hsize : (UInt32.ofNat n).toUInt16.toNat = n := by
    simp only [maxShortSize] at h
    rw [UInt32.toNat_toUInt16, UInt32.toNat_ofNat_of_lt' (by simp [UInt32.size]; omega)]
    omega
  rw [Bytes.ofUInt16, hsize]

variable {schema : Schema} {payload : Bytes}

/-- A field whose size fits its header is written as header and payload. -/
theorem encode_of_fits (tag : Tag) (h : schema ≠ .tes3 → payload.length ≤ maxShortSize) :
    encode schema tag payload =
      Header.bytes schema ⟨tag, UInt32.ofNat payload.length⟩ ++ payload := by
  cases schema with
  | tes3 => simp only [encode, Header.bytes, Bytes.ofUInt32_ofNat]
  | tes4 | tes5 =>
    have hshort := h (by decide)
    simp only [encode, Header.bytes, if_pos hshort, ofNat_eq_ofUInt16 hshort]

/-- A field whose size does not fit is written with an escape, and its header states no size. -/
theorem encode_of_escape (tag : Tag) (hschema : schema ≠ .tes3)
    (hlong : maxShortSize < payload.length) :
    encode schema tag payload =
      Header.bytes schema ⟨.XXXX, 4⟩ ++ (Bytes.ofUInt32 (UInt32.ofNat payload.length) ++
        (Header.bytes schema ⟨tag, 0⟩ ++ payload)) := by
  have hfour : Bytes.ofNat 2 4 = Bytes.ofUInt16 (4 : UInt32).toUInt16 := rfl
  have hzero : Bytes.ofNat 2 0 = Bytes.ofUInt16 (0 : UInt32).toUInt16 := rfl
  cases schema with
  | tes3 => exact absurd rfl hschema
  | tes4 | tes5 =>
    simp only [encode, Header.bytes, if_neg (Nat.not_le.mpr hlong), Bytes.ofUInt32_ofNat, hfour,
      hzero, List.append_assoc]

/-- Header and payload follow the escape. -/
theorem length_encode (schema : Schema) (tag : Tag) (payload : Bytes) :
    (encode schema tag payload).length =
      escapeSize schema payload + schema.fieldHeaderSize + payload.length := by
  by_cases h : schema ≠ .tes3 ∧ maxShortSize < payload.length
  · simp only [escapeSize, if_pos h, encode_of_escape tag h.1 h.2, List.length_append,
      Header.length_bytes, Bytes.length_ofUInt32]
    omega
  · have hfits : schema ≠ .tes3 → payload.length ≤ maxShortSize := fun hschema =>
      Nat.not_lt.mp fun hlong => h ⟨hschema, hlong⟩
    simp only [escapeSize, if_neg h, encode_of_fits tag hfits, List.length_append,
      Header.length_bytes, Nat.zero_add]

end Field

namespace Fields

/-- A field that is written in front of a sequence of items is the first field of that sequence. It
leaves no size pending, whether it was written with an escape or without. -/
theorem Sequence.encode_append {frame : Frame} {pos : Nat} {tag : Tag} {payload rest : Bytes}
    {fields : List Field} (htag : tag ≠ .XXXX) (hoffsets : ¬(frame.record = .WRLD ∧ tag = .OFST))
    (hlength : payload.length < 2 ^ 32)
    (hrest : Sequence frame none
      (pos + (Field.encode frame.context.schema tag payload).length) rest fields) :
    Sequence frame none pos (Field.encode frame.context.schema tag payload ++ rest)
      (⟨tag, frame.record, frame.base + pos + Field.escapeSize frame.context.schema payload,
        frame.context, payload⟩ :: fields) := by
  have hsize : payload.length = (UInt32.ofNat payload.length).toNat :=
    (UInt32.toNat_ofNat_of_lt' hlength).symm
  rw [Field.length_encode] at hrest
  by_cases h : frame.context.schema ≠ .tes3 ∧ Field.maxShortSize < payload.length
  · obtain ⟨hschema, hlong⟩ := h
    have hfit : Field.Header.Fits frame.context.schema ⟨tag, 0⟩ := fun _ => Nat.zero_le _
    rw [Field.encode_of_escape tag hschema hlong]
    simp only [Field.escapeSize, if_pos (And.intro hschema hlong), List.append_assoc] at hrest ⊢
    refine .escape _ ?_
    -- the size that the escape announces is used up by the field after it
    have hfield : Sequence frame (some (UInt32.ofNat payload.length))
        (pos + frame.context.schema.fieldHeaderSize + 4) _ _ :=
      .field hfit htag hoffsets hsize (by simpa only [Nat.add_assoc] using hrest)
    simpa only [Nat.add_assoc] using hfield
  · have hfits : frame.context.schema ≠ .tes3 → payload.length ≤ Field.maxShortSize :=
      fun hschema => Nat.not_lt.mp fun hlong => h ⟨hschema, hlong⟩
    have hfit : Field.Header.Fits frame.context.schema ⟨tag, UInt32.ofNat payload.length⟩ :=
      fun hschema => hsize ▸ hfits hschema
    rw [Field.encode_of_fits tag hfits, List.append_assoc]
    simp only [Field.escapeSize, if_neg h, Nat.zero_add, Nat.add_zero] at hrest ⊢
    exact .field hfit htag hoffsets hsize (by simpa only [Nat.add_assoc] using hrest)

/-- The fields that tags and payloads are read back as, if they are written from an offset on. -/
def written (context : Context) (record : Tag) (offset : Nat) : List (Tag × Bytes) → List Field
  | [] => []
  | (tag, payload) :: pairs =>
    ⟨tag, record, offset + Field.escapeSize context.schema payload, context, payload⟩ ::
      written context record (offset + (Field.encode context.schema tag payload).length) pairs

theorem map_written (context : Context) (record : Tag) (offset : Nat)
    (pairs : List (Tag × Bytes)) :
    (written context record offset pairs).map (fun f => (f.tag, f.payload)) = pairs := by
  induction pairs generalizing offset with
  | nil => rfl
  | cons p pairs ih => rw [written, List.map_cons, ih]

/-- Fields that are written one after another are a sequence of items. -/
theorem sequence_written {frame : Frame} {pairs : List (Tag × Bytes)} (pos : Nat)
    (hpairs : ∀ p ∈ pairs, p.1 ≠ .XXXX ∧ ¬(frame.record = .WRLD ∧ p.1 = .OFST) ∧
      p.2.length < 2 ^ 32) :
    Sequence frame none pos (pairs.flatMap fun p => Field.encode frame.context.schema p.1 p.2)
      (written frame.context frame.record (frame.base + pos) pairs) := by
  induction pairs generalizing pos with
  | nil => exact .nil
  | cons p pairs ih =>
    obtain ⟨⟨htag, hoffsets, hlength⟩, hrest⟩ := List.forall_mem_cons.mp hpairs
    have hpairs := ih (pos + (Field.encode frame.context.schema p.1 p.2).length) hrest
    rw [← Nat.add_assoc] at hpairs
    exact .encode_append htag hoffsets hlength hpairs

/-- The sink that takes every field and keeps its tag and payload. -/
def collect : Sink (List (Tag × Bytes)) := fun seen => do
  let field ← read
  let payload ← Field.Reader.toEnd
  return (.handled, seen ++ [(field.tag, payload)])

theorem offerAll_collect (fields : List Field) (seen : List (Tag × Bytes)) :
    offerAll collect fields seen = .ok (seen ++ fields.map fun f => (f.tag, f.payload)) := by
  induction fields generalizing seen with
  | nil => exact congrArg Except.ok (List.append_nil seen).symm
  | cons f fields ih =>
    have hoffer : offerField collect f seen = .ok (seen ++ [(f.tag, f.payload)]) := by
      have hsink : collect seen f f.start =
          .ok (.handled, seen ++ [(f.tag, f.payload)]) ⟨[], 0 + f.payload.length⟩ := rfl
      simp only [offerField, hsink, Nat.zero_add, Field.size, if_true]
    have hrest := ih (seen ++ [(f.tag, f.payload)])
    rw [List.append_assoc] at hrest
    rw [offerAll_cons, hoffer]
    exact hrest

end Fields

/-- **Reading inverts writing.** Tags and payloads that are written one after another are offered to
the sink again in their order, each with the bytes that were written; nothing else is offered, and
nothing else can fail. So reading succeeds exactly if the sink takes each of them. -/
theorem readFields_encode {σ : Type} (sink : Sink σ) (context : Context) (record : Tag) (base : Nat)
    (pairs : List (Tag × Bytes)) (s : σ)
    (hpairs : ∀ p ∈ pairs, p.1 ≠ .XXXX ∧ ¬(record = .WRLD ∧ p.1 = .OFST) ∧ p.2.length < 2 ^ 32) :
    let payload := pairs.flatMap fun p => Field.encode context.schema p.1 p.2
    let fields := Fields.written context record base pairs
    fields.map (fun f => (f.tag, f.payload)) = pairs ∧
      readFields sink context record base payload s = Fields.offerAll sink fields s ∧
      ∀ s', readFields sink context record base payload s = .ok s' ↔
        Fields.Folds sink fields s s' := by
  intro payload fields
  have hseq : Fields.Sequence ⟨context, record, base, payload.length⟩ none 0 payload fields :=
    Fields.sequence_written 0 hpairs
  have hread : readFields sink context record base payload s = Fields.offerAll sink fields s :=
    hseq.loop_eq s
  refine ⟨Fields.map_written context record base pairs, hread, fun s' => ?_⟩
  rw [hread, Fields.offerAll_eq_ok_iff]

/-- On either side of the escape, payloads come back unchanged. -/
theorem readFields_encode_escape :
    readFields Fields.collect (.ofEdition .skyrim) .BOOK 24
        (Field.encode .tes5 .DATA (Bytes.zeros 65535) ++
          Field.encode .tes5 .DESC (Bytes.zeros 65536)) [] =
      .ok [(.DATA, Bytes.zeros 65535), (.DESC, Bytes.zeros 65536)] := by
  have hpairs : ∀ p ∈ [(Tag.DATA, Bytes.zeros 65535), (.DESC, Bytes.zeros 65536)],
      p.1 ≠ .XXXX ∧ ¬(Tag.BOOK = .WRLD ∧ p.1 = .OFST) ∧ p.2.length < 2 ^ 32 := by
    simp only [List.forall_mem_cons, Bytes.zeros, List.length_replicate]
    decide
  obtain ⟨hmap, hread, -⟩ :=
    readFields_encode Fields.collect (.ofEdition .skyrim) .BOOK 24 _ [] hpairs
  rw [Fields.offerAll_collect, hmap, List.flatMap_cons, List.flatMap_singleton] at hread
  exact hread

end GamePlugin
