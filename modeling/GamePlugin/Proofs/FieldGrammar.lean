import GamePlugin.Field.Sequence
import GamePlugin.Proofs.Words

/-!
# The grammar of field sequences

A payload that can be read is a sequence of three kinds of items: escapes, fields, and in a
worldspace an offset table that takes all bytes after its header. `Fields.Sequence` is that grammar,
with the fields that a sequence holds; `Fields.Folds` is what it means that a sink takes them one
after the other. Reading a sequence offers its fields to the sink, up to the first one that it fails
on (`Fields.Sequence.loop_eq`). So reading a payload accepts exactly the sequences whose fields the
sink takes, and ends in the state that the last of them leads to.

## Main definitions

* `Field.Header.bytes` — a field header as it is stored.
* `Fields.Sequence` — bytes that are a sequence of items, and the fields in it.
* `Fields.Takes`, `Fields.Folds` — a sink takes one field, or fields in order.
* `Fields.offerAll` — offers fields to a sink in order.
-/

namespace GamePlugin

/-! ## Headers -/

theorem Schema.fieldHeaderSize_pos (schema : Schema) : 0 < schema.fieldHeaderSize := by
  cases schema <;> decide

namespace Field.Header

/-- The header as it is stored. -/
def bytes (schema : Schema) (h : Header) : Bytes :=
  h.tag.bytes ++
    match schema with
    | .tes3 => Bytes.ofUInt32 h.size
    | .tes4 => Bytes.ofUInt16 h.size.toUInt16
    | .tes5 => Bytes.ofUInt16 h.size.toUInt16

/-- The size has no more bits than the schema's headers have for it. -/
def Fits (schema : Schema) (h : Header) : Prop := schema ≠ .tes3 → h.size.toNat ≤ maxShortSize

@[simp] theorem length_bytes (schema : Schema) (h : Header) :
    (h.bytes schema).length = schema.fieldHeaderSize := by
  cases schema <;> simp [bytes, Schema.fieldHeaderSize]

theorem toUInt32_toUInt16 {w : UInt32} (h : w.toNat ≤ maxShortSize) :
    w.toUInt16.toUInt32 = w := by
  apply UInt32.toNat_inj.mp
  rw [UInt16.toNat_toUInt32, UInt32.toNat_toUInt16]
  exact Nat.mod_eq_of_lt (Nat.lt_succ_of_le h)

theorem ofBytes_bytes {schema : Schema} {h : Header} (hfit : h.Fits schema) :
    ofBytes schema (h.bytes schema) = h := by
  have hdrop (bs : Bytes) : (h.tag.bytes ++ bs).drop 4 = bs := List.drop_left' h.tag.length_bytes
  cases schema with
  | tes3 =>
    have hword := Bytes.word32_ofUInt32_append h.size []
    rw [List.append_nil] at hword
    simp only [ofBytes, bytes, hdrop, hword, Tag.ofBytes_bytes_append]
  | tes4 | tes5 =>
    have hword := Bytes.word16_ofUInt16_append h.size.toUInt16 []
    rw [List.append_nil] at hword
    simp only [ofBytes, bytes, hdrop, hword, Tag.ofBytes_bytes_append,
      toUInt32_toUInt16 (hfit (by decide))]

theorem bytes_ofBytes {schema : Schema} {bs : Bytes} (h : bs.length = schema.fieldHeaderSize) :
    (ofBytes schema bs).bytes schema = bs := by
  have hjoin {n : Nat} (hn : bs.length = 4 + n) : bs.take 4 ++ (bs.drop 4).take n = bs := by
    rw [← List.take_add, ← hn, List.take_length]
  cases schema with
  | tes3 =>
    have hlen : bs.length = 4 + 4 := h
    have hsize : 4 ≤ (bs.drop 4).length := by simp [hlen]
    rw [ofBytes, bytes, Tag.bytes_ofBytes (by omega), Bytes.ofUInt32_word32 hsize, hjoin hlen]
  | tes4 | tes5 =>
    have hlen : bs.length = 4 + 2 := h
    have hsize : 2 ≤ (bs.drop 4).length := by simp [hlen]
    simp only [ofBytes, bytes, UInt16.toUInt16_toUInt32]
    rw [Tag.bytes_ofBytes (by omega), Bytes.ofUInt16_word16 hsize, hjoin hlen]

theorem fits_ofBytes (schema : Schema) (bs : Bytes) : (ofBytes schema bs).Fits schema := by
  intro hschema
  cases schema with
  | tes3 => exact absurd rfl hschema
  | tes4 | tes5 => exact Nat.le_of_lt_succ (Bytes.word16 (bs.drop 4)).toNat_lt

theorem take_bytes_append (schema : Schema) (h : Header) (bs : Bytes) :
    (h.bytes schema ++ bs).take schema.fieldHeaderSize = h.bytes schema :=
  List.take_left' (h.length_bytes schema)

theorem drop_bytes_append (schema : Schema) (h : Header) (bs : Bytes) :
    (h.bytes schema ++ bs).drop schema.fieldHeaderSize = bs :=
  List.drop_left' (h.length_bytes schema)

/-- Bytes that are long enough start with a header. -/
theorem bytes_ofBytes_append_drop {schema : Schema} {bs : Bytes}
    (h : ¬(bs.take schema.fieldHeaderSize).length < schema.fieldHeaderSize) :
    (ofBytes schema (bs.take schema.fieldHeaderSize)).bytes schema ++
      bs.drop schema.fieldHeaderSize = bs := by
  have hlen : (bs.take schema.fieldHeaderSize).length = schema.fieldHeaderSize :=
    Nat.le_antisymm (List.length_take_le ..) (Nat.le_of_not_lt h)
  rw [bytes_ofBytes hlen, List.take_append_drop]

end Field.Header

namespace Fields

/-! ## The grammar -/

/-- The bytes, which start `pos` bytes into a payload, are a sequence of items, and those are its
fields. `pending` is a size that an escape has announced. -/
inductive Sequence (frame : Frame) : Option UInt32 → Nat → Bytes → List Field → Prop
  /-- An escape may come last, so a size may still be pending. -/
  | nil {pending : Option UInt32} {pos : Nat} : Sequence frame pending pos [] []
  /-- An escape announces the size of the next field, in place of what was announced before. -/
  | escape {pending : Option UInt32} {pos : Nat} (size : UInt32) {rest : Bytes}
      {fields : List Field}
      (hrest : Sequence frame (some size) (pos + frame.context.schema.fieldHeaderSize + 4) rest
        fields) :
      Sequence frame pending pos
        (Field.Header.bytes frame.context.schema ⟨.XXXX, 4⟩ ++ (Bytes.ofUInt32 size ++ rest)) fields
  /-- A field has as many bytes as was announced, or else as its header states. -/
  | field {pending : Option UInt32} {pos : Nat} {header : Field.Header} {payload rest : Bytes}
      {fields : List Field} (hfit : header.Fits frame.context.schema) (hescape : header.tag ≠ .XXXX)
      (hoffsets : ¬(frame.record = .WRLD ∧ header.tag = .OFST))
      (hsize : payload.length = (pending.getD header.size).toNat)
      (hrest : Sequence frame none
        (pos + frame.context.schema.fieldHeaderSize + payload.length) rest fields) :
      Sequence frame pending pos (header.bytes frame.context.schema ++ (payload ++ rest))
        (⟨header.tag, frame.record, frame.base + pos, frame.context, payload⟩ :: fields)
  /-- The offset table of a worldspace takes all that is left. -/
  | offsets {pending : Option UInt32} {pos : Nat} {size : UInt32} (rest : Bytes)
      (hfit : Field.Header.Fits frame.context.schema ⟨.OFST, size⟩)
      (hworld : frame.record = .WRLD) :
      Sequence frame pending pos
        (Field.Header.bytes frame.context.schema ⟨.OFST, size⟩ ++ rest) []

variable {σ : Type}

/-- Offered the field in one state, the sink is in another after it: it declines the field, or it
handles it and reads all its bytes. -/
inductive Takes (sink : Sink σ) (field : Field) (s s' : σ) : Prop
  | declined {c : Field.Cursor} (h : sink s field field.start = .ok (.declined, s') c)
  | handled {c : Field.Cursor} (h : sink s field field.start = .ok (.handled, s') c)
      (hend : c.pos = field.size)

/-- Offered the fields in order, the sink takes each in the state that the one before it led to. -/
inductive Folds (sink : Sink σ) : List Field → σ → σ → Prop
  | nil {s : σ} : Folds sink [] s s
  | cons {field : Field} {fields : List Field} {s s' s'' : σ} (hfirst : Takes sink field s s')
      (hrest : Folds sink fields s' s'') : Folds sink (field :: fields) s s''

/-- Offers fields to a sink in order, up to the first one that it fails on. -/
def offerAll (sink : Sink σ) (fields : List Field) (s : σ) : Except Error σ :=
  fields.foldlM (fun s field => offerField sink field s) s

/-! ## One step of the loop -/

theorem offerField_eq_ok_iff {sink : Sink σ} {field : Field} {s s' : σ} :
    offerField sink field s = .ok s' ↔ Takes sink field s s' := by
  constructor
  · intro h
    rw [offerField] at h
    split at h
    case h_1 => cases h
    case h_2 heq =>
      cases h
      exact .declined heq
    case h_3 heq =>
      split at h
      case isTrue hend =>
        cases h
        exact .handled heq hend
      case isFalse => cases h
  · rintro (h | ⟨h, hend⟩)
    · simp only [offerField, h]
    · simp only [offerField, h, if_pos hend]

theorem offerAll_cons (sink : Sink σ) (field : Field) (fields : List Field) (s : σ) :
    offerAll sink (field :: fields) s = (offerField sink field s).bind (offerAll sink fields) :=
  rfl

theorem offerAll_eq_ok_iff {sink : Sink σ} {fields : List Field} {s s' : σ} :
    offerAll sink fields s = .ok s' ↔ Folds sink fields s s' := by
  induction fields generalizing s with
  | nil =>
    constructor
    · rintro ⟨⟩
      exact .nil
    · rintro ⟨⟩
      rfl
  | cons field fields ih =>
    rw [offerAll_cons]
    constructor
    · intro h
      cases hfirst : offerField sink field s with
      | error e => rw [hfirst] at h; cases h
      | ok s₁ =>
        rw [hfirst] at h
        exact .cons (offerField_eq_ok_iff.mp hfirst) (ih.mp h)
    · rintro (_ | ⟨hfirst, hrest⟩)
      rw [offerField_eq_ok_iff.mpr hfirst]
      exact ih.mpr hrest

variable {sink : Sink σ} {frame : Frame} {pending : Option UInt32} {pos : Nat} {s s' : σ}

theorem loop_nil : loop sink frame pending pos [] s = .ok s := by
  have hpos := frame.context.schema.fieldHeaderSize_pos
  rw [loop]
  simp [hpos]

theorem loop_escape (size : UInt32) (rest : Bytes) :
    loop sink frame pending pos (Field.Header.bytes frame.context.schema ⟨.XXXX, 4⟩ ++
        (Bytes.ofUInt32 size ++ rest)) s =
      loop sink frame (some size) (pos + frame.context.schema.fieldHeaderSize + 4) rest s := by
  have hfit : Field.Header.Fits frame.context.schema ⟨.XXXX, 4⟩ := fun _ => by decide
  have hdrop : (Bytes.ofUInt32 size ++ rest).drop 4 = rest :=
    List.drop_left' (Bytes.length_ofUInt32 size)
  rw [loop]
  simp only [Field.Header.take_bytes_append, Field.Header.drop_bytes_append,
    Field.Header.length_bytes, Field.Header.ofBytes_bytes hfit, Bytes.word32_ofUInt32_append, hdrop]
  simp

theorem loop_offsets {size : UInt32} (hfit : Field.Header.Fits frame.context.schema ⟨.OFST, size⟩)
    (hworld : frame.record = .WRLD) (rest : Bytes) :
    loop sink frame pending pos (Field.Header.bytes frame.context.schema ⟨.OFST, size⟩ ++ rest) s =
      .ok s := by
  have htag : Tag.OFST ≠ .XXXX := by decide
  rw [loop]
  simp only [Field.Header.take_bytes_append, Field.Header.length_bytes,
    Field.Header.ofBytes_bytes hfit, hworld]
  simp [htag]

theorem loop_field {header : Field.Header} {payload : Bytes}
    (hfit : header.Fits frame.context.schema) (hescape : header.tag ≠ .XXXX)
    (hoffsets : ¬(frame.record = .WRLD ∧ header.tag = .OFST))
    (hsize : payload.length = (pending.getD header.size).toNat) (rest : Bytes) :
    loop sink frame pending pos (header.bytes frame.context.schema ++ (payload ++ rest)) s =
      (offerField sink ⟨header.tag, frame.record, frame.base + pos, frame.context, payload⟩
        s).bind fun s' =>
          loop sink frame none (pos + frame.context.schema.fieldHeaderSize + payload.length) rest
            s' := by
  have htake : (payload ++ rest).take payload.length = payload := List.take_left' rfl
  have hdrop : (payload ++ rest).drop payload.length = rest := List.drop_left' rfl
  rw [loop]
  simp only [Field.Header.take_bytes_append, Field.Header.drop_bytes_append,
    Field.Header.length_bytes, Field.Header.ofBytes_bytes hfit, ← hsize, htake, hdrop,
    if_neg hescape, if_neg hoffsets, Nat.lt_irrefl, if_false]
  cases offerField sink _ s <;> rfl

/-! ## The whole loop -/

/-- A payload that is read is a sequence of items, and the sink has taken its fields. -/
theorem exists_sequence_of_loop {rest : Bytes} (h : loop sink frame pending pos rest s = .ok s') :
    ∃ fields, Sequence frame pending pos rest fields ∧ Folds sink fields s s' := by
  fun_induction loop sink frame pending pos rest s with
  | case1 pending pos rest s schema head hshort hempty =>
    cases h
    rw [List.isEmpty_iff.mp hempty]
    exact ⟨[], .nil, .nil⟩
  | case2 | case3 | case4 | case7 | case8 => cases h
  | case5 pending pos rest s schema head hlong header rest' pos' htag hfour hword ih =>
    obtain ⟨fields, hseq, hfolds⟩ := ih h
    have hheader : header = ⟨.XXXX, 4⟩ := by rw [← htag, ← Decidable.not_not.mp hfour]
    have hsize : Bytes.ofUInt32 (Bytes.word32 rest') ++ rest'.drop 4 = rest' := by
      rw [List.length_take] at hword
      rw [Bytes.ofUInt32_word32 (by omega), List.take_append_drop]
    have hrest : header.bytes schema ++ rest' = rest :=
      Field.Header.bytes_ofBytes_append_drop hlong
    rw [hheader, ← hsize] at hrest
    rw [← hrest]
    exact ⟨fields, .escape _ hseq, hfolds⟩
  | case6 pending pos rest s schema head hlong header htag hoffsets =>
    cases h
    have hrest : header.bytes schema ++ rest.drop schema.fieldHeaderSize = rest :=
      Field.Header.bytes_ofBytes_append_drop hlong
    have hheader : header = ⟨.OFST, header.size⟩ := by rw [← hoffsets.2]
    have hfit : header.Fits schema := Field.Header.fits_ofBytes schema head
    rw [hheader] at hrest hfit
    rw [← hrest]
    exact ⟨[], .offsets _ hfit hoffsets.1, .nil⟩
  | case9 pending pos rest s schema head hlong offset header rest' pos' htag hoffsets size payload
      hpayload s₁ hoffer ih =>
    obtain ⟨fields, hseq, hfolds⟩ := ih h
    have hlen : payload.length = size :=
      Nat.le_antisymm (List.length_take_le ..) (Nat.le_of_not_lt hpayload)
    have hrest : header.bytes schema ++ (payload ++ rest'.drop size) = rest := by
      rw [List.take_append_drop]
      exact Field.Header.bytes_ofBytes_append_drop hlong
    have hseq' : Sequence frame none (pos' + payload.length) (rest'.drop size) fields := by
      rw [hlen]
      exact hseq
    refine ⟨_ :: fields, ?_, .cons (offerField_eq_ok_iff.mp hoffer) hfolds⟩
    rw [← hrest]
    exact .field (Field.Header.fits_ofBytes schema head) htag hoffsets hlen hseq'

/-- The loop offers the fields of a sequence of items to the sink. -/
theorem Sequence.loop_eq {rest : Bytes} {fields : List Field}
    (hseq : Sequence frame pending pos rest fields) (s : σ) :
    loop sink frame pending pos rest s = offerAll sink fields s := by
  induction hseq generalizing s with
  | nil => exact loop_nil
  | escape size _ ih =>
    rw [loop_escape]
    exact ih s
  | field hfit hescape hoffsets hsize _ ih =>
    rw [loop_field hfit hescape hoffsets hsize, offerAll_cons]
    exact congrArg _ (funext ih)
  | offsets rest hfit hworld => exact loop_offsets hfit hworld rest

/-- The sink that lists the fields it is offered. -/
def listing : Sink (List Field) := fun fields field c => .ok (.declined, fields ++ [field]) c

theorem offerAll_listing (fields listed : List Field) :
    offerAll listing fields listed = .ok (listed ++ fields) := by
  induction fields generalizing listed with
  | nil => rw [List.append_nil]; rfl
  | cons field fields ih =>
    refine (ih (listed ++ [field])).trans ?_
    rw [List.append_assoc, List.singleton_append]

/-- Bytes are a sequence of items in one way only. -/
theorem Sequence.unique {rest : Bytes} {fields fields' : List Field}
    (h : Sequence frame pending pos rest fields) (h' : Sequence frame pending pos rest fields') :
    fields = fields' := by
  have heq : offerAll listing fields [] = offerAll listing fields' [] :=
    (h.loop_eq []).symm.trans (h'.loop_eq [])
  rw [offerAll_listing, offerAll_listing] at heq
  exact Except.ok.inj heq

/-- The loop reads a sequence of items whose fields the sink takes. -/
theorem loop_of_sequence {rest : Bytes} {fields : List Field}
    (hseq : Sequence frame pending pos rest fields) (hfolds : Folds sink fields s s') :
    loop sink frame pending pos rest s = .ok s' := by
  rw [hseq.loop_eq]
  exact offerAll_eq_ok_iff.mpr hfolds

end Fields

/-- **Reading a payload accepts exactly the field sequences whose fields the sink takes, and folds
the sink over them.** -/
theorem readFields_eq_ok_iff {σ : Type} {sink : Sink σ} {context : Context} {record : Tag}
    {base : Nat} {payload : Bytes} {s s' : σ} :
    readFields sink context record base payload s = .ok s' ↔
      ∃ fields, Fields.Sequence ⟨context, record, base, payload.length⟩ none 0 payload fields ∧
        Fields.Folds sink fields s s' :=
  ⟨Fields.exists_sequence_of_loop, fun ⟨_, hseq, hfolds⟩ => Fields.loop_of_sequence hseq hfolds⟩

end GamePlugin
