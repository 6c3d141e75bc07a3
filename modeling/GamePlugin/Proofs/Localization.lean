import GamePlugin.Proofs.Contents
import GamePlugin.Proofs.Naturality
import GamePlugin.Proofs.Words

/-!
# Localized plugins

Whether a plugin is localized changes nothing but texts for display. Read either way, a record is
refused with the same error or is read to bodies that are the same but for such texts
(`Record.decode_localized`): the localized one has the number of an entry where the plain one has
the text of the four bytes that the number is stored in.

## Main definitions

* `DisplayText.inPlace` — the text that stands in place of an entry.
* `Field.Holds` — a text for display that a field stands for.
-/

namespace GamePlugin

open Field.Reader
open HasTexts (texts mapTexts)

/-- The text that a plain plugin has in place of an entry: that of the bytes of its number. -/
def DisplayText.inPlace : DisplayText → DisplayText
  | text s => text s
  | entry id => text (Text.decode (Bytes.ofUInt32 id))

/-- A text that is not the given one. -/
def DisplayText.other : DisplayText → DisplayText
  | text _ => entry 0
  | entry _ => text ""

/-- Any set of texts is what some replacement keeps. -/
theorem DisplayText.exists_replacement (P : DisplayText → Prop) :
    ∃ g : DisplayText → DisplayText, ∀ t, g t = t ↔ P t := by
  classical
  have hother (t : DisplayText) : t.other ≠ t := by cases t <;> simp [other]
  refine ⟨fun t => if P t then t else t.other, fun t => ?_⟩
  by_cases h : P t
  · simp [h]
  · simp [h, hother]

/-! ## The text of a field -/

namespace Field

variable {f : Field} {g : DisplayText → DisplayText}

/-- A text for display that a field stands for. In a localized plugin four bytes are the number of
an entry, unless they are one of the texts that the oldest schema stores as themselves. -/
inductive Holds (f : Field) : DisplayText → Prop
  | text (h : f.context.localized → f.size = 4 → f.context.schema = .tes3) :
    Holds f (.text (Text.decode f.payload))
  | entry (hlocalized : f.context.localized) (hsize : f.size = 4) :
    Holds f (.entry (Bytes.word32 f.payload))

theorem displayText_of_entry (hlocalized : f.context.localized) (hsize : f.size = 4) :
    displayText f f.start = .ok (.entry (Bytes.word32 f.payload)) (f.place f.size) := by
  have hread : (read : Reader Field) f f.start = .ok f f.start := rfl
  have hremaining : Reader.remaining f f.start = .ok 4 f.start := by
    rw [← hsize]
    rfl
  have htake : f.payload.take 4 = f.payload := List.take_of_length_le (Nat.le_of_eq hsize)
  have hword : word32 f f.start = .ok (Bytes.word32 f.payload) (f.place f.size) := by
    have hbytes : bytes 4 f f.start = .ok (f.payload.take 4) (f.place (0 + 4)) :=
      bytes_of_le (k := 0) (Nat.le_of_eq hsize.symm)
    rw [htake] at hbytes
    rw [hsize]
    exact map_of_ok hbytes _
  rw [displayText, bind_of_ok hread, bind_of_ok hremaining, if_pos (by simp [hlocalized]),
    bind_of_ok hword]
  rfl

theorem displayText_of_text (h : ¬(f.context.localized ∧ f.size = 4)) :
    displayText f f.start = .ok (.text (Text.decode f.payload)) (f.place f.size) := by
  have hread : (read : Reader Field) f f.start = .ok f f.start := rfl
  have hremaining : Reader.remaining f f.start = .ok f.size f.start := rfl
  have htext : Reader.text f f.start = .ok (Text.decode f.payload) (f.place f.size) := by
    rw [← place_add_rest (Nat.zero_le f.size)]
    rfl
  rw [displayText, bind_of_ok hread, bind_of_ok hremaining, if_neg (by simpa using h),
    bind_of_ok htext]
  rfl

/-- What is read as a text for display is a text that the field stands for. -/
theorem exists_holds_of_displayText (f : Field) :
    ∃ t, f.Holds t ∧ displayText f f.start = .ok t (f.place f.size) := by
  by_cases h : f.context.localized ∧ f.size = 4
  · exact ⟨_, .entry h.1 h.2, displayText_of_entry h.1 h.2⟩
  · exact ⟨_, .text fun hl hs => absurd ⟨hl, hs⟩ h, displayText_of_text h⟩

/-- A replacement that keeps the texts of a field goes with the field as it is. -/
theorem carries_self (h : ∀ t, f.Holds t → g t = t) : f.Carries g f where
  eq_localize := ⟨f.context.localized, rfl⟩
  displayText := by
    obtain ⟨t, ht, hread⟩ := f.exists_holds_of_displayText
    rw [map_of_ok hread, h t ht, hread]
  text hschema := h _ (.text fun _ _ => hschema)

/-- Putting texts in place of entries goes with making a localized plugin a plain one. -/
theorem carries_inPlace (h : f.context.localized) :
    f.Carries DisplayText.inPlace ((Change.localize false).field f) where
  eq_localize := ⟨false, rfl⟩
  displayText := by
    have hplain : displayText ((Change.localize false).field f) f.start =
        .ok (.text (Text.decode f.payload)) (f.place f.size) :=
      displayText_of_text (f := (Change.localize false).field f) (by simp [Change.localize])
    by_cases hsize : f.size = 4
    · have hbytes : Bytes.ofUInt32 (Bytes.word32 f.payload) = f.payload := by
        have hlen : f.payload.length = 4 := hsize
        rw [Bytes.ofUInt32_word32 (Nat.le_of_eq hlen.symm), ← hlen, List.take_length]
      rw [map_of_ok (displayText_of_entry h hsize), DisplayText.inPlace, hbytes]
      exact hplain
    · rw [map_of_ok (displayText_of_text fun h => hsize h.2)]
      exact hplain
  text _ := rfl

end Field

/-! ## Taking fields -/

section

variable {β : Type} [HasTexts β] (offer : Offer β) [hoffer : Offer.Natural offer]

/-- The offer as a sink goes along with the replacement of texts, too. -/
theorem Offer.sink_mapTexts {g : DisplayText → DisplayText} {f f' : Field} (H : f.Carries g f')
    (b : β) : Offer.sink offer (mapTexts g b) f' f'.start =
      (Prod.map id (mapTexts g) <$> Offer.sink offer b) f f.start := by
  have hmap := hoffer.eq_map H b
  cases hold : offer b f f.start with
  | error e c =>
    have hsink : Offer.sink offer b f f.start = .error e c := bind_of_error hold _
    rw [map_of_error hold] at hmap
    rw [map_of_error hsink]
    exact bind_of_error hmap _
  | ok b? c =>
    rw [map_of_ok hold] at hmap
    cases b? with
    | none =>
      have hsink : Offer.sink offer b f f.start = .ok (.declined, b) c := bind_of_ok hold _
      rw [map_of_ok hsink]
      exact bind_of_ok hmap _
    | some b' =>
      have hsink : Offer.sink offer b f f.start = .ok (.handled, b') c := bind_of_ok hold _
      rw [map_of_ok hsink]
      exact bind_of_ok hmap _

namespace Fields

variable {offer}

/-- A field that is taken brings in no text but its own. A replacement that keeps just the texts of
the body and of the field leaves the body as it is, so it leaves as it is what the body becomes. -/
theorem Takes.texts_subset {f : Field} {b b' : β} (h : Takes (Offer.sink offer) f b b')
    {t : DisplayText} (ht : t ∈ texts b') : t ∈ texts b ∨ f.Holds t := by
  obtain ⟨g, hg⟩ := DisplayText.exists_replacement fun t => t ∈ texts b ∨ f.Holds t
  have hbody : mapTexts g b = b :=
    HasTexts.mapTexts_eq_self_iff.mpr fun t ht => (hg t).mpr (.inl ht)
  have hmap := offer.sink_mapTexts (Field.carries_self fun t ht => (hg t).mpr (.inr ht)) b
  obtain ⟨outcome, c, hsink⟩ : ∃ outcome c,
      Offer.sink offer b f f.start = .ok (outcome, b') c := by
    rcases h with h | ⟨h, -⟩ <;> exact ⟨_, _, h⟩
  rw [hbody, map_of_ok hsink, hsink] at hmap
  have hbody' : b' = mapTexts g b' := congrArg Prod.snd (EStateM.Result.ok.inj hmap).1
  exact (hg t).mp (HasTexts.mapTexts_eq_self_iff.mp hbody'.symm t ht)

/-- Fields that are taken bring in no texts but their own. -/
theorem Folds.texts_subset {fields : List Field} {b b' : β}
    (h : Folds (Offer.sink offer) fields b b') {t : DisplayText} (ht : t ∈ texts b') :
    t ∈ texts b ∨ ∃ f ∈ fields, f.Holds t := by
  induction h with
  | nil => exact .inl ht
  | cons hfirst hrest ih =>
    rcases ih ht with hbody | ⟨f, hf, hholds⟩
    · exact (hfirst.texts_subset hbody).imp_right fun h => ⟨_, List.mem_cons_self, h⟩
    · exact .inr ⟨f, List.mem_cons_of_mem _ hf, hholds⟩

variable (offer)

/-- The frame in a plugin that is localized, or in one that is not. -/
def Frame.localize (flag : Bool) (frame : Frame) : Frame :=
  { frame with context := { frame.context with localized := flag } }

/-- A plain payload is read like a localized one, with texts in place of entries. -/
theorem follows_inPlace (frame : Frame) :
    Follows (mapTexts .inPlace) id (Offer.sink offer) (frame.localize true)
      (frame.localize false) where
  schema := rfl
  record := rfl
  length := rfl
  mismatch _ _ _ _ := rfl
  badEscape _ _ := rfl
  offer tag pos payload b := by
    have hsink := offer.sink_mapTexts (Field.carries_inPlace
      (f := ⟨tag, frame.record, frame.base + pos, (frame.localize true).context, payload⟩) rfl) b
    refine offerField_eq_map rfl (fun _ => rfl) (fun h => ?_) fun h => ?_
    · exact hsink.trans (map_of_ok h _)
    · exact hsink.trans (map_of_error h _)

end Fields

end

/-- A body has no texts before any field is read. -/
theorem Shape.texts_empty (shape : Shape) : texts shape.empty = [] := by
  cases shape <;> rfl

/-- Reading a plain payload, with texts in place of entries. -/
theorem readFields_inPlace (schema : Schema) (edition : Edition) (record : Tag) (base : Nat)
    (payload : Bytes) (shape : Shape) :
    readFields (Offer.sink Body.offer) ⟨schema, edition, false⟩ record base payload shape.empty =
      (readFields (Offer.sink Body.offer) ⟨schema, edition, true⟩ record base payload
        shape.empty).map (Body.mapTexts .inPlace) := by
  let frame : Fields.Frame := ⟨⟨schema, edition, true⟩, record, base, payload.length⟩
  have hempty : mapTexts .inPlace shape.empty = shape.empty :=
    HasTexts.mapTexts_eq_self_iff.mpr (by simp [Shape.texts_empty])
  have hloop := (Fields.follows_inPlace Body.offer frame).loop_eq none 0 payload shape.empty
  have hid (x : Except Error Body) : x.mapError id = x := by cases x <;> rfl
  rw [hempty, hid] at hloop
  exact hloop

/-! ## Records -/

namespace Record

/-- The bytes of a record's fields, and where they count from. -/
def unpack (h : RecordHeader) (payload : Bytes) (limit : Nat) : Except Error (Bytes × Nat) :=
  if h.isCompressed then (·, 0) <$> Payload.inflate payload h.form limit
  else .ok (payload, h.position)

theorem decode_eq_unpack (h : RecordHeader) (shape : Shape) (payload : Bytes) (context : Context)
    (limit : Nat) : decode h shape payload context limit =
      unpack h payload limit >>= fun unpacked => (readFields (Offer.sink Body.offer) context h.tag
        unpacked.2 unpacked.1 shape.empty).map (mk h) := by
  simp only [decode, unpack]
  split
  · cases Payload.inflate payload h.form limit <;> rfl
  · rfl

/-- The body of a record that was read comes from the fields of its payload. -/
theorem exists_folds_of_decode {h : RecordHeader} {shape : Shape} {payload : Bytes}
    {context : Context} {limit : Nat} {r : Record}
    (hdecode : decode h shape payload context limit = .ok r) :
    ∃ bytes base fields, unpack h payload limit = .ok (bytes, base) ∧
      Fields.Sequence ⟨context, h.tag, base, bytes.length⟩ none 0 bytes fields ∧
      Fields.Folds (Offer.sink Body.offer) fields shape.empty r.body := by
  rw [decode_eq_unpack] at hdecode
  cases hunpack : unpack h payload limit with
  | error e =>
    rw [hunpack] at hdecode
    cases hdecode
  | ok unpacked =>
    rw [hunpack] at hdecode
    change (readFields (Offer.sink Body.offer) context h.tag unpacked.2 unpacked.1
      shape.empty).map (mk h) = .ok r at hdecode
    cases hread : readFields (Offer.sink Body.offer) context h.tag unpacked.2 unpacked.1
        shape.empty with
    | error e =>
      rw [hread] at hdecode
      cases hdecode
    | ok body =>
      rw [hread] at hdecode
      cases hdecode
      obtain ⟨fields, hseq, hfolds⟩ := Fields.exists_sequence_of_loop hread
      exact ⟨unpacked.1, unpacked.2, fields, rfl, hseq, hfolds⟩

/-- The record of a plain plugin, with texts in place of entries. -/
def inPlace (r : Record) : Record := { r with body := r.body.mapTexts .inPlace }

/-- **Whether a plugin is localized changes nothing but texts for display.** A record is refused
either way, with the same error, or it is read either way. Then the plain body is the localized one
with texts in place of entries, and each text of the localized one is that of a field: the number of
an entry is a field of four bytes, and in the newer schemas the text of a field of four bytes is
always such a number. -/
theorem decode_localized (h : RecordHeader) (shape : Shape) (payload : Bytes) (schema : Schema)
    (edition : Edition) (limit : Nat) :
    (∃ e, decode h shape payload ⟨schema, edition, false⟩ limit = .error e ∧
      decode h shape payload ⟨schema, edition, true⟩ limit = .error e) ∨
    ∃ r bytes base fields,
      decode h shape payload ⟨schema, edition, true⟩ limit = .ok r ∧
      decode h shape payload ⟨schema, edition, false⟩ limit = .ok r.inPlace ∧
      unpack h payload limit = .ok (bytes, base) ∧
      Fields.Sequence ⟨⟨schema, edition, true⟩, h.tag, base, bytes.length⟩ none 0 bytes fields ∧
      ∀ t ∈ r.body.texts, ∃ f ∈ fields, f.Holds t := by
  rw [decode_eq_unpack, decode_eq_unpack]
  cases hunpack : unpack h payload limit with
  | error e => exact .inl ⟨e, rfl, rfl⟩
  | ok unpacked =>
    obtain ⟨bytes, base⟩ := unpacked
    have hplain := readFields_inPlace schema edition h.tag base bytes shape
    cases hread : readFields (Offer.sink Body.offer) ⟨schema, edition, true⟩ h.tag base bytes
        shape.empty with
    | error e =>
      rw [hread] at hplain
      exact .inl ⟨e, congrArg (Except.map (mk h)) hplain, congrArg (Except.map (mk h)) hread⟩
    | ok body =>
      rw [hread] at hplain
      obtain ⟨fields, hsequence, hfolds⟩ := Fields.exists_sequence_of_loop hread
      refine .inr ⟨⟨h, body⟩, bytes, base, fields, congrArg (Except.map (mk h)) hread,
        congrArg (Except.map (mk h)) hplain, rfl, hsequence, fun t ht => ?_⟩
      have hempty : t ∉ texts shape.empty := by simp [Shape.texts_empty]
      exact (hfolds.texts_subset ht).resolve_left hempty

-- Four bytes for a name: an entry of the string table, or a text that a zero byte ends.
example :
    let h : RecordHeader := ⟨.WEAP, 10, 0, ⟨7⟩, 24, none⟩
    let payload := Field.encode .tes5 .FULL [65, 66, 0, 0]
    let name (localized : Bool) :=
      (decode h .weapon payload ⟨.tes5, .skyrim, localized⟩ 64).toOption.bind (·.name)
    name true = some (.entry 0x4241) ∧ name false = some (.text "AB") := by
  decide +kernel

end Record

end GamePlugin
