import GamePlugin.Chunk.Next
import GamePlugin.Proofs.Written

/-!
# Chunk headers

A chunk header is a row of words, and the schema says which word means what. `Image.HasWord` says
that a word stands at an offset of a file, in terms of the bytes there, and `Chunk.StandsAt` that
the header of a chunk does. A header is read where one stands and nowhere else
(`Chunk.read_eq_ok_iff`).

Taking the words one after another comes to the same (`Chunk.next_eq`). A reader that takes words
fails if one of them is missing, so all that matters is how far it wants to go
(`Image.Reader.Wants`). Where it succeeds, the place that it leaves is the one that the header gives
for its payload, though the last words of a group header are stepped over and never taken.

## Main definitions

* `Image.HasWord` — the word at an offset of a file.
* `Image.Reader.Wants` — how far a reader wants to go, and its result if it can.
* `Chunk.IsGroupAt` — a group starts at an offset.
* `Chunk.StandsAt` — the header of a chunk stands at an offset, each value in its place.
-/

namespace GamePlugin

/-! ## Words of a file -/

theorem Bytes.toNat_word32_four (a b c d : UInt8) :
    (word32 [a, b, c, d]).toNat =
      a.toNat + 0x100 * b.toNat + 0x10000 * c.toNat + 0x1000000 * d.toNat := by
  have hlt : toNat [a, b, c, d] < 256 ^ 4 := toNat_lt [a, b, c, d]
  have hword : (word32 [a, b, c, d]).toNat = toNat [a, b, c, d] := UInt32.toNat_ofNat_of_lt' hlt
  rw [hword]
  simp only [toNat]
  omega

namespace Image

variable {image : Image} {i n pos offset : Nat} {w : UInt32}

/-- A word stands at an offset: the bytes from there on start with its own, the least significant
first. -/
def HasWord (image : Image) (i : Nat) (w : UInt32) : Prop :=
  ∃ a b c d : UInt8, [a, b, c, d] <+: image.bytes.drop i ∧
    w.toNat = a.toNat + 0x100 * b.toNat + 0x10000 * c.toNat + 0x1000000 * d.toNat

theorem hasWord_iff :
    image.HasWord i w ↔ i + 4 ≤ image.size ∧ Bytes.word32 (image.slice i 4) = w := by
  have hlength := image.length_slice i 4
  constructor
  · rintro ⟨a, b, c, d, hbytes, hw⟩
    have hslice : image.slice i 4 = [a, b, c, d] := by
      rw [slice_eq]
      exact (List.prefix_iff_eq_take.mp hbytes).symm
    rw [hslice] at hlength ⊢
    refine ⟨?_, UInt32.toNat_inj.mp ((Bytes.toNat_word32_four a b c d).trans hw.symm)⟩
    simp only [List.length_cons, List.length_nil] at hlength
    omega
  · rintro ⟨hsize, rfl⟩
    have hprefix : image.slice i 4 <+: image.bytes.drop i := by
      rw [slice_eq]
      exact List.take_prefix ..
    rcases hslice : image.slice i 4 with _ | ⟨a, _ | ⟨b, _ | ⟨c, _ | ⟨d, _ | ⟨e, bs⟩⟩⟩⟩⟩
    case cons.cons.cons.cons.nil =>
      exact ⟨a, b, c, d, hslice ▸ hprefix, Bytes.toNat_word32_four a b c d⟩
    all_goals
      simp only [hslice, List.length_cons, List.length_nil] at hlength
      omega

instance : Decidable (image.HasWord i w) := decidable_of_iff _ hasWord_iff.symm

theorem hasWord_word32 (h : i + 4 ≤ image.size) :
    image.HasWord i (Bytes.word32 (image.slice i 4)) :=
  hasWord_iff.mpr ⟨h, rfl⟩

theorem length_slice_lt_iff {k : Nat} (hpos : 0 < k) (hk : k ≤ n) :
    (image.slice offset n).length < k ↔ image.size < offset + k := by
  rw [length_slice]
  omega

theorem tag_slice (image : Image) (h : 4 ≤ n) :
    Tag.ofBytes (image.slice offset n) = ⟨Bytes.word32 (image.slice offset 4)⟩ :=
  congrArg Tag.mk (image.word32_drop_slice (k := 0) (by omega))

/-! ## Taking words -/

namespace Reader

variable {α β : Type} {mid stop : Nat}

theorem bind_of_ok {x : Reader α} {a : α} (h : x image pos = .ok (a, mid)) (f : α → Reader β) :
    (x >>= f) image pos = f a image mid := by
  have hbind : (x >>= f) image pos = (x image pos).bind fun r => f r.1 image r.2 := rfl
  rw [hbind, h]
  rfl

theorem bind_of_error {x : Reader α} {e : Error} (h : x image pos = .error e) (f : α → Reader β) :
    (x >>= f) image pos = .error e := by
  have hbind : (x >>= f) image pos = (x image pos).bind fun r => f r.1 image r.2 := rfl
  rw [hbind, h]
  rfl

theorem word_eq : word image pos =
    if image.size < pos + 4 then .error .shortRead
    else .ok (Bytes.word32 (image.slice pos 4), pos + 4) := by
  rw [word, Image.read]
  by_cases h : pos + 4 ≤ image.size
  · rw [if_pos h, if_neg (Nat.not_lt.mpr h)]
  · rw [if_neg h, if_pos (Nat.not_le.mp h)]

/-- Started in the file, the reader wants all bytes up to `stop`. If they are there its result is
`r`. -/
structure Wants (x : Reader α) (image : Image) (pos stop : Nat) (r : Except Error (α × Nat)) :
    Prop where
  le : pos ≤ stop
  run : pos ≤ image.size → x image pos = if image.size < stop then .error .shortRead else r

theorem wants_of_eq {x : Reader α} {r : Except Error (α × Nat)} (h : x image pos = r) :
    x.Wants image pos pos r where
  le := Nat.le_refl pos
  run hpos := by rw [h, if_neg (Nat.not_lt.mpr hpos)]

theorem wants_word :
    word.Wants image pos (pos + 4) (.ok (Bytes.word32 (image.slice pos 4), pos + 4)) where
  le := Nat.le_add_right pos 4
  run _ := word_eq

/-- A sequence of readers wants to go as far as its last one. -/
theorem Wants.bind {x : Reader α} {f : α → Reader β} {a : α} {r : Except Error (β × Nat)}
    (hx : x.Wants image pos mid (.ok (a, mid))) (hf : (f a).Wants image mid stop r) :
    (x >>= f).Wants image pos stop r where
  le := Nat.le_trans hx.le hf.le
  run hpos := by
    have hrun := hx.run hpos
    by_cases h : image.size < mid
    · rw [if_pos h] at hrun
      rw [bind_of_error hrun, if_pos (Nat.lt_of_lt_of_le h hf.le)]
    · rw [if_neg h] at hrun
      rw [bind_of_ok hrun, hf.run (Nat.not_lt.mp h)]

end Reader

end Image

/-! ## Where the values of a header are -/

/-- Where the flags are in a record header. -/
def Schema.flagsOffset : Schema → Nat
  | tes3 => 12
  | tes4 => 8
  | tes5 => 8

/-- The header of a record stands at an offset of a file. -/
structure RecordHeader.StandsAt (h : RecordHeader) (image : Image) (schema : Schema)
    (offset : Nat) : Prop where
  fits : offset + schema.recordHeaderSize ≤ image.size
  tag : image.HasWord offset h.tag.code
  dataSize : image.HasWord (offset + 4) h.dataSize
  flags : image.HasWord (offset + schema.flagsOffset) h.flags
  /-- The oldest schema has no form ids. -/
  form : if schema = .tes3 then h.form = .none else image.HasWord (offset + 12) h.form.value
  position : h.position = offset + schema.recordHeaderSize

/-- The header of a group stands at an offset of a file. -/
structure GroupHeader.StandsAt (h : GroupHeader) (image : Image) (schema : Schema)
    (offset : Nat) : Prop where
  tag : image.HasWord offset Tag.GRUP.code
  /-- The total that is stored counts the header. -/
  dataSize : ∃ total, image.HasWord (offset + 4) total ∧
    total.toNat = schema.groupHeaderSize + h.dataSize.toNat
  label : image.HasWord (offset + 8) h.label
  kind : image.HasWord (offset + 12) (UInt32.ofNat h.kind.number)
  position : h.position = offset + schema.groupHeaderSize

namespace GroupKind

theorem ofNumber?_eq_some_iff {n : Int} {kind : GroupKind} :
    ofNumber? n = some kind ↔ n = kind.number := by
  constructor
  · intro h
    unfold ofNumber? at h
    split at h <;> cases h <;> rfl
  · rintro rfl
    exact ofNumber?_number kind

theorem exists_number_eq_iff {n : Int} :
    (∃ kind : GroupKind, n = kind.number) ↔ 0 ≤ n ∧ n ≤ 10 := by
  constructor
  · rintro ⟨kind, rfl⟩
    cases kind <;> decide
  · rintro ⟨hlo, hhi⟩
    have hall : ∀ m < 11, (ofNumber? (Int.ofNat m)).isSome := by decide
    obtain ⟨m, rfl⟩ := Int.eq_ofNat_of_zero_le hlo
    obtain ⟨kind, hkind⟩ := Option.isSome_iff_exists.mp (hall m (by omega))
    exact ⟨kind, ofNumber?_eq_some_iff.mp hkind⟩

/-- The kind's number is stored in a word as it is. -/
theorem toInt_eq_number_iff {w : UInt32} {kind : GroupKind} :
    w.toInt32.toInt = kind.number ↔ w = UInt32.ofNat kind.number := by
  rw [← Draft.number_of_kindWord, Int32.toInt_inj]
  constructor
  · intro h
    simpa using congrArg Int32.toUInt32 h
  · rintro rfl
    rfl

end GroupKind

namespace Chunk

variable {image : Image} {schema : Schema} {offset : Nat} {parent : Option Nat} {c : Chunk}

open Image.Reader

/-- A group starts at an offset of a file. -/
def IsGroupAt (image : Image) (schema : Schema) (offset : Nat) : Prop :=
  schema ≠ .tes3 ∧ image.HasWord offset Tag.GRUP.code

instance : Decidable (IsGroupAt image schema offset) := inferInstanceAs (Decidable (_ ∧ _))

/-- The header of a chunk stands at an offset of a file. A record's remembers the group node that it
is read for. -/
def StandsAt (image : Image) (schema : Schema) (offset : Nat) (parent : Option Nat) : Chunk → Prop
  | record h => ¬IsGroupAt image schema offset ∧ h.StandsAt image schema offset ∧ h.parent = parent
  | group h => schema ≠ .tes3 ∧ h.StandsAt image schema offset

/-- Bytes in the payload. -/
def dataSize : Chunk → UInt32
  | record h => h.dataSize
  | group h => h.dataSize

/-! ## Records -/

/-- The header that the words from an offset on make for a record. -/
def recordAt (image : Image) (schema : Schema) (offset : Nat) (parent : Option Nat) :
    RecordHeader :=
  let word (i : Nat) : UInt32 := Bytes.word32 (image.slice i 4)
  { tag := ⟨word offset⟩
    dataSize := word (offset + 4)
    flags := word (offset + schema.flagsOffset)
    form := if schema = .tes3 then .none else ⟨word (offset + 12)⟩
    position := offset + schema.recordHeaderSize
    parent }

theorem standsAt_record_iff {h : RecordHeader} :
    h.StandsAt image schema offset ∧ h.parent = parent ↔
      offset + schema.recordHeaderSize ≤ image.size ∧
        recordAt image schema offset parent = h := by
  constructor
  · rintro ⟨H, rfl⟩
    have hform : (recordAt image schema offset h.parent).form = h.form := by
      have hform := H.form
      by_cases h3 : schema = .tes3
      · rw [if_pos h3] at hform
        exact (if_pos h3).trans hform.symm
      · rw [if_neg h3] at hform
        exact (if_neg h3).trans (congrArg FormId.mk (Image.hasWord_iff.mp hform).2)
    exact ⟨H.fits, RecordHeader.ext (congrArg Tag.mk (Image.hasWord_iff.mp H.tag).2)
      (Image.hasWord_iff.mp H.dataSize).2 (Image.hasWord_iff.mp H.flags).2 hform
      H.position.symm rfl⟩
  · rintro ⟨hfits, rfl⟩
    have hsize := schema.le_recordHeaderSize
    have hflags : schema.flagsOffset ≤ 12 := by cases schema <;> decide
    refine ⟨⟨hfits, ?_, ?_, ?_, ?_, rfl⟩, rfl⟩
    · exact Image.hasWord_word32 (by omega)
    · exact Image.hasWord_word32 (by omega)
    · exact Image.hasWord_word32 (by omega)
    · by_cases h3 : schema = .tes3
      · rw [if_pos h3, recordAt, if_pos h3]
      · rw [if_neg h3, recordAt, if_neg h3]
        exact Image.hasWord_word32 (by omega)

theorem readRecord_slice : readRecord schema offset parent (image.slice offset 24) =
    if image.size < offset + schema.recordHeaderSize then .error .shortRead
    else .ok (recordAt image schema offset parent) := by
  have hsize : schema.recordHeaderSize ≤ 24 := by cases schema <;> decide
  simp (disch := decide) only [readRecord, Image.word32_drop_slice, Image.tag_slice,
    Image.length_slice_lt_iff schema.recordHeaderSize_pos hsize]
  cases schema <;> rfl

theorem wants_nextFlags (image : Image) (schema : Schema) (offset : Nat) (parent : Option Nat) :
    (nextFlags schema).Wants image (offset + 8) (offset + schema.recordHeaderSize)
      (.ok (((recordAt image schema offset parent).flags,
        (recordAt image schema offset parent).form), offset + schema.recordHeaderSize)) := by
  cases schema with
  | tes3 => exact wants_word.bind (wants_word.bind (wants_of_eq rfl))
  | tes4 => exact wants_word.bind (wants_word.bind (wants_word.bind (wants_of_eq rfl)))
  | tes5 =>
    exact wants_word.bind (wants_word.bind (wants_word.bind (wants_word.bind (wants_of_eq rfl))))

/-- The words of a record header are taken up to its payload. -/
theorem wants_nextRecord :
    (nextRecord schema offset parent ⟨Bytes.word32 (image.slice offset 4)⟩).Wants image (offset + 4)
      (offset + schema.recordHeaderSize)
      (.ok (recordAt image schema offset parent, offset + schema.recordHeaderSize)) :=
  wants_word.bind ((wants_nextFlags image schema offset parent).bind (wants_of_eq rfl))

/-! ## Groups -/

/-- The header can be taken off a total that counts it. -/
theorem toNat_eq_add_iff {total size : UInt32} {n : Nat} :
    total.toNat = n + size.toNat ↔ n ≤ total.toNat ∧ size = total - UInt32.ofNat n := by
  have hsub (hle : n ≤ total.toNat) : (total - UInt32.ofNat n).toNat = total.toNat - n := by
    have hnat : (UInt32.ofNat n).toNat = n :=
      UInt32.toNat_ofNat_of_lt' (Nat.lt_of_le_of_lt hle total.toNat_lt)
    rw [UInt32.toNat_sub_of_le _ _ (UInt32.le_iff_toNat_le.mpr (by omega)), hnat]
  constructor
  · intro h
    have hle : n ≤ total.toNat := by omega
    refine ⟨hle, UInt32.toNat_inj.mp ?_⟩
    rw [hsub hle]
    omega
  · rintro ⟨hle, rfl⟩
    rw [hsub hle]
    omega

theorem readGroup_eq_ok_iff {bs : Bytes} {h : GroupHeader} :
    readGroup schema offset bs = .ok h ↔ 16 ≤ bs.length ∧
      schema.groupHeaderSize ≤ (Bytes.word32 (bs.drop 4)).toNat ∧
      (Bytes.word32 (bs.drop 12)).toInt32.toInt = h.kind.number ∧
      h.label = Bytes.word32 (bs.drop 8) ∧
      h.dataSize = Bytes.word32 (bs.drop 4) - UInt32.ofNat schema.groupHeaderSize ∧
      h.position = offset + schema.groupHeaderSize := by
  constructor
  · intro eq
    simp only [readGroup] at eq
    split at eq
    · cases eq
    split at eq
    · cases eq
    split at eq
    · cases eq
    split at eq
    · cases eq
    · rename_i _ htotal h16 _ kind hkind
      cases eq
      exact ⟨Nat.not_lt.mp h16, Nat.not_lt.mp htotal, GroupKind.ofNumber?_eq_some_iff.mp hkind,
        rfl, rfl, rfl⟩
  · rintro ⟨h16, htotal, hkind, hlabel, hdata, hposition⟩
    obtain ⟨label, kind, dataSize, position⟩ := h
    cases hlabel
    cases hdata
    cases hposition
    simp only [readGroup, GroupKind.ofNumber?_eq_some_iff.mpr hkind]
    rw [if_neg (by omega), if_neg (Nat.not_lt.mpr htotal), if_neg (by omega)]
    rfl

theorem readGroup_slice_eq_ok_iff (htag : image.HasWord offset Tag.GRUP.code) {h : GroupHeader} :
    readGroup schema offset (image.slice offset 24) = .ok h ↔ h.StandsAt image schema offset := by
  rw [readGroup_eq_ok_iff, GroupKind.toInt_eq_number_iff, ← Nat.not_lt]
  simp (disch := decide) only [Image.word32_drop_slice, Image.length_slice_lt_iff]
  constructor
  · rintro ⟨h16, htotal, hkind, hlabel, hdata, hposition⟩
    refine ⟨htag, ⟨_, Image.hasWord_word32 (by omega), ?_⟩, ?_, ?_, hposition⟩
    · exact toNat_eq_add_iff.mpr ⟨htotal, hdata⟩
    · exact Image.hasWord_iff.mpr ⟨by omega, hlabel.symm⟩
    · exact Image.hasWord_iff.mpr ⟨by omega, hkind⟩
  · intro H
    obtain ⟨total, htotal, hdata⟩ := H.dataSize
    obtain ⟨-, rfl⟩ := Image.hasWord_iff.mp htotal
    obtain ⟨h16, hkind⟩ := Image.hasWord_iff.mp H.kind
    obtain ⟨hle, hdata⟩ := toNat_eq_add_iff.mp hdata
    exact ⟨by omega, hle, hkind, (Image.hasWord_iff.mp H.label).2.symm, hdata, H.position⟩

/-- The words of a group header are taken in the order in which they are judged. -/
theorem nextGroup_eq (image : Image) (schema : Schema) (offset : Nat) :
    nextGroup schema offset image (offset + 4) =
      (readGroup schema offset (image.slice offset 24)).map fun h => (h, h.position) := by
  simp (disch := decide) only [readGroup, Image.word32_drop_slice, Image.length_slice_lt_iff]
  by_cases h8 : image.size < offset + 8
  · rw [if_pos h8]
    exact bind_of_error (word_eq.trans (if_pos h8)) _
  rw [if_neg h8, nextGroup, bind_of_ok (word_eq.trans (if_neg h8))]
  by_cases htotal : (Bytes.word32 (image.slice (offset + 4) 4)).toNat < schema.groupHeaderSize
  · rw [if_pos htotal, if_pos htotal]
    rfl
  -- the label and the kind are both taken before the kind is looked at
  rw [if_neg htotal, if_neg htotal,
    (wants_word.bind (wants_word.bind (wants_of_eq rfl))).run (Nat.not_lt.mp h8)]
  by_cases h16 : image.size < offset + 16
  · rw [if_pos h16, if_pos h16]
    rfl
  rw [if_neg h16, if_neg h16]
  cases GroupKind.ofNumber? (Bytes.word32 (image.slice (offset + 12) 4)).toInt32.toInt with
  | none => rfl
  | some kind => cases schema <;> rfl

/-! ## Chunks -/

theorem isGroupAt_iff : IsGroupAt image schema offset ↔ offset + 4 ≤ image.size ∧
    Tag.mk (Bytes.word32 (image.slice offset 4)) = .GRUP ∧ schema.hasGroups := by
  have hgroups : schema.hasGroups ↔ schema ≠ .tes3 := by cases schema <;> decide
  rw [IsGroupAt, Image.hasWord_iff, hgroups]
  constructor
  · rintro ⟨hne, h4, hcode⟩
    exact ⟨h4, congrArg Tag.mk hcode, hne⟩
  · rintro ⟨h4, hcode, hne⟩
    exact ⟨hne, h4, congrArg Tag.code hcode⟩

theorem read_of_isGroupAt (h : IsGroupAt image schema offset) :
    read image schema offset parent =
      (readGroup schema offset (image.slice offset 24)).map group := by
  obtain ⟨h4, hgroup⟩ := isGroupAt_iff.mp h
  simp (disch := decide) only [read, Image.tag_slice, Image.length_slice_lt_iff]
  rw [if_neg (Nat.not_lt.mpr h4), if_pos hgroup]
  cases readGroup schema offset (image.slice offset 24) <;> rfl

theorem read_of_not_isGroupAt (h : ¬IsGroupAt image schema offset) :
    read image schema offset parent =
      if image.size < offset + schema.recordHeaderSize then .error .shortRead
      else .ok (record (recordAt image schema offset parent)) := by
  have hsize := schema.le_recordHeaderSize
  simp (disch := decide) only [read, Image.tag_slice, Image.length_slice_lt_iff]
  by_cases h4 : image.size < offset + 4
  · rw [if_pos h4, if_pos (by omega)]
    rfl
  · rw [if_neg h4, readRecord_slice,
      if_neg fun hgroup => h (isGroupAt_iff.mpr ⟨Nat.not_lt.mp h4, hgroup⟩)]
    split <;> rfl

/-- A header is read where one stands, and it is that one. -/
theorem read_eq_ok_iff :
    read image schema offset parent = .ok c ↔ c.StandsAt image schema offset parent := by
  -- the first word says which kind of chunk can stand there
  by_cases h : IsGroupAt image schema offset
  · rw [read_of_isGroupAt h]
    cases c with
    | record r =>
      refine ⟨fun hread => ?_, fun H => absurd h H.1⟩
      cases hgroup : readGroup schema offset (image.slice offset 24) <;>
        rw [hgroup] at hread <;> cases hread
    | group g =>
      rw [StandsAt, ← readGroup_slice_eq_ok_iff h.2, and_iff_right h.1]
      cases readGroup schema offset (image.slice offset 24) with
      | error e => exact ⟨nofun, nofun⟩
      | ok g' => exact ⟨fun h => by cases h; rfl, fun h => by cases h; rfl⟩
  · rw [read_of_not_isGroupAt h]
    cases c with
    | record r =>
      rw [StandsAt, and_iff_right h, standsAt_record_iff, ← Nat.not_lt]
      split
      case isTrue hshort => exact ⟨nofun, fun H => absurd hshort H.1⟩
      case isFalse hfits =>
        rw [and_iff_right hfits]
        exact ⟨fun h => by cases h; rfl, fun h => by cases h; rfl⟩
    | group g =>
      refine ⟨fun hread => ?_, fun H => absurd ⟨H.1, H.2.tag⟩ h⟩
      split at hread <;> cases hread

/-- Taking a header word by word gives what reading it gives, and leaves the place at the payload.
-/
theorem next_eq : next schema parent image offset =
    (read image schema offset parent).map fun c => (c, c.position) := by
  have hstart : next schema parent image offset = _ :=
    bind_of_ok (show place image offset = .ok (offset, offset) from rfl) _
  rw [hstart]
  by_cases h : IsGroupAt image schema offset
  · obtain ⟨h4, hgroup⟩ := isGroupAt_iff.mp h
    rw [bind_of_ok (word_eq.trans (if_neg (Nat.not_lt.mpr h4))), if_pos hgroup,
      read_of_isGroupAt h]
    have hnext := nextGroup_eq image schema offset
    cases hread : readGroup schema offset (image.slice offset 24) with
    | error e =>
      rw [hread] at hnext
      exact bind_of_error hnext _
    | ok g =>
      rw [hread] at hnext
      exact bind_of_ok hnext _
  · rw [read_of_not_isGroupAt h]
    have hsize := schema.le_recordHeaderSize
    -- without a first word there is no reader to follow
    by_cases h4 : image.size < offset + 4
    · rw [bind_of_error (word_eq.trans (if_pos h4)), if_pos (by omega)]
      rfl
    · rw [bind_of_ok (word_eq.trans (if_neg h4)),
        if_neg fun hgroup => h (isGroupAt_iff.mpr ⟨Nat.not_lt.mp h4, hgroup⟩),
        (wants_nextRecord.bind (wants_of_eq rfl)).run (Nat.not_lt.mp h4)]
      split <;> rfl

/-! ## Where headers stand -/

theorem exists_read_iff_of_record (h : ¬IsGroupAt image schema offset) :
    (∃ c, read image schema offset parent = .ok c) ↔
      schema.recordHeaderSize ≤ image.size - offset := by
  have hsize := schema.recordHeaderSize_pos
  rw [read_of_not_isGroupAt h]
  split
  case isTrue hshort => exact ⟨nofun, fun hfits => by omega⟩
  case isFalse hfits => exact ⟨fun _ => by omega, fun _ => ⟨_, rfl⟩⟩

theorem exists_read_iff_of_group (h : IsGroupAt image schema offset) :
    (∃ c, read image schema offset parent = .ok c) ↔ 16 ≤ image.size - offset ∧
      (∃ total, image.HasWord (offset + 4) total ∧ schema.groupHeaderSize ≤ total.toNat) ∧
      ∃ number, image.HasWord (offset + 12) number ∧
        0 ≤ number.toInt32.toInt ∧ number.toInt32.toInt ≤ 10 := by
  simp only [read_eq_ok_iff]
  constructor
  · rintro ⟨c, H⟩
    cases c with
    | record r => exact absurd h H.1
    | group g =>
      obtain ⟨total, htotal, hdata⟩ := H.2.dataSize
      have h16 := (Image.hasWord_iff.mp H.2.kind).1
      exact ⟨by omega, ⟨total, htotal, by omega⟩, _, H.2.kind,
        GroupKind.exists_number_eq_iff.mp ⟨g.kind, GroupKind.toInt_eq_number_iff.mpr rfl⟩⟩
  · rintro ⟨h16, ⟨total, htotal, hle⟩, number, hnumber, hrange⟩
    obtain ⟨kind, hkind⟩ := GroupKind.exists_number_eq_iff.mpr hrange
    refine ⟨.group ⟨_, kind, total - UInt32.ofNat schema.groupHeaderSize, _⟩, h.1, h.2,
      ⟨total, htotal, ?_⟩, Image.hasWord_word32 (by omega), ?_, rfl⟩
    · exact toNat_eq_add_iff.mpr ⟨hle, rfl⟩
    · exact GroupKind.toInt_eq_number_iff.mp hkind ▸ hnumber

/-- No chunk ends far past the end of its file: of a header at most two words are missing, and a
size is less than `2 ^ 32`. -/
theorem stop_lt_of_read (eq : read image schema offset parent = .ok c) :
    c.stop < image.size + 8 + 0x100000000 := by
  have H := read_eq_ok_iff.mp eq
  cases c with
  | record r =>
    have hdata := r.dataSize.toNat_lt
    have hposition := H.2.1.position
    have hfits := H.2.1.fits
    simp only [stop, RecordHeader.stop]
    omega
  | group g =>
    have hdata := g.dataSize.toNat_lt
    have hposition := H.2.position
    have h16 := (Image.hasWord_iff.mp H.2.kind).1
    have hsize : schema.groupHeaderSize ≤ 24 := by cases schema <;> decide
    simp only [stop, GroupHeader.stop]
    omega

/-- **Chunk headers are read exactly.** A record is read if all of its header is in the file, and a
group if its first four words are, its total size counts at least the header, and its kind is one of
the eleven. What is read is the header that stands there, with every value in its place, and it
leads to its payload and to its end; in a file of up to `2 ^ 63` bytes both fit in 64 bits. Taking
the header word by word gives the same and moves to the payload. -/
theorem read_exact (image : Image) (schema : Schema) (offset : Nat) (parent : Option Nat) :
    (¬IsGroupAt image schema offset → ((∃ c, read image schema offset parent = .ok c) ↔
      schema.recordHeaderSize ≤ image.size - offset)) ∧
    (IsGroupAt image schema offset → ((∃ c, read image schema offset parent = .ok c) ↔
      16 ≤ image.size - offset ∧
        (∃ total, image.HasWord (offset + 4) total ∧ schema.groupHeaderSize ≤ total.toNat) ∧
        ∃ number, image.HasWord (offset + 12) number ∧
          0 ≤ number.toInt32.toInt ∧ number.toInt32.toInt ≤ 10)) ∧
    (∀ c, read image schema offset parent = .ok c ↔ c.StandsAt image schema offset parent) ∧
    (∀ c, read image schema offset parent = .ok c →
      c.position = offset + c.headerSize schema ∧ c.stop = c.position + c.dataSize.toNat ∧
        c.stop < image.size + 8 + 0x100000000) ∧
    next schema parent image offset =
      (read image schema offset parent).map fun c => (c, c.position) := by
  refine ⟨exists_read_iff_of_record, exists_read_iff_of_group, fun c => read_eq_ok_iff,
    fun c eq => ⟨position_of_read eq, ?_, stop_lt_of_read eq⟩, next_eq⟩
  cases c <;> rfl

/-- A file that ends inside the header of its only group, after the kind. -/
def cutGroup : Image := Image.ofBytes (Bytes.ofWords [Tag.GRUP.code, 30, 7, 6])

/-- The header is read, and its payload lies past the end of the file. -/
theorem read_exact_cutGroup : IsGroupAt cutGroup .tes5 0 ∧
    (∃ c, read cutGroup .tes5 0 none = .ok c) ∧ cutGroup.size = 16 ∧
    next .tes5 none cutGroup 0 = .ok (.group ⟨7, .cellChildren, 6, 24⟩, 24) := by
  have hgroup : IsGroupAt cutGroup .tes5 0 := by decide
  obtain ⟨-, hread, -⟩ := read_exact cutGroup .tes5 0 none
  refine ⟨hgroup, (hread hgroup).mpr ⟨?_, ⟨30, ?_, ?_⟩, 6, ?_, ?_, ?_⟩, rfl, rfl⟩ <;> decide

end Chunk

end GamePlugin
