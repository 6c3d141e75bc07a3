import GamePlugin.Draft
import GamePlugin.Proofs.Forest
import GamePlugin.Proofs.Words

/-!
# Reading back what was written

A file can be written front to back: a record is appended, a group is opened with an empty size, the
chunks in it are appended, and when it is finished its size is filled in. `Writer` does that and
keeps a list of what it wrote. It arrives at the same bytes as `Draft.encode`, which knows every
size beforehand, and the outline of those bytes is exactly its list.

## Main definitions

* `Draft.forest` — the shape of a draft that is written at an offset.
* `Draft.Valid` — drafts whose sizes fit their headers and whose chunks are what they seem.
* `Writer`, `Draft.write` — writing front to back, with what was written.
-/

namespace GamePlugin

@[simp] theorem Image.size_ofBytes (bs : Bytes) : (Image.ofBytes bs).size = bs.length := by
  simp [Image.ofBytes, ByteArray.size]

theorem Image.slice_ofBytes (bs : Bytes) (offset n : Nat) :
    (Image.ofBytes bs).slice offset n = (bs.drop offset).take n := by
  rw [Image.slice_eq, Image.bytes_ofBytes]

namespace Draft

/-! ## One header -/

/-- The words of a record header. -/
def recordWords (schema : Schema) (tag : Tag) (flags : UInt32) (form : FormId) (size : Nat) :
    List UInt32 :=
  tag.code :: UInt32.ofNat size ::
    match schema with
    | .tes3 => [0, flags]
    | .tes4 => [flags, form.value, 0]
    | .tes5 => [flags, form.value, 0, formVersion]

theorem encodeRecord_eq (schema : Schema) (tag : Tag) (flags : UInt32) (form : FormId)
    (payload : Bytes) :
    encodeRecord schema tag flags form payload =
      Bytes.ofWords (recordWords schema tag flags form payload.length) ++ payload := by
  cases schema <;>
    simp [encodeRecord, recordWords, Bytes.ofWords, Tag.bytes, Bytes.ofUInt32_ofNat]

theorem length_recordWords (schema : Schema) (tag : Tag) (flags : UInt32) (form : FormId)
    (size : Nat) :
    4 * (recordWords schema tag flags form size).length = schema.recordHeaderSize := by
  cases schema <;> rfl

@[simp] theorem length_encodeRecord (schema : Schema) (tag : Tag) (flags : UInt32) (form : FormId)
    (payload : Bytes) :
    (encodeRecord schema tag flags form payload).length =
      schema.recordHeaderSize + payload.length := by
  rw [encodeRecord_eq, List.length_append, Bytes.length_ofWords, length_recordWords]

/-- The words of a group header. -/
def groupWords (schema : Schema) (label : UInt32) (kind : GroupKind) (total : UInt32) :
    List UInt32 :=
  Tag.GRUP.code :: total :: label :: UInt32.ofNat kind.number ::
    match schema with
    | .tes3 => [0]
    | .tes4 => [0]
    | .tes5 => [0, 0]

theorem encodeGroup_eq (schema : Schema) (label : UInt32) (kind : GroupKind) (content : Bytes) :
    encodeGroup schema label kind content =
      Bytes.ofWords (groupWords schema label kind
        (UInt32.ofNat (schema.groupHeaderSize + content.length))) ++ content := by
  have hzero : Bytes.ofUInt32 0 = Bytes.zeros 4 := rfl
  have hzeros : Bytes.zeros 4 ++ Bytes.zeros 4 = Bytes.zeros 8 := rfl
  simp only [encodeGroup]
  generalize schema.groupHeaderSize + content.length = total
  cases schema <;>
    simp [groupWords, Bytes.ofWords, Tag.bytes, Bytes.ofUInt32_ofNat, hzero,
      Schema.groupHeaderSize, ← hzeros]

theorem length_groupWords (schema : Schema) (label : UInt32) (kind : GroupKind) (total : UInt32) :
    4 * (groupWords schema label kind total).length = schema.groupHeaderSize := by
  cases schema <;> rfl

@[simp] theorem length_encodeGroup (schema : Schema) (label : UInt32) (kind : GroupKind)
    (content : Bytes) :
    (encodeGroup schema label kind content).length =
      schema.groupHeaderSize + content.length := by
  rw [encodeGroup_eq, List.length_append, Bytes.length_ofWords, length_groupWords]

/-- The header of a record that is written at an offset. The oldest schema has no room for a form
id. -/
def recordHeader (schema : Schema) (offset : Nat) (tag : Tag) (flags : UInt32) (form : FormId)
    (payload : Bytes) : RecordHeader :=
  { tag
    dataSize := UInt32.ofNat payload.length
    flags
    form := if schema = .tes3 then .none else form
    position := offset + schema.recordHeaderSize
    parent := none }

/-- The header of a group that is written at an offset. -/
def groupHeader (schema : Schema) (offset : Nat) (label : UInt32) (kind : GroupKind)
    (content : Bytes) : GroupHeader :=
  { label
    kind
    dataSize := UInt32.ofNat content.length
    position := offset + schema.groupHeaderSize }

/-- The payload's size is what the total leaves when the header is taken off. -/
theorem dataSize_of_total (schema : Schema) (content : Bytes) :
    UInt32.ofNat (schema.groupHeaderSize + content.length) -
      UInt32.ofNat schema.groupHeaderSize = UInt32.ofNat content.length := by
  rw [UInt32.ofNat_add, UInt32.add_comm, UInt32.add_sub_cancel]

theorem number_of_kindWord (kind : GroupKind) :
    (UInt32.ofNat kind.number).toInt32.toInt = kind.number := by
  cases kind <;> rfl

theorem readRecord_of_shows {bs : Bytes} {schema : Schema} {tag : Tag} {flags : UInt32}
    {form : FormId} {payload : Bytes} (offset : Nat)
    (H : bs.Shows (recordWords schema tag flags form payload.length)) :
    Chunk.readRecord schema offset none bs =
      .ok (recordHeader schema offset tag flags form payload) := by
  have hlen := H.length_le
  rw [length_recordWords] at hlen
  have htag : Tag.ofBytes bs = tag := Tag.ofBytes_of_shows H
  have hsize : Bytes.word32 (bs.drop 4) = UInt32.ofNat payload.length := H.word_eq 1 _ rfl
  simp only [Chunk.readRecord, if_neg (Nat.not_lt.mpr hlen), htag, hsize]
  cases schema with
  | tes3 =>
    have hflags : Bytes.word32 (bs.drop 12) = flags := H.word_eq 3 _ rfl
    rw [hflags]
    rfl
  | tes4 | tes5 =>
    have hflags : Bytes.word32 (bs.drop 8) = flags := H.word_eq 2 _ rfl
    have hform : Bytes.word32 (bs.drop 12) = form.value := H.word_eq 3 _ rfl
    rw [hflags, hform]
    rfl

theorem readGroup_of_shows {bs : Bytes} {schema : Schema} {label : UInt32} {kind : GroupKind}
    {content : Bytes} (offset : Nat)
    (H : bs.Shows (groupWords schema label kind
      (UInt32.ofNat (schema.groupHeaderSize + content.length))))
    (hfit : schema.groupHeaderSize + content.length < 2 ^ 32) :
    Chunk.readGroup schema offset bs = .ok (groupHeader schema offset label kind content) := by
  have hlen := H.length_le
  rw [length_groupWords] at hlen
  have hlong : 16 < schema.groupHeaderSize := by cases schema <;> decide
  have htotal : Bytes.word32 (bs.drop 4) =
      UInt32.ofNat (schema.groupHeaderSize + content.length) := H.word_eq 1 _ rfl
  have hlabel : Bytes.word32 (bs.drop 8) = label := H.word_eq 2 _ rfl
  have hkind : Bytes.word32 (bs.drop 12) = UInt32.ofNat kind.number := H.word_eq 3 _ rfl
  have hnat : (UInt32.ofNat (schema.groupHeaderSize + content.length)).toNat =
      schema.groupHeaderSize + content.length := UInt32.toNat_ofNat_of_lt' hfit
  have hdata := dataSize_of_total schema content
  simp only [Chunk.readGroup, htotal, hlabel, hkind, hnat, number_of_kindWord,
    GroupKind.ofNumber?_number, hdata]
  rw [if_neg (by omega), if_neg (by omega), if_neg (by omega)]
  rfl

/-- The header of a written record is read back. -/
theorem read_encodeRecord {bs : Bytes} {schema : Schema} {offset : Nat} {tag : Tag}
    {flags : UInt32} {form : FormId} {payload : Bytes}
    (hbs : encodeRecord schema tag flags form payload <+: bs.drop offset)
    (htag : ¬(tag = .GRUP ∧ schema.hasGroups)) :
    Chunk.read (Image.ofBytes bs) schema offset none =
      .ok (.record (recordHeader schema offset tag flags form payload)) := by
  obtain ⟨tail, htail⟩ := hbs
  rw [encodeRecord_eq, List.append_assoc] at htail
  have hshows : ((Image.ofBytes bs).slice offset 24).Shows
      (recordWords schema tag flags form payload.length) := by
    rw [Image.slice_ofBytes, ← htail]
    refine (Bytes.Shows.of_append _ _).take ?_
    rw [length_recordWords]
    cases schema <;> decide
  have hlen := hshows.length_le
  rw [length_recordWords] at hlen
  have hlong : 4 < schema.recordHeaderSize := by cases schema <;> decide
  rw [Chunk.read, if_neg (by omega), Tag.ofBytes_of_shows hshows, if_neg htag,
    readRecord_of_shows offset hshows]
  rfl

/-- The header of a written group is read back. -/
theorem read_encodeGroup {bs : Bytes} {schema : Schema} {offset : Nat} {label : UInt32}
    {kind : GroupKind} {content : Bytes}
    (hbs : encodeGroup schema label kind content <+: bs.drop offset)
    (hgroups : schema.hasGroups) (hfit : schema.groupHeaderSize + content.length < 2 ^ 32) :
    Chunk.read (Image.ofBytes bs) schema offset none =
      .ok (.group (groupHeader schema offset label kind content)) := by
  obtain ⟨tail, htail⟩ := hbs
  rw [encodeGroup_eq, List.append_assoc] at htail
  have hshows : ((Image.ofBytes bs).slice offset 24).Shows (groupWords schema label kind
      (UInt32.ofNat (schema.groupHeaderSize + content.length))) := by
    rw [Image.slice_ofBytes, ← htail]
    refine (Bytes.Shows.of_append _ _).take ?_
    rw [length_groupWords]
    cases schema <;> decide
  have hlen := hshows.length_le
  rw [length_groupWords] at hlen
  have hlong : 4 < schema.groupHeaderSize := by cases schema <;> decide
  rw [Chunk.read, if_neg (by omega), Tag.ofBytes_of_shows hshows, if_pos ⟨rfl, hgroups⟩,
    readGroup_of_shows offset hshows hfit]
  rfl

/-! ## The shape of a draft -/

mutual

/-- The shape of a chunk that is written at an offset. -/
def forest (schema : Schema) (offset : Nat) : Draft → Forest
  | record tag flags form payload =>
    .record (recordHeader schema offset tag flags form payload) .nil
  | group label kind chunks =>
    .group (groupHeader schema offset label kind (encodeAll schema chunks))
      (forestAll schema (offset + schema.groupHeaderSize) chunks) .nil
  | raw _ => .nil

/-- The shape of chunks that are written in a row from an offset on. -/
def forestAll (schema : Schema) (offset : Nat) : List Draft → Forest
  | [] => .nil
  | d :: ds =>
    (forest schema offset d).append (forestAll schema (offset + (encode schema d).length) ds)

end

mutual

/-- The chunk can be told by its header: its size fits, no record has the tag of groups in a schema
that has groups, and no group is written in one that has not. -/
def Valid (schema : Schema) : Draft → Prop
  | record tag _ _ payload => payload.length < 2 ^ 32 ∧ ¬(tag = .GRUP ∧ schema.hasGroups)
  | group _ _ chunks =>
    schema.hasGroups ∧ schema.groupHeaderSize + (encodeAll schema chunks).length < 2 ^ 32 ∧
      ValidAll schema chunks
  | raw _ => False

/-- All chunks can be told by their headers. -/
def ValidAll (schema : Schema) : List Draft → Prop
  | [] => True
  | d :: ds => Valid schema d ∧ ValidAll schema ds

end

/-- What is at an offset of a file goes on after its first part. -/
theorem prefix_drop_append {xs ys bs : Bytes} {offset : Nat} (h : xs ++ ys <+: bs.drop offset) :
    xs <+: bs.drop offset ∧ ys <+: bs.drop (offset + xs.length) := by
  obtain ⟨tail, htail⟩ := h
  refine ⟨⟨ys ++ tail, by rw [← htail, List.append_assoc]⟩, ⟨tail, ?_⟩⟩
  rw [← List.drop_drop, ← htail, List.append_assoc, List.drop_left]

mutual

/-- The bytes of a chunk have the chunk's shape, wherever they are in a file. -/
theorem fills_forest {bs : Bytes} {schema : Schema} (offset : Nat) :
    (d : Draft) → Valid schema d → encode schema d <+: bs.drop offset →
      (forest schema offset d).Fills (Image.ofBytes bs) schema offset
        (offset + (encode schema d).length)
  | record tag flags form payload, hvalid, hbs => by
    have hread := read_encodeRecord hbs hvalid.2
    have hpos := schema.recordHeaderSize_pos
    have hstop : (recordHeader schema offset tag flags form payload).stop =
        offset + (encodeRecord schema tag flags form payload).length := by
      have hsize : (UInt32.ofNat payload.length).toNat = payload.length :=
        UInt32.toNat_ofNat_of_lt' hvalid.1
      simp [RecordHeader.stop, recordHeader, hsize, Nat.add_assoc]
    refine ⟨?_, hread, hstop⟩
    simp only [encode, length_encodeRecord]
    omega
  | group label kind chunks, hvalid, hbs => by
    obtain ⟨hgroups, hfit, hchunks⟩ := hvalid
    have hread := read_encodeGroup hbs hgroups hfit
    have hpos := schema.groupHeaderSize_pos
    have hstop : (groupHeader schema offset label kind (encodeAll schema chunks)).stop =
        offset + schema.groupHeaderSize + (encodeAll schema chunks).length := by
      have hlt := Nat.lt_of_le_of_lt (Nat.le_add_left ..) hfit
      have hsize : (UInt32.ofNat (encodeAll schema chunks).length).toNat =
          (encodeAll schema chunks).length := UInt32.toNat_ofNat_of_lt' hlt
      simp [GroupHeader.stop, groupHeader, hsize]
    have hcontent : encodeAll schema chunks <+: bs.drop (offset + schema.groupHeaderSize) := by
      rw [encode, encodeGroup_eq] at hbs
      have := (prefix_drop_append hbs).2
      rwa [Bytes.length_ofWords, length_groupWords] at this
    have hinside := fills_forestAll (offset + schema.groupHeaderSize) chunks hchunks hcontent
    refine ⟨?_, hread, ?_, ?_⟩
    · simp only [encode, length_encodeGroup]
      omega
    · rw [hstop]
      exact hinside
    · rw [hstop, encode, length_encodeGroup, Nat.add_assoc]
      rfl
  | raw _, hvalid, _ => hvalid.elim

theorem fills_forestAll {bs : Bytes} {schema : Schema} (offset : Nat) :
    (ds : List Draft) → ValidAll schema ds → encodeAll schema ds <+: bs.drop offset →
      (forestAll schema offset ds).Fills (Image.ofBytes bs) schema offset
        (offset + (encodeAll schema ds).length)
  | [], _, _ => rfl
  | d :: ds, hvalid, hbs => by
    rw [encodeAll] at hbs
    obtain ⟨hfirst, hrest⟩ := prefix_drop_append hbs
    have hd := fills_forest offset d hvalid.1 hfirst
    have hds := fills_forestAll (offset + (encode schema d).length) ds hvalid.2 hrest
    rw [encodeAll, List.length_append, ← Nat.add_assoc]
    exact hd.append hds

end

end Draft

/-! ## Writing front to back -/

/-- A file that is being written, with what has been written to it. -/
structure Writer where
  buffer : Bytes := []
  /-- The records, in the order they were written. -/
  records : List Outline.RecordEntry := []
  /-- The groups, in the order they were opened. A group has its size once it is finished. -/
  groups : List Outline.GroupEntry := []
  /-- Headers of the groups, in the order they were finished. -/
  finished : List GroupHeader := []

namespace Writer

/-- Writes a record into group `owner`. -/
def putRecord (w : Writer) (schema : Schema) (owner : Option Nat) (tag : Tag) (flags : UInt32)
    (form : FormId) (payload : Bytes) : Writer :=
  { w with
    buffer := w.buffer ++ Draft.encodeRecord schema tag flags form payload
    records := w.records ++
      [⟨Draft.recordHeader schema w.buffer.length tag flags form payload, owner⟩] }

/-- Opens a group in group `owner`. Its header is written with a size of zero. -/
def openGroup (w : Writer) (schema : Schema) (owner : Option Nat) (label : UInt32)
    (kind : GroupKind) : Writer :=
  { w with
    buffer := w.buffer ++ Bytes.ofWords (Draft.groupWords schema label kind 0)
    groups := w.groups ++
      [⟨{ label, kind, dataSize := 0, position := w.buffer.length + schema.groupHeaderSize },
        owner⟩] }

/-- The bytes with four of them replaced by a word. -/
def patch (bs : Bytes) (offset : Nat) (word : UInt32) : Bytes :=
  bs.take offset ++ Bytes.ofUInt32 word ++ bs.drop (offset + 4)

/-- Finishes the group that was opened at `start`, as the one at `index`: its size is all that has
been written since. -/
def finish (w : Writer) (schema : Schema) (start index : Nat) (label : UInt32)
    (kind : GroupKind) : Writer :=
  let total := UInt32.ofNat (w.buffer.length - start)
  let header : GroupHeader :=
    { label
      kind
      dataSize := total - UInt32.ofNat schema.groupHeaderSize
      position := start + schema.groupHeaderSize }
  { w with
    buffer := patch w.buffer (start + 4) total
    groups := w.groups.modify index fun e => { e with header }
    finished := w.finished ++ [header] }

/-- The file after bytes of a known shape, in group `owner`, have been written. -/
def extend (w : Writer) (bytes : Bytes) (owner : Option Nat) (f : Forest)
    (finished : List GroupHeader) : Writer :=
  { buffer := w.buffer ++ bytes
    records := w.records ++ f.recordEntries owner w.groups.length
    groups := w.groups ++ f.groupEntries owner w.groups.length
    finished := w.finished ++ finished }

theorem extend_extend (w : Writer) (owner : Option Nat) (xs ys : Bytes) (f g : Forest)
    (hs ks : List GroupHeader) :
    (w.extend xs owner f hs).extend ys owner g ks =
      w.extend (xs ++ ys) owner (f.append g) (hs ++ ks) := by
  simp [extend, Forest.recordEntries_append, Forest.groupEntries_append]

/-- Filling in the second word of what follows the first bytes. -/
theorem patch_ofWords (bs : Bytes) (a b c : UInt32) (ws : List UInt32) (rest : Bytes) :
    patch (bs ++ (Bytes.ofWords (a :: b :: ws) ++ rest)) (bs.length + 4) c =
      bs ++ (Bytes.ofWords (a :: c :: ws) ++ rest) := by
  have hhead : (bs ++ Bytes.ofUInt32 a).length = bs.length + 4 := by simp
  have hword : (bs ++ Bytes.ofUInt32 a ++ Bytes.ofUInt32 b).length = bs.length + 4 + 4 := by simp
  have hsplit (w : UInt32) : bs ++ (Bytes.ofWords (a :: w :: ws) ++ rest) =
      bs ++ Bytes.ofUInt32 a ++ Bytes.ofUInt32 w ++ (Bytes.ofWords ws ++ rest) := by
    simp [Bytes.ofWords]
  rw [patch, hsplit b, hsplit c, List.drop_left' hword, List.append_assoc (bs ++ _),
    List.take_left' hhead]

theorem modify_placeholder {α : Type} (xs ys : List α) (a : α) (f : α → α) :
    (xs ++ a :: ys).modify xs.length f = xs ++ f a :: ys := by
  induction xs with
  | nil => rfl
  | cons x xs ih => simp [ih]

@[simp] theorem length_buffer_openGroup (w : Writer) (schema : Schema) (owner : Option Nat)
    (label : UInt32) (kind : GroupKind) :
    (w.openGroup schema owner label kind).buffer.length =
      w.buffer.length + schema.groupHeaderSize := by
  simp [openGroup, Draft.length_groupWords]

/-- A group that is opened, filled and finished is a group written with its size. -/
theorem finish_extend_openGroup (w : Writer) (schema : Schema) (owner : Option Nat)
    (label : UInt32) (kind : GroupKind) (content : Bytes) (f : Forest) (hs : List GroupHeader) :
    ((w.openGroup schema owner label kind).extend content (some w.groups.length) f hs).finish
        schema w.buffer.length w.groups.length label kind =
      w.extend (Draft.encodeGroup schema label kind content) owner
        (.group (Draft.groupHeader schema w.buffer.length label kind content) f .nil)
        (hs ++ [Draft.groupHeader schema w.buffer.length label kind content]) := by
  generalize hfilled : (w.openGroup schema owner label kind).extend content
    (some w.groups.length) f hs = filled
  have hbuffer : filled.buffer =
      w.buffer ++ (Bytes.ofWords (Draft.groupWords schema label kind 0) ++ content) := by
    rw [← hfilled]
    simp [extend, openGroup]
  have hgroups : filled.groups = w.groups ++
      ⟨⟨label, kind, 0, w.buffer.length + schema.groupHeaderSize⟩, owner⟩ ::
        f.groupEntries (some w.groups.length) (w.groups.length + 1) := by
    rw [← hfilled]
    simp [extend, openGroup]
  have htotal : filled.buffer.length - w.buffer.length =
      schema.groupHeaderSize + content.length := by
    simp [hbuffer, Draft.length_groupWords]
  have hsize := Draft.dataSize_of_total schema content
  have hpatch : patch filled.buffer (w.buffer.length + 4)
      (UInt32.ofNat (schema.groupHeaderSize + content.length)) =
        w.buffer ++ Draft.encodeGroup schema label kind content := by
    rw [hbuffer, Draft.encodeGroup_eq]
    exact patch_ofWords ..
  simp only [finish, htotal, hsize, hpatch, hgroups, modify_placeholder]
  rw [← hfilled]
  simp [extend, openGroup, Draft.groupHeader]

end Writer

namespace Draft

mutual

/-- Writes a chunk into group `owner`. -/
def write (schema : Schema) (owner : Option Nat) : Draft → Writer → Writer
  | record tag flags form payload, w => w.putRecord schema owner tag flags form payload
  | group label kind chunks, w =>
    (writeAll schema (some w.groups.length) chunks (w.openGroup schema owner label kind)).finish
      schema w.buffer.length w.groups.length label kind
  | raw bytes, w => { w with buffer := w.buffer ++ bytes }

/-- Writes chunks in a row into group `owner`. -/
def writeAll (schema : Schema) (owner : Option Nat) : List Draft → Writer → Writer
  | [], w => w
  | d :: ds, w => writeAll schema owner ds (write schema owner d w)

end

mutual

/-- Writing front to back arrives at the bytes that are made with all sizes known, and lists the
shape of the draft. -/
theorem write_eq (schema : Schema) (owner : Option Nat) :
    (d : Draft) → (w : Writer) →
      write schema owner d w = w.extend (encode schema d) owner
        (forest schema w.buffer.length d) (groupHeaders schema w.buffer.length d)
  | record tag flags form payload, w => by
    simp [write, Writer.putRecord, Writer.extend, encode, forest, groupHeaders]
  | group label kind chunks, w => by
    rw [write, writeAll_eq, Writer.finish_extend_openGroup, Writer.length_buffer_openGroup]
    rfl
  | raw bytes, w => by
    simp [write, Writer.extend, encode, forest, groupHeaders]

theorem writeAll_eq (schema : Schema) (owner : Option Nat) :
    (ds : List Draft) → (w : Writer) →
      writeAll schema owner ds w = w.extend (encodeAll schema ds) owner
        (forestAll schema w.buffer.length ds) (groupHeadersAll schema w.buffer.length ds)
  | [], w => by simp [writeAll, Writer.extend, encodeAll, forestAll, groupHeadersAll]
  | d :: ds, w => by
    rw [writeAll, writeAll_eq schema owner ds, write_eq schema owner d, Writer.extend_extend,
      encodeAll, forestAll, groupHeadersAll]
    simp [Writer.extend]

end

end Draft

/-! ## Files -/

/-- A field that needs no escape starts with its tag. -/
theorem Field.bytes_prefix_encode {schema : Schema} {tag : Tag} {payload : Bytes}
    (h : payload.length ≤ maxShortSize) : tag.bytes <+: encode schema tag payload := by
  cases schema with
  | tes3 => exact ⟨_, (List.append_assoc ..).symm⟩
  | tes4 | tes5 =>
    rw [encode, if_pos h]
    exact ⟨_, (List.append_assoc ..).symm⟩

/-- The first field of a root record is `HEDR`. -/
theorem RootDraft.hedr_prefix_headerFields (edition : Edition) :
    Tag.HEDR.bytes <+: headerFields edition := by
  simp only [headerFields]
  split
  · refine Field.bytes_prefix_encode ?_
    simp [Bytes.padTo, Bytes.zeros, Field.maxShortSize]
    omega
  · refine (Field.bytes_prefix_encode ?_).trans (List.prefix_append ..)
    simp [Field.maxShortSize]

/-- The schema of a file can be told from the tag of its root record and the place of the first
field after the root header. -/
theorem Schema.detect_of_shows {image : Image} {schema : Schema} {tag : Tag} {flags : UInt32}
    {form : FormId} {size : Nat} (htag : tag = if schema = .tes3 then .TES3 else .TES4)
    (h : (image.slice 0 28).Shows
      (Draft.recordWords schema tag flags form size ++ [Tag.HEDR.code])) :
    Schema.detect image = .ok schema := by
  simp only [Schema.detect]
  generalize image.slice 0 28 = window at h ⊢
  have hlen := h.length_le
  rw [List.length_append, Nat.mul_add, Draft.length_recordWords, List.length_singleton] at hlen
  rw [Tag.ofBytes_of_shows h]
  cases schema with
  | tes3 =>
    simp only [Schema.recordHeaderSize] at hlen
    rw [if_neg (by omega), htag, if_pos (by decide)]
    rfl
  | tes4 =>
    simp only [Schema.recordHeaderSize] at hlen
    have hhedr : Tag.ofBytes (window.drop 20) = .HEDR := congrArg Tag.mk (h.word_eq 5 _ rfl)
    rw [if_neg (by omega), htag, if_neg (by decide), if_pos (by decide), if_pos ⟨by omega, hhedr⟩]
    rfl
  | tes5 =>
    simp only [Schema.recordHeaderSize] at hlen
    have hversion : Tag.ofBytes (window.drop 20) = ⟨Draft.formVersion⟩ :=
      congrArg Tag.mk (h.word_eq 5 _ rfl)
    have hhedr : Tag.ofBytes (window.drop 24) = .HEDR := congrArg Tag.mk (h.word_eq 6 _ rfl)
    rw [if_neg (by omega), htag, if_neg (by decide), if_pos (by decide), hversion,
      if_neg (fun h => absurd h.2 (by decide)), if_pos ⟨by omega, hhedr⟩]
    rfl

/-- A file whose first record is a root record with `HEDR` as its first field is of the schema it
was written in. -/
theorem Schema.detect_encodeRecord {schema : Schema} {tag : Tag}
    (htag : tag = if schema = .tes3 then .TES3 else .TES4) (flags : UInt32) (form : FormId)
    {payload : Bytes} (h : Tag.HEDR.bytes <+: payload) (rest : Bytes) :
    Schema.detect (Image.ofBytes (Draft.encodeRecord schema tag flags form payload ++ rest)) =
      .ok schema := by
  obtain ⟨more, rfl⟩ := h
  have hword : Bytes.ofWords [Tag.HEDR.code] = Tag.HEDR.bytes := by
    simp [Bytes.ofWords, Tag.bytes]
  have hbytes : Draft.encodeRecord schema tag flags form (Tag.HEDR.bytes ++ more) ++ rest =
      Bytes.ofWords (Draft.recordWords schema tag flags form (Tag.HEDR.bytes ++ more).length ++
        [Tag.HEDR.code]) ++ (more ++ rest) := by
    rw [Draft.encodeRecord_eq, Bytes.ofWords_append, hword]
    simp only [List.append_assoc]
  have hfit : 4 * (Draft.recordWords schema tag flags form (Tag.HEDR.bytes ++ more).length ++
      [Tag.HEDR.code]).length ≤ 28 := by
    rw [List.length_append, Nat.mul_add, Draft.length_recordWords]
    cases schema <;> decide
  have hslice : (Image.ofBytes (Draft.encodeRecord schema tag flags form (Tag.HEDR.bytes ++ more) ++
      rest)).slice 0 28 = (Bytes.ofWords (Draft.recordWords schema tag flags form
        (Tag.HEDR.bytes ++ more).length ++ [Tag.HEDR.code]) ++ (more ++ rest)).take 28 := by
    rw [Image.slice_ofBytes, List.drop_zero, hbytes]
  exact detect_of_shows htag (hslice ▸ (Bytes.Shows.of_append _ _).take hfit)

namespace PluginDraft

/-- The file, written front to back. -/
def write (p : PluginDraft) : Writer := Draft.writeAll p.edition.schema none p.allChunks {}

/-- The schema of a written file can be told from its root record. -/
theorem detect_encode (p : PluginDraft) :
    Schema.detect (Image.ofBytes p.encode) = .ok p.edition.schema := by
  have hhedr : Tag.HEDR.bytes <+: RootDraft.headerFields p.edition ++
      p.root.names.flatMap (RootDraft.masterFields p.edition.schema) :=
    (RootDraft.hedr_prefix_headerFields p.edition).trans (List.prefix_append ..)
  rw [encode, allChunks, Draft.encodeAll, RootDraft.draft, Draft.encode]
  exact Schema.detect_encodeRecord rfl p.root.flags .none hhedr _

/-- The outline of a written file is of the shape of its draft. -/
theorem ofImage_encode (p : PluginDraft) (hp : Draft.ValidAll p.edition.schema p.allChunks) :
    Outline.ofImage (Image.ofBytes p.encode) = .ok (Outline.ofForest p.edition.schema
      p.encode.length (Draft.forestAll p.edition.schema 0 p.allChunks)) := by
  have hbytes : Draft.encodeAll p.edition.schema p.allChunks <+: p.encode.drop 0 :=
    List.prefix_refl _
  have hfills := Draft.fills_forestAll 0 p.allChunks hp hbytes
  rw [Nat.zero_add] at hfills
  refine Outline.ofImage_eq_ok_iff.mpr ⟨_, p.detect_encode,
    Draft.forestAll p.edition.schema 0 p.allChunks, ?_, ?_⟩
  · rw [Image.size_ofBytes]
    exact hfills
  · rw [Image.size_ofBytes]

/-- **Outlining a written file gives back what was written.** Writing front to back makes the bytes
and the finished headers of the draft, and the outline of those bytes lists the records as they were
written and the groups as they were opened, each with the header that finishing it gave. -/
theorem outline_write (p : PluginDraft) (hp : Draft.ValidAll p.edition.schema p.allChunks) :
    p.write.buffer = p.encode ∧ p.write.finished = p.groupHeaders ∧
      Outline.ofImage (Image.ofBytes p.write.buffer) = .ok
        { schema := p.edition.schema
          length := p.write.buffer.length
          records := p.write.records.toArray
          groups := p.write.groups.toArray } := by
  have hwrite : p.write = Writer.extend {} p.encode none
      (Draft.forestAll p.edition.schema 0 p.allChunks) p.groupHeaders :=
    Draft.writeAll_eq p.edition.schema none p.allChunks {}
  have hbuffer : p.write.buffer = p.encode := by rw [hwrite]; rfl
  refine ⟨hbuffer, by rw [hwrite]; rfl, ?_⟩
  rw [hbuffer, p.ofImage_encode hp, hwrite]
  rfl

/-- A file that builds on another, with records in nested groups and an empty group. -/
def nested : PluginDraft where
  edition := .skyrim
  root := .masters ["Base.esm"]
  chunks :=
    [.group Tag.CELL.code .top
      [.group 0 .interiorCellBlock [.record .CELL 0x20 ⟨7⟩ [1, 2, 3]], .record .GLOB 0 ⟨8⟩ []],
     .group Tag.GLOB.code .top []]

theorem valid_nested : Draft.ValidAll nested.edition.schema nested.allChunks := by
  simp only [nested, allChunks, Draft.ValidAll, Draft.Valid, RootDraft.draft, RootDraft.names,
    RootDraft.headerFields, Edition.schema, Field.encode, Draft.encodeAll, Draft.encode,
    Draft.length_encodeRecord, Draft.length_encodeGroup, List.length_append]
  simp
  decide

theorem outline_write_nested :
    Outline.ofImage (Image.ofBytes nested.encode) = .ok
      { schema := .tes5
        length := nested.write.buffer.length
        records := nested.write.records.toArray
        groups := nested.write.groups.toArray } := by
  obtain ⟨hbuffer, -, houtline⟩ := outline_write nested valid_nested
  rw [← hbuffer]
  exact houtline

end PluginDraft

end GamePlugin
