import GamePlugin.Chunk.Read

/-!
# Chunks in a row

A chunk header says where its chunk ends, and the next chunk starts there. A range of a file is
*cut* into chunks if following the headers from its start leads exactly to its end. There is then
one such cut (`Chunk.cut_of_run`), and its chunks lie in the range one after another.

The group node that a header is read for is copied into record headers and decides nothing else, so
facts are stated for headers read for no node.

## Main definitions

* `Chunk.Run` — the chunks that a range is cut into; `Chunk.cut` — the same, computed.
-/

namespace GamePlugin

/-- The same header, for another group node. -/
def RecordHeader.under (h : RecordHeader) (parent : Option Nat) : RecordHeader := { h with parent }

@[simp] theorem RecordHeader.position_under (h : RecordHeader) (parent : Option Nat) :
    (h.under parent).position = h.position := rfl

@[simp] theorem RecordHeader.stop_under (h : RecordHeader) (parent : Option Nat) :
    (h.under parent).stop = h.stop := rfl

@[simp] theorem RecordHeader.under_under (h : RecordHeader) (p q : Option Nat) :
    (h.under p).under q = h.under q := rfl

theorem Schema.recordHeaderSize_pos (schema : Schema) : 0 < schema.recordHeaderSize := by
  cases schema <;> decide

theorem Schema.le_recordHeaderSize (schema : Schema) : 16 ≤ schema.recordHeaderSize := by
  cases schema <;> decide

theorem Schema.eq_tes3_of_not_hasGroups {schema : Schema} (h : ¬schema.hasGroups) :
    schema = .tes3 := by
  cases schema with
  | tes3 => rfl
  | tes4 | tes5 => exact absurd rfl h

theorem Schema.groupHeaderSize_pos (schema : Schema) : 0 < schema.groupHeaderSize := by
  cases schema <;> decide

theorem Image.length_slice (image : Image) (offset n : Nat) :
    (image.slice offset n).length = min n (image.size - offset) := by
  rw [slice_eq, List.length_take, List.length_drop]
  rfl

/-- A word of a slice is a word of the file. -/
theorem Image.word32_drop_slice (image : Image) {offset n k : Nat} (hk : k + 4 ≤ n) :
    Bytes.word32 ((image.slice offset n).drop k) = Bytes.word32 (image.slice (offset + k) 4) := by
  have htake : ((image.slice offset n).drop k).take 4 = (image.slice (offset + k) 4).take 4 := by
    rw [slice_eq, slice_eq, List.drop_take, List.drop_drop, List.take_take, List.take_take]
    congr 1
    omega
  rw [Bytes.word32, Bytes.word32, htake]

namespace Chunk

variable {image : Image} {schema : Schema}

@[simp] theorem position_record (h : RecordHeader) : (record h).position = h.position := rfl
@[simp] theorem position_group (h : GroupHeader) : (group h).position = h.position := rfl
@[simp] theorem stop_record (h : RecordHeader) : (record h).stop = h.stop := rfl
@[simp] theorem stop_group (h : GroupHeader) : (group h).stop = h.stop := rfl

/-- The same chunk, with a record read for another group node. -/
def under (parent : Option Nat) : Chunk → Chunk
  | record h => record (h.under parent)
  | group h => group h

@[simp] theorem stop_under (parent : Option Nat) (c : Chunk) : (c.under parent).stop = c.stop := by
  cases c <;> rfl

/-- Bytes in the header of a chunk. -/
def headerSize (schema : Schema) : Chunk → Nat
  | record _ => schema.recordHeaderSize
  | group _ => schema.groupHeaderSize

/-- No header is shorter than that of a record. -/
theorem recordHeaderSize_le_headerSize (schema : Schema) (c : Chunk) :
    schema.recordHeaderSize ≤ c.headerSize schema := by
  cases c <;> cases schema <;> simp [headerSize, Schema.recordHeaderSize, Schema.groupHeaderSize]

theorem headerSize_pos (schema : Schema) (c : Chunk) : 0 < c.headerSize schema := by
  cases c
  · exact schema.recordHeaderSize_pos
  · exact schema.groupHeaderSize_pos

/-- The header of a record, if the chunk is one. -/
def record? : Chunk → Option RecordHeader
  | record h => some h
  | group _ => none

/-- The header of a group, if the chunk is one. -/
def group? : Chunk → Option GroupHeader
  | record _ => none
  | group h => some h

@[simp] theorem record?_record (h : RecordHeader) : (record h).record? = some h := rfl
@[simp] theorem record?_group (h : GroupHeader) : (group h).record? = none := rfl
@[simp] theorem group?_record (h : RecordHeader) : (record h).group? = none := rfl
@[simp] theorem group?_group (h : GroupHeader) : (group h).group? = some h := rfl

/-! ## One header -/

theorem readRecord_under (offset : Nat) (parent : Option Nat) (bs : Bytes) :
    readRecord schema offset parent bs =
      (readRecord schema offset none bs).map (·.under parent) := by
  simp only [readRecord]
  split
  · rfl
  · cases schema <;> rfl

theorem readRecord_parent {offset : Nat} {parent : Option Nat} {bs : Bytes} {h : RecordHeader}
    (eq : readRecord schema offset parent bs = .ok h) : h.parent = parent := by
  simp only [readRecord] at eq
  split at eq
  · cases eq
  · cases eq; rfl

/-- The node that a header is read for is remembered and nothing more. -/
theorem read_under (offset : Nat) (parent : Option Nat) :
    read image schema offset parent = (read image schema offset none).map (under parent) := by
  simp only [read]
  split
  · rfl
  split
  · cases readGroup schema offset (image.slice offset 24) <;> rfl
  · rw [readRecord_under]
    cases readRecord schema offset none (image.slice offset 24) <;> rfl

theorem read_none_of_group {offset : Nat} {parent : Option Nat} {h : GroupHeader}
    (eq : read image schema offset parent = .ok (.group h)) :
    read image schema offset none = .ok (.group h) := by
  rw [read_under] at eq
  cases hread : read image schema offset none with
  | error e => rw [hread] at eq; cases eq
  | ok c =>
    rw [hread] at eq
    cases c with
    | record r => cases eq
    | group g => cases eq; rfl

theorem read_none_of_record {offset : Nat} {parent : Option Nat} {h : RecordHeader}
    (eq : read image schema offset parent = .ok (.record h)) :
    ∃ r, read image schema offset none = .ok (.record r) ∧ h = r.under parent := by
  rw [read_under] at eq
  cases hread : read image schema offset none with
  | error e => rw [hread] at eq; cases eq
  | ok c =>
    rw [hread] at eq
    cases c with
    | record r => cases eq; exact ⟨r, rfl, rfl⟩
    | group g => cases eq

theorem read_cases {offset : Nat} {parent : Option Nat} {c : Chunk}
    (eq : read image schema offset parent = .ok c) :
    (∃ h, readGroup schema offset (image.slice offset 24) = .ok h ∧ c = .group h) ∨
      (∃ h, readRecord schema offset parent (image.slice offset 24) = .ok h ∧ c = .record h) := by
  simp only [read] at eq
  split at eq
  · cases eq
  split at eq
  · left
    cases h : readGroup schema offset (image.slice offset 24) with
    | error e => rw [h] at eq; cases eq
    | ok g => rw [h] at eq; cases eq; exact ⟨g, rfl, rfl⟩
  · right
    cases h : readRecord schema offset parent (image.slice offset 24) with
    | error e => rw [h] at eq; cases eq
    | ok r => rw [h] at eq; cases eq; exact ⟨r, rfl, rfl⟩

/-- The payload follows the header. -/
theorem position_of_read {offset : Nat} {parent : Option Nat} {c : Chunk}
    (eq : read image schema offset parent = .ok c) :
    c.position = offset + c.headerSize schema := by
  rcases read_cases eq with ⟨h, hread, rfl⟩ | ⟨h, hread, rfl⟩
  · exact readGroup_position hread
  · exact readRecord_position hread

/-- There is no header past the end of a file. -/
theorem lt_size_of_read {offset : Nat} {parent : Option Nat} {c : Chunk}
    (eq : read image schema offset parent = .ok c) : offset < image.size := by
  simp only [read] at eq
  split at eq
  case isTrue => cases eq
  case isFalse hlen =>
    rw [Image.length_slice] at hlen
    omega

theorem read_of_size_le {offset : Nat} {parent : Option Nat} (h : image.size ≤ offset) :
    read image schema offset parent = .error .shortRead := by
  have hlen : (image.slice offset 24).length < 4 := by
    rw [Image.length_slice]
    omega
  simp only [read, if_pos hlen]
  rfl

theorem parent_of_read {offset : Nat} {parent : Option Nat} {h : RecordHeader}
    (eq : read image schema offset parent = .ok (.record h)) : h.parent = parent := by
  rcases read_cases eq with ⟨g, -, hg⟩ | ⟨r, hread, hr⟩
  · cases hg
  · cases hr; exact readRecord_parent hread

/-! ## Runs -/

/-- The range from `pos` up to `stop` is cut into the given chunks. -/
def Run (image : Image) (schema : Schema) : List Chunk → (pos stop : Nat) → Prop
  | [], pos, stop => pos = stop
  | c :: cs, pos, stop => pos < stop ∧ read image schema pos none = .ok c ∧
      Run image schema cs c.stop stop

theorem Run.le {cs : List Chunk} {pos stop : Nat} (H : Run image schema cs pos stop) :
    pos ≤ stop := by
  cases cs with
  | nil => exact Nat.le_of_eq H
  | cons c cs => exact Nat.le_of_lt H.1

/-- Every chunk of a run lies in its range, with the header before the payload. -/
theorem Run.bounds {cs : List Chunk} {pos stop : Nat} (H : Run image schema cs pos stop)
    {c : Chunk} (hc : c ∈ cs) : pos + c.headerSize schema ≤ c.position ∧ c.stop ≤ stop := by
  induction cs generalizing pos with
  | nil => cases hc
  | cons d cs ih =>
    obtain ⟨-, hread, hrest⟩ := H
    have hd := position_of_read hread
    rcases List.mem_cons.mp hc with rfl | hc
    · exact ⟨Nat.le_of_eq hd.symm, hrest.le⟩
    · have hin := ih hrest hc
      have hpos := d.position_le_stop
      omega

/-- The header of a chunk starts inside the file. -/
theorem Run.position_lt {cs : List Chunk} {pos stop : Nat} (H : Run image schema cs pos stop)
    {c : Chunk} (hc : c ∈ cs) : c.position < image.size + c.headerSize schema := by
  induction cs generalizing pos with
  | nil => cases hc
  | cons d cs ih =>
    obtain ⟨-, hread, hrest⟩ := H
    rcases List.mem_cons.mp hc with rfl | hc
    · have hposition := position_of_read hread
      have hlt := lt_size_of_read hread
      omega
    · exact ih hrest hc

/-- The records of a run have been read for no node. -/
theorem Run.parent_of_mem {cs : List Chunk} {pos stop : Nat} (H : Run image schema cs pos stop)
    {h : RecordHeader} (hh : .record h ∈ cs) : h.parent = none := by
  induction cs generalizing pos with
  | nil => cases hh
  | cons c cs ih =>
    obtain ⟨-, hread, hrest⟩ := H
    rcases List.mem_cons.mp hh with rfl | hh
    · exact parent_of_read hread
    · exact ih hrest hh

/-- The chunks of a run follow one another. -/
theorem Run.pairwise {cs : List Chunk} {pos stop : Nat} (H : Run image schema cs pos stop) :
    cs.Pairwise fun a b => a.stop + b.headerSize schema ≤ b.position := by
  induction cs generalizing pos with
  | nil => exact .nil
  | cons d cs ih =>
    obtain ⟨-, -, hrest⟩ := H
    exact List.pairwise_cons.mpr ⟨fun c hc => (hrest.bounds hc).1, ih hrest⟩

/-- Payloads do not touch, since a header comes before each. -/
theorem Run.pairwise_lt {cs : List Chunk} {pos stop : Nat} (H : Run image schema cs pos stop) :
    cs.Pairwise fun a b => a.stop < b.position :=
  H.pairwise.imp fun {a b} hle => by
    have := headerSize_pos schema b
    omega

theorem pairwise_groups {cs : List Chunk} (h : cs.Pairwise fun a b => a.stop < b.position) :
    (cs.filterMap group?).Pairwise (·.stop < ·.position) := by
  refine h.filterMap _ ?_
  rintro (a | a) (b | b) hab _ ⟨⟩ _ ⟨⟩
  exact hab

/-- The chunks that a range is cut into, if it is. -/
def cut (image : Image) (schema : Schema) (stop pos : Nat) : Option (List Chunk) :=
  if pos < stop then
    match _read : read image schema pos none with
    | .error _ => none
    | .ok c => (cut image schema stop c.stop).map (c :: ·)
  else if pos = stop then some []
  else none
termination_by stop - pos
decreasing_by
  have := lt_stop_of_read _read
  omega

theorem Run.of_cut {stop pos : Nat} {cs : List Chunk}
    (h : cut image schema stop pos = some cs) : Run image schema cs pos stop := by
  fun_induction cut image schema stop pos generalizing cs with
  | case1 pos hlt e hread => cases h
  | case2 pos hlt c hread ih =>
    obtain ⟨ds, hds, rfl⟩ := Option.map_eq_some_iff.mp h
    exact ⟨hlt, hread, ih hds⟩
  | case3 => cases h; rfl
  | case4 pos hlt hne => cases h

theorem cut_of_run {cs : List Chunk} {pos stop : Nat} (H : Run image schema cs pos stop) :
    cut image schema stop pos = some cs := by
  induction cs generalizing pos with
  | nil =>
    have heq : pos = stop := H
    rw [cut, if_neg (Nat.not_lt.mpr (Nat.le_of_eq heq.symm)), if_pos heq]
  | cons c cs ih =>
    obtain ⟨hlt, hread, hrest⟩ := H
    rw [cut, if_pos hlt]
    split
    · rename_i e he; rw [hread] at he; cases he
    · rename_i d hd; rw [hread] at hd; cases hd; rw [ih hrest]; rfl

end Chunk

end GamePlugin
