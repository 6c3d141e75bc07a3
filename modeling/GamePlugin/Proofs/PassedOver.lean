import GamePlugin.Proofs.Coverage
import GamePlugin.Proofs.Framing
import Mathlib.Data.List.Pairwise

/-!
# Bytes that are passed over

Not every byte of a file is looked at. Chunk headers have words that nothing reads, and the payload
of a record is read only if its tag has a shape, and in a file with groups only if the record lies
in one. All other bytes of a file are either in such a payload or in a word of a header that is
read, and no byte is in two chunks (`Forest.Fills.eq_of_owns`).

So two files of one length that differ only in bytes that are passed over are cut into the same
chunks, and the same records are read from them (`Outline.twins_of_passesOver`).

## Main definitions

* `Outline.PassesOver` — the bytes of a file that are passed over.
* `Source.Twins` — another file is cut into the same chunks and has the same records.
-/

namespace GamePlugin

/-! ## Words -/

namespace Image

variable {a b : Image} {offset n : Nat}

/-- A slice is made of the bytes in its range. -/
theorem slice_congr
    (h : ∀ i, offset ≤ i → i < offset + n → (bytes b)[i]? = (bytes a)[i]?) :
    slice b offset n = slice a offset n := by
  rw [slice_eq, slice_eq]
  apply List.ext_getElem?
  intro i
  rw [List.getElem?_take, List.getElem?_take]
  by_cases hi : i < n
  · rw [if_pos hi, if_pos hi, List.getElem?_drop, List.getElem?_drop]
    exact h _ (by omega) (by omega)
  · rw [if_neg hi, if_neg hi]

end Image

/-- The byte at `i` is in a word that nothing reads, of the header that starts at `start`. -/
def Schema.IsUnused (schema : Schema) (start i : Nat) : Prop :=
  match schema with
  | .tes3 => start + 8 ≤ i ∧ i < start + 12
  | .tes4 => start + 16 ≤ i ∧ i < start + 20
  | .tes5 => start + 16 ≤ i ∧ i < start + 24

instance (schema : Schema) (start i : Nat) : Decidable (schema.IsUnused start i) :=
  match schema with
  | .tes3 | .tes4 | .tes5 => inferInstanceAs (Decidable (_ ∧ _))

/-- Reading a header looks at its first four words, but for those that are unused. -/
theorem Chunk.read_congr {a b : Image} {schema : Schema} {offset : Nat} (hsize : b.size = a.size)
    (h : ∀ i, offset ≤ i → i < offset + 16 → ¬schema.IsUnused offset i →
      b.bytes[i]? = a.bytes[i]?) (parent : Option Nat) :
    read b schema offset parent = read a schema offset parent := by
  have hlen : (b.slice offset 24).length = (a.slice offset 24).length := by
    rw [Image.length_slice, Image.length_slice, hsize]
  have hword (k : Nat) (hk : k + 4 ≤ 16)
      (hused : ∀ i, offset + k ≤ i → i < offset + k + 4 → ¬schema.IsUnused offset i) :
      Bytes.word32 ((b.slice offset 24).drop k) = Bytes.word32 ((a.slice offset 24).drop k) := by
    rw [Image.word32_drop_slice b (by omega), Image.word32_drop_slice a (by omega),
      Image.slice_congr fun i hlo hhi => h i (by omega) (by omega) (hused i hlo hhi)]
  have htag := hword 0 (by omega) (by
    intro i hlo hhi
    cases schema <;> simp only [Schema.IsUnused] <;> omega)
  have htotal := hword 4 (by omega) (by
    intro i hlo hhi
    cases schema <;> simp only [Schema.IsUnused] <;> omega)
  have hlast := hword 12 (by omega) (by
    intro i hlo hhi
    cases schema <;> simp only [Schema.IsUnused] <;> omega)
  rw [List.drop_zero, List.drop_zero] at htag
  cases schema with
  | tes3 => simp [read, readRecord, Tag.ofBytes, Schema.hasGroups, hlen, htag, htotal, hlast]
  | tes4 | tes5 =>
    have hthird := hword 8 (by omega) (by
      intro i hlo hhi
      simp only [Schema.IsUnused]
      omega)
    simp only [read, readGroup, readRecord, Tag.ofBytes, hlen, htag, htotal, hthird, hlast]

/-- The schema of a file is told by its first words. -/
theorem Schema.detect_congr {a b : Image} {schema : Schema} (hsize : b.size = a.size)
    (h : ∀ i, i < schema.recordHeaderSize + 8 → b.bytes[i]? = a.bytes[i]?)
    (hdetect : detect a = .ok schema) : detect b = .ok schema := by
  cases schema with
  | tes4 | tes5 =>
    have hslice : b.slice 0 28 = a.slice 0 28 := by
      apply Image.slice_congr
      intro i _ hi
      apply h
      simp only [recordHeaderSize]
      omega
    rw [detect, hslice]
    exact hdetect
  | tes3 =>
    -- no more than the tag and the length of the file is looked at
    have hlen : (b.slice 0 28).length = (a.slice 0 28).length := by
      rw [Image.length_slice, Image.length_slice, hsize]
    have htag : Tag.ofBytes (b.slice 0 28) = Tag.ofBytes (a.slice 0 28) := by
      have hword : b.slice 0 4 = a.slice 0 4 := by
        apply Image.slice_congr
        intro i _ hi
        apply h
        simp only [recordHeaderSize]
        omega
      rw [b.tag_slice (by decide), a.tag_slice (by decide), hword]
    simp only [detect, hlen, htag] at hdetect ⊢
    by_cases hshort : (a.slice 0 28).length < 4
    · rw [if_pos hshort] at hdetect
      cases hdetect
    · rw [if_neg hshort] at hdetect ⊢
      by_cases htes3 : Tag.ofBytes (a.slice 0 28) = .TES3
      · rw [if_pos htes3]
        rfl
      · rw [if_neg htes3] at hdetect
        repeat' split at hdetect
        all_goals cases hdetect

/-- What is read of a record is a function of its payload. -/
theorem Options.readRecord_congr {a b : Image} {h : RecordHeader} (o : Options) (context : Context)
    (hslice : b.slice h.position h.dataSize.toNat = a.slice h.position h.dataSize.toNat) :
    o.readRecord b context h = o.readRecord a context h := by
  simp only [readRecord, hslice]

/-! ## One chunk for a byte -/

/-- Where what a chunk has for itself ends: a record has its payload, a group only its header. -/
def Chunk.ownStop : Chunk → Nat
  | record h => h.stop
  | group h => h.position

theorem Chunk.position_le_ownStop (c : Chunk) : c.position ≤ c.ownStop := by
  cases c with
  | record h => exact (Chunk.record h).position_le_stop
  | group h => exact Nat.le_refl _

theorem Chunk.ownStop_le_stop (c : Chunk) : c.ownStop ≤ c.stop := by
  cases c with
  | record h => exact Nat.le_refl _
  | group h => exact (Chunk.group h).position_le_stop

/-- The byte at `i` is in the header of the chunk, or in the payload of the record. -/
def Chunk.Owns (schema : Schema) (c : Chunk) (i : Nat) : Prop :=
  (c.span schema).start ≤ i ∧ i < c.ownStop

theorem Chunk.start_of_read {image : Image} {schema : Schema} {offset : Nat} {parent : Option Nat}
    {c : Chunk} (eq : read image schema offset parent = .ok c) : (c.span schema).start = offset := by
  have hposition := position_of_read eq
  simp only [span]
  omega

namespace Forest

variable {image : Image} {schema : Schema} {f : Forest} {pos stop : Nat} {owner : Option Nat}
  {n i : Nat} {p q : Placed}

/-- A chunk of a forest starts in the range of the forest, and its header is read there. -/
theorem Fills.read_of_mem_placed (H : f.Fills image schema pos stop)
    (hp : p ∈ f.placed owner n) :
    pos ≤ (p.chunk.span schema).start ∧
      Chunk.read image schema (p.chunk.span schema).start none = .ok p.chunk := by
  induction f generalizing owner n pos stop with
  | nil => cases hp
  | record h rest ih =>
    obtain ⟨-, hread, hrest⟩ := H
    have hlt := Chunk.lt_stop_of_read hread
    rcases List.mem_cons.mp hp with rfl | hp
    · rw [Chunk.start_of_read hread]
      exact ⟨Nat.le_refl pos, hread⟩
    · obtain ⟨hle, hp⟩ := ih hrest hp
      simp only [Chunk.stop_record] at hlt
      exact ⟨by omega, hp⟩
  | group h inside rest ihi ihr =>
    obtain ⟨-, hread, hinside, hrest⟩ := H
    have hlt := Chunk.lt_position_of_read hread
    have hle := hinside.le
    simp only [placed, List.mem_cons, List.mem_append] at hp
    simp only [Chunk.position_group] at hlt
    rcases hp with rfl | hp | hp
    · rw [Chunk.start_of_read hread]
      exact ⟨Nat.le_refl pos, hread⟩
    · obtain ⟨hstart, hp⟩ := ihi hinside hp
      exact ⟨by omega, hp⟩
    · obtain ⟨hstart, hp⟩ := ihr hrest hp
      exact ⟨by omega, hp⟩

/-- What the chunks have for themselves follows one another. -/
theorem Fills.pairwise_own (H : f.Fills image schema pos stop) :
    (f.placed owner n).Pairwise fun p q => p.chunk.ownStop ≤ (q.chunk.span schema).start := by
  induction f generalizing owner n pos stop with
  | nil => exact .nil
  | record h rest ih =>
    refine List.pairwise_cons.mpr ⟨?_, ih H.2.2⟩
    intro q hq
    exact (H.2.2.read_of_mem_placed hq).1
  | group h inside rest ihi ihr =>
    obtain ⟨-, -, hinside, hrest⟩ := H
    have hle := hinside.le
    refine List.pairwise_cons.mpr ⟨?_, List.pairwise_append.mpr ⟨ihi hinside, ihr hrest, ?_⟩⟩
    · intro q hq
      simp only [Chunk.ownStop]
      rcases List.mem_append.mp hq with hq | hq
      · exact (hinside.read_of_mem_placed hq).1
      · have := (hrest.read_of_mem_placed hq).1
        omega
    · intro p hp q hq
      have hown := p.chunk.ownStop_le_stop
      have hin := (hinside.position_of_mem_placed hp).2
      have hout := (hrest.read_of_mem_placed hq).1
      omega

/-- **No byte is in two chunks.** -/
theorem Fills.eq_of_owns (H : f.Fills image schema pos stop) (hp : p ∈ f.placed owner n)
    (hq : q ∈ f.placed owner n) (hpi : p.chunk.Owns schema i) (hqi : q.chunk.Owns schema i) :
    p = q := by
  have hpair : (f.placed owner n).Pairwise fun p q =>
      p.chunk.Owns schema i → q.chunk.Owns schema i → p = q := by
    refine H.pairwise_own.imp ?_
    intro p q hle hp hq
    have hlo := hq.1
    have hhi := hp.2
    omega
  have hsymm : Std.Symm fun p q : Placed =>
      p.chunk.Owns schema i → q.chunk.Owns schema i → p = q :=
    ⟨fun p q h hq hp => (h hp hq).symm⟩
  exact hpair.forall_of_forall (fun p _ _ _ => rfl) hp hq hpi hqi

/-- A file whose schema can be told starts with a record. -/
theorem Fills.exists_root (hdetect : Schema.detect image = .ok schema)
    (H : f.Fills image schema 0 image.size) : ∃ root rest, f = .record root rest := by
  cases f with
  | record root rest => exact ⟨root, rest, rfl⟩
  | nil =>
    have hsize : 0 = image.size := H
    have hshort : (image.slice 0 28).length < 4 := by
      rw [Image.length_slice]
      omega
    rw [Schema.detect, if_pos hshort] at hdetect
    cases hdetect
  | group h inside rest =>
    have htag : Tag.ofBytes (image.slice 0 28) = .GRUP := by
      rw [← (Chunk.tag_of_read_group H.2.1).1, image.tag_slice (by decide),
        image.tag_slice (by decide)]
    simp only [Schema.detect, htag] at hdetect
    split at hdetect
    · cases hdetect
    · rw [if_neg (by decide), if_neg (by decide)] at hdetect
      cases hdetect

/-- A forest fills another file as well if its headers are the same there. -/
theorem Fills.congr {b : Image} (H : f.Fills image schema pos stop)
    (h : ∀ p ∈ f.placed owner n, Chunk.read b schema (p.chunk.span schema).start none =
      Chunk.read image schema (p.chunk.span schema).start none) : f.Fills b schema pos stop := by
  induction f generalizing owner n pos stop with
  | nil => exact H
  | record r rest ih =>
    obtain ⟨hlt, hread, hrest⟩ := H
    have hfirst := h _ List.mem_cons_self
    rw [Chunk.start_of_read hread, hread] at hfirst
    exact ⟨hlt, hfirst, ih hrest fun p hp => h p (List.mem_cons_of_mem _ hp)⟩
  | group g inside rest ihi ihr =>
    obtain ⟨hlt, hread, hinside, hrest⟩ := H
    have hfirst := h _ List.mem_cons_self
    rw [Chunk.start_of_read hread, hread] at hfirst
    refine ⟨hlt, hfirst, ?_, ?_⟩
    · exact ihi hinside fun p hp => h p (List.mem_cons_of_mem _ (List.mem_append_left _ hp))
    · exact ihr hrest fun p hp => h p (List.mem_cons_of_mem _ (List.mem_append_right _ hp))

end Forest

/-! ## What is passed over -/

/-- The byte at `i` is passed over, where tags that are not read are given. It is in a word of a
header that nothing reads, or in the payload of a record that is not read: for its tag, or since it
is outside of groups in a file with groups. The first record is read in any case. -/
def Outline.PassesOver (o : Outline) (unread : Tag → Prop) (i : Nat) : Prop :=
  (∃ e ∈ o.records.toList.tail, o.schema.IsUnused (e.span o.schema).start i) ∨
  (∃ e ∈ o.groups.toList, o.schema.IsUnused (e.span o.schema).start i) ∨
  ∃ e ∈ o.records.toList.tail, e.header.position ≤ i ∧ i < e.header.stop ∧
    (unread e.header.tag ∨ o.schema.hasGroups ∧ e.group = none)

instance (o : Outline) (unread : Tag → Prop) [DecidablePred unread] (i : Nat) :
    Decidable (o.PassesOver unread i) :=
  inferInstanceAs (Decidable (_ ∨ _ ∨ _))

theorem Outline.PassesOver.imp {o : Outline} {unread unread' : Tag → Prop} {i : Nat}
    (h : o.PassesOver unread i) (himp : ∀ tag, unread tag → unread' tag) :
    o.PassesOver unread' i := by
  rcases h with hrecord | hgroup | ⟨e, he, hlo, hhi, htag | hloose⟩
  · exact .inl hrecord
  · exact .inr (.inl hgroup)
  · exact .inr (.inr ⟨e, he, hlo, hhi, .inl (himp _ htag)⟩)
  · exact .inr (.inr ⟨e, he, hlo, hhi, .inr hloose⟩)

/-- The byte at `i` is passed over, and in the given chunk. -/
def Placed.PassesOver (schema : Schema) (unread : Tag → Prop) (p : Placed) (i : Nat) : Prop :=
  schema.IsUnused (p.chunk.span schema).start i ∨
    ∃ h, p.chunk = .record h ∧ h.position ≤ i ∧ i < h.stop ∧
      (unread h.tag ∨ schema.hasGroups ∧ p.owner = none)

theorem Outline.PassesOver.exists_placed {schema : Schema} {length i : Nat} {root : RecordHeader}
    {rest : Forest} {unread : Tag → Prop}
    (h : (ofForest schema length (.record root rest)).PassesOver unread i) :
    ∃ p ∈ rest.placed none 0, p.PassesOver schema unread i := by
  rcases h with ⟨e, he, hunused⟩ | ⟨e, he, hunused⟩ | ⟨e, he, hlo, hhi, hskip⟩
  · obtain ⟨p, hp, hrecord⟩ := List.mem_filterMap.mp he
    obtain ⟨r, hr, rfl⟩ := Option.map_eq_some_iff.mp hrecord
    rcases p with ⟨owner, r' | g⟩ <;> cases hr
    exact ⟨_, hp, .inl hunused⟩
  · have he : e ∈ rest.groupEntries none 0 := by simpa [ofForest] using he
    obtain ⟨p, hp, hgroup⟩ := List.mem_filterMap.mp he
    obtain ⟨g, hg, rfl⟩ := Option.map_eq_some_iff.mp hgroup
    rcases p with ⟨owner, r | g'⟩ <;> cases hg
    exact ⟨_, hp, .inl hunused⟩
  · obtain ⟨p, hp, hrecord⟩ := List.mem_filterMap.mp he
    obtain ⟨r, hr, rfl⟩ := Option.map_eq_some_iff.mp hrecord
    rcases p with ⟨owner, r' | g⟩ <;> cases hr
    exact ⟨_, hp, .inr ⟨_, rfl, hlo, hhi, hskip⟩⟩

theorem Chunk.le_headerSize (schema : Schema) (c : Chunk) : 16 ≤ c.headerSize schema := by
  cases c <;> cases schema <;> simp [headerSize, Schema.recordHeaderSize, Schema.groupHeaderSize]

theorem Schema.IsUnused.bounds {schema : Schema} {start i : Nat} (h : schema.IsUnused start i)
    (c : Chunk) : start + 8 ≤ i ∧ i < start + c.headerSize schema := by
  cases schema <;> cases c <;>
    simp only [IsUnused, Chunk.headerSize, recordHeaderSize, groupHeaderSize] at h ⊢ <;> omega

namespace Forest

variable {a b : Image} {schema : Schema} {root : RecordHeader} {rest : Forest}
  {unread : Tag → Prop} {i : Nat} {p q : Placed}

/-- A chunk after the root record, with where its header starts and ends. -/
theorem Fills.bounds_of_mem_rest (H : (record root rest).Fills a schema 0 a.size)
    (hp : p ∈ rest.placed none 0) :
    root.stop ≤ (p.chunk.span schema).start ∧
      (p.chunk.span schema).start + p.chunk.headerSize schema = p.chunk.position := by
  obtain ⟨hle, hread⟩ := H.2.2.read_of_mem_placed hp
  exact ⟨hle, (Chunk.position_of_read hread).symm⟩

/-- A byte that is passed over is in its chunk, and not in the first two words. -/
theorem Fills.owns_of_passesOver (H : (record root rest).Fills a schema 0 a.size)
    (hp : p ∈ rest.placed none 0) (hi : p.PassesOver schema unread i) :
    p.chunk.Owns schema i ∧ (p.chunk.span schema).start + 8 ≤ i := by
  obtain ⟨-, hposition⟩ := H.bounds_of_mem_rest hp
  have hown := p.chunk.position_le_ownStop
  have hheader := p.chunk.le_headerSize schema
  simp only [Chunk.Owns]
  rcases hi with hunused | ⟨h, hrecord, hlo, hhi, -⟩
  · have := hunused.bounds p.chunk
    omega
  · rw [hrecord] at hposition hheader ⊢
    simp only [Chunk.position_record, Chunk.ownStop] at hposition ⊢
    omega

section Differ

variable (H : (record root rest).Fills a schema 0 a.size)
  (hdiff : ∀ i, b.bytes[i]? ≠ a.bytes[i]? →
    ∃ p ∈ rest.placed none 0, p.PassesOver schema unread i)
include H hdiff

/-- The files agree in what a chunk has for itself, but for what is passed over. -/
theorem Fills.agree_of_owns (hq : q ∈ rest.placed none 0) (hown : q.chunk.Owns schema i)
    (hnot : ¬q.PassesOver schema unread i) : b.bytes[i]? = a.bytes[i]? := by
  by_contra hne
  obtain ⟨p, hp, hi⟩ := hdiff i hne
  obtain ⟨hpi, -⟩ := H.owns_of_passesOver hp hi
  obtain rfl := H.2.2.eq_of_owns hp hq hpi hown
  exact hnot hi

/-- The files agree in the root record, and in the first two words after it. -/
theorem Fills.agree_before (hi : i < root.stop + 8) : b.bytes[i]? = a.bytes[i]? := by
  by_contra hne
  obtain ⟨p, hp, hpi⟩ := hdiff i hne
  have hlo := (H.owns_of_passesOver hp hpi).2
  have hstart := (H.bounds_of_mem_rest hp).1
  omega

/-- The headers are the same. -/
theorem Fills.read_eq_of_differ (hsize : b.size = a.size)
    (hq : q ∈ (record root rest).placed none 0) :
    Chunk.read b schema (q.chunk.span schema).start none =
      Chunk.read a schema (q.chunk.span schema).start none := by
  have hheader := q.chunk.le_headerSize schema
  apply Chunk.read_congr hsize
  intro i hlo hhi hused
  rcases List.mem_cons.mp hq with rfl | hq
  · have hposition := Chunk.position_of_read H.2.1
    have hstop := (Chunk.record root).position_le_stop
    rw [Chunk.start_of_read H.2.1] at hhi
    simp only [Chunk.position_record, Chunk.stop_record] at hposition hstop hheader
    exact H.agree_before hdiff (by omega)
  · obtain ⟨-, hposition⟩ := H.bounds_of_mem_rest hq
    have hown := q.chunk.position_le_ownStop
    refine H.agree_of_owns hdiff hq ⟨hlo, by omega⟩ ?_
    rintro (hunused | ⟨h, hrecord, hin, -⟩)
    · exact hused hunused
    · rw [hrecord] at hposition hheader hhi
      simp only [Chunk.position_record] at hposition
      omega

/-- The root record is the same. -/
theorem Fills.readRecord_root (options : Options) (context : Context) :
    options.readRecord b context root = options.readRecord a context root := by
  apply Options.readRecord_congr
  apply Image.slice_congr
  intro i _ hhi
  refine H.agree_before hdiff ?_
  simp only [RecordHeader.stop]
  omega

/-- A record that is not passed over is the same. -/
theorem Fills.readRecord_of_differ {options : Options} {context : Context} {owner : Option Nat}
    {h : RecordHeader} (hunread : ∀ tag, unread tag →
      options.registry.shape? tag context.edition = none)
    (hq : ⟨owner, .record h⟩ ∈ rest.placed none 0) (hheld : owner.isSome ∨ ¬schema.hasGroups) :
    options.readRecord b context h = options.readRecord a context h := by
  by_cases hshape : options.registry.shape? h.tag context.edition = none
  · rw [Options.readRecord_of_shape?_eq_none hshape, Options.readRecord_of_shape?_eq_none hshape]
  apply Options.readRecord_congr
  apply Image.slice_congr
  intro i hlo hhi
  have hposition : ((Chunk.record h).span schema).start + (Chunk.record h).headerSize schema =
      h.position := (H.bounds_of_mem_rest hq).2
  have hstart : ((Chunk.record h).span schema).start ≤ i := by omega
  refine H.agree_of_owns hdiff hq ⟨hstart, hhi⟩ ?_
  rintro (hunused | ⟨r, hrecord, -, -, htag | ⟨hgroups, howner⟩⟩)
  · have hlt := (hunused.bounds (.record h)).2
    dsimp only at hlt
    omega
  · cases hrecord
    exact hshape (hunread _ htag)
  · rcases hheld with hsome | hflat
    · simp [show owner = none from howner] at hsome
    · exact hflat hgroups

end Differ

end Forest

/-! ## Twins -/

/-- The same, read from another file. -/
def Source.on (src : Source) (b : Image) : Source := { src with image := b }

/-- Another file has the same shape, and the same records where records are read: in groups, or
anywhere if there are no groups. -/
structure Source.Twins (src : Source) (b : Image) (f : Forest) : Prop where
  size_eq : b.size = src.image.size
  fills : f.Fills src.image src.context.schema 0 src.image.size
  fills_on : f.Fills b src.context.schema 0 b.size
  reads : ∀ e ∈ f.recordEntries none 0, e.group.isSome ∨ ¬src.context.schema.hasGroups →
    (src.on b).read e.header = src.read e.header

/-- The tag has no shape in the edition that the file is opened with. -/
def Plugin.Skips (image : Image) (options : Options) (schema : Schema) (tag : Tag) : Prop :=
  ∀ root content context, readRoot image options schema = .ok (root, content, context) →
    options.registry.shape? tag context.edition = none

/-- What is read of the root record is a function of its header and its payload. -/
theorem Plugin.readRoot_congr {a b : Image} {options : Options} {schema : Schema}
    (hread : Chunk.read b schema 0 none = Chunk.read a schema 0 none)
    (hrecord : ∀ h, Chunk.read a schema 0 none = .ok (.record h) → ∀ context,
      options.readRecord b context h = options.readRecord a context h) :
    readRoot b options schema = readRoot a options schema := by
  simp only [readRoot, hread]
  cases hchunk : Chunk.read a schema 0 none with
  | error e => rfl
  | ok c =>
    cases c with
    | group g => rfl
    | record h => simp only [bind, Except.bind, hrecord h hchunk]

/-- A file that differs from another one in bytes that are passed over has the same outline, the
same root record, and is a twin. -/
theorem Outline.twins_of_passesOver {a b : Image} {o : Outline} {options : Options}
    (ho : ofImage a = .ok o) (hsize : b.size = a.size)
    (hdiff : ∀ i, b.bytes[i]? ≠ a.bytes[i]? →
      o.PassesOver (Plugin.Skips a options o.schema) i) :
    ofImage b = .ok o ∧ Schema.detect a = .ok o.schema ∧ Schema.detect b = .ok o.schema ∧
      Plugin.readRoot b options o.schema = Plugin.readRoot a options o.schema ∧
      ∃ f : Forest, ∀ root content context,
        Plugin.readRoot a options o.schema = .ok (root, content, context) →
          Source.Twins ⟨a, context, options⟩ b f := by
  obtain ⟨schema, hdetect, f, hf, rfl⟩ := ofImage_eq_ok_iff.mp ho
  obtain ⟨root, rest, rfl⟩ := hf.exists_root hdetect
  have hplaced : ∀ i, b.bytes[i]? ≠ a.bytes[i]? →
      ∃ p ∈ rest.placed none 0, p.PassesOver schema (Plugin.Skips a options schema) i :=
    fun i hi => (hdiff i hi).exists_placed
  have hread : Chunk.read b schema 0 none = Chunk.read a schema 0 none := by
    have hfirst := hf.read_eq_of_differ hplaced hsize List.mem_cons_self
    rwa [Chunk.start_of_read hf.2.1] at hfirst
  have hdetect' : Schema.detect b = .ok schema := by
    apply Schema.detect_congr hsize _ hdetect
    intro i hi
    have hposition : root.position = 0 + schema.recordHeaderSize := Chunk.position_of_read hf.2.1
    have hstop : root.position ≤ root.stop := (Chunk.record root).position_le_stop
    exact hf.agree_before hplaced (by omega)
  have hf' : (Forest.record root rest).Fills b schema 0 b.size := by
    rw [hsize]
    exact hf.congr fun p hp => hf.read_eq_of_differ hplaced hsize hp
  refine ⟨?_, hdetect, hdetect', Plugin.readRoot_congr hread fun h hh => ?_,
    .record root rest, fun r content context hr => ?_⟩
  · refine ofImage_eq_ok_iff.mpr ⟨schema, hdetect', .record root rest, hf', ?_⟩
    rw [hsize]
  · cases hf.2.1.symm.trans hh
    exact hf.readRecord_root hplaced options
  · obtain rfl : context.schema = schema := (Plugin.read_of_readRoot hr).2
    refine ⟨hsize, hf, hf', fun e he hheld => ?_⟩
    rcases List.mem_cons.mp he with rfl | he
    · exact hf.readRecord_root hplaced options context
    · obtain ⟨p, hp, hentry⟩ := List.mem_filterMap.mp he
      obtain ⟨h, hh, rfl⟩ := Option.map_eq_some_iff.mp hentry
      rcases p with ⟨owner, h' | g⟩ <;> cases hh
      exact hf.readRecord_of_differ hplaced (fun tag htag => htag r content context hr) hp hheld

end GamePlugin
