import GamePlugin.Proofs.PassedOver

/-!
# Files that are cut off

A file may lack its end. Its chunk headers are then the same as far as they are there, and nothing
takes the place of one that is not: what can be read of the rest could be read of the whole
(`Chunk.read_of_read_truncate`). So a forest that fills what is left of a file is the front of the
forest that fills the whole (`Forest.Fills.exists_append`), and the cut is between two of its
outermost chunks. Everywhere else the cut is noticed: inside a header, in a payload that is stepped
over, or between chunks of a group, whose size no longer fits.

## Main definitions

* `Image.truncate` — the first bytes of a file.
* `Outline.EndsAt` — an outermost chunk ends at a place.
* `Outline.upTo` — the entries that end at a place or before it.
-/

namespace GamePlugin

/-! ## The front of a file -/

namespace Image

/-- The first `n` bytes of a file. -/
def truncate (image : Image) (n : Nat) : Image := image.extract 0 n

variable (image : Image) (n : Nat)

theorem bytes_truncate : (image.truncate n).bytes = image.bytes.take n := by
  simp [truncate, bytes, ByteArray.data_extract]

theorem size_truncate : (image.truncate n).size = min n image.size := by
  have hlength := congrArg List.length (bytes_truncate image n)
  rwa [List.length_take] at hlength

theorem slice_truncate (offset k : Nat) :
    (image.truncate n).slice offset k = (image.slice offset k).take (n - offset) := by
  rw [slice_eq, slice_eq, bytes_truncate, List.drop_take, List.take_take, List.take_take,
    Nat.min_comm]

end Image

/-- A word is read from four bytes, so it is the same in any window that shows them. -/
theorem Bytes.word32_drop_take (bs : Bytes) {k m : Nat} (h : k + 4 ≤ m) :
    word32 ((bs.take m).drop k) = word32 (bs.drop k) := by
  rw [word32, word32, List.drop_take, List.take_take, Nat.min_eq_left (by omega)]

theorem Tag.ofBytes_take (bs : Bytes) {m : Nat} (h : 4 ≤ m) : ofBytes (bs.take m) = ofBytes bs :=
  congrArg Tag.mk (Bytes.word32_drop_take bs (k := 0) h)

namespace Chunk

variable {image : Image} {schema : Schema} {n offset m : Nat} {parent : Option Nat} {c : Chunk}

/-- Of a group header only the first four words are looked at. -/
theorem readGroup_take (bs : Bytes) (h : 16 ≤ m) :
    readGroup schema offset (bs.take m) = readGroup schema offset bs := by
  have hlen (k : Nat) (hk : k ≤ m) : (bs.take m).length < k ↔ bs.length < k := by
    rw [List.length_take]
    omega
  have hword (k : Nat) (hk : k + 4 ≤ 16) := Bytes.word32_drop_take bs (Nat.le_trans hk h)
  simp only [readGroup, hlen 8 (by omega), hlen 16 h, hword 4 (by decide), hword 8 (by decide),
    hword 12 (by decide)]

theorem readRecord_take (bs : Bytes) (h : schema.recordHeaderSize ≤ m) :
    readRecord schema offset parent (bs.take m) = readRecord schema offset parent bs := by
  have hsize := schema.le_recordHeaderSize
  have hlen : (bs.take m).length < schema.recordHeaderSize ↔
      bs.length < schema.recordHeaderSize := by
    rw [List.length_take]
    omega
  have hword (k : Nat) (hk : k + 4 ≤ 16) :=
    Bytes.word32_drop_take bs (Nat.le_trans hk (Nat.le_trans hsize h))
  simp only [readRecord, hlen, Tag.ofBytes_take bs (m := m) (by omega), hword 4 (by decide),
    hword 8 (by decide), hword 12 (by decide)]

/-- A header that is left as a whole is read as before. -/
theorem read_truncate (h : offset + schema.recordHeaderSize ≤ n) :
    read (image.truncate n) schema offset parent = read image schema offset parent := by
  have hsize := schema.le_recordHeaderSize
  have hlen : ((image.slice offset 24).take (n - offset)).length < 4 ↔
      (image.slice offset 24).length < 4 := by
    rw [List.length_take]
    omega
  simp only [read, Image.slice_truncate, hlen, Tag.ofBytes_take _ (m := n - offset) (by omega),
    readGroup_take _ (m := n - offset) (by omega),
    readRecord_take _ (m := n - offset) (Nat.le_sub_of_add_le' h)]

/-- A header that can be read from what is left is the one that was there before. -/
theorem read_of_read_truncate (eq : read (image.truncate n) schema offset parent = .ok c) :
    read image schema offset parent = .ok c := by
  cases c with
  | record h =>
    have hposition : h.position = offset + schema.recordHeaderSize := position_of_read eq
    have hle := position_le_of_read eq
    rw [Image.size_truncate] at hle
    rwa [read_truncate (by omega)] at eq
  | group g =>
    -- the last words of the header may be gone
    obtain ⟨htag, hgroups⟩ := tag_of_read_group eq
    rcases read_cases eq with ⟨_, hread, hgroup⟩ | ⟨_, -, hrecord⟩
    · cases hgroup
      have hlen := (readGroup_eq_ok_iff.mp hread).1
      rw [Image.slice_truncate] at htag hread hlen
      rw [List.length_take] at hlen
      rw [readGroup_take _ (by omega)] at hread
      rw [Tag.ofBytes_take _ (by omega)] at htag
      rw [read, if_neg (by omega), if_pos ⟨htag, hgroups⟩, hread]
      rfl
    · cases hrecord

end Chunk

/-- The schema of what is left of a file, if it can be told, is that of the file. -/
theorem Schema.detect_of_detect_truncate {image : Image} {schema : Schema} {n : Nat}
    (h : detect (image.truncate n) = .ok schema) : detect image = .ok schema := by
  have htag (k : Nat) (hk : k + 4 ≤ n) :
      Tag.ofBytes (((image.slice 0 28).take n).drop k) = Tag.ofBytes ((image.slice 0 28).drop k) :=
    congrArg Tag.mk (Bytes.word32_drop_take _ hk)
  simp only [detect, Image.slice_truncate, Nat.sub_zero, List.length_take] at h ⊢
  split at h
  · cases h
  rw [if_neg (by omega)]
  rw [Tag.ofBytes_take _ (by omega)] at h
  by_cases htes3 : Tag.ofBytes (image.slice 0 28) = .TES3
  · rwa [if_pos htes3] at h ⊢
  rw [if_neg htes3] at h ⊢
  by_cases htes4 : Tag.ofBytes (image.slice 0 28) = .TES4
  · rw [if_pos htes4] at h ⊢
    split at h
    case isTrue hhedr =>
      rw [htag 20 (by omega)] at hhedr
      rw [if_pos ⟨by omega, hhedr.2⟩]
      exact h
    case isFalse hnot =>
      split at h
      case isTrue hhedr =>
        rw [htag 24 (by omega)] at hhedr
        rw [htag 20 (by omega)] at hnot
        rw [if_neg fun hfirst => hnot ⟨by omega, hfirst.2⟩, if_pos ⟨by omega, hhedr.2⟩]
        exact h
      case isFalse => cases h
  · rw [if_neg htes4] at h
    cases h

theorem Schema.size_pos_of_detect {image : Image} {schema : Schema}
    (h : detect image = .ok schema) : 0 < image.size := by
  simp only [detect, Image.length_slice] at h
  split at h
  · cases h
  · omega

/-! ## Forests that end earlier -/

theorem Chunk.Run.exists_stop {image : Image} {schema : Schema} {cs : List Chunk} {pos stop : Nat}
    (H : Run image schema cs pos stop) (hlt : pos < stop) : ∃ c ∈ cs, c.stop = stop := by
  induction cs generalizing pos with
  | nil => exact absurd H (Nat.ne_of_lt hlt)
  | cons c cs ih =>
    rcases Nat.lt_or_eq_of_le H.2.2.le with hmore | hlast
    · obtain ⟨d, hd, hstop⟩ := ih H.2.2 hmore
      exact ⟨d, List.mem_cons_of_mem c hd, hstop⟩
    · exact ⟨c, List.mem_cons_self, hlast⟩

namespace Forest

variable {image : Image} {schema : Schema} {f g r : Forest} {pos mid stop n : Nat}

theorem append_nil (f : Forest) : f.append nil = f := by
  induction f with
  | nil => rfl
  | record h rest ih => rw [append, ih]
  | group h inside rest _ ih => rw [append, ih]

theorem chunks_append (f g : Forest) : (f.append g).chunks = f.chunks ++ g.chunks := by
  induction f with
  | nil => rfl
  | record h rest ih => rw [append, chunks, ih, chunks, List.cons_append]
  | group h inside rest _ ih => rw [append, chunks, ih, chunks, List.cons_append]

theorem Fills.eq_nil (H : f.Fills image schema pos pos) : f = nil := by
  cases f with
  | nil => rfl
  | record h rest => exact absurd H.1 (Nat.lt_irrefl pos)
  | group h inside rest => exact absurd H.1 (Nat.lt_irrefl pos)

/-- A forest that fills the start of a range is the front of the one that fills the range. -/
theorem Fills.exists_append (hf : f.Fills image schema pos stop)
    (hg : g.Fills image schema pos mid) (hle : mid ≤ stop) :
    ∃ r, f = g.append r ∧ r.Fills image schema mid stop := by
  induction g generalizing f pos mid stop with
  | nil => exact ⟨f, rfl, (show pos = mid from hg) ▸ hf⟩
  | record h rest ih =>
    obtain ⟨hlt, hread, hrest⟩ := hg
    cases f with
    | nil => exact absurd (show pos = stop from hf) (by omega)
    | group h' inside' rest' => cases hread.symm.trans hf.2.1
    | record h' rest' =>
      cases hread.symm.trans hf.2.1
      obtain ⟨r, rfl, hr⟩ := ih hf.2.2 hrest hle
      exact ⟨r, rfl, hr⟩
  | group h inside rest ihi ihr =>
    obtain ⟨hlt, hread, hinside, hrest⟩ := hg
    cases f with
    | nil => exact absurd (show pos = stop from hf) (by omega)
    | record h' rest' => cases hread.symm.trans hf.2.1
    | group h' inside' rest' =>
      cases hread.symm.trans hf.2.1
      -- two forests that fill the same payload are the same
      obtain ⟨extra, rfl, hextra⟩ := ihi hf.2.2.1 hinside (Nat.le_refl _)
      obtain ⟨r, rfl, hr⟩ := ihr hf.2.2.2 hrest hle
      rw [hextra.eq_nil, append_nil]
      exact ⟨r, rfl, hr⟩

/-- A forest can be parted after any of its outermost chunks. -/
theorem Fills.exists_append_of_mem {c : Chunk} (H : f.Fills image schema pos stop)
    (hc : c ∈ f.chunks) :
    ∃ g r : Forest, f = g.append r ∧ g.Fills image schema pos c.stop ∧
      r.Fills image schema c.stop stop := by
  induction f generalizing pos with
  | nil => cases hc
  | record h rest ih =>
    obtain ⟨hlt, hread, hrest⟩ := H
    have hstop := Chunk.lt_stop_of_read hread
    rcases List.mem_cons.mp hc with rfl | hc
    · exact ⟨record h nil, rest, rfl, ⟨hstop, hread, rfl⟩, hrest⟩
    · obtain ⟨g, r, rfl, hg, hr⟩ := ih hrest hc
      exact ⟨record h g, r, rfl, ⟨Nat.lt_of_lt_of_le hstop hg.le, hread, hg⟩, hr⟩
  | group h inside rest _ ih =>
    obtain ⟨hlt, hread, hinside, hrest⟩ := H
    have hstop := Chunk.lt_stop_of_read hread
    rcases List.mem_cons.mp hc with rfl | hc
    · exact ⟨group h inside nil, rest, rfl, ⟨hstop, hread, hinside, rfl⟩, hrest⟩
    · obtain ⟨g, r, rfl, hg, hr⟩ := ih hrest hc
      exact ⟨group h inside g, r, rfl, ⟨Nat.lt_of_lt_of_le hstop hg.le, hread, hinside, hg⟩, hr⟩

/-- A range is filled by the same forest if the file is cut off after it. -/
theorem fills_truncate_iff (hle : stop ≤ n) :
    f.Fills (image.truncate n) schema pos stop ↔ f.Fills image schema pos stop := by
  constructor
  · intro H
    have hsame : ∀ p ∈ f.placed none 0, Chunk.read image schema (p.chunk.span schema).start none =
        Chunk.read (image.truncate n) schema (p.chunk.span schema).start none := by
      intro p hp
      have hread := (H.read_of_mem_placed hp).2
      rw [hread, Chunk.read_of_read_truncate hread]
    exact H.congr hsame
  · intro H
    have hsame : ∀ p ∈ f.placed none 0,
        Chunk.read (image.truncate n) schema (p.chunk.span schema).start none =
          Chunk.read image schema (p.chunk.span schema).start none := by
      intro p hp
      have hposition := Chunk.position_of_read (H.read_of_mem_placed hp).2
      have hstop := (H.position_of_mem_placed hp).2
      have hend := p.chunk.position_le_stop
      have hheader := p.chunk.recordHeaderSize_le_headerSize schema
      exact Chunk.read_truncate (by omega)
    exact H.congr hsame

/-- What ends in the first part of a range is the first part of what ends in the range. -/
theorem Fills.filter_placed_append {owner : Option Nat} {k : Nat}
    (hg : g.Fills image schema pos mid) (hr : r.Fills image schema mid stop) :
    ((g.append r).placed owner k).filter (fun p => p.chunk.stop ≤ mid) = g.placed owner k := by
  have hkeep : (g.placed owner k).filter (fun p => p.chunk.stop ≤ mid) = g.placed owner k := by
    rw [List.filter_eq_self]
    intro p hp
    exact decide_eq_true (hg.position_of_mem_placed hp).2
  have hdrop : (r.placed owner (k + g.groupCount)).filter (fun p => p.chunk.stop ≤ mid) = [] := by
    rw [List.filter_eq_nil_iff]
    intro p hp hle
    have hlt := (hr.position_of_mem_placed hp).1
    have hend := p.chunk.position_le_stop
    have := of_decide_eq_true hle
    omega
  rw [placed_append, List.filter_append, hkeep, hdrop, List.append_nil]

theorem mem_chunks_iff {c : Chunk} : c ∈ f.chunks ↔ ⟨none, c⟩ ∈ f.placed none 0 := by
  have hroots : ((f.placed none 0).filter (·.owner = none)).map (·.chunk) = f.chunks :=
    filter_placed_owner fun i hi => by cases hi
  simp only [← hroots, List.mem_map, List.mem_filter, decide_eq_true_eq]
  constructor
  · rintro ⟨⟨_, _⟩, ⟨hp, rfl⟩, rfl⟩
    exact hp
  · intro hp
    exact ⟨_, ⟨hp, rfl⟩, rfl⟩

end Forest

/-! ## Outlines of what is left -/

namespace Outline

/-- A chunk outside of groups ends at `n`. -/
def EndsAt (o : Outline) (n : Nat) : Prop :=
  (∃ e ∈ o.records.toList, e.group = none ∧ e.header.stop = n) ∨
    ∃ e ∈ o.groups.toList, e.parent = none ∧ e.header.stop = n

instance (o : Outline) (n : Nat) : Decidable (o.EndsAt n) :=
  inferInstanceAs (Decidable (_ ∨ _))

/-- What an outline lists of the first `n` bytes: the entries that end there or before. -/
def upTo (o : Outline) (n : Nat) : Outline :=
  { o with
    length := n
    records := o.records.filter (·.header.stop ≤ n)
    groups := o.groups.filter (·.header.stop ≤ n) }

variable {image : Image} {schema : Schema} {f g r : Forest} {pos length n : Nat}

theorem endsAt_ofForest : (ofForest schema length f).EndsAt n ↔ ∃ c ∈ f.chunks, c.stop = n := by
  simp only [EndsAt, ofForest, Forest.recordEntries, Forest.groupEntries, List.mem_filterMap]
  constructor
  · rintro (⟨e, ⟨⟨owner, c⟩, hp, he⟩, hroot, hstop⟩ | ⟨e, ⟨⟨owner, c⟩, hp, he⟩, hroot, hstop⟩)
    · cases c with
      | group h => cases he
      | record h =>
        cases he
        cases hroot
        exact ⟨_, Forest.mem_chunks_iff.mpr hp, hstop⟩
    · cases c with
      | record h => cases he
      | group h =>
        cases he
        cases hroot
        exact ⟨_, Forest.mem_chunks_iff.mpr hp, hstop⟩
  · rintro ⟨c, hc, hstop⟩
    have hp := Forest.mem_chunks_iff.mp hc
    cases c with
    | record h => exact .inl ⟨_, ⟨_, hp, rfl⟩, rfl, hstop⟩
    | group h => exact .inr ⟨_, ⟨_, hp, rfl⟩, rfl, hstop⟩

/-- Entries that end where their chunks do are chosen by where the chunks end. -/
theorem filter_filterMap_stop {α : Type} {entryOf : Placed → Option α} {stop : α → Nat}
    (h : ∀ p e, entryOf p = some e → stop e = p.chunk.stop) (placed : List Placed) :
    (placed.filterMap entryOf).filter (stop · ≤ n) =
      (placed.filter (·.chunk.stop ≤ n)).filterMap entryOf := by
  rw [List.filter_filterMap, List.filterMap_filter]
  apply List.filterMap_congr
  intro p _
  cases he : entryOf p with
  | none => exact (ite_self _).symm
  | some e => rw [Option.filter_some, h p e he]

/-- What the outline of two forests lists of the first is the outline of the first. -/
theorem upTo_ofForest_append {stop : Nat} (hg : g.Fills image schema 0 n)
    (hr : r.Fills image schema n stop) :
    (ofForest schema length (g.append r)).upTo n = ofForest schema n g := by
  have hplaced : ((g.append r).placed none 0).filter (fun p => p.chunk.stop ≤ n) =
      g.placed none 0 := hg.filter_placed_append hr
  have hrecords : ((g.append r).recordEntries none 0).filter (·.header.stop ≤ n) =
      g.recordEntries none 0 := by
    rw [Forest.recordEntries, Forest.recordEntries, ← hplaced]
    apply filter_filterMap_stop
    rintro ⟨owner, _ | _⟩ e he <;> cases he
    rfl
  have hgroups : ((g.append r).groupEntries none 0).filter (·.header.stop ≤ n) =
      g.groupEntries none 0 := by
    rw [Forest.groupEntries, Forest.groupEntries, ← hplaced]
    apply filter_filterMap_stop
    rintro ⟨owner, _ | _⟩ e he <;> cases he
    rfl
  simp only [upTo, ofForest, List.filter_toArray, hrecords, hgroups]

/-- **A cut is noticed.** What is left of a file has an outline exactly if the cut is at the end of
a chunk outside of groups, and then its outline is what the file's lists of it. -/
theorem ofImage_truncate_eq_ok_iff {o o' : Outline} (h : ofImage image = .ok o)
    (hn : n ≤ image.size) (hdetect : Schema.detect (image.truncate n) = .ok schema) :
    ofImage (image.truncate n) = .ok o' ↔ o.EndsAt n ∧ o' = o.upTo n := by
  obtain ⟨_, hwhole, f, hf, rfl⟩ := ofImage_eq_ok_iff.mp h
  cases (Schema.detect_of_detect_truncate hdetect).symm.trans hwhole
  have hsize : (image.truncate n).size = n := by
    rw [Image.size_truncate, Nat.min_eq_left hn]
  rw [ofImage_eq_ok_iff, hsize, endsAt_ofForest]
  constructor
  · rintro ⟨_, hleft, g, hg, rfl⟩
    cases hleft.symm.trans hdetect
    rw [Forest.fills_truncate_iff (Nat.le_refl n)] at hg
    obtain ⟨r, rfl, hr⟩ := hf.exists_append hg hn
    obtain ⟨c, hc, hstop⟩ := hg.run.exists_stop (hsize ▸ Schema.size_pos_of_detect hdetect)
    refine ⟨⟨c, ?_, hstop⟩, (upTo_ofForest_append hg hr).symm⟩
    rw [Forest.chunks_append]
    exact List.mem_append_left _ hc
  · rintro ⟨⟨c, hc, rfl⟩, rfl⟩
    obtain ⟨g, r, rfl, hg, hr⟩ := hf.exists_append_of_mem hc
    refine ⟨schema, hdetect, g, (Forest.fills_truncate_iff (Nat.le_refl _)).mpr hg, ?_⟩
    exact upTo_ofForest_append hg hr

/-- A file with a record in a group and one after it. -/
def twoGlobals : Image :=
  .ofBytes (Draft.encodeAll .tes4
    [.record .TES4 0 ⟨0⟩ [72, 69, 68, 82, 12, 0, 0, 0, 128, 63, 4, 0, 0, 0, 0, 8, 0, 0],
     .group Tag.GLOB.code .top [.record .GLOB 0 ⟨7⟩ [0, 0, 0, 0]],
     .record .GLOB 0 ⟨8⟩ []])

/-- A cut after the group leaves a file with an outline. A cut in the group, between two headers, or
in the last header does not. -/
theorem ofImage_truncate_twoGlobals :
    ∃ o, ofImage twoGlobals = .ok o ∧
      ofImage (twoGlobals.truncate 82) = .ok (o.upTo 82) ∧
      ∀ o', ofImage (twoGlobals.truncate 58) ≠ .ok o' ∧
        ofImage (twoGlobals.truncate 101) ≠ .ok o' := by
  have houtline : (ofImage twoGlobals).toOption.map
      (fun o => decide (o.EndsAt 82 ∧ ¬o.EndsAt 58 ∧ ¬o.EndsAt 101)) = some true := by
    decide +kernel
  obtain ⟨o, h, hends⟩ := exists_eq_ok_of_map houtline
  obtain ⟨hgood, hinside, hrecord⟩ := of_decide_eq_true hends
  have hschema (n : Nat) (hn : n = 58 ∨ n = 82 ∨ n = 101) :
      n ≤ twoGlobals.size ∧ Schema.detect (twoGlobals.truncate n) = .ok .tes4 := by
    rcases hn with rfl | rfl | rfl <;> exact ⟨by decide +kernel, by decide +kernel⟩
  refine ⟨o, h, ?_, fun o' => ⟨?_, ?_⟩⟩
  · obtain ⟨hn, hdetect⟩ := hschema 82 (by decide)
    exact (ofImage_truncate_eq_ok_iff h hn hdetect).mpr ⟨hgood, rfl⟩
  · intro hleft
    obtain ⟨hn, hdetect⟩ := hschema 58 (by decide)
    exact hinside ((ofImage_truncate_eq_ok_iff h hn hdetect).mp hleft).1
  · intro hleft
    obtain ⟨hn, hdetect⟩ := hschema 101 (by decide)
    exact hrecord ((ofImage_truncate_eq_ok_iff h hn hdetect).mp hleft).1

end Outline

end GamePlugin
