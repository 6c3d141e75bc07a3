import GamePlugin.Proofs.Written

/-!
# Outlines account for every byte

Each entry of an outline stands for a span of the file, from the first byte of its header to the end
of its payload. The spans of the outermost entries tile the whole file, and the spans of the entries
in a group tile the group's payload: nothing overlaps, and nothing is left over. Entries are listed
in file order, and a group after the group that holds it.

## Main definitions

* `Span`, `Span.Tile` — a stretch of a file, and stretches that follow one another without a gap.
* `Outline.spans` — the spans of the entries in a group, ordered by where they start.
-/

namespace GamePlugin

/-- A stretch of a file. -/
structure Span where
  start : Nat
  stop : Nat
deriving DecidableEq

namespace Span

/-- Each span starts where the one before it ends, the first at `lo`; the last ends at `hi`. None is
empty. -/
def Tile : List Span → (lo hi : Nat) → Prop
  | [], lo, hi => lo = hi
  | s :: ss, lo, hi => s.start = lo ∧ s.start < s.stop ∧ Tile ss s.stop hi

theorem Tile.le_start {ss : List Span} {lo hi : Nat} (H : Tile ss lo hi) {s : Span}
    (hs : s ∈ ss) : lo ≤ s.start := by
  induction ss generalizing lo with
  | nil => cases hs
  | cons t ss ih =>
    obtain ⟨hlo, hlt, hrest⟩ := H
    rcases List.mem_cons.mp hs with rfl | hs
    · exact Nat.le_of_eq hlo.symm
    · have := ih hrest hs
      omega

/-- Spans that tile a range are ordered by where they start. -/
theorem Tile.pairwise {ss : List Span} {lo hi : Nat} (H : Tile ss lo hi) :
    ss.Pairwise fun a b => a.start < b.start := by
  induction ss generalizing lo with
  | nil => exact .nil
  | cons t ss ih =>
    obtain ⟨-, hlt, hrest⟩ := H
    exact List.pairwise_cons.mpr
      ⟨fun s hs => Nat.lt_of_lt_of_le hlt (hrest.le_start hs), ih hrest⟩

theorem Tile.eq_of_start_eq {ss : List Span} {lo hi : Nat} (H : Tile ss lo hi) {a b : Span}
    (ha : a ∈ ss) (hb : b ∈ ss) (heq : a.start = b.start) : a = b := by
  induction ss generalizing lo with
  | nil => cases ha
  | cons t ss ih =>
    obtain ⟨-, hlt, hrest⟩ := H
    have hlater {s : Span} (hs : s ∈ ss) : t.start < s.start :=
      Nat.lt_of_lt_of_le hlt (hrest.le_start hs)
    rcases List.mem_cons.mp ha with ha' | ha' <;> rcases List.mem_cons.mp hb with hb' | hb'
    · rw [ha', hb']
    · exact absurd (ha' ▸ heq) (Nat.ne_of_lt (hlater hb'))
    · exact absurd (hb' ▸ heq) (Nat.ne_of_gt (hlater ha'))
    · exact ih hrest ha' hb'

/-- The order in which spans are listed. -/
def le (a b : Span) : Bool := a.start ≤ b.start

/-- Sorting spans that tile a range, given in any order, gives back the tiling. -/
theorem Tile.mergeSort_eq {ss ts : List Span} {lo hi : Nat} (H : Tile ss lo hi)
    (hperm : ts.Perm ss) : ts.mergeSort le = ss := by
  have hsorted : (ts.mergeSort le).Pairwise fun a b => le a b :=
    List.pairwise_mergeSort (fun a b c => by simp only [le, decide_eq_true_eq]; omega)
      (fun a b => by simp only [le, Bool.or_eq_true, decide_eq_true_eq]; omega) ts
  have hperm' : (ts.mergeSort le).Perm ss := (List.mergeSort_perm ts le).trans hperm
  refine List.Perm.eq_of_pairwise (fun a b ha hb hab hba => ?_) hsorted
    (H.pairwise.imp fun h => decide_eq_true (Nat.le_of_lt h)) hperm'
  exact H.eq_of_start_eq (hperm'.mem_iff.mp ha) hb
    (Nat.le_antisymm (of_decide_eq_true hab) (of_decide_eq_true hba))

end Span

/-- The span of a chunk, with its header. -/
def Chunk.span (schema : Schema) (c : Chunk) : Span := ⟨c.position - c.headerSize schema, c.stop⟩

/-- The chunks that a range is cut into tile it. -/
theorem Chunk.Run.tile {image : Image} {schema : Schema} {cs : List Chunk} {pos stop : Nat}
    (H : Chunk.Run image schema cs pos stop) :
    Span.Tile (cs.map (·.span schema)) pos stop := by
  induction cs generalizing pos with
  | nil => exact H
  | cons c cs ih =>
    obtain ⟨-, hread, hrest⟩ := H
    have hpos := Chunk.position_of_read hread
    have hlt := Chunk.lt_stop_of_read hread
    have hstart : (c.span schema).start = pos := by
      simp only [Chunk.span]
      omega
    exact ⟨hstart, by rw [hstart]; exact hlt, ih hrest⟩

namespace Outline

/-- The span of a record. -/
def RecordEntry.span (schema : Schema) (e : RecordEntry) : Span :=
  ⟨e.header.position - schema.recordHeaderSize, e.header.stop⟩

/-- The span of a group. -/
def GroupEntry.span (schema : Schema) (e : GroupEntry) : Span :=
  ⟨e.header.position - schema.groupHeaderSize, e.header.stop⟩

theorem span_record (schema : Schema) (h : RecordHeader) (owner : Option Nat) :
    (Chunk.record h).span schema = RecordEntry.span schema ⟨h, owner⟩ := rfl

theorem span_group (schema : Schema) (h : GroupHeader) (owner : Option Nat) :
    (Chunk.group h).span schema = GroupEntry.span schema ⟨h, owner⟩ := rfl

/-- The spans of the records and groups directly in a group, or of the outermost ones, ordered by
where they start. -/
def spans (o : Outline) (owner : Option Nat) : List Span :=
  ((o.records.toList.filter (·.group = owner)).map (·.span o.schema) ++
    (o.groups.toList.filter (·.parent = owner)).map (·.span o.schema)).mergeSort Span.le

/-- A forest's chunks in a group are its records and its groups there. -/
theorem perm_span_placed (schema : Schema) (owner : Option Nat) (ps : List Placed) :
    (((ps.filterMap Placed.record?).filter (·.group = owner)).map (·.span schema) ++
      ((ps.filterMap Placed.group?).filter (·.parent = owner)).map (·.span schema)).Perm
      (((ps.filter (·.owner = owner)).map (·.chunk)).map (·.span schema)) := by
  induction ps with
  | nil => exact .nil
  | cons p ps ih =>
    obtain ⟨o, c⟩ := p
    cases c with
    | record h =>
      by_cases ho : o = owner
      · simpa [List.filterMap_cons, ho, span_record schema h owner] using ih
      · simpa [List.filterMap_cons, ho] using ih
    | group h =>
      by_cases ho : o = owner
      · simpa [List.filterMap_cons, ho, span_group schema h owner] using
          List.perm_middle.trans (ih.cons (GroupEntry.span schema ⟨h, owner⟩))
      · simpa [List.filterMap_cons, ho] using ih

variable {image : Image} {schema : Schema}

/-- The spans of an outline in a group, if the forest's chunks there are those of a range. -/
theorem tile_spans_of_run {f : Forest} {length pos stop : Nat} {owner : Option Nat}
    {cs : List Chunk} (H : Chunk.Run image schema cs pos stop)
    (heq : ((f.placed none 0).filter (·.owner = owner)).map (·.chunk) = cs) :
    Span.Tile ((ofForest schema length f).spans owner) pos stop := by
  have hperm := perm_span_placed schema owner (f.placed none 0)
  rw [heq] at hperm
  have hsort : (ofForest schema length f).spans owner = cs.map (·.span schema) :=
    H.tile.mergeSort_eq hperm
  rw [hsort]
  exact H.tile

/-- **An outline accounts for every byte of its file.** The outermost spans tile the file, the spans
in each group tile its payload, a group is listed after the one that holds it, and both lists are in
file order. -/
theorem spans_tile_file {o : Outline} (h : ofImage image = .ok o) :
    Span.Tile (o.spans none) 0 image.size ∧
      (∀ (i : Nat) (g : GroupEntry), o.groups[i]? = some g →
        Span.Tile (o.spans (some i)) g.header.position g.header.stop) ∧
      (∀ (i : Nat) (g : GroupEntry) (p : Nat), o.groups[i]? = some g → g.parent = some p → p < i) ∧
      o.records.toList.Pairwise (·.header.position < ·.header.position) ∧
      o.groups.toList.Pairwise (·.header.position < ·.header.position) := by
  obtain ⟨schema, -, f, hf, rfl⟩ := ofImage_eq_ok_iff.mp h
  have hnone : ∀ i, none = some i → i < 0 := fun i hi => by cases hi
  have hpos : (f.placed none 0).Pairwise fun p q => p.chunk.position < q.chunk.position :=
    hf.pairwise_position
  refine ⟨tile_spans_of_run hf.run (Forest.filter_placed_owner hnone), ?_, ?_, ?_, ?_⟩
  · intro i g hg
    have he : (f.groupEntries none 0)[i]? = some g := by simpa [ofForest] using hg
    obtain ⟨inside, hinside, heq⟩ := Forest.filter_placed_group hf hnone he
    rw [Nat.zero_add] at heq
    exact tile_spans_of_run hinside.run heq
  · intro i g p hg hp
    have he : (f.groupEntries none 0)[i]? = some g := by simpa [ofForest] using hg
    simpa using Forest.parent_lt_of_groupEntries hnone he hp
  · refine hpos.filterMap _ ?_
    rintro ⟨o, _ | _⟩ ⟨o', _ | _⟩ hlt _ ⟨⟩ _ ⟨⟩
    exact hlt
  · refine hpos.filterMap _ ?_
    rintro ⟨o, _ | _⟩ ⟨o', _ | _⟩ hlt _ ⟨⟩ _ ⟨⟩
    exact hlt

theorem spans_tile_nested :
    ∃ o, ofImage (Image.ofBytes PluginDraft.nested.encode) = .ok o ∧ o.groups.size = 3 ∧
      Span.Tile (o.spans none) 0 PluginDraft.nested.encode.length ∧
      (∀ (i : Nat) (g : GroupEntry), o.groups[i]? = some g →
        Span.Tile (o.spans (some i)) g.header.position g.header.stop) := by
  have h := PluginDraft.ofImage_encode _ PluginDraft.valid_nested
  obtain ⟨hfile, hgroups, -⟩ := spans_tile_file h
  rw [Image.size_ofBytes] at hfile
  exact ⟨_, h, rfl, hfile, hgroups⟩

end Outline

end GamePlugin
