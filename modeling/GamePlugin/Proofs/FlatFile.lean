import GamePlugin.Proofs.Framing
import GamePlugin.Proofs.Names

/-!
# Files without groups

A file without groups is read whole when it is opened, and its records are entered into tables one
after another. Each table has its own rule for which records it takes and under which key. What a
look-up finds is a function of the list of records alone (`Plugin.flat_file_exact`): all records
with a tag in file order, and for each of the other keys the last record that has it.

The list is that of the file's outline without the root record, where the file has an outline.

## Main definitions

* `Query.means` — the records that a look-up in such a file means.
* `Source.Stream` — the records that such a file holds.
-/

namespace GamePlugin

/-! ## Which records a key means -/

/-- Whether the record is an exterior cell at the coordinates of a position, whatever its tag. -/
def Record.isExteriorAt (r : Record) (p : GridPosition) : Bool :=
  r.cell?.any fun c => !c.isInterior && c.coordinates = (p.x, p.y)

/-- Whether the record is a land with the coordinates of a position. -/
def Record.isLandAt (r : Record) (p : GridPosition) : Bool :=
  r.land?.any (·.grid = some (p.x, p.y))

/-- Whether a look-up in a file without groups means a record. Editor ids and names count up to the
case of ASCII letters, an empty editor id does not count, and neither does the world of a
position. -/
def Query.means : Query → Record → Bool
  | .editorId name, r => r.hasName name && r.editorId ≠ some ""
  | .cellName name, r => r.isInteriorCell && r.hasName name
  | .cell p, r => r.isExteriorAt p
  | .land p, r => r.isLandAt p

theorem GridPosition.planarKey_eq_iff {x y x' y' : Int32} :
    planarKey x y = planarKey x' y' ↔ (x, y) = (x', y') := by
  constructor
  · intro h
    have hlt (z : Int32) : z.toUInt32.toNat < 4294967296 := z.toUInt32.toNat_lt
    have hy := hlt y
    have hy' := hlt y'
    simp only [planarKey, UInt32.size] at h
    have hx : x = x' := eq_of_toNat_toUInt32_eq (by omega)
    have hy : y = y' := eq_of_toNat_toUInt32_eq (by omega)
    rw [hx, hy]
  · intro h
    cases h
    rfl

namespace FlatTables

/-! ## Tables -/

variable (t : FlatTables) (r : Record)

/-- Each table is filled by its own rule. -/
theorem insert_eq :
    t.insert r =
      { byTag := (t.insertTag r).byTag
        byEditorId := (t.insertName r).byEditorId
        cellsByName := (t.insertCell r).cellsByName
        cellsByGrid := (t.insertCell r).cellsByGrid
        landsByGrid := (t.insertLand r).landsByGrid } := by
  simp only [insert, insertTag, insertLand, insertCell, insertName]
  generalize r.land?.bind (·.grid) = grid
  cases grid <;> cases r.editorId <;> cases r.cell? <;> dsimp only
  all_goals repeat' split
  all_goals rfl

/-- Records are kept under their tags in file order. -/
theorem records_insert (tag : Tag) :
    (t.insert r).records tag = if r.tag = tag then t.records tag ++ [r] else t.records tag := by
  simp only [insert_eq, records, insertTag, Std.TreeMap.getD_alter]
  by_cases htag : r.tag = tag
  · simp [htag, Std.TreeMap.getD_eq_getD_getElem?]
  · have hcode : r.tag.code ≠ tag.code := fun h => htag (congrArg Tag.mk h)
    simp [htag, hcode]

/-- An empty editor id is no key. -/
theorem editorId?_insert (name : String) :
    (t.insert r).editorId? name =
      if r.hasName name && r.editorId ≠ some "" then some r else t.editorId? name := by
  rcases Option.eq_none_or_eq_some r.editorId with hid | ⟨id, hid⟩
  · simp [insert_eq, editorId?, insertName, Record.hasName, hid]
  · by_cases hempty : id = ""
    · simp [insert_eq, editorId?, insertName, hid, hempty]
    · simp [insert_eq, editorId?, insertName, Record.hasName, hid, hempty,
        Std.TreeMap.getElem?_insert]

/-- An empty name is a key of interior cells. -/
theorem cellName?_insert (name : String) :
    (t.insert r).cellName? name =
      if r.isInteriorCell && r.hasName name then some r else t.cellName? name := by
  simp only [Record.isInteriorCell, Record.hasName]
  rcases Option.eq_none_or_eq_some r.cell? with hcell | ⟨cell, hcell⟩
  · simp [insert_eq, cellName?, insertCell, hcell]
  · by_cases hin : cell.isInterior
    · rcases Option.eq_none_or_eq_some r.editorId with hid | ⟨id, hid⟩
      · simp [insert_eq, cellName?, insertCell, hcell, hin, hid]
      · simp [insert_eq, cellName?, insertCell, hcell, hin, hid, Std.TreeMap.getElem?_insert]
    · simp [insert_eq, cellName?, insertCell, hcell, hin]

theorem cell?_insert (p : GridPosition) :
    (t.insert r).cell? p = if r.isExteriorAt p then some r else t.cell? p := by
  rw [Record.isExteriorAt]
  rcases Option.eq_none_or_eq_some r.cell? with hcell | ⟨cell, hcell⟩
  · simp [insert_eq, cell?, insertCell, hcell]
  · by_cases hin : cell.isInterior
    · rcases Option.eq_none_or_eq_some r.editorId with hid | ⟨id, hid⟩ <;>
        simp [insert_eq, cell?, insertCell, hcell, hin, hid]
    · simp [insert_eq, cell?, insertCell, hcell, hin, Std.TreeMap.getElem?_insert,
        GridPosition.planarKey_eq_iff]

theorem land?_insert (p : GridPosition) :
    (t.insert r).land? p = if r.isLandAt p then some r else t.land? p := by
  rw [Record.isLandAt]
  rcases Option.eq_none_or_eq_some r.land? with hland | ⟨land, hland⟩
  · simp [insert_eq, land?, insertLand, hland]
  · rcases Option.eq_none_or_eq_some land.grid with hgrid | ⟨grid, hgrid⟩
    · simp [insert_eq, land?, insertLand, hland, hgrid]
    · simp [insert_eq, land?, insertLand, hland, hgrid, Std.TreeMap.getElem?_insert,
        GridPosition.planarKey_eq_iff]

variable (rs : List Record)

theorem records_foldl (tag : Tag) :
    (rs.foldl insert t).records tag = t.records tag ++ rs.filter (·.tag = tag) := by
  induction rs generalizing t with
  | nil => simp
  | cons r rs ih =>
    rw [List.foldl_cons, ih, records_insert]
    by_cases htag : r.tag = tag
    · simp [htag]
    · simp [htag]

theorem records_ofRecords (tag : Tag) : (ofRecords rs).records tag = rs.filter (·.tag = tag) := by
  rw [ofRecords, records_foldl]
  rfl

/-- The last record that a look-up means is found. -/
theorem queryFlat_ofRecords (q : Query) :
    Plugin.queryFlat (ofRecords rs) q = (rs.filter q.means).getLast? := by
  have hempty : Plugin.queryFlat {} q = none := by cases q <;> rfl
  have hinsert (t : FlatTables) (r : Record) :
      Plugin.queryFlat (t.insert r) q = if q.means r then some r else Plugin.queryFlat t q := by
    cases q with
    | editorId name => exact editorId?_insert t r name
    | cellName name => exact cellName?_insert t r name
    | cell p => exact cell?_insert t r p
    | land p => exact land?_insert t r p
  rw [ofRecords, find_foldl (Plugin.queryFlat · q) hinsert, hempty, Option.or_none]

end FlatTables

/-! ## The records of a file -/

/-- The records from `pos` on that are not passed over, in file order, if none is refused. -/
def Source.Stream (src : Source) (pos : Nat) (rs : List Record) : Prop :=
  ∃ cs, Chunk.Trail src.image src.context.schema src.image.size cs pos ∧ src.ReadsAll cs ∧
    rs = (cs.filterMap Chunk.record?).filterMap src.record?

theorem Source.Stream.unique {src : Source} {pos : Nat} {rs rs' : List Record}
    (H : src.Stream pos rs) (H' : src.Stream pos rs') : rs = rs' := by
  obtain ⟨cs, htrail, -, rfl⟩ := H
  obtain ⟨ds, htrail', -, rfl⟩ := H'
  rw [htrail.unique htrail']

theorem mapM_eq_ok_map {α β : Type} {p : α → Except Error β} {q : α → β} {xs : List α}
    (h : ∀ x ∈ xs, p x = .ok (q x)) : xs.mapM p = .ok (xs.map q) := by
  induction xs with
  | nil => rfl
  | cons x xs ih =>
    rw [List.mapM_cons, h x List.mem_cons_self, ih fun y hy => h y (List.mem_cons_of_mem x hy)]
    rfl

/-- Without groups, the entries of a forest are its outermost records. -/
theorem Forest.recordEntries_of_flat {f : Forest} {image : Image} {schema : Schema} {pos stop : Nat}
    (hflat : ¬schema.hasGroups) (H : f.Fills image schema pos stop) (n : Nat) :
    f.recordEntries none n = (f.chunks.filterMap Chunk.record?).map (⟨·, none⟩) := by
  induction f generalizing pos with
  | nil => rfl
  | record h rest ih =>
    rw [recordEntries_record, ih H.2.2]
    rfl
  | group h inside rest => exact absurd (Chunk.tag_of_read_group H.2.1).2 hflat

/-- Decoding a file without groups by its outline reads its records one after another. -/
theorem Forest.Fills.decode_of_flat {f : Forest} {src : Source}
    (hflat : ¬src.context.schema.hasGroups)
    (H : f.Fills src.image src.context.schema 0 src.image.size) (hreads : src.ReadsAll f.chunks) :
    (Outline.ofForest src.context.schema src.image.size f).decode src.image src.context
        src.options = .ok ((f.chunks.filterMap Chunk.record?).filterMap src.record?) := by
  have hentries : (Outline.ofForest src.context.schema src.image.size f).records.toList =
      f.recordEntries none 0 := rfl
  have hread : ∀ e ∈ f.recordEntries none 0,
      Outline.decodeEntry src.image src.context src.options e = .ok (src.record? e.header) := by
    intro e he
    rw [H.read_eq he]
    rw [recordEntries_of_flat hflat H, List.mem_map] at he
    obtain ⟨h, hh, rfl⟩ := he
    obtain ⟨x, hx⟩ := hreads h hh
    rw [hx, Source.record?_of_read hx]
  rw [Outline.decode, hentries, mapM_eq_ok_map hread, recordEntries_of_flat hflat H, List.map_map]
  simp [bind, Except.bind, pure, Except.pure, List.filterMap_map]

namespace Plugin

variable {image : Image} {options : Options} {plugin : Plugin} {s : Session}

/-- The oldest schema has one edition, so the root record is read for the edition of the file. -/
theorem read_root_of_flat (hopen : open? image options none = .ok (plugin, s))
    (hschema : s.context.schema = .tes3) :
    Chunk.read image .tes3 0 none = .ok (.record plugin.root.header) ∧
      Source.read ⟨image, s.context, options⟩ plugin.root.header = .ok (some plugin.root) := by
  obtain ⟨-, hroot⟩ := readRoot_of_open? hopen
  obtain ⟨localized, hread, hrecord, hcontext⟩ := readRoot_cases hroot
  rw [hschema] at hread hrecord hcontext
  rw [hcontext]
  exact ⟨hread, hrecord⟩

/-- The records of an open file without groups, and their tables. -/
theorem exists_stream_of_open? (hopen : open? image options none = .ok (plugin, s))
    (hflat : ¬s.context.schema.hasGroups) :
    ∃ rs, Source.Stream ⟨image, s.context, options⟩ plugin.root.header.stop rs ∧
      plugin.flat = some (.ofRecords rs) := by
  obtain ⟨hschema, cs, htrail, hreads, htables⟩ := exists_trail_of_flat hopen hflat
  refine ⟨_, ⟨cs, ?_, hreads, rfl⟩, htables⟩
  rw [hschema]
  exact htrail

/-- The tables of a file without groups answer for its records. -/
theorem query_of_flat {rs : List Record} (htables : plugin.flat = some (.ofRecords rs)) (q : Query)
    (s : Session) : plugin.query q s = .ok (rs.filter q.means).getLast? s := by
  rw [query, htables, ← FlatTables.queryFlat_ofRecords]
  rfl

/-- Decoding by outline gives the root record, and then the records of the stream. -/
theorem decode_of_stream {rs : List Record} {o : Outline}
    (hopen : open? image options none = .ok (plugin, s)) (hflat : ¬s.context.schema.hasGroups)
    (H : Source.Stream ⟨image, s.context, options⟩ plugin.root.header.stop rs)
    (ho : Outline.ofImage image = .ok o) :
    o.decode image s.context options = .ok (plugin.root :: rs) := by
  obtain ⟨hschema, -⟩ := exists_trail_of_flat hopen hflat
  obtain ⟨hchunk, hroot⟩ := read_root_of_flat hopen hschema
  obtain ⟨hdetect, -⟩ := readRoot_of_open? hopen
  obtain ⟨schema, hdetect', f, hf, rfl⟩ := Outline.ofImage_eq_ok_iff.mp ho
  cases hdetect.symm.trans hdetect'
  obtain ⟨cs, htrail, hreads, rfl⟩ := H
  -- the trail from the start of the file is the root record and the trail after it
  have hstart : Chunk.Trail image s.context.schema image.size
      (.record plugin.root.header :: cs) 0 :=
    ⟨Chunk.lt_size_of_read hchunk, hschema ▸ hchunk, htrail⟩
  have hchunks : f.chunks = .record plugin.root.header :: cs := hf.run.trail.unique hstart
  have hall : Source.ReadsAll ⟨image, s.context, options⟩ f.chunks := by
    rw [hchunks]
    exact Source.readsAll_record.mpr ⟨⟨_, hroot⟩, hreads⟩
  have hdecode := @Forest.Fills.decode_of_flat f ⟨image, s.context, options⟩ hflat hf hall
  rw [hchunks, List.filterMap_cons_some (Chunk.record?_record _),
    List.filterMap_cons_some (Source.record?_of_read hroot)] at hdecode
  exact hdecode

/-- **What an open file without groups answers is a function of its records.** They are those after
the root record that are not passed over, in file order, and the file alone says which these are.
The records with a tag are all of them with that tag, in the same order, and a look-up gives the
last of them that it means. Where the file has an outline, they are what decoding by outline gives
after the root record. -/
theorem flat_file_exact (hopen : open? image options none = .ok (plugin, s))
    (hflat : ¬s.context.schema.hasGroups) :
    ∃ rs, Source.Stream ⟨image, s.context, options⟩ plugin.root.header.stop rs ∧
      (∀ rs', Source.Stream ⟨image, s.context, options⟩ plugin.root.header.stop rs' → rs' = rs) ∧
      (∀ t tag, plugin.records tag t = .ok (rs.filter (·.tag = tag)) t) ∧
      (∀ t q, plugin.query q t = .ok (rs.filter q.means).getLast? t) ∧
      ∀ o, Outline.ofImage image = .ok o →
        o.decode image s.context options = .ok (plugin.root :: rs) := by
  obtain ⟨rs, H, htables⟩ := exists_stream_of_open? hopen hflat
  refine ⟨rs, H, fun rs' H' => H'.unique H, fun t tag => ?_, fun t q => query_of_flat htables q t,
    fun o ho => decode_of_stream hopen hflat H ho⟩
  rw [records, htables, ← FlatTables.records_ofRecords]
  rfl

/-- A file without groups, with two interior cells of one name in different case, an exterior cell,
its land, a variable without a name and a record without a shape. -/
def flatCells : Image :=
  .ofBytes (Draft.encodeAll .tes3
    [.record .TES3 0 ⟨0⟩ [],
     .record .CELL 0 ⟨0⟩ [78, 65, 77, 69, 2, 0, 0, 0, 97, 0,
      68, 65, 84, 65, 12, 0, 0, 0, 1, 0, 0, 0, 0, 0, 0, 0, 0, 0, 0, 0],
     .record .XXXX 0 ⟨0⟩ [1],
     .record .CELL 0 ⟨0⟩ [78, 65, 77, 69, 2, 0, 0, 0, 65, 0,
      68, 65, 84, 65, 12, 0, 0, 0, 1, 0, 0, 0, 0, 0, 0, 0, 0, 0, 0, 0],
     .record .CELL 0 ⟨0⟩ [68, 65, 84, 65, 12, 0, 0, 0, 0, 0, 0, 0, 1, 0, 0, 0, 2, 0, 0, 0],
     .record .LAND 0 ⟨0⟩ [73, 78, 84, 86, 8, 0, 0, 0, 1, 0, 0, 0, 2, 0, 0, 0],
     .record .GLOB 0 ⟨0⟩ [78, 65, 77, 69, 1, 0, 0, 0, 0]])

/-- Three of the records are cells; one of them is at the position, and so is a land. -/
theorem flat_file_exact_flatCells :
    ∃ plugin s rs o, open? flatCells { edition := some .morrowind } none = .ok (plugin, s) ∧
      ¬s.context.schema.hasGroups ∧
      Source.Stream ⟨flatCells, s.context, { edition := some .morrowind }⟩
        plugin.root.header.stop rs ∧
      plugin.records .CELL s = .ok (rs.filter (·.tag = .CELL)) s ∧
      (rs.filter (·.tag = .CELL)).length = 3 ∧
      (rs.filter (Query.means (.cell ⟨1, 2, 0⟩))).getLast?.any (·.header.position = 141) ∧
      (rs.filter (Query.means (.land ⟨1, 2, 0⟩))).getLast?.any (·.header.position = 177) ∧
      plugin.query (.cellName "a") s = .ok (rs.filter (Query.means (.cellName "a"))).getLast? s ∧
      Outline.ofImage flatCells = .ok o ∧
      o.decode flatCells s.context { edition := some .morrowind } = .ok (plugin.root :: rs) := by
  have hopens : ((open? flatCells { edition := some .morrowind } none).toOption.map fun x =>
      !x.2.context.schema.hasGroups &&
        ((x.1.records .CELL).run' x.2).any (·.length = 3) &&
        ((x.1.query (.cell ⟨1, 2, 0⟩)).run' x.2).any (·.any (·.header.position = 141)) &&
        ((x.1.query (.land ⟨1, 2, 0⟩)).run' x.2).any (·.any (·.header.position = 177))) =
      some true := by
    decide +kernel
  have houtline : ((Outline.ofImage flatCells).toOption.map fun o => o.groups.size) = some 0 := by
    decide +kernel
  obtain ⟨⟨plugin, s⟩, hopen, hfacts⟩ := exists_eq_ok_of_map hopens
  obtain ⟨o, ho, -⟩ := exists_eq_ok_of_map houtline
  have hnot : ¬s.context.schema.hasGroups := by
    intro hgroups
    simp [hgroups] at hfacts
  obtain ⟨rs, H, -, hrecords, hquery, hdecode⟩ := flat_file_exact hopen hnot
  simp only [Session.run'_of_eq_ok (hrecords s _), Session.run'_of_eq_ok (hquery s _),
    Option.any_some, Bool.and_eq_true, decide_eq_true_eq] at hfacts
  obtain ⟨⟨⟨-, hcells⟩, hcell⟩, hland⟩ := hfacts
  exact ⟨plugin, s, rs, o, hopen, hnot, H, hrecords s _, hcells, hcell, hland, hquery s _, ho,
    hdecode o ho⟩

end Plugin

end GamePlugin
