import GamePlugin.Proofs.Budget

/-!
# Whose land is found

A block remembers the land of a cell beside the cell, by the same coordinates, but a cell without
land leaves the land that is there. So the land that is found at a position always belongs to a cell
at this position, and where the coordinates of cells are all different it belongs to the cell that is
found. Where a second cell has the coordinates of a first one, the cell that is found may have no
land, and then the land of the first one is found.

## Main definitions

* `GroupPath.temporary` — where the land of a cell lies.
* `Source.landsOf` — the lands of a cell.
* `Session.sightings` — the cells at a position that a block has come across, with their nodes.
-/

namespace GamePlugin

/-- Path of the temporary children of a cell in the group at a path. -/
def GroupPath.temporary (path : GroupPath) (cell : FormId) : GroupPath :=
  .inside (.inside path cell.value .cellChildren) cell.value .cellTemporaryChildren

/-- The lands of a cell in the group at a path: the ones among its temporary children. -/
def Source.landsOf (src : Source) (tops : List GroupHeader) (path : GroupPath) (cell : Record) :
    List Record :=
  (src.recordsAt tops (path.temporary cell.form)).filter (·.land?.isSome)

theorem CellCache.land?_insert (cache : CellCache) (p q : GridPosition) (cell : Record)
    (land : Option Record) :
    (cache.insert q cell land).land? p =
      if q = p then land.or (cache.land? p) else cache.land? p := by
  by_cases h : q = p
  · cases land <;> simp [land?, CellCache.insert, h]
  · have hkey : q.key ≠ p.key := fun heq => h (GridPosition.key_inj heq)
    cases land <;> simp [land?, CellCache.insert, h, hkey, Std.TreeMap.getElem?_insert]

namespace Session

variable {src : Source} {tops : List GroupHeader} {ids : List Nat} {s : Session} {id block : Nat}
  {path : GroupPath} {p : GridPosition}

/-! ## The land of a cell -/

/-- **The land that a block takes for a cell is the first one that the file has for it.** -/
theorem Sound.landOf_eq_landsOf (H : Sound src tops s) (hat : s.At path id) (F : Fixed s id)
    (cell : Record) :
    (s.landOf id cell).map (·.under none) = (src.landsOf tops path cell).head? := by
  rw [landOf, Source.landsOf, GroupPath.temporary]
  rcases H.childrenOfKind_cases hat F cell.form.value .cellChildren with
    ⟨hnone, hnil⟩ | ⟨c, hc, hatc, Fc⟩
  · simp [hnone, Source.recordsAt, Source.piecesAt_inside_eq_nil hnil]
  rcases H.childrenOfKind_cases hatc Fc cell.form.value .cellTemporaryChildren with
    ⟨hnone, hnil⟩ | ⟨d, hd, hatd, Fd⟩
  · simp [hc, hnone, Source.recordsAt, hnil]
  · simp only [hc, hd, List.flatMap_cons, List.flatMap_nil, List.append_nil,
      H.records_of_fixed hatd Fd]
    rw [← List.head?_filter, ← List.head?_map, Source.map_filter_under fun _ => rfl]

/-! ## What is remembered at a position -/

theorem land?_remember (s : Session) (c : Nat) (hp : p.isInterior = false) (cache : CellCache)
    (r : Record) :
    (s.remember c p.worldForm cache r).land? p =
      if r.isCellAt p then (s.landOf c r).or (cache.land? p) else cache.land? p := by
  rw [remember, Record.isCellAt]
  by_cases htag : r.tag = .CELL
  · cases hcell : r.cell? with
    | none => simp [htag]
    | some cell =>
      simp only [htag, if_true, CellCache.land?_insert, GridPosition.ofCell_eq_iff hp]
      simp
  · simp [htag]

/-- A cell without land leaves the land of an earlier one. -/
theorem land?_foldl_remember (s : Session) (c : Nat) (hp : p.isInterior = false)
    (rs : List Record) (cache : CellCache) :
    (rs.foldl (s.remember c p.worldForm) cache).land? p =
      (((rs.filter (·.isCellAt p)).filterMap (s.landOf c)).getLast?).or (cache.land? p) := by
  induction rs generalizing cache with
  | nil => simp
  | cons r rs ih =>
    rw [List.foldl_cons, ih, land?_remember s c hp]
    by_cases hr : r.isCellAt p
    · cases hland : s.landOf c r with
      | none => simp [hr, hland]
      | some l => simp [hr, hland, List.getLast?_cons]
    · simp [hr]

/-- The cells at a position in sub-blocks of a block with given labels, each with the node of its
sub-block. -/
def sightings (s : Session) (block : Nat) (p : GridPosition) (labels : List UInt32) :
    List (Nat × Record) :=
  labels.flatMap fun label =>
    (s.childrenOfKind block label .exteriorCellSubBlock).flatMap fun c =>
      ((s.records c).filter (·.isCellAt p)).map (c, ·)

theorem map_snd_sightings (s : Session) (block : Nat) (p : GridPosition) (labels : List UInt32) :
    (s.sightings block p labels).map Prod.snd =
      (s.subRecords block labels).filter (·.isCellAt p) := by
  simp only [sightings, subRecords, List.map_flatMap, List.filter_flatMap, List.map_map]
  simp [Function.comp_def]

theorem mem_sightings {labels : List UInt32} {c : Nat} {r : Record} :
    (c, r) ∈ s.sightings block p labels ↔
      ∃ label ∈ labels, c ∈ s.childrenOfKind block label .exteriorCellSubBlock ∧
        r ∈ s.records c ∧ r.isCellAt p := by
  simp [sightings, List.mem_flatMap, and_assoc]

theorem land?_foldl_recollect (s : Session) (hp : p.isInterior = false) (cs : List Nat)
    (cache : CellCache) :
    (cs.foldl (s.recollect p.worldForm) cache).land? p =
      (((cs.flatMap fun c => ((s.records c).filter (·.isCellAt p)).map (c, ·)).filterMap
        fun x => s.landOf x.1 x.2).getLast?).or (cache.land? p) := by
  induction cs generalizing cache with
  | nil => simp
  | cons c cs ih =>
    rw [List.foldl_cons, ih, recollect, land?_foldl_remember s c hp, List.flatMap_cons,
      List.filterMap_append, List.getLast?_append, Option.or_assoc, List.filterMap_map]
    rfl

/-- **The land that a block remembers at a position is that of the last cell there that has one.** -/
theorem land?_replay (s : Session) (block : Nat) (hp : p.isInterior = false)
    (labels : List UInt32) :
    (s.replay block p.worldForm labels).land? p =
      ((s.sightings block p labels.reverse).filterMap fun x => s.landOf x.1 x.2).getLast? := by
  induction labels with
  | nil => rfl
  | cons label labels ih =>
    have hland := land?_foldl_recollect s hp (s.childrenOfKind block label .exteriorCellSubBlock)
      (s.replay block p.worldForm labels)
    have hsplit : s.sightings block p (label :: labels).reverse =
        s.sightings block p labels.reverse ++
          (s.childrenOfKind block label .exteriorCellSubBlock).flatMap fun c =>
            ((s.records c).filter (·.isCellAt p)).map (c, ·) := by
      simp [sightings]
    rw [hsplit, List.filterMap_append, List.getLast?_append, ← ih, ← hland]
    rfl

theorem Faithful.landAt_eq (F : Faithful src tops ids s) (hp : p.isInterior = false)
    (hat : s.At p.blockPath block) (hkey : p.subBlockKey ∈ (s.cache block).resolved) :
    s.landAt block p = ((s.sightings block p (s.cache block).resolved.reverse).filterMap
      fun x => s.landOf x.1 x.2).getLast? := by
  have hland : s.landAt block p = (s.cache block).land? p := by
    obtain ⟨g, hid⟩ := hat.exists_group?
    simp [landAt, cache, hid]
  rw [hland, ← land?_replay s block hp, ← (F.recalls_of_mem hat hkey).cache_eq]

/-- A cell that a block has come across lies in a sub-block of the file, and so does its land. -/
theorem Faithful.of_mem_sightings (F : Faithful src tops ids s) (hat : s.At p.blockPath block)
    {c : Nat} {r : Record}
    (hr : (c, r) ∈ s.sightings block p (s.cache block).resolved.reverse) :
    r.isCellAt p ∧ ∃ label, r.under none ∈ src.recordsAt tops (p.subBlockPath label) ∧
      (s.landOf c r).map (·.under none) = (src.landsOf tops (p.subBlockPath label) r).head? := by
  obtain ⟨label, hlabel, hc, hin, hcell⟩ := mem_sightings.mp hr
  have R := F.recalls_of_mem hat (List.mem_reverse.mp hlabel)
  have Fc := R.fixed_of_mem (List.mem_reverse.mp hlabel) hc
  have hatc : s.At (p.subBlockPath label) c := hat.of_mem_childrenOfKind F.toSound hc
  refine ⟨hcell, label, ?_, F.toSound.landOf_eq_landsOf hatc Fc r⟩
  rw [F.toSound.records_of_fixed hatc Fc] at hin
  obtain ⟨r', hr', rfl⟩ := List.mem_map.mp hin
  have hsame : (r'.under (some c)).under none = r' := Source.under_none_of_mem_recordsAt hr'
  rwa [hsame]

/-- **Where there is land, there is a cell.** The land lies with some cell at the position. It lies
with the cell that is found exactly if that one has any land. -/
theorem Faithful.cellAt_of_landAt (F : Faithful src tops ids s) (hp : p.isInterior = false)
    (hat : s.At p.blockPath block) (hkey : p.subBlockKey ∈ (s.cache block).resolved) {l : Record}
    (hl : s.landAt block p = some l) :
    (∃ c label, s.cellAt block p = some c ∧ c.isCellAt p ∧
      c.under none ∈ src.recordsAt tops (p.subBlockPath label) ∧
      (l.under none ∈ src.landsOf tops (p.subBlockPath label) c ↔
        src.landsOf tops (p.subBlockPath label) c ≠ [])) ∧
    ∃ c label, c.isCellAt p ∧ c ∈ src.recordsAt tops (p.subBlockPath label) ∧
      l.under none ∈ src.landsOf tops (p.subBlockPath label) c := by
  have hcell := F.cellAt_eq hp hat hkey
  rw [← map_snd_sightings] at hcell
  rw [F.landAt_eq hp hat hkey] at hl
  constructor
  · -- the cell that is found is the last one that the block has come across
    rcases List.eq_nil_or_concat (s.sightings block p (s.cache block).resolved.reverse) with
      hnil | ⟨xs, ⟨c, r⟩, hlast⟩
    · rw [hnil] at hl
      cases hl
    obtain ⟨hisCell, label, hr, hland⟩ :=
      F.of_mem_sightings hat (c := c) (r := r) (by rw [hlast]; simp)
    rw [hlast] at hl hcell
    refine ⟨r, label, by simpa using hcell, hisCell, hr, ?_⟩
    cases hown : s.landOf c r with
    | none =>
      rw [hown, Option.map_none, eq_comm, List.head?_eq_none_iff] at hland
      simp [hland]
    | some l' =>
      have hsame : l' = l := by simpa [hown] using hl
      subst hsame
      rw [hown, Option.map_some] at hland
      have hmem := List.mem_of_head? hland.symm
      exact ⟨fun _ => List.ne_nil_of_mem hmem, fun _ => hmem⟩
  · obtain ⟨⟨c, r⟩, hmem, hown⟩ := List.mem_filterMap.mp (List.mem_of_getLast? hl)
    obtain ⟨hisCell, label, hr, hland⟩ := F.of_mem_sightings hat hmem
    rw [hown, Option.map_some] at hland
    exact ⟨r.under none, label, hisCell, hr, List.mem_of_head? hland.symm⟩

end Session

/-! ## Open files -/

namespace Plugin

open Session (after)

variable {image : Image} {options : Options} {length? : Option Nat} {plugin : Plugin}
  {s₀ s s' : Session} {p : GridPosition} {l : Record}

/-- A file with a world whose cells lie in one sub-block. The first two have the same coordinates
`(0, 0)`, and of these only the first one has land. The third one lies at `(1, 0)` and has land. -/
def repeatedCells : Image :=
  .ofBytes (Draft.encodeAll .tes4
    [.record .TES4 0 ⟨0⟩ [72, 69, 68, 82, 12, 0, 0, 0, 128, 63, 4, 0, 0, 0, 0, 8, 0, 0],
     .group Tag.WRLD.code .top
      [.record .WRLD 0 ⟨60⟩ [],
       .group 60 .worldChildren
        [.group (GridPosition.pack 0 0) .exteriorCellBlock
          [.group (GridPosition.pack 0 0) .exteriorCellSubBlock
            [.record .CELL 0 ⟨7⟩ [88, 67, 76, 67, 8, 0, 0, 0, 0, 0, 0, 0, 0, 0],
             .group 7 .cellChildren [.group 7 .cellTemporaryChildren [.record .LAND 0 ⟨10⟩ []]],
             .record .CELL 0 ⟨8⟩ [88, 67, 76, 67, 8, 0, 0, 0, 0, 0, 0, 0, 0, 0],
             .record .CELL 0 ⟨9⟩ [88, 67, 76, 67, 8, 0, 1, 0, 0, 0, 0, 0, 0, 0],
             .group 9 .cellChildren
              [.group 9 .cellTemporaryChildren [.record .LAND 0 ⟨11⟩ []]]]]]]])

/-- **Land that is found belongs to a cell at its position.** If looking for the land at a position
gives one, looking for the cell there gives one too, before and after. The land lies among the
temporary children of a cell at the position, in a sub-block of the block for it. It lies with the
cell that is found exactly if that one has land at all. -/
theorem land_query_owner (hopen : open? image options length? = .ok (plugin, s₀))
    (hgroups : s₀.context.schema.hasGroups) (hreach : plugin.Reaches s₀ s)
    (hquery : plugin.query (.land p) s = .ok (some l) s') :
    (∃ c label, plugin.query (.cell p) s = .ok (some c) s' ∧
      plugin.query (.cell p) s' = .ok (some c) s' ∧ c.isCellAt p ∧
      c.under none ∈ s₀.source.recordsAt (plugin.tops s₀) (p.subBlockPath label) ∧
      (l.under none ∈ s₀.source.landsOf (plugin.tops s₀) (p.subBlockPath label) c ↔
        s₀.source.landsOf (plugin.tops s₀) (p.subBlockPath label) c ≠ [])) ∧
    ∃ c label, c.isCellAt p ∧
      c ∈ s₀.source.recordsAt (plugin.tops s₀) (p.subBlockPath label) ∧
      l.under none ∈ s₀.source.landsOf (plugin.tops s₀) (p.subBlockPath label) c := by
  obtain ⟨hflat, -⟩ := rooted_tops_of_open? hopen hgroups
  have F := faithful_of_reaches hopen hgroups hreach
  rw [query_land_eq hflat, atPosition_eq] at hquery
  obtain ⟨blocks, t, hblocks, hanswer⟩ := Session.bind_eq_ok_iff.mp hquery
  obtain ⟨_, _, hget, hpure⟩ := Session.bind_eq_ok_iff.mp hanswer
  cases hget
  obtain ⟨hland, rfl⟩ := EStateM.Result.ok.inj hpure
  have hp : p.isInterior = false := by
    by_contra hinterior
    rw [Bool.not_eq_false] at hinterior
    cases (plugin.blocksAt_interior hinterior s).symm.trans hblocks
    cases hland
  obtain ⟨F', -, -, ⟨rfl, -⟩ | ⟨block, rfl, hat, hkey⟩⟩ := (F.leads_blocksAt hp).ok hblocks
  · cases hland
  rw [List.findSome?_singleton] at hland
  obtain ⟨⟨c, label, hcell, hrest⟩, howner⟩ := F'.cellAt_of_landAt hp hat hkey hland
  refine ⟨⟨c, label, ?_, ?_, hrest⟩, howner⟩
  · rw [query_cell_eq hflat, atPosition_eq]
    refine Session.bind_eq_ok_iff.mpr ⟨[block], t, hblocks, ?_⟩
    refine Session.bind_eq_ok_iff.mpr ⟨t, t, rfl, ?_⟩
    rw [List.findSome?_singleton, hcell]
    rfl
  · rw [query_cell_eq hflat, F'.atPosition_of_resolved Session.cellAt hat hkey, hp, hcell]
    rfl

/-- The third cell has land, and it is found. -/
theorem land_query_owner_repeatedCells :
    ∃ plugin s₀ s' l c label, open? repeatedCells { edition := some .oblivion } none =
        .ok (plugin, s₀) ∧
      s₀.context.schema.hasGroups ∧ plugin.query (.land ⟨1, 0, 60⟩) s₀ = .ok (some l) s' ∧
      l.form.value = 11 ∧ plugin.query (.cell ⟨1, 0, 60⟩) s₀ = .ok (some c) s' ∧
      plugin.query (.cell ⟨1, 0, 60⟩) s' = .ok (some c) s' ∧ c.isCellAt ⟨1, 0, 60⟩ ∧
      c.under none ∈ s₀.source.recordsAt (plugin.tops s₀)
        (GridPosition.subBlockPath ⟨1, 0, 60⟩ label) ∧
      (l.under none ∈ s₀.source.landsOf (plugin.tops s₀)
          (GridPosition.subBlockPath ⟨1, 0, 60⟩ label) c ↔
        s₀.source.landsOf (plugin.tops s₀) (GridPosition.subBlockPath ⟨1, 0, 60⟩ label) c ≠ []) := by
  have hfound : ((open? repeatedCells { edition := some .oblivion } none).toOption.map fun x =>
      (x.2.context.schema.hasGroups,
        ((x.1.query (.land ⟨1, 0, 60⟩)).run' x.2).bind (·.map (·.form.value)))) =
      some (true, some 11) := by
    decide +kernel
  obtain ⟨⟨plugin, s₀⟩, hopen, hvalues⟩ := exists_eq_ok_of_map hfound
  simp only [Prod.mk.injEq] at hvalues
  obtain ⟨hgroups, hland⟩ := hvalues
  obtain ⟨l, hquery, hform⟩ := Session.exists_eq_ok_of_run' hland
  obtain ⟨⟨c, label, hcell⟩, -⟩ := land_query_owner hopen hgroups .refl hquery
  exact ⟨plugin, s₀, _, l, c, label, hopen, hgroups, hquery, hform, hcell⟩

/-- The land of the first cell is found at `(0, 0)`, where the second cell is found, which has none:
it lies in a group with the form id of the first cell. -/
theorem land_of_another_cell :
    ∃ plugin s₀ s t c l g, open? repeatedCells { edition := some .oblivion } none =
        .ok (plugin, s₀) ∧
      plugin.query (.cell ⟨0, 0, 60⟩) s₀ = .ok (some c) s ∧
      plugin.query (.land ⟨0, 0, 60⟩) s = .ok (some l) t ∧
      c.form.value = 8 ∧ s₀.source.landsOf (plugin.tops s₀)
        (GridPosition.subBlockPath ⟨0, 0, 60⟩ (GridPosition.pack 0 0)) c = [] ∧
      l.form.value = 10 ∧ l.header.parent.bind t.group? = some g ∧ g.label = 7 := by
  have hruns : ((open? repeatedCells { edition := some .oblivion } none).toOption.map fun x =>
      let s := after (x.1.query (.cell ⟨0, 0, 60⟩)) x.2
      let t := after (x.1.query (.land ⟨0, 0, 60⟩)) s
      (((x.1.query (.cell ⟨0, 0, 60⟩)).run' x.2).bind (·.map fun c =>
          (c.form.value, (x.2.source.landsOf (x.1.tops x.2)
            (GridPosition.subBlockPath ⟨0, 0, 60⟩ (GridPosition.pack 0 0)) c).isEmpty)),
        ((x.1.query (.land ⟨0, 0, 60⟩)).run' s).bind (·.map fun l =>
          (l.form.value, (l.header.parent.bind t.group?).map (·.label))))) =
      some (some (8, true), some (10, some 7)) := by
    decide +kernel
  obtain ⟨⟨plugin, s₀⟩, hopen, hvalues⟩ := exists_eq_ok_of_map hruns
  simp only [Prod.mk.injEq] at hvalues
  obtain ⟨hcell, hland⟩ := hvalues
  obtain ⟨c, hcell, hc⟩ := Session.exists_eq_ok_of_run' hcell
  obtain ⟨l, hland, hl⟩ := Session.exists_eq_ok_of_run' hland
  simp only [Prod.mk.injEq, List.isEmpty_iff] at hc hl
  obtain ⟨g, hg, hlabel⟩ := Option.map_eq_some_iff.mp hl.2
  exact ⟨plugin, s₀, _, _, c, l, g, hopen, hcell, hland, hc.1, hc.2, hl.1, hg, hlabel⟩

end Plugin

end GamePlugin
