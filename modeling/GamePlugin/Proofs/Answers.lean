import GamePlugin.Proofs.Lookup

/-!
# Which cell is found

A block remembers the cells of all its sub-blocks that have been resolved, by the coordinates that
the cells themselves give, and a later one replaces an earlier one. So the cell that is found at a
position lies in the block for it, and one is found if there is one in the sub-block for it. But
the answer may be a cell that lies in another sub-block than its coordinates say, and then it
depends on what was resolved before. Where a position has no such strays, the answer depends on the
file alone.

## Main definitions

* `Record.isCellAt` — the record is an exterior cell at the coordinates of a position.
* `Source.strays` — the cells at a position that lie in the wrong sub-block.
-/

namespace GamePlugin

/-! ## Positions -/

namespace GridPosition

theorem eq_of_toNat_toUInt32_eq {x y : Int32} (h : x.toUInt32.toNat = y.toUInt32.toNat) :
    x = y := by
  have hword : x.toUInt32 = y.toUInt32 := UInt32.toNat_inj.mp h
  rw [← Int32.toInt32_toUInt32 x, ← Int32.toInt32_toUInt32 y, hword]

/-- Different positions have different keys. -/
theorem key_inj {p q : GridPosition} (h : p.key = q.key) : p = q := by
  have hlt (x : Int32) : x.toUInt32.toNat < 4294967296 := x.toUInt32.toNat_lt
  have hpy := hlt p.y
  have hqy := hlt q.y
  have hpw := hlt p.world
  have hqw := hlt q.world
  simp only [key, planarKey, UInt32.size] at h
  have hx : p.x = q.x := eq_of_toNat_toUInt32_eq (by omega)
  have hy : p.y = q.y := eq_of_toNat_toUInt32_eq (by omega)
  have hw : p.world = q.world := eq_of_toNat_toUInt32_eq (by omega)
  cases p
  cases q
  simp_all

/-- The cells at a position in a world are the exterior ones with its coordinates. -/
theorem ofCell_eq_iff {p : GridPosition} (hp : p.isInterior = false) (c : Cell) :
    ofCell c p.worldForm = p ↔ c.isInterior = false ∧ c.coordinates = (p.x, p.y) := by
  have hworld : p.world ≠ -1 := by simpa [isInterior] using hp
  obtain ⟨x, y, world⟩ := p
  cases hc : c.isInterior with
  | true => simp [ofCell, hc, interior, Ne.symm hworld]
  | false =>
    rcases hxy : c.coordinates with ⟨x', y'⟩
    simp [ofCell, hc, hxy, exterior, worldForm]

end GridPosition

/-- Whether the record is an exterior cell at the coordinates of a position. -/
def Record.isCellAt (r : Record) (p : GridPosition) : Bool :=
  r.tag = .CELL && r.cell?.any fun c => !c.isInterior && c.coordinates = (p.x, p.y)

@[simp] theorem Record.isCellAt_under (r : Record) (parent : Option Nat) (p : GridPosition) :
    (r.under parent).isCellAt p = r.isCellAt p := rfl

/-- The cells at a position that lie in the block for it, but in another sub-block. -/
def Source.strays (src : Source) (tops : List GroupHeader) (p : GridPosition) : List Record :=
  ((((src.piecesAt tops p.blockPath).flatMap src.groupsIn).filter fun h =>
    h.kind = .exteriorCellSubBlock && h.label ≠ p.subBlockKey).flatMap src.decoded).filter
      (·.isCellAt p)

theorem Source.mem_strays {src : Source} {tops : List GroupHeader} {p : GridPosition}
    {label : UInt32} (hlabel : label ≠ p.subBlockKey) {r : Record}
    (hr : r ∈ src.recordsAt tops (p.subBlockPath label)) (hat : r.isCellAt p) :
    r ∈ src.strays tops p := by
  obtain ⟨h, hh, hin⟩ := List.mem_flatMap.mp hr
  obtain ⟨hmem, heq⟩ := List.mem_filter.mp hh
  simp only [Bool.and_eq_true, decide_eq_true_eq] at heq
  refine List.mem_filter.mpr ⟨List.mem_flatMap.mpr ⟨h, List.mem_filter.mpr ⟨hmem, ?_⟩, hin⟩, hat⟩
  simp [heq, hlabel]

/-! ## What is remembered at a position -/

/-- Where entering a record replaces what was found under its key, the latest record is found. -/
theorem find_foldl {τ : Type} {insert : τ → Record → τ} (find : τ → Option Record)
    {q : Record → Bool} (h : ∀ t r, find (insert t r) = if q r then some r else find t)
    (rs : List Record) (t : τ) :
    find (rs.foldl insert t) = ((rs.filter q).getLast?).or (find t) := by
  induction rs generalizing t with
  | nil => simp
  | cons r rs ih =>
    rw [List.foldl_cons, ih, h]
    by_cases hr : q r
    · simp [hr, List.getLast?_cons]
    · simp [hr]

theorem CellCache.cell?_insert (cache : CellCache) (p q : GridPosition) (cell : Record)
    (land : Option Record) :
    (cache.insert q cell land).cell? p = if q = p then some cell else cache.cell? p := by
  simp only [cell?, CellCache.insert, Std.TreeMap.getElem?_insert]
  by_cases h : q = p
  · simp [h]
  · have hkey : q.key ≠ p.key := fun heq => h (GridPosition.key_inj heq)
    simp [h, hkey]

namespace Session

variable {src : Source} {tops : List GroupHeader} {ids : List Nat} {s : Session} {block : Nat}
  {p : GridPosition}

theorem cell?_remember (s : Session) (c : Nat) (hp : p.isInterior = false) (cache : CellCache)
    (r : Record) :
    (s.remember c p.worldForm cache r).cell? p =
      if r.isCellAt p then some r else cache.cell? p := by
  rw [remember, Record.isCellAt]
  by_cases htag : r.tag = .CELL
  · cases hcell : r.cell? with
    | none => simp [htag]
    | some cell =>
      simp only [htag, if_true, CellCache.cell?_insert, GridPosition.ofCell_eq_iff hp]
      simp
  · simp [htag]

/-- A later cell replaces an earlier one. -/
theorem cell?_foldl_remember (s : Session) (c : Nat) (hp : p.isInterior = false)
    (rs : List Record) (cache : CellCache) :
    (rs.foldl (s.remember c p.worldForm) cache).cell? p =
      ((rs.filter (·.isCellAt p)).getLast?).or (cache.cell? p) :=
  find_foldl (·.cell? p) (cell?_remember s c hp) rs cache

theorem cell?_foldl_recollect (s : Session) (hp : p.isInterior = false) (cs : List Nat)
    (cache : CellCache) :
    (cs.foldl (s.recollect p.worldForm) cache).cell? p =
      (((cs.flatMap s.records).filter (·.isCellAt p)).getLast?).or (cache.cell? p) := by
  induction cs generalizing cache with
  | nil => simp
  | cons c cs ih =>
    rw [List.foldl_cons, ih, recollect, cell?_foldl_remember s c hp, List.flatMap_cons,
      List.filter_append, List.getLast?_append, Option.or_assoc]
    rfl

/-- The records of a block's sub-blocks with given labels, one after another. -/
def subRecords (s : Session) (block : Nat) (labels : List UInt32) : List Record :=
  labels.flatMap fun label =>
    (s.childrenOfKind block label .exteriorCellSubBlock).flatMap s.records

/-- **What a block remembers at a position is the last cell there in the sub-blocks that have been
resolved, in the order in which they were.** -/
theorem cell?_replay (s : Session) (block : Nat) (hp : p.isInterior = false)
    (labels : List UInt32) :
    (s.replay block p.worldForm labels).cell? p =
      ((s.subRecords block labels.reverse).filter (·.isCellAt p)).getLast? := by
  induction labels with
  | nil => rfl
  | cons label labels ih =>
    have hcell := cell?_foldl_recollect s hp (s.childrenOfKind block label .exteriorCellSubBlock)
      (s.replay block p.worldForm labels)
    have hsplit : s.subRecords block (label :: labels).reverse =
        s.subRecords block labels.reverse ++
          (s.childrenOfKind block label .exteriorCellSubBlock).flatMap s.records := by
      simp [subRecords]
    rw [hsplit, List.filter_append, List.getLast?_append, ← ih, ← hcell]
    rfl

theorem Faithful.cellAt_eq (F : Faithful src tops ids s) (hp : p.isInterior = false)
    (hat : s.At p.blockPath block) (hkey : p.subBlockKey ∈ (s.cache block).resolved) :
    s.cellAt block p =
      ((s.subRecords block (s.cache block).resolved.reverse).filter (·.isCellAt p)).getLast? := by
  have hcell : s.cellAt block p = (s.cache block).cell? p := by
    obtain ⟨g, hid⟩ := hat.exists_group?
    simp [cellAt, cache, hid]
  rw [hcell, ← cell?_replay s block hp, ← (F.recalls_of_mem hat hkey).cache_eq]

/-- The records of a sub-block that has been resolved are those that the file has there. -/
theorem Faithful.records_of_resolved (F : Faithful src tops ids s) (hat : s.At p.blockPath block)
    {label : UInt32} (hlabel : label ∈ (s.cache block).resolved) :
    ∃ c, s.childrenOfKind block label .exteriorCellSubBlock = [c] ∧
      s.At (p.subBlockPath label) c ∧
      s.records c = (src.recordsAt tops (p.subBlockPath label)).map (·.under (some c)) := by
  obtain ⟨c, hc, hfixed⟩ := (F.recalls_of_mem hat hlabel).fixed label hlabel
  have hatc : s.At (p.subBlockPath label) c :=
    hat.of_mem_childrenOfKind F.toSound (hc ▸ List.mem_singleton_self c)
  exact ⟨c, hc, hatc, F.toSound.records_of_fixed hatc hfixed⟩

theorem mem_subRecords {labels : List UInt32} {r : Record} :
    r ∈ s.subRecords block labels ↔
      ∃ label ∈ labels, ∃ c ∈ s.childrenOfKind block label .exteriorCellSubBlock,
        r ∈ s.records c := by
  simp [subRecords, List.mem_flatMap]

/-- A cell that is found is one of a sub-block in the block for its position. -/
theorem Faithful.mem_of_cellAt (F : Faithful src tops ids s) (hp : p.isInterior = false)
    (hat : s.At p.blockPath block) (hkey : p.subBlockKey ∈ (s.cache block).resolved) {r : Record}
    (hr : s.cellAt block p = some r) :
    r.isCellAt p ∧ ∃ label c, s.At (p.subBlockPath label) c ∧ r ∈ s.records c ∧
      r.under none ∈ src.recordsAt tops (p.subBlockPath label) := by
  rw [F.cellAt_eq hp hat hkey] at hr
  obtain ⟨hmem, hcell⟩ := List.mem_filter.mp (List.mem_of_getLast? hr)
  obtain ⟨label, hlabel, c, hc, hin⟩ := mem_subRecords.mp hmem
  obtain ⟨d, hd, hatd, hrecords⟩ := F.records_of_resolved hat (List.mem_reverse.mp hlabel)
  rw [hd, List.mem_singleton] at hc
  subst hc
  refine ⟨hcell, label, c, hatd, hin, ?_⟩
  rw [hrecords] at hin
  obtain ⟨r', hr', rfl⟩ := List.mem_map.mp hin
  have hsame : (r'.under (some c)).under none = r' := Source.under_none_of_mem_recordsAt hr'
  rwa [hsame]

/-- A cell is found if there is one in the sub-block for the position. -/
theorem Faithful.isSome_cellAt (F : Faithful src tops ids s) (hp : p.isInterior = false)
    (hat : s.At p.blockPath block) (hkey : p.subBlockKey ∈ (s.cache block).resolved) {r : Record}
    (hr : r ∈ src.recordsAt tops (p.subBlockPath p.subBlockKey)) (hcell : r.isCellAt p) :
    (s.cellAt block p).isSome := by
  obtain ⟨c, hc, -, hrecords⟩ := F.records_of_resolved hat hkey
  have hmem : r.under (some c) ∈ s.subRecords block (s.cache block).resolved.reverse := by
    refine mem_subRecords.mpr ⟨p.subBlockKey, List.mem_reverse.mpr hkey, c, by simp [hc], ?_⟩
    rw [hrecords]
    exact List.mem_map_of_mem hr
  rw [F.cellAt_eq hp hat hkey, List.getLast?_isSome]
  exact List.ne_nil_of_mem (List.mem_filter.mpr ⟨hmem, hcell⟩)

/-! ## The answer without strays -/

/-- Where all other parts are passed over, one part is left. -/
theorem filter_flatMap_of_unique {α κ : Type} [DecidableEq κ] {q : α → Bool} {f : κ → List α}
    {ks : List κ} {k : κ} (hk : k ∈ ks) (hnodup : ks.Nodup)
    (hothers : ∀ j ∈ ks, j ≠ k → (f j).filter q = []) :
    (ks.flatMap f).filter q = (f k).filter q := by
  induction ks with
  | nil => cases hk
  | cons j ks ih =>
    obtain ⟨hj, hks⟩ := List.nodup_cons.mp hnodup
    obtain ⟨hfirst, hrest⟩ := List.forall_mem_cons.mp hothers
    rw [List.flatMap_cons, List.filter_append]
    by_cases heq : j = k
    · subst heq
      have hnil : (ks.flatMap f).filter q = [] := by
        rw [List.filter_flatMap, List.flatMap_eq_nil_iff]
        intro i hi
        exact hrest i hi fun heq => hj (heq ▸ hi)
      rw [hnil, List.append_nil]
    · have hmem : k ∈ ks := (List.mem_cons.mp hk).resolve_left (Ne.symm heq)
      rw [hfirst heq, List.nil_append, ih hmem hks hrest]

/-- Without strays, the cell that is found is the last one in the sub-block for the position. -/
theorem Faithful.cellAt_of_strays (F : Faithful src tops ids s) (hp : p.isInterior = false)
    (hat : s.At p.blockPath block) (hkey : p.subBlockKey ∈ (s.cache block).resolved)
    (hstrays : src.strays tops p = []) :
    (s.cellAt block p).map (·.under none) =
      ((src.recordsAt tops (p.subBlockPath p.subBlockKey)).filter (·.isCellAt p)).getLast? := by
  have hothers : ∀ label ∈ (s.cache block).resolved.reverse, label ≠ p.subBlockKey →
      ((s.childrenOfKind block label .exteriorCellSubBlock).flatMap s.records).filter
        (·.isCellAt p) = [] := by
    intro label hlabel hne
    obtain ⟨c, hc, -, hrecords⟩ := F.records_of_resolved hat (List.mem_reverse.mp hlabel)
    rw [hc, List.flatMap_cons, List.flatMap_nil, List.append_nil, hrecords,
      List.filter_eq_nil_iff]
    intro r hr hcell
    obtain ⟨r', hr', rfl⟩ := List.mem_map.mp hr
    have hstray := Source.mem_strays hne hr' hcell
    rw [hstrays] at hstray
    cases hstray
  have hnodup := List.nodup_reverse.mpr (F.recalls_of_mem hat hkey).nodup
  obtain ⟨c, hc, -, hrecords⟩ := F.records_of_resolved hat hkey
  rw [F.cellAt_eq hp hat hkey, subRecords,
    filter_flatMap_of_unique (List.mem_reverse.mpr hkey) hnodup hothers, hc, List.flatMap_cons,
    List.flatMap_nil, List.append_nil, hrecords, ← List.getLast?_map,
    Source.map_filter_under (fun r => r.isCellAt_under _ p)]

end Session

/-! ## Open files -/

namespace Plugin

open Session (Faithful)

variable {image : Image} {options : Options} {length? : Option Nat} {plugin : Plugin}
  {s₀ s s' : Session} {p : GridPosition} {r? : Option Record}

theorem cache_registerTop {src : Source} {tops : List GroupHeader} {ids ids' : List Nat}
    {h : GroupHeader} {eager : Bool} (H : Session.Rooted src tops ids s)
    (hempty : ∀ c, s.cache c = {}) (heq : registerTop eager ids h s = .ok ids' s') (c : Nat) :
    s'.cache c = {} := by
  refine of_registerTop (Q := fun s => ∀ c, s.cache c = {}) ?_ ?_ H hempty heq c
  · intro s h s' P hs c
    have G := P.grows fun p hp => by cases hp
    rw [G.cache_eq]
    exact hs c
  · intro src tops ids s id g R hid _ hs c
    rw [R.toSound.cache_commit hid]
    exact hs c

/-- Right after opening, nothing is remembered. -/
theorem cache_of_open? (hopen : open? image options length? = .ok (plugin, s₀)) (c : Nat) :
    s₀.cache c = {} := by
  have hnone {s : Session} (h : s.groups = #[]) (c : Nat) : s.cache c = {} := by
    simp [Session.cache, Session.group?, h]
  rcases of_open? (Q := fun s => ∀ c, s.cache c = {}) hopen (fun h _ => hnone h)
    cache_registerTop with h | h
  · exact h c
  · exact hnone h c

theorem faithful_of_open? (hopen : open? image options length? = .ok (plugin, s₀))
    (hgroups : s₀.context.schema.hasGroups) :
    Faithful s₀.source (plugin.tops s₀) plugin.topGroups s₀ := by
  obtain ⟨-, -, -, H⟩ := rooted_tops_of_open? hopen hgroups
  exact ⟨H, fun c => .inl (cache_of_open? hopen c)⟩

theorem faithful_of_reaches (hopen : open? image options length? = .ok (plugin, s₀))
    (hgroups : s₀.context.schema.hasGroups) (hreach : plugin.Reaches s₀ s) :
    Faithful s₀.source (plugin.tops s₀) plugin.topGroups s :=
  hreach.of_preserves
    (preserves_perform Faithful.preserves_loadOne (Faithful.preserves_atPosition plugin))
    (faithful_of_open? hopen hgroups)

theorem query_cell_eq (hflat : plugin.flat = none) (p : GridPosition) :
    plugin.query (.cell p) = plugin.atPosition Session.cellAt p := by
  rw [query, hflat]
  rfl

theorem query_land_eq (hflat : plugin.flat = none) (p : GridPosition) :
    plugin.query (.land p) = plugin.atPosition Session.landAt p := by
  rw [query, hflat]
  rfl

/-- What looking for a cell in a world gives: nothing, if the file has no sub-block for the
position, or else what a block remembers. -/
theorem query_cell_cases (hopen : open? image options length? = .ok (plugin, s₀))
    (hgroups : s₀.context.schema.hasGroups) (hlimit : options.subBlockLimit = none)
    (hreach : plugin.Reaches s₀ s) (hp : p.isInterior = false)
    (hquery : plugin.query (.cell p) s = .ok r? s') :
    Faithful s₀.source (plugin.tops s₀) plugin.topGroups s' ∧
      s₀.source.Resolvable (plugin.tops s₀) p ∧
      (r? = none ∧ s₀.source.recordsAt (plugin.tops s₀) (p.subBlockPath p.subBlockKey) = [] ∨
        ∃ block, r? = s'.cellAt block p ∧ s'.At p.blockPath block ∧
          p.subBlockKey ∈ (s'.cache block).resolved) := by
  obtain ⟨hflat, hsource, -⟩ := rooted_tops_of_open? hopen hgroups
  have hnone : s₀.source.options.subBlockLimit = none := by
    rw [hsource]
    exact hlimit
  have F := faithful_of_reaches hopen hgroups hreach
  rw [query_cell_eq hflat] at hquery
  obtain ⟨F', hresolvable, hcases⟩ := (F.leads_atPosition Session.cellAt hp).ok hquery
  refine ⟨F', hresolvable hnone, hcases.imp_left ?_⟩
  rintro ⟨hr?, hnil⟩
  rw [Source.recordsAt, hnil hnone]
  exact ⟨hr?, rfl⟩

theorem query_cell_interior (hflat : plugin.flat = none) (hp : p.isInterior) (s : Session) :
    plugin.query (.cell p) s = .ok none s := by
  rw [query_cell_eq hflat, atPosition, if_pos hp]
  rfl

theorem query_land_interior (hflat : plugin.flat = none) (hp : p.isInterior) (s : Session) :
    plugin.query (.land p) s = .ok none s := by
  rw [query_land_eq hflat, atPosition, if_pos hp]
  rfl

/-- A file with a world whose cells lie in two blocks. The last cell lies at `(-1, -9)`. The first
one lies at `(0, 0)`, and so does the second one, which gives no coordinates and is in another
sub-block of the same block. -/
def strayCells : Image :=
  .ofBytes (Draft.encodeAll .tes4
    [.record .TES4 0 ⟨0⟩ [72, 69, 68, 82, 12, 0, 0, 0, 128, 63, 4, 0, 0, 0, 0, 8, 0, 0],
     .group Tag.WRLD.code .top
      [.record .WRLD 0 ⟨60⟩ [],
       .group 60 .worldChildren
        [.group (GridPosition.pack 0 0) .exteriorCellBlock
          [.group (GridPosition.pack 0 0) .exteriorCellSubBlock
            [.record .CELL 0 ⟨7⟩ [88, 67, 76, 67, 8, 0, 0, 0, 0, 0, 0, 0, 0, 0]],
           .group (GridPosition.pack 1 0) .exteriorCellSubBlock [.record .CELL 0 ⟨8⟩ []]],
         .group (GridPosition.pack (-1) (-1)) .exteriorCellBlock
          [.group (GridPosition.pack (-1) (-2)) .exteriorCellSubBlock
            [.record .CELL 0 ⟨9⟩
              [88, 67, 76, 67, 8, 0, 255, 255, 255, 255, 247, 255, 255, 255]]]]]])

/-- **A cell is found where it should be.** If looking for a cell at a position of a world gives
one, this is an exterior cell with the coordinates of the position, and it lies in some sub-block of
the block for the position. If the file has such a cell in the very sub-block for the position, one
is found. This is so whatever was done before. -/
theorem cell_query_exact (hopen : open? image options length? = .ok (plugin, s₀))
    (hgroups : s₀.context.schema.hasGroups) (hlimit : options.subBlockLimit = none)
    (hreach : plugin.Reaches s₀ s) (hworld : p.world ≠ -1)
    (hquery : plugin.query (.cell p) s = .ok r? s') :
    (∀ r, r? = some r → r.isCellAt p ∧ ∃ label id, s'.At (p.subBlockPath label) id ∧
      r ∈ s'.records id ∧
      r.under none ∈ s₀.source.recordsAt (plugin.tops s₀) (p.subBlockPath label)) ∧
    ((∃ r ∈ s₀.source.recordsAt (plugin.tops s₀) (p.subBlockPath p.subBlockKey), r.isCellAt p) →
      r?.isSome) := by
  have hp : p.isInterior = false := by simpa [GridPosition.isInterior] using hworld
  obtain ⟨F, -, ⟨rfl, hnil⟩ | ⟨block, rfl, hat, hkey⟩⟩ :=
    query_cell_cases hopen hgroups hlimit hreach hp hquery
  · constructor
    · intro r hr
      cases hr
    · rintro ⟨r, hr, -⟩
      rw [hnil] at hr
      cases hr
  · constructor
    · intro r hr
      exact F.mem_of_cellAt hp hat hkey hr
    · rintro ⟨r, hr, hcell⟩
      exact F.isSome_cellAt hp hat hkey hr hcell

/-- A cell at negative coordinates, after a cell in another block was found. -/
theorem cell_query_exact_strayCells :
    ∃ plugin s₀ s s' r, open? strayCells { edition := some .oblivion } none = .ok (plugin, s₀) ∧
      s₀.context.schema.hasGroups ∧ plugin.Reaches s₀ s ∧
      plugin.query (.cell ⟨-1, -9, 60⟩) s = .ok (some r) s' ∧ r.form.value = 9 ∧
      (r.isCellAt ⟨-1, -9, 60⟩ ∧
        ∃ label id, s'.At (GridPosition.subBlockPath ⟨-1, -9, 60⟩ label) id ∧ r ∈ s'.records id ∧
          r.under none ∈ s₀.source.recordsAt (plugin.tops s₀)
            (GridPosition.subBlockPath ⟨-1, -9, 60⟩ label)) ∧
      (∃ r ∈ s₀.source.recordsAt (plugin.tops s₀) (GridPosition.subBlockPath ⟨-1, -9, 60⟩
        (GridPosition.subBlockKey ⟨-1, -9, 60⟩)), r.isCellAt ⟨-1, -9, 60⟩) := by
  have hfound : ((open? strayCells { edition := some .oblivion } none).toOption.map fun x =>
      let s := Session.after (x.1.perform (.query (.cell ⟨0, 0, 60⟩))) x.2
      (x.2.context.schema.hasGroups,
        ((x.1.query (.cell ⟨-1, -9, 60⟩)).run' s).map (·.map (·.form.value)),
        (x.2.source.recordsAt (x.1.tops x.2) (GridPosition.subBlockPath ⟨-1, -9, 60⟩
          (GridPosition.subBlockKey ⟨-1, -9, 60⟩))).any (·.isCellAt ⟨-1, -9, 60⟩))) =
      some (true, some (some 9), true) := by
    decide +kernel
  obtain ⟨⟨plugin, s₀⟩, hopen, hvalues⟩ := exists_eq_ok_of_map hfound
  simp only [Prod.mk.injEq] at hvalues
  obtain ⟨hgroups, hrun, hany⟩ := hvalues
  obtain ⟨r?, hrun, hr?⟩ := Option.map_eq_some_iff.mp hrun
  obtain ⟨r, rfl, hform⟩ := Option.map_eq_some_iff.mp hr?
  have hquery := Session.eq_ok_of_run' hrun
  have hreach : plugin.Reaches s₀
    (Session.after (plugin.perform (.query (.cell ⟨0, 0, 60⟩))) s₀) := .step .refl _
  obtain ⟨hsound, -⟩ := cell_query_exact hopen hgroups rfl hreach (by decide) hquery
  exact ⟨plugin, s₀, _, _, r, hopen, hgroups, hreach, hquery, hform, hsound r rfl,
    List.any_eq_true.mp hany⟩

/-- Without strays, what is found depends on the file alone. -/
theorem cell_of_query (hopen : open? image options length? = .ok (plugin, s₀))
    (hgroups : s₀.context.schema.hasGroups) (hlimit : options.subBlockLimit = none)
    (hreach : plugin.Reaches s₀ s) (hp : p.isInterior = false)
    (hstrays : s₀.source.strays (plugin.tops s₀) p = [])
    (hquery : plugin.query (.cell p) s = .ok r? s') :
    r?.map (·.under none) =
      ((s₀.source.recordsAt (plugin.tops s₀) (p.subBlockPath p.subBlockKey)).filter
        (·.isCellAt p)).getLast? := by
  obtain ⟨F, -, ⟨rfl, hnil⟩ | ⟨block, rfl, hat, hkey⟩⟩ :=
    query_cell_cases hopen hgroups hlimit hreach hp hquery
  · rw [hnil]
    rfl
  · exact F.cellAt_of_strays hp hat hkey hstrays

/-- **Where no cell strays, the answer does not depend on what was done before.** -/
theorem cell_query_transparent {t : Session}
    (hopen : open? image options length? = .ok (plugin, s₀))
    (hgroups : s₀.context.schema.hasGroups) (hlimit : options.subBlockLimit = none)
    (hreach : plugin.Reaches s₀ s) (hreach' : plugin.Reaches s₀ t)
    (hstrays : s₀.source.strays (plugin.tops s₀) p = [])
    (hquery : plugin.query (.cell p) s = .ok r? s') :
    ∃ r?' t', plugin.query (.cell p) t = .ok r?' t' ∧
      r?'.map (·.under none) = r?.map (·.under none) := by
  obtain ⟨hflat, -⟩ := rooted_tops_of_open? hopen hgroups
  cases hp : p.isInterior with
  | true =>
    rw [query_cell_interior hflat hp] at hquery
    cases hquery
    exact ⟨none, t, query_cell_interior hflat hp t, rfl⟩
  | false =>
    have hvalue := cell_of_query hopen hgroups hlimit hreach hp hstrays hquery
    cases hagain : plugin.query (.cell p) t with
    | ok r?' t' =>
      have hvalue' := cell_of_query hopen hgroups hlimit hreach' hp hstrays hagain
      exact ⟨r?', t', rfl, hvalue'.trans hvalue.symm⟩
    | error e t' =>
      -- what could be read from one session can be read from the other
      obtain ⟨-, hresolvable, -⟩ := query_cell_cases hopen hgroups hlimit hreach hp hquery
      have F := faithful_of_reaches hopen hgroups hreach'
      rw [query_cell_eq hflat] at hagain
      obtain ⟨-, hnot⟩ := (F.leads_atPosition Session.cellAt hp).error hagain
      exact absurd hresolvable hnot

/-- The cell at `(-1, -9)`, right after opening and after looking at `(0, 0)`: its sub-block is node
4 in the one session and node 6 in the other. -/
theorem cell_query_transparent_strayCells :
    ∃ plugin s₀ s' t t' r r', open? strayCells { edition := some .oblivion } none =
        .ok (plugin, s₀) ∧
      s₀.context.schema.hasGroups ∧ plugin.Reaches s₀ t ∧
      s₀.source.strays (plugin.tops s₀) ⟨-1, -9, 60⟩ = [] ∧
      plugin.query (.cell ⟨-1, -9, 60⟩) s₀ = .ok (some r) s' ∧
      plugin.query (.cell ⟨-1, -9, 60⟩) t = .ok (some r') t' ∧
      r.header.parent = some 4 ∧ r'.header.parent = some 6 ∧ r'.under none = r.under none := by
  have hfound : ((open? strayCells { edition := some .oblivion } none).toOption.map fun x =>
      (x.2.context.schema.hasGroups, (x.2.source.strays (x.1.tops x.2) ⟨-1, -9, 60⟩).isEmpty,
        [x.2, Session.after (x.1.perform (.query (.cell ⟨0, 0, 60⟩))) x.2].map fun s =>
          ((x.1.query (.cell ⟨-1, -9, 60⟩)).run' s).bind (·.bind (·.header.parent)))) =
      some (true, true, [some 4, some 6]) := by
    decide +kernel
  obtain ⟨⟨plugin, s₀⟩, hopen, hvalues⟩ := exists_eq_ok_of_map hfound
  simp only [Prod.mk.injEq, List.map_cons, List.cons.injEq] at hvalues
  obtain ⟨hgroups, hstrays, hfirst, hsecond, -⟩ := hvalues
  obtain ⟨r?, hrun, hr?⟩ := Option.bind_eq_some_iff.mp hfirst
  obtain ⟨r, rfl, hparent⟩ := Option.bind_eq_some_iff.mp hr?
  obtain ⟨r?', hrun', hr?'⟩ := Option.bind_eq_some_iff.mp hsecond
  obtain ⟨r', rfl, hparent'⟩ := Option.bind_eq_some_iff.mp hr?'
  have hquery := Session.eq_ok_of_run' hrun
  have hreach : plugin.Reaches s₀
    (Session.after (plugin.perform (.query (.cell ⟨0, 0, 60⟩))) s₀) := .step .refl _
  obtain ⟨r?', t', hagain, hsame⟩ := cell_query_transparent hopen hgroups rfl .refl hreach
    (List.isEmpty_iff.mp hstrays) hquery
  cases (Session.eq_ok_of_run' hrun').symm.trans hagain
  exact ⟨plugin, s₀, _, _, _, r, r', hopen, hgroups, hreach, List.isEmpty_iff.mp hstrays, hquery,
    hagain, hparent, hparent', Option.some.inj hsame⟩

/-- Where a cell strays, what is found at its position depends on what was done before: the cell at
`(0, 0)` is another one after looking at `(8, 0)`, although nothing is there. -/
theorem cell_query_changes :
    ∃ plugin s₀ s t u r r', open? strayCells { edition := some .oblivion } none =
        .ok (plugin, s₀) ∧
      plugin.query (.cell ⟨0, 0, 60⟩) s₀ = .ok (some r) s ∧
      plugin.query (.cell ⟨8, 0, 60⟩) s = .ok none t ∧
      plugin.query (.cell ⟨0, 0, 60⟩) t = .ok (some r') u ∧
      r.form.value = 7 ∧ r'.form.value = 8 := by
  have hruns : ((open? strayCells { edition := some .oblivion } none).toOption.map fun x =>
      let s := Session.after (x.1.query (.cell ⟨0, 0, 60⟩)) x.2
      let t := Session.after (x.1.query (.cell ⟨8, 0, 60⟩)) s
      (((x.1.query (.cell ⟨0, 0, 60⟩)).run' x.2).map (·.map (·.form.value)),
        ((x.1.query (.cell ⟨8, 0, 60⟩)).run' s).map (·.map (·.form.value)),
        ((x.1.query (.cell ⟨0, 0, 60⟩)).run' t).map (·.map (·.form.value)))) =
      some (some (some 7), some none, some (some 8)) := by
    decide +kernel
  obtain ⟨⟨plugin, s₀⟩, hopen, hvalues⟩ := exists_eq_ok_of_map hruns
  simp only [Prod.mk.injEq] at hvalues
  obtain ⟨hfirst, hsecond, hthird⟩ := hvalues
  obtain ⟨r?, hrun, hr?⟩ := Option.map_eq_some_iff.mp hfirst
  obtain ⟨r, rfl, hform⟩ := Option.map_eq_some_iff.mp hr?
  obtain ⟨n?, hrun', hn?⟩ := Option.map_eq_some_iff.mp hsecond
  obtain rfl := Option.map_eq_none_iff.mp hn?
  obtain ⟨r?', hrun'', hr?'⟩ := Option.map_eq_some_iff.mp hthird
  obtain ⟨r', rfl, hform'⟩ := Option.map_eq_some_iff.mp hr?'
  exact ⟨plugin, s₀, _, _, _, r, r', hopen, Session.eq_ok_of_run' hrun,
    Session.eq_ok_of_run' hrun', Session.eq_ok_of_run' hrun'', hform, hform'⟩

end Plugin

end GamePlugin
