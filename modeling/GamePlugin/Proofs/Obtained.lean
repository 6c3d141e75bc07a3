import GamePlugin.Proofs.Registered

/-!
# What a plugin has got from its file

Records are kept in many places: the root record, the nodes of the arena, the index of loaded
records, what blocks remember of their cells, and the tables of a file without groups. All that a
caller is ever given comes from one of them (`Plugin.has_of_gives`). None of them is filled from
anywhere but the file: each record is what the file says at its header (`Plugin.read_of_has`).

## Main definitions

* `Session.Retains` — a record is held by a node.
* `Plugin.Has` — a record is kept somewhere.
* `Plugin.gives` — the records that an operation gives.
-/

namespace GamePlugin

/-! ## What blocks remember -/

/-- All records that are remembered have a property. -/
structure CellCache.All (P : Record → Prop) (c : CellCache) : Prop where
  cells : ∀ (key : Nat) r, c.cells[key]? = some r → P r
  lands : ∀ (key : Nat) r, c.lands[key]? = some r → P r

namespace CellCache

variable {P : Record → Prop} {c : CellCache} {cell : Record} {land : Option Record}

theorem All.empty : ({} : CellCache).All P where
  cells key r h := by simp at h
  lands key r h := by simp at h

theorem All.insert (H : c.All P) (hcell : P cell) (hland : ∀ l, land = some l → P l)
    (p : GridPosition) : (c.insert p cell land).All P where
  cells _ _ h := LoadedIndex.of_getElem?_insert H.cells hcell h
  lands key r h := by
    cases land with
    | none => exact H.lands key r h
    | some l => exact LoadedIndex.of_getElem?_insert H.lands (hland l rfl) h

end CellCache

namespace Session

variable {src : Source} {tops : List GroupHeader} {ids : List Nat} {s t : Session} {id : Nat}
  {g : GroupNode} {r : Record}

/-- The record is held by a node. -/
def Retains (s : Session) (r : Record) : Prop := ∃ c, r ∈ s.records c

theorem retains_of_landOf {subBlock : Nat} {l : Record} (h : s.landOf subBlock r = some l) :
    s.Retains l := by
  have hmem := List.mem_of_find?_eq_some h
  obtain ⟨c, -, hin⟩ := List.mem_flatMap.mp hmem
  obtain ⟨d, -, hl⟩ := List.mem_flatMap.mp hin
  exact ⟨d, hl⟩

theorem all_remember {subBlock : Nat} {world : FormId} {cache : CellCache}
    (H : cache.All s.Retains) (hr : s.Retains r) :
    (s.remember subBlock world cache r).All s.Retains := by
  rw [remember]
  split
  · split
    · exact H
    · exact H.insert hr (fun l hl => retains_of_landOf hl) _
  · exact H

theorem all_recollect {subBlock : Nat} {world : FormId} {cache : CellCache}
    (H : cache.All s.Retains) : (s.recollect world cache subBlock).All s.Retains := by
  rw [recollect]
  have hfold (rs : List Record) (hrs : ∀ r ∈ rs, s.Retains r) (cache : CellCache)
      (H : cache.All s.Retains) :
      (rs.foldl (s.remember subBlock world) cache).All s.Retains := by
    induction rs generalizing cache with
    | nil => exact H
    | cons r rs ih =>
      obtain ⟨hr, hrs⟩ := List.forall_mem_cons.mp hrs
      exact ih hrs _ (all_remember H hr)
  exact hfold _ (fun r hr => ⟨subBlock, hr⟩) _ ⟨H.cells, H.lands⟩

theorem all_replay (s : Session) (block : Nat) (world : FormId) (keys : List UInt32) :
    (s.replay block world keys).All s.Retains := by
  induction keys with
  | nil => exact .empty
  | cons key keys ih =>
    have hfold (cs : List Nat) (cache : CellCache) (H : cache.All s.Retains) :
        (cs.foldl (s.recollect world) cache).All s.Retains := by
      induction cs generalizing cache with
      | nil => exact H
      | cons c cs ih => exact ih _ (all_recollect H)
    have H := hfold (s.childrenOfKind block key .exteriorCellSubBlock) _ ih
    exact ⟨H.cells, H.lands⟩

/-- Blocks remember only records that are held by nodes. -/
theorem Faithful.all_cache (F : Faithful src tops ids s) (id : Nat) :
    (s.cache id).All s.Retains := by
  rcases F.recalls id with hempty | ⟨world, R⟩
  · rw [hempty]
    exact .empty
  · rw [R.cache_eq]
    exact all_replay s id world _

theorem Sound.read_of_retains (H : Sound src tops s) (hr : s.Retains r) :
    src.read r.header = .ok (some r) := by
  obtain ⟨c, hr⟩ := hr
  cases hc : s.group? c with
  | none => rw [records, hc] at hr; cases hr
  | some g =>
    rw [records, hc] at hr
    exact (H.tidy hc).read_eq hr

theorem records_of_load {deep : Bool} {rs : List Record} (h : load id deep s = .ok rs t) :
    rs = t.records id := by
  cases deep with
  | false =>
    have hstep : load id false s = (loadOne id >>= fun _ => return (← get).records id) s := rfl
    rw [hstep] at h
    obtain ⟨_, t', -, hpure⟩ := bind_eq_ok_iff.mp h
    cases hpure
    rfl
  | true => exact (load_deep_eq_ok_iff.mp h).2.symm

end Session

/-! ## What is kept -/

namespace Plugin

open Session (Step after Faithful Indexed)

variable {image : Image} {options : Options} {length? : Option Nat} {plugin : Plugin}
  {s₀ s t : Session} {r : Record}

/-- The records that an open plugin has got from its file: the root record, those that nodes hold,
that blocks remember and that are indexed, and those in flat tables. -/
inductive Has (p : Plugin) (s : Session) : Record → Prop
  | root : Has p s p.root
  | node {c : Nat} {r : Record} (h : r ∈ s.records c) : Has p s r
  | cell {block : Nat} {q : GridPosition} {r : Record} (h : s.cellAt block q = some r) : Has p s r
  | land {block : Nat} {q : GridPosition} {r : Record} (h : s.landAt block q = some r) : Has p s r
  | form {form : FormId} {r : Record} (h : s.index.form? form = some r) : Has p s r
  | editorId {name : String} {r : Record} (h : s.index.editorId? name = some r) : Has p s r
  | listed {tables : FlatTables} {tag : Tag} {r : Record} (hflat : p.flat = some tables)
      (h : r ∈ tables.records tag) : Has p s r
  | found {tables : FlatTables} {q : Query} {r : Record} (hflat : p.flat = some tables)
      (h : queryFlat tables q = some r) : Has p s r

/-- The records that an operation gives. -/
def gives (p : Plugin) : Operation → Step (List Record)
  | .load id deep => Session.load id deep
  | .loadAll => do
    p.loadAll
    return []
  | .records tag => p.records tag
  | .query q => do return (← p.query q).toList
  | .worldChildren world => do
    let _ ← p.worldChildren world
    return []

theorem has_of_records {tag : Tag} {rs : List Record} (h : plugin.records tag s = .ok rs t)
    (hr : r ∈ rs) : plugin.Has t r := by
  cases hflat : plugin.flat with
  | some tables =>
    rw [records, hflat] at h
    cases h
    exact .listed hflat hr
  | none =>
    rw [records, hflat] at h
    obtain ⟨_, _, hget, h⟩ := Session.bind_eq_ok_iff.mp h
    cases hget
    cases htop : plugin.topGroup? s tag with
    | none =>
      rw [htop] at h
      cases h
      cases hr
    | some id =>
      rw [htop] at h
      obtain ⟨_, t', hload, hpure⟩ := Session.bind_eq_ok_iff.mp h
      cases hpure
      cases Session.records_of_load hload
      exact .node (List.mem_of_mem_filter hr)

theorem has_of_atPosition {find : Session → Nat → GridPosition → Option Record} {q : GridPosition}
    (hfind : ∀ t block r, find t block q = some r → plugin.Has t r)
    (h : plugin.atPosition find q s = .ok (some r) t) : plugin.Has t r := by
  rw [atPosition_eq] at h
  obtain ⟨blocks, t', -, h⟩ := Session.bind_eq_ok_iff.mp h
  obtain ⟨_, t'', hget, hpure⟩ := Session.bind_eq_ok_iff.mp h
  cases hget
  have hpure : EStateM.Result.ok (blocks.findSome? (find t' · q)) t' = .ok (some r) t := hpure
  obtain ⟨hsome, rfl⟩ := EStateM.Result.ok.inj hpure
  obtain ⟨block, -, hblock⟩ := List.exists_of_findSome?_eq_some hsome
  exact hfind t' block r hblock

theorem has_of_queryGroups {q : Query} (h : plugin.queryGroups q s = .ok (some r) t) :
    plugin.Has t r := by
  cases q with
  | editorId name =>
    obtain ⟨_, _, hget, hpure⟩ := Session.bind_eq_ok_iff.mp h
    cases hget
    have hpure : EStateM.Result.ok (s.index.editorId? name) s = .ok (some r) t := hpure
    obtain ⟨hname, rfl⟩ := EStateM.Result.ok.inj hpure
    exact .editorId hname
  | cellName name =>
    let pick (u : Session) : Step (Option Record) :=
      return (u.index.editorId? name).filter (·.tag = .CELL)
    have hend {u : Session} (hlast : (get >>= pick : Step (Option Record)) u = .ok (some r) t) :
        plugin.Has t r := by
      obtain ⟨_, _, hget, hpure⟩ := Session.bind_eq_ok_iff.mp hlast
      cases hget
      have hpure : EStateM.Result.ok ((u.index.editorId? name).filter (·.tag = .CELL)) u =
        .ok (some r) t := hpure
      obtain ⟨hname, rfl⟩ := EStateM.Result.ok.inj hpure
      exact .editorId (Option.filter_eq_some_iff.mp hname).1
    obtain ⟨_, _, hget, h⟩ := Session.bind_eq_ok_iff.mp h
    cases hget
    cases htop : plugin.topGroup? s .CELL with
    | none =>
      rw [htop] at h
      exact hend h
    | some cells =>
      rw [htop] at h
      obtain ⟨_, u, -, hlast⟩ := Session.bind_eq_ok_iff.mp h
      exact hend hlast
  | cell position => exact has_of_atPosition (fun _ _ _ hcell => .cell hcell) h
  | land position => exact has_of_atPosition (fun _ _ _ hland => .land hland) h

/-- What an operation gives is kept. -/
theorem has_of_gives {op : Operation} {rs : List Record} (h : plugin.gives op s = .ok rs t)
    (hr : r ∈ rs) : plugin.Has t r := by
  cases op with
  | load id deep =>
    cases Session.records_of_load h
    exact .node hr
  | loadAll =>
    obtain ⟨_, _, -, hpure⟩ := Session.bind_eq_ok_iff.mp h
    cases hpure
    cases hr
  | records tag => exact has_of_records h hr
  | query q =>
    obtain ⟨r?, _, hquery, hpure⟩ := Session.bind_eq_ok_iff.mp h
    cases hpure
    obtain rfl : r? = some r := Option.mem_toList.mp hr
    cases hflat : plugin.flat with
    | some tables =>
      rw [query, hflat] at hquery
      have hpure : EStateM.Result.ok (queryFlat tables q) s = .ok (some r) t := hquery
      exact .found hflat (EStateM.Result.ok.inj hpure).1
    | none =>
      rw [query, hflat] at hquery
      exact has_of_queryGroups hquery
  | worldChildren world =>
    obtain ⟨_, _, -, hpure⟩ := Session.bind_eq_ok_iff.mp h
    cases hpure
    cases hr

/-- An operation leaves the same session, whether or not one looks at what it gives. -/
theorem perform_eq (p : Plugin) (op : Operation) :
    p.perform op = (do let _ ← p.gives op : Step Unit) := by
  cases op <;> simp [perform, gives]

theorem Reaches.gives {op : Operation} {rs : List Record} (hreach : plugin.Reaches s₀ s)
    (h : plugin.gives op s = .ok rs t) : plugin.Reaches s₀ t := by
  have hafter : after (plugin.perform op) s = t := by
    rw [perform_eq, Session.after_bind_of_ok h]
    rfl
  exact hafter ▸ hreach.step op

/-- What a reference leads to is kept. -/
theorem has_of_resolve? {shape : Option Shape} {reference : FormRef}
    (h : plugin.resolve? s shape reference = some r) : plugin.Has s r := by
  have htarget := (Option.filter_eq_some_iff.mp h).1
  cases reference with
  | id form =>
    rw [target?] at htarget
    split at htarget
    · cases htarget
    · exact .form htarget
  | editorId name =>
    cases hflat : plugin.flat with
    | some tables =>
      rw [target?, hflat] at htarget
      exact .found (q := .editorId name) hflat htarget
    | none =>
      rw [target?, hflat] at htarget
      exact .editorId htarget

/-! ## Where it comes from -/

theorem retains_of_indexed (H : Indexed s) :
    (∀ form r, s.index.form? form = some r → s.Retains r) ∧
      ∀ name r, s.index.editorId? name = some r → s.Retains r := by
  have hmem {r : Record} (h : ∃ c g, s.group? c = some g ∧ r ∈ g.records.toList) :
      s.Retains r := by
    obtain ⟨c, g, hg, hr⟩ := h
    refine ⟨c, ?_⟩
    rw [Session.records, hg]
    exact hr
  exact ⟨fun form r hr => hmem (H.byForm _ r hr), fun name r hr => hmem (H.byEditorId _ r hr)⟩

/-- In a file with groups, all that is kept besides the root record is held by nodes. -/
theorem retains_of_has (hopen : open? image options length? = .ok (plugin, s₀))
    (hgroups : s₀.context.schema.hasGroups) (hreach : plugin.Reaches s₀ s)
    (h : plugin.Has s r) : r = plugin.root ∨ s.Retains r := by
  obtain ⟨hflat, -, -, H₀⟩ := rooted_tops_of_open? hopen hgroups
  have F := faithful_of_reaches hopen hgroups hreach
  have hindexed₀ : Indexed s₀ :=
    of_open?_of_hasGroups hopen hgroups (.of_index_eq_empty rfl)
      (of_registerTop .place fun R hid _ => .commit R hid)
  obtain ⟨-, hindexed⟩ := hreach.rooted_and H₀ hindexed₀ (fun R hid _ => .commit R hid) .alike
  obtain ⟨hform, hname⟩ := retains_of_indexed hindexed
  have hcache {block : Nat} {q : GridPosition} {f : CellCache → GridPosition → Option Record}
      (hat : (s.group? block).bind (f ·.cache q) = some r) : f (s.cache block) q = some r := by
    rw [Session.cache]
    cases hid : s.group? block with
    | none => rw [hid] at hat; cases hat
    | some g => rwa [hid] at hat
  cases h with
  | root => exact .inl rfl
  | node h => exact .inr ⟨_, h⟩
  | @cell block q _ h => exact .inr ((F.all_cache block).cells _ _ (hcache h))
  | @land block q _ h => exact .inr ((F.all_cache block).lands _ _ (hcache h))
  | form h => exact .inr (hform _ _ h)
  | editorId h => exact .inr (hname _ _ h)
  | listed hsome _ | found hsome _ => cases hflat.symm.trans hsome

theorem read_root_of_open? (hopen : open? image options length? = .ok (plugin, s₀)) :
    ∃ context, options.readRecord image context plugin.root.header = .ok (some plugin.root) := by
  obtain ⟨-, hroot⟩ := readRoot_of_open? hopen
  obtain ⟨localized, -, hread, -⟩ := readRoot_cases hroot
  exact ⟨_, hread⟩

/-- A file without groups keeps its records in tables and in the index, and has no nodes. -/
theorem exists_records_of_flat (hopen : open? image options length? = .ok (plugin, s₀))
    (hflat : ¬s₀.context.schema.hasGroups) :
    ∃ rs, (∀ r ∈ rs, Source.read ⟨image, s₀.context, options⟩ r.header = .ok (some r)) ∧
      plugin.flat = some (.ofRecords rs) ∧ s₀.groups = #[] ∧
      s₀.index = rs.foldl LoadedIndex.insert {} := by
  obtain ⟨hdetect, hroot⟩ := readRoot_of_open? hopen
  rw [Schema.eq_tes3_of_not_hasGroups hflat] at hdetect hroot
  have hedition := checkEdition_of_open? hopen hdetect
  rw [open?_of_flat hdetect hedition hroot] at hopen
  cases hrecords : flatRecords
      { image, length := some (length?.getD image.size), context := s₀.context, options }
      (length?.getD image.size) plugin.root.header.stop with
  | error e => rw [hrecords] at hopen; cases hopen
  | ok rs =>
    rw [hrecords] at hopen
    obtain ⟨hplugin, hsession⟩ := Prod.mk.inj (Except.ok.inj hopen)
    refine ⟨rs, fun r hr => ?_, congrArg Plugin.flat hplugin.symm,
      congrArg Session.groups hsession.symm, congrArg Session.index hsession.symm⟩
    obtain ⟨cs, -, hreads, rfl⟩ := exists_trail_of_flatRecords hrecords
    obtain ⟨k, hk, hrecord⟩ := List.mem_filterMap.mp hr
    obtain ⟨x, hx⟩ := hreads k hk
    cases (Source.record?_of_read hx).symm.trans hrecord
    rw [Source.header_of_record? hrecord]
    exact hx

/-- Without nodes, operations leave the index as it is. -/
theorem stable_index (index : LoadedIndex) :
    Session.Stable fun s => s.groups = #[] ∧ s.index = index where
  loadOne id s hs := by
    have hnone : s.group? id = none := by simp [Session.group?, hs.1]
    have heq : Session.loadOne id s = .ok () s := by simp only [Session.loadOne_eq, hnone]
    rwa [Session.after_of_ok heq]
  alike A hs := ⟨Session.stable_empty.alike A hs.1, A.index_eq.trans hs.2⟩

/-- In a file without groups, all that is kept besides the root record comes from the list of its
records. -/
theorem mem_of_has_flat {rs : List Record} (htables : plugin.flat = some (.ofRecords rs))
    (hgroups : s.groups = #[]) (hindex : s.index = rs.foldl LoadedIndex.insert {})
    (h : plugin.Has s r) : r = plugin.root ∨ r ∈ rs := by
  have hnone (c : Nat) : s.group? c = none := by simp [Session.group?, hgroups]
  have hall : s.index.All (· ∈ rs) := by
    rw [hindex]
    exact LoadedIndex.All.empty.foldl fun r hr => hr
  cases h with
  | root => exact .inl rfl
  | @node c _ h => rw [Session.records, hnone] at h; cases h
  | @cell block q _ h => rw [Session.cellAt, hnone] at h; cases h
  | @land block q _ h => rw [Session.landAt, hnone] at h; cases h
  | form h => exact .inr (hall.byForm _ _ h)
  | editorId h => exact .inr (hall.byEditorId _ _ h)
  | listed hsome h =>
    cases htables.symm.trans hsome
    rw [FlatTables.records_ofRecords] at h
    exact .inr (List.mem_of_mem_filter h)
  | found hsome h =>
    cases htables.symm.trans hsome
    rw [FlatTables.queryFlat_ofRecords] at h
    exact .inr (List.mem_of_mem_filter (List.mem_of_getLast? h))

/-- **All that an open plugin has got is what its file says.** The root record is read before the
edition is known, so it may be read in another context than the others. -/
theorem read_of_has (hopen : open? image options length? = .ok (plugin, s₀))
    (hreach : plugin.Reaches s₀ s) (h : plugin.Has s r) :
    ∃ context, options.readRecord image context r.header = .ok (some r) := by
  by_cases hgroups : s₀.context.schema.hasGroups
  · rcases retains_of_has hopen hgroups hreach h with rfl | hretains
    · exact read_root_of_open? hopen
    · obtain ⟨-, hsource, -⟩ := rooted_tops_of_open? hopen hgroups
      have hread := (faithful_of_reaches hopen hgroups hreach).toSound.read_of_retains hretains
      rw [hsource] at hread
      exact ⟨s₀.context, hread⟩
  · obtain ⟨rs, hrs, htables, hgroups₀, hindex₀⟩ := exists_records_of_flat hopen hgroups
    obtain ⟨hnodes, hindex⟩ := hreach.of_stable (stable_index s₀.index) ⟨hgroups₀, rfl⟩
    rcases mem_of_has_flat htables hnodes (hindex.trans hindex₀) h with rfl | hmem
    · exact read_root_of_open? hopen
    · exact ⟨s₀.context, hrs r hmem⟩

end Plugin

end GamePlugin
