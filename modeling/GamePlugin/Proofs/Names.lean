import GamePlugin.Proofs.Answers

/-!
# Finding cells by name

Looking for a cell by its name loads the cells at the top of the file with all that is below them,
and then asks the index of loaded records, where the record that was loaded last has the name. The
index knows all records that have been loaded, so a name may lead to a cell of a world as well, and
the answer may depend on what was loaded before.

What is found is always a cell with the name. If all records with the name lie in one group below
the cells at the top, it is the last of them, whatever was done before
(`Session.Sound.editorId?_of_houses`).

## Main definitions

* `Record.hasName` — the record has a name, up to the case of ASCII letters.
* `Source.Houses` — all records with a name lie in one group.
* `Session.Catalogued` — what the index says about a name.
-/

namespace GamePlugin

/-- The record has a name as its editor id, up to the case of ASCII letters. -/
def Record.hasName (r : Record) (name : String) : Bool :=
  r.editorId.any fun id => LoadedIndex.foldName id = LoadedIndex.foldName name

/-- The record is a cell that is not part of a world. -/
def Record.isInteriorCell (r : Record) : Bool := r.cell?.any (·.isInterior)

@[simp] theorem Record.hasName_under (r : Record) (parent : Option Nat) (name : String) :
    (r.under parent).hasName name = r.hasName name := rfl

/-- Label of the group at the top that a path starts from. -/
def GroupPath.root : GroupPath → UInt32
  | .top label => label
  | .inside outer _ _ => outer.root

/-- All records of the file with a name lie directly in the group at a path. -/
def Source.Houses (src : Source) (tops : List GroupHeader) (name : String) (home : GroupPath) :
    Prop :=
  ∀ path, ∀ r ∈ src.recordsAt tops path, r.hasName name → path = home

theorem Source.piecesAt_eq_nil_of_root {src : Source} {tops : List GroupHeader} {path : GroupPath}
    (h : src.piecesAt tops (.top path.root) = []) : src.piecesAt tops path = [] := by
  induction path with
  | top label => exact h
  | inside outer label kind ih => exact piecesAt_inside_eq_nil (ih h) label kind

/-! ## The index -/

namespace LoadedIndex

theorem editorId?_insert (x : LoadedIndex) (r : Record) (name : String) :
    (x.insert r).editorId? name = if r.hasName name then some r else x.editorId? name := by
  simp only [editorId?, insert, Record.hasName]
  split
  case h_1 hid => simp [hid]
  case h_2 id hid => simp [hid, Std.TreeMap.getElem?_insert]

/-- The record that is entered last has the name. -/
theorem editorId?_foldl (rs : List Record) (x : LoadedIndex) (name : String) :
    (rs.foldl insert x).editorId? name =
      ((rs.filter (·.hasName name)).getLast?).or (x.editorId? name) :=
  find_foldl (·.editorId? name) (fun x r => editorId?_insert x r name) rs x

end LoadedIndex

namespace Session

variable {src : Source} {tops : List GroupHeader} {ids : List Nat} {s s' : Session} {id : Nat}
  {g : GroupNode} {path home : GroupPath} {name : String}

/-- To keep what was found in a node gives it the records, and no other node. -/
theorem Sound.records_commit (H : Sound src tops s) (hid : s.group? id = some g) (processed : Nat)
    (found : Found) (c : Nat) :
    (s.commit id processed found).records c =
      if id = c then s.records c ++ found.records.toList else s.records c := by
  obtain ⟨-, G⟩ := H.arena.commit hid processed found
  rw [G.records_eq, records, records, group?_recorded]
  by_cases hc : id = c
  · subst hc
    simp [hid, GroupNode.recorded]
  · rw [if_neg hc, if_neg hc]

theorem Alike.records_eq (A : Alike s s') (c : Nat) : s'.records c = s.records c := by
  rw [records, records, A.map_eq fun _ _ => rfl]

/-- To keep what was found enters its records into the index, one after another. -/
theorem Sound.index_commit (H : Sound src tops s) (hid : s.group? id = some g) (processed : Nat)
    (found : Found) :
    (s.commit id processed found).index =
      found.records.toList.foldl LoadedIndex.insert s.index := by
  obtain ⟨-, G⟩ := H.arena.commit hid processed found
  rw [G.others, Array.foldl_toList]
  rfl

theorem Sound.editorId?_commit (H : Sound src tops s) (hid : s.group? id = some g)
    (processed : Nat) (found : Found) (name : String) :
    (s.commit id processed found).index.editorId? name =
      ((found.records.toList.filter (·.hasName name)).getLast?).or (s.index.editorId? name) := by
  rw [H.index_commit hid, LoadedIndex.editorId?_foldl]

/-- What the index says about a name: a record with the name that a node holds, and the last one in
a node that holds all of them. -/
structure Catalogued (s : Session) (name : String) : Prop where
  sound : ∀ r, s.index.editorId? name = some r → r.hasName name ∧ ∃ c, r ∈ s.records c
  last : ∀ id, (∀ c, c ≠ id → ∀ r ∈ s.records c, ¬r.hasName name) →
    s.index.editorId? name = ((s.records id).filter (·.hasName name)).getLast?

theorem Catalogued.congr (C : Catalogued s name) (hindex : s'.index = s.index)
    (hrecords : ∀ c, s'.records c = s.records c) : Catalogued s' name where
  sound := by
    simp only [hindex, hrecords]
    exact C.sound
  last := by
    simp only [hindex, hrecords]
    exact C.last

theorem catalogued_of_groups_eq_empty (hgroups : s.groups = #[]) (hindex : s.index = {})
    (name : String) : Catalogued s name where
  sound r hr := by simp [hindex, LoadedIndex.editorId?] at hr
  last id _ := by simp [hindex, LoadedIndex.editorId?, records, group?, hgroups]

theorem Catalogued.place {h : GroupHeader} (P : Place s none h s') (C : Catalogued s name) :
    Catalogued s' name := by
  have G := P.grows fun p hp => by cases hp
  exact C.congr (by rw [G.others]) G.records_eq

theorem Catalogued.commit (R : Rooted src tops ids s) (hid : s.group? id = some g)
    (C : Catalogued s name) :
    Catalogued (s.commit id g.headers.size (foundUnder src id g.waiting)) name := by
  have hrecords := R.toSound.records_commit hid g.headers.size (foundUnder src id g.waiting)
  have hentry := R.toSound.editorId?_commit hid g.headers.size (foundUnder src id g.waiting) name
  generalize s.commit id g.headers.size (foundUnder src id g.waiting) = t at hrecords hentry ⊢
  generalize (foundUnder src id g.waiting).records.toList = new at hrecords hentry
  constructor
  · intro r hr
    rw [hentry, Option.or_eq_some_iff] at hr
    rcases hr with hr | ⟨-, hr⟩
    · obtain ⟨hmem, hname⟩ := List.mem_filter.mp (List.mem_of_getLast? hr)
      refine ⟨hname, id, ?_⟩
      rw [hrecords, if_pos rfl]
      exact List.mem_append_right _ hmem
    · obtain ⟨hname, c, hc⟩ := C.sound r hr
      refine ⟨hname, c, ?_⟩
      rw [hrecords]
      split
      · exact List.mem_append_left _ hc
      · exact hc
  · intro c hothers
    have hbefore : ∀ d, d ≠ c → ∀ r ∈ s.records d, ¬r.hasName name := by
      intro d hd r hr
      refine hothers d hd r ?_
      rw [hrecords]
      split
      · exact List.mem_append_left _ hr
      · exact hr
    rw [hentry, C.last c hbefore, hrecords]
    by_cases hc : id = c
    · rw [if_pos hc, List.filter_append, List.getLast?_append]
    · -- the node has no records with the name, so neither has what was found for it
      have hnew : new.filter (·.hasName name) = [] := by
        refine List.filter_eq_nil_iff.mpr fun r hr => hothers id hc r ?_
        rw [hrecords, if_pos rfl]
        exact List.mem_append_right _ hr
      rw [if_neg hc, hnew]
      rfl

theorem Catalogued.alike (A : Alike s s') (C : Catalogued s name) : Catalogued s' name :=
  C.congr A.index_eq A.records_eq

/-! ## Below a finished node -/

/-- Below a finished node at the top there is a finished node for all that the file has there. -/
theorem Sound.exists_fixed (H : Sound src tops s) (htop : s.At (.top path.root) id)
    (F : Fixed s id) (hne : src.piecesAt tops path ≠ []) : ∃ c, s.At path c ∧ Fixed s c := by
  induction path with
  | top label => exact ⟨id, htop, F⟩
  | inside outer label kind ih =>
    have hne' : src.piecesAt tops outer ≠ [] := fun hnil =>
      hne (Source.piecesAt_inside_eq_nil hnil label kind)
    obtain ⟨c, hat, Fc⟩ := ih htop hne'
    rcases H.childrenOfKind_cases hat Fc label kind with ⟨-, hnil⟩ | ⟨d, -, hatd, Fd⟩
    · exact absurd hnil hne
    · exact ⟨d, hatd, Fd⟩

/-- A record that a node holds is one that the file has at the path of the node. -/
theorem Sound.exists_mem_recordsAt (H : Sound src tops s) {r : Record} (hr : r ∈ s.records id) :
    ∃ path, s.At path id ∧ r.under none ∈ src.recordsAt tops path := by
  cases hid : s.group? id with
  | none =>
    rw [records, hid] at hr
    cases hr
  | some g =>
    obtain ⟨path, hat⟩ := H.exists_at hid
    exact ⟨path, hat, H.mem_recordsAt hat hr⟩

/-- **Where all records with a name lie in one group, and this group is finished if the file has it,
the index gives the last of them.** -/
theorem Sound.editorId?_of_houses (H : Sound src tops s) (C : Catalogued s name)
    (hhome : src.Houses tops name home)
    (hfixed : src.piecesAt tops home ≠ [] → ∃ c, s.At home c ∧ Fixed s c) :
    (s.index.editorId? name).map (·.under none) =
      ((src.recordsAt tops home).filter (·.hasName name)).getLast? := by
  have hnode (c : Nat) (r : Record) (hr : r ∈ s.records c) (hname : r.hasName name) :
      s.At home c := by
    obtain ⟨path, hat, hmem⟩ := H.exists_mem_recordsAt hr
    rw [← hhome path (r.under none) hmem hname]
    exact hat
  by_cases hne : src.piecesAt tops home = []
  · -- the file has no record with the name, so no node has one, and least of all one that is not there
    have hrecords : src.recordsAt tops home = [] := by rw [Source.recordsAt, hne]; rfl
    rw [C.last s.groups.size fun c _ r hr hname => ?_, hrecords]
    · simp [records, group?]
    · have hmem := H.mem_recordsAt (hnode c r hr hname) hr
      rw [hrecords] at hmem
      cases hmem
  · obtain ⟨c, hat, F⟩ := hfixed hne
    rw [C.last c fun d hd r hr hname => hd (H.at_unique (hnode d r hr hname) hat),
      H.records_of_fixed hat F, ← List.getLast?_map,
      Source.map_filter_under fun r => r.hasName_under _ name]

/-! ## Where all nodes are loaded -/

theorem Sound.fixed_of_loaded (H : Sound src tops s)
    (hall : ∀ c g, s.group? c = some g → g.isLoaded) (hid : s.group? id = some g) :
    Fixed s id where
  settled := H.settled_of_whole (fun c g hg => .inr (hall c g hg)) hid (hall id g hid)
  complete := by
    -- children come after their holders
    induction hn : s.groups.size - id using Nat.strongRecOn generalizing id g with
    | ind n ih =>
      subst hn
      refine .intro hid (hall id g hid) fun c hc => ?_
      obtain ⟨k, hk, hp⟩ := H.exists_child hid hc
      have hlt := H.arena.parent_lt hk hp
      have hsize := lt_of_group? hk
      exact ih _ (by omega) hk rfl

/-- Where all nodes are loaded, it can be seen from them whether all records with a name lie in one
group. -/
theorem Sound.houses_of_loaded (H : Sound src tops s)
    (hall : ∀ c g, s.group? c = some g → g.isLoaded)
    (hnamed : ∀ c, ∀ r ∈ s.records c, r.hasName name → s.At home c) :
    src.Houses tops name home := by
  intro path r hr hname
  have hne : src.piecesAt tops path ≠ [] := by
    intro hnil
    rw [Source.recordsAt, hnil] at hr
    cases hr
  have htop : src.piecesAt tops (.top path.root) ≠ [] := fun hnil =>
    hne (Source.piecesAt_eq_nil_of_root hnil)
  obtain ⟨h, hh⟩ := List.exists_mem_of_ne_nil _ htop
  obtain ⟨hmem, hlabel⟩ := List.mem_filter.mp hh
  obtain ⟨c, g, hc, hp, hkey⟩ := H.arena.covers (show h ∈ s.pieces src tops none from hmem)
  have hroot : g.label = path.root :=
    ((GroupNode.key_eq_iff_of_top hp h).mp hkey).trans (of_decide_eq_true hlabel)
  obtain ⟨d, hat, F⟩ := H.exists_fixed ⟨g, hc, hp, hroot⟩ (H.fixed_of_loaded hall hc) hne
  have hin : r.under (some d) ∈ s.records d := by
    rw [H.records_of_fixed hat F]
    exact List.mem_map_of_mem hr
  exact hat.path_unique (hnamed d _ hin hname)

/-! ## Looking for a cell by its name -/

/-- Looking for a name loads the cells at the top, and fails only if something there cannot be
read. -/
theorem Faithful.leads_cellName {plugin : Plugin} (F : Faithful src tops plugin.topGroups s)
    (hflat : plugin.flat = none)
    (hplace : ∀ h ∈ tops, src.context.schema.groupHeaderSize ≤ h.position) (name : String) :
    Leads (plugin.query (.cellName name)) s
      (fun r? t => Faithful src tops plugin.topGroups t ∧
        (∀ h ∈ src.piecesAt tops (.top Tag.CELL.code), src.Deep h) ∧
        (∀ path, path.root = Tag.CELL.code → src.piecesAt tops path ≠ [] →
          ∃ c, t.At path c ∧ Fixed t c) ∧
        r? = (t.index.editorId? name).filter (·.tag = .CELL))
      (fun _ => ∃ h ∈ src.piecesAt tops (.top Tag.CELL.code), ¬src.Deep h) := by
  rw [Plugin.query, hflat]
  refine Leads.get_bind ?_
  rcases F.toRooted.topGroup?_cases .CELL with ⟨hnone, hnil⟩ | ⟨cells, hsome, hat, hheld⟩
  · rw [hnone]
    refine Leads.get_bind (.pure ⟨F, by simp [hnil], fun path hroot hne => ?_, rfl⟩)
    rw [← hroot] at hnil
    exact absurd (Source.piecesAt_eq_nil_of_root hnil) hne
  · rw [hsome]
    refine ((F.leads_load_deep hat hheld fun h hh => hplace h (List.mem_of_mem_filter hh)).imp
      (fun h => h) fun h => h.2.2).bind fun {_ t} h => Leads.get_bind (.pure ?_)
    obtain ⟨Ft, L, hfixed, -⟩ := h
    have hat' := L.stays.at hat
    refine ⟨Ft, Ft.toSound.deep_piecesAt hat' hfixed, fun path hroot hne => ?_, rfl⟩
    rw [← hroot] at hat'
    exact Ft.toSound.exists_fixed hat' hfixed hne

end Session

/-! ## Open files -/

namespace Plugin

open Session (after Catalogued)

variable {image : Image} {options : Options} {length? : Option Nat} {plugin : Plugin}
  {s₀ s s' : Session} {name : String} {r? : Option Record}

theorem catalogued_of_reaches (hopen : open? image options length? = .ok (plugin, s₀))
    (hgroups : s₀.context.schema.hasGroups) (hreach : plugin.Reaches s₀ s) (name : String) :
    Catalogued s name := by
  obtain ⟨-, -, -, H₀⟩ := rooted_tops_of_open? hopen hgroups
  have hstart : Catalogued s₀ name :=
    of_open?_of_hasGroups hopen hgroups (Session.catalogued_of_groups_eq_empty rfl rfl name)
      (of_registerTop Catalogued.place fun R hid _ => Catalogued.commit R hid)
  exact (hreach.rooted_and H₀ hstart (fun R hid _ => Catalogued.commit R hid) Catalogued.alike).2

/-- What looking for a name gives, if all records with the name lie in one group below the cells at
the top. -/
theorem cell_of_name (hopen : open? image options length? = .ok (plugin, s₀))
    (hgroups : s₀.context.schema.hasGroups) (hreach : plugin.Reaches s₀ s)
    (hquery : plugin.query (.cellName name) s = .ok r? s') {home : GroupPath}
    (hroot : home.root = Tag.CELL.code)
    (hhome : s₀.source.Houses (plugin.tops s₀) name home) :
    r?.map (·.under none) = (((s₀.source.recordsAt (plugin.tops s₀) home).filter
      (·.hasName name)).getLast?).filter (·.tag = .CELL) := by
  obtain ⟨hflat, -⟩ := rooted_tops_of_open? hopen hgroups
  have F := faithful_of_reaches hopen hgroups hreach
  obtain ⟨F', -, hfixed, rfl⟩ :=
    (F.leads_cellName hflat (fun h => position_of_mem_tops) name).ok hquery
  have C := catalogued_of_reaches hopen hgroups (hreach.query hquery) name
  rw [← F'.toSound.editorId?_of_houses C hhome (hfixed home hroot)]
  cases s'.index.editorId? name with
  | none => rfl
  | some r =>
    have htag : (r.under none).tag = r.tag := rfl
    by_cases hcell : r.tag = .CELL <;> simp [Option.filter, htag, hcell]

/-- A file with a cell that is part of no world, and a world with one cell. The first one is called
`Inn` and the other one `Anvil`. -/
def namedCells : Image :=
  .ofBytes (Draft.encodeAll .tes4
    [.record .TES4 0 ⟨0⟩ [72, 69, 68, 82, 12, 0, 0, 0, 128, 63, 4, 0, 0, 0, 0, 8, 0, 0],
     .group Tag.CELL.code .top
      [.group 0 .interiorCellBlock
        [.group 0 .interiorCellSubBlock
          [.record .CELL 0 ⟨5⟩
            [69, 68, 73, 68, 4, 0, 73, 110, 110, 0, 68, 65, 84, 65, 1, 0, 1]]]],
     .group Tag.WRLD.code .top
      [.record .WRLD 0 ⟨60⟩ [],
       .group 60 .worldChildren
        [.group (GridPosition.pack 0 0) .exteriorCellBlock
          [.group (GridPosition.pack 0 0) .exteriorCellSubBlock
            [.record .CELL 0 ⟨7⟩
              [69, 68, 73, 68, 6, 0, 65, 110, 118, 105, 108, 0,
               88, 67, 76, 67, 8, 0, 0, 0, 0, 0, 0, 0, 0, 0]]]]]])

/-- Path of the group of the first one. -/
def namedCellsHome : GroupPath :=
  .inside (.inside (.top Tag.CELL.code) 0 .interiorCellBlock) 0 .interiorCellSubBlock

/-- **Finding a cell by its name.** What is found is a cell of the file with the name. It is not part
of a world if no cell with the name is. Whether anything fails does not depend on what was done
before. If all records with the name lie in one group below the cells at the top, neither does the
answer: it is the last of them, if that is a cell. -/
theorem cell_name_query (hopen : open? image options length? = .ok (plugin, s₀))
    (hgroups : s₀.context.schema.hasGroups) (hreach : plugin.Reaches s₀ s)
    (hquery : plugin.query (.cellName name) s = .ok r? s') :
    (∀ r, r? = some r → r.tag = .CELL ∧ r.hasName name ∧
      (∃ path, r.under none ∈ s₀.source.recordsAt (plugin.tops s₀) path) ∧
      ((∀ path, ∀ c ∈ s₀.source.recordsAt (plugin.tops s₀) path,
        c.tag = .CELL → c.hasName name → c.isInteriorCell) → r.isInteriorCell)) ∧
    ∀ t, plugin.Reaches s₀ t → ∃ r?' t', plugin.query (.cellName name) t = .ok r?' t' ∧
      ∀ home, home.root = Tag.CELL.code → s₀.source.Houses (plugin.tops s₀) name home →
        r?'.map (·.under none) = r?.map (·.under none) ∧
        r?.map (·.under none) = (((s₀.source.recordsAt (plugin.tops s₀) home).filter
          (·.hasName name)).getLast?).filter (·.tag = .CELL) := by
  obtain ⟨hflat, -⟩ := rooted_tops_of_open? hopen hgroups
  have F := faithful_of_reaches hopen hgroups hreach
  have hplace (h : GroupHeader) : h ∈ plugin.tops s₀ →
      s₀.source.context.schema.groupHeaderSize ≤ h.position := position_of_mem_tops
  obtain ⟨F', hdeep, -, hr?⟩ := (F.leads_cellName hflat hplace name).ok hquery
  constructor
  · intro r hr
    rw [hr?, Option.filter_eq_some_iff] at hr
    obtain ⟨hentry, htag⟩ := hr
    have htag := of_decide_eq_true htag
    obtain ⟨hname, c, hc⟩ :=
      (catalogued_of_reaches hopen hgroups (hreach.query hquery) name).sound r hentry
    obtain ⟨path, -, hmem⟩ := F'.toSound.exists_mem_recordsAt hc
    exact ⟨htag, hname, ⟨path, hmem⟩, fun hinterior =>
      hinterior path (r.under none) hmem htag hname⟩
  · intro t hreach'
    have Ft := faithful_of_reaches hopen hgroups hreach'
    cases hagain : plugin.query (.cellName name) t with
    | error e t' =>
      -- what could be read from one session can be read from the other
      obtain ⟨h, hh, hnot⟩ := (Ft.leads_cellName hflat hplace name).error hagain
      exact absurd (hdeep h hh) hnot
    | ok r?' t' =>
      refine ⟨r?', t', rfl, fun home hroot hhome => ?_⟩
      have hvalue := cell_of_name hopen hgroups hreach hquery hroot hhome
      have hvalue' := cell_of_name hopen hgroups hreach' hagain hroot hhome
      exact ⟨hvalue'.trans hvalue.symm, hvalue⟩

/-- `Inn` is found right after opening and after the world's cell was found: all records with this
name lie in one group. -/
theorem cell_name_query_namedCells :
    ∃ plugin s₀ s' t t' r r', open? namedCells { edition := some .oblivion } none =
        .ok (plugin, s₀) ∧
      s₀.context.schema.hasGroups ∧ plugin.Reaches s₀ t ∧
      s₀.source.Houses (plugin.tops s₀) "inn" namedCellsHome ∧
      plugin.query (.cellName "inn") s₀ = .ok (some r) s' ∧ r.isInteriorCell ∧ r.hasName "inn" ∧
      plugin.query (.cellName "inn") t = .ok (some r') t' ∧ r'.under none = r.under none := by
  have hruns : ((open? namedCells { edition := some .oblivion } none).toOption.map fun x =>
      let s := after (x.1.perform .loadAll) x.2
      (x.2.context.schema.hasGroups, s.groups.toList.all (·.isLoaded),
        (List.range s.groups.size).all fun c => (s.records c).all fun r =>
          !r.hasName "inn" || decide (s.At namedCellsHome c),
        ((x.1.query (.cellName "inn")).run' x.2).bind (·.map (·.isInteriorCell)))) =
      some (true, true, true, some true) := by
    decide +kernel
  obtain ⟨⟨plugin, s₀⟩, hopen, hvalues⟩ := exists_eq_ok_of_map hruns
  simp only [Prod.mk.injEq] at hvalues
  obtain ⟨hgroups, hloaded, hnames, hfound⟩ := hvalues
  obtain ⟨r, hquery, hinterior⟩ := Session.exists_eq_ok_of_run' hfound
  -- where all records with the name lie is seen once everything is loaded
  have H := (faithful_of_reaches hopen hgroups (.step .refl .loadAll)).toSound
  have hhouses : s₀.source.Houses (plugin.tops s₀) "inn" namedCellsHome := by
    refine H.houses_of_loaded (fun c g hg => ?_) fun c r hr hname => ?_
    · exact List.all_eq_true.mp hloaded g (Array.mem_toList_iff.mpr (Array.mem_of_getElem? hg))
    · obtain ⟨path, hat, -⟩ := H.exists_mem_recordsAt hr
      obtain ⟨g, hg⟩ := hat.exists_group?
      have hc := List.all_eq_true.mp hnames c (List.mem_range.mpr (Session.lt_of_group? hg))
      have hplace := List.all_eq_true.mp hc r hr
      simpa [hname] using hplace
  have hreach : plugin.Reaches s₀ (after (plugin.perform (.query (.cell ⟨0, 0, 60⟩))) s₀) :=
    .step .refl _
  obtain ⟨hsound, hsame⟩ := cell_name_query hopen hgroups .refl hquery
  obtain ⟨-, hname, -⟩ := hsound r rfl
  obtain ⟨r?', t', hagain, hequal⟩ := hsame _ hreach
  obtain ⟨hmap, -⟩ := hequal namedCellsHome rfl hhouses
  obtain ⟨r', rfl, hr'⟩ := Option.map_eq_some_iff.mp hmap
  exact ⟨plugin, s₀, _, _, t', r, r', hopen, hgroups, hreach, hhouses, hquery, hinterior, hname,
    hagain, hr'⟩

/-- A cell of a world is found by its name, once it has been loaded, and not before. -/
theorem cell_name_finds_exterior :
    ∃ plugin s₀ s t u c r, open? namedCells { edition := some .oblivion } none = .ok (plugin, s₀) ∧
      plugin.query (.cellName "anvil") s₀ = .ok none s ∧
      plugin.query (.cell ⟨0, 0, 60⟩) s = .ok (some c) t ∧
      plugin.query (.cellName "anvil") t = .ok (some r) u ∧
      r.form.value = 7 ∧ r.isInteriorCell = false := by
  have hruns : ((open? namedCells { edition := some .oblivion } none).toOption.map fun x =>
      let s := after (x.1.query (.cellName "anvil")) x.2
      let t := after (x.1.query (.cell ⟨0, 0, 60⟩)) s
      (((x.1.query (.cellName "anvil")).run' x.2).map (·.isNone),
        ((x.1.query (.cell ⟨0, 0, 60⟩)).run' s).bind (·.map (·.form.value)),
        ((x.1.query (.cellName "anvil")).run' t).bind (·.map fun r =>
          (r.form.value, r.isInteriorCell)))) =
      some (some true, some 7, some (7, false)) := by
    decide +kernel
  obtain ⟨⟨plugin, s₀⟩, hopen, hvalues⟩ := exists_eq_ok_of_map hruns
  simp only [Prod.mk.injEq] at hvalues
  obtain ⟨hbefore, hcell, hafter⟩ := hvalues
  obtain ⟨c, hcell, -⟩ := Session.exists_eq_ok_of_run' hcell
  obtain ⟨r, hname, hr⟩ := Session.exists_eq_ok_of_run' hafter
  exact ⟨plugin, s₀, _, _, _, c, r, hopen, Session.eq_ok_none_of_run' hbefore, hcell, hname,
    Prod.mk.inj hr⟩

end Plugin

end GamePlugin
