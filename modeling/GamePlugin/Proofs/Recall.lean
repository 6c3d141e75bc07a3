import GamePlugin.Proofs.Paths
import GamePlugin.Proofs.Representation

/-!
# What blocks remember

A block remembers the cells of the sub-blocks that have been resolved, by their coordinates. Nothing
is remembered but what the records of these sub-blocks say, taken in the order in which they were
resolved: what a block remembers is at all times what one gets by going through them again
(`Session.replay`). A sub-block is resolved only after it is loaded with all that is above and below
it, so whatever is done later, going through it again gives the same.

## Main definitions

* `GroupPath.block` — the path of a block.
* `Session.Upholds` — what a step leaves of nodes, of settled ones all but what they remember.
* `Session.replay` — what a block remembers once sub-blocks have been resolved.
* `Session.Faithful` — a sound session, whose blocks remember what they should.
-/

namespace GamePlugin

/-- Path of the group of a world's children. -/
def GroupPath.world (world : FormId) : GroupPath :=
  .inside (.top Tag.WRLD.code) world.value .worldChildren

/-- Path of a block of a world. -/
def GroupPath.block (world : FormId) (label : UInt32) : GroupPath :=
  .inside (.world world) label .exteriorCellBlock

namespace Session

variable {src : Source} {tops : List GroupHeader} {ids : List Nat} {s t u : Session} {id : Nat}
  {g : GroupNode} {path : GroupPath} {label : UInt32} {kind : GroupKind}

/-! ## Nodes keep their places -/

/-- Nodes stay where they are. -/
def Stays (s t : Session) : Prop :=
  ∀ c g, s.group? c = some g →
    ∃ g', t.group? c = some g' ∧ g'.parent = g.parent ∧ g'.label = g.label ∧ g'.kind = g.kind

/-- Nodes stay where they are, and settled ones stay as they are, up to what they remember. -/
structure Upholds (s t : Session) : Prop where
  keeps : Keeps s t
  stays : Stays s t

theorem Stays.at (S : Stays s t) (hat : s.At path id) : t.At path id := by
  induction path generalizing id with
  | top label =>
    obtain ⟨g, hid, hp, hlabel⟩ := hat
    obtain ⟨g', hid', hp', hlabel', -⟩ := S id g hid
    exact ⟨g', hid', hp'.trans hp, hlabel'.trans hlabel⟩
  | inside outer label kind ih =>
    obtain ⟨g, p, hid, hp, hlabel, hkind, houter⟩ := hat
    obtain ⟨g', hid', hp', hlabel', hkind'⟩ := S id g hid
    exact ⟨g', p, hid', hp'.trans hp, hlabel'.trans hlabel, hkind'.trans hkind, ih houter⟩

theorem Upholds.refl (s : Session) : Upholds s s :=
  ⟨.refl s, fun _ g hg => ⟨g, hg, rfl, rfl, rfl⟩⟩

theorem Upholds.trans (U : Upholds s t) (V : Upholds t u) : Upholds s u where
  keeps := U.keeps.trans V.keeps
  stays := by
    intro c g hg
    obtain ⟨g', hg', hp, hlabel, hkind⟩ := U.stays c g hg
    obtain ⟨g'', hg'', hp', hlabel', hkind'⟩ := V.stays c g' hg'
    exact ⟨g'', hg'', hp'.trans hp, hlabel'.trans hlabel, hkind'.trans hkind⟩

theorem Alike.upholds (A : Alike s t) : Upholds s t where
  keeps := fun _ _ _ hid => A.group?_of hid
  stays := by
    intro c g hg
    obtain ⟨cache, hg'⟩ := A.group?_of hg
    exact ⟨_, hg', rfl, rfl, rfl⟩

theorem Sound.stays_commit (H : Sound src tops s) (hid : s.group? id = some g) (processed : Nat)
    (found : Found) : Stays s (s.commit id processed found) := by
  obtain ⟨-, G⟩ := H.arena.commit hid processed found
  intro c k hk
  have hrecorded := group?_recorded s id processed found c
  rw [hk] at hrecorded
  by_cases hc : id = c
  · rw [if_pos hc] at hrecorded
    obtain ⟨k', hk', hext⟩ := G.extends_of hrecorded
    exact ⟨k', hk', hext.parent, hext.label, hext.kind⟩
  · rw [if_neg hc] at hrecorded
    obtain ⟨k', hk', hext⟩ := G.extends_of hrecorded
    exact ⟨k', hk', hext.parent, hext.label, hext.kind⟩

/-- Loading does not change what is remembered. -/
theorem Sound.cache_commit (H : Sound src tops s) (hid : s.group? id = some g) (processed : Nat)
    (found : Found) (c : Nat) : (s.commit id processed found).cache c = s.cache c := by
  obtain ⟨-, G⟩ := H.arena.commit hid processed found
  rw [G.cache_eq, cache, cache, group?_recorded]
  by_cases hc : id = c <;> cases s.group? c <;> simp [hc, GroupNode.recorded]

/-- Loading does not count sub-blocks. -/
theorem Sound.subBlocksLoaded_commit (H : Sound src tops s) (hid : s.group? id = some g)
    (processed : Nat) (found : Found) :
    (s.commit id processed found).subBlocksLoaded = s.subBlocksLoaded := by
  obtain ⟨-, G⟩ := H.arena.commit hid processed found
  rw [G.others]
  rfl

/-- What loading leads to, also if it fails. -/
structure Loads (s t : Session) : Prop extends Upholds s t where
  cache_eq : ∀ c, t.cache c = s.cache c
  count_eq : t.subBlocksLoaded = s.subBlocksLoaded

theorem Loads.refl (s : Session) : Loads s s := ⟨.refl s, fun _ => rfl, rfl⟩

theorem Rooted.preserves_loads (s : Session) (id : Nat) :
    Preserves (fun t => Rooted src tops ids t ∧ Loads s t) (loadOne id) := by
  rintro t ⟨H, L⟩
  rcases H.loadOne_cases id with
    ⟨heq, -⟩ | ⟨g, hid, -, hreadable, heq⟩ | ⟨g, e, -, -, heq⟩
  · rw [after_of_ok heq]
    exact ⟨H, L⟩
  · rw [after_of_ok heq]
    have U : Upholds t _ := ⟨H.toSound.keeps_loadOne heq, H.toSound.stays_commit hid _ _⟩
    refine ⟨H.commit hid hreadable, L.toUpholds.trans U, fun c => ?_, ?_⟩
    · rw [H.toSound.cache_commit hid, L.cache_eq]
    · rw [H.toSound.subBlocksLoaded_commit hid, L.count_eq]
  · rw [after_of_error heq]
    exact ⟨H, L⟩

/-! ## Children of a kind -/

theorem Sound.mem_childrenOfKind (H : Sound src tops s) {c : Nat} :
    c ∈ s.childrenOfKind id label kind ↔
      ∃ k, s.group? c = some k ∧ k.parent = some id ∧ k.label = label ∧ k.kind = kind := by
  rw [childrenOfKind, (H.labelled id).childrenWithLabel_eq, List.mem_filter, List.mem_filter,
    H.arena.mem_children_iff]
  simp only [Option.any_eq_true, decide_eq_true_eq]
  constructor
  · rintro ⟨⟨⟨k, hk, hp⟩, l, hl, hlabel⟩, m, hm, hkind⟩
    cases hk.symm.trans hl
    cases hk.symm.trans hm
    exact ⟨k, hk, hp, hlabel, hkind⟩
  · rintro ⟨k, hk, hp, hlabel, hkind⟩
    exact ⟨⟨⟨k, hk, hp⟩, k, hk, hlabel⟩, k, hk, hkind⟩

/-- A node has one child of a label and kind at most. -/
theorem Sound.childrenOfKind_eq_singleton (H : Sound src tops s) {c : Nat}
    (hc : c ∈ s.childrenOfKind id label kind) : s.childrenOfKind id label kind = [c] := by
  have hall : ∀ d ∈ s.childrenOfKind id label kind, d = c := by
    intro d hd
    obtain ⟨k, hk, hpk, hlk, hkk⟩ := H.mem_childrenOfKind.mp hc
    obtain ⟨l, hl, hpl, hll, hkl⟩ := H.mem_childrenOfKind.mp hd
    refine H.arena.unique hl hk (hpl.trans hpk.symm) ?_
    simp [GroupNode.key, hpk, hpl, hlk, hll, hkk, hkl]
  have hnodup : (s.childrenOfKind id label kind).Nodup := by
    rw [childrenOfKind, (H.labelled id).childrenWithLabel_eq]
    exact ((H.arena.nodup_children id).filter _).filter _
  have hreplicate := List.eq_replicate_iff.mpr ⟨rfl, hall⟩
  rw [hreplicate, List.nodup_replicate] at hnodup
  have hpos := List.length_pos_of_mem hc
  rw [hreplicate, Nat.le_antisymm hnodup hpos, List.replicate_one]

theorem At.of_mem_childrenOfKind (hat : s.At path id) (H : Sound src tops s) {c : Nat}
    (hc : c ∈ s.childrenOfKind id label kind) : s.At (.inside path label kind) c := by
  obtain ⟨k, hk, hp, rfl, rfl⟩ := H.mem_childrenOfKind.mp hc
  exact hat.of_parent hk hp

/-- A settled node keeps its children. -/
theorem Upholds.childrenOfKind_eq (U : Upholds s t) (H : Sound src tops s) (hs : Settled s id)
    (label : UInt32) (kind : GroupKind) :
    t.childrenOfKind id label kind = s.childrenOfKind id label kind := by
  cases hs with
  | @intro _ g hid hloaded hparent =>
    obtain ⟨cache, hid'⟩ := U.keeps id g (.intro hid hloaded hparent) hid
    have hlabel : t.childrenWithLabel id label = s.childrenWithLabel id label := by
      rw [childrenWithLabel, childrenWithLabel, hid, hid']
      rfl
    rw [childrenOfKind, childrenOfKind, hlabel]
    refine List.filter_congr fun c hc => ?_
    rw [(H.labelled id).childrenWithLabel_eq] at hc
    obtain ⟨k, hk, -⟩ := H.arena.mem_children_iff.mp (List.mem_of_mem_filter hc)
    obtain ⟨k', hk', -, -, hkind⟩ := U.stays c k hk
    simp [hk, hk', hkind]

theorem Upholds.records_eq (U : Upholds s t) (hs : Settled s id) : t.records id = s.records id := by
  cases hs with
  | @intro _ g hid hloaded hparent =>
    obtain ⟨cache, hid'⟩ := U.keeps id g (.intro hid hloaded hparent) hid
    rw [records, records, hid, hid']
    rfl

/-! ## Nodes that are finished -/

/-- The node, all nodes above it and all nodes below it are loaded. -/
structure Fixed (s : Session) (id : Nat) : Prop where
  settled : Settled s id
  complete : Complete s id

theorem Fixed.of_mem_childrenOfKind (F : Fixed s id) (H : Sound src tops s) {c : Nat}
    (hc : c ∈ s.childrenOfKind id label kind) : Fixed s c := by
  obtain ⟨k, hk, hp, -⟩ := H.mem_childrenOfKind.mp hc
  have hcomplete : Complete s c := by
    obtain ⟨hid, -, hchildren⟩ := F.complete
    refine hchildren c ?_
    rw [H.arena.children_eq hid]
    exact mem_heldBy.mpr ⟨k, hk, hp⟩
  have hloaded : k.isLoaded := by
    obtain ⟨hk', hloaded, -⟩ := hcomplete
    cases hk'.symm.trans hk
    exact hloaded
  refine ⟨.intro hk hloaded fun q hq => ?_, hcomplete⟩
  cases hp.symm.trans hq
  exact F.settled

theorem Fixed.upholds (F : Fixed s id) (H : Sound src tops s) (U : Upholds s t) : Fixed t id where
  settled := U.keeps.settled F.settled
  complete := U.keeps.complete H F.complete fun _ _ hid hp => F.settled.parent hid hp

/-- The land of a cell in a finished sub-block stays the same. -/
theorem Upholds.landOf_eq (U : Upholds s t) (H : Sound src tops s) (F : Fixed s id) (r : Record) :
    t.landOf id r = s.landOf id r := by
  have hlands : (t.childrenOfKind id r.form.value .cellChildren).flatMap (fun children =>
        (t.childrenOfKind children r.form.value .cellTemporaryChildren).flatMap t.records) =
      (s.childrenOfKind id r.form.value .cellChildren).flatMap fun children =>
        (s.childrenOfKind children r.form.value .cellTemporaryChildren).flatMap s.records := by
    rw [U.childrenOfKind_eq H F.settled]
    refine List.flatMap_congr fun c hc => ?_
    have hfixed := F.of_mem_childrenOfKind H hc
    rw [U.childrenOfKind_eq H hfixed.settled]
    refine List.flatMap_congr fun d hd => ?_
    exact U.records_eq (hfixed.of_mem_childrenOfKind H hd).settled
  rw [landOf, landOf]
  simp only [hlands]

/-! ## Going through sub-blocks again -/

/-- What a block remembers once one more sub-block has been resolved. -/
def recollect (s : Session) (world : FormId) (cache : CellCache) (subBlock : Nat) : CellCache :=
  (s.records subBlock).foldl (s.remember subBlock world) { cache with loads := cache.loads + 1 }

/-- What a block remembers once the sub-blocks with the given labels have been resolved, the latest
of them first. -/
def replay (s : Session) (block : Nat) (world : FormId) : List UInt32 → CellCache
  | [] => {}
  | key :: keys =>
    { (s.childrenOfKind block key .exteriorCellSubBlock).foldl (s.recollect world)
        (s.replay block world keys) with resolved := key :: keys }

theorem Upholds.recollect_eq (U : Upholds s t) (H : Sound src tops s) (F : Fixed s id)
    (world : FormId) (cache : CellCache) :
    t.recollect world cache id = s.recollect world cache id := by
  have hremember : t.remember id world = s.remember id world := by
    funext cache r
    simp only [remember, U.landOf_eq H F]
  rw [recollect, recollect, U.records_eq F.settled, hremember]

/-- Going through finished sub-blocks again gives the same. -/
theorem Upholds.replay_eq (U : Upholds s t) (H : Sound src tops s) (hs : Settled s id)
    (world : FormId) {keys : List UInt32}
    (hfixed : ∀ key ∈ keys, ∀ c ∈ s.childrenOfKind id key .exteriorCellSubBlock, Fixed s c) :
    t.replay id world keys = s.replay id world keys := by
  induction keys with
  | nil => rfl
  | cons key keys ih =>
    obtain ⟨hkey, hkeys⟩ := List.forall_mem_cons.mp hfixed
    have hsame (cache : CellCache) :
        (s.childrenOfKind id key .exteriorCellSubBlock).foldl (t.recollect world) cache =
          (s.childrenOfKind id key .exteriorCellSubBlock).foldl (s.recollect world) cache :=
      List.foldl_ext _ _ _ fun cache c hc => U.recollect_eq H (hkey c hc) world cache
    rw [replay, replay, ih hkeys, U.childrenOfKind_eq H hs, hsame]

/-- The node at index `id` is a block of a world. It remembers what is in the sub-blocks that have
been resolved, each of which is finished. -/
structure Recalls (s : Session) (id : Nat) (world : FormId) : Prop where
  place : ∃ label, s.At (.block world label) id
  settled : Settled s id
  fixed : ∀ key ∈ (s.cache id).resolved,
    ∃ c, s.childrenOfKind id key .exteriorCellSubBlock = [c] ∧ Fixed s c
  nodup : (s.cache id).resolved.Nodup
  cache_eq : s.cache id = s.replay id world (s.cache id).resolved

theorem Recalls.fixed_of_mem {world : FormId} (R : Recalls s id world) {key : UInt32}
    (hkey : key ∈ (s.cache id).resolved) {c : Nat}
    (hc : c ∈ s.childrenOfKind id key .exteriorCellSubBlock) : Fixed s c := by
  obtain ⟨d, hd, hfixed⟩ := R.fixed key hkey
  rw [hd, List.mem_singleton] at hc
  exact hc ▸ hfixed

theorem Recalls.upholds {world : FormId} (R : Recalls s id world) (H : Sound src tops s)
    (U : Upholds s t) (hcache : t.cache id = s.cache id) : Recalls t id world where
  place := by
    obtain ⟨label, hat⟩ := R.place
    exact ⟨label, U.stays.at hat⟩
  settled := U.keeps.settled R.settled
  fixed := by
    intro key hkey
    rw [hcache] at hkey
    obtain ⟨c, hc, hfixed⟩ := R.fixed key hkey
    exact ⟨c, (U.childrenOfKind_eq H R.settled ..).trans hc, hfixed.upholds H U⟩
  nodup := hcache ▸ R.nodup
  cache_eq := by
    rw [hcache, U.replay_eq H R.settled world fun key hkey c hc => R.fixed_of_mem hkey hc]
    exact R.cache_eq

/-- A sound session, in which nodes remember nothing, or what they should. -/
structure Faithful (src : Source) (tops : List GroupHeader) (ids : List Nat) (s : Session) : Prop
    extends Rooted src tops ids s where
  recalls : ∀ id, s.cache id = {} ∨ ∃ world, Recalls s id world

theorem Faithful.upholds (F : Faithful src tops ids s) (H : Rooted src tops ids t)
    (U : Upholds s t) (hcache : ∀ c, t.cache c = s.cache c) : Faithful src tops ids t where
  toRooted := H
  recalls := by
    intro c
    rcases F.recalls c with hempty | ⟨world, hrecalls⟩
    · exact .inl ((hcache c).trans hempty)
    · exact .inr ⟨world, hrecalls.upholds F.toSound U (hcache c)⟩

theorem Faithful.preserves_loadOne (id : Nat) :
    Preserves (Faithful src tops ids) (loadOne id) := by
  intro s F
  obtain ⟨H, L⟩ := Rooted.preserves_loads s id s ⟨F.toRooted, .refl s⟩
  exact F.upholds H L.toUpholds L.cache_eq

/-! ## Resolving one more sub-block -/

theorem cache_modifyCache (hid : s.group? id = some g) (f : CellCache → CellCache) (c : Nat) :
    (s.modifyCache id f).cache c = if id = c then f (s.cache c) else s.cache c := by
  rw [cache, cache, modifyCache, group?_modifyGroup]
  by_cases hc : id = c
  · subst hc
    simp [hid]
  · simp [hc]

/-- To remember records changes cells and lands only. -/
theorem foldl_remember_rest (s : Session) (world : FormId) (c : Nat) (rs : List Record)
    (cache : CellCache) :
    ∃ cells lands, rs.foldl (s.remember c world) cache = { cache with cells, lands } := by
  induction rs generalizing cache with
  | nil => exact ⟨cache.cells, cache.lands, rfl⟩
  | cons r rs ih =>
    have hone : ∃ cells lands, s.remember c world cache r = { cache with cells, lands } := by
      rw [remember]
      split
      · split
        · exact ⟨cache.cells, cache.lands, rfl⟩
        · exact ⟨_, _, rfl⟩
      · exact ⟨cache.cells, cache.lands, rfl⟩
    obtain ⟨cells, lands, hone⟩ := hone
    obtain ⟨cells', lands', hrest⟩ := ih { cache with cells, lands }
    exact ⟨cells', lands', by rw [List.foldl_cons, hone, hrest]⟩

theorem resolved_recollect (s : Session) (world : FormId) (cache : CellCache) (c : Nat) :
    (s.recollect world cache c).resolved = cache.resolved := by
  obtain ⟨cells, lands, hrest⟩ := foldl_remember_rest s world c (s.records c)
    { cache with loads := cache.loads + 1 }
  rw [recollect, hrest]

theorem loads_recollect (s : Session) (world : FormId) (cache : CellCache) (c : Nat) :
    (s.recollect world cache c).loads = cache.loads + 1 := by
  obtain ⟨cells, lands, hrest⟩ := foldl_remember_rest s world c (s.records c)
    { cache with loads := cache.loads + 1 }
  rw [recollect, hrest]

/-- A block belongs to one world. -/
theorem At.world_eq {world world' : FormId} {label label' : UInt32}
    (hat : s.At (.block world label) id) (hat' : s.At (.block world' label') id) :
    world = world' := by
  obtain ⟨g, w, hid, hp, -, -, hw⟩ := hat
  obtain ⟨g', w', hid', hp', -, -, hw'⟩ := hat'
  cases hid.symm.trans hid'
  cases hp.symm.trans hp'
  obtain ⟨k, -, hk, -, hlabel, -⟩ := hw
  obtain ⟨k', -, hk', -, hlabel', -⟩ := hw'
  cases hk.symm.trans hk'
  cases world
  cases world'
  simpa using hlabel.symm.trans hlabel'

/-- The session once a block remembers one more sub-block, which is then resolved. -/
def resolve (s : Session) (block : Nat) (world : FormId) (key : UInt32) (subBlock : Nat) :
    Session :=
  (s.modifyCache block fun cache => s.recollect world cache subBlock).modifyCache block fun cache =>
    { cache with resolved := key :: cache.resolved }

theorem alike_resolve (s : Session) (block : Nat) (world : FormId) (key : UInt32)
    (subBlock : Nat) : Alike s (s.resolve block world key subBlock) :=
  (alike_modifyCache ..).trans (alike_modifyCache ..)

theorem cache_resolve (hid : s.group? id = some g) (world : FormId) (key : UInt32)
    (subBlock c : Nat) :
    (s.resolve id world key subBlock).cache c =
      if id = c then
        { s.recollect world (s.cache c) subBlock with resolved := key :: (s.cache c).resolved }
      else s.cache c := by
  obtain ⟨_, hid'⟩ := (alike_modifyCache s id (s.recollect world · subBlock)).group?_of hid
  rw [resolve, cache_modifyCache hid', cache_modifyCache hid]
  by_cases hc : id = c
  · rw [if_pos hc, if_pos hc, if_pos hc, resolved_recollect]
  · rw [if_neg hc, if_neg hc, if_neg hc]

/-- **A block that remembers one more sub-block still remembers what it should.** -/
theorem Faithful.resolve (F : Faithful src tops ids s) {world : FormId} {key : UInt32} {c : Nat}
    (hat : s.At (.block world label) id) (hs : Settled s id)
    (hc : s.childrenOfKind id key .exteriorCellSubBlock = [c]) (hfixed : Fixed s c)
    (hnew : key ∉ (s.cache id).resolved) : Faithful src tops ids (s.resolve id world key c) where
  toRooted := F.toRooted.alike (alike_resolve ..)
  recalls := by
    intro d
    obtain ⟨g, hid⟩ := hat.exists_group?
    have hcache := cache_resolve hid world key c
    have U := (alike_resolve s id world key c).upholds
    by_cases hd : id = d
    case neg =>
      have hother := (hcache d).trans (if_neg hd)
      rcases F.recalls d with hempty | ⟨world', hrecalls⟩
      · exact .inl (hother.trans hempty)
      · exact .inr ⟨world', hrecalls.upholds F.toSound U hother⟩
    subst hd
    -- what was remembered before comes from sub-blocks of the same world
    have hbefore : (∀ key ∈ (s.cache id).resolved,
          ∃ c, s.childrenOfKind id key .exteriorCellSubBlock = [c] ∧ Fixed s c) ∧
        (s.cache id).resolved.Nodup ∧
        s.cache id = s.replay id world (s.cache id).resolved := by
      rcases F.recalls id with hempty | ⟨world', R⟩
      · rw [hempty]
        exact ⟨fun key hkey => by simp at hkey, .nil, rfl⟩
      · obtain ⟨label', hat'⟩ := R.place
        rw [hat.world_eq hat']
        exact ⟨R.fixed, R.nodup, R.cache_eq⟩
    obtain ⟨hold, hnodup, heq⟩ := hbefore
    have hself := (hcache id).trans (if_pos rfl)
    have hresolved : ((s.resolve id world key c).cache id).resolved =
        key :: (s.cache id).resolved := by
      rw [hself]
    have hall : ∀ k ∈ key :: (s.cache id).resolved,
        ∃ d, s.childrenOfKind id k .exteriorCellSubBlock = [d] ∧ Fixed s d :=
      List.forall_mem_cons.mpr ⟨⟨c, hc, hfixed⟩, hold⟩
    refine .inr ⟨world, ⟨label, U.stays.at hat⟩, U.keeps.settled hs, ?_, ?_, ?_⟩
    · rw [hresolved]
      intro k hk
      obtain ⟨d, hd, hfixed⟩ := hall k hk
      exact ⟨d, (U.childrenOfKind_eq F.toSound hs ..).trans hd, hfixed.upholds F.toSound U⟩
    · rw [hresolved]
      exact List.nodup_cons.mpr ⟨hnew, hnodup⟩
    · rw [hresolved, U.replay_eq F.toSound hs world fun k hk d hd => ?_]
      · rw [hself, replay, hc, List.foldl_cons, List.foldl_nil, ← heq]
      · obtain ⟨e, he, hfixed⟩ := hall k hk
        rw [he, List.mem_singleton] at hd
        exact hd ▸ hfixed

end Session

end GamePlugin
