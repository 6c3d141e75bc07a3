import GamePlugin.Proofs.Answers

/-!
# The budget of sub-blocks

A limit on the number of sub-blocks bounds what looking at positions may load. Each sub-block is
resolved once: from then on its block remembers it, and looking at its positions again changes
nothing and costs nothing (`Session.Faithful.blocksAt_of_resolved`). So the limit holds, and what was
paid for stays paid for.

A sub-block is counted before it is loaded, and it stays counted if it cannot be read. So the count
is the number of sub-blocks that have been resolved, and one more for each operation that failed
inside a sub-block (`Plugin.Wastes`). Operations that fail elsewhere count nothing.

## Main definitions

* `Operation.Approaches` — the operation can get as far as a sub-block.
* `Plugin.Wastes` — the operation fails after it has counted a sub-block.
* `Plugin.ReachesWasting` — the sessions that are reached with so many of these.
-/

namespace GamePlugin

/-- The operation looks at a position, and can get as far as the sub-block for it. -/
def Operation.Approaches (op : Operation) (src : Source) (tops : List GroupHeader) : Prop :=
  ∃ position, op.position? = some position ∧ src.Approachable tops position

namespace Session

variable {src : Source} {tops : List GroupHeader} {ids : List Nat} {s : Session} {id : Nat}
  {g : GroupNode} {path : GroupPath} {p : GridPosition}

/-! ## Blocks count what they have resolved -/

theorem loads_replay (world : FormId) {keys : List UInt32}
    (hkeys : ∀ key ∈ keys, ∃ c, s.childrenOfKind id key .exteriorCellSubBlock = [c]) :
    (s.replay id world keys).loads = keys.length := by
  induction keys with
  | nil => rfl
  | cons key keys ih =>
    obtain ⟨⟨c, hc⟩, hkeys⟩ := List.forall_mem_cons.mp hkeys
    simp only [replay, hc, List.foldl_cons, List.foldl_nil, loads_recollect, ih hkeys,
      List.length_cons]

/-- A node has gone through as many sub-blocks as it has resolved. -/
theorem Faithful.loads_eq (F : Faithful src tops ids s) (id : Nat) :
    (s.cache id).loads = (s.cache id).resolved.length := by
  rcases F.recalls id with hempty | ⟨world, R⟩
  · simp [hempty]
  · have hloads := loads_replay world fun key hkey => by
      obtain ⟨c, hc, -⟩ := R.fixed key hkey
      exact ⟨c, hc⟩
    rwa [← R.cache_eq] at hloads

theorem Faithful.total_loads (F : Faithful src tops ids s) :
    (s.total fun cache => cache.loads) = s.resolvedCount :=
  Finset.sum_congr rfl fun c _ => F.loads_eq c

/-- A sub-block that has been resolved is one child of its block, which is loaded with all that is
below it. -/
theorem Faithful.child_of_resolved (F : Faithful src tops ids s) {key : UInt32}
    (hkey : key ∈ (s.cache id).resolved) :
    ∃ c, Complete s c ∧ ∀ d, (∃ k, s.group? d = some k ∧ k.parent = some id ∧ k.label = key ∧
      k.kind = .exteriorCellSubBlock) ↔ d = c := by
  rcases F.recalls id with hempty | ⟨world, R⟩
  · simp [hempty] at hkey
  · obtain ⟨c, hc, hfixed⟩ := R.fixed key hkey
    refine ⟨c, hfixed.complete, fun d => ?_⟩
    rw [← F.toSound.mem_childrenOfKind, hc, List.mem_singleton]

theorem Faithful.nodup_resolved (F : Faithful src tops ids s) (id : Nat) :
    (s.cache id).resolved.Nodup := by
  rcases F.recalls id with hempty | ⟨world, R⟩
  · simp [hempty]
  · exact R.nodup

/-! ## Looking at the same sub-block again -/

theorem loadOne_of_settled (hs : Settled s id) : loadOne id s = .ok () s := by
  obtain ⟨hid, hloaded, -⟩ := hs
  rw [loadOne_eq, hid]
  exact if_pos hloaded

theorem Rooted.topGroup?_eq {plugin : Plugin} (H : Rooted src tops plugin.topGroups s) {tag : Tag}
    (hat : s.At (.top tag.code) id) : plugin.topGroup? s tag = some id := by
  rcases H.topGroup?_cases tag with ⟨-, hnil⟩ | ⟨c, hsome, hatc, -⟩
  · have htop := hat
    obtain ⟨g, hid, hp, -⟩ := htop
    have hheaders := H.headers_eq_piecesAt hat hid fun q hq => by rw [hp] at hq; cases hq
    rw [hnil] at hheaders
    exact absurd (Array.toList_eq_nil_iff.mp hheaders) (H.arena.headers_ne hid)
  · rw [hsome, H.at_unique hat hatc]

/-- **Asking for a position whose sub-block has been resolved changes nothing.** -/
theorem Faithful.blocksAt_of_resolved {plugin : Plugin} (F : Faithful src tops plugin.topGroups s)
    (hp : p.isInterior = false) (hat : s.At p.blockPath id)
    (hkey : p.subBlockKey ∈ (s.cache id).resolved) : plugin.blocksAt p s = .ok [id] s := by
  have H := F.toSound
  have hs := (F.recalls_of_mem hat hkey).settled
  -- the nodes above the block are loaded, so nothing is left to load on the way down
  obtain ⟨g, world, hid, hworld, hlabel, hkind, hatw⟩ := hat
  have hsw := hs.parent hid hworld
  obtain ⟨w, worlds, hw, hworlds, hlabelw, hkindw, hatt⟩ := hatw
  have hst := hsw.parent hw hworlds
  have htop := F.toRooted.topGroup?_eq hatt
  have hworldOf := H.childrenOfKind_eq_singleton
    (H.mem_childrenOfKind.mpr ⟨w, hw, hworlds, hlabelw, hkindw⟩)
  have hblockOf := H.childrenOfKind_eq_singleton
    (H.mem_childrenOfKind.mpr ⟨g, hid, hworld, hlabel, hkind⟩)
  have hdown : plugin.worldChildren p.worldForm s = .ok (some world) s := by
    refine bind_eq_ok_iff.mpr ⟨s, s, rfl, ?_⟩
    rw [htop]
    refine bind_eq_ok_iff.mpr ⟨(), s, loadOne_of_settled hst, ?_⟩
    refine bind_eq_ok_iff.mpr ⟨s, s, rfl, ?_⟩
    rw [hworldOf]
    rfl
  have hresolve : resolveSubBlock id p s = .ok true s := by
    refine bind_eq_ok_iff.mpr ⟨s, s, rfl, ?_⟩
    rw [if_pos ((any_resolved_iff ..).mpr hkey)]
    rfl
  rw [Plugin.blocksAt, if_neg (by simp [hp])]
  refine bind_eq_ok_iff.mpr ⟨some world, s, hdown, ?_⟩
  refine bind_eq_ok_iff.mpr ⟨(), s, loadOne_of_settled hsw, ?_⟩
  refine bind_eq_ok_iff.mpr ⟨s, s, rfl, ?_⟩
  rw [hblockOf]
  refine bind_eq_ok_iff.mpr ⟨[id], s, ?_, rfl⟩
  exact bind_eq_ok_iff.mpr ⟨true, s, hresolve, rfl⟩

theorem Faithful.atPosition_of_resolved {plugin : Plugin}
    (F : Faithful src tops plugin.topGroups s)
    (find : Session → Nat → GridPosition → Option Record) (hat : s.At p.blockPath id)
    (hkey : p.subBlockKey ∈ (s.cache id).resolved) :
    plugin.atPosition find p s = .ok (if p.isInterior then none else find s id p) s := by
  rw [Plugin.atPosition_eq]
  cases hp : p.isInterior with
  | true => exact bind_eq_ok_iff.mpr ⟨[], s, plugin.blocksAt_interior hp s, rfl⟩
  | false =>
    refine bind_eq_ok_iff.mpr ⟨[id], s, F.blocksAt_of_resolved hp hat hkey, ?_⟩
    refine bind_eq_ok_iff.mpr ⟨s, s, rfl, ?_⟩
    rw [List.findSome?_singleton]
    rfl

/-! ## One operation -/

theorem Faithful.preserves_charged (limit : Option Nat) (s : Session) (id : Nat) :
    Preserves (fun t => Faithful src tops ids t ∧ Charged limit s t 0 0) (loadOne id) := by
  rintro t ⟨F, C⟩
  obtain ⟨H, L⟩ := Rooted.preserves_loads t id t ⟨F.toRooted, .refl t⟩
  exact ⟨F.upholds H L.toUpholds L.cache_eq, C.trans (L.charged limit)⟩

end Session

namespace Plugin

open Session (Step after Faithful Charged Leads)

/-- An operation that looks at a position asks the blocks for it. -/
theorem perform_eq_blocksAt {plugin : Plugin} (hflat : plugin.flat = none) {op : Operation}
    {position : GridPosition} (hop : op.position? = some position) :
    plugin.perform op = plugin.blocksAt position >>= fun _ => pure () := by
  have hlook (find : Session → Nat → GridPosition → Option Record) :
      plugin.atPosition find position >>= (fun _ => pure () : Option Record → Step Unit) =
        plugin.blocksAt position >>= fun _ => pure () := by
    rw [atPosition_eq, bind_assoc]
    rfl
  cases op with
  | query q =>
    have hrun : plugin.perform (.query q) = plugin.query q >>= fun _ => pure () := rfl
    rw [hrun, query, hflat]
    cases q with
    | cell p => cases hop; exact hlook Session.cellAt
    | land p => cases hop; exact hlook Session.landAt
    | editorId name => cases hop
    | cellName name => cases hop
  | load id deep => cases hop
  | loadAll => cases hop
  | records tag => cases hop
  | worldChildren world => cases hop

end Plugin

namespace Session

variable {src : Source} {tops : List GroupHeader} {s : Session}

/-- **What an operation counts.** If it succeeds, as many sub-blocks as it resolves. If it fails, it
has resolved none, and it has counted one if it can get as far as a sub-block. -/
theorem Faithful.leads_perform {plugin : Plugin} (F : Faithful src tops plugin.topGroups s)
    (hflat : plugin.flat = none) (op : Operation) :
    Leads (plugin.perform op) s
      (fun _ t => Faithful src tops plugin.topGroups t ∧
        ∃ n, Charged src.options.subBlockLimit s t n n)
      (fun t => Faithful src tops plugin.topGroups t ∧
        (Charged src.options.subBlockLimit s t 0 0 ∧ ¬op.Approaches src tops ∨
          Charged src.options.subBlockLimit s t 1 0 ∧ op.Approaches src tops)) := by
  cases hop : op.position? with
  | none =>
    have hnot : ¬op.Approaches src tops := by
      rintro ⟨position, hsome, -⟩
      rw [hop] at hsome
      cases hsome
    obtain ⟨Ft, C⟩ := Plugin.preserves_perform_of
      (Faithful.preserves_charged src.options.subBlockLimit s) op
      (fun find position hsome => by rw [hop] at hsome; cases hsome) s ⟨F, (Loads.refl s).charged _⟩
    constructor
    · intro _ t heq
      rw [after_of_ok heq] at Ft C
      exact ⟨Ft, 0, C⟩
    · intro e t heq
      rw [after_of_error heq] at Ft C
      exact ⟨Ft, .inl ⟨C, hnot⟩⟩
  | some position =>
    rw [Plugin.perform_eq_blocksAt hflat hop]
    cases hp : position.isInterior with
    | true =>
      constructor
      · intro _ t heq
        obtain ⟨blocks, u, hblocks, hpure⟩ := bind_eq_ok_iff.mp heq
        cases (plugin.blocksAt_interior hp s).symm.trans hblocks
        cases hpure
        exact ⟨F, 0, (Loads.refl s).charged _⟩
      · intro e t heq
        cases heq.symm.trans (bind_eq_ok_iff.mpr ⟨[], s, plugin.blocksAt_interior hp s, rfl⟩)
    | false =>
      refine ((F.leads_blocksAt hp).imp (fun h => h) fun {t} h => ?_).bind fun h => .pure ⟨h.1, h.2.1⟩
      obtain ⟨Ft, M⟩ := h
      refine ⟨Ft, ?_⟩
      cases M with
      | above C hnot =>
        refine .inl ⟨C, ?_⟩
        rintro ⟨position', hsome, happroach⟩
        cases hop.symm.trans hsome
        exact hnot happroach
      | inside C happroach => exact .inr ⟨C, position, hop, happroach⟩

end Session

/-! ## Runs -/

namespace Plugin

open Session (Step after Faithful Charged)

/-- The operation fails, although it can get as far as the sub-block for its position. -/
def Wastes (p : Plugin) (s₀ : Session) (op : Operation) (s : Session) : Prop :=
  op.Approaches s₀.source (p.tops s₀) ∧ ∃ e t, p.perform op s = .error e t

/-- The sessions that operations lead to from the session after opening, and how many of the
operations have failed in a sub-block. -/
inductive ReachesWasting (p : Plugin) (s₀ : Session) : Nat → Session → Prop
  | refl : ReachesWasting p s₀ 0 s₀
  | keep {n : Nat} {s : Session} (h : ReachesWasting p s₀ n s) (op : Operation)
      (hop : ¬p.Wastes s₀ op s) : ReachesWasting p s₀ n (after (p.perform op) s)
  | waste {n : Nat} {s : Session} (h : ReachesWasting p s₀ n s) (op : Operation)
      (hop : p.Wastes s₀ op s) : ReachesWasting p s₀ (n + 1) (after (p.perform op) s)

variable {image : Image} {options : Options} {length? : Option Nat} {plugin : Plugin}
  {s₀ s : Session} {n : Nat}

theorem Reaches.exists_wasting (h : plugin.Reaches s₀ s) : ∃ n, plugin.ReachesWasting s₀ n s := by
  induction h with
  | refl => exact ⟨0, .refl⟩
  | @step s _ op ih =>
    obtain ⟨n, hn⟩ := ih
    by_cases hop : plugin.Wastes s₀ op s
    · exact ⟨n + 1, hn.waste op hop⟩
    · exact ⟨n, hn.keep op hop⟩

/-- A session whose count is the number of sub-blocks that have been resolved, and so many more. -/
structure Spent (src : Source) (tops : List GroupHeader) (ids : List Nat) (n : Nat) (s : Session) :
    Prop extends Faithful src tops ids s where
  count_eq : s.subBlocksLoaded = s.resolvedCount + n
  within : ∀ m, src.options.subBlockLimit = some m → s.subBlocksLoaded ≤ m

theorem Spent.charged {src : Source} {tops : List GroupHeader} {ids : List Nat} {t : Session}
    (S : Spent src tops ids n s) (F : Faithful src tops ids t) {taken resolved m : Nat}
    (C : Charged src.options.subBlockLimit s t taken resolved) (hm : n + taken = m + resolved) :
    Spent src tops ids m t where
  toFaithful := F
  count_eq := by
    rw [C.count_eq, C.resolved_eq, S.count_eq]
    omega
  within k hk := C.within k hk (S.within k hk)

theorem spent_of_open? (hopen : open? image options length? = .ok (plugin, s₀))
    (hgroups : s₀.context.schema.hasGroups) :
    Spent s₀.source (plugin.tops s₀) plugin.topGroups 0 s₀ := by
  have hcount : s₀.subBlocksLoaded = 0 := by rw [rest_of_open? hopen hgroups]
  have hresolved : s₀.resolvedCount = 0 := Session.total_eq_zero rfl (cache_of_open? hopen)
  exact ⟨faithful_of_open? hopen hgroups, by rw [hcount, hresolved], fun m _ => by omega⟩

/-- **After any run, the count is the number of sub-blocks that have been resolved, and one for each
operation that failed in a sub-block.** -/
theorem ReachesWasting.spent (hopen : open? image options length? = .ok (plugin, s₀))
    (hgroups : s₀.context.schema.hasGroups) (h : plugin.ReachesWasting s₀ n s) :
    Spent s₀.source (plugin.tops s₀) plugin.topGroups n s := by
  obtain ⟨hflat, -⟩ := rooted_tops_of_open? hopen hgroups
  induction h with
  | refl => exact spent_of_open? hopen hgroups
  | @keep n s _ op hop ih =>
    have hleads := ih.toFaithful.leads_perform hflat op
    cases hrun : plugin.perform op s with
    | ok _ t =>
      obtain ⟨F, k, C⟩ := hleads.ok hrun
      rw [Session.after_of_ok hrun]
      exact ih.charged F C rfl
    | error e t =>
      obtain ⟨F, ⟨C, -⟩ | ⟨-, happroach⟩⟩ := hleads.error hrun
      · rw [Session.after_of_error hrun]
        exact ih.charged F C rfl
      · exact absurd ⟨happroach, e, t, hrun⟩ hop
  | @waste n s _ op hop ih =>
    obtain ⟨happroach, e, t, hrun⟩ := hop
    obtain ⟨F, ⟨-, hnot⟩ | ⟨C, -⟩⟩ := (ih.toFaithful.leads_perform hflat op).error hrun
    · exact absurd happroach hnot
    · rw [Session.after_of_error hrun]
      exact ih.charged F C rfl

/-! ## The main results -/

/-- **Each sub-block is resolved once, within the limit.** A node has gone through as many
sub-blocks as it lists, lists none of them twice, and each of them is one child, loaded with all
that is below it. Together they are no more than were counted, and no more are counted than the
limit says. Looking again at a position whose sub-block has been resolved gives what the block
remembers, and leaves the session as it is. -/
theorem sub_blocks_resolved_once (hopen : open? image options length? = .ok (plugin, s₀))
    (hgroups : s₀.context.schema.hasGroups) (hreach : plugin.Reaches s₀ s) :
    (∀ id g, s.group? id = some g →
      g.cache.loads = g.cache.resolved.length ∧ g.cache.resolved.Nodup ∧
      ∀ key ∈ g.cache.resolved, ∃ c, s.Complete c ∧
        ∀ d, (∃ k, s.group? d = some k ∧ k.parent = some id ∧ k.label = key ∧
          k.kind = .exteriorCellSubBlock) ↔ d = c) ∧
    (s.total fun cache => cache.loads) ≤ s.subBlocksLoaded ∧
    (∀ n, options.subBlockLimit = some n → s.subBlocksLoaded ≤ n) ∧
    ∀ p id g, s.At p.blockPath id → s.group? id = some g → p.subBlockKey ∈ g.cache.resolved →
      plugin.query (.cell p) s = .ok (if p.isInterior then none else s.cellAt id p) s ∧
      plugin.query (.land p) s = .ok (if p.isInterior then none else s.landAt id p) s := by
  obtain ⟨hflat, hsource, -⟩ := rooted_tops_of_open? hopen hgroups
  obtain ⟨n, hn⟩ := hreach.exists_wasting
  have S := hn.spent hopen hgroups
  have F := S.toFaithful
  have hcache {id : Nat} {g : GroupNode} (hid : s.group? id = some g) : s.cache id = g.cache := by
    simp [Session.cache, hid]
  refine ⟨fun id g hid => ?_, ?_, fun m hm => ?_, fun p id g hat hid hkey => ?_⟩
  · rw [← hcache hid]
    exact ⟨F.loads_eq id, F.nodup_resolved id, fun key hkey => F.child_of_resolved hkey⟩
  · rw [F.total_loads, S.count_eq]
    exact Nat.le_add_right _ _
  · refine S.within m ?_
    rw [hsource]
    exact hm
  · rw [← hcache hid] at hkey
    rw [query_cell_eq hflat, query_land_eq hflat]
    exact ⟨F.atPosition_of_resolved Session.cellAt hat hkey,
      F.atPosition_of_resolved Session.landAt hat hkey⟩

/-- Two sub-blocks have been resolved, which is the limit. The cell in another block is not found any
more, and what has been resolved is still there. -/
theorem sub_blocks_resolved_once_strayCells :
    ∃ plugin s₀ s g, open? strayCells { edition := some .oblivion, subBlockLimit := some 2 } none =
        .ok (plugin, s₀) ∧
      s₀.context.schema.hasGroups ∧ plugin.Reaches s₀ s ∧
      s.At (GridPosition.blockPath ⟨0, 0, 60⟩) 2 ∧ s.group? 2 = some g ∧
      GridPosition.subBlockKey ⟨0, 0, 60⟩ ∈ g.cache.resolved ∧ g.cache.resolved.length = 2 ∧
      s.subBlocksLoaded = 2 ∧ (s.total fun cache => cache.loads) ≤ 2 ∧
      plugin.query (.cell ⟨-1, -9, 60⟩) s =
        .ok none (after (plugin.query (.cell ⟨-1, -9, 60⟩)) s) ∧
      plugin.query (.cell ⟨0, 0, 60⟩) s = .ok (s.cellAt 2 ⟨0, 0, 60⟩) s ∧
      (s.cellAt 2 ⟨0, 0, 60⟩).isSome := by
  have hspent : ((open? strayCells { edition := some .oblivion, subBlockLimit := some 2 }
      none).toOption.map fun x =>
        let s := after (x.1.perform (.query (.cell ⟨8, 0, 60⟩)))
          (after (x.1.perform (.query (.cell ⟨0, 0, 60⟩))) x.2)
        (x.2.context.schema.hasGroups && decide (s.At (GridPosition.blockPath ⟨0, 0, 60⟩) 2) &&
            (s.cellAt 2 ⟨0, 0, 60⟩).isSome,
          (s.group? 2).map fun g =>
            (g.cache.resolved.contains (GridPosition.subBlockKey ⟨0, 0, 60⟩),
              g.cache.resolved.length),
          s.subBlocksLoaded, ((x.1.query (.cell ⟨-1, -9, 60⟩)).run' s).map (·.isNone))) =
      some (true, some (true, 2), 2, some true) := by
    decide +kernel
  obtain ⟨⟨plugin, s₀⟩, hopen, hvalues⟩ := exists_eq_ok_of_map hspent
  simp only [Prod.mk.injEq, Bool.and_eq_true] at hvalues
  obtain ⟨⟨⟨hgroups, hat⟩, hsome⟩, hnode, hcount, hdenied⟩ := hvalues
  obtain ⟨g, hg, hcache⟩ := Option.map_eq_some_iff.mp hnode
  simp only [Prod.mk.injEq, List.contains_iff_mem] at hcache
  have hreach : plugin.Reaches s₀ (after (plugin.perform (.query (.cell ⟨8, 0, 60⟩)))
      (after (plugin.perform (.query (.cell ⟨0, 0, 60⟩))) s₀)) := .step (.step .refl _) _
  obtain ⟨-, htotal, -, hagain⟩ := sub_blocks_resolved_once hopen hgroups hreach
  obtain ⟨hcell, -⟩ := hagain ⟨0, 0, 60⟩ 2 g (of_decide_eq_true hat) hg hcache.1
  exact ⟨plugin, s₀, _, g, hopen, hgroups, hreach, of_decide_eq_true hat, hg, hcache.1, hcache.2,
    hcount, hcount ▸ htotal, Session.eq_ok_none_of_run' hdenied, hcell, hsome⟩

/-- A file with a world whose cells lie in two sub-blocks of a block. The second sub-block cannot be
read, since a byte is left over after the fields of its cell. -/
def brokenSubBlock : Image :=
  .ofBytes (Draft.encodeAll .tes4
    [.record .TES4 0 ⟨0⟩ [72, 69, 68, 82, 12, 0, 0, 0, 128, 63, 4, 0, 0, 0, 0, 8, 0, 0],
     .group Tag.WRLD.code .top
      [.record .WRLD 0 ⟨60⟩ [],
       .group 60 .worldChildren
        [.group (GridPosition.pack 0 0) .exteriorCellBlock
          [.group (GridPosition.pack 0 0) .exteriorCellSubBlock
            [.record .CELL 0 ⟨7⟩ [88, 67, 76, 67, 8, 0, 0, 0, 0, 0, 0, 0, 0, 0]],
           .group (GridPosition.pack 1 0) .exteriorCellSubBlock
            [.record .CELL 0 ⟨8⟩ [88, 67, 76, 67, 8, 0, 8, 0, 0, 0, 0, 0, 0, 0, 88]]]]]])

/-- **The count of sub-blocks.** Every session that is reached is reached with some number of
operations that failed in a sub-block, and the count is the number of sub-blocks that have been
resolved and this number. An operation that fails has resolved nothing, and leaves the count as it
was exactly if it cannot get as far as a sub-block; otherwise it has counted one. -/
theorem count_resolved_and_wasted (hopen : open? image options length? = .ok (plugin, s₀))
    (hgroups : s₀.context.schema.hasGroups) (hreach : plugin.Reaches s₀ s) :
    (∃ n, plugin.ReachesWasting s₀ n s) ∧
    (∀ n, plugin.ReachesWasting s₀ n s → s.subBlocksLoaded = s.resolvedCount + n) ∧
    ∀ op e t, plugin.perform op s = .error e t →
      t.resolvedCount = s.resolvedCount ∧
      (t.subBlocksLoaded = s.subBlocksLoaded ∧ ¬op.Approaches s₀.source (plugin.tops s₀) ∨
        t.subBlocksLoaded = s.subBlocksLoaded + 1 ∧ op.Approaches s₀.source (plugin.tops s₀)) := by
  obtain ⟨hflat, -⟩ := rooted_tops_of_open? hopen hgroups
  refine ⟨hreach.exists_wasting, fun n hn => (hn.spent hopen hgroups).count_eq,
    fun op e t hrun => ?_⟩
  have F := faithful_of_reaches hopen hgroups hreach
  obtain ⟨-, ⟨C, hnot⟩ | ⟨C, happroach⟩⟩ := (F.leads_perform hflat op).error hrun
  · exact ⟨C.resolved_eq, .inl ⟨C.count_eq, hnot⟩⟩
  · exact ⟨C.resolved_eq, .inr ⟨C.count_eq, happroach⟩⟩

/-- A sub-block that cannot be read: it is counted, and it is the one that was wasted. -/
theorem count_resolved_and_wasted_brokenSubBlock :
    ∃ plugin s₀ s, open? brokenSubBlock { edition := some .oblivion } none = .ok (plugin, s₀) ∧
      s₀.context.schema.hasGroups ∧ plugin.Reaches s₀ s ∧ plugin.ReachesWasting s₀ 1 s ∧
      s.subBlocksLoaded = 1 ∧ s.resolvedCount = 0 := by
  have hfails : ((open? brokenSubBlock { edition := some .oblivion } none).toOption.map fun x =>
      (x.2.context.schema.hasGroups,
        ((x.1.perform (.query (.cell ⟨8, 0, 60⟩))).run' x.2).isNone, x.2.subBlocksLoaded,
        (after (x.1.perform (.query (.cell ⟨8, 0, 60⟩))) x.2).subBlocksLoaded)) =
      some (true, true, 0, 1) := by
    decide +kernel
  obtain ⟨⟨plugin, s₀⟩, hopen, hvalues⟩ := exists_eq_ok_of_map hfails
  simp only [Prod.mk.injEq] at hvalues
  obtain ⟨hgroups, hnone, hbefore, hafter⟩ := hvalues
  obtain ⟨e, hrun⟩ := Session.exists_eq_error_of_run' hnone
  have hreach : plugin.Reaches s₀ (after (plugin.perform (.query (.cell ⟨8, 0, 60⟩))) s₀) :=
    .step .refl _
  -- the query has counted a sub-block, so it has got as far as that
  obtain ⟨-, -, hfail⟩ := count_resolved_and_wasted hopen hgroups .refl
  obtain ⟨-, ⟨hsame, -⟩ | ⟨-, happroach⟩⟩ := hfail _ e _ hrun
  · rw [hbefore, hafter] at hsame
    cases hsame
  have hwasting : plugin.ReachesWasting s₀ 1
      (after (plugin.perform (.query (.cell ⟨8, 0, 60⟩))) s₀) :=
    .waste .refl _ ⟨happroach, e, _, hrun⟩
  obtain ⟨-, hcount, -⟩ := count_resolved_and_wasted hopen hgroups hreach
  have hone := hcount 1 hwasting
  rw [hafter] at hone
  exact ⟨plugin, s₀, _, hopen, hgroups, hreach, hwasting, hafter, by omega⟩

/-- A sub-block that cannot be read is counted, and uses up a limit of one: a cell is not found any
more that is found right after opening. -/
theorem failed_query_uses_limit :
    ∃ plugin s₀ e s t u r, open? brokenSubBlock
        { edition := some .oblivion, subBlockLimit := some 1 } none = .ok (plugin, s₀) ∧
      plugin.query (.cell ⟨8, 0, 60⟩) s₀ = .error e s ∧
      s.subBlocksLoaded = 1 ∧ s.resolvedCount = 0 ∧
      plugin.query (.cell ⟨0, 0, 60⟩) s = .ok none t ∧
      plugin.query (.cell ⟨0, 0, 60⟩) s₀ = .ok (some r) u ∧ r.form.value = 7 := by
  have hruns : ((open? brokenSubBlock { edition := some .oblivion, subBlockLimit := some 1 }
      none).toOption.map fun x =>
        let s := after (x.1.query (.cell ⟨8, 0, 60⟩)) x.2
        (((x.1.query (.cell ⟨8, 0, 60⟩)).run' x.2).isNone, s.subBlocksLoaded, s.resolvedCount,
          ((x.1.query (.cell ⟨0, 0, 60⟩)).run' s).map (·.isNone),
          ((x.1.query (.cell ⟨0, 0, 60⟩)).run' x.2).bind (·.map (·.form.value)))) =
      some (true, 1, 0, some true, some 7) := by
    decide +kernel
  obtain ⟨⟨plugin, s₀⟩, hopen, hvalues⟩ := exists_eq_ok_of_map hruns
  simp only [Prod.mk.injEq] at hvalues
  obtain ⟨hnone, hcount, hresolved, hsecond, hfirst⟩ := hvalues
  obtain ⟨e, hfail⟩ := Session.exists_eq_error_of_run' hnone
  obtain ⟨r, hfound, hform⟩ := Session.exists_eq_ok_of_run' hfirst
  exact ⟨plugin, s₀, e, _, _, _, r, hopen, hfail, hcount, hresolved,
    Session.eq_ok_none_of_run' hsecond, hfound, hform⟩

end Plugin

end GamePlugin
