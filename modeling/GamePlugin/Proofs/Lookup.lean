import GamePlugin.Proofs.Tally

/-!
# Looking at positions

Looking at a position goes down from the worlds to a world's children, to a block and to one of its
sub-blocks, and loads what it needs on the way. It succeeds exactly if all of this can be read,
whatever was done before (`Source.Resolvable`), and then gives what the block remembers at the
position. In all cases it leaves a session whose blocks remember what they should
(`Session.Faithful.leads_atPosition`). If it succeeds, as many sub-blocks were counted as resolved;
if it fails in a sub-block, that one was counted as well (`Session.Missed`).

## Main definitions

* `GridPosition.blockPath`, `GridPosition.subBlockPath` — where the cell at a position should lie.
* `Source.Resolvable` — what looking at a position has to read can be read.
* `Source.Approachable` — so far as it lies above the sub-block.
* `Plugin.blocksAt` — the blocks that looking at a position asks.
-/

namespace GamePlugin

/-! ## Positions -/

namespace GridPosition

/-- Path of the block that holds a position. -/
def blockPath (p : GridPosition) : GroupPath := .block p.worldForm p.blockKey

/-- Path of a sub-block in the block that holds a position. -/
def subBlockPath (p : GridPosition) (label : UInt32) : GroupPath :=
  .inside p.blockPath label .exteriorCellSubBlock

end GridPosition

/-! ## What looking at a position depends on -/

namespace Source

/-- All that looking at a position has to read can be read. -/
structure Resolvable (src : Source) (tops : List GroupHeader) (p : GridPosition) : Prop where
  worlds : ∀ h ∈ src.piecesAt tops (.top Tag.WRLD.code), src.Readable h
  world : ∀ h ∈ src.piecesAt tops (.world p.worldForm), src.Readable h
  block : ∀ h ∈ src.piecesAt tops p.blockPath, src.Readable h
  subBlock : ∀ h ∈ src.piecesAt tops (p.subBlockPath p.subBlockKey), src.Deep h

/-- All that looking at a position has to read above the sub-block can be read. -/
structure Approachable (src : Source) (tops : List GroupHeader) (p : GridPosition) : Prop where
  worlds : ∀ h ∈ src.piecesAt tops (.top Tag.WRLD.code), src.Readable h
  world : ∀ h ∈ src.piecesAt tops (.world p.worldForm), src.Readable h
  block : ∀ h ∈ src.piecesAt tops p.blockPath, src.Readable h

variable {src : Source} {tops : List GroupHeader} {p : GridPosition}

theorem Resolvable.approachable (R : src.Resolvable tops p) : src.Approachable tops p :=
  ⟨R.worlds, R.world, R.block⟩

theorem piecesAt_inside_eq_nil {outer : GroupPath} (h : src.piecesAt tops outer = [])
    (label : UInt32) (kind : GroupKind) : src.piecesAt tops (.inside outer label kind) = [] := by
  rw [piecesAt, h]
  rfl

/-- The payload of a group below the top comes after a header. -/
theorem position_of_mem_piecesAt {outer : GroupPath} {label : UInt32} {kind : GroupKind}
    {h : GroupHeader} (hh : h ∈ src.piecesAt tops (.inside outer label kind)) :
    src.context.schema.groupHeaderSize ≤ h.position := by
  obtain ⟨k, -, hin⟩ := List.mem_flatMap.mp (List.mem_of_mem_filter hh)
  obtain ⟨hlo, -⟩ := position_of_mem_groupsIn hin
  omega

end Source

namespace Session

variable {src : Source} {tops : List GroupHeader} {ids : List Nat} {s t : Session} {id : Nat}
  {g : GroupNode} {path : GroupPath} {label : UInt32} {kind : GroupKind} {p : GridPosition}

/-! ## Loading on the way -/

/-- What has been loaded at a path can be read. -/
theorem Sound.readable_piecesAt (H : Sound src tops s) (hat : s.At path id) (hs : Settled s id) :
    ∀ h ∈ src.piecesAt tops path, src.Readable h := by
  obtain ⟨g, hid⟩ := hat.exists_group?
  rw [← H.headers_eq_piecesAt hat hid fun q hq => hs.parent hid hq,
    ← GroupNode.done_of_isLoaded (hs.isLoaded hid)]
  exact (H.tidy hid).readable

theorem Sound.deep_piecesAt (H : Sound src tops s) (hat : s.At path id) (F : Fixed s id) :
    ∀ h ∈ src.piecesAt tops path, src.Deep h := by
  obtain ⟨g, hid⟩ := hat.exists_group?
  rw [← H.headers_eq_piecesAt hat hid fun q hq => F.settled.parent hid hq]
  exact H.deep_of_complete F.complete hid

theorem Sound.records_of_fixed (H : Sound src tops s) (hat : s.At path id) (F : Fixed s id) :
    s.records id = (src.recordsAt tops path).map (·.under (some id)) := by
  obtain ⟨g, hid⟩ := hat.exists_group?
  rw [records, hid]
  exact H.records_eq_recordsAt hat hid F.settled

/-- What a loaded node has no child for is not in the file. -/
theorem Sound.piecesAt_eq_nil (H : Sound src tops s) (hat : s.At path id) (hs : Settled s id)
    (hnone : s.childrenOfKind id label kind = []) :
    src.piecesAt tops (.inside path label kind) = [] := by
  obtain ⟨g, hid⟩ := hat.exists_group?
  rw [Source.piecesAt, List.filter_eq_nil_iff,
    ← H.headers_eq_piecesAt hat hid fun q hq => hs.parent hid hq,
    ← GroupNode.done_of_isLoaded (hs.isLoaded hid)]
  intro h hh heq
  simp only [Bool.and_eq_true, decide_eq_true_eq] at heq
  have hpiece : h ∈ s.pieces src tops (some id) := by rwa [pieces_of_group? hid]
  obtain ⟨c, k, hk, hp, hkey⟩ := H.arena.covers hpiece
  obtain ⟨hlabel, hkind⟩ := (GroupNode.key_eq_iff_of_parent hp h).mp hkey
  have hmem : c ∈ s.childrenOfKind id label kind :=
    H.mem_childrenOfKind.mpr ⟨k, hk, hp, hlabel.trans heq.1, hkind.trans heq.2⟩
  rw [hnone] at hmem
  cases hmem

/-- What a finished node has below a label and kind: one finished node, or nothing, and then the file
has nothing there either. -/
theorem Sound.childrenOfKind_cases (H : Sound src tops s) (hat : s.At path id) (F : Fixed s id)
    (label : UInt32) (kind : GroupKind) :
    (s.childrenOfKind id label kind = [] ∧
        src.piecesAt tops (.inside path label kind) = []) ∨
      ∃ c, s.childrenOfKind id label kind = [c] ∧ s.At (.inside path label kind) c ∧
        Fixed s c := by
  by_cases hempty : s.childrenOfKind id label kind = []
  · exact .inl ⟨hempty, H.piecesAt_eq_nil hat F.settled hempty⟩
  · obtain ⟨c, hc⟩ := List.exists_mem_of_ne_nil _ hempty
    exact .inr ⟨c, H.childrenOfKind_eq_singleton hc, hat.of_mem_childrenOfKind H hc,
      F.of_mem_childrenOfKind H hc⟩

/-- A node whose holder is settled. -/
def Held (s : Session) (id : Nat) : Prop :=
  ∀ g q, s.group? id = some g → g.parent = some q → Settled s q

theorem Sound.held_of_mem_childrenOfKind (H : Sound src tops s) (hs : Settled s id) {c : Nat}
    (hc : c ∈ s.childrenOfKind id label kind) : Held s c := by
  obtain ⟨k, hk, hp, -⟩ := H.mem_childrenOfKind.mp hc
  intro k' q hk' hq
  cases hk.symm.trans hk'
  cases hp.symm.trans hq
  exact hs

theorem Faithful.leads_loadOne (F : Faithful src tops ids s) (hat : s.At path id)
    (hheld : Held s id) :
    Leads (loadOne id) s
      (fun _ t => Faithful src tops ids t ∧ Loads s t ∧ Settled t id)
      (fun t => Faithful src tops ids t ∧ Loads s t ∧
        ∃ h ∈ src.piecesAt tops path, ¬src.Readable h) := by
  obtain ⟨g, hid⟩ := hat.exists_group?
  have hone := F.toRooted.leads_loadOne hid fun q hq => hheld g q hid hq
  constructor
  · intro _ t heq
    obtain ⟨-, -, hs, -⟩ := hone.ok heq
    obtain ⟨H, L⟩ := Rooted.preserves_loads s id s ⟨F.toRooted, .refl s⟩
    rw [after_of_ok heq] at H L
    exact ⟨F.upholds H L.toUpholds L.cache_eq, L, hs⟩
  · intro e t heq
    obtain ⟨rfl, h, hh, hnot⟩ := hone.error heq
    rw [F.toSound.headers_eq_piecesAt hat hid fun q hq => hheld g q hid hq] at hh
    exact ⟨F, .refl _, h, hh, hnot⟩

/-- Loading a group deep, which is at the top or below a loaded one. -/
theorem Faithful.leads_load_deep (F : Faithful src tops ids s) (hat : s.At path id)
    (hheld : Held s id)
    (hplace : ∀ h ∈ src.piecesAt tops path, src.context.schema.groupHeaderSize ≤ h.position) :
    Leads (load id true) s
      (fun rs t => Faithful src tops ids t ∧ Loads s t ∧ Fixed t id ∧ rs = t.records id)
      (fun t => Faithful src tops ids t ∧ Loads s t ∧
        ∃ h ∈ src.piecesAt tops path, ¬src.Deep h) := by
  obtain ⟨g, hid⟩ := hat.exists_group?
  have hheaders := F.toSound.headers_eq_piecesAt hat hid fun q hq => hheld g q hid hq
  have hfit : ∀ h ∈ g.headers.toList, src.room h < s.depthBound := by
    intro h hh
    have hlo := hplace h (hheaders ▸ hh)
    have himage : s.image.size = src.image.size := by rw [← F.source_eq]; rfl
    simp only [Source.room, depthBound]
    omega
  have hdeep := F.toRooted.leads_loadDeep src.room Source.room_lt_of_mem_groupsIn hid
    (fun q hq => hheld g q hid hq) hfit
  obtain ⟨H, L⟩ := Preserves.loadDeep (Rooted.preserves_loads s) s.depthBound id s
    ⟨F.toRooted, .refl s⟩
  rw [← after_load_deep] at H L
  have F' := F.upholds H L.toUpholds L.cache_eq
  constructor
  · intro rs t heq
    obtain ⟨hload, rfl⟩ := load_deep_eq_ok_iff.mp heq
    obtain ⟨-, K, hcomplete⟩ := hdeep.ok hload
    rw [after_of_ok heq] at F' L
    refine ⟨F', L, ⟨?_, hcomplete⟩, rfl⟩
    obtain ⟨g', hid', hp, -⟩ := L.stays id g hid
    have hloaded : g'.isLoaded := by
      obtain ⟨hk, hloaded, -⟩ := hcomplete
      cases hk.symm.trans hid'
      exact hloaded
    exact .intro hid' hloaded fun q hq => K.settled (hheld g q hid (hp ▸ hq))
  · intro e t heq
    rw [load_deep_eq] at heq
    split at heq
    case h_1 => cases heq
    case h_2 e' t' hload =>
      cases heq
      rw [after_load_deep, after_of_error hload] at F' L
      obtain ⟨h, hh, hnot⟩ := hdeep.error hload
      exact ⟨F', L, h, hheaders ▸ hh, hnot⟩

/-! ## Resolving -/

theorem Faithful.leads_absorb {outer : GroupPath} (F : Faithful src tops ids s) (block : Nat)
    (world : FormId) (hat : s.At (.inside outer label kind) id) (hheld : Held s id) :
    Leads (absorb block world id) s
      (fun _ t => ∃ u, Faithful src tops ids u ∧ Loads s u ∧ Fixed u id ∧
        t = u.modifyCache block fun cache => u.recollect world cache id)
      (fun t => Faithful src tops ids t ∧ Loads s t ∧
        ∃ h ∈ src.piecesAt tops (.inside outer label kind), ¬src.Deep h) := by
  refine (F.leads_load_deep hat hheld fun h => Source.position_of_mem_piecesAt).bind
    fun {rs u} h => ?_
  obtain ⟨Fu, L, hfixed, rfl⟩ := h
  exact .modified ⟨u, Fu, L, hfixed, rfl⟩

theorem leads_takeBudget {limit : Option Nat} (hlimit : s.options.subBlockLimit = limit) :
    Leads takeBudget s
      (fun granted t => granted = false ∧ t = s ∧ limit ≠ none ∨
        granted = true ∧ t = { s with subBlocksLoaded := s.subBlocksLoaded + 1 } ∧
          Charged limit s t 1 0)
      (fun _ => False) := by
  have htake := takeBudget_eq s
  rw [hlimit] at htake
  split at htake
  case isTrue hspent =>
    constructor
    · intro granted t heq
      cases htake.symm.trans heq
      exact .inl ⟨rfl, rfl, fun hnone => by simp [hnone] at hspent⟩
    · intro e t heq
      cases htake.symm.trans heq
  case isFalse hleft =>
    constructor
    · intro granted t heq
      cases htake.symm.trans heq
      exact .inr ⟨rfl, rfl, charged_count hleft⟩
    · intro e t heq
      cases htake.symm.trans heq

theorem any_resolved_iff (s : Session) (id : Nat) (key : UInt32) :
    (s.group? id).any (·.cache.resolved.contains key) ↔ key ∈ (s.cache id).resolved := by
  rw [cache]
  cases s.group? id <;> simp

/-- The sub-blocks that a block has resolved are finished, and so is the block. -/
theorem Faithful.recalls_of_mem (F : Faithful src tops ids s) (hat : s.At p.blockPath id)
    {key : UInt32} (hkey : key ∈ (s.cache id).resolved) : Recalls s id p.worldForm := by
  rcases F.recalls id with hempty | ⟨world, R⟩
  · simp [hempty] at hkey
  · obtain ⟨label, hat'⟩ := R.place
    rwa [hat.world_eq hat']

/-- What resolving a sub-block leads to. -/
structure Resolved (src : Source) (tops : List GroupHeader) (p : GridPosition) (block : Nat)
    (s : Session) (found : Bool) (t : Session) : Prop extends Upholds s t where
  settled : Settled t block
  paid : ∃ n, Charged src.options.subBlockLimit s t n n
  resolved : found = true → p.subBlockKey ∈ (t.cache block).resolved
  deep : src.options.subBlockLimit = none →
    ∀ h ∈ src.piecesAt tops (p.subBlockPath p.subBlockKey), src.Deep h
  absent : src.options.subBlockLimit = none → found = false →
    src.piecesAt tops (p.subBlockPath p.subBlockKey) = []

/-- How looking at a position fails: above the sub-block, and nothing was counted, or in it, and it
was counted. -/
inductive Missed (src : Source) (tops : List GroupHeader) (p : GridPosition) (s t : Session) : Prop
  | above (C : Charged src.options.subBlockLimit s t 0 0) (hnot : ¬src.Approachable tops p)
  | inside (C : Charged src.options.subBlockLimit s t 1 0) (happroach : src.Approachable tops p)
      {h : GroupHeader} (hh : h ∈ src.piecesAt tops (p.subBlockPath p.subBlockKey))
      (hnot : ¬src.Deep h)

theorem Missed.not_resolvable (M : Missed src tops p s t) : ¬src.Resolvable tops p := by
  intro R
  cases M with
  | above _ hnot => exact hnot R.approachable
  | inside _ _ hh hnot => exact hnot (R.subBlock _ hh)

theorem Missed.of_loads {u : Session} (L : Loads s u) (M : Missed src tops p u t) :
    Missed src tops p s t := by
  have hcharge {a b : Nat} (C : Charged src.options.subBlockLimit u t a b) :
      Charged src.options.subBlockLimit s t a b := by
    simpa only [Nat.zero_add] using (L.charged _).trans C
  cases M with
  | above C hnot => exact .above (hcharge C) hnot
  | inside C happroach hh hnot => exact .inside (hcharge C) happroach hh hnot

/-- Resolving a sub-block that its block has found. -/
theorem Faithful.leads_resolve (F : Faithful src tops ids s) {block c : Nat}
    (hat : s.At p.blockPath block) (hs : Settled s block)
    (hc : s.childrenOfKind block p.subBlockKey .exteriorCellSubBlock = [c])
    (hnew : p.subBlockKey ∉ (s.cache block).resolved) :
    Leads (do
        [c].forM (absorb block p.worldForm)
        modify (·.modifyCache block fun cache =>
          { cache with resolved := p.subBlockKey :: cache.resolved })
        return true) s
      (fun found t => found = true ∧ Faithful src tops ids t ∧ Upholds s t ∧
        Charged src.options.subBlockLimit s t 0 1 ∧ p.subBlockKey ∈ (t.cache block).resolved ∧
        ∀ h ∈ src.piecesAt tops (p.subBlockPath p.subBlockKey), src.Deep h)
      (fun t => Faithful src tops ids t ∧ Loads s t ∧
        ∃ h ∈ src.piecesAt tops (p.subBlockPath p.subBlockKey), ¬src.Deep h) := by
  have hmem : c ∈ s.childrenOfKind block p.subBlockKey .exteriorCellSubBlock :=
    hc ▸ List.mem_singleton_self c
  have hatc : s.At (p.subBlockPath p.subBlockKey) c := hat.of_mem_childrenOfKind F.toSound hmem
  have hheld := F.toSound.held_of_mem_childrenOfKind hs hmem
  refine (F.leads_absorb block p.worldForm hatc hheld).forM_singleton.bind fun {_ t} h => ?_
  obtain ⟨u, Fu, L, hfixed, rfl⟩ := h
  refine Leads.modify_bind (.pure ?_)
  -- nothing else was remembered while the sub-block was loaded
  have hnew' : p.subBlockKey ∉ (u.cache block).resolved := L.cache_eq block ▸ hnew
  have hat' := L.stays.at hat
  have hs' := L.keeps.settled hs
  have hc' := (L.childrenOfKind_eq F.toSound hs ..).trans hc
  have U := (alike_resolve u block p.worldForm p.subBlockKey c).upholds
  obtain ⟨g, hid⟩ := hat'.exists_group?
  have hresolved : p.subBlockKey ∈
      ((u.resolve block p.worldForm p.subBlockKey c).cache block).resolved := by
    rw [cache_resolve hid, if_pos rfl]
    exact List.mem_cons_self
  exact ⟨rfl, Fu.resolve hat' hs' hc' hfixed hnew', L.toUpholds.trans U,
    (L.charged _).trans (charged_resolve hid ..), hresolved,
    Fu.toSound.deep_piecesAt (L.stays.at hatc) hfixed⟩

/-- **Resolving a sub-block.** It fails only if something in its block or below it cannot be
read. -/
theorem Faithful.leads_resolveSubBlock (F : Faithful src tops ids s) {block : Nat}
    (hat : s.At p.blockPath block) (hheld : Held s block)
    (hworlds : ∀ h ∈ src.piecesAt tops (.top Tag.WRLD.code), src.Readable h)
    (hworld : ∀ h ∈ src.piecesAt tops (.world p.worldForm), src.Readable h) :
    Leads (resolveSubBlock block p) s
      (fun found t => Faithful src tops ids t ∧ Resolved src tops p block s found t)
      (fun t => Faithful src tops ids t ∧ Missed src tops p s t) := by
  refine Leads.get_bind ?_
  by_cases hkey : p.subBlockKey ∈ (s.cache block).resolved
  · rw [if_pos ((any_resolved_iff ..).mpr hkey)]
    have R := F.recalls_of_mem hat hkey
    obtain ⟨c, hc, hfixed⟩ := R.fixed _ hkey
    have hatc : s.At (p.subBlockPath p.subBlockKey) c :=
      hat.of_mem_childrenOfKind F.toSound (hc ▸ List.mem_singleton_self c)
    exact .pure ⟨F, .refl s, R.settled, ⟨0, (Loads.refl s).charged _⟩, fun _ => hkey,
      fun _ => F.toSound.deep_piecesAt hatc hfixed, nofun⟩
  rw [if_neg fun h => hkey ((any_resolved_iff ..).mp h)]
  have hfail {t : Session} (h : Faithful src tops ids t ∧ Loads s t ∧
      ∃ h ∈ src.piecesAt tops p.blockPath, ¬src.Readable h) :
      Faithful src tops ids t ∧ Missed src tops p s t := by
    obtain ⟨Ft, L, h, hh, hnot⟩ := h
    exact ⟨Ft, .above (L.charged _) fun A => hnot (A.block h hh)⟩
  refine ((F.leads_loadOne hat hheld).imp (fun h => h) hfail).bind fun {_ s₁} h₁ =>
    Leads.get_bind ?_
  obtain ⟨F₁, L, hs⟩ := h₁
  have hat₁ := L.stays.at hat
  have happroach : src.Approachable tops p :=
    ⟨hworlds, hworld, F₁.toSound.readable_piecesAt hat₁ hs⟩
  dsimp only
  by_cases hempty : s₁.childrenOfKind block p.subBlockKey .exteriorCellSubBlock = []
  · rw [if_pos (List.isEmpty_iff.mpr hempty)]
    have hnil : src.piecesAt tops (p.subBlockPath p.subBlockKey) = [] :=
      F₁.toSound.piecesAt_eq_nil hat₁ hs hempty
    exact .pure ⟨F₁, L.toUpholds, hs, ⟨0, L.charged _⟩, nofun, fun _ => by simp [hnil],
      fun _ _ => hnil⟩
  rw [if_neg fun h => hempty (List.isEmpty_iff.mp h)]
  obtain ⟨c, hc⟩ := List.exists_mem_of_ne_nil _ hempty
  have hsingle := F₁.toSound.childrenOfKind_eq_singleton hc
  rw [hsingle]
  have hlimit : s₁.options.subBlockLimit = src.options.subBlockLimit :=
    congrArg (·.options.subBlockLimit) F₁.source_eq
  refine ((leads_takeBudget hlimit).imp (fun h => h) False.elim).bind fun {granted s₂} h₂ => ?_
  obtain ⟨rfl, rfl, hsome⟩ | ⟨rfl, rfl, C⟩ := h₂
  · exact .pure ⟨F₁, L.toUpholds, hs, ⟨0, L.charged _⟩, nofun, fun hnone => absurd hnone hsome,
      fun hnone => absurd hnone hsome⟩
  · have A := alike_count s₁ (s₁.subBlocksLoaded + 1)
    have U := A.upholds
    have F₂ := F₁.upholds (F₁.toRooted.alike A) U fun _ => rfl
    have hnew : p.subBlockKey ∉ (s₁.cache block).resolved := by
      rwa [L.cache_eq]
    have hcount := (L.charged src.options.subBlockLimit).trans C
    refine (F₂.leads_resolve (U.stays.at hat₁) (U.keeps.settled hs)
      ((U.childrenOfKind_eq F₁.toSound hs ..).trans hsingle) hnew).imp (fun h => ?_) fun h => ?_
    · obtain ⟨rfl, Ft, V, D, hresolved, hdeep⟩ := h
      exact ⟨Ft, L.toUpholds.trans (U.trans V), V.keeps.settled (U.keeps.settled hs),
        ⟨1, hcount.trans D⟩, fun _ => hresolved, fun _ => hdeep, nofun⟩
    · obtain ⟨Ft, M, h, hh, hnot⟩ := h
      exact ⟨Ft, .inside (hcount.trans (M.charged _)) happroach hh hnot⟩

/-- What a world's blocks can say about a position: nothing, if the file has no sub-block for it, or
what the one block remembers that has resolved the sub-block. -/
def Asked (src : Source) (tops : List GroupHeader) (p : GridPosition) (blocks : List Nat)
    (t : Session) : Prop :=
  (src.options.subBlockLimit = none → src.Resolvable tops p) ∧
    (blocks = [] ∧ (src.options.subBlockLimit = none →
        src.piecesAt tops (p.subBlockPath p.subBlockKey) = []) ∨
      ∃ block, blocks = [block] ∧ t.At p.blockPath block ∧
        p.subBlockKey ∈ (t.cache block).resolved)

/-- Resolving the blocks of a world: there is one at most. -/
theorem Faithful.leads_resolveBlocks (F : Faithful src tops ids s) {world : Nat}
    (hat : s.At (.world p.worldForm) world) (hheld : Held s world)
    (hworlds : ∀ h ∈ src.piecesAt tops (.top Tag.WRLD.code), src.Readable h) :
    Leads (resolveBlocks world p) s
      (fun blocks t => Faithful src tops ids t ∧
        (∃ n, Charged src.options.subBlockLimit s t n n) ∧ Asked src tops p blocks t)
      (fun t => Faithful src tops ids t ∧ Missed src tops p s t) := by
  have hfail {t : Session} (h : Faithful src tops ids t ∧ Loads s t ∧
      ∃ h ∈ src.piecesAt tops (.world p.worldForm), ¬src.Readable h) :
      Faithful src tops ids t ∧ Missed src tops p s t := by
    obtain ⟨Ft, L, h, hh, hnot⟩ := h
    exact ⟨Ft, .above (L.charged _) fun A => hnot (A.world h hh)⟩
  refine ((F.leads_loadOne hat hheld).imp (fun h => h) hfail).bind fun {_ s₁} h₁ =>
    Leads.get_bind ?_
  obtain ⟨F₁, L, hs⟩ := h₁
  have hat₁ := L.stays.at hat
  have hworld := F₁.toSound.readable_piecesAt hat₁ hs
  by_cases hempty : s₁.childrenOfKind world p.blockKey .exteriorCellBlock = []
  · rw [hempty]
    have hblock : src.piecesAt tops p.blockPath = [] :=
      F₁.toSound.piecesAt_eq_nil hat₁ hs hempty
    have hsub : src.piecesAt tops (p.subBlockPath p.subBlockKey) = [] :=
      Source.piecesAt_inside_eq_nil hblock ..
    refine .pure ⟨F₁, ⟨0, L.charged _⟩, fun _ => ⟨hworlds, hworld, ?_, ?_⟩,
      .inl ⟨rfl, fun _ => hsub⟩⟩
    · simp [hblock]
    · simp [hsub]
  obtain ⟨block, hmem⟩ := List.exists_mem_of_ne_nil _ hempty
  rw [F₁.toSound.childrenOfKind_eq_singleton hmem]
  have hatb : s₁.At p.blockPath block := hat₁.of_mem_childrenOfKind F₁.toSound hmem
  have hheldb := F₁.toSound.held_of_mem_childrenOfKind hs hmem
  have hresolve := F₁.leads_resolveSubBlock hatb hheldb hworlds hworld
  refine (Leads.filterM_singleton (f := (resolveSubBlock · p)) hresolve).imp (fun {_ t} h => ?_)
    fun h => ⟨h.1, h.2.of_loads L⟩
  obtain ⟨found, ⟨Ft, R⟩, rfl⟩ := h
  have hatt := R.stays.at hatb
  have hblock := Ft.toSound.readable_piecesAt hatt R.settled
  obtain ⟨n, C⟩ := R.paid
  have hpaid : Charged src.options.subBlockLimit s t n n := by
    simpa only [Nat.zero_add] using (L.charged _).trans C
  refine ⟨Ft, ⟨n, hpaid⟩, fun hnone => ⟨hworlds, hworld, hblock, R.deep hnone⟩, ?_⟩
  cases found with
  | false => exact .inl ⟨rfl, fun hnone => R.absent hnone rfl⟩
  | true => exact .inr ⟨block, rfl, hatt, R.resolved rfl⟩

/-- The group at the top with a label, if there is one. -/
theorem Rooted.topGroup?_cases {plugin : Plugin} (H : Rooted src tops plugin.topGroups s)
    (tag : Tag) :
    (plugin.topGroup? s tag = none ∧ src.piecesAt tops (.top tag.code) = []) ∨
      ∃ id, plugin.topGroup? s tag = some id ∧ s.At (.top tag.code) id ∧ Held s id := by
  have htop {c : Nat} : c ∈ plugin.topGroups ↔ ∃ g, s.group? c = some g ∧ g.parent = none := by
    rw [← H.heldBy_none, mem_heldBy]
  cases hfind : plugin.topGroup? s tag with
  | none =>
    refine .inl ⟨rfl, List.filter_eq_nil_iff.mpr fun h hh hlabel => ?_⟩
    obtain ⟨c, g, hc, hp, hkey⟩ := H.arena.covers (show h ∈ s.pieces src tops none from hh)
    have hno := List.find?_eq_none.mp hfind c (htop.mpr ⟨g, hc, hp⟩)
    rw [hc] at hno
    have heq := (GroupNode.key_eq_iff_of_top hp h).mp hkey
    exact hno (decide_eq_true (heq.trans (of_decide_eq_true hlabel)))
  | some id =>
    obtain ⟨g, hid, hp⟩ := htop.mp (List.mem_of_find?_eq_some hfind)
    have hlabel := List.find?_some hfind
    rw [hid] at hlabel
    refine .inr ⟨id, rfl, ⟨g, hid, hp, of_decide_eq_true hlabel⟩, fun g' q hid' hq => ?_⟩
    cases hid.symm.trans hid'
    cases hp.symm.trans hq

/-- Finding the group of a world's children. -/
theorem Faithful.leads_worldChildren {plugin : Plugin}
    (F : Faithful src tops plugin.topGroups s) (world : FormId) :
    Leads (plugin.worldChildren world) s
      (fun found t => Faithful src tops plugin.topGroups t ∧ Loads s t ∧
        (∀ h ∈ src.piecesAt tops (.top Tag.WRLD.code), src.Readable h) ∧
        (found = none → src.piecesAt tops (.world world) = []) ∧
        ∀ c, found = some c → t.At (.world world) c ∧ Held t c)
      (fun t => Faithful src tops plugin.topGroups t ∧ Loads s t ∧
        ∃ h ∈ src.piecesAt tops (.top Tag.WRLD.code), ¬src.Readable h) := by
  refine Leads.get_bind ?_
  rcases F.toRooted.topGroup?_cases .WRLD with ⟨hnone, hnil⟩ | ⟨worlds, hsome, hat, hheld⟩
  · rw [hnone]
    refine .pure ⟨F, .refl s, by simp [hnil], fun _ => ?_, nofun⟩
    exact Source.piecesAt_inside_eq_nil hnil ..
  · rw [hsome]
    refine (F.leads_loadOne hat hheld).bind fun {_ t} h => Leads.get_bind (.pure ?_)
    obtain ⟨Ft, L, hs⟩ := h
    have hat' := L.stays.at hat
    refine ⟨Ft, L, Ft.toSound.readable_piecesAt hat' hs, fun hhead => ?_, fun c hhead => ?_⟩
    · exact Ft.toSound.piecesAt_eq_nil hat' hs (List.head?_eq_none_iff.mp hhead)
    · have hc := List.mem_of_head? hhead
      exact ⟨hat'.of_mem_childrenOfKind Ft.toSound hc,
        Ft.toSound.held_of_mem_childrenOfKind hs hc⟩

end Session

/-! ## Asking blocks -/

namespace Plugin

open Session (Step)

/-- The blocks that have resolved the sub-block for a position. -/
def blocksAt (p : Plugin) (position : GridPosition) : Step (List Nat) := do
  if position.isInterior then return []
  else
    match ← p.worldChildren position.worldForm with
    | none => return []
    | some world => Session.resolveBlocks world position

theorem blocksAt_interior (p : Plugin) {position : GridPosition} (h : position.isInterior)
    (s : Session) : p.blocksAt position s = .ok [] s := by
  rw [blocksAt, if_pos h]
  rfl

/-- Looking at a position asks the blocks, and changes nothing after that. -/
theorem atPosition_eq (p : Plugin) (find : Session → Nat → GridPosition → Option Record)
    (position : GridPosition) :
    p.atPosition find position = do
      let blocks ← p.blocksAt position
      let s ← get
      return blocks.findSome? (find s · position) := by
  rw [atPosition, blocksAt]
  split
  · rfl
  · rw [bind_assoc]
    refine bind_congr fun world? => ?_
    cases world? <;> rfl

end Plugin

namespace Session

variable {src : Source} {tops : List GroupHeader} {s : Session} {p : GridPosition}

/-- **Asking the blocks for a position.** It fails only if something that has to be read cannot be
read, and otherwise as many sub-blocks are counted as resolved. -/
theorem Faithful.leads_blocksAt {plugin : Plugin} (F : Faithful src tops plugin.topGroups s)
    (hp : p.isInterior = false) :
    Leads (plugin.blocksAt p) s
      (fun blocks t => Faithful src tops plugin.topGroups t ∧
        (∃ n, Charged src.options.subBlockLimit s t n n) ∧ Asked src tops p blocks t)
      (fun t => Faithful src tops plugin.topGroups t ∧ Missed src tops p s t) := by
  rw [Plugin.blocksAt, if_neg (by simp [hp])]
  have hfail {t : Session} (h : Faithful src tops plugin.topGroups t ∧ Loads s t ∧
      ∃ h ∈ src.piecesAt tops (.top Tag.WRLD.code), ¬src.Readable h) :
      Faithful src tops plugin.topGroups t ∧ Missed src tops p s t := by
    obtain ⟨Ft, L, h, hh, hnot⟩ := h
    exact ⟨Ft, .above (L.charged _) fun A => hnot (A.worlds h hh)⟩
  refine ((F.leads_worldChildren p.worldForm).imp (fun h => h) hfail).bind fun {found t} h => ?_
  obtain ⟨Ft, L, hworlds, hnone, hsome⟩ := h
  cases found with
  | none =>
    have hworld := hnone rfl
    have hblock : src.piecesAt tops p.blockPath = [] :=
      Source.piecesAt_inside_eq_nil hworld ..
    have hsub : src.piecesAt tops (p.subBlockPath p.subBlockKey) = [] :=
      Source.piecesAt_inside_eq_nil hblock ..
    refine .pure ⟨Ft, ⟨0, L.charged _⟩, fun _ => ⟨hworlds, ?_, ?_, ?_⟩, .inl ⟨rfl, fun _ => hsub⟩⟩
    · simp [hworld]
    · simp [hblock]
    · simp [hsub]
  | some world =>
    obtain ⟨hat, hheld⟩ := hsome world rfl
    refine (Ft.leads_resolveBlocks hat hheld hworlds).imp (fun h => ?_)
      fun h => ⟨h.1, h.2.of_loads L⟩
    obtain ⟨Fu, ⟨n, C⟩, hasked⟩ := h
    refine ⟨Fu, ⟨n, ?_⟩, hasked⟩
    simpa only [Nat.zero_add] using (L.charged _).trans C

/-- **Looking at a position.** It fails only if something that it has to read cannot be read. If it
gives nothing, the file has no sub-block for the position; otherwise it gives what a block remembers
that has resolved the sub-block. -/
theorem Faithful.leads_atPosition {plugin : Plugin} (F : Faithful src tops plugin.topGroups s)
    (find : Session → Nat → GridPosition → Option Record) (hp : p.isInterior = false) :
    Leads (plugin.atPosition find p) s
      (fun r? t => Faithful src tops plugin.topGroups t ∧
        (src.options.subBlockLimit = none → src.Resolvable tops p) ∧
        (r? = none ∧ (src.options.subBlockLimit = none →
            src.piecesAt tops (p.subBlockPath p.subBlockKey) = []) ∨
          ∃ block, r? = find t block p ∧ t.At p.blockPath block ∧
            p.subBlockKey ∈ (t.cache block).resolved))
      (fun t => Faithful src tops plugin.topGroups t ∧ ¬src.Resolvable tops p) := by
  rw [Plugin.atPosition_eq]
  refine ((F.leads_blocksAt hp).imp (fun h => h) fun h => ⟨h.1, h.2.not_resolvable⟩).bind
    fun {blocks t} h => Leads.get_bind (.pure ?_)
  obtain ⟨Ft, -, hresolvable, ⟨rfl, hnil⟩ | ⟨block, rfl, hblock, hkey⟩⟩ := h
  · exact ⟨Ft, hresolvable, .inl ⟨rfl, hnil⟩⟩
  · refine ⟨Ft, hresolvable, .inr ⟨block, ?_, hblock, hkey⟩⟩
    cases hfind : find t block p <;> simp [hfind]

theorem Faithful.preserves_atPosition (plugin : Plugin)
    (find : Session → Nat → GridPosition → Option Record) (p : GridPosition) :
    Preserves (Faithful src tops plugin.topGroups) (plugin.atPosition find p) := by
  intro s F
  cases hp : p.isInterior with
  | true =>
    rw [Plugin.atPosition, if_pos hp]
    exact F
  | false => exact ((F.leads_atPosition find hp).imp And.left And.left).after

end Session

end GamePlugin
