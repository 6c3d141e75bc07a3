import GamePlugin.Proofs.Opening

/-!
# Using an open plugin

A caller loads groups, lists records and looks things up, in any order, and goes on after a failure.
`Plugin.Reaches` says which sessions this can lead to.

All that an operation does to a session is to load single groups, to change what a block remembers
of its cells, and to count sub-blocks. So a property that loading one group keeps, and that does not
look at the rest (`Session.Stable`), holds of every session that is reached
(`Plugin.Reaches.of_stable`).

## Main definitions

* `Operation`, `Plugin.perform` — what a caller can do.
* `Operation.position?` — the position that an operation looks at.
* `Plugin.Reaches` — the sessions that this leads to.
* `Session.Stable` — a property that every operation keeps.
-/

namespace GamePlugin

/-! ## Operations -/

/-- What a caller can do with an open plugin. -/
inductive Operation where
  /-- Loads a group. -/
  | load (id : Nat) (deep : Bool)
  /-- Loads all groups. -/
  | loadAll
  /-- Lists the records with a tag. -/
  | records (tag : Tag)
  /-- Looks something up. -/
  | query (q : Query)
  /-- Finds the group of a world's children. -/
  | worldChildren (world : FormId)

/-- The position that a query looks at, if it looks at one. -/
def Query.position? : Query → Option GridPosition
  | .cell position | .land position => some position
  | .editorId _ | .cellName _ => none

/-- The position that an operation looks at, if it looks at one. -/
def Operation.position? : Operation → Option GridPosition
  | .query q => q.position?
  | .load .. | .loadAll | .records _ | .worldChildren _ => none

namespace Plugin

open Session (Step after Preserves)

/-- Does an operation. What it gives is left out. -/
def perform (p : Plugin) : Operation → Step Unit
  | .load id deep => do let _ ← Session.load id deep
  | .loadAll => p.loadAll
  | .records tag => do let _ ← p.records tag
  | .query q => do let _ ← p.query q
  | .worldChildren world => do let _ ← p.worldChildren world

/-- The sessions that operations lead to, whether they succeed or fail. -/
inductive Reaches (p : Plugin) (s : Session) : Session → Prop
  | refl : Reaches p s s
  | step {t : Session} (h : Reaches p s t) (op : Operation) : Reaches p s (after (p.perform op) t)

end Plugin

namespace Session

/-! ## What a step gives -/

section Runs

variable {α β : Type} {x : Step α} {a : α} {s t : Session}

theorem exists_eq_error_of_run' (h : (x.run' s).isNone) : ∃ e, x s = .error e (after x s) := by
  cases hx : x s with
  | ok a t =>
    change (EStateM.run' (fun _ => x s) s).isNone at h
    rw [hx] at h
    cases h
  | error e t => exact ⟨e, by rw [after_of_error hx]⟩

theorem eq_ok_of_run' (h : x.run' s = some a) : x s = .ok a (after x s) := by
  cases hx : x s with
  | ok b t =>
    change EStateM.run' (fun _ => x s) s = some a at h
    rw [hx] at h
    cases h
    rw [after_of_ok hx]
  | error e t =>
    change EStateM.run' (fun _ => x s) s = some a at h
    rw [hx] at h
    cases h

theorem run'_of_eq_ok (h : x s = .ok a t) : x.run' s = some a := by
  change EStateM.run' (fun _ => x s) s = some a
  rw [h]
  rfl

theorem exists_eq_ok_of_run' {x : Step (Option α)} {f : α → β} {b : β}
    (h : (x.run' s).bind (·.map f) = some b) : ∃ a, x s = .ok (some a) (after x s) ∧ f a = b := by
  obtain ⟨a?, hrun, ha?⟩ := Option.bind_eq_some_iff.mp h
  obtain ⟨a, rfl, ha⟩ := Option.map_eq_some_iff.mp ha?
  exact ⟨a, eq_ok_of_run' hrun, ha⟩

theorem eq_ok_none_of_run' {x : Step (Option α)} (h : (x.run' s).map (·.isNone) = some true) :
    x s = .ok none (after x s) := by
  obtain ⟨a?, hrun, hnone⟩ := Option.map_eq_some_iff.mp h
  rw [eq_ok_of_run' hrun, Option.isNone_iff_eq_none.mp hnone]

end Runs

/-! ## What operations keep -/

/-- The sessions differ only in what blocks remember of their cells and in the count of sub-blocks
that have been resolved. -/
structure Alike (s s' : Session) : Prop where
  source_eq : s'.source = s.source
  index_eq : s'.index = s.index
  size_eq : s'.groups.size = s.groups.size
  of_group? : ∀ {c g}, s'.group? c = some g → ∃ cache, s.group? c = some { g with cache }
  group?_of : ∀ {c g}, s.group? c = some g → ∃ cache, s'.group? c = some { g with cache }

/-- A property that is kept by loading a group, and that does not look at what sessions that are
alike differ in. -/
structure Stable (P : Session → Prop) : Prop where
  loadOne : ∀ id, Preserves P (loadOne id)
  alike : ∀ {s s'}, Alike s s' → P s → P s'

theorem alike_modifyCache (s : Session) (block : Nat) (f : CellCache → CellCache) :
    Alike s (s.modifyCache block f) where
  source_eq := rfl
  index_eq := rfl
  size_eq := size_modifyGroup ..
  of_group? {_ g'} hg' := by
    rw [modifyCache, group?_modifyGroup] at hg'
    split at hg'
    · obtain ⟨g, hg, rfl⟩ := Option.map_eq_some_iff.mp hg'
      exact ⟨g.cache, hg⟩
    · exact ⟨g'.cache, hg'⟩
  group?_of {_ g} hg := by
    rw [modifyCache, group?_modifyGroup, hg]
    split
    · exact ⟨f g.cache, rfl⟩
    · exact ⟨g.cache, rfl⟩

theorem alike_count (s : Session) (n : Nat) : Alike s { s with subBlocksLoaded := n } where
  source_eq := rfl
  index_eq := rfl
  size_eq := rfl
  of_group? {_ g} hg := ⟨g.cache, hg⟩
  group?_of {_ g} hg := ⟨g.cache, hg⟩

theorem Alike.trans {s s' s'' : Session} (A : Alike s s') (B : Alike s' s'') : Alike s s'' where
  source_eq := B.source_eq.trans A.source_eq
  index_eq := B.index_eq.trans A.index_eq
  size_eq := B.size_eq.trans A.size_eq
  of_group? hg := by
    obtain ⟨cache, hg⟩ := B.of_group? hg
    obtain ⟨cache', hg⟩ := A.of_group? hg
    exact ⟨cache', hg⟩
  group?_of hg := by
    obtain ⟨cache, hg⟩ := A.group?_of hg
    obtain ⟨cache', hg⟩ := B.group?_of hg
    exact ⟨cache', hg⟩

section Steps

variable {α β : Type} {P : Session → Prop}

theorem Preserves.pure (a : α) : Preserves P (Pure.pure a : Step α) := fun _ hs => hs

theorem Preserves.get : Preserves P (MonadState.get : Step Session) := fun _ hs => hs

theorem Preserves.filterM {f : α → Step Bool} (hf : ∀ a, Preserves P (f a)) (as : List α) :
    Preserves P (as.filterM f) := by
  have haux (kept : List α) : Preserves P (as.filterAuxM f kept) := by
    induction as generalizing kept with
    | nil => exact .pure kept
    | cons a as ih => exact (hf a).bind fun b => ih (cond b (a :: kept) kept)
  exact (haux []).bind fun kept => .pure kept.reverse

theorem Stable.modifyCache (H : Stable P) (block : Nat) (f : Session → CellCache → CellCache) :
    Preserves P (modify fun s => s.modifyCache block (f s) : Step Unit) :=
  fun s hs => H.alike (alike_modifyCache s block (f s)) hs

theorem Preserves.load (hone : ∀ id, Preserves P (loadOne id)) (id : Nat) (deep : Bool) :
    Preserves P (load id deep) := by
  have hread : Preserves P (do return (← MonadState.get).records id : Step (List Record)) :=
    Preserves.get.bind fun s => .pure (s.records id)
  cases deep with
  | false => exact (hone id).bind fun _ => hread
  | true =>
    exact Preserves.get.bind fun s =>
      (Preserves.loadDeep hone s.depthBound id).bind fun _ => hread

theorem Stable.absorb (H : Stable P) (block : Nat) (world : FormId) (subBlock : Nat) :
    Preserves P (absorb block world subBlock) :=
  (Preserves.load H.loadOne subBlock true).bind fun _ => H.modifyCache block _

/-- Taking from the budget does not fail; it counts one more sub-block unless the limit is
reached. -/
theorem takeBudget_eq (s : Session) :
    takeBudget s = if s.options.subBlockLimit.any (· ≤ s.subBlocksLoaded) then .ok false s
      else .ok true { s with subBlocksLoaded := s.subBlocksLoaded + 1 } := by
  have hstep : takeBudget s =
      (if s.options.subBlockLimit.any (· ≤ s.subBlocksLoaded) then Pure.pure false
        else do
          set { s with subBlocksLoaded := s.subBlocksLoaded + 1 }
          return true : Step Bool) s := rfl
  rw [hstep]
  split <;> rfl

theorem Stable.takeBudget (H : Stable P) : Preserves P takeBudget := by
  intro s hs
  have htake := takeBudget_eq s
  split at htake
  · rwa [after_of_ok htake]
  · rw [after_of_ok htake]
    exact H.alike (alike_count s _) hs

theorem Stable.resolveSubBlock (H : Stable P) (block : Nat) (p : GridPosition) :
    Preserves P (resolveSubBlock block p) := by
  refine Preserves.get.bind fun s => ?_
  split
  · exact .pure true
  · refine (H.loadOne block).bind fun _ => Preserves.get.bind fun t => ?_
    dsimp only
    split
    · exact .pure false
    · refine H.takeBudget.bind fun granted => ?_
      cases granted with
      | false => exact .pure false
      | true =>
        refine Preserves.bind (.forM (H.absorb block p.worldForm) _) fun _ => ?_
        exact (H.modifyCache block _).bind fun _ => .pure true

theorem Stable.resolveBlocks (H : Stable P) (world : Nat) (p : GridPosition) :
    Preserves P (resolveBlocks world p) :=
  (H.loadOne world).bind fun _ => Preserves.get.bind fun _ =>
    .filterM (fun block => H.resolveSubBlock block p) _

end Steps

/-! ## Sound sessions under operations -/

variable {src : Source} {tops : List GroupHeader} {ids : List Nat} {s s' : Session} {id : Nat}
  {g : GroupNode}

/-- What does not look at the cache is the same of all nodes. -/
theorem Alike.map_eq {β : Type} (A : Alike s s') {f : GroupNode → β}
    (hf : ∀ g cache, f { g with cache } = f g) (c : Nat) :
    (s'.group? c).map f = (s.group? c).map f := by
  cases hc : s.group? c with
  | some g =>
    obtain ⟨cache, hc'⟩ := A.group?_of hc
    rw [hc', Option.map_some, hf, Option.map_some]
  | none =>
    cases hc' : s'.group? c with
    | none => rfl
    | some g' =>
      obtain ⟨cache, hg⟩ := A.of_group? hc'
      rw [hc] at hg
      cases hg

theorem Alike.heldBy_eq (A : Alike s s') (owner : Option Nat) : s'.heldBy owner = s.heldBy owner :=
  heldBy_congr A.size_eq (A.map_eq fun _ _ => rfl) owner

theorem Alike.pieces_eq (A : Alike s s') (src : Source) (tops : List GroupHeader) :
    s'.pieces src tops = s.pieces src tops := by
  funext o
  cases o with
  | none => rfl
  | some c => rw [pieces, pieces, A.map_eq fun _ _ => rfl]

theorem Arena.alike {pieces : Option Nat → List GroupHeader} (H : Arena s pieces)
    (A : Alike s s') : Arena s' pieces where
  id_eq hg := by
    obtain ⟨cache, hg⟩ := A.of_group? hg
    have hself := H.id_eq hg
    exact hself
  parent_lt hg hp := by
    obtain ⟨cache, hg⟩ := A.of_group? hg
    exact H.parent_lt hg hp
  children_eq hg := by
    obtain ⟨cache, hg⟩ := A.of_group? hg
    have hchildren := H.children_eq hg
    rwa [A.heldBy_eq]
  headers_eq hg := by
    obtain ⟨cache, hg⟩ := A.of_group? hg
    have hheaders := H.headers_eq hg
    exact hheaders
  headers_ne hg := by
    obtain ⟨cache, hg⟩ := A.of_group? hg
    have hheaders := H.headers_ne hg
    exact hheaders
  unique hg hk hparent hkey := by
    obtain ⟨cache, hg⟩ := A.of_group? hg
    obtain ⟨cache', hk⟩ := A.of_group? hk
    exact H.unique hg hk hparent hkey
  covers hh := by
    obtain ⟨c, g, hg, hparent, hkey⟩ := H.covers hh
    obtain ⟨cache, hg⟩ := A.group?_of hg
    exact ⟨c, _, hg, hparent, hkey⟩
  order owner := by
    have hkey : s'.key? = s.key? := funext (A.map_eq fun _ _ => rfl)
    rw [A.heldBy_eq, hkey]
    exact H.order owner

theorem Alike.lists_eq (A : Alike s s') (c : Nat) : s'.lists c = s.lists c := by
  rw [lists, lists, A.map_eq fun _ _ => rfl]

theorem Labelled.alike (A : Alike s s') (H : Labelled s id) : Labelled s' id := by
  intro label
  have hlabel (c : Nat) : (s'.group? c).map (·.label) = (s.group? c).map (·.label) :=
    A.map_eq (fun _ _ => rfl) c
  have hany (o : Option GroupNode) :
      o.any (·.label = label) = (o.map (·.label)).any (· = label) := by
    cases o <;> rfl
  rw [A.lists_eq, H label]
  refine List.filter_congr fun c _ => ?_
  rw [hany, hany, hlabel]

theorem Rooted.alike (H : Rooted src tops ids s) (A : Alike s s') : Rooted src tops ids s' where
  source_eq := A.source_eq.trans H.source_eq
  arena := by
    rw [A.pieces_eq]
    exact H.arena.alike A
  tidy hg := by
    obtain ⟨cache, hg⟩ := A.of_group? hg
    obtain ⟨hle, hreadable, hrecords⟩ := H.tidy hg
    exact ⟨hle, hreadable, hrecords⟩
  labelled c := (H.labelled c).alike A
  heldBy_none := (A.heldBy_eq none).trans H.heldBy_none

theorem Rooted.stable : Stable (Rooted src tops ids) :=
  ⟨Rooted.preserves_loadOne, fun A H => H.alike A⟩

end Session

namespace Plugin

open Session (Step after Preserves Stable)

variable {P : Session → Prop} {p : Plugin} {s : Session}

theorem preserves_records (hone : ∀ id, Preserves P (Session.loadOne id)) (p : Plugin) (tag : Tag) :
    Preserves P (p.records tag) := by
  rw [records]
  split
  · exact .pure _
  · refine Preserves.get.bind fun s => ?_
    split
    · exact .pure _
    · exact (Preserves.load hone _ false).bind fun _ => .pure _

theorem preserves_worldChildren (hone : ∀ id, Preserves P (Session.loadOne id)) (p : Plugin)
    (world : FormId) : Preserves P (p.worldChildren world) := by
  refine Preserves.get.bind fun s => ?_
  split
  · exact .pure _
  · exact (hone _).bind fun _ => Preserves.get.bind fun _ => .pure _

theorem preserves_atPosition (H : Stable P) (p : Plugin)
    (find : Session → Nat → GridPosition → Option Record) (position : GridPosition) :
    Preserves P (p.atPosition find position) := by
  rw [atPosition]
  split
  · exact .pure _
  · refine (preserves_worldChildren H.loadOne p _).bind fun world? => ?_
    cases world? with
    | none => exact .pure _
    | some world =>
      exact (H.resolveBlocks world position).bind fun _ => Preserves.get.bind fun _ => .pure _

theorem preserves_query (hone : ∀ id, Preserves P (Session.loadOne id)) {q : Query}
    (hat : ∀ find position, q.position? = some position →
      Preserves P (p.atPosition find position)) : Preserves P (p.query q) := by
  rw [query]
  split
  · exact .pure _
  · cases q with
    | editorId name => exact Preserves.get.bind fun _ => .pure _
    | cell position => exact hat _ position rfl
    | land position => exact hat _ position rfl
    | cellName name =>
      refine Preserves.get.bind fun s => ?_
      split
      · exact Preserves.get.bind fun _ => .pure _
      · exact (Preserves.load hone _ true).bind fun _ => Preserves.get.bind fun _ => .pure _

/-- An operation keeps what single loads keep, and looking at its position if it has one. -/
theorem preserves_perform_of (hone : ∀ id, Preserves P (Session.loadOne id)) (op : Operation)
    (hat : ∀ find position, op.position? = some position →
      Preserves P (p.atPosition find position)) : Preserves P (p.perform op) := by
  cases op with
  | load id deep => exact (Preserves.load hone id deep).bind fun _ => .pure ()
  | loadAll =>
    exact .forM (fun id => (Preserves.load hone id true).bind fun _ => .pure ()) p.topGroups
  | records tag => exact (preserves_records hone p tag).bind fun _ => .pure ()
  | query q => exact (preserves_query hone hat).bind fun _ => .pure ()
  | worldChildren world => exact (preserves_worldChildren hone p world).bind fun _ => .pure ()

/-- What single loads and looking at positions keep, every operation keeps. -/
theorem preserves_perform (hone : ∀ id, Preserves P (Session.loadOne id))
    (hat : ∀ find position, Preserves P (p.atPosition find position)) (op : Operation) :
    Preserves P (p.perform op) :=
  preserves_perform_of hone op fun find position _ => hat find position

/-- What a look-up leaves is reached. -/
theorem Reaches.query {t u : Session} {q : Query} {r? : Option Record} (h : p.Reaches s t)
    (hquery : p.query q t = .ok r? u) : p.Reaches s u := by
  have hstep : after (p.perform (.query q)) t = u := Session.after_bind_of_ok hquery
  exact hstep ▸ h.step (.query q)

/-- What every operation keeps holds of all sessions that are reached. -/
theorem Reaches.of_preserves {t : Session} (h : p.Reaches s t)
    (H : ∀ op, Preserves P (p.perform op)) (hs : P s) : P t := by
  induction h with
  | refl => exact hs
  | step _ op ih => exact H op _ ih

theorem Reaches.of_stable {t : Session} (h : p.Reaches s t) (H : Stable P) (hs : P s) : P t :=
  h.of_preserves (preserves_perform H.loadOne (preserves_atPosition H p)) hs

/-- Besides soundness, operations keep what survives a load that reads something. -/
theorem Reaches.rooted_and {src : Source} {tops : List GroupHeader} {ids : List Nat} {t : Session}
    (h : p.Reaches s t) (H : Session.Rooted src tops ids s) (hs : P s)
    (hcommit : ∀ {s id g}, Session.Rooted src tops ids s → s.group? id = some g → ¬g.isLoaded →
      P s → P (s.commit id g.headers.size (Session.foundUnder src id g.waiting)))
    (halike : ∀ {s s'}, Session.Alike s s' → P s → P s') : Session.Rooted src tops ids t ∧ P t := by
  refine h.of_stable (P := fun t => Session.Rooted src tops ids t ∧ P t) ⟨?_, ?_⟩ ⟨H, hs⟩
  · rintro id s ⟨H, hs⟩
    rcases H.loadOne_cases id with
      ⟨heq, -⟩ | ⟨g, hid, hnot, hreadable, heq⟩ | ⟨g, e, -, -, heq⟩
    · rw [Session.after_of_ok heq]
      exact ⟨H, hs⟩
    · rw [Session.after_of_ok heq]
      exact ⟨H.commit hid hreadable, hcommit H hid hnot hs⟩
    · rw [Session.after_of_error heq]
      exact ⟨H, hs⟩
  · exact fun A hs => ⟨hs.1.alike A, halike A hs.2⟩

end Plugin

end GamePlugin
