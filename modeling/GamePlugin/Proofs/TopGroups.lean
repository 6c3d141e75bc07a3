import GamePlugin.Proofs.Framing
import GamePlugin.Proofs.Representation

/-!
# Which pieces make up a top group

A group that comes in several pieces is one node with several headers. Inside of a group, pieces
belong together if they have the same label and the same kind. At the top of the file only the label
counts: pieces of different kinds end up on one node, which has the kind of the first of them
(`Plugin.top_groups_gathered`).

So the top is gathered like the rest of a file (`Session.GathersByKind`) exactly if no two groups
there have the same label and different kinds.

## Main definitions

* `Session.Shares` — two headers are on one node at the top.
* `Session.GathersByKind` — the nodes at the top are gathered by label and kind.
-/

namespace GamePlugin

namespace Session

variable {src : Source} {tops : List GroupHeader} {ids : List Nat} {s s' : Session} {id : Nat}
  {g : GroupNode} {h k : GroupHeader}

/-- Two headers are on one node at the top. -/
def Shares (s : Session) (h k : GroupHeader) : Prop :=
  ∃ id g, s.group? id = some g ∧ g.parent = none ∧ h ∈ g.headers.toList ∧ k ∈ g.headers.toList

/-- The nodes at the top are gathered from the given headers by label and kind. -/
structure GathersByKind (s : Session) (tops : List GroupHeader) : Prop where
  label_eq : ∀ id g, s.group? id = some g → g.parent = none → ∀ h ∈ g.headers.toList,
    h.label = g.label
  kind_eq : ∀ id g, s.group? id = some g → g.parent = none → ∀ h ∈ g.headers.toList,
    h.kind = g.kind
  shares_iff : ∀ h ∈ tops, ∀ k ∈ tops, s.Shares h k ↔ h.label = k.label ∧ h.kind = k.kind

/-! ## The first piece -/

/-- A node at the top has the kind of its first header. -/
def Founded (g : GroupNode) : Prop :=
  g.parent = none → ∃ h, [h] <+: g.headers.toList ∧ h.kind = g.kind

/-- Headers that come later leave the first one. -/
theorem Founded.extends {owner : Option Nat} {g' : GroupNode} (F : Founded g)
    (E : Extends owner g g') : Founded g' := by
  intro hp
  obtain ⟨h, hfirst, hkind⟩ := F (E.parent.symm.trans hp)
  exact ⟨h, hfirst.trans E.headers, hkind.trans E.kind.symm⟩

theorem founded_freshNode (id : Nat) (owner : Option Nat) (h : GroupHeader) :
    Founded (freshNode id owner h) := fun _ => ⟨h, List.prefix_refl _, rfl⟩

/-- All nodes at the top have the kinds of their first headers. -/
def AllFounded (s : Session) : Prop := ∀ c g, s.group? c = some g → Founded g

theorem AllFounded.place (P : Place s none h s') (F : AllFounded s) : AllFounded s' := by
  have howner : ∀ p, none = some p → p < s.groups.size := fun p hp => by cases hp
  intro c g' hg'
  cases hg : s.group? c with
  | some g =>
    obtain ⟨k, hk, E⟩ := (P.grows howner).extends_of hg
    cases hk.symm.trans hg'
    exact (F c g hg).extends E
  | none =>
    cases P with
    | piece =>
      rw [pushHeader, group?_modifyGroup, hg, Option.map_none, ite_self] at hg'
      cases hg'
    | fresh =>
      obtain ⟨-, rfl⟩ | ⟨g, hsome, -⟩ := link_addGroup_cases howner hg'
      · exact founded_freshNode c none h
      · cases hg.symm.trans hsome

theorem AllFounded.commit (R : Rooted src tops ids s) (hid : s.group? id = some g)
    (F : AllFounded s) :
    AllFounded (s.commit id g.headers.size (foundUnder src id g.waiting)) := by
  intro c k' hk'
  rcases R.commit_cases hid hk' with ⟨-, E, -⟩ | ⟨k, -, hk, E⟩ | ⟨-, hheld, -⟩
  · have hrecorded : Founded (g.recorded g.headers.size (foundUnder src id g.waiting).records) :=
      F id g hid
    exact hrecorded.extends E
  · exact (F c k hk).extends E
  · intro hp
    cases hp.symm.trans hheld

theorem AllFounded.alike (A : Alike s s') (F : AllFounded s) : AllFounded s' := by
  intro c g hg
  obtain ⟨cache, hg⟩ := A.of_group? hg
  exact F c { g with cache } hg

/-! ## Pieces of one node -/

/-- A node at the top has the headers at the top that have its label. -/
theorem Sound.headers_top (H : Sound src tops s) (hid : s.group? id = some g)
    (hp : g.parent = none) : g.headers.toList = tops.filter (·.label = g.label) := by
  rw [H.arena.headers_eq hid, hp]
  refine List.filter_congr fun h _ => ?_
  rw [decide_eq_decide, eq_comm, GroupNode.key_eq_iff_of_top hp, eq_comm]

theorem Sound.mem_headers_top_iff (H : Sound src tops s) (hid : s.group? id = some g)
    (hp : g.parent = none) : h ∈ g.headers.toList ↔ h ∈ tops ∧ h.label = g.label := by
  rw [H.headers_top hid hp, List.mem_filter, decide_eq_true_eq]

theorem Sound.shares_iff (H : Sound src tops s) (hh : h ∈ tops) (hk : k ∈ tops) :
    s.Shares h k ↔ h.label = k.label := by
  constructor
  · rintro ⟨id, g, hid, hp, hh, hk⟩
    rw [H.mem_headers_top_iff hid hp] at hh hk
    exact hh.2.trans hk.2.symm
  · intro hlabel
    have hpiece : h ∈ s.pieces src tops none := hh
    obtain ⟨id, g, hid, hp, hkey⟩ := H.arena.covers hpiece
    have hg := (GroupNode.key_eq_iff_of_top hp h).mp hkey
    refine ⟨id, g, hid, hp, ?_, ?_⟩
    · exact (H.mem_headers_top_iff hid hp).mpr ⟨hh, hg.symm⟩
    · exact (H.mem_headers_top_iff hid hp).mpr ⟨hk, hlabel.symm.trans hg.symm⟩

/-- The kind of a node at the top is that of the first header at the top with its label. -/
theorem Sound.kind_top (H : Sound src tops s) (F : AllFounded s) (hid : s.group? id = some g)
    (hp : g.parent = none) : (tops.find? (·.label = g.label)).map (·.kind) = some g.kind := by
  obtain ⟨h, ⟨hs, hfirst⟩, hkind⟩ := F id g hid hp
  rw [H.headers_top hid hp] at hfirst
  rw [← List.head?_filter, ← hfirst]
  simp [hkind]

/-- Nodes at the top are gathered by label and kind in a file where the label says the kind. -/
theorem Sound.gathersByKind_iff (H : Sound src tops s) (F : AllFounded s) :
    s.GathersByKind tops ↔ ∀ h ∈ tops, ∀ k ∈ tops, h.label = k.label → h.kind = k.kind := by
  constructor
  · intro G h hh k hk hlabel
    exact ((G.shares_iff h hh k hk).mp ((H.shares_iff hh hk).mpr hlabel)).2
  · intro hkinds
    constructor
    case label_eq =>
      intro id g hid hp h hh
      exact ((H.mem_headers_top_iff hid hp).mp hh).2
    case kind_eq =>
      intro id g hid hp h hh
      obtain ⟨k, hfirst, hkind⟩ := F id g hid hp
      have hk : k ∈ g.headers.toList := hfirst.subset (List.mem_singleton_self k)
      rw [H.mem_headers_top_iff hid hp] at hh hk
      rw [← hkind]
      exact hkinds h hh.1 k hk.1 (hh.2.trans hk.2.symm)
    case shares_iff =>
      intro h hh k hk
      rw [H.shares_iff hh hk]
      exact ⟨fun hlabel => ⟨hlabel, hkinds h hh k hk hlabel⟩, And.left⟩

/-- Further down, pieces of one node have its label and its kind. -/
theorem Sound.label_kind_of_held {p : Nat} (H : Sound src tops s) (hid : s.group? id = some g)
    (hp : g.parent = some p) (hh : h ∈ g.headers.toList) : h.label = g.label ∧ h.kind = g.kind := by
  obtain ⟨k, hk⟩ := group?_of_lt (Nat.lt_trans (H.arena.parent_lt hid hp) (lt_of_group? hid))
  exact (H.mem_groupsIn_of_held hid hp hk hh).2

end Session

namespace Plugin

variable {image : Image} {options : Options} {length? : Option Nat} {plugin : Plugin}
  {s₀ s : Session}

theorem allFounded_of_reaches (hopen : open? image options length? = .ok (plugin, s₀))
    (hgroups : s₀.context.schema.hasGroups) (hreach : plugin.Reaches s₀ s) :
    Session.Rooted s₀.source (plugin.tops s₀) plugin.topGroups s ∧ s.AllFounded := by
  obtain ⟨-, -, -, R⟩ := rooted_tops_of_open? hopen hgroups
  have F : s₀.AllFounded := by
    refine of_open?_of_hasGroups hopen hgroups ?_
      (of_registerTop .place fun R hid _ => .commit R hid)
    intro c g hg
    simp [Session.group?] at hg
  exact hreach.rooted_and R F (fun R hid _ => .commit R hid) .alike

/-- **Pieces at the top belong together if they have the same label.** The headers of a node at the
top are those of all groups of the file outside of other groups that have its label, in file order,
whatever their kinds; the node has the kind of the first of them. Further down, headers on one node
have its label and its kind. So the top is gathered by label and kind, too, exactly if groups with
the same label there have the same kind. -/
theorem top_groups_gathered (hopen : open? image options length? = .ok (plugin, s₀))
    (hgroups : s₀.context.schema.hasGroups) (hreach : plugin.Reaches s₀ s) :
    ∃ cs tops, Chunk.Trail image s₀.context.schema (length?.getD image.size) cs
        plugin.root.header.stop ∧ tops = cs.filterMap Chunk.group? ∧
      (∀ id g, s.group? id = some g → g.parent = none →
        g.headers.toList = tops.filter (·.label = g.label) ∧
        (tops.find? (·.label = g.label)).map (·.kind) = some g.kind) ∧
      (∀ h ∈ tops, ∀ k ∈ tops, s.Shares h k ↔ h.label = k.label) ∧
      (∀ id g p, s.group? id = some g → g.parent = some p → ∀ h ∈ g.headers.toList,
        h.label = g.label ∧ h.kind = g.kind) ∧
      (s.GathersByKind tops ↔ ∀ h ∈ tops, ∀ k ∈ tops, h.label = k.label → h.kind = k.kind) := by
  obtain ⟨cs, htrail, htops, -⟩ := exists_trail_of_hasGroups hopen hgroups
  obtain ⟨R, F⟩ := allFounded_of_reaches hopen hgroups hreach
  refine ⟨cs, plugin.tops s₀, htrail, htops, ?_, ?_, ?_, R.toSound.gathersByKind_iff F⟩
  · exact fun id g hid hp => ⟨R.toSound.headers_top hid hp, R.toSound.kind_top F hid hp⟩
  · exact fun h hh k hk => R.toSound.shares_iff hh hk
  · exact fun id g p hid hp h hh => R.toSound.label_kind_of_held hid hp hh

/-- Two groups of different kinds are on the node of the first one. -/
theorem top_groups_gathered_mixedCells :
    ∃ plugin s₀ g cs tops,
      open? mixedCells { edition := some .oblivion } none = .ok (plugin, s₀) ∧
      s₀.context.schema.hasGroups ∧ plugin.Reaches s₀ s₀ ∧
      Chunk.Trail mixedCells s₀.context.schema mixedCells.size cs plugin.root.header.stop ∧
      tops = cs.filterMap Chunk.group? ∧ s₀.group? 0 = some g ∧ g.parent = none ∧
      g.headers.toList = tops.filter (·.label = g.label) ∧
      g.headers.toList.map (·.kind) = [.top, .interiorCellBlock] ∧ g.kind = .top ∧
      ¬s₀.GathersByKind tops := by
  have hopens : ((open? mixedCells { edition := some .oblivion } none).toOption.map fun x =>
      (x.2.context.schema.hasGroups, (x.2.group? 0).map fun g =>
        (g.parent, g.headers.toList.map (·.kind), g.kind))) =
      some (true, some (none, [.top, .interiorCellBlock], .top)) := by
    decide +kernel
  obtain ⟨⟨plugin, s₀⟩, hopen, hfacts⟩ := exists_eq_ok_of_map hopens
  simp only [Prod.mk.injEq] at hfacts
  obtain ⟨hgroups, hnode⟩ := hfacts
  obtain ⟨g, hg, hvalues⟩ := Option.map_eq_some_iff.mp hnode
  simp only [Prod.mk.injEq] at hvalues
  obtain ⟨hp, hkinds, hkind⟩ := hvalues
  obtain ⟨cs, tops, htrail, htops, hnodes, -⟩ := top_groups_gathered hopen hgroups .refl
  refine ⟨plugin, s₀, g, cs, tops, hopen, hgroups, .refl, htrail, htops, hg, hp,
    (hnodes 0 g hg hp).1, hkinds, hkind, fun G => ?_⟩
  have hall : ∀ kind ∈ g.headers.toList.map (·.kind), kind = .top := by
    intro kind hmem
    obtain ⟨h, hh, rfl⟩ := List.mem_map.mp hmem
    rw [G.kind_eq 0 g hg hp h hh, hkind]
  rw [hkinds] at hall
  exact absurd (hall .interiorCellBlock (by simp)) (by decide)

/-- Nodes at the top may have headers of another kind. -/
theorem exists_top_group_of_mixed_kinds :
    ∃ image options plugin s₀ g h, open? image options none = .ok (plugin, s₀) ∧
      s₀.context.schema.hasGroups ∧ s₀.group? 0 = some g ∧ g.parent = none ∧
      h ∈ g.headers.toList ∧ h.label = g.label ∧ h.kind ≠ g.kind := by
  have hopens : ((open? mixedCells { edition := some .oblivion } none).toOption.map fun x =>
      (x.2.context.schema.hasGroups, (x.2.group? 0).map fun g =>
        (g.parent, g.headers.toList.any fun h => h.label = g.label ∧ h.kind ≠ g.kind))) =
      some (true, some (none, true)) := by
    decide +kernel
  obtain ⟨⟨plugin, s₀⟩, hopen, hfacts⟩ := exists_eq_ok_of_map hopens
  simp only [Prod.mk.injEq] at hfacts
  obtain ⟨hgroups, hnode⟩ := hfacts
  obtain ⟨g, hg, hvalues⟩ := Option.map_eq_some_iff.mp hnode
  simp only [Prod.mk.injEq, List.any_eq_true, decide_eq_true_eq] at hvalues
  obtain ⟨hp, h, hh, hlabel, hkind⟩ := hvalues
  exact ⟨mixedCells, _, plugin, s₀, g, h, hopen, hgroups, hg, hp, hh, hlabel, hkind⟩

end Plugin

end GamePlugin
