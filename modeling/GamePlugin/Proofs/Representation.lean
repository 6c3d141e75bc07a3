import GamePlugin.Proofs.Agreement
import GamePlugin.Proofs.Coverage
import GamePlugin.Proofs.Operations

/-!
# The arena represents a forest of groups

Nodes are made and merged over several passes, and the index of a node's children by label is made
anew in each. Whatever a caller has done, the nodes form a forest: every node knows its index, is
listed once by its holder and by no other node, and is the only child with its label and kind. The
pieces of a node below the top lie one after another in the file, each of them, with its header,
inside a piece of the holder that has been processed.

## Main definitions

* `Session.Lodged` — a node stands in the arena and in the file where its holder says.
* `Session.Represents` — the arena represents a forest.
-/

namespace GamePlugin

namespace Session

variable {src : Source} {tops : List GroupHeader} {ids : List Nat} {s : Session} {id p : Nat}
  {g : GroupNode}

/-- The node at index `id` is lodged in the one at index `p`. -/
structure Lodged (schema : Schema) (s : Session) (id p : Nat) (g : GroupNode) : Prop where
  lt : p < id
  /-- The holder lists the node once, and no other node lists it. -/
  count_eq : (s.children p).count id = 1
  only : ∀ {q}, id ∈ s.children q → q = p
  label_eq : ∀ h ∈ g.headers.toList, h.label = g.label
  kind_eq : ∀ h ∈ g.headers.toList, h.kind = g.kind
  /-- The pieces are in file order, and do not overlap. -/
  ordered : g.headers.toList.Pairwise (·.position < ·.position)
  disjoint : g.headers.toList.Pairwise fun a b =>
    ((Chunk.group a).span schema).stop ≤ ((Chunk.group b).span schema).start
  /-- Each piece lies inside the payload of a processed header of the holder. -/
  inside : ∃ k, s.group? p = some k ∧ ∀ h ∈ g.headers.toList, ∃ outer ∈ k.done,
    outer.position ≤ ((Chunk.group h).span schema).start ∧
      ((Chunk.group h).span schema).stop ≤ outer.stop

/-- The arena represents a forest of groups. -/
structure Represents (schema : Schema) (s : Session) : Prop where
  id_eq : ∀ {id g}, s.group? id = some g → g.id = id
  /-- What a node lists as its children are nodes that it holds. -/
  parent_eq : ∀ {id c}, c ∈ s.children id → ∃ k, s.group? c = some k ∧ k.parent = some id
  /-- Children have different labels or kinds. -/
  nodup : ∀ id, ((s.children id).map fun c => (s.group? c).map fun k => (k.label, k.kind)).Nodup
  childrenWithLabel_eq : ∀ id label, s.childrenWithLabel id label =
    (s.children id).filter fun c => (s.group? c).any (·.label = label)
  lodged : ∀ {id g p}, s.group? id = some g → g.parent = some p → Lodged schema s id p g

/-! ## Where nodes stand -/

theorem Arena.mem_children_iff {pieces : Option Nat → List GroupHeader} (H : Arena s pieces)
    {c : Nat} : c ∈ s.children id ↔ ∃ k, s.group? c = some k ∧ k.parent = some id := by
  cases hid : s.group? id with
  | none =>
    have hnil : s.children id = [] := by simp [Session.children, hid]
    rw [hnil]
    constructor
    · intro hc
      cases hc
    · rintro ⟨k, hk, hp⟩
      have hlt := Nat.lt_trans (H.parent_lt hk hp) (lt_of_group? hk)
      obtain ⟨g, hg⟩ := group?_of_lt hlt
      cases hid.symm.trans hg
  | some g => rw [H.children hid, mem_heldBy]

theorem Arena.nodup_children {pieces : Option Nat → List GroupHeader} (H : Arena s pieces)
    (id : Nat) : (s.children id).Nodup := by
  cases hid : s.group? id with
  | none => simp [Session.children, hid]
  | some g =>
    rw [H.children hid]
    exact s.nodup_heldBy (some id)

/-- A node below the top has another label or another kind than its siblings. -/
theorem Arena.nodup_label_kind {pieces : Option Nat → List GroupHeader} (H : Arena s pieces)
    (id : Nat) :
    ((s.children id).map fun c => (s.group? c).map fun k => (k.label, k.kind)).Nodup := by
  refine (H.nodup_children id).map_on ?_
  intro c hc d hd heq
  obtain ⟨k, hk, hpk⟩ := H.mem_children_iff.mp hc
  obtain ⟨l, hl, hpl⟩ := H.mem_children_iff.mp hd
  simp only [hk, hl, Option.map_some, Option.some.injEq, Prod.mk.injEq] at heq
  refine H.unique hk hl (hpk.trans hpl.symm) ?_
  simp [GroupNode.key, hpk, hpl, heq]

/-! ## Where pieces lie -/

theorem Sound.mem_groupsIn_of_held (H : Sound src tops s) (hid : s.group? id = some g)
    (hp : g.parent = some p) {k : GroupNode} (hk : s.group? p = some k) {h : GroupHeader}
    (hh : h ∈ g.headers.toList) :
    (∃ outer ∈ k.done, h ∈ src.groupsIn outer) ∧ h.label = g.label ∧ h.kind = g.kind := by
  rw [H.arena.headers_eq hid, hp, pieces_of_group? hk] at hh
  obtain ⟨hmem, hkey⟩ := List.mem_filter.mp hh
  have hkey' : g.key = h.key (some p) := (of_decide_eq_true hkey).symm
  obtain ⟨hlabel, hkind⟩ := (GroupNode.key_eq_iff_of_parent hp h).mp hkey'
  exact ⟨by simpa using List.mem_flatMap.mp hmem, hlabel.symm, hkind.symm⟩

theorem span_of_mem_groupsIn {h outer : GroupHeader} (hh : h ∈ src.groupsIn outer) :
    outer.position ≤ ((Chunk.group h).span src.context.schema).start ∧
      ((Chunk.group h).span src.context.schema).stop ≤ outer.stop := by
  obtain ⟨hlo, hhi⟩ := Source.bounds_of_mem_groupsIn hh
  simp only [Chunk.span, Chunk.position_group, Chunk.stop_group, Chunk.headerSize]
  omega

/-- The pieces of a node below the top do not overlap, with their headers counted in. -/
theorem Sound.pairwise_spans (H : Sound src tops s) (htops : tops.Pairwise (·.stop < ·.position))
    (hid : s.group? id = some g) (hp : g.parent = some p) :
    g.headers.toList.Pairwise fun a b => ((Chunk.group a).span src.context.schema).stop ≤
      ((Chunk.group b).span src.context.schema).start := by
  have hlt := H.arena.parent_lt hid hp
  obtain ⟨k, hk⟩ := group?_of_lt (Nat.lt_trans hlt (lt_of_group? hid))
  have hdone : k.done.Pairwise (·.stop < ·.position) :=
    (H.pairwise_headers htops hk).sublist (List.take_sublist ..)
  have hgroups : k.done.flatMap src.groupsIn =
      (k.done.flatMap src.chunksIn).filterMap Chunk.group? := by
    rw [List.filterMap_flatMap]
    rfl
  rw [H.arena.headers_eq hid, hp, pieces_of_group? hk, hgroups]
  refine List.Pairwise.filter _ ((pairwise_chunksIn_add hdone).filterMap _ ?_)
  rintro (a | a) (b | b) hab _ ⟨⟩ _ ⟨⟩
  simp only [Chunk.span]
  omega

theorem Sound.lodged (H : Sound src tops s) (htops : tops.Pairwise (·.stop < ·.position))
    (hid : s.group? id = some g) (hp : g.parent = some p) :
    Lodged src.context.schema s id p g := by
  have hlt := H.arena.parent_lt hid hp
  have hmem : id ∈ s.children p := H.arena.mem_children_iff.mpr ⟨g, hid, hp⟩
  obtain ⟨k, hk⟩ := group?_of_lt (Nat.lt_trans hlt (lt_of_group? hid))
  constructor
  case lt => exact hlt
  case count_eq => exact List.count_eq_one_of_mem (H.arena.nodup_children p) hmem
  case only =>
    intro q hq
    obtain ⟨g', hg', hp'⟩ := H.arena.mem_children_iff.mp hq
    cases hid.symm.trans hg'
    exact Option.some.inj (hp'.symm.trans hp)
  case label_eq => exact fun h hh => (H.mem_groupsIn_of_held hid hp hk hh).2.1
  case kind_eq => exact fun h hh => (H.mem_groupsIn_of_held hid hp hk hh).2.2
  case ordered =>
    refine (H.pairwise_headers htops hid).imp fun {a b} hab => ?_
    have hle : a.position ≤ a.stop := Nat.le_add_right ..
    omega
  case disjoint => exact H.pairwise_spans htops hid hp
  case inside =>
    refine ⟨k, hk, fun h hh => ?_⟩
    obtain ⟨⟨outer, houter, hin⟩, -⟩ := H.mem_groupsIn_of_held hid hp hk hh
    exact ⟨outer, houter, span_of_mem_groupsIn hin⟩

end Session

/-! ## The main result -/

/-- **Whatever a caller has done with an open plugin, the arena represents a forest of groups.** -/
theorem Plugin.arena_represents {image : Image} {options : Options} {length? : Option Nat}
    {p : Plugin} {s₀ s : Session} (hopen : open? image options length? = .ok (p, s₀))
    (hreach : p.Reaches s₀ s) : s.Represents s₀.context.schema := by
  obtain ⟨tops, H₀, htops⟩ := exists_rooted_of_open? hopen
  have H := hreach.of_stable Session.Rooted.stable H₀
  constructor
  case id_eq => exact H.arena.id_eq
  case parent_eq => exact H.arena.mem_children_iff.mp
  case nodup => exact H.arena.nodup_label_kind
  case childrenWithLabel_eq => exact fun id => (H.labelled id).childrenWithLabel_eq
  case lodged => exact fun hid hp => H.toSound.lodged htops hid hp

/-- Two pieces of a top group, each with a piece of the same block: the block is one node with two
pieces, and so is listed once. -/
theorem Plugin.arena_represents_splitCells :
    ∃ p s₀ s g, open? splitCells { edition := some .oblivion } none = .ok (p, s₀) ∧
      p.Reaches s₀ s ∧ s.group? 1 = some g ∧ g.headers.size = 2 ∧ s.children 0 = [1] ∧
      s.childrenWithLabel 1 0 = [3] ∧ s.childrenWithLabel 1 1 = [4] ∧
      s.Represents s₀.context.schema ∧ Session.Lodged s₀.context.schema s 1 0 g := by
  have hload : ((open? splitCells { edition := some .oblivion } none).toOption.map fun x =>
      let s := Session.after (x.1.perform .loadAll) x.2
      ((s.group? 1).map fun g => (g.headers.size, g.parent), s.children 0,
        s.childrenWithLabel 1 0, s.childrenWithLabel 1 1)) =
      some (some (2, some 0), [1], [3], [4]) := by
    decide +kernel
  obtain ⟨⟨p, s₀⟩, hopen, hvalues⟩ := exists_eq_ok_of_map hload
  simp only [Prod.mk.injEq] at hvalues
  obtain ⟨hnode, hchildren, hzero, hone⟩ := hvalues
  obtain ⟨g, hg, hcounts⟩ := Option.map_eq_some_iff.mp hnode
  simp only [Prod.mk.injEq] at hcounts
  have hreach : p.Reaches s₀ (Session.after (p.perform .loadAll) s₀) := .step .refl .loadAll
  have H := arena_represents hopen hreach
  exact ⟨p, s₀, _, g, hopen, hreach, hg, hcounts.1, hchildren, hzero, hone, H,
    H.lodged hg hcounts.2⟩

end GamePlugin
