import GamePlugin.Session.Load
import Mathlib.Data.List.Nodup
import Mathlib.Data.List.Perm.Basic

/-!
# The arena of groups

A session keeps its groups as nodes of an arena. `Session.Arena` says what shape the arena has at
all times: nodes come after the nodes that hold them, the children of a node are the nodes that it
holds, and the headers found in one holder are gathered by their key, one node for each key.

Headers enter the arena in one way only, whether they are found inside a group or at the top of the
file: as one more piece of the node with their key, or as a new node (`Session.Place`). What that
does to the shape is proved once, here.

## Main definitions

* `Session.heldBy` — the nodes that a node holds, or the top nodes.
* `Session.Arena` — the shape of the arena, for given headers found in each holder.
* `Session.Place`, `Session.Grows` — placing a header, and what placing can change.
-/

namespace GamePlugin

/-! ## Keys -/

/-- What the pieces of one group have in common. The kind does not count among top groups. -/
structure GroupKey where
  label : UInt32
  kind : Option GroupKind
deriving DecidableEq

/-- The key of a header that is found in `owner`. -/
def GroupHeader.key (owner : Option Nat) (h : GroupHeader) : GroupKey :=
  ⟨h.label, owner.map fun _ => h.kind⟩

/-- The key of the headers of a node. -/
def GroupNode.key (g : GroupNode) : GroupKey := ⟨g.label, g.parent.map fun _ => g.kind⟩

theorem GroupNode.key_eq_iff_of_parent {g : GroupNode} {p : Nat} (hg : g.parent = some p)
    (h : GroupHeader) : g.key = h.key (some p) ↔ g.label = h.label ∧ g.kind = h.kind := by
  simp [key, GroupHeader.key, hg]

theorem GroupNode.key_eq_iff_of_top {g : GroupNode} (hg : g.parent = none) (h : GroupHeader) :
    g.key = h.key none ↔ g.label = h.label := by
  simp [key, GroupHeader.key, hg]

/-- The node gets more headers, and its place in the arena stays. -/
structure GroupNode.Gains (hs : List GroupHeader) (g g' : GroupNode) : Prop where
  id : g'.id = g.id
  parent : g'.parent = g.parent
  label : g'.label = g.label
  kind : g'.kind = g.kind
  children : g'.children = g.children
  headers : g'.headers.toList = g.headers.toList ++ hs

theorem GroupNode.Gains.key {g g' : GroupNode} {hs : List GroupHeader} (H : g.Gains hs g') :
    g'.key = g.key := by
  simp only [GroupNode.key, H.parent, H.label, H.kind]

namespace Session

/-! ## Nodes -/

theorem lt_of_group? {s : Session} {c : Nat} {g : GroupNode} (h : s.group? c = some g) :
    c < s.groups.size := (Array.getElem?_eq_some_iff.mp h).1

theorem group?_of_lt {s : Session} {c : Nat} (h : c < s.groups.size) : ∃ g, s.group? c = some g :=
  ⟨s.groups[c], Array.getElem?_eq_getElem h⟩

theorem group?_modifyGroup (s : Session) (id c : Nat) (f : GroupNode → GroupNode) :
    (s.modifyGroup id f).group? c = if id = c then (s.group? c).map f else s.group? c := by
  simp only [group?, modifyGroup, Array.getElem?_modify]

theorem group?_addGroup (s : Session) (g : GroupNode) (c : Nat) :
    (s.addGroup g).group? c = if c = s.groups.size then some g else s.group? c := by
  simp only [group?, addGroup, Array.getElem?_push]

@[simp] theorem size_modifyGroup (s : Session) (id : Nat) (f : GroupNode → GroupNode) :
    (s.modifyGroup id f).groups.size = s.groups.size := by
  simp [modifyGroup]

@[simp] theorem size_addGroup (s : Session) (g : GroupNode) :
    (s.addGroup g).groups.size = s.groups.size + 1 := by
  simp [addGroup]

/-- Indices of the nodes that `owner` holds, in the order they were made; of the top nodes if there
is no owner. -/
def heldBy (s : Session) (owner : Option Nat) : List Nat :=
  (List.range s.groups.size).filter fun id => (s.group? id).any (·.parent = owner)

theorem mem_heldBy {s : Session} {owner : Option Nat} {c : Nat} :
    c ∈ s.heldBy owner ↔ ∃ g, s.group? c = some g ∧ g.parent = owner := by
  simp only [heldBy, List.mem_filter, List.mem_range, Option.any_eq_true, decide_eq_true_eq]
  constructor
  · rintro ⟨-, g, hg, hp⟩
    exact ⟨g, hg, hp⟩
  · rintro ⟨g, hg, hp⟩
    exact ⟨lt_of_group? hg, g, hg, hp⟩

theorem nodup_heldBy (s : Session) (owner : Option Nat) : (s.heldBy owner).Nodup :=
  List.nodup_range.filter _

theorem heldBy_congr {s s' : Session} (hsize : s'.groups.size = s.groups.size)
    (hparent : ∀ c, (s'.group? c).map (·.parent) = (s.group? c).map (·.parent))
    (owner : Option Nat) : s'.heldBy owner = s.heldBy owner := by
  have hany (o : Option GroupNode) :
      o.any (·.parent = owner) = (o.map (·.parent)).any (· = owner) := by
    cases o <;> rfl
  simp only [heldBy, hsize, hany, hparent]

theorem heldBy_modifyGroup {s : Session} {id : Nat} {g₀ : GroupNode} (hid : s.group? id = some g₀)
    {f : GroupNode → GroupNode} (hf : (f g₀).parent = g₀.parent) (owner : Option Nat) :
    (s.modifyGroup id f).heldBy owner = s.heldBy owner := by
  refine heldBy_congr (size_modifyGroup ..) (fun c => ?_) owner
  rw [group?_modifyGroup]
  split
  · rename_i hc
    subst hc
    simp [hid, hf]
  · rfl

theorem heldBy_addGroup (s : Session) (g : GroupNode) (owner : Option Nat) :
    (s.addGroup g).heldBy owner =
      s.heldBy owner ++ if g.parent = owner then [s.groups.size] else [] := by
  have hold : ∀ c ∈ List.range s.groups.size, ((s.addGroup g).group? c).any (·.parent = owner) =
      (s.group? c).any (·.parent = owner) := by
    intro c hc
    have hlt := List.mem_range.mp hc
    rw [group?_addGroup, if_neg (by omega)]
  rw [heldBy, heldBy, size_addGroup, List.range_succ, List.filter_append, List.filter_congr hold]
  congr 1
  by_cases h : g.parent = owner <;> simp [group?_addGroup, h]

/-! ## The shape of the arena -/

/-- The key of the node at an index. -/
def key? (s : Session) (id : Nat) : Option GroupKey := (s.group? id).map (·.key)

/-- The shape of an arena, where `pieces` are the group headers that were found in each holder, and
`pieces none` those at the top of the file. -/
structure Arena (s : Session) (pieces : Option Nat → List GroupHeader) : Prop where
  /-- A node knows its index. -/
  id_eq : ∀ {c g}, s.group? c = some g → g.id = c
  /-- A node comes after the node that holds it. -/
  parent_lt : ∀ {c g p}, s.group? c = some g → g.parent = some p → p < c
  /-- The children of a node are the nodes that it holds. -/
  children_eq : ∀ {c g}, s.group? c = some g → g.children.toList = s.heldBy (some c)
  /-- The headers of a node are those in its holder that have its key. -/
  headers_eq : ∀ {c g}, s.group? c = some g →
    g.headers.toList = (pieces g.parent).filter (·.key g.parent = g.key)
  headers_ne : ∀ {c g}, s.group? c = some g → g.headers ≠ #[]
  /-- A holder has one node for a key. -/
  unique : ∀ {c d g k}, s.group? c = some g → s.group? d = some k → g.parent = k.parent →
    g.key = k.key → c = d
  /-- Every header that was found is in a node. -/
  covers : ∀ {owner h}, h ∈ pieces owner →
    ∃ c g, s.group? c = some g ∧ g.parent = owner ∧ g.key = h.key owner
  /-- The nodes that a holder has come in the order of their first headers. -/
  order : ∀ owner, (s.heldBy owner).map s.key? =
    ((pieces owner).map fun h => some (h.key owner)).eraseDups

/-- With more headers found in one holder. -/
def addPieces (pieces : Option Nat → List GroupHeader) (owner : Option Nat)
    (hs : List GroupHeader) : Option Nat → List GroupHeader :=
  fun o => pieces o ++ if o = owner then hs else []

theorem addPieces_self (pieces : Option Nat → List GroupHeader) (owner : Option Nat)
    (hs : List GroupHeader) : addPieces pieces owner hs owner = pieces owner ++ hs := by
  simp [addPieces]

theorem addPieces_of_ne (pieces : Option Nat → List GroupHeader) {owner o : Option Nat}
    (hs : List GroupHeader) (hne : o ≠ owner) : addPieces pieces owner hs o = pieces o := by
  simp [addPieces, hne]

theorem addPieces_nil (pieces : Option Nat → List GroupHeader) (owner : Option Nat) :
    addPieces pieces owner [] = pieces := by
  funext o
  simp [addPieces]

theorem addPieces_addPieces (pieces : Option Nat → List GroupHeader) (owner : Option Nat)
    (hs ks : List GroupHeader) :
    addPieces (addPieces pieces owner hs) owner ks = addPieces pieces owner (hs ++ ks) := by
  funext o
  by_cases h : o = owner <;> simp [addPieces, h]

theorem mem_addPieces {pieces : Option Nat → List GroupHeader} {owner o : Option Nat}
    {hs : List GroupHeader} {h : GroupHeader} :
    h ∈ addPieces pieces owner hs o ↔ h ∈ pieces o ∨ o = owner ∧ h ∈ hs := by
  by_cases ho : o = owner <;> simp [addPieces, ho]

/-- Headers whose keys are not new do not change the order of keys. -/
theorem eraseDups_append_of_subset {α : Type} [BEq α] [LawfulBEq α] {as bs : List α}
    (h : ∀ b ∈ bs, b ∈ as) : (as ++ bs).eraseDups = as.eraseDups := by
  have hnil : bs.removeAll as = [] := by simpa [List.removeAll] using h
  rw [List.eraseDups_append, hnil, List.eraseDups_nil, List.append_nil]

/-- A key that is new comes after the others. -/
theorem eraseDups_append_singleton {α : Type} [BEq α] [LawfulBEq α] {as : List α} {b : α}
    (h : b ∉ as) : (as ++ [b]).eraseDups = as.eraseDups ++ [b] := by
  have hone : [b].removeAll as = [b] := by simpa [List.removeAll] using h
  rw [List.eraseDups_append, hone]
  rfl

/-- More headers are no pieces of a node with another holder or another key. -/
theorem filter_addPieces_of_ne {pieces : Option Nat → List GroupHeader} {owner : Option Nat}
    {hs : List GroupHeader} {g : GroupNode}
    (hne : g.parent = owner → ∀ h ∈ hs, h.key owner ≠ g.key) :
    (addPieces pieces owner hs g.parent).filter (·.key g.parent = g.key) =
      (pieces g.parent).filter (·.key g.parent = g.key) := by
  by_cases hp : g.parent = owner
  · have hnil : hs.filter (fun h => h.key owner = g.key) = [] :=
      List.filter_eq_nil_iff.mpr fun h hh => by simpa using hne hp h hh
    rw [hp, addPieces_self, List.filter_append, hnil, List.append_nil]
  · rw [addPieces_of_ne _ _ hp]

/-- Every node is what it was, up to the headers of the one that is changed. -/
theorem gains_of_modifyGroup {s : Session} {id c : Nat} {g₀ g' : GroupNode}
    (hid : s.group? id = some g₀) {f : GroupNode → GroupNode} {hs : List GroupHeader}
    (hf : g₀.Gains hs (f g₀)) (hg' : (s.modifyGroup id f).group? c = some g') :
    ∃ g, s.group? c = some g ∧ g.Gains (if id = c then hs else []) g' := by
  rw [group?_modifyGroup] at hg'
  split at hg'
  case isTrue hc =>
    subst hc
    rw [hid] at hg'
    cases hg'
    exact ⟨g₀, hid, by rwa [if_pos rfl]⟩
  case isFalse hc => exact ⟨g', hg', ⟨rfl, rfl, rfl, rfl, rfl, by simp [hc]⟩⟩

/-- A node that gets more headers with its key keeps the shape of the arena. -/
theorem Arena.modifyGroup {s : Session} {pieces : Option Nat → List GroupHeader}
    (H : Arena s pieces) {id : Nat} {g₀ : GroupNode} (hid : s.group? id = some g₀)
    {f : GroupNode → GroupNode} {hs : List GroupHeader} (hf : g₀.Gains hs (f g₀))
    (hkeys : ∀ h ∈ hs, h.key g₀.parent = g₀.key) :
    Arena (s.modifyGroup id f) (addPieces pieces g₀.parent hs) := by
  constructor
  case id_eq =>
    intro c g' hg'
    obtain ⟨g, hg, hgain⟩ := gains_of_modifyGroup hid hf hg'
    rw [hgain.id, H.id_eq hg]
  case parent_lt =>
    intro c g' p hg' hp
    obtain ⟨g, hg, hgain⟩ := gains_of_modifyGroup hid hf hg'
    exact H.parent_lt hg (hgain.parent ▸ hp)
  case children_eq =>
    intro c g' hg'
    obtain ⟨g, hg, hgain⟩ := gains_of_modifyGroup hid hf hg'
    rw [hgain.children, heldBy_modifyGroup hid hf.parent, H.children_eq hg]
  case headers_eq =>
    intro c g' hg'
    obtain ⟨g, hg, hgain⟩ := gains_of_modifyGroup hid hf hg'
    rw [hgain.headers, hgain.parent, hgain.key, H.headers_eq hg]
    by_cases hc : id = c
    · subst hc
      obtain rfl : g₀ = g := Option.some.inj (hid.symm.trans hg)
      have hall : hs.filter (fun h => h.key g₀.parent = g₀.key) = hs :=
        List.filter_eq_self.mpr fun h hh => by simpa using hkeys h hh
      rw [addPieces_self, List.filter_append, hall, if_pos rfl]
    · have hne : g.parent = g₀.parent → ∀ h ∈ hs, h.key g₀.parent ≠ g.key := fun hp h hh heq =>
        hc (H.unique hid hg hp.symm ((hkeys h hh).symm.trans heq))
      rw [filter_addPieces_of_ne hne, if_neg hc, List.append_nil]
  case headers_ne =>
    intro c g' hg' hempty
    obtain ⟨g, hg, hgain⟩ := gains_of_modifyGroup hid hf hg'
    have hnil := hgain.headers
    rw [hempty] at hnil
    exact H.headers_ne hg (Array.toList_eq_nil_iff.mp (List.append_eq_nil_iff.mp hnil.symm).1)
  case unique =>
    intro c d g' k' hg' hk' hparent hkeys
    obtain ⟨g, hg, hgain⟩ := gains_of_modifyGroup hid hf hg'
    obtain ⟨k, hk, hgain'⟩ := gains_of_modifyGroup hid hf hk'
    refine H.unique hg hk ?_ ?_
    · rw [← hgain.parent, ← hgain'.parent, hparent]
    · rw [← hgain.key, ← hgain'.key, hkeys]
  case covers =>
    intro owner h hh
    have hold : ∃ c g, s.group? c = some g ∧ g.parent = owner ∧ g.key = h.key owner := by
      rcases mem_addPieces.mp hh with hm | ⟨rfl, hm⟩
      · exact H.covers hm
      · exact ⟨id, g₀, hid, rfl, (hkeys h hm).symm⟩
    obtain ⟨c, g, hg, hp, hk⟩ := hold
    by_cases hc : id = c
    · subst hc
      obtain rfl : g₀ = g := Option.some.inj (hid.symm.trans hg)
      refine ⟨id, f g₀, ?_, hf.parent.trans hp, hf.key.trans hk⟩
      rw [group?_modifyGroup, if_pos rfl, hg]
      rfl
    · refine ⟨c, g, ?_, hp, hk⟩
      rw [group?_modifyGroup, if_neg hc, hg]
  case order =>
    intro owner
    have hkey : (s.modifyGroup id f).key? = s.key? := by
      funext c
      rw [key?, group?_modifyGroup]
      by_cases hc : id = c
      · subst hc
        simp [key?, hid, hf.key]
      · rw [if_neg hc, key?]
    rw [hkey, heldBy_modifyGroup hid hf.parent, H.order owner]
    by_cases ho : owner = g₀.parent
    · subst ho
      rw [addPieces_self, List.map_append, eraseDups_append_of_subset]
      -- the node has a header with its key already
      obtain ⟨k, hk⟩ := List.exists_mem_of_ne_nil g₀.headers.toList fun hnil =>
        H.headers_ne hid (Array.toList_eq_nil_iff.mp hnil)
      rw [H.headers_eq hid] at hk
      obtain ⟨hmem, heq⟩ := List.mem_filter.mp hk
      intro key hin
      obtain ⟨h, hh, rfl⟩ := List.mem_map.mp hin
      rw [hkeys h hh, ← of_decide_eq_true heq]
      exact List.mem_map_of_mem hmem
    · rw [addPieces_of_ne _ _ ho]

/-! ## Placing headers -/

/-- Makes a node a child of its holder, if it has one. -/
def link (s : Session) (owner : Option Nat) (child : Nat) : Session :=
  match owner with
  | none => s
  | some id => s.modifyGroup id fun g => { g with children := g.children.push child }

/-- The node, at index `id`, of a header whose key is new in its holder. -/
def freshNode (id : Nat) (owner : Option Nat) (h : GroupHeader) : GroupNode :=
  { id, parent := owner, label := h.label, kind := h.kind, headers := #[h] }

@[simp] theorem parent_freshNode (id : Nat) (owner : Option Nat) (h : GroupHeader) :
    (freshNode id owner h).parent = owner := rfl

@[simp] theorem key_freshNode (id : Nat) (owner : Option Nat) (h : GroupHeader) :
    (freshNode id owner h).key = h.key owner := rfl

/-- A header that was found in `owner` has been placed. -/
inductive Place (s : Session) (owner : Option Nat) (h : GroupHeader) : Session → Prop
  /-- It is one more piece of a node. -/
  | piece {c : Nat} {g : GroupNode} (hc : s.group? c = some g) (howner : g.parent = owner)
      (hkey : g.key = h.key owner) : Place s owner h (s.pushHeader c h)
  /-- It is the first piece of a new node. -/
  | fresh (hnew : ∀ {c g}, s.group? c = some g → g.parent = owner → g.key ≠ h.key owner) :
      Place s owner h ((s.addGroup (freshNode s.groups.size owner h)).link owner s.groups.size)

section Place

variable {s : Session} {owner : Option Nat} {h : GroupHeader}

theorem group?_link (s : Session) (owner : Option Nat) (child c : Nat) :
    (s.link owner child).group? c = if owner = some c then
      (s.group? c).map fun g => { g with children := g.children.push child } else s.group? c := by
  cases owner with
  | none => rfl
  | some id => simp [link, group?_modifyGroup]

@[simp] theorem size_link (s : Session) (owner : Option Nat) (child : Nat) :
    (s.link owner child).groups.size = s.groups.size := by
  cases owner with
  | none => rfl
  | some id => exact size_modifyGroup ..

theorem heldBy_link (s : Session) (owner : Option Nat) (child : Nat) (o : Option Nat) :
    (s.link owner child).heldBy o = s.heldBy o := by
  refine heldBy_congr (size_link ..) (fun c => ?_) o
  rw [group?_link]
  split
  · cases s.group? c <;> rfl
  · rfl

/-- The nodes once a new one is held by `owner`. -/
theorem group?_link_addGroup (howner : ∀ p, owner = some p → p < s.groups.size) (c : Nat) :
    ((s.addGroup (freshNode s.groups.size owner h)).link owner s.groups.size).group? c =
      if c = s.groups.size then some (freshNode c owner h)
      else if owner = some c then
        (s.group? c).map fun g => { g with children := g.children.push s.groups.size }
      else s.group? c := by
  rw [group?_link, group?_addGroup]
  by_cases hc : c = s.groups.size
  · subst hc
    have hself : owner ≠ some s.groups.size := fun heq => Nat.lt_irrefl _ (howner _ heq)
    rw [if_neg hself, if_pos rfl, if_pos rfl]
  · rw [if_neg hc, if_neg hc]

/-- A node is then the new one, or what it was, up to the children of the holder. -/
theorem link_addGroup_cases (howner : ∀ p, owner = some p → p < s.groups.size) {c : Nat}
    {g' : GroupNode}
    (hg' : ((s.addGroup (freshNode s.groups.size owner h)).link owner s.groups.size).group? c =
      some g') :
    (c = s.groups.size ∧ g' = freshNode c owner h) ∨
      ∃ g, s.group? c = some g ∧ g'.id = g.id ∧ g'.parent = g.parent ∧ g'.key = g.key ∧
        g'.headers = g.headers ∧
        g'.children.toList = g.children.toList ++
          if owner = some c then [s.groups.size] else [] := by
  rw [group?_link_addGroup howner] at hg'
  split at hg'
  case isTrue hc => exact .inl ⟨hc, (Option.some.inj hg').symm⟩
  case isFalse =>
    right
    split at hg'
    case isTrue ho =>
      obtain ⟨g, hg, rfl⟩ := Option.map_eq_some_iff.mp hg'
      exact ⟨g, hg, rfl, rfl, rfl, rfl, by simp [ho]⟩
    case isFalse ho => exact ⟨g', hg', rfl, rfl, rfl, rfl, by simp [ho]⟩

theorem heldBy_link_addGroup (o : Option Nat) :
    ((s.addGroup (freshNode s.groups.size owner h)).link owner s.groups.size).heldBy o =
      s.heldBy o ++ if owner = o then [s.groups.size] else [] := by
  rw [heldBy_link, heldBy_addGroup]
  rfl

/-- A header with a new key makes a node and keeps the shape of the arena. -/
theorem Arena.link_addGroup {pieces : Option Nat → List GroupHeader} (H : Arena s pieces)
    (howner : ∀ p, owner = some p → p < s.groups.size)
    (hnew : ∀ {c g}, s.group? c = some g → g.parent = owner → g.key ≠ h.key owner) :
    Arena ((s.addGroup (freshNode s.groups.size owner h)).link owner s.groups.size)
      (addPieces pieces owner [h]) := by
  constructor
  case id_eq =>
    intro c g' hg'
    rcases link_addGroup_cases howner hg' with ⟨-, rfl⟩ | ⟨g, hg, hself, -⟩
    · rfl
    · rw [hself, H.id_eq hg]
  case parent_lt =>
    intro c g' p hg' hp
    rcases link_addGroup_cases howner hg' with ⟨rfl, rfl⟩ | ⟨g, hg, -, hparent, -⟩
    · exact howner p hp
    · exact H.parent_lt hg (hparent ▸ hp)
  case children_eq =>
    intro c g' hg'
    rw [heldBy_link_addGroup]
    rcases link_addGroup_cases howner hg' with ⟨rfl, rfl⟩ | ⟨g, hg, -, -, -, -, hchildren⟩
    · have hnone : s.heldBy (some s.groups.size) = [] := by
        rw [List.eq_nil_iff_forall_not_mem]
        intro c hc
        obtain ⟨g, hg, hp⟩ := mem_heldBy.mp hc
        exact Nat.lt_asymm (H.parent_lt hg hp) (lt_of_group? hg)
      rw [hnone, if_neg fun heq => Nat.lt_irrefl _ (howner _ heq)]
      rfl
    · rw [hchildren, H.children_eq hg]
  case headers_eq =>
    intro c g' hg'
    rcases link_addGroup_cases howner hg' with ⟨rfl, rfl⟩ | ⟨g, hg, -, hparent, hk, hheaders, -⟩
    · have hnone : (pieces owner).filter (fun k => k.key owner = h.key owner) = [] := by
        rw [List.filter_eq_nil_iff]
        intro k hk heq
        obtain ⟨c, g, hg, hp, hkey⟩ := H.covers hk
        exact hnew hg hp (hkey.trans (of_decide_eq_true heq))
      have hself : (addPieces pieces owner [h] owner).filter (fun k => k.key owner = h.key owner) =
          [h] := by
        rw [addPieces_self, List.filter_append, hnone]
        simp
      exact hself.symm
    · have hne : g.parent = owner → ∀ k ∈ [h], k.key owner ≠ g.key := fun hp k hk heq => by
        rw [List.mem_singleton.mp hk] at heq
        exact hnew hg hp heq.symm
      rw [hheaders, hparent, hk, H.headers_eq hg, filter_addPieces_of_ne hne]
  case headers_ne =>
    intro c g' hg'
    rcases link_addGroup_cases howner hg' with ⟨rfl, rfl⟩ | ⟨g, hg, -, -, -, hheaders, -⟩
    · simp [freshNode]
    · rw [hheaders]
      exact H.headers_ne hg
  case unique =>
    intro c d g' k' hg' hk' hparent hkeys
    rcases link_addGroup_cases howner hg' with ⟨rfl, rfl⟩ | ⟨g, hg, -, hpg, hkg, -⟩ <;>
      rcases link_addGroup_cases howner hk' with ⟨rfl, rfl⟩ | ⟨k, hk, -, hpk, hkk, -⟩
    · rfl
    · exact absurd (hkk.symm.trans hkeys.symm) (hnew hk (hpk.symm.trans hparent.symm))
    · exact absurd (hkg.symm.trans hkeys) (hnew hg (hpg.symm.trans hparent))
    · exact H.unique hg hk (hpg ▸ hpk ▸ hparent) (hkg ▸ hkk ▸ hkeys)
  case covers =>
    intro o k hk
    rcases mem_addPieces.mp hk with hm | ⟨rfl, hm⟩
    · obtain ⟨c, g, hg, hp, hkey⟩ := H.covers hm
      have hc : c ≠ s.groups.size := Nat.ne_of_lt (lt_of_group? hg)
      refine ⟨c, ?_⟩
      rw [group?_link_addGroup howner, if_neg hc, hg]
      split
      · exact ⟨_, rfl, hp, hkey⟩
      · exact ⟨g, rfl, hp, hkey⟩
    · rw [List.mem_singleton.mp hm]
      refine ⟨s.groups.size, freshNode s.groups.size o h, ?_, rfl, rfl⟩
      rw [group?_link_addGroup howner, if_pos rfl]
  case order =>
    intro o
    have hold : (s.heldBy o).map
        ((s.addGroup (freshNode s.groups.size owner h)).link owner s.groups.size).key? =
          (s.heldBy o).map s.key? := by
      refine List.map_congr_left fun c hc => ?_
      obtain ⟨g, hg, -⟩ := mem_heldBy.mp hc
      have hne : c ≠ s.groups.size := Nat.ne_of_lt (lt_of_group? hg)
      rw [key?, key?, group?_link_addGroup howner, if_neg hne, hg]
      split <;> rfl
    rw [heldBy_link_addGroup, List.map_append, hold, H.order o]
    by_cases ho : owner = o
    · subst ho
      have hfresh : some (h.key owner) ∉ (pieces owner).map fun h => some (h.key owner) := by
        intro hmem
        obtain ⟨k, hk, heq⟩ := List.mem_map.mp hmem
        obtain ⟨c, g, hg, hp, hkey⟩ := H.covers hk
        exact hnew hg hp (hkey.trans (Option.some.inj heq))
      rw [addPieces_self, List.map_append, List.map_singleton, eraseDups_append_singleton hfresh,
        if_pos rfl, List.map_singleton, key?, group?_link_addGroup howner, if_pos rfl]
      rfl
    · rw [addPieces_of_ne _ _ (Ne.symm ho), if_neg ho, List.map_nil, List.append_nil]

/-- Placing a header keeps the shape of the arena. -/
theorem Place.arena {s' : Session} {pieces : Option Nat → List GroupHeader} (P : Place s owner h s')
    (H : Arena s pieces) (howner : ∀ p, owner = some p → p < s.groups.size) :
    Arena s' (addPieces pieces owner [h]) := by
  cases P with
  | @piece c g hc ho hkey =>
    subst ho
    have hgain : g.Gains [h] { g with headers := g.headers.push h } :=
      ⟨rfl, rfl, rfl, rfl, rfl, Array.toList_push⟩
    refine H.modifyGroup hc hgain fun k hk => ?_
    rw [List.mem_singleton.mp hk, hkey]
  | fresh hnew => exact H.link_addGroup howner hnew

/-! ## What placing changes -/

/-- What placing headers that were found in `owner` can do to a node. -/
structure Extends (owner : Option Nat) (g g' : GroupNode) : Prop where
  parent : g'.parent = g.parent
  label : g'.label = g.label
  kind : g'.kind = g.kind
  processed : g'.processed = g.processed
  records : g'.records = g.records
  passes : g'.passes = g.passes
  headers : g.headers.toList <+: g'.headers.toList
  headers_eq : g.parent ≠ owner → g'.headers = g.headers

theorem Extends.refl (owner : Option Nat) (g : GroupNode) : Extends owner g g :=
  ⟨rfl, rfl, rfl, rfl, rfl, rfl, List.prefix_refl _, fun _ => rfl⟩

theorem Extends.trans {g g' g'' : GroupNode} (h₁ : Extends owner g g') (h₂ : Extends owner g' g'') :
    Extends owner g g'' where
  parent := h₂.parent.trans h₁.parent
  label := h₂.label.trans h₁.label
  kind := h₂.kind.trans h₁.kind
  processed := h₂.processed.trans h₁.processed
  records := h₂.records.trans h₁.records
  passes := h₂.passes.trans h₁.passes
  headers := h₁.headers.trans h₂.headers
  headers_eq hne := (h₂.headers_eq (h₁.parent ▸ hne)).trans (h₁.headers_eq hne)

/-- The groups in the node at an index, in order and by label; nothing if there is no node. -/
def lists (s : Session) (id : Nat) : List Nat × Std.TreeMap UInt32 (List Nat) :=
  ((s.group? id).map fun g => (g.children.toList, g.byLabel)).getD ([], ∅)

/-- What the node at an index remembers of cells; nothing if there is no node. -/
def cache (s : Session) (id : Nat) : CellCache := ((s.group? id).map (·.cache)).getD {}

/-- What placing headers that were found in `owner` can do to a session. -/
structure Grows (owner : Option Nat) (s s' : Session) : Prop where
  /-- Only groups change. -/
  others : s' = { s with groups := s'.groups }
  extends_of : ∀ {c g}, s.group? c = some g → ∃ g', s'.group? c = some g' ∧ Extends owner g g'
  /-- What is neither the holder nor held by it stays as it is. -/
  frame : ∀ {c g}, s.group? c = some g → g.parent ≠ owner → owner ≠ some c → s'.group? c = some g
  /-- New nodes are held by the holder, and nothing has been read for them. -/
  fresh : ∀ {c g'}, s.group? c = none → s'.group? c = some g' →
    g'.parent = owner ∧ g'.processed = 0 ∧ g'.records = #[] ∧ g'.passes = 0
  heldBy_eq : ∀ {o}, o ≠ owner → s'.heldBy o = s.heldBy o
  lists_eq : ∀ {c}, owner ≠ some c → s'.lists c = s.lists c
  cache_eq : ∀ c, s'.cache c = s.cache c

theorem Grows.refl (owner : Option Nat) (s : Session) : Grows owner s s where
  others := rfl
  extends_of hg := ⟨_, hg, .refl owner _⟩
  frame hg _ _ := hg
  fresh hnone hsome := by rw [hnone] at hsome; cases hsome
  heldBy_eq _ := rfl
  lists_eq _ := rfl
  cache_eq _ := rfl

theorem Grows.trans {s' s'' : Session} (h₁ : Grows owner s s') (h₂ : Grows owner s' s'') :
    Grows owner s s'' where
  others := by
    rw [h₂.others, h₁.others]
  extends_of hg := by
    obtain ⟨g', hg', hext⟩ := h₁.extends_of hg
    obtain ⟨g'', hg'', hext'⟩ := h₂.extends_of hg'
    exact ⟨g'', hg'', hext.trans hext'⟩
  frame hg hp hne := h₂.frame (h₁.frame hg hp hne) hp hne
  fresh := by
    intro c g'' hnone hsome
    cases hmid : s'.group? c with
    | none => exact h₂.fresh hmid hsome
    | some g' =>
      obtain ⟨hp, hproc, hrec, hpass⟩ := h₁.fresh hnone hmid
      obtain ⟨k, hk, hext⟩ := h₂.extends_of hmid
      obtain rfl : k = g'' := Option.some.inj (hk.symm.trans hsome)
      exact ⟨hext.parent.trans hp, hext.processed.trans hproc, hext.records.trans hrec,
        hext.passes.trans hpass⟩
  heldBy_eq hne := (h₂.heldBy_eq hne).trans (h₁.heldBy_eq hne)
  lists_eq hne := (h₂.lists_eq hne).trans (h₁.lists_eq hne)
  cache_eq c := (h₂.cache_eq c).trans (h₁.cache_eq c)

theorem Grows.records_eq {s' : Session} (G : Grows owner s s') (c : Nat) :
    s'.records c = s.records c := by
  rw [records, records]
  cases hk : s.group? c with
  | some k =>
    obtain ⟨k', hk', hext⟩ := G.extends_of hk
    simp [hk', hext.records]
  | none =>
    cases hk' : s'.group? c with
    | none => rfl
    | some k' =>
      obtain ⟨-, -, hempty, -⟩ := G.fresh hk hk'
      simp [hempty]

theorem lists_congr {s s' : Session} {c : Nat}
    (h : (s'.group? c).map (fun g => (g.children.toList, g.byLabel)) =
      (s.group? c).map fun g => (g.children.toList, g.byLabel)) : s'.lists c = s.lists c := by
  rw [lists, lists, h]

/-- One more piece changes its node alone. -/
theorem grows_pushHeader {c₀ : Nat} {g₀ : GroupNode} (hc₀ : s.group? c₀ = some g₀) :
    Grows g₀.parent s (s.pushHeader c₀ h) := by
  have hext : Extends g₀.parent g₀ { g₀ with headers := g₀.headers.push h } :=
    ⟨rfl, rfl, rfl, rfl, rfl, rfl, ⟨[h], Array.toList_push.symm⟩, fun hne => absurd rfl hne⟩
  constructor
  case others => rfl
  case extends_of =>
    intro c g hg
    rw [pushHeader, group?_modifyGroup]
    split
    case isTrue hc =>
      subst hc
      obtain rfl : g₀ = g := Option.some.inj (hc₀.symm.trans hg)
      exact ⟨_, by rw [hg]; rfl, hext⟩
    case isFalse => exact ⟨g, hg, .refl _ g⟩
  case frame =>
    intro c g hg hp _
    have hc : c₀ ≠ c := by
      rintro rfl
      exact hp (congrArg _ (Option.some.inj (hg.symm.trans hc₀)))
    rw [pushHeader, group?_modifyGroup, if_neg hc, hg]
  case fresh =>
    intro c g' hnone hsome
    rw [pushHeader, group?_modifyGroup, hnone] at hsome
    split at hsome <;> cases hsome
  case heldBy_eq =>
    intro o _
    exact heldBy_modifyGroup hc₀ rfl o
  case lists_eq =>
    intro c _
    apply lists_congr
    rw [pushHeader, group?_modifyGroup]
    by_cases hc : c₀ = c <;> cases s.group? c <;> simp [hc]
  case cache_eq =>
    intro c
    rw [Session.cache, Session.cache, pushHeader, group?_modifyGroup]
    by_cases hc : c₀ = c <;> cases s.group? c <;> simp [hc]

/-- A new node changes its holder alone. -/
theorem grows_link_addGroup (howner : ∀ p, owner = some p → p < s.groups.size) :
    Grows owner s ((s.addGroup (freshNode s.groups.size owner h)).link owner s.groups.size) := by
  constructor
  case others => cases owner <;> rfl
  case extends_of =>
    intro c g hg
    have hc : c ≠ s.groups.size := Nat.ne_of_lt (lt_of_group? hg)
    rw [group?_link_addGroup howner, if_neg hc, hg]
    split
    · exact ⟨_, rfl, ⟨rfl, rfl, rfl, rfl, rfl, rfl, List.prefix_refl _, fun _ => rfl⟩⟩
    · exact ⟨g, rfl, .refl owner g⟩
  case frame =>
    intro c g hg _ hne
    have hc : c ≠ s.groups.size := Nat.ne_of_lt (lt_of_group? hg)
    rw [group?_link_addGroup howner, if_neg hc, if_neg hne, hg]
  case fresh =>
    intro c g' hnone hsome
    rw [group?_link_addGroup howner, hnone] at hsome
    split at hsome
    · cases hsome
      exact ⟨rfl, rfl, rfl, rfl⟩
    · split at hsome <;> cases hsome
  case heldBy_eq =>
    intro o hne
    rw [heldBy_link_addGroup, if_neg (Ne.symm hne), List.append_nil]
  case lists_eq =>
    intro c hne
    rw [lists, lists, group?_link_addGroup howner, if_neg hne]
    by_cases hc : c = s.groups.size
    · have hnone : s.group? s.groups.size = none := Array.getElem?_eq_none (Nat.le_refl _)
      simp [hc, hnone, freshNode]
    · simp [hc]
  case cache_eq =>
    intro c
    rw [Session.cache, Session.cache, group?_link_addGroup howner]
    by_cases hc : c = s.groups.size
    · have hnone : s.group? s.groups.size = none := Array.getElem?_eq_none (Nat.le_refl _)
      simp [hc, hnone, freshNode]
    · by_cases ho : owner = some c <;> cases s.group? c <;> simp [hc, ho]

theorem Place.grows {s' : Session} (P : Place s owner h s')
    (howner : ∀ p, owner = some p → p < s.groups.size) : Grows owner s s' := by
  cases P with
  | piece hc ho hkey =>
    subst ho
    exact grows_pushHeader hc
  | fresh hnew => exact grows_link_addGroup howner

end Place

/-! ## Adopting groups -/

theorem Arena.children {s : Session} {pieces : Option Nat → List GroupHeader} (H : Arena s pieces)
    {id : Nat} {g : GroupNode} (hid : s.group? id = some g) :
    s.children id = s.heldBy (some id) := by
  rw [Session.children, hid]
  exact H.children_eq hid

/-- A group that is adopted is placed. -/
theorem Arena.place_adopt {s : Session} {pieces : Option Nat → List GroupHeader}
    (H : Arena s pieces) {id : Nat} {g : GroupNode} (hid : s.group? id = some g)
    (h : GroupHeader) : Place s (some id) h (s.adopt id h) := by
  have hfits {c : Nat} {g : GroupNode} (hg : s.group? c = some g) (hp : g.parent = some id) :
      ((s.group? c).any fun g => g.label = h.label && g.kind = h.kind) ↔
        g.key = h.key (some id) := by
    simp [hg, GroupNode.key_eq_iff_of_parent hp]
  rw [adopt, H.children hid]
  cases hfind : (s.heldBy (some id)).find? fun c =>
      (s.group? c).any fun g => g.label = h.label && g.kind = h.kind with
  | some child =>
    obtain ⟨g, hg, hp⟩ := mem_heldBy.mp (List.mem_of_find?_eq_some hfind)
    have hfit := List.find?_some hfind
    exact .piece hg hp ((hfits hg hp).mp hfit)
  | none =>
    refine .fresh fun {c g} hg hp hkey => ?_
    have hno := List.find?_eq_none.mp hfind c (mem_heldBy.mpr ⟨g, hg, hp⟩)
    exact hno ((hfits hg hp).mpr hkey)

/-- Adopting groups one after another. -/
theorem Arena.foldl_adopt {s : Session} {pieces : Option Nat → List GroupHeader}
    (H : Arena s pieces) {id : Nat} {g : GroupNode} (hid : s.group? id = some g)
    (hs : List GroupHeader) :
    Arena (hs.foldl (adopt · id) s) (addPieces pieces (some id) hs) ∧
      Grows (some id) s (hs.foldl (adopt · id) s) := by
  induction hs generalizing s pieces g with
  | nil => exact ⟨(addPieces_nil pieces (some id)).symm ▸ H, .refl _ s⟩
  | cons h hs ih =>
    have howner : ∀ p, some id = some p → p < s.groups.size := fun p hp => by
      cases hp
      exact lt_of_group? hid
    have P := H.place_adopt hid h
    have G := P.grows howner
    obtain ⟨g', hid', -⟩ := G.extends_of hid
    obtain ⟨harena, hgrows⟩ := ih (P.arena H howner) hid'
    rw [addPieces_addPieces] at harena
    exact ⟨harena, G.trans hgrows⟩

/-! ## Children by label -/

/-- The index of a node's children by label gives those with the label, in order. -/
def Labelled (s : Session) (id : Nat) : Prop :=
  ∀ label, (s.lists id).2.getD label [] =
    (s.lists id).1.filter fun c => (s.group? c).any (·.label = label)

theorem Labelled.childrenWithLabel_eq {s : Session} {id : Nat} (H : Labelled s id)
    (label : UInt32) :
    s.childrenWithLabel id label =
      (s.children id).filter fun c => (s.group? c).any (·.label = label) := by
  have hlists := H label
  rw [lists] at hlists
  rw [childrenWithLabel, Session.children]
  cases hid : s.group? id with
  | none => rfl
  | some g => simpa [hid] using hlists

theorem getD_foldl_enterLabel (s : Session) (cs : List Nat)
    (index : Std.TreeMap UInt32 (List Nat)) (label : UInt32) :
    (cs.foldl s.enterLabel index).getD label [] =
      index.getD label [] ++ cs.filter fun c => (s.group? c).any (·.label = label) := by
  induction cs generalizing index with
  | nil => simp
  | cons c cs ih =>
    rw [List.foldl_cons, ih]
    cases hc : s.group? c with
    | none => simp [enterLabel, hc]
    | some g =>
      by_cases hlabel : g.label = label
      · simp [enterLabel, hc, hlabel, Std.TreeMap.getD_eq_getD_getElem?]
      · simp [enterLabel, hc, hlabel, Std.TreeMap.getD_alter]

/-- Placing headers in one holder leaves the index of other nodes as it should be. -/
theorem Labelled.grows {s s' : Session} {owner : Option Nat} {c : Nat} (H : Labelled s c)
    (G : Grows owner s s') (hc : owner ≠ some c)
    (hchildren : ∀ d ∈ (s.lists c).1, ∃ g, s.group? d = some g) : Labelled s' c := by
  intro label
  rw [G.lists_eq hc, H label]
  refine List.filter_congr fun d hd => ?_
  obtain ⟨g, hg⟩ := hchildren d hd
  obtain ⟨g', hg', hext⟩ := G.extends_of hg
  simp [hg, hg', hext.label]

theorem group?_indexLabels (s : Session) (id c : Nat) :
    (s.indexLabels id).group? c = if id = c then
      (s.group? c).map fun g => { g with byLabel := g.children.foldl s.enterLabel ∅ }
    else s.group? c :=
  group?_modifyGroup ..

/-- An index that has been made anew is as it should be. -/
theorem labelled_indexLabels (s : Session) (id : Nat) : Labelled (s.indexLabels id) id := by
  intro label
  have hlabel (c : Nat) : ((s.indexLabels id).group? c).any (·.label = label) =
      (s.group? c).any (·.label = label) := by
    rw [group?_indexLabels]
    by_cases hc : id = c <;> cases s.group? c <;> simp [hc]
  simp only [hlabel]
  rw [lists, group?_indexLabels, if_pos rfl]
  cases s.group? id with
  | none => rfl
  | some g =>
    have hfold := getD_foldl_enterLabel s g.children.toList ∅ label
    simpa using hfold

/-- The index is all that changes. -/
theorem grows_indexLabels (s : Session) (id : Nat) : Grows (some id) s (s.indexLabels id) := by
  constructor
  case others => rfl
  case extends_of =>
    intro c g hg
    rw [group?_indexLabels, hg]
    by_cases hc : id = c
    · rw [if_pos hc]
      exact ⟨_, rfl, ⟨rfl, rfl, rfl, rfl, rfl, rfl, List.prefix_refl _, fun _ => rfl⟩⟩
    · rw [if_neg hc]
      exact ⟨g, rfl, .refl _ g⟩
  case frame =>
    intro c g hg _ hc
    rw [group?_indexLabels, if_neg (by simpa using hc), hg]
  case fresh =>
    intro c g' hnone hsome
    simp [group?_indexLabels, hnone] at hsome
  case heldBy_eq =>
    intro o _
    refine heldBy_congr (size_modifyGroup ..) (fun c => ?_) o
    rw [group?_modifyGroup]
    by_cases hc : id = c <;> cases s.group? c <;> simp [hc]
  case lists_eq =>
    intro c hc
    rw [lists, lists, group?_indexLabels, if_neg (by simpa using hc)]
  case cache_eq =>
    intro c
    rw [Session.cache, Session.cache, group?_indexLabels]
    by_cases hc : id = c <;> cases s.group? c <;> simp [hc]

theorem Arena.indexLabels {s : Session} {pieces : Option Nat → List GroupHeader}
    (H : Arena s pieces) {id : Nat} {g : GroupNode} (hid : s.group? id = some g) :
    Arena (s.indexLabels id) pieces := by
  have hgain : g.Gains [] { g with byLabel := g.children.foldl s.enterLabel ∅ } :=
    ⟨rfl, rfl, rfl, rfl, rfl, (List.append_nil _).symm⟩
  have harena := H.modifyGroup (f := fun g => { g with byLabel := g.children.foldl s.enterLabel ∅ })
    hid hgain fun h hh => by cases hh
  rwa [addPieces_nil] at harena

/-! ## All headers of an arena -/

/-- Headers of the group at an index. -/
def headers (s : Session) (id : Nat) : List GroupHeader :=
  ((s.group? id).map (·.headers.toList)).getD []

/-- A list is the sum of its parts by key. -/
theorem perm_flatMap_filter {α κ : Type} [DecidableEq κ] (key : α → κ) {ks : List κ}
    {xs : List α} (hnodup : ks.Nodup) (hcovers : ∀ x ∈ xs, key x ∈ ks) :
    (ks.flatMap fun k => xs.filter (key · = k)).Perm xs := by
  induction ks generalizing xs with
  | nil =>
    have hnil : xs = [] := List.eq_nil_iff_forall_not_mem.mpr fun x hx => by
      cases hcovers x hx
    rw [hnil]
    exact .nil
  | cons k ks ih =>
    obtain ⟨hk, hks⟩ := List.nodup_cons.mp hnodup
    have hrest : (ks.flatMap fun j => xs.filter (key · = j)) =
        ks.flatMap fun j => (xs.filter (key · ≠ k)).filter (key · = j) := by
      refine List.flatMap_congr fun j hj => ?_
      have hne : j ≠ k := fun heq => hk (heq ▸ hj)
      rw [List.filter_filter]
      refine List.filter_congr fun x _ => ?_
      by_cases hx : key x = j <;> simp [hx, hne]
    have hothers : ∀ x ∈ xs.filter (key · ≠ k), key x ∈ ks := fun x hx => by
      obtain ⟨hx, hne⟩ := List.mem_filter.mp hx
      exact (List.mem_cons.mp (hcovers x hx)).resolve_left (of_decide_eq_true hne)
    rw [List.flatMap_cons, hrest]
    refine ((ih hks hothers).append_left _).trans ?_
    simpa using List.filter_append_perm (fun x => decide (key x = k)) xs

/-- The nodes of an arena are the top nodes and those that some node holds. -/
theorem Arena.perm_range {s : Session} {pieces : Option Nat → List GroupHeader}
    (H : Arena s pieces) :
    (s.heldBy none ++ (List.range s.groups.size).flatMap fun p => s.heldBy (some p)).Perm
      (List.range s.groups.size) := by
  have hheld (o : Option Nat) : s.heldBy o =
      (List.range s.groups.size).filter fun c => (s.group? c).bind (·.parent) = o := by
    refine List.filter_congr fun c hc => ?_
    obtain ⟨g, hg⟩ := group?_of_lt (List.mem_range.mp hc)
    simp [hg]
  have hks : (none :: (List.range s.groups.size).map some : List (Option Nat)).Nodup := by
    refine List.nodup_cons.mpr ⟨by simp, ?_⟩
    exact List.nodup_range.map fun _ _ => Option.some.inj
  have hcovers : ∀ c ∈ List.range s.groups.size, (s.group? c).bind (·.parent) ∈
      none :: (List.range s.groups.size).map some := by
    intro c hc
    obtain ⟨g, hg⟩ := group?_of_lt (List.mem_range.mp hc)
    cases hp : g.parent with
    | none => simp [hg, hp]
    | some p =>
      have hlt : p < s.groups.size := Nat.lt_trans (H.parent_lt hg hp) (List.mem_range.mp hc)
      simp [hg, hp, hlt]
  have hperm := perm_flatMap_filter _ hks hcovers
  simpa only [List.flatMap_cons, List.flatMap_map, ← hheld] using hperm

/-- The headers that were found in a holder are those of the nodes that it holds. -/
theorem Arena.perm_pieces {s : Session} {pieces : Option Nat → List GroupHeader}
    (H : Arena s pieces) (owner : Option Nat) :
    ((s.heldBy owner).flatMap s.headers).Perm (pieces owner) := by
  have hnodup : ((s.heldBy owner).map fun c => (s.group? c).map (·.key)).Nodup := by
    refine (s.nodup_heldBy owner).map_on fun c hc d hd heq => ?_
    obtain ⟨g, hg, hp⟩ := mem_heldBy.mp hc
    obtain ⟨k, hk, hq⟩ := mem_heldBy.mp hd
    simp only [hg, hk, Option.map_some, Option.some.injEq] at heq
    exact H.unique hg hk (hp.trans hq.symm) heq
  have hcovers : ∀ h ∈ pieces owner, some (h.key owner) ∈
      (s.heldBy owner).map fun c => (s.group? c).map (·.key) := by
    intro h hh
    obtain ⟨c, g, hg, hp, hkey⟩ := H.covers hh
    refine List.mem_map.mpr ⟨c, mem_heldBy.mpr ⟨g, hg, hp⟩, ?_⟩
    rw [hg, ← hkey]
    rfl
  have hperm := perm_flatMap_filter _ hnodup hcovers
  rw [List.flatMap_map] at hperm
  refine (List.Perm.of_eq (List.flatMap_congr fun c hc => ?_)).trans hperm
  obtain ⟨g, hg, hp⟩ := mem_heldBy.mp hc
  rw [headers, hg]
  simpa [hp] using H.headers_eq hg

/-- All headers are those at the top of the file and those that were found in a group. -/
theorem Arena.perm_headers {s : Session} {pieces : Option Nat → List GroupHeader}
    (H : Arena s pieces) :
    ((List.range s.groups.size).flatMap s.headers).Perm
      (pieces none ++ (List.range s.groups.size).flatMap fun p => pieces (some p)) := by
  refine (H.perm_range.symm.flatMap_right s.headers).trans ?_
  rw [List.flatMap_append, List.flatMap_assoc]
  exact (H.perm_pieces none).append (List.Perm.flatMap_left _ fun p _ => H.perm_pieces (some p))

end Session

end GamePlugin
