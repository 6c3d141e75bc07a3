import GamePlugin.Proofs.Arena
import GamePlugin.Proofs.Contents

/-!
# What loading keeps true

`Session.Sound` is what holds of a session at all times: its arena has its shape, and every node
holds exactly what its processed headers hold. It refers to the file alone, so it says what a
session has read without saying when.

Loading one group is the step that everything else is made of. It reads all headers of a node that
have not been processed or it changes nothing (`Session.Sound.loadOne_cases`), it keeps sessions
sound (`Session.Rooted.preserves_loadOne`), and what a step keeps is kept by loading groups deep as
well.

## Main definitions

* `Session.Sound` — the invariant of sessions.
* `Session.Preserves`, `Session.Succeeds` — what a step keeps, and that it does not fail.
* `Session.Leads` — what a step leads to, where it succeeds and where it fails.
-/

namespace GamePlugin

/-- The headers that have been processed. -/
def GroupNode.done (g : GroupNode) : List GroupHeader := g.headers.toList.take g.processed

/-- The headers that have not been processed. -/
def GroupNode.waiting (g : GroupNode) : List GroupHeader := g.headers.toList.drop g.processed

theorem GroupNode.done_append_waiting (g : GroupNode) : g.done ++ g.waiting = g.headers.toList :=
  List.take_append_drop ..

theorem GroupNode.done_of_isLoaded {g : GroupNode} (h : g.isLoaded) :
    g.done = g.headers.toList := by
  have hsize : g.processed = g.headers.size := of_decide_eq_true h
  rw [done, hsize, ← Array.length_toList, List.take_length]

/-- The node after more headers have been read, whose records are given. -/
def GroupNode.recorded (g : GroupNode) (processed : Nat) (records : Array Record) : GroupNode :=
  { g with records := g.records ++ records, processed, passes := g.passes + 1 }

namespace Session

/-! ## The invariant -/

/-- The node at index `id` holds what its processed headers hold. -/
structure Tidy (src : Source) (id : Nat) (g : GroupNode) : Prop where
  processed_le : g.processed ≤ g.headers.size
  readable : ∀ h ∈ g.done, src.Readable h
  records_eq : g.records.toList = (g.done.flatMap src.decoded).map (·.under (some id))

/-- The group headers that have been found: `tops` at the top of the file, and in each node those in
its processed headers. -/
def pieces (s : Session) (src : Source) (tops : List GroupHeader) : Option Nat → List GroupHeader
  | none => tops
  | some id => (((s.group? id).map (·.done)).getD []).flatMap src.groupsIn

/-- A session that has read what it holds from `src`, a file with the given top groups. -/
structure Sound (src : Source) (tops : List GroupHeader) (s : Session) : Prop where
  source_eq : s.source = src
  arena : Arena s (s.pieces src tops)
  tidy : ∀ {id g}, s.group? id = some g → Tidy src id g
  labelled : ∀ id, Labelled s id

variable {src : Source} {tops : List GroupHeader} {s : Session} {id : Nat} {g : GroupNode}

theorem pieces_of_group? (hid : s.group? id = some g) :
    s.pieces src tops (some id) = g.done.flatMap src.groupsIn := by
  rw [pieces, hid]
  rfl

theorem Extends.done_eq {owner : Option Nat} {g' : GroupNode} (h : Extends owner g g')
    (hle : g.processed ≤ g.headers.size) : g'.done = g.done := by
  obtain ⟨more, hmore⟩ := h.headers
  rw [GroupNode.done, GroupNode.done, h.processed, ← hmore,
    List.take_append_of_le_length (by simpa using hle)]

/-- More headers do not touch what a node has read. -/
theorem Tidy.extends {owner : Option Nat} {g' : GroupNode} (H : Tidy src id g)
    (h : Extends owner g g') : Tidy src id g' where
  processed_le := by
    have hlen := h.headers.length_le
    simp only [Array.length_toList] at hlen
    rw [h.processed]
    exact Nat.le_trans H.processed_le hlen
  readable := by
    rw [h.done_eq H.processed_le]
    exact H.readable
  records_eq := by
    rw [h.records, h.done_eq H.processed_le]
    exact H.records_eq

/-- Nothing has been read for a node that is new. -/
theorem Tidy.of_fresh (hprocessed : g.processed = 0) (hrecords : g.records = #[]) :
    Tidy src id g where
  processed_le := by simp [hprocessed]
  readable := by simp [GroupNode.done, hprocessed]
  records_eq := by simp [GroupNode.done, hprocessed, hrecords]

theorem Grows.source_eq {owner : Option Nat} {s' : Session} (G : Grows owner s s') :
    s'.source = s.source := by
  rw [G.others]
  rfl

/-- Placing headers does not touch what nodes have read. -/
theorem Grows.tidy {owner : Option Nat} {s' : Session} (G : Grows owner s s')
    (H : ∀ {c k}, s.group? c = some k → Tidy src c k) {c : Nat} {k' : GroupNode}
    (hk' : s'.group? c = some k') : Tidy src c k' := by
  cases hk : s.group? c with
  | some k =>
    obtain ⟨k'', hk'', hext⟩ := G.extends_of hk
    obtain rfl : k'' = k' := Option.some.inj (hk''.symm.trans hk')
    exact (H hk).extends hext
  | none =>
    obtain ⟨-, hprocessed, hrecords, -⟩ := G.fresh hk hk'
    exact .of_fresh hprocessed hrecords

theorem Grows.pieces_eq {owner : Option Nat} {s' : Session} (G : Grows owner s s')
    (H : ∀ {c k}, s.group? c = some k → Tidy src c k) (tops : List GroupHeader) (c : Nat) :
    s'.pieces src tops (some c) = s.pieces src tops (some c) := by
  cases hk : s.group? c with
  | some k =>
    obtain ⟨k', hk', hext⟩ := G.extends_of hk
    rw [pieces_of_group? hk', pieces_of_group? hk, hext.done_eq (H hk).processed_le]
  | none =>
    cases hk' : s'.group? c with
    | none => rw [pieces, pieces, hk, hk']
    | some k' =>
      obtain ⟨-, hprocessed, -⟩ := G.fresh hk hk'
      simp [pieces, hk, hk', GroupNode.done, hprocessed]

/-! ## Keeping what was found -/

theorem GroupNode.done_recorded (g : GroupNode) (records : Array Record) :
    (g.recorded g.headers.size records).done = g.done ++ g.waiting := by
  rw [g.done_append_waiting, GroupNode.done]
  exact List.take_of_length_le (Nat.le_refl _)

/-- A node whose waiting headers have been read holds what they hold as well. -/
theorem Tidy.recorded (H : Tidy src id g) (hreadable : ∀ h ∈ g.waiting, src.Readable h) :
    Tidy src id (g.recorded g.headers.size (foundUnder src id g.waiting).records) where
  processed_le := Nat.le_refl _
  readable := by
    rw [GroupNode.done_recorded]
    intro h hh
    rcases List.mem_append.mp hh with hdone | hwaiting
    · exact H.readable h hdone
    · exact hreadable h hwaiting
  records_eq := by
    rw [GroupNode.done_recorded, List.flatMap_append, List.map_append, ← H.records_eq,
      ← toList_records_foundUnder]
    exact Array.toList_append

/-- The session with the records of a group kept, before groups in it are adopted. -/
def recorded (s : Session) (id processed : Nat) (found : Found) : Session :=
  { s with index := found.records.foldl LoadedIndex.insert s.index }.modifyGroup id
    (·.recorded processed found.records)

theorem commit_eq (s : Session) (id processed : Nat) (found : Found) :
    s.commit id processed found =
      (found.groups.toList.foldl (adopt · id) (s.recorded id processed found)).indexLabels id := by
  rw [commit, ← Array.foldl_toList]
  rfl

theorem group?_recorded (s : Session) (id processed : Nat) (found : Found) (c : Nat) :
    (s.recorded id processed found).group? c =
      if id = c then (s.group? c).map (·.recorded processed found.records) else s.group? c :=
  group?_modifyGroup ..

/-- What keeping does to the arena. -/
theorem Arena.commit {pieces : Option Nat → List GroupHeader} (H : Arena s pieces)
    (hid : s.group? id = some g) (processed : Nat) (found : Found) :
    Arena (s.commit id processed found) (addPieces pieces (some id) found.groups.toList) ∧
      Grows (some id) (s.recorded id processed found) (s.commit id processed found) := by
  have hindex : Arena { s with index := found.records.foldl LoadedIndex.insert s.index } pieces :=
    ⟨H.id_eq, H.parent_lt, H.children_eq, H.headers_eq, H.headers_ne, H.unique, H.covers, H.order⟩
  have hrecorded : Arena (s.recorded id processed found) pieces := by
    have hgain : g.Gains [] (g.recorded processed found.records) :=
      ⟨rfl, rfl, rfl, rfl, rfl, (List.append_nil _).symm⟩
    have harena := hindex.modifyGroup (f := (·.recorded processed found.records)) hid hgain
      fun h hh => by cases hh
    rwa [addPieces_nil] at harena
  have hid' : (s.recorded id processed found).group? id =
      some (g.recorded processed found.records) := by
    rw [group?_recorded, if_pos rfl, hid]
    rfl
  obtain ⟨hadopted, G⟩ := hrecorded.foldl_adopt hid' found.groups.toList
  obtain ⟨g', hg', -⟩ := G.extends_of hid'
  rw [commit_eq]
  exact ⟨hadopted.indexLabels hg', G.trans (grows_indexLabels _ id)⟩

/-- The children of nodes are nodes. -/
theorem Arena.exists_of_mem_lists {pieces : Option Nat → List GroupHeader} (H : Arena s pieces)
    {c d : Nat} (hd : d ∈ (s.lists c).1) : ∃ k, s.group? d = some k ∧ k.parent = some c := by
  cases hc : s.group? c with
  | none => simp [lists, hc] at hd
  | some g =>
    rw [lists, hc, Option.map_some, Option.getD_some, H.children_eq hc] at hd
    exact mem_heldBy.mp hd

/-- Keeping makes the index of the node's children by label anew, and leaves those of others. -/
theorem Arena.labelled_commit {pieces : Option Nat → List GroupHeader} (H : Arena s pieces)
    (hid : s.group? id = some g) (hlabelled : ∀ c, Labelled s c) (processed : Nat) (found : Found)
    (c : Nat) : Labelled (s.commit id processed found) c := by
  by_cases hc : id = c
  · subst hc
    rw [commit_eq]
    exact labelled_indexLabels _ id
  · obtain ⟨-, G⟩ := H.commit hid processed found
    have hother : some id ≠ some c := by simpa using hc
    have hlists : (s.recorded id processed found).lists c = s.lists c := by
      rw [lists, lists, group?_recorded, if_neg hc]
    have hlabel (d : Nat) : ((s.recorded id processed found).group? d).map (·.label) =
        (s.group? d).map (·.label) := by
      rw [group?_recorded]
      by_cases hd : id = d <;> cases s.group? d <;> simp [hd, GroupNode.recorded]
    refine Labelled.grows (fun label => ?_) G hother fun d hd => ?_
    · have hany (o : Option GroupNode) :
          o.any (·.label = label) = (o.map (·.label)).any (· = label) := by
        cases o <;> rfl
      simp only [hlists, hany, hlabel]
      simpa only [hany] using hlabelled c label
    · rw [hlists] at hd
      obtain ⟨k, hk, -⟩ := H.exists_of_mem_lists hd
      rw [group?_recorded, hk]
      by_cases hd : id = d <;> simp [hd]

/-- The node whose headers have been read. -/
theorem Sound.group?_commit (H : Sound src tops s) (hid : s.group? id = some g) (processed : Nat)
    (found : Found) :
    ∃ g', (s.commit id processed found).group? id = some g' ∧ g'.parent = g.parent ∧
      g'.headers = g.headers ∧ g'.processed = processed ∧
      g'.records = g.records ++ found.records := by
  obtain ⟨-, G⟩ := H.arena.commit hid processed found
  have hrecorded := group?_recorded s id processed found id
  rw [if_pos rfl, hid] at hrecorded
  obtain ⟨g', hg', hext⟩ := G.extends_of hrecorded
  have hself : g.parent ≠ some id := fun heq => Nat.lt_irrefl _ (H.arena.parent_lt hid heq)
  exact ⟨g', hg', hext.parent, hext.headers_eq hself, hext.processed, hext.records⟩

/-- A node is loaded once all of its headers have been read. -/
theorem Extends.isLoaded_of_recorded {owner : Option Nat} {g' : GroupNode} {records : Array Record}
    (h : Extends owner (g.recorded g.headers.size records) g') (hheaders : g'.headers = g.headers) :
    g'.isLoaded := by
  have hprocessed : g'.processed = g.headers.size := h.processed
  rw [GroupNode.isLoaded, hprocessed, hheaders]
  exact decide_eq_true rfl

/-- Everything that keeping what was found in a group can do to a node. -/
theorem Sound.commit_cases (H : Sound src tops s) (hid : s.group? id = some g) {processed : Nat}
    {found : Found} {c : Nat} {k' : GroupNode}
    (hc : (s.commit id processed found).group? c = some k') :
    (id = c ∧ Extends (some id) (g.recorded processed found.records) k' ∧
        k'.headers = g.headers) ∨
      (∃ k, id ≠ c ∧ s.group? c = some k ∧ Extends (some id) k k') ∨
      (s.group? c = none ∧ k'.parent = some id ∧ k'.processed = 0 ∧ k'.records = #[] ∧
        k'.passes = 0) := by
  obtain ⟨-, G⟩ := H.arena.commit hid processed found
  have hrecorded := group?_recorded s id processed found c
  cases hk : s.group? c with
  | none =>
    rw [hk, Option.map_none, ite_self] at hrecorded
    exact .inr (.inr ⟨rfl, G.fresh hrecorded hc⟩)
  | some k =>
    rw [hk] at hrecorded
    by_cases heq : id = c
    · subst heq
      cases hid.symm.trans hk
      rw [if_pos rfl] at hrecorded
      obtain ⟨k'', hk'', hext⟩ := G.extends_of hrecorded
      cases hk''.symm.trans hc
      have hself : g.parent ≠ some id := fun hp => Nat.lt_irrefl _ (H.arena.parent_lt hid hp)
      exact .inl ⟨rfl, hext, hext.headers_eq hself⟩
    · rw [if_neg heq] at hrecorded
      obtain ⟨k'', hk'', hext⟩ := G.extends_of hrecorded
      cases hk''.symm.trans hc
      exact .inr (.inl ⟨k, heq, rfl, hext⟩)

/-- Nodes do not go away, and keep their records. -/
theorem Sound.exists_group?_commit (H : Sound src tops s) (hid : s.group? id = some g)
    (processed : Nat) (found : Found) {c : Nat} {k : GroupNode} (hk : s.group? c = some k) :
    ∃ k', (s.commit id processed found).group? c = some k' ∧
      k.records.toList <+: k'.records.toList := by
  obtain ⟨-, G⟩ := H.arena.commit hid processed found
  have hrecorded := group?_recorded s id processed found c
  rw [hk] at hrecorded
  by_cases heq : id = c
  · rw [if_pos heq] at hrecorded
    obtain ⟨k', hk', hext⟩ := G.extends_of hrecorded
    have hrecords : k'.records = k.records ++ found.records := hext.records
    refine ⟨k', hk', ?_⟩
    rw [hrecords, Array.toList_append]
    exact List.prefix_append ..
  · rw [if_neg heq] at hrecorded
    obtain ⟨k', hk', hext⟩ := G.extends_of hrecorded
    exact ⟨k', hk', hext.records ▸ List.prefix_refl _⟩

/-- Keeping what the waiting headers of a node hold keeps a session sound. -/
theorem Sound.commit (H : Sound src tops s) (hid : s.group? id = some g)
    (hreadable : ∀ h ∈ g.waiting, src.Readable h) :
    Sound src tops (s.commit id g.headers.size (foundUnder src id g.waiting)) := by
  obtain ⟨harena, G⟩ := H.arena.commit hid g.headers.size (foundUnder src id g.waiting)
  have hrecorded (c : Nat) := group?_recorded s id g.headers.size (foundUnder src id g.waiting) c
  have hsource : (s.recorded id g.headers.size (foundUnder src id g.waiting)).source = src :=
    H.source_eq
  generalize s.recorded id g.headers.size (foundUnder src id g.waiting) = t at G hrecorded hsource
  have htidy {c : Nat} {k : GroupNode} (hk : t.group? c = some k) : Tidy src c k := by
    rw [hrecorded] at hk
    split at hk
    case isTrue hc =>
      subst hc
      rw [hid] at hk
      cases hk
      exact (H.tidy hid).recorded hreadable
    case isFalse => exact H.tidy hk
  refine ⟨G.source_eq.trans hsource, ?_, G.tidy htidy,
    H.arena.labelled_commit hid H.labelled g.headers.size _⟩
  have hpieces : (s.commit id g.headers.size (foundUnder src id g.waiting)).pieces src tops =
      addPieces (s.pieces src tops) (some id) (foundUnder src id g.waiting).groups.toList := by
    funext o
    cases o with
    | none => rw [addPieces_of_ne _ _ (by simp), pieces, pieces]
    | some c =>
      rw [G.pieces_eq htidy]
      by_cases hc : id = c
      · subst hc
        have hid' := hrecorded id
        rw [if_pos rfl, hid] at hid'
        rw [addPieces_self, pieces_of_group? hid', pieces_of_group? hid,
          GroupNode.done_recorded, List.flatMap_append, toList_groups_foundUnder]
      · rw [addPieces_of_ne _ _ (by simpa using Ne.symm hc), pieces, pieces, hrecorded,
          if_neg hc]
  rw [hpieces]
  exact harena

/-! ## Loading one group -/

theorem loadOne_eq (id : Nat) (s : Session) :
    loadOne id s =
      match s.group? id with
      | none => .ok () s
      | some g =>
        if g.isLoaded then .ok () s
        else
          match g.waiting.foldlM (s.scan g.id) {} with
          | .error e => .error e s
          | .ok found => .ok () (s.commit g.id g.headers.size found) := by
  have hstep : loadOne id s =
      (match s.group? id with
      | none => return
      | some g =>
        if g.isLoaded then return
        else
          match g.waiting.foldlM (s.scan g.id) {} with
          | .error e => throw e
          | .ok found => set (s.commit g.id g.headers.size found) : Step Unit) s := rfl
  rw [hstep]
  cases s.group? id with
  | none => rfl
  | some g =>
    simp only
    split
    · rfl
    · cases g.waiting.foldlM (s.scan g.id) {} <;> rfl

/-- Everything that loading one group can do: nothing, since nothing waits; read all that waits; or
fail on a header that cannot be read, and leave the session as it was. -/
theorem Sound.loadOne_cases (H : Sound src tops s) (id : Nat) :
    (loadOne id s = .ok () s ∧ ∀ {g}, s.group? id = some g → g.isLoaded) ∨
      (∃ g, s.group? id = some g ∧ ¬g.isLoaded ∧ (∀ h ∈ g.waiting, src.Readable h) ∧
        loadOne id s = .ok () (s.commit id g.headers.size (foundUnder src id g.waiting))) ∨
      (∃ g e, s.group? id = some g ∧ (∃ h ∈ g.waiting, ¬src.Readable h) ∧
        loadOne id s = .error e s) := by
  have hsource := H.source_eq
  subst hsource
  rw [loadOne_eq]
  cases hid : s.group? id with
  | none => exact .inl ⟨rfl, by rintro g ⟨⟩⟩
  | some g =>
    have hself := H.arena.id_eq hid
    by_cases hloaded : g.isLoaded
    · exact .inl ⟨if_pos hloaded, fun heq => by cases heq; exact hloaded⟩
    · right
      simp only [if_neg hloaded, hself]
      by_cases hall : ∀ h ∈ g.waiting, s.source.Readable h
      · have hscan := foldlM_scan_eq_ok_iff.mpr (⟨hall, rfl⟩ :
          _ ∧ _ = Found.append {} (foundUnder s.source id g.waiting))
        rw [Found.empty_append] at hscan
        exact .inl ⟨g, rfl, hloaded, hall, by rw [hscan]⟩
      · cases hscan : g.waiting.foldlM (s.scan id) {} with
        | ok found => exact absurd (foldlM_scan_eq_ok_iff.mp hscan).1 hall
        | error e => exact .inr ⟨g, e, rfl, by simpa using hall, rfl⟩

/-! ## Steps -/

section Steps

variable {α β : Type} {P : Session → Prop}

/-- The session that a step leaves, also if it fails. -/
def after (x : Step α) (s : Session) : Session :=
  match x s with
  | .ok _ s' => s'
  | .error _ s' => s'

theorem after_of_ok {x : Step α} {a : α} {s' : Session} (h : x s = .ok a s') : after x s = s' := by
  rw [after, h]

theorem after_of_error {x : Step α} {e : Error} {s' : Session} (h : x s = .error e s') :
    after x s = s' := by
  rw [after, h]

theorem bind_eq_ok_iff {x : Step α} {f : α → Step β} {b : β} {s' : Session} :
    (x >>= f) s = .ok b s' ↔ ∃ a s₁, x s = .ok a s₁ ∧ f a s₁ = .ok b s' := by
  simp only [bind, EStateM.bind]
  cases x s with
  | ok a s₁ => simp
  | error e s₁ => simp

theorem after_bind_of_ok {x : Step α} {f : α → Step β} {a : α} {s' : Session}
    (h : x s = .ok a s') : after (x >>= f) s = after (f a) s' := by
  simp only [after, Bind.bind, EStateM.bind, h]

theorem after_bind_of_error {x : Step α} {f : α → Step β} {e : Error} {s' : Session}
    (h : x s = .error e s') : after (x >>= f) s = s' := by
  simp only [after, Bind.bind, EStateM.bind, h]

/-- What every step of a loop keeps, the loop keeps, wherever it ends. -/
theorem after_forM {f : α → Step Unit} {as : List α}
    (hf : ∀ a ∈ as, ∀ s, P s → P (after (f a) s)) (hs : P s) : P (after (as.forM f) s) := by
  induction as generalizing s with
  | nil => exact hs
  | cons a as ih =>
    have hmid := hf a List.mem_cons_self s hs
    have heq : (a :: as).forM f = f a >>= fun _ => as.forM f := rfl
    rw [heq]
    cases hfa : f a s with
    | ok _ s₁ =>
      rw [after_of_ok hfa] at hmid
      rw [after_bind_of_ok hfa]
      exact ih (fun b hb => hf b (List.mem_cons_of_mem a hb)) hmid
    | error e s₁ =>
      rw [after_of_error hfa] at hmid
      rwa [after_bind_of_error hfa]

/-- The step keeps a property of sessions, also if it fails. -/
def Preserves (P : Session → Prop) (x : Step α) : Prop := ∀ s, P s → P (after x s)

theorem Preserves.bind {x : Step α} {f : α → Step β} (hx : Preserves P x)
    (hf : ∀ a, Preserves P (f a)) : Preserves P (x >>= f) := by
  intro s hs
  have hmid := hx s hs
  cases hxs : x s with
  | ok a s₁ =>
    rw [after_of_ok hxs] at hmid
    rw [after_bind_of_ok hxs]
    exact hf a s₁ hmid
  | error e s₁ =>
    rw [after_of_error hxs] at hmid
    rwa [after_bind_of_error hxs]

theorem Preserves.forM {f : α → Step Unit} (hf : ∀ a, Preserves P (f a)) (as : List α) :
    Preserves P (as.forM f) :=
  fun _ hs => after_forM (fun a _ => hf a) hs

/-- What loading one group keeps, loading deep keeps. -/
theorem Preserves.loadDeep (hone : ∀ id, Preserves P (loadOne id)) (depth id : Nat) :
    Preserves P (loadDeep depth id) := by
  induction depth generalizing id with
  | zero => exact fun _ hs => hs
  | succ depth ih =>
    refine (hone id).bind fun _ => Preserves.bind (fun _ hs => hs) fun s => ?_
    exact Preserves.forM ih (s.children id)

/-- Run from `s`, the step leads to `Q` if it succeeds, and to `E` if it fails. -/
structure Leads (x : Step α) (s : Session) (Q : α → Session → Prop) (E : Session → Prop) :
    Prop where
  ok : ∀ {a s'}, x s = .ok a s' → Q a s'
  error : ∀ {e s'}, x s = .error e s' → E s'

section Leads

variable {Q Q' : α → Session → Prop} {R : β → Session → Prop} {E E' : Session → Prop}

theorem Leads.pure {a : α} (h : Q a s) : Leads (Pure.pure a) s Q E where
  ok heq := by cases heq; exact h
  error heq := by cases heq

theorem Leads.get_bind {f : Session → Step β} (h : Leads (f s) s R E) :
    Leads (MonadState.get >>= f) s R E :=
  ⟨fun heq => h.ok heq, fun heq => h.error heq⟩

theorem Leads.modified {m : Session → Session} {Q : Unit → Session → Prop} (h : Q () (m s)) :
    Leads (modify m) s Q E where
  ok heq := by cases heq; exact h
  error heq := by cases heq

theorem Leads.modify_bind {m : Session → Session} {f : Unit → Step β}
    (h : Leads (f ()) (m s) R E) : Leads (modify m >>= f) s R E :=
  ⟨fun heq => h.ok heq, fun heq => h.error heq⟩

theorem Leads.bind {x : Step α} {f : α → Step β} (hx : Leads x s Q E)
    (hf : ∀ {a s'}, Q a s' → Leads (f a) s' R E) : Leads (x >>= f) s R E := by
  constructor
  · intro b s' heq
    obtain ⟨a, s₁, hxs, hfs⟩ := bind_eq_ok_iff.mp heq
    exact (hf (hx.ok hxs)).ok hfs
  · intro e s' heq
    cases hxs : x s with
    | ok a s₁ =>
      refine (hf (hx.ok hxs)).error (e := e) ?_
      simpa only [Bind.bind, EStateM.bind, hxs] using heq
    | error e₁ s₁ =>
      have hafter := after_of_error heq
      rw [after_bind_of_error hxs] at hafter
      exact hafter ▸ hx.error hxs

theorem Leads.imp {x : Step α} (hx : Leads x s Q E) (hQ : ∀ {a s'}, Q a s' → Q' a s')
    (hE : ∀ {s'}, E s' → E' s') : Leads x s Q' E' :=
  ⟨fun heq => hQ (hx.ok heq), fun heq => hE (hx.error heq)⟩

theorem Leads.forM_singleton {f : α → Step Unit} {a : α} (h : Leads (f a) s (fun _ => P) E) :
    Leads ([a].forM f) s (fun _ => P) E :=
  h.bind fun hs => .pure hs

theorem Leads.filterM_singleton {f : α → Step Bool} {a : α} {Q : Bool → Session → Prop}
    (h : Leads (f a) s Q E) :
    Leads ([a].filterM f) s (fun as t => ∃ kept, Q kept t ∧ as = cond kept [a] []) E := by
  refine Leads.bind (Q := fun as t => ∃ kept, Q kept t ∧ as = cond kept [a] [])
    (h.bind fun {kept t} hs => .pure ⟨kept, hs, rfl⟩) fun {as t} hs => .pure ?_
  obtain ⟨kept, hs, rfl⟩ := hs
  exact ⟨kept, hs, by cases kept <;> rfl⟩

/-- What a step leads to either way. -/
theorem Leads.after {x : Step α} (hx : Leads x s (fun _ => P) P) : P (after x s) := by
  cases hxs : x s with
  | ok a s₁ => exact after_of_ok hxs ▸ hx.ok hxs
  | error e s₁ => exact after_of_error hxs ▸ hx.error hxs

/-- A loop whose steps each get something done, and leave what other steps have got done. -/
theorem Leads.forM {I : Session → Prop} {D : α → Session → Prop} {f : α → Step Unit} {as : List α}
    (hstep : ∀ a ∈ as, ∀ t, I t →
      Leads (f a) t (fun _ t' => I t' ∧ D a t' ∧ ∀ b ∈ as, D b t → D b t') E)
    (hs : I s) : Leads (as.forM f) s (fun _ t => I t ∧ ∀ a ∈ as, D a t) E := by
  have hrest (bs : List α) (hbs : ∀ b ∈ bs, b ∈ as) : ∀ s, I s → Leads (bs.forM f) s
      (fun _ t => I t ∧ (∀ a ∈ as, D a s → D a t) ∧ ∀ b ∈ bs, D b t) E := by
    induction bs with
    | nil =>
      intro s hs
      exact .pure ⟨hs, fun _ _ h => h, by simp⟩
    | cons b bs ih =>
      intro s hs
      have heq : (b :: bs).forM f = f b >>= fun _ => bs.forM f := rfl
      rw [heq]
      refine (hstep b (hbs b (by simp)) s hs).bind fun {_ t} ht => ?_
      obtain ⟨ht, hb, hkeep⟩ := ht
      refine (ih (fun c hc => hbs c (by simp [hc])) t ht).imp (fun {_ t'} ht' => ?_) fun h => h
      obtain ⟨ht', hkeep', hbs'⟩ := ht'
      refine ⟨ht', fun a ha h => hkeep' a ha (hkeep a ha h), ?_⟩
      exact List.forall_mem_cons.mpr ⟨hkeep' b (hbs b (by simp)) hb, hbs'⟩
  exact (hrest as (fun _ h => h) s hs).imp (fun h => ⟨h.1, h.2.2⟩) fun h => h

end Leads

/-- Started with the property, the step succeeds and keeps it. -/
def Succeeds (P : Session → Prop) (x : Step α) : Prop :=
  ∀ s, P s → ∃ a s', x s = .ok a s' ∧ P s'

theorem Succeeds.bind {x : Step α} {f : α → Step β} (hx : Succeeds P x)
    (hf : ∀ a, Succeeds P (f a)) : Succeeds P (x >>= f) := by
  intro s hs
  obtain ⟨a, s₁, hxs, hs₁⟩ := hx s hs
  obtain ⟨b, s', hfs, hs'⟩ := hf a s₁ hs₁
  exact ⟨b, s', bind_eq_ok_iff.mpr ⟨a, s₁, hxs, hfs⟩, hs'⟩

theorem Succeeds.forM {f : α → Step Unit} (hf : ∀ a, Succeeds P (f a)) (as : List α) :
    Succeeds P (as.forM f) := by
  induction as with
  | nil => exact fun s hs => ⟨(), s, rfl, hs⟩
  | cons a as ih => exact (hf a).bind fun _ => ih

/-- If loading one group succeeds throughout, so does loading deep. -/
theorem Succeeds.loadDeep (hone : ∀ id, Succeeds P (loadOne id)) (depth id : Nat) :
    Succeeds P (loadDeep depth id) := by
  induction depth generalizing id with
  | zero => exact fun s hs => ⟨(), s, rfl, hs⟩
  | succ depth ih =>
    refine (hone id).bind fun _ => Succeeds.bind (fun s hs => ⟨s, s, rfl, hs⟩) fun s => ?_
    exact Succeeds.forM ih (s.children id)

end Steps

/-! ## Loading keeps sessions sound -/

/-- A sound session with the given top nodes. -/
structure Rooted (src : Source) (tops : List GroupHeader) (ids : List Nat) (s : Session) : Prop
    extends Sound src tops s where
  heldBy_none : s.heldBy none = ids

variable {ids : List Nat}

theorem Rooted.commit (H : Rooted src tops ids s) (hid : s.group? id = some g)
    (hreadable : ∀ h ∈ g.waiting, src.Readable h) :
    Rooted src tops ids (s.commit id g.headers.size (foundUnder src id g.waiting)) := by
  obtain ⟨-, G⟩ := H.arena.commit hid g.headers.size (foundUnder src id g.waiting)
  refine ⟨H.toSound.commit hid hreadable, ?_⟩
  rw [G.heldBy_eq (by simp), ← H.heldBy_none]
  exact heldBy_modifyGroup (s := { s with index := _ }) hid rfl none

theorem Rooted.preserves_loadOne (id : Nat) : Preserves (Rooted src tops ids) (loadOne id) := by
  intro s H
  rcases H.loadOne_cases id with
    ⟨heq, -⟩ | ⟨g, hid, -, hreadable, heq⟩ | ⟨g, e, -, -, heq⟩
  · rwa [after_of_ok heq]
  · rw [after_of_ok heq]
    exact H.commit hid hreadable
  · rwa [after_of_error heq]

theorem Rooted.preserves_loadDeep (depth id : Nat) :
    Preserves (Rooted src tops ids) (loadDeep depth id) :=
  .loadDeep Rooted.preserves_loadOne depth id

/-- Where every header can be read, loading never fails. -/
theorem Rooted.succeeds_loadOne
    (hall : ∀ {s}, Rooted src tops ids s → ∀ {id g}, s.group? id = some g →
      ∀ h ∈ g.headers.toList, src.Readable h) (id : Nat) :
    Succeeds (Rooted src tops ids) (loadOne id) := by
  intro s H
  rcases H.loadOne_cases id with
    ⟨heq, -⟩ | ⟨g, hid, -, hreadable, heq⟩ | ⟨g, e, hid, ⟨h, hh, hnot⟩, -⟩
  · exact ⟨(), s, heq, H⟩
  · exact ⟨(), _, heq, H.commit hid hreadable⟩
  · exact absurd (hall H hid h (List.mem_of_mem_drop hh)) hnot

end Session

end GamePlugin
