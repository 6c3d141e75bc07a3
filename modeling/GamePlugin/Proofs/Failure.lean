import GamePlugin.Proofs.Agreement
import GamePlugin.Proofs.Descent
import GamePlugin.Proofs.Operations

/-!
# What a failed load leaves behind

Loading one group keeps what it found only at the end, so a failed load changes nothing. A failed
deep load keeps the groups that it had loaded by then. Every other node has as many processed
headers as before, and no record, child or index entry comes from a header that is not processed.

A node with some headers processed and others not can be there before a load, and then a failed
load leaves it so. Such nodes come from one thing only: cells and worlds are prepared while a file
is opened, but a later group at the top may have the label of a prepared one and another kind.

## Main definitions

* `Session.Exact` — a node holds what its processed headers hold, groups included.
* `Session.Indexed` — the index has no records but those of nodes.
* `Session.Whole` — every node has all or none of its headers processed.
-/

namespace GamePlugin

/-! ## The index of loaded records -/

/-- All records in the index have a property. -/
structure LoadedIndex.All (P : Record → Prop) (x : LoadedIndex) : Prop where
  byForm : ∀ (form : UInt32) r, x.byForm[form]? = some r → P r
  byEditorId : ∀ (name : String) r, x.byEditorId[name]? = some r → P r

namespace LoadedIndex

variable {P Q : Record → Prop} {x : LoadedIndex}

theorem All.empty : ({} : LoadedIndex).All P where
  byForm form r h := by simp at h
  byEditorId name r h := by simp at h

theorem All.imp (h : ∀ r, P r → Q r) (H : x.All P) : x.All Q :=
  ⟨fun form r hr => h r (H.byForm form r hr), fun name r hr => h r (H.byEditorId name r hr)⟩

theorem of_getElem?_insert {κ : Type} [Ord κ] [Std.TransOrd κ] {t : Std.TreeMap κ Record}
    (H : ∀ (k : κ) r, t[k]? = some r → P r) {key k : κ} {r r' : Record} (hr : P r)
    (h : (t.insert key r)[k]? = some r') : P r' := by
  rw [Std.TreeMap.getElem?_insert] at h
  split at h
  · cases h
    exact hr
  · exact H k r' h

theorem All.insert (H : x.All P) {r : Record} (hr : P r) : (x.insert r).All P where
  byForm form k hk := by
    simp only [LoadedIndex.insert] at hk
    split at hk
    · exact H.byForm form k hk
    · exact of_getElem?_insert H.byForm hr hk
  byEditorId name k hk := by
    simp only [LoadedIndex.insert] at hk
    split at hk
    · exact H.byEditorId name k hk
    · exact of_getElem?_insert H.byEditorId hr hk

theorem All.foldl {rs : List Record} (H : x.All P) (hrs : ∀ r ∈ rs, P r) :
    (rs.foldl LoadedIndex.insert x).All P := by
  induction rs generalizing x with
  | nil => exact H
  | cons r rs ih =>
    obtain ⟨hr, hrs⟩ := List.forall_mem_cons.mp hrs
    exact ih (H.insert hr) hrs

end LoadedIndex

namespace Session

variable {src : Source} {tops : List GroupHeader} {ids : List Nat} {s s' : Session} {id : Nat}
  {g : GroupNode}

/-- Every record in the index is held by a node. -/
def Indexed (s : Session) : Prop :=
  s.index.All fun r => ∃ c g, s.group? c = some g ∧ r ∈ g.records.toList

theorem Indexed.of_index_eq_empty (h : s.index = {}) : Indexed s := by
  rw [Indexed, h]
  exact .empty

theorem Indexed.place {h : GroupHeader} (P : Place s none h s') (H : Indexed s) : Indexed s' := by
  have G := P.grows fun p hp => by cases hp
  have hindex : s'.index = s.index := by rw [G.others]
  rw [Indexed, hindex]
  refine H.imp fun r => ?_
  rintro ⟨c, k, hk, hr⟩
  obtain ⟨k', hk', hext⟩ := G.extends_of hk
  exact ⟨c, k', hk', hext.records ▸ hr⟩

theorem Indexed.commit (R : Rooted src tops ids s) (hid : s.group? id = some g)
    (H : Indexed s) : Indexed (s.commit id g.headers.size (foundUnder src id g.waiting)) := by
  obtain ⟨-, G⟩ := R.arena.commit hid g.headers.size (foundUnder src id g.waiting)
  have hindex : (s.commit id g.headers.size (foundUnder src id g.waiting)).index =
      (foundUnder src id g.waiting).records.toList.foldl LoadedIndex.insert s.index := by
    rw [G.others, Array.foldl_toList]
    rfl
  rw [Indexed, hindex]
  refine LoadedIndex.All.foldl (H.imp fun r => ?_) fun r hr => ?_
  · rintro ⟨c, k, hk, hr⟩
    obtain ⟨k', hk', hprefix⟩ := R.toSound.exists_group?_commit hid g.headers.size _ hk
    exact ⟨c, k', hk', hprefix.subset hr⟩
  · obtain ⟨g', hg', -, -, -, hrecords⟩ := R.toSound.group?_commit hid g.headers.size
      (foundUnder src id g.waiting)
    refine ⟨id, g', hg', ?_⟩
    rw [hrecords, Array.toList_append]
    exact List.mem_append_right _ hr

theorem Indexed.alike (A : Alike s s') (H : Indexed s) : Indexed s' := by
  rw [Indexed, A.index_eq]
  refine H.imp fun r => ?_
  rintro ⟨c, k, hk, hr⟩
  obtain ⟨cache, hk'⟩ := A.group?_of hk
  exact ⟨c, _, hk', hr⟩

/-! ## Nodes -/

/-- The node at index `id` holds what its processed headers hold: the records in them are its
records, and the groups in them are the pieces of its children. -/
structure Exact (src : Source) (s : Session) (id : Nat) (g : GroupNode) : Prop
    extends Tidy src id g where
  children : (g.children.toList.flatMap s.headers).Perm (g.done.flatMap src.groupsIn)

theorem Sound.exact (H : Sound src tops s) (hid : s.group? id = some g) : Exact src s id g where
  toTidy := H.tidy hid
  children := by
    have hpieces : s.pieces src tops (some id) = g.done.flatMap src.groupsIn := pieces_of_group? hid
    rw [H.arena.children_eq hid, ← hpieces]
    exact H.arena.perm_pieces (some id)

/-- Every node has all of its headers processed, or none. -/
def Whole (s : Session) : Prop := ∀ c g, s.group? c = some g → g.processed = 0 ∨ g.isLoaded

/-- A node that has read nothing holds no others. -/
theorem Sound.parent_ne_of_processed_eq_zero (H : Sound src tops s) (hid : s.group? id = some g)
    (hzero : g.processed = 0) {c : Nat} {k : GroupNode} (hk : s.group? c = some k) :
    k.parent ≠ some id := by
  intro hp
  have hheaders := H.arena.headers_eq hk
  rw [hp, pieces_of_group? hid, GroupNode.done, hzero] at hheaders
  exact H.arena.headers_ne hk (Array.toList_eq_nil_iff.mp hheaders)

theorem Whole.commit (R : Rooted src tops ids s) (hid : s.group? id = some g) (hnot : ¬g.isLoaded)
    (H : Whole s) : Whole (s.commit id g.headers.size (foundUnder src id g.waiting)) := by
  have hzero : g.processed = 0 := (H id g hid).resolve_right hnot
  intro c k' hk'
  rcases R.toSound.commit_cases hid hk' with
    ⟨rfl, hext, hheaders⟩ | ⟨k, -, hk, hext⟩ | ⟨-, -, hprocessed, -⟩
  · exact .inr (hext.isLoaded_of_recorded hheaders)
  · -- nothing had been read for the node, so the pieces found in it all go to new nodes
    have hsame := hext.headers_eq (R.toSound.parent_ne_of_processed_eq_zero hid hzero hk)
    rw [GroupNode.isLoaded, hext.processed, hsame]
    exact H c k hk
  · exact .inl hprocessed

theorem Whole.alike (A : Alike s s') (H : Whole s) : Whole s' := by
  intro c k hk
  obtain ⟨cache, hk⟩ := A.of_group? hk
  have hwhole := H c _ hk
  exact hwhole

/-! ## Nodes of an opened file -/

/-- What opening has loaded: no group but those at the top, each of them if all of its headers are
to be prepared, and not if none of them is. -/
structure Prepared (eager : Bool) (g : GroupNode) : Prop where
  held : g.parent ≠ none → g.processed = 0
  all : g.parent = none → (∀ h ∈ g.headers.toList, (eager && isSpatial h) = true) → g.isLoaded
  none : g.parent = none → (∀ h ∈ g.headers.toList, (eager && isSpatial h) = false) →
    g.processed = 0

variable {eager : Bool} {h : GroupHeader}

theorem Prepared.of_isLoaded (hp : g.parent = .none) (hh : h ∈ g.headers.toList)
    (hprepare : (eager && isSpatial h) = true) (hloaded : g.isLoaded) : Prepared eager g where
  held hne := absurd hp hne
  all _ _ := hloaded
  none _ hall := by simp [hall h hh] at hprepare

theorem Prepared.extends {owner : Nat} {g' : GroupNode} (H : Prepared eager g)
    (E : Extends (some owner) g g') : Prepared eager g' := by
  have hheaders (hp : g'.parent = .none) : g'.headers = g.headers :=
    E.headers_eq (by rw [← E.parent, hp]; simp)
  constructor
  case held => exact fun hne => E.processed.trans (H.held (E.parent ▸ hne))
  case all =>
    intro hp hall
    rw [GroupNode.isLoaded, E.processed, hheaders hp]
    exact H.all (E.parent ▸ hp) (hheaders hp ▸ hall)
  case none =>
    intro hp hall
    rw [E.processed]
    exact H.none (E.parent ▸ hp) (hheaders hp ▸ hall)

/-- A node that gets the header of a top group keeps that it is not read, if the header is not to
be prepared. -/
theorem Receives.exists_node (R : Receives s id h s')
    (H : ∀ c g, s.group? c = some g → Prepared eager g) :
    ∃ g, s'.group? id = some g ∧ g.parent = none ∧ h ∈ g.headers.toList ∧
      ((∀ k ∈ g.headers.toList, (eager && isSpatial k) = false) → g.processed = 0) := by
  rcases R.node with ⟨g, hg, hp, hg'⟩ | ⟨-, hg'⟩
  · refine ⟨_, hg', hp, by simp, fun hall => ?_⟩
    exact (H id g hg).none hp fun k hk => hall k (by simp [hk])
  · exact ⟨_, hg', rfl, by simp [freshNode], fun _ => rfl⟩

/-- Registering a top group keeps what opening has loaded as it should be. -/
theorem Prepared.registerTop {ids' : List Nat} (R : Rooted src tops ids s)
    (H : ∀ c g, s.group? c = some g → Prepared eager g)
    (heq : Plugin.registerTop eager ids h s = .ok ids' s') :
    ∀ c g, s'.group? c = some g → Prepared eager g := by
  obtain ⟨id, s₁, hreceives, R₁, hload⟩ := R.registerTop_cases heq
  obtain ⟨g₁, hid, hp, hh, hnone⟩ := hreceives.exists_node H
  have hothers : ∀ c g, id ≠ c → s₁.group? c = some g → Prepared eager g := fun c g hc hg =>
    H c g (hreceives.frame (Ne.symm hc) ▸ hg)
  intro c g hg
  rcases hload with ⟨hprepare, hload⟩ | ⟨hprepare, rfl⟩
  · rcases R₁.loadOne_cases id with
      ⟨hsame, hloaded⟩ | ⟨k, hk, -, -, hread⟩ | ⟨k, e, -, -, hfail⟩
    · cases hsame.symm.trans hload
      by_cases hc : id = c
      · subst hc
        cases hid.symm.trans hg
        exact .of_isLoaded hp hh hprepare (hloaded hid)
      · exact hothers c g hc hg
    · cases hread.symm.trans hload
      cases hid.symm.trans hk
      rcases R₁.toSound.commit_cases hid hg with
        ⟨rfl, hext, hheaders⟩ | ⟨k, hc, hk, hext⟩ | ⟨-, hparent, hzero, -⟩
      · exact .of_isLoaded (hext.parent.trans hp) (hheaders ▸ hh) hprepare
          (hext.isLoaded_of_recorded hheaders)
      · exact (hothers c k hc hk).extends hext
      · exact ⟨fun _ => hzero, by simp [hparent], by simp [hparent]⟩
    · cases hfail.symm.trans hload
  · by_cases hc : id = c
    · subst hc
      cases hid.symm.trans hg
      -- the new header waits, so not all headers of this node are to be prepared
      refine ⟨fun hne => absurd hp hne, fun _ hall => ?_, fun _ => hnone⟩
      simp [hall h hh] at hprepare
    · exact hothers c g hc hg

/-- The headers of a node have the node's kind. -/
def Uniform (s : Session) : Prop :=
  ∀ c g, s.group? c = some g → ∀ h ∈ g.headers.toList, h.kind = g.kind

theorem isSpatial_congr {k : GroupHeader} (hlabel : h.label = k.label) (hkind : h.kind = k.kind) :
    isSpatial h = isSpatial k := by
  rw [isSpatial, isSpatial, GroupHeader.labelTag, GroupHeader.labelTag, hlabel, hkind]

/-- What opening has loaded is loaded whole, if no node is put together from headers of different
kinds, or nothing is prepared. -/
theorem Sound.whole_of_prepared (R : Sound src tops s)
    (H : ∀ c g, s.group? c = some g → Prepared eager g) (huniform : eager → Uniform s) :
    Whole s := by
  intro c g hg
  by_cases hp : g.parent = none
  case neg => exact .inl ((H c g hg).held hp)
  cases eager with
  | false => exact .inl ((H c g hg).none hp fun _ _ => rfl)
  | true =>
    have hlabel : ∀ h ∈ g.headers.toList, h.label = g.label := by
      intro h hh
      rw [R.arena.headers_eq hg, hp] at hh
      have hkey : h.key none = g.key := of_decide_eq_true (List.mem_filter.mp hh).2
      exact ((GroupNode.key_eq_iff_of_top hp h).mp hkey.symm).symm
    obtain ⟨k, hk⟩ := List.exists_mem_of_ne_nil g.headers.toList fun hnil =>
      R.arena.headers_ne hg (Array.toList_eq_nil_iff.mp hnil)
    have hspatial : ∀ h ∈ g.headers.toList, isSpatial h = isSpatial k := fun h hh =>
      isSpatial_congr ((hlabel h hh).trans (hlabel k hk).symm)
        ((huniform rfl c g hg h hh).trans (huniform rfl c g hg k hk).symm)
    cases hprepare : isSpatial k with
    | true => exact .inr ((H c g hg).all hp fun h hh => by rw [hspatial h hh, hprepare]; rfl)
    | false => exact .inl ((H c g hg).none hp fun h hh => by rw [hspatial h hh, hprepare]; rfl)

/-! ## Failed loads -/

/-- A load that fails changes nothing. -/
theorem eq_of_load_shallow_error {e : Error} (heq : load id false s = .error e s') : s' = s := by
  cases hone : loadOne id s with
  | ok _ t =>
    rw [load_shallow_of_ok hone] at heq
    cases heq
  | error e' t =>
    rw [load_shallow_of_error hone] at heq
    cases heq
    -- a group is changed only where all of its waiting headers have been scanned
    rw [loadOne_eq] at hone
    split at hone
    case h_1 => cases hone
    case h_2 g hid =>
      split at hone
      case isTrue => cases hone
      case isFalse => cases hscan : g.waiting.foldlM (s.scan g.id) {} <;> simp_all

/-- Where there are no nodes, nothing is loaded and nothing fails. -/
theorem succeeds_loadOne_of_empty (id : Nat) :
    Succeeds (fun s => s.groups = #[]) (loadOne id) := by
  intro s hs
  refine ⟨(), s, ?_, hs⟩
  have hnone : s.group? id = none := by simp [group?, hs]
  simp only [loadOne_eq, hnone]

theorem stable_empty : Stable fun s => s.groups = #[] where
  loadOne id s hs := by
    obtain ⟨_, s', heq, hs'⟩ := succeeds_loadOne_of_empty id s hs
    rwa [after_of_ok heq]
  alike A hs := Array.eq_empty_of_size_eq_zero (by rw [A.size_eq, hs]; rfl)

theorem load_deep_ne_error_of_empty (hs : s.groups = #[]) (e : Error) :
    load id true s ≠ .error e s' := by
  obtain ⟨_, t, hdeep, -⟩ := Succeeds.loadDeep succeeds_loadOne_of_empty s.depthBound id s hs
  rw [load_deep_eq_ok_iff.mpr ⟨hdeep, rfl⟩]
  simp

/-- After a failed deep load a node is loaded, or has as many processed headers as before. -/
theorem Rooted.isLoaded_or_processed_eq (H : Rooted src tops ids s) {e : Error}
    (heq : load id true s = .error e s') {c : Nat} (hg : s'.group? c = some g) :
    g.isLoaded ∨ g.processed = s.processed c := by
  obtain ⟨D, -⟩ := H.descended_loadDeep (.refl id s) (.inl rfl) s.depthBound
  rw [← after_load_deep, after_of_error heq] at D
  by_cases hsame : g.processed = s.processed c
  · exact .inr hsame
  · exact .inl ((D.finished hg hsame).isLoaded hg)

end Session

namespace Plugin

variable {image : Image} {options : Options} {length? : Option Nat} {p : Plugin}
  {s₀ s s' : Session} {id : Nat} {e : Error}

theorem prepared_of_open? (hopen : open? image options length? = .ok (p, s₀)) :
    ∀ c g, s₀.group? c = some g → Session.Prepared options.eager g := by
  have hnone {s : Session} (hgroups : s.groups = #[]) :
      ∀ c g, s.group? c = some g → Session.Prepared options.eager g := by
    intro c g hg
    simp [Session.group?, hgroups] at hg
  rcases of_open? hopen (fun h _ => hnone h) Session.Prepared.registerTop with hprepared | hempty
  · exact hprepared
  · exact hnone hempty

/-- **A failed load keeps no part of a group.** A failed load of one group leaves the session as it
was. After a failed deep load a node is loaded or has as many processed headers as before, it holds
what these hold, and the index has records of nodes only. Nodes with some headers processed and
others not are there only if cells and worlds were prepared and a node has headers of different
kinds. -/
theorem failed_load_clean (hopen : open? image options length? = .ok (p, s₀))
    (hreach : p.Reaches s₀ s) :
    (Session.load id false s = .error e s' → s' = s) ∧
      (Session.load id true s = .error e s' →
        (∀ c g, s'.group? c = some g → (g.isLoaded ∨ g.processed = s.processed c) ∧
          Session.Exact ⟨image, s₀.context, options⟩ s' c g) ∧
        s'.Indexed ∧ ((options.eager → s₀.Uniform) → s'.Whole)) := by
  refine ⟨Session.eq_of_load_shallow_error, fun heq => ?_⟩
  obtain ⟨tops, H₀, -⟩ := exists_rooted_of_open? hopen
  have H := hreach.of_stable Session.Rooted.stable H₀
  -- the failed load is one more operation
  have hafter : Session.after (p.perform (.load id true)) s = s' := by
    rw [perform, Session.after_bind_of_error heq]
  have hreach' : p.Reaches s₀ s' := hafter ▸ hreach.step (.load id true)
  have H' := hreach'.of_stable Session.Rooted.stable H₀
  refine ⟨fun c g hg => ⟨H.isLoaded_or_processed_eq heq hg, H'.toSound.exact hg⟩, ?_, ?_⟩
  · rcases of_open? hopen (fun _ hindex => Session.Indexed.of_index_eq_empty hindex)
      (of_registerTop .place fun R hid _ => .commit R hid) with hindexed | hempty
    · exact (hreach'.rooted_and H₀ hindexed (fun R hid _ => .commit R hid) .alike).2
    · have hs := hreach.of_stable Session.stable_empty hempty
      exact absurd heq (Session.load_deep_ne_error_of_empty hs e)
  · intro huniform
    have hwhole := H₀.toSound.whole_of_prepared (prepared_of_open? hopen) huniform
    exact (hreach'.rooted_and H₀ hwhole .commit .alike).2

/-- A file with two sub-blocks of cells. The cell in the second one cannot be read. -/
def brokenCell : Image :=
  .ofBytes (Draft.encodeAll .tes4
    [.record .TES4 0 ⟨0⟩ [72, 69, 68, 82, 12, 0, 0, 0, 128, 63, 4, 0, 0, 0, 0, 8, 0, 0],
     .group Tag.CELL.code .top
      [.group 0 .interiorCellBlock
        [.group 0 .interiorCellSubBlock [.record .CELL 0 ⟨7⟩ []],
         .group 1 .interiorCellSubBlock [.record .CELL 0 ⟨8⟩ [], .record .CELL 0 ⟨9⟩ [1]]]]])

/-- The first sub-block is loaded when loading fails in the second one, of which nothing is kept. -/
theorem failed_load_clean_brokenCell :
    ∃ p s₀ e s' g k, open? brokenCell { edition := some .oblivion } none = .ok (p, s₀) ∧
      p.Reaches s₀ s₀ ∧ Session.load 0 true s₀ = .error e s' ∧ s'.Whole ∧ s'.Indexed ∧
      s'.group? 2 = some g ∧ g.isLoaded ∧ g.records.size = 1 ∧
      s'.group? 3 = some k ∧ k.processed = 0 ∧ k.records.size = 0 := by
  have hfails : ((open? brokenCell { edition := some .oblivion } none).toOption.map fun x =>
      (((Session.load 0 true).run' x.2).isNone &&
        x.2.groups.toList.all fun g => g.headers.toList.all fun h => decide (h.kind = g.kind),
        ((Session.after (Session.load 0 true) x.2).group? 2).map fun g =>
          (g.isLoaded, g.records.size),
        ((Session.after (Session.load 0 true) x.2).group? 3).map fun g =>
          (g.processed, g.records.size))) = some (true, some (true, 1), some (0, 0)) := by
    decide +kernel
  obtain ⟨⟨p, s₀⟩, hopen, hvalues⟩ := exists_eq_ok_of_map hfails
  simp only [Prod.mk.injEq, Bool.and_eq_true] at hvalues
  obtain ⟨⟨hnone, hkinds⟩, hfirst, hsecond⟩ := hvalues
  obtain ⟨e, heq⟩ := Session.exists_eq_error_of_run' hnone
  have huniform : s₀.Uniform := by
    intro c g hg h hh
    have hmem : g ∈ s₀.groups.toList := Array.mem_toList_iff.mpr (Array.mem_of_getElem? hg)
    exact of_decide_eq_true (List.all_eq_true.mp (List.all_eq_true.mp hkinds g hmem) h hh)
  obtain ⟨-, hindexed, hwhole⟩ := (failed_load_clean hopen .refl).2 heq
  obtain ⟨g, hg, hcounts⟩ := Option.map_eq_some_iff.mp hfirst
  obtain ⟨k, hk, hcounts'⟩ := Option.map_eq_some_iff.mp hsecond
  simp only [Prod.mk.injEq] at hcounts hcounts'
  exact ⟨p, s₀, e, _, g, k, hopen, .refl, heq, hwhole fun _ => huniform, hindexed, hg, hcounts.1,
    hcounts.2, hk, hcounts'.1, hcounts'.2⟩

/-- A file with two groups at the top that have the label of cells, but only one of them has the
kind of top groups. The cell in the other one cannot be read. -/
def mixedCells : Image :=
  .ofBytes (Draft.encodeAll .tes4
    [.record .TES4 0 ⟨0⟩ [72, 69, 68, 82, 12, 0, 0, 0, 128, 63, 4, 0, 0, 0, 0, 8, 0, 0],
     .group Tag.CELL.code .top [.record .CELL 0 ⟨7⟩ []],
     .group Tag.CELL.code .interiorCellBlock [.record .CELL 0 ⟨8⟩ [1]]])

/-- A failed load can leave a node with some headers processed and others not. -/
theorem failed_load_leaves_part :
    ∃ p s₀ e s' g, open? mixedCells { edition := some .oblivion } none = .ok (p, s₀) ∧
      p.Reaches s₀ s₀ ∧ Session.load 0 true s₀ = .error e s' ∧
      s'.group? 0 = some g ∧ g.processed = 1 ∧ g.headers.size = 2 ∧ g.records.size = 1 := by
  have hfails : ((open? mixedCells { edition := some .oblivion } none).toOption.map fun x =>
      (((Session.load 0 true).run' x.2).isNone,
        ((Session.after (Session.load 0 true) x.2).group? 0).map fun g =>
          (g.processed, g.headers.size, g.records.size))) = some (true, some (1, 2, 1)) := by
    decide +kernel
  obtain ⟨⟨p, s₀⟩, hopen, hvalues⟩ := exists_eq_ok_of_map hfails
  simp only [Prod.mk.injEq] at hvalues
  obtain ⟨e, heq⟩ := Session.exists_eq_error_of_run' hvalues.1
  obtain ⟨g, hg, hcounts⟩ := Option.map_eq_some_iff.mp hvalues.2
  simp only [Prod.mk.injEq] at hcounts
  exact ⟨p, s₀, e, _, g, hopen, .refl, heq, hg, hcounts⟩

end Plugin

end GamePlugin
