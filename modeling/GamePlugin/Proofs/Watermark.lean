import GamePlugin.Proofs.Agreement
import GamePlugin.Proofs.Descent
import GamePlugin.Proofs.Operations

/-!
# What a node holds at any time

A node counts the headers that it has processed. Whatever a caller has done so far, the node holds
what these headers hold, each record once and in file order, and nothing of the headers that still
wait. Records are never taken back or replaced, and a node without waiting headers is left alone.

## Main definitions

* `Source.registered` — whether a record's tag has a shape.
* `Session.Holds` — the node holds the records of its processed headers.
* `Session.Counted` — reading is counted, and happens only where a header waits.
* `Session.Appends` — records of nodes stay where they are.
-/

namespace GamePlugin

/-! ## Records of processed headers -/

namespace Source

variable {src : Source}

/-- Whether the record's tag has a shape in the edition. Others are passed over. -/
def registered (src : Source) (h : RecordHeader) : Bool :=
  (src.options.registry.shape? h.tag src.context.edition).isSome

/-- A record that is not refused is read if it is registered, and passed over if not. -/
theorem map_header_record? {h : RecordHeader} (hread : ∃ x, src.read h = .ok x) :
    (src.record? h).map (·.header) = Option.guard src.registered h := by
  obtain ⟨x, hx⟩ := hread
  cases hshape : src.options.registry.shape? h.tag src.context.edition with
  | none =>
    have hnone : src.read h = .ok none := Options.readRecord_of_shape?_eq_none hshape
    have hnot : src.registered h = false := by rw [registered, hshape]; rfl
    rw [record?_of_read hnone, Option.map_none, Option.guard, if_neg (by simp [hnot])]
  | some shape =>
    obtain ⟨r, rfl⟩ := Options.exists_some_of_readRecord hshape hx
    have hregistered : src.registered h = true := by rw [registered, hshape]; rfl
    have hrecord := record?_of_read hx
    rw [hrecord, Option.map_some, header_of_record? hrecord, Option.guard, if_pos hregistered]

/-- The records of a group that can be read are those of its registered headers. -/
theorem map_header_decoded {h : GroupHeader} (H : src.Readable h) :
    (src.decoded h).map (·.header) = (src.recordsIn h).filter src.registered := by
  rw [decoded, List.map_filterMap, ← List.filterMap_eq_filter]
  exact List.filterMap_congr fun r hr => map_header_record? (H.reads r hr)

end Source

namespace Session

/-- The node at index `id` holds the registered records that lie directly in its processed headers,
in file order. -/
structure Holds (src : Source) (id : Nat) (g : GroupNode) : Prop where
  processed_le : g.processed ≤ g.headers.size
  /-- The payload of a processed header is cut into chunks exactly. -/
  run : ∀ h ∈ g.done, Chunk.Run src.image src.context.schema (src.chunksIn h) h.position h.stop
  headers_eq : g.records.toList.map (·.header) =
    ((g.done.flatMap src.recordsIn).filter src.registered).map (·.under (some id))
  /-- Every record is what the file says at its header. -/
  read_eq : ∀ r ∈ g.records.toList, src.read r.header = .ok (some r)
  pairwise : g.records.toList.Pairwise (·.header.position < ·.header.position)

variable {src : Source} {tops : List GroupHeader} {ids : List Nat} {s s' : Session} {id : Nat}
  {g : GroupNode}

theorem Tidy.headers_eq (H : Tidy src id g) :
    g.records.toList.map (·.header) =
      ((g.done.flatMap src.recordsIn).filter src.registered).map (·.under (some id)) := by
  have hheaders : (g.done.flatMap src.decoded).map (·.header) =
      (g.done.flatMap src.recordsIn).filter src.registered := by
    rw [List.map_flatMap, List.filter_flatMap]
    exact List.flatMap_congr fun h hh => Source.map_header_decoded (H.readable h hh)
  rw [H.records_eq, ← hheaders, List.map_map, List.map_map]
  rfl

theorem Tidy.read_eq (H : Tidy src id g) {r : Record} (hr : r ∈ g.records.toList) :
    src.read r.header = .ok (some r) := by
  rw [H.records_eq] at hr
  obtain ⟨r₀, hr₀, rfl⟩ := List.mem_map.mp hr
  obtain ⟨h, hh, hdecoded⟩ := List.mem_flatMap.mp hr₀
  obtain ⟨k, hk, hrecord⟩ := List.mem_filterMap.mp hdecoded
  obtain ⟨x, hx⟩ := (H.readable h hh).reads k hk
  cases (Source.record?_of_read hx).symm.trans hrecord
  have hheader : (r₀.under (some id)).header = k.under (some id) :=
    congrArg (RecordHeader.under · (some id)) (Source.header_of_record? hrecord)
  rw [hheader]
  exact Source.read_under_of_read hx

theorem Sound.holds (H : Sound src tops s) (htops : tops.Pairwise (·.stop < ·.position))
    (hid : s.group? id = some g) : Holds src id g where
  processed_le := (H.tidy hid).processed_le
  run h hh := ((H.tidy hid).readable h hh).run
  headers_eq := (H.tidy hid).headers_eq
  read_eq _ hr := (H.tidy hid).read_eq hr
  pairwise := H.pairwise_records htops hid

/-! ## Counting -/

/-- Every time that something is read for a node is counted, and it is read only if a header
waits. -/
def Counted (s : Session) : Prop :=
  ∀ c k, s.group? c = some k → k.passes ≤ k.processed ∧ (k.passes = 0 ↔ k.processed = 0)

theorem Counted.of_groups_eq_empty (h : s.groups = #[]) : Counted s := by
  intro c k hk
  simp [group?, h] at hk

theorem Counted.place {h : GroupHeader} (P : Place s none h s') (H : Counted s) : Counted s' := by
  have G := P.grows fun p hp => by cases hp
  intro c k' hk'
  cases hk : s.group? c with
  | some k =>
    obtain ⟨k'', hk'', hext⟩ := G.extends_of hk
    cases hk''.symm.trans hk'
    rw [hext.passes, hext.processed]
    exact H c _ hk
  | none =>
    obtain ⟨-, hprocessed, -, hpasses⟩ := G.fresh hk hk'
    rw [hpasses, hprocessed]
    exact ⟨Nat.le_refl _, Iff.rfl⟩

theorem Counted.commit (R : Rooted src tops ids s) (hid : s.group? id = some g)
    (hnot : ¬g.isLoaded) (H : Counted s) :
    Counted (s.commit id g.headers.size (foundUnder src id g.waiting)) := by
  intro c k' hk'
  rcases R.toSound.commit_cases hid hk' with
    ⟨rfl, hext, -⟩ | ⟨k, -, hk, hext⟩ | ⟨-, -, hprocessed, -, hpasses⟩
  · have hpasses : k'.passes = g.passes + 1 := hext.passes
    have hprocessed : k'.processed = g.headers.size := hext.processed
    have hle := (R.tidy hid).processed_le
    have hne : g.processed ≠ g.headers.size := fun heq => hnot (decide_eq_true heq)
    have hcount := (H id g hid).1
    omega
  · rw [hext.passes, hext.processed]
    exact H c _ hk
  · rw [hpasses, hprocessed]
    exact ⟨Nat.le_refl _, Iff.rfl⟩

theorem Counted.alike (A : Alike s s') (H : Counted s) : Counted s' := by
  intro c k hk
  obtain ⟨cache, hk⟩ := A.of_group? hk
  have hcount := H c _ hk
  exact hcount

/-! ## Growing and resting -/

/-- The records of every node are still there, in front of what has been added. -/
def Appends (s s' : Session) : Prop :=
  ∀ c k, s.group? c = some k →
    ∃ k', s'.group? c = some k' ∧ k.records.toList <+: k'.records.toList

variable {s₀ : Session}

theorem Appends.refl (s : Session) : Appends s s := fun _ k hk => ⟨k, hk, List.prefix_refl _⟩

theorem Appends.commit (R : Rooted src tops ids s) (hid : s.group? id = some g)
    (H : Appends s₀ s) : Appends s₀ (s.commit id g.headers.size (foundUnder src id g.waiting)) := by
  intro c k hk
  obtain ⟨k', hk', hprefix⟩ := H c k hk
  obtain ⟨k'', hk'', hprefix'⟩ := R.toSound.exists_group?_commit hid g.headers.size _ hk'
  exact ⟨k'', hk'', hprefix.trans hprefix'⟩

theorem Appends.alike (A : Alike s s') (H : Appends s₀ s) : Appends s₀ s' := by
  intro c k hk
  obtain ⟨k', hk', hprefix⟩ := H c k hk
  obtain ⟨cache, hk''⟩ := A.group?_of hk'
  exact ⟨_, hk'', hprefix⟩

/-- Loading a node without waiting headers changes nothing. -/
theorem load_of_isLoaded (hid : s.group? id = some g) (hloaded : g.isLoaded) :
    load id false s = .ok g.records.toList s := by
  have hone : loadOne id s = .ok () s := by
    simp only [loadOne_eq, hid, if_pos hloaded]
  have hrecords : s.records id = g.records.toList := by
    rw [records, hid]
    rfl
  rw [load_shallow_of_ok hone, hrecords]

/-- Loading deep leaves a node without waiting headers as it is, and gives its records, if it does
not fail further down. -/
theorem Rooted.load_deep_of_isLoaded (H : Rooted src tops ids s) (hid : s.group? id = some g)
    (hloaded : g.isLoaded) :
    (after (load id true) s).group? id = some g ∧
      ∀ {rs t}, load id true s = .ok rs t → rs = g.records.toList := by
  have hspares : (after (loadDeep s.depthBound id) s).group? id = some g :=
    (H.descended_loadDeep (.refl id s) (.inl rfl) s.depthBound).2 id g (.start hid hloaded) hid
  refine ⟨?_, fun {rs t} hload => ?_⟩
  · rwa [after_load_deep]
  · obtain ⟨hdeep, rfl⟩ := load_deep_eq_ok_iff.mp hload
    rw [after_of_ok hdeep] at hspares
    rw [records, hspares]
    rfl

end Session

/-! ## The main result -/

/-- **A node holds the records of its processed headers and nothing else.** This is so whatever a
caller has done with an open plugin. Further operations only append to the records. Loading a node
without waiting headers changes nothing there and gives these records again, and something was read
for a node no more often than it has processed headers. -/
theorem Plugin.nodes_hold_processed {image : Image} {options : Options} {length? : Option Nat}
    {p : Plugin} {s₀ s : Session} (hopen : open? image options length? = .ok (p, s₀))
    (hreach : p.Reaches s₀ s) {id : Nat} {g : GroupNode} (hid : s.group? id = some g) :
    Session.Holds ⟨image, s₀.context, options⟩ id g ∧
      (∀ t, p.Reaches s t →
        ∃ g', t.group? id = some g' ∧ g.records.toList <+: g'.records.toList) ∧
      (g.isLoaded → Session.load id false s = .ok g.records.toList s ∧
        (Session.after (Session.load id true) s).group? id = some g ∧
        ∀ rs t, Session.load id true s = .ok rs t → rs = g.records.toList) ∧
      g.passes ≤ g.processed ∧ (g.passes = 0 ↔ g.processed = 0) := by
  obtain ⟨tops, H₀, htops⟩ := exists_rooted_of_open? hopen
  have hcounted₀ : s₀.Counted := by
    rcases of_open? hopen (fun h _ => Session.Counted.of_groups_eq_empty h)
      (of_registerTop .place .commit) with hcounted | hempty
    · exact hcounted
    · exact .of_groups_eq_empty hempty
  obtain ⟨H, hcounted⟩ := hreach.rooted_and H₀ hcounted₀ .commit .alike
  refine ⟨H.toSound.holds htops hid, fun t ht => ?_, fun hloaded => ?_, hcounted id g hid⟩
  · have happends := ht.rooted_and H (Session.Appends.refl s) (fun R hid _ => .commit R hid) .alike
    exact happends.2 id g hid
  · obtain ⟨hnode, hrecords⟩ := H.load_deep_of_isLoaded hid hloaded
    exact ⟨Session.load_of_isLoaded hid hloaded, hnode, fun rs t => hrecords⟩

/-- Of the two records in a group, one has no shape. The other is held once the group is loaded, and
loading it again gives that one. -/
theorem Plugin.nodes_hold_processed_splitCells :
    ∃ p s₀ s g, open? splitCells { edition := some .oblivion } none = .ok (p, s₀) ∧
      p.Reaches s₀ s ∧ s.group? 2 = some g ∧ g.isLoaded ∧ g.processed = 1 ∧ g.records.size = 1 ∧
      Session.Holds ⟨splitCells, s₀.context, { edition := some .oblivion }⟩ 2 g ∧
      Session.load 2 false s = .ok g.records.toList s ∧ g.passes ≠ 0 := by
  have hload : ((open? splitCells { edition := some .oblivion } none).toOption.map fun x =>
      ((Session.after (x.1.perform .loadAll) x.2).group? 2).map fun g =>
        (g.isLoaded, g.processed, g.records.size)) = some (some (true, 1, 1)) := by
    decide +kernel
  obtain ⟨⟨p, s₀⟩, hopen, hnode⟩ := exists_eq_ok_of_map hload
  obtain ⟨g, hid, hcounts⟩ := Option.map_eq_some_iff.mp hnode
  simp only [Prod.mk.injEq] at hcounts
  obtain ⟨hloaded, hprocessed, hrecords⟩ := hcounts
  have hreach : p.Reaches s₀ (Session.after (p.perform .loadAll) s₀) := .step .refl .loadAll
  obtain ⟨hholds, -, hrest, -, hpasses⟩ := nodes_hold_processed hopen hreach hid
  refine ⟨p, s₀, _, g, hopen, hreach, hid, hloaded, hprocessed, hrecords, hholds,
    (hrest hloaded).1, ?_⟩
  omega

end GamePlugin
