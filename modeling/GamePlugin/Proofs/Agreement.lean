import GamePlugin.Draft
import GamePlugin.Outline.Decode
import GamePlugin.Proofs.Opening

/-!
# Loading and outlining find the same records

A file can be read in two ways. Loading follows group headers piece by piece and keeps what it reads
in the nodes of an arena, where pieces of one group are merged. Outlining walks the whole file once
and reads each record on its own. Where both accept a file, they find the same records.

Both are compared with the forest of the file. The headers of a session in which all is loaded are
those at the top of the file and those inside of a header of the session; the group headers of a
forest are the same fixpoint; and there is only one, since a group is smaller than what holds it
(`perm_of_unfold`).

## Main definitions

* `Forest.groupHeaders` — all group headers of a forest.
* `Outline.loadable` — the entries whose records loading has to read.
-/

namespace GamePlugin

/-! ## Unfolding -/

/-- Members that contribute nothing may be left out. -/
theorem flatMap_filter_of_eq_nil {α β : Type} {p : α → Bool} {f : α → List β} {xs : List α}
    (h : ∀ x ∈ xs, ¬p x → f x = []) : (xs.filter p).flatMap f = xs.flatMap f := by
  induction xs with
  | nil => rfl
  | cons x xs ih =>
    have hxs := ih fun y hy => h y (List.mem_cons_of_mem x hy)
    by_cases hx : p x
    · rw [List.filter_cons_of_pos hx, List.flatMap_cons, List.flatMap_cons, hxs]
    · rw [List.filter_cons_of_neg hx, List.flatMap_cons, h x List.mem_cons_self hx, hxs]
      rfl

/-- A collection that consists of some seeds and of all that its members hold is determined by the
seeds, if members are larger than what they hold. -/
theorem perm_of_unfold {α : Type} {size : α → Nat} {inner : α → List α}
    (hlt : ∀ a, ∀ b ∈ inner a, size b < size a) {seeds xs ys : List α}
    (hxs : xs.Perm (seeds ++ xs.flatMap inner)) (hys : ys.Perm (seeds ++ ys.flatMap inner)) :
    xs.Perm ys := by
  -- the members of size `k` and more unfold to the seeds of that size and what larger members hold
  have hunfold {zs : List α} (hzs : zs.Perm (seeds ++ zs.flatMap inner)) (k : Nat) :
      (zs.filter (k ≤ size ·)).Perm (seeds.filter (k ≤ size ·) ++
        (zs.filter (k + 1 ≤ size ·)).flatMap fun a => (inner a).filter (k ≤ size ·)) := by
    have hsmall : ∀ a ∈ zs, ¬decide (k + 1 ≤ size a) → (inner a).filter (k ≤ size ·) = [] := by
      intro a _ ha
      refine List.filter_eq_nil_iff.mpr fun b hb hk => ?_
      have := hlt a b hb
      simp only [decide_eq_true_eq] at ha hk
      omega
    rw [flatMap_filter_of_eq_nil hsmall, ← List.filter_flatMap, ← List.filter_append]
    exact hzs.filter _
  have hlarge : ∀ d k, (∀ a ∈ xs ++ ys, size a < k + d) →
      (xs.filter (k ≤ size ·)).Perm (ys.filter (k ≤ size ·)) := by
    intro d
    induction d with
    | zero =>
      intro k hk
      have hnone {zs : List α} (hzs : ∀ a ∈ zs, size a < k) : zs.filter (k ≤ size ·) = [] :=
        List.filter_eq_nil_iff.mpr fun a ha => by simpa using hzs a ha
      rw [hnone fun a ha => hk a (List.mem_append_left ys ha),
        hnone fun a ha => hk a (List.mem_append_right xs ha)]
    | succ d ih =>
      intro k hk
      have hrest := ih (k + 1) fun a ha => by
        have := hk a ha
        omega
      exact (hunfold hxs k).trans
        (((hrest.flatMap_right _).append_left _).trans (hunfold hys k).symm)
  have hbound : ∃ d, ∀ a ∈ xs ++ ys, size a < 0 + d := by
    induction xs ++ ys with
    | nil => exact ⟨0, by simp⟩
    | cons a as ih =>
      obtain ⟨d, hd⟩ := ih
      refine ⟨d + size a + 1, fun b hb => ?_⟩
      rcases List.mem_cons.mp hb with rfl | hb
      · omega
      · have := hd b hb
        omega
  obtain ⟨d, hd⟩ := hbound
  simpa using hlarge d 0 hd

/-! ## What a forest holds -/

namespace Forest

variable {src : Source} {f : Forest} {pos stop : Nat}

/-- All group headers at any depth, in file order. -/
def groupHeaders : Forest → List GroupHeader
  | nil => []
  | record _ rest => rest.groupHeaders
  | group h inside rest => h :: (inside.groupHeaders ++ rest.groupHeaders)

theorem chunksIn_eq {h : GroupHeader}
    (H : f.Fills src.image src.context.schema h.position h.stop) : src.chunksIn h = f.chunks :=
  Source.chunksIn_of_run H.run

/-- The chunks at any depth are those at the top, and those directly in some group. -/
theorem Fills.perm_chunks (H : f.Fills src.image src.context.schema pos stop)
    (owner : Option Nat) (n : Nat) :
    ((f.placed owner n).map (·.chunk)).Perm (f.chunks ++ f.groupHeaders.flatMap src.chunksIn) := by
  induction f generalizing pos stop owner n with
  | nil => exact .nil
  | record h rest ih => exact (ih H.2.2 owner n).cons _
  | group h inside rest ihi ihr =>
    obtain ⟨-, -, hinside, hrest⟩ := H
    simp only [placed, groupHeaders, chunks, List.map_cons, List.map_append, List.flatMap_cons,
      List.flatMap_append, List.cons_append, chunksIn_eq hinside]
    refine List.Perm.cons _ (((ihi hinside _ _).append (ihr hrest _ _)).trans ?_)
    refine (List.perm_append_comm_assoc _ _ _).trans ?_
    rw [List.append_assoc]

theorem filterMap_group?_placed (f : Forest) (owner : Option Nat) (n : Nat) :
    ((f.placed owner n).map (·.chunk)).filterMap Chunk.group? = f.groupHeaders := by
  induction f generalizing owner n with
  | nil => rfl
  | record h rest ih => exact ih owner n
  | group h inside rest ihi ihr =>
    simp only [placed, groupHeaders, List.map_cons, List.map_append, List.filterMap_cons,
      List.filterMap_append, Chunk.group?_group, ihi, ihr]

theorem filterMap_record?_placed (f : Forest) (owner : Option Nat) (n : Nat) :
    ((f.placed owner n).map (·.chunk)).filterMap Chunk.record? =
      (f.recordEntries owner n).map (·.header) := by
  rw [recordEntries, List.map_filterMap, List.filterMap_map]
  refine List.filterMap_congr ?_
  rintro ⟨owner, r | g⟩ - <;> rfl

/-- The group headers are those at the top, and those directly in one of them. -/
theorem Fills.perm_groupHeaders (H : f.Fills src.image src.context.schema pos stop) :
    f.groupHeaders.Perm
      (f.chunks.filterMap Chunk.group? ++ f.groupHeaders.flatMap src.groupsIn) := by
  have hperm := (H.perm_chunks none 0).filterMap Chunk.group?
  rwa [filterMap_group?_placed, List.filterMap_append, List.filterMap_flatMap] at hperm

/-- The records at any depth are those at the top, and those directly in some group. -/
theorem Fills.perm_recordEntries (H : f.Fills src.image src.context.schema pos stop)
    (owner : Option Nat) (n : Nat) :
    ((f.recordEntries owner n).map (·.header)).Perm
      (f.chunks.filterMap Chunk.record? ++ f.groupHeaders.flatMap src.recordsIn) := by
  have hperm := (H.perm_chunks owner n).filterMap Chunk.record?
  rwa [filterMap_record?_placed, List.filterMap_append, List.filterMap_flatMap] at hperm

/-- The records in groups are those directly in some group. -/
theorem Fills.perm_heldEntries (H : f.Fills src.image src.context.schema pos stop) (n : Nat) :
    (((f.recordEntries none n).filter (·.group.isSome)).map (·.header)).Perm
      (f.groupHeaders.flatMap src.recordsIn) := by
  induction f generalizing pos stop n with
  | nil => exact .nil
  | record h rest ih => exact ih H.2.2 n
  | group h inside rest _ ihr =>
    obtain ⟨-, -, hinside, hrest⟩ := H
    have hin : src.recordsIn h = inside.chunks.filterMap Chunk.record? := by
      rw [Source.recordsIn, chunksIn_eq hinside]
    have hall : (inside.recordEntries (some n) (n + 1)).filter (·.group.isSome) =
        inside.recordEntries (some n) (n + 1) := by
      refine List.filter_eq_self.mpr fun e he => ?_
      obtain ⟨p, hp, hrecord⟩ := List.mem_filterMap.mp he
      obtain ⟨r, -, rfl⟩ := Option.map_eq_some_iff.mp hrecord
      rcases owner_of_mem_placed hp with howner | ⟨i, howner, -⟩ <;> simp [howner]
    simp only [recordEntries_group, groupHeaders, List.filter_append, hall, List.map_append,
      List.flatMap_cons, List.flatMap_append, hin]
    rw [← List.append_assoc]
    exact (hinside.perm_recordEntries _ _).append (ihr hrest _)

/-- The payload of every group in a forest is cut into chunks, and lies in the forest's range. -/
theorem Fills.run_of_mem (H : f.Fills src.image src.context.schema pos stop) {h : GroupHeader}
    (hh : h ∈ f.groupHeaders) :
    Chunk.Run src.image src.context.schema (src.chunksIn h) h.position h.stop ∧
      h.stop ≤ stop := by
  induction f generalizing pos stop with
  | nil => cases hh
  | record r rest ih => exact ih H.2.2 hh
  | group g inside rest ihi ihr =>
    obtain ⟨-, -, hinside, hrest⟩ := H
    simp only [groupHeaders, List.mem_cons, List.mem_append] at hh
    rcases hh with rfl | hh | hh
    · rw [chunksIn_eq hinside]
      exact ⟨hinside.run, hrest.le⟩
    · obtain ⟨hrun, hle⟩ := ihi hinside hh
      exact ⟨hrun, Nat.le_trans hle hrest.le⟩
    · exact ihr hrest hh

theorem Fills.stop_le_of_top (H : f.Fills src.image src.context.schema pos stop) :
    ∀ h ∈ f.chunks.filterMap Chunk.group?, h.stop ≤ stop := by
  intro h hh
  obtain ⟨c, hc, hgroup⟩ := List.mem_filterMap.mp hh
  rcases c with r | g <;> cases hgroup
  exact (H.run.bounds hc).2

/-- The groups at the top follow one another. -/
theorem Fills.pairwise_tops (H : f.Fills src.image src.context.schema pos stop) :
    (f.chunks.filterMap Chunk.group?).Pairwise (·.stop < ·.position) :=
  Chunk.pairwise_groups H.run.pairwise_lt

end Forest

/-! ## What a loaded session holds -/

namespace Session

variable {src : Source} {tops : List GroupHeader} {s : Session} {id : Nat} {g : GroupNode}

/-- A property of the headers at the top that passes on to what they hold is one of all headers. -/
theorem Sound.forall_headers {Q : GroupHeader → Prop} (H : Sound src tops s)
    (htops : ∀ h ∈ tops, Q h) (hin : ∀ h, Q h → ∀ k ∈ src.groupsIn h, Q k)
    (hid : s.group? id = some g) : ∀ h ∈ g.headers.toList, Q h := by
  induction id using Nat.strongRecOn generalizing g with
  | ind id ih =>
    intro h hh
    rw [H.arena.headers_eq hid] at hh
    have hpiece := List.mem_of_mem_filter hh
    cases hp : g.parent with
    | none =>
      rw [hp] at hpiece
      exact htops h hpiece
    | some p =>
      have hlt := H.arena.parent_lt hid hp
      obtain ⟨k, hk⟩ := group?_of_lt (Nat.lt_trans hlt (lt_of_group? hid))
      rw [hp, pieces_of_group? hk] at hpiece
      obtain ⟨h', hh', hmem⟩ := List.mem_flatMap.mp hpiece
      exact hin h' (ih p hlt hk h' (List.mem_of_mem_take hh')) h hmem

/-- Once all groups are loaded, the headers are those at the top and those directly in one. -/
theorem Sound.perm_headers (H : Sound src tops s)
    (hloaded : ∀ {id g}, s.group? id = some g → g.isLoaded) :
    ((List.range s.groups.size).flatMap s.headers).Perm
      (tops ++ ((List.range s.groups.size).flatMap s.headers).flatMap src.groupsIn) := by
  have hpieces : ((List.range s.groups.size).flatMap fun p => s.pieces src tops (some p)) =
      ((List.range s.groups.size).flatMap s.headers).flatMap src.groupsIn := by
    rw [List.flatMap_assoc]
    refine List.flatMap_congr fun p hp => ?_
    obtain ⟨g, hg⟩ := group?_of_lt (List.mem_range.mp hp)
    rw [pieces_of_group? hg, GroupNode.done_of_isLoaded (hloaded hg), headers, hg]
    rfl
  rw [← hpieces]
  exact H.arena.perm_headers

theorem flatMap_eq_flatMap_range {α β : Type} (f : α → List β) (xs : List α) :
    xs.flatMap f = (List.range xs.length).flatMap fun i => (xs[i]?.map f).getD [] := by
  induction xs with
  | nil => rfl
  | cons x xs ih =>
    rw [List.length_cons, List.range_succ_eq_map, List.flatMap_cons, List.flatMap_cons,
      List.flatMap_map, ih]
    rfl

/-- Once all groups are loaded, the records are those directly in some header. -/
theorem Sound.records_eq (H : Sound src tops s)
    (hloaded : ∀ {id g}, s.group? id = some g → g.isLoaded) :
    (s.groups.toList.flatMap (·.records.toList)).map (·.under none) =
      ((List.range s.groups.size).flatMap s.headers).flatMap src.decoded := by
  rw [flatMap_eq_flatMap_range, List.map_flatMap, List.flatMap_assoc, Array.length_toList]
  refine List.flatMap_congr fun id hid => ?_
  obtain ⟨g, hg⟩ := group?_of_lt (List.mem_range.mp hid)
  have hget : s.groups.toList[id]? = some g := by
    rw [Array.getElem?_toList]
    exact hg
  rw [hget, headers, hg]
  simp only [Option.map_some, Option.getD_some]
  rw [(H.tidy hg).records_eq, GroupNode.done_of_isLoaded (hloaded hg), List.map_map]
  refine (List.map_congr_left fun r hr => ?_).trans (List.map_id _)
  obtain ⟨h, -, hrh⟩ := List.mem_flatMap.mp hr
  exact Source.under_none_of_mem_decoded hrh

/-! ## File order -/

/-- What groups that follow one another hold does so, with the headers counted in. -/
theorem pairwise_chunksIn_add {hs : List GroupHeader} (hpair : hs.Pairwise (·.stop < ·.position)) :
    (hs.flatMap src.chunksIn).Pairwise fun a b =>
      a.stop + b.headerSize src.context.schema ≤ b.position := by
  refine List.pairwise_flatMap.mpr ⟨fun h _ => ?_, hpair.imp fun {h k} hlt a ha b hb => ?_⟩
  · cases hcs : src.chunksIn h with
    | nil => exact .nil
    | cons c cs =>
      have hrun := Source.run_of_mem_chunksIn (hcs ▸ List.mem_cons_self : c ∈ src.chunksIn h)
      rw [← hcs]
      exact hrun.pairwise
  · have hup := ((Source.run_of_mem_chunksIn ha).bounds ha).2
    have hlo := ((Source.run_of_mem_chunksIn hb).bounds hb).1
    omega

theorem pairwise_chunksIn {hs : List GroupHeader} (hpair : hs.Pairwise (·.stop < ·.position)) :
    (hs.flatMap src.chunksIn).Pairwise fun a b => a.stop < b.position :=
  (pairwise_chunksIn_add hpair).imp fun {a b} hle => by
    have := b.headerSize_pos src.context.schema
    omega

/-- The headers of a node follow one another. -/
theorem Sound.pairwise_headers (H : Sound src tops s) (htops : tops.Pairwise (·.stop < ·.position))
    (hid : s.group? id = some g) : g.headers.toList.Pairwise (·.stop < ·.position) := by
  induction id using Nat.strongRecOn generalizing g with
  | ind id ih =>
    rw [H.arena.headers_eq hid]
    refine List.Pairwise.filter _ ?_
    cases hp : g.parent with
    | none => exact htops
    | some p =>
      have hlt := H.arena.parent_lt hid hp
      obtain ⟨k, hk⟩ := group?_of_lt (Nat.lt_trans hlt (lt_of_group? hid))
      have hdone : k.done.Pairwise (·.stop < ·.position) :=
        (ih p hlt hk).sublist (List.take_sublist ..)
      rw [pieces_of_group? hk]
      have hgroups : k.done.flatMap src.groupsIn =
          (k.done.flatMap src.chunksIn).filterMap Chunk.group? := by
        rw [List.filterMap_flatMap]
        rfl
      rw [hgroups]
      exact Chunk.pairwise_groups (pairwise_chunksIn hdone)

/-- The records of a node are in file order. -/
theorem Sound.pairwise_records (H : Sound src tops s) (htops : tops.Pairwise (·.stop < ·.position))
    (hid : s.group? id = some g) :
    g.records.toList.Pairwise (·.header.position < ·.header.position) := by
  have hdone : g.done.Pairwise (·.stop < ·.position) :=
    (H.pairwise_headers htops hid).sublist (List.take_sublist ..)
  have hdecoded : g.done.flatMap src.decoded =
      (g.done.flatMap src.chunksIn).filterMap fun c => c.record?.bind src.record? := by
    rw [List.filterMap_flatMap]
    refine List.flatMap_congr fun h _ => ?_
    rw [Source.decoded, Source.recordsIn, List.filterMap_filterMap]
  rw [(H.tidy hid).records_eq, hdecoded]
  refine List.Pairwise.map _ (fun a b hab => hab) ((pairwise_chunksIn hdone).filterMap _ ?_)
  intro a b hab r hr k hk
  obtain ⟨ra, hra, hr'⟩ := Option.bind_eq_some_iff.mp hr
  obtain ⟨rb, hrb, hk'⟩ := Option.bind_eq_some_iff.mp hk
  have hle := a.position_le_stop
  rcases a with a | a <;> cases hra
  rcases b with b | b <;> cases hrb
  show r.header.position < k.header.position
  rw [Source.header_of_record? hr', Source.header_of_record? hk']
  exact Nat.lt_of_le_of_lt hle hab

end Session

/-! ## Reading by outline -/

namespace Options

variable {options : Options} {image : Image} {context : Context} {h : RecordHeader}

/-- A record whose tag has no shape is passed over. -/
theorem readRecord_of_shape?_eq_none
    (hshape : options.registry.shape? h.tag context.edition = none) :
    options.readRecord image context h = .ok none := by
  simp only [readRecord, shapeFor, hshape]
  rfl

/-- A record whose tag has a shape is read or refused. -/
theorem exists_some_of_readRecord {shape : Shape} {x : Option Record}
    (hshape : options.registry.shape? h.tag context.edition = some shape)
    (hx : options.readRecord image context h = .ok x) : ∃ r, x = some r := by
  simp only [readRecord, shapeFor, hshape] at hx
  split at hx
  · cases hx
  · simp only [pure_bind] at hx
    split at hx
    · cases hx
    · cases hdecode : Record.decode h shape (image.slice h.position h.dataSize.toNat) context
        options.maxRecordSize with
      | error e => rw [hdecode] at hx; cases hx
      | ok r => rw [hdecode] at hx; cases hx; exact ⟨r, rfl⟩

end Options

namespace Outline

/-- Inside the file, reading by outline is reading. -/
theorem decodeEntry_eq {image : Image} (context : Context) (options : Options) {e : RecordEntry}
    (h : e.header.stop ≤ image.size) :
    decodeEntry image context options e = options.readRecord image context e.header := by
  have hlen : (image.slice e.header.position e.header.dataSize.toNat).length =
      e.header.dataSize.toNat := by
    rw [Image.length_slice]
    simp only [RecordHeader.stop] at h
    omega
  rw [decodeEntry, Options.readRecord]
  cases options.shapeFor context.edition e.header with
  | error e => rfl
  | ok shape? =>
    cases shape? with
    | none => rfl
    | some shape => simp [bind, Except.bind, hlen, Nat.not_lt.mpr h]

/-- The entries whose records loading has to read: those in a group whose tag has a shape in the
edition. -/
def loadable (o : Outline) (options : Options) (edition : Edition) : List RecordEntry :=
  o.records.toList.filter fun e =>
    e.group.isSome && (options.registry.shape? e.header.tag edition).isSome

theorem mem_loadable {o : Outline} {options : Options} {edition : Edition} {e : RecordEntry} :
    e ∈ o.loadable options edition ↔ e ∈ o.records.toList ∧ e.group.isSome ∧
      ∃ shape, options.registry.shape? e.header.tag edition = some shape := by
  simp [loadable, Option.isSome_iff_exists]

end Outline

theorem mapM_eq_ok_map_some {α β : Type} {p : α → Except Error (Option β)} {q : α → Option β}
    {xs : List α} (h : ∀ x ∈ xs, ∃ b, p x = .ok (some b) ∧ q x = some b) :
    xs.mapM p = .ok ((xs.filterMap q).map some) := by
  induction xs with
  | nil => rfl
  | cons x xs ih =>
    obtain ⟨b, hp, hq⟩ := h x List.mem_cons_self
    rw [List.mapM_cons, hp, ih fun y hy => h y (List.mem_cons_of_mem x hy),
      List.filterMap_cons_some hq]
    rfl

namespace Forest

variable {src : Source} {f : Forest} {stop length : Nat}

/-- The entries of a forest's outline, and the headers in its groups. -/
theorem Fills.mem_recordsIn_iff (H : f.Fills src.image src.context.schema 0 stop)
    {r : RecordHeader} :
    (∃ h ∈ f.groupHeaders, r ∈ src.recordsIn h) ↔
      ∃ e ∈ f.recordEntries none 0, e.group.isSome ∧ e.header = r := by
  rw [← List.mem_flatMap, ← (H.perm_heldEntries 0).mem_iff, List.mem_map]
  simp [and_assoc]

theorem Fills.read_eq (H : f.Fills src.image src.context.schema 0 src.image.size)
    {e : Outline.RecordEntry} (he : e ∈ f.recordEntries none 0) :
    Outline.decodeEntry src.image src.context src.options e = src.read e.header := by
  obtain ⟨p, hp, hrecord⟩ := List.mem_filterMap.mp he
  obtain ⟨r, hr, rfl⟩ := Option.map_eq_some_iff.mp hrecord
  have hstop := (H.position_of_mem_placed hp).2
  rcases p with ⟨owner, r' | g⟩ <;> cases hr
  exact Outline.decodeEntry_eq src.context src.options hstop

/-- All groups can be read exactly if the outline's entries can be decoded. -/
theorem Fills.readable_iff (H : f.Fills src.image src.context.schema 0 src.image.size)
    (length : Nat) :
    (∀ h ∈ f.groupHeaders, src.Readable h) ↔
      ∀ e ∈ (Outline.ofForest src.context.schema length f).loadable src.options src.context.edition,
        ∃ x, Outline.decodeEntry src.image src.context src.options e = .ok x := by
  constructor
  · intro hall e he
    obtain ⟨hmem, hheld, -⟩ := Outline.mem_loadable.mp he
    obtain ⟨h, hh, hr⟩ := H.mem_recordsIn_iff.mpr ⟨e, hmem, hheld, rfl⟩
    rw [H.read_eq hmem]
    exact (hall h hh).reads e.header hr
  · intro hall h hh
    refine ⟨(H.run_of_mem hh).1, fun r hr => ?_⟩
    obtain ⟨e, he, hheld, rfl⟩ := H.mem_recordsIn_iff.mp ⟨h, hh, hr⟩
    cases hshape : src.options.registry.shape? e.header.tag src.context.edition with
    | none => exact ⟨none, Options.readRecord_of_shape?_eq_none hshape⟩
    | some shape =>
      rw [← H.read_eq he]
      exact hall e (Outline.mem_loadable.mpr ⟨he, hheld, shape, hshape⟩)

/-- The records of the entries that loading has to read are those directly in some group. -/
theorem Fills.perm_loadable (H : f.Fills src.image src.context.schema 0 stop) :
    (((Outline.ofForest src.context.schema length f).loadable src.options
        src.context.edition).filterMap fun e => src.record? e.header).Perm
      (f.groupHeaders.flatMap src.decoded) := by
  -- entries in groups without a shape are passed over, so they may be counted in
  have hheld : ((Outline.ofForest src.context.schema length f).loadable src.options
        src.context.edition).filterMap (fun e => src.record? e.header) =
      (((f.recordEntries none 0).filter (·.group.isSome)).map (·.header)).filterMap
        src.record? := by
    rw [List.filterMap_map, Outline.loadable, List.filterMap_filter, List.filterMap_filter]
    refine List.filterMap_congr fun e _ => ?_
    cases hshape : src.options.registry.shape? e.header.tag src.context.edition with
    | none =>
      have hnone : src.record? e.header = none :=
        Source.record?_of_read (Options.readRecord_of_shape?_eq_none hshape)
      simp [hnone]
    | some shape => simp
  have hdecoded : f.groupHeaders.flatMap src.decoded =
      (f.groupHeaders.flatMap src.recordsIn).filterMap src.record? := by
    rw [List.filterMap_flatMap]
    rfl
  rw [hheld, hdecoded]
  exact (H.perm_heldEntries 0).filterMap _

/-- Decoding the entries that loading has to read gives a record for each. -/
theorem Fills.mapM_loadable (H : f.Fills src.image src.context.schema 0 src.image.size)
    (hall : ∀ e ∈ (Outline.ofForest src.context.schema length f).loadable src.options
        src.context.edition,
      ∃ x, Outline.decodeEntry src.image src.context src.options e = .ok x) :
    ((Outline.ofForest src.context.schema length f).loadable src.options
        src.context.edition).mapM (Outline.decodeEntry src.image src.context src.options) =
      .ok ((((Outline.ofForest src.context.schema length f).loadable src.options
        src.context.edition).filterMap fun e => src.record? e.header).map some) := by
  refine mapM_eq_ok_map_some fun e he => ?_
  obtain ⟨x, hx⟩ := hall e he
  obtain ⟨hmem, -, shape, hshape⟩ := Outline.mem_loadable.mp he
  rw [H.read_eq hmem] at hx ⊢
  obtain ⟨r, rfl⟩ := Options.exists_some_of_readRecord hshape hx
  exact ⟨r, hx, Source.record?_of_read hx⟩

end Forest

/-! ## Agreement -/

namespace Session

variable {src : Source} {f : Forest} {s : Session}

/-- Once all groups are loaded, the headers of the session are those of the forest. -/
theorem Sound.perm_groupHeaders (H : Sound src (f.chunks.filterMap Chunk.group?) s)
    (hf : f.Fills src.image src.context.schema 0 src.image.size)
    (hloaded : ∀ {id g}, s.group? id = some g → g.isLoaded) :
    ((List.range s.groups.size).flatMap s.headers).Perm f.groupHeaders :=
  perm_of_unfold (fun _ _ => Source.dataSize_lt_of_mem_groupsIn) (H.perm_headers hloaded)
    hf.perm_groupHeaders

/-- What is loaded can be read. -/
theorem Sound.readable (H : Sound src (f.chunks.filterMap Chunk.group?) s)
    (hf : f.Fills src.image src.context.schema 0 src.image.size)
    (hloaded : ∀ {id g}, s.group? id = some g → g.isLoaded) :
    ∀ h ∈ f.groupHeaders, src.Readable h := by
  intro h hh
  obtain ⟨id, hid, hmem⟩ := List.mem_flatMap.mp ((H.perm_groupHeaders hf hloaded).mem_iff.mpr hh)
  obtain ⟨g, hg⟩ := group?_of_lt (List.mem_range.mp hid)
  refine (H.tidy hg).readable h ?_
  rw [GroupNode.done_of_isLoaded (hloaded hg)]
  simpa [headers, hg] using hmem

/-- Loading all succeeds exactly if all groups can be read. -/
theorem Rooted.loadAll_eq_ok_iff {plugin : Plugin}
    (H : Rooted src (f.chunks.filterMap Chunk.group?) plugin.topGroups s)
    (hf : f.Fills src.image src.context.schema 0 src.image.size) :
    (∃ s', plugin.loadAll s = .ok () s') ↔ ∀ h ∈ f.groupHeaders, src.Readable h := by
  constructor
  · rintro ⟨s', h⟩
    obtain ⟨H', hloaded⟩ := H.loadAll hf.stop_le_of_top h
    exact H'.toSound.readable hf hloaded
  · intro hall
    have hunfold {h : GroupHeader} : h ∈ f.groupHeaders ↔
        h ∈ f.chunks.filterMap Chunk.group? ++ f.groupHeaders.flatMap src.groupsIn :=
      hf.perm_groupHeaders.mem_iff
    have hsucceeds : Succeeds (Rooted src (f.chunks.filterMap Chunk.group?) plugin.topGroups)
        plugin.loadAll := by
      refine Rooted.succeeds_loadAll fun H id g hid h hh => hall h ?_
      -- every header of a session is one of the forest's: those at the top are, and what they hold
      refine H.toSound.forall_headers (fun h hh => ?_) (fun h hh k hk => ?_) hid h hh
      · exact hunfold.mpr (List.mem_append_left _ hh)
      · exact hunfold.mpr (List.mem_append_right _ (List.mem_flatMap.mpr ⟨h, hh, hk⟩))
    obtain ⟨⟨⟩, s', h, -⟩ := hsucceeds s H
    exact ⟨s', h⟩

end Session

/-- **Loading all groups of a file gives what its outline gives.** Loading succeeds exactly if each
entry in a group whose tag has a shape can be decoded. The records of all groups are then those of
these entries, each once, and those of each group are in file order. Only the group that holds it
tells a loaded record from that of its entry. -/
theorem Plugin.loadAll_agrees {image : Image} {options : Options} {plugin : Plugin} {s : Session}
    {o : Outline} (hopen : Plugin.open? image options none = .ok (plugin, s))
    (houtline : Outline.ofImage image = .ok o) (hgroups : o.schema.hasGroups) :
    ((∃ s', plugin.loadAll s = .ok () s') ↔
      ∀ e ∈ o.loadable options s.context.edition,
        ∃ x, Outline.decodeEntry image s.context options e = .ok x) ∧
    ∀ s', plugin.loadAll s = .ok () s' →
      (∃ rs : List Record,
        (o.loadable options s.context.edition).mapM
            (Outline.decodeEntry image s.context options) = .ok (rs.map some) ∧
          ((s'.groups.toList.flatMap (·.records.toList)).map (·.under none)).Perm rs) ∧
      ∀ g ∈ s'.groups, g.records.toList.Pairwise (·.header.position < ·.header.position) := by
  obtain ⟨schema, hdetect, f, hf, rfl⟩ := Outline.ofImage_eq_ok_iff.mp houtline
  obtain ⟨rfl, H⟩ := Plugin.rooted_of_open? hopen hdetect hgroups hf
  replace hf : f.Fills (Source.mk image s.context options).image s.context.schema 0 image.size := hf
  have hiff := (H.loadAll_eq_ok_iff hf).trans (hf.readable_iff image.size)
  refine ⟨hiff, fun s' h => ?_⟩
  obtain ⟨H', hloaded⟩ := H.loadAll hf.stop_le_of_top h
  refine ⟨⟨_, hf.mapM_loadable (hiff.mp ⟨s', h⟩), ?_⟩, fun g hg => ?_⟩
  · rw [H'.toSound.records_eq hloaded]
    exact ((H'.toSound.perm_groupHeaders hf hloaded).flatMap_right _).trans hf.perm_loadable.symm
  · obtain ⟨id, hid, rfl⟩ := Array.mem_iff_getElem.mp hg
    exact H'.toSound.pairwise_records hf.pairwise_tops (Array.getElem?_eq_getElem hid)

theorem exists_eq_ok_of_map {α β : Type} {x : Except Error α} {p : α → β} {b : β}
    (h : x.toOption.map p = some b) : ∃ a, x = .ok a ∧ p a = b := by
  cases x with
  | error e => cases h
  | ok a => exact ⟨a, rfl, Option.some.inj h⟩

/-- A file whose cells are in two pieces of one top group, each with a piece of the same block. One
of the records has no shape. -/
def splitCells : Image :=
  .ofBytes (Draft.encodeAll .tes4
    [.record .TES4 0 ⟨0⟩ [72, 69, 68, 82, 12, 0, 0, 0, 128, 63, 4, 0, 0, 0, 0, 8, 0, 0],
     .group Tag.CELL.code .top
      [.group 0 .interiorCellBlock [.group 0 .interiorCellSubBlock [.record .CELL 0 ⟨7⟩ []]]],
     .group Tag.GLOB.code .top [.record .GLOB 0 ⟨8⟩ [], .record .XXXX 0 ⟨9⟩ [1]],
     .group Tag.CELL.code .top
      [.group 0 .interiorCellBlock
        [.group 1 .interiorCellSubBlock
          [.record .CELL 0 ⟨10⟩ [69, 68, 73, 68, 2, 0, 65, 0]]]]])

/-- Seven pieces of groups become five nodes, with three of the four records. -/
theorem Plugin.loadAll_agrees_splitCells :
    ∃ plugin s o s' rs, Plugin.open? splitCells { edition := some .oblivion } none =
        .ok (plugin, s) ∧
      Outline.ofImage splitCells = .ok o ∧ o.schema.hasGroups ∧ plugin.loadAll s = .ok () s' ∧
      (o.loadable { edition := some .oblivion } s.context.edition).mapM
          (Outline.decodeEntry splitCells s.context { edition := some .oblivion }) =
        .ok (rs.map some) ∧
      ((s'.groups.toList.flatMap (·.records.toList)).map (·.under none)).Perm rs ∧
      rs.length = 3 ∧ s'.groups.size = 5 ∧ o.groups.size = 7 := by
  have hload : ((Plugin.open? splitCells { edition := some .oblivion } none).toOption.map fun x =>
      let s' := Session.after x.1.loadAll x.2
      (x.1.loadAll.run' x.2, s'.groups.size,
        (s'.groups.toList.flatMap (·.records.toList)).length)) = some (some (), 5, 3) := by
    decide +kernel
  have houtline : ((Outline.ofImage splitCells).toOption.map fun o =>
      (o.schema.hasGroups, o.groups.size)) = some (true, 7) := by
    decide +kernel
  obtain ⟨⟨plugin, s⟩, hopen, hcounts⟩ := exists_eq_ok_of_map hload
  obtain ⟨o, ho, hsizes⟩ := exists_eq_ok_of_map houtline
  simp only [Prod.mk.injEq] at hcounts hsizes
  obtain ⟨hrun, hgroups, hrecords⟩ := hcounts
  cases hs' : plugin.loadAll s with
  | error e s' =>
    change EStateM.run' (fun _ => plugin.loadAll s) s = some () at hrun
    rw [hs'] at hrun
    cases hrun
  | ok _ s' =>
    rw [Session.after_of_ok hs'] at hgroups hrecords
    obtain ⟨⟨rs, hdecode, hperm⟩, -⟩ := (Plugin.loadAll_agrees hopen ho hsizes.1).2 s' hs'
    refine ⟨plugin, s, o, s', rs, hopen, ho, hsizes.1, hs', hdecode, hperm, ?_, hgroups, hsizes.2⟩
    rw [← hperm.length_eq, List.length_map, hrecords]

end GamePlugin
