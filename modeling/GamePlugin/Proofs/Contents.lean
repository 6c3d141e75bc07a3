import GamePlugin.Proofs.Chunks
import GamePlugin.Session.Load

/-!
# What a group holds

The payload of a group header is cut into chunks: records that are read or passed over, and group
headers that are not looked into. Both are functions of the file, the context and the options alone
(`Source`). Scanning headers succeeds exactly if each can be read, and finds what they hold, in
order (`Session.scan_eq_ok_iff`, `Session.foldlM_scan_eq_ok_iff`).

The node that a record is read for is written into its header and changes nothing else.

## Main definitions

* `Source` — what a session reads from.
* `Source.groupsIn`, `Source.decoded` — what a header's payload holds.
* `Source.Readable` — the payload is exactly framed, and no record in it is refused.
-/

namespace GamePlugin

/-! ## Records for a node -/

/-- The same record, for another group node. -/
def Record.under (r : Record) (parent : Option Nat) : Record :=
  { r with header := r.header.under parent }

/-- Reads a payload into a body of the given shape. -/
def Record.decodeBody (header : RecordHeader) (shape : Shape) (payload : Bytes) (context : Context)
    (limit : Nat) : Except Error Body := do
  let (fields, base) ←
    if header.isCompressed then
      pure (← Payload.inflate payload header.form limit, 0)
    else pure (payload, header.position)
  readFields (Offer.sink Body.offer) context header.tag base fields shape.empty

theorem Record.decode_eq (h : RecordHeader) (shape : Shape) (payload : Bytes) (context : Context)
    (limit : Nat) :
    decode h shape payload context limit =
      (decodeBody h shape payload context limit).map (Record.mk h) := by
  have hmap (x : Except Error Body) : x.map (Record.mk h) = (Record.mk h) <$> x := rfl
  simp only [decode, decodeBody, hmap, bind_pure_comp]
  split <;> simp

theorem Record.decode_under (h : RecordHeader) (parent : Option Nat) (shape : Shape)
    (payload : Bytes) (context : Context) (limit : Nat) :
    decode (h.under parent) shape payload context limit =
      (decode h shape payload context limit).map (·.under parent) := by
  have hbody : decodeBody (h.under parent) shape payload context limit =
      decodeBody h shape payload context limit := rfl
  rw [decode_eq, decode_eq, hbody]
  cases decodeBody h shape payload context limit <;> rfl

theorem Record.header_of_decode {h : RecordHeader} {shape : Shape} {payload : Bytes}
    {context : Context} {limit : Nat} {r : Record}
    (eq : decode h shape payload context limit = .ok r) : r.header = h := by
  rw [decode_eq] at eq
  cases hbody : decodeBody h shape payload context limit with
  | error e => rw [hbody] at eq; cases eq
  | ok body => rw [hbody] at eq; cases eq; rfl

namespace Options

variable (o : Options) (image : Image) (context : Context)

theorem readRecord_under (h : RecordHeader) (parent : Option Nat) :
    o.readRecord image context (h.under parent) =
      (o.readRecord image context h).map (Option.map (·.under parent)) := by
  have hshape : o.shapeFor context.edition (h.under parent) = o.shapeFor context.edition h := rfl
  have hsize : (h.under parent).dataSize = h.dataSize := rfl
  simp only [readRecord, hshape, hsize, RecordHeader.position_under, Record.decode_under]
  cases o.shapeFor context.edition h with
  | error e => rfl
  | ok shape? =>
    cases shape? with
    | none => rfl
    | some shape =>
      simp only [bind, Except.bind]
      split
      · rfl
      · cases Record.decode h shape (image.slice h.position h.dataSize.toNat) context
          o.maxRecordSize <;> rfl

variable {o image context}

theorem header_of_readRecord {h : RecordHeader} {r : Record}
    (eq : o.readRecord image context h = .ok (some r)) : r.header = h := by
  simp only [readRecord] at eq
  cases hshape : o.shapeFor context.edition h with
  | error e => rw [hshape] at eq; cases eq
  | ok shape? =>
    rw [hshape] at eq
    cases shape? with
    | none => cases eq
    | some shape =>
      simp only [bind, Except.bind] at eq
      split at eq
      · cases eq
      · cases hdecode : Record.decode h shape (image.slice h.position h.dataSize.toNat) context
          o.maxRecordSize with
        | error e => rw [hdecode] at eq; cases eq
        | ok r' =>
          rw [hdecode] at eq
          cases eq
          exact Record.header_of_decode hdecode

end Options

/-! ## What is read from -/

/-- What a session reads from: a file, and how records in it are read. -/
structure Source where
  image : Image
  context : Context
  options : Options

/-- What the session reads from. -/
def Session.source (s : Session) : Source := ⟨s.image, s.context, s.options⟩

namespace Source

variable (src : Source)

/-- The record of a header; none if it is passed over. -/
def read (h : RecordHeader) : Except Error (Option Record) :=
  src.options.readRecord src.image src.context h

/-- The record of a header, if it is neither passed over nor refused. -/
def record? (h : RecordHeader) : Option Record :=
  match src.read h with
  | .error _ => none
  | .ok r => r

/-- The chunks directly in a group. -/
def chunksIn (h : GroupHeader) : List Chunk :=
  (Chunk.cut src.image src.context.schema h.stop h.position).getD []

/-- Headers of the groups directly in a group. -/
def groupsIn (h : GroupHeader) : List GroupHeader := (src.chunksIn h).filterMap Chunk.group?

/-- Headers of the records directly in a group. -/
def recordsIn (h : GroupHeader) : List RecordHeader := (src.chunksIn h).filterMap Chunk.record?

/-- The records directly in a group, without those that are passed over. -/
def decoded (h : GroupHeader) : List Record := (src.recordsIn h).filterMap src.record?

/-- No record among the chunks is refused. -/
def ReadsAll (cs : List Chunk) : Prop :=
  ∀ r ∈ cs.filterMap Chunk.record?, ∃ x, src.read r = .ok x

/-- The group's payload is cut into chunks exactly, and no record directly in it is refused. -/
structure Readable (h : GroupHeader) : Prop where
  run : Chunk.Run src.image src.context.schema (src.chunksIn h) h.position h.stop
  reads : src.ReadsAll (src.chunksIn h)

/-- The group can be read, and so can all groups in it. -/
inductive Deep : GroupHeader → Prop
  | intro {h : GroupHeader} (hreadable : src.Readable h) (hgroups : ∀ k ∈ src.groupsIn h, Deep k) :
    Deep h

/-- Bytes from a group's payload to where the payload of the last group in the file may start. -/
def room (h : GroupHeader) : Nat :=
  src.image.size + src.context.schema.groupHeaderSize - h.position

variable {src}

theorem header_of_record? {h : RecordHeader} {r : Record} (hr : src.record? h = some r) :
    r.header = h := by
  cases hread : src.read h with
  | error e => rw [record?, hread] at hr; cases hr
  | ok x =>
    rw [record?, hread] at hr
    cases hr
    exact Options.header_of_readRecord hread

theorem readsAll_group {h : GroupHeader} {cs : List Chunk} :
    src.ReadsAll (.group h :: cs) ↔ src.ReadsAll cs := by
  simp only [ReadsAll, List.filterMap_cons, Chunk.record?_group]

theorem readsAll_record {h : RecordHeader} {cs : List Chunk} :
    src.ReadsAll (.record h :: cs) ↔ (∃ x, src.read h = .ok x) ∧ src.ReadsAll cs := by
  simp only [ReadsAll, List.filterMap_cons, Chunk.record?_record, List.forall_mem_cons]

theorem chunksIn_of_run {h : GroupHeader} {cs : List Chunk}
    (H : Chunk.Run src.image src.context.schema cs h.position h.stop) : src.chunksIn h = cs := by
  rw [chunksIn, Chunk.cut_of_run H]
  rfl

/-- A group that has chunks is cut into them. -/
theorem run_of_mem_chunksIn {h : GroupHeader} {c : Chunk} (hc : c ∈ src.chunksIn h) :
    Chunk.Run src.image src.context.schema (src.chunksIn h) h.position h.stop := by
  cases hcut : Chunk.cut src.image src.context.schema h.stop h.position with
  | none => rw [chunksIn, hcut] at hc; cases hc
  | some cs =>
    rw [chunksIn, hcut]
    exact .of_cut hcut

/-- A group in another one lies in its payload, with its header. -/
theorem bounds_of_mem_groupsIn {h k : GroupHeader} (hk : k ∈ src.groupsIn h) :
    h.position + src.context.schema.groupHeaderSize ≤ k.position ∧ k.stop ≤ h.stop := by
  obtain ⟨c, hc, hgroup⟩ := List.mem_filterMap.mp hk
  cases c with
  | record r => cases hgroup
  | group g =>
    cases hgroup
    exact (run_of_mem_chunksIn hc).bounds hc

/-- Groups in a group are smaller than the group. -/
theorem dataSize_lt_of_mem_groupsIn {h k : GroupHeader} (hk : k ∈ src.groupsIn h) :
    k.dataSize.toNat < h.dataSize.toNat := by
  obtain ⟨hlo, hhi⟩ := bounds_of_mem_groupsIn hk
  have hpos := src.context.schema.groupHeaderSize_pos
  simp only [GroupHeader.stop] at hhi
  omega

/-- A group in another one starts after it, and inside the file. -/
theorem position_of_mem_groupsIn {h k : GroupHeader} (hk : k ∈ src.groupsIn h) :
    h.position + src.context.schema.groupHeaderSize ≤ k.position ∧
      k.position < src.image.size + src.context.schema.groupHeaderSize := by
  obtain ⟨c, hc, hgroup⟩ := List.mem_filterMap.mp hk
  cases c with
  | record r => cases hgroup
  | group g =>
    cases hgroup
    have hrun := run_of_mem_chunksIn hc
    exact ⟨(hrun.bounds hc).1, hrun.position_lt hc⟩

theorem room_lt_of_mem_groupsIn {h k : GroupHeader} (hk : k ∈ src.groupsIn h) :
    src.room k < src.room h := by
  obtain ⟨hlo, hhi⟩ := position_of_mem_groupsIn hk
  have hpos := src.context.schema.groupHeaderSize_pos
  simp only [room]
  omega

/-- Records found in a group have its headers, read for no node. -/
theorem under_none_of_mem_decoded {h : GroupHeader} {r : Record} (hr : r ∈ src.decoded h) :
    r.under none = r := by
  obtain ⟨k, hk, hrecord⟩ := List.mem_filterMap.mp hr
  obtain ⟨c, hc, hheader⟩ := List.mem_filterMap.mp hk
  have hparent : k.parent = none := by
    cases c with
    | group g => cases hheader
    | record k' =>
      cases hheader
      exact (run_of_mem_chunksIn hc).parent_of_mem hc
  have heq : r.header = k := header_of_record? hrecord
  rw [← heq] at hparent
  obtain ⟨header, body⟩ := r
  obtain ⟨tag, dataSize, flags, form, position, parent⟩ := header
  cases hparent
  rfl

theorem record?_of_read {h : RecordHeader} {x : Option Record} (hx : src.read h = .ok x) :
    src.record? h = x := by
  rw [record?, hx]

theorem read_under_of_read {h : RecordHeader} {parent : Option Nat} {x : Option Record}
    (hx : src.read h = .ok x) : src.read (h.under parent) = .ok (x.map (·.under parent)) := by
  have heq := src.options.readRecord_under src.image src.context h parent
  rw [← read, ← read, hx] at heq
  exact heq

theorem exists_read_of_under {h : RecordHeader} {parent : Option Nat} {y : Option Record}
    (hy : src.read (h.under parent) = .ok y) :
    ∃ x, src.read h = .ok x ∧ y = x.map (·.under parent) := by
  cases hx : src.read h with
  | error e =>
    have heq := src.options.readRecord_under src.image src.context h parent
    rw [← read, ← read, hx, hy] at heq
    cases heq
  | ok x =>
    rw [read_under_of_read hx] at hy
    exact ⟨x, rfl, (Except.ok.inj hy).symm⟩

end Source

/-! ## Scanning -/

namespace Session

/-- What was found, and then what was found after it. -/
def Found.append (a b : Found) : Found := ⟨a.records ++ b.records, a.groups ++ b.groups⟩

theorem Found.append_assoc (a b c : Found) : (a.append b).append c = a.append (b.append c) := by
  simp [append]

theorem Found.append_empty (a : Found) : a.append {} = a := by
  simp [append]

theorem Found.empty_append (a : Found) : Found.append {} a = a := by
  simp [append]

/-- What is to be found among chunks, for the group at index `id`. -/
def foundIn (src : Source) (id : Nat) (cs : List Chunk) : Found where
  records := (((cs.filterMap Chunk.record?).filterMap src.record?).map (·.under (some id))).toArray
  groups := (cs.filterMap Chunk.group?).toArray

variable {s : Session} {id : Nat}

theorem foundIn_group (src : Source) (id : Nat) (h : GroupHeader) (cs : List Chunk) :
    foundIn src id (.group h :: cs) = Found.append ⟨#[], #[h]⟩ (foundIn src id cs) := by
  simp [foundIn, Found.append, List.filterMap_cons]

theorem foundIn_record_none {src : Source} (id : Nat) {h : RecordHeader} (hr : src.record? h = none)
    (cs : List Chunk) : foundIn src id (.record h :: cs) = foundIn src id cs := by
  simp [foundIn, List.filterMap_cons, hr]

theorem foundIn_record_some {src : Source} (id : Nat) {h : RecordHeader} {r : Record}
    (hr : src.record? h = some r) (cs : List Chunk) :
    foundIn src id (.record h :: cs) =
      Found.append ⟨#[r.under (some id)], #[]⟩ (foundIn src id cs) := by
  simp [foundIn, Found.append, List.filterMap_cons, hr]

/-- A scan that succeeds has cut the range into chunks and read their records. -/
theorem exists_run_of_scanFrom {header : GroupHeader} {pos : Nat} {found found' : Found}
    (h : s.scanFrom id header pos found = .ok found') :
    ∃ cs, Chunk.Run s.image s.context.schema cs pos header.stop ∧
      s.source.ReadsAll cs ∧ found' = found.append (foundIn s.source id cs) := by
  fun_induction scanFrom s id header pos found with
  | case1 | case3 | case7 => cases h
  | case2 pos found hlt inner hread ih =>
    obtain ⟨cs, hrun, hreads, rfl⟩ := ih h
    refine ⟨.group inner :: cs, ⟨hlt, Chunk.read_none_of_group hread, hrun⟩, ?_, ?_⟩
    · exact Source.readsAll_group.mpr hreads
    · rw [foundIn_group, ← Found.append_assoc]
      simp [Found.append]
  | case4 pos found hlt inner hread hrecord ih =>
    obtain ⟨cs, hrun, hreads, rfl⟩ := ih h
    obtain ⟨r, hr, rfl⟩ := Chunk.read_none_of_record hread
    have hread' : s.source.read (r.under (some id)) = .ok none := hrecord
    obtain ⟨x, hx, hnone⟩ := Source.exists_read_of_under hread'
    obtain rfl : x = none := Option.map_eq_none_iff.mp hnone.symm
    refine ⟨.record r :: cs, ⟨hlt, hr, hrun⟩, ?_, ?_⟩
    · exact Source.readsAll_record.mpr ⟨⟨_, hx⟩, hreads⟩
    · rw [foundIn_record_none id (Source.record?_of_read hx)]
  | case5 pos found hlt inner hread record hrecord ih =>
    obtain ⟨cs, hrun, hreads, rfl⟩ := ih h
    obtain ⟨r, hr, rfl⟩ := Chunk.read_none_of_record hread
    have hread' : s.source.read (r.under (some id)) = .ok (some record) := hrecord
    obtain ⟨x, hx, hsome⟩ := Source.exists_read_of_under hread'
    obtain ⟨record', rfl, rfl⟩ := Option.map_eq_some_iff.mp hsome.symm
    refine ⟨.record r :: cs, ⟨hlt, hr, hrun⟩, ?_, ?_⟩
    · exact Source.readsAll_record.mpr ⟨⟨_, hx⟩, hreads⟩
    · rw [foundIn_record_some id (Source.record?_of_read hx), ← Found.append_assoc]
      simp [Found.append]
  | case6 =>
    cases h
    exact ⟨[], rfl, by simp [Source.ReadsAll], (Found.append_empty _).symm⟩

section Steps

variable {header : GroupHeader} {pos : Nat}

theorem scanFrom_stop (s : Session) (id : Nat) (header : GroupHeader) (found : Found) :
    s.scanFrom id header header.stop found = .ok found := by
  rw [scanFrom, if_neg (Nat.lt_irrefl _), if_pos rfl]

theorem scanFrom_of_group {inner : GroupHeader} (hlt : pos < header.stop)
    (hread : Chunk.read s.image s.context.schema pos none = .ok (.group inner)) (found : Found) :
    s.scanFrom id header pos found =
      s.scanFrom id header inner.stop { found with groups := found.groups.push inner } := by
  have hunder : Chunk.read s.image s.context.schema pos (some id) = .ok (.group inner) := by
    rw [Chunk.read_under, hread]
    rfl
  rw [scanFrom, if_pos hlt]
  split
  case h_1 e he => rw [hunder] at he; cases he
  case h_3 r hr => rw [hunder] at hr; cases hr
  case h_2 g hg => rw [hunder] at hg; cases hg; rfl

theorem scanFrom_of_record {inner : RecordHeader} (hlt : pos < header.stop)
    (hread : Chunk.read s.image s.context.schema pos none = .ok (.record inner)) (found : Found) :
    s.scanFrom id header pos found =
      (s.source.read (inner.under (some id))).bind fun x =>
        s.scanFrom id header inner.stop
          (x.elim found fun r => { found with records := found.records.push r }) := by
  have hunder : Chunk.read s.image s.context.schema pos (some id) =
      .ok (.record (inner.under (some id))) := by
    rw [Chunk.read_under, hread]
    rfl
  rw [scanFrom, if_pos hlt]
  split
  case h_1 e he => rw [hunder] at he; cases he
  case h_2 g hg => rw [hunder] at hg; cases hg
  case h_3 r hr =>
    rw [hunder] at hr
    cases hr
    have hsource : s.options.readRecord s.image s.context (inner.under (some id)) =
        s.source.read (inner.under (some id)) := rfl
    rw [hsource]
    cases s.source.read (inner.under (some id)) with
    | error e => rfl
    | ok x => cases x <;> rfl

end Steps

/-- A range that is cut into chunks whose records can be read can be scanned. -/
theorem scanFrom_of_run {header : GroupHeader} {pos : Nat} {cs : List Chunk}
    (hrun : Chunk.Run s.image s.context.schema cs pos header.stop)
    (hreads : s.source.ReadsAll cs) (found : Found) :
    s.scanFrom id header pos found = .ok (found.append (foundIn s.source id cs)) := by
  induction cs generalizing pos found with
  | nil =>
    have heq : pos = header.stop := hrun
    rw [heq, scanFrom_stop]
    exact congrArg _ (Found.append_empty found).symm
  | cons c cs ih =>
    obtain ⟨hlt, hread, hrest⟩ := hrun
    cases c with
    | group inner =>
      rw [Chunk.stop_group] at hrest
      rw [scanFrom_of_group hlt hread, ih hrest (Source.readsAll_group.mp hreads), foundIn_group,
        ← Found.append_assoc]
      simp [Found.append]
    | record inner =>
      obtain ⟨⟨x, hx⟩, hreads⟩ := Source.readsAll_record.mp hreads
      rw [Chunk.stop_record] at hrest
      rw [scanFrom_of_record hlt hread, Source.read_under_of_read hx, Except.bind,
        ih hrest hreads]
      cases x with
      | none => rw [foundIn_record_none id (Source.record?_of_read hx)]; rfl
      | some r =>
        rw [foundIn_record_some id (Source.record?_of_read hx), ← Found.append_assoc]
        simp [Found.append]

/-- What is to be found in headers, for the group at index `id`. -/
def foundUnder (src : Source) (id : Nat) (hs : List GroupHeader) : Found :=
  foundIn src id (hs.flatMap src.chunksIn)

theorem toList_records_foundUnder (src : Source) (id : Nat) (hs : List GroupHeader) :
    (foundUnder src id hs).records.toList = (hs.flatMap src.decoded).map (·.under (some id)) := by
  simp only [foundUnder, foundIn, List.filterMap_flatMap]
  rfl

theorem toList_groups_foundUnder (src : Source) (id : Nat) (hs : List GroupHeader) :
    (foundUnder src id hs).groups.toList = hs.flatMap src.groupsIn := by
  simp only [foundUnder, foundIn, List.filterMap_flatMap]
  rfl

theorem foundIn_append (src : Source) (id : Nat) (cs ds : List Chunk) :
    foundIn src id (cs ++ ds) = (foundIn src id cs).append (foundIn src id ds) := by
  simp [foundIn, Found.append]

/-- A header can be scanned exactly if it is readable. -/
theorem scan_eq_ok_iff {header : GroupHeader} {found found' : Found} :
    s.scan id found header = .ok found' ↔ s.source.Readable header ∧
      found' = found.append (foundIn s.source id (s.source.chunksIn header)) := by
  constructor
  · intro h
    obtain ⟨cs, hrun, hreads, heq⟩ := exists_run_of_scanFrom h
    have hcs : s.source.chunksIn header = cs := Source.chunksIn_of_run hrun
    rw [hcs]
    exact ⟨⟨hcs ▸ hrun, hcs ▸ hreads⟩, heq⟩
  · rintro ⟨hreadable, rfl⟩
    exact scanFrom_of_run hreadable.run hreadable.reads found

/-- Headers can be scanned one after another exactly if each is readable. -/
theorem foldlM_scan_eq_ok_iff {hs : List GroupHeader} {found found' : Found} :
    hs.foldlM (s.scan id) found = .ok found' ↔
      (∀ h ∈ hs, s.source.Readable h) ∧ found' = found.append (foundUnder s.source id hs) := by
  induction hs generalizing found with
  | nil =>
    simp [foundUnder, foundIn, Found.append, pure, Except.pure, eq_comm]
  | cons h hs ih =>
    have hsplit : foundUnder s.source id (h :: hs) =
        (foundIn s.source id (s.source.chunksIn h)).append (foundUnder s.source id hs) := by
      rw [foundUnder, List.flatMap_cons, foundIn_append]
      rfl
    rw [List.foldlM_cons, List.forall_mem_cons, hsplit, ← Found.append_assoc]
    constructor
    · intro heq
      cases hscan : s.scan id found h with
      | error e => rw [hscan] at heq; cases heq
      | ok mid =>
        rw [hscan] at heq
        obtain ⟨hreadable, rfl⟩ := scan_eq_ok_iff.mp hscan
        obtain ⟨hrest, hfound⟩ := ih.mp heq
        exact ⟨⟨hreadable, hrest⟩, hfound⟩
    · rintro ⟨⟨hreadable, hrest⟩, rfl⟩
      rw [scan_eq_ok_iff.mpr ⟨hreadable, rfl⟩]
      exact ih.mpr ⟨hrest, rfl⟩

end Session

end GamePlugin
