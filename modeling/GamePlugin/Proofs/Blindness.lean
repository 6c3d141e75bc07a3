import GamePlugin.Proofs.Operations
import GamePlugin.Proofs.PassedOver

/-!
# Sessions do not see what is passed over

Two sessions that differ in their file alone are used in the same way. If the files are twins
(`Source.Twins`), each step gives the same on both, fails on both with the same error, and again
leaves sessions that differ in their file alone (`Session.Blind`). A step may look at all of a
session but its bytes, so this has to be shown only where bytes are read: in scanning the header of
a group, and in opening.

The headers that a session scans are those of groups in the file (`Session.Within`), which is why
nothing is said of other places.

## Main definitions

* `Session.on` — the session on another file.
* `Session.Within` — all headers that a session knows are headers of groups in the file.
* `Session.Blind` — a step that does not tell two files apart.
* `Request`, `Plugin.serve` — what callers ask for, and what they are told.
-/

namespace GamePlugin

/-! ## Twin files -/

/-- Where a forest fills both files, the chunks in each of its groups are the same. -/
theorem Forest.Fills.chunksIn_on {src : Source} {b : Image} {f : Forest} {h : GroupHeader}
    {pos stop stop' : Nat} (H : f.Fills src.image src.context.schema pos stop)
    (H' : f.Fills b src.context.schema pos stop') (hh : h ∈ f.groupHeaders) :
    (src.on b).chunksIn h = src.chunksIn h := by
  induction f generalizing pos stop stop' with
  | nil => cases hh
  | record r rest ih => exact ih H.2.2 H'.2.2 hh
  | group g inside rest ihi ihr =>
    obtain ⟨-, -, hinside, hrest⟩ := H
    obtain ⟨-, -, hinside', hrest'⟩ := H'
    simp only [groupHeaders, List.mem_cons, List.mem_append] at hh
    rcases hh with rfl | hh | hh
    · exact (Forest.chunksIn_eq hinside').trans (Forest.chunksIn_eq hinside).symm
    · exact ihi hinside hinside' hh
    · exact ihr hrest hrest' hh

namespace Source.Twins

variable {src : Source} {b : Image} {f : Forest} {h k : GroupHeader} {r : RecordHeader}

/-- The payload of a group is cut into the same chunks. -/
theorem run (T : Twins src b f) (hh : h ∈ f.groupHeaders) :
    Chunk.Run src.image src.context.schema (src.chunksIn h) h.position h.stop ∧
      Chunk.Run b src.context.schema (src.chunksIn h) h.position h.stop := by
  have hfills : f.Fills (src.on b).image (src.on b).context.schema 0 b.size := T.fills_on
  have hrun := (hfills.run_of_mem hh).1
  rw [T.fills.chunksIn_on T.fills_on hh] at hrun
  exact ⟨(T.fills.run_of_mem hh).1, hrun⟩

/-- The records in a group are the same. -/
theorem read_eq (T : Twins src b f) (hh : h ∈ f.groupHeaders) (hr : r ∈ src.recordsIn h) :
    (src.on b).read r = src.read r := by
  obtain ⟨e, he, hheld, rfl⟩ := T.fills.mem_recordsIn_iff.mp ⟨h, hh, hr⟩
  exact T.reads e he (.inl hheld)

theorem mem_groupHeaders_of_mem_groupsIn (T : Twins src b f) (hh : h ∈ f.groupHeaders)
    (hk : k ∈ src.groupsIn h) : k ∈ f.groupHeaders := by
  apply T.fills.perm_groupHeaders.mem_iff.mpr
  exact List.mem_append_right _ (List.mem_flatMap.mpr ⟨h, hh, hk⟩)

theorem mem_groupHeaders_of_mem_chunks (T : Twins src b f) (hk : .group k ∈ f.chunks) :
    k ∈ f.groupHeaders := by
  apply T.fills.perm_groupHeaders.mem_iff.mpr
  exact List.mem_append_left _ (List.mem_filterMap.mpr ⟨_, hk, rfl⟩)

/-- The records of a file without groups are the same. -/
theorem read_eq_of_flat (T : Twins src b f) (hflat : ¬src.context.schema.hasGroups)
    (hr : r ∈ f.chunks.filterMap Chunk.record?) : (src.on b).read r = src.read r := by
  have hmem : r ∈ (f.recordEntries none 0).map (·.header) := by
    apply (T.fills.perm_recordEntries none 0).mem_iff.mpr
    exact List.mem_append_left _ hr
  obtain ⟨e, he, rfl⟩ := List.mem_map.mp hmem
  exact T.reads e he (.inr hflat)

/-- After its first chunk, each file is cut into the same chunks. -/
theorem exists_rest (T : Twins src b f) {c : Chunk}
    (hread : Chunk.read src.image src.context.schema 0 none = .ok c) :
    ∃ cs, f.chunks = c :: cs ∧
      Chunk.Run src.image src.context.schema cs c.stop src.image.size ∧
      Chunk.Run b src.context.schema cs c.stop b.size := by
  obtain ⟨cs, hchunks, hrun⟩ := T.fills.exists_rest hread
  have hrun' := T.fills_on.run
  rw [hchunks] at hrun'
  exact ⟨cs, hchunks, hrun, hrun'.2.2⟩

end Source.Twins

namespace Session

/-! ## Sessions on another file -/

/-- The session on another file. -/
def on (s : Session) (b : Image) : Session := { s with image := b }

variable {α β : Type} {src : Source} {b : Image} {f : Forest} {s t : Session} {id : Nat}

@[simp] theorem group?_on (s : Session) (b : Image) (c : Nat) : (s.on b).group? c = s.group? c :=
  rfl

theorem adopt_on (s : Session) (b : Image) (id : Nat) (h : GroupHeader) :
    (s.on b).adopt id h = (s.adopt id h).on b := by
  have hchildren : (s.on b).children id = s.children id := rfl
  simp only [adopt, hchildren, group?_on]
  split <;> rfl

theorem foldl_adopt_on (s : Session) (b : Image) (id : Nat) (hs : List GroupHeader) :
    hs.foldl (adopt · id) (s.on b) = (hs.foldl (adopt · id) s).on b := by
  induction hs generalizing s with
  | nil => rfl
  | cons h hs ih => rw [List.foldl_cons, List.foldl_cons, adopt_on, ih]

/-- Keeping what was found does not look at the file. -/
theorem commit_on (s : Session) (b : Image) (id processed : Nat) (found : Found) :
    (s.on b).commit id processed found = (s.commit id processed found).on b := by
  have hrecorded : (s.on b).recorded id processed found = (s.recorded id processed found).on b :=
    rfl
  rw [commit_eq, commit_eq, hrecorded, foldl_adopt_on]
  rfl

/-! ## Scanning -/

/-- Where both files are cut into the same chunks and their records are the same, the same is
found. -/
theorem scanFrom_on {header : GroupHeader} {pos : Nat} {cs : List Chunk}
    (hrun : Chunk.Run s.image s.context.schema cs pos header.stop)
    (hrun' : Chunk.Run b s.context.schema cs pos header.stop)
    (hreads : ∀ r ∈ cs.filterMap Chunk.record?, (s.source.on b).read r = s.source.read r)
    (found : Found) : (s.on b).scanFrom id header pos found = s.scanFrom id header pos found := by
  induction cs generalizing pos found with
  | nil =>
    obtain rfl : pos = header.stop := hrun
    rw [scanFrom_stop, scanFrom_stop]
  | cons c cs ih =>
    obtain ⟨hlt, hread, hrest⟩ := hrun
    obtain ⟨-, hread', hrest'⟩ := hrun'
    cases c with
    | group inner =>
      rw [Chunk.stop_group] at hrest hrest'
      rw [scanFrom_of_group hlt hread, scanFrom_of_group (s := s.on b) hlt hread']
      exact ih hrest hrest' hreads _
    | record inner =>
      rw [Chunk.stop_record] at hrest hrest'
      have hsame : (s.on b).source.read (inner.under (some id)) =
          s.source.read (inner.under (some id)) := by
        rw [Source.read, Source.read, Options.readRecord_under, Options.readRecord_under]
        exact congrArg _ (hreads inner List.mem_cons_self)
      rw [scanFrom_of_record hlt hread, scanFrom_of_record (s := s.on b) hlt hread',
        hsame]
      congr 1
      funext x
      exact ih hrest hrest' (fun r hr => hreads r (List.mem_cons_of_mem _ hr)) _

/-- The same is found in headers of groups. -/
theorem foldlM_scan_on (T : Source.Twins s.source b f) {hs : List GroupHeader}
    (hhs : ∀ h ∈ hs, h ∈ f.groupHeaders) (found : Found) :
    hs.foldlM ((s.on b).scan id) found = hs.foldlM (s.scan id) found := by
  induction hs generalizing found with
  | nil => rfl
  | cons h hs ih =>
    obtain ⟨hh, hhs⟩ := List.forall_mem_cons.mp hhs
    obtain ⟨hrun, hrun'⟩ := T.run hh
    have hscan : (s.on b).scan id found h = s.scan id found h :=
      scanFrom_on hrun hrun' (fun r hr => T.read_eq hh hr) found
    rw [List.foldlM_cons, List.foldlM_cons, hscan]
    congr 1
    funext found
    exact ih hhs found

/-! ## The headers that a session knows -/

/-- A session that reads from `src` and knows only headers of groups in the forest. -/
structure Within (src : Source) (f : Forest) (s : Session) : Prop where
  source_eq : s.source = src
  headers : ∀ {c g}, s.group? c = some g → ∀ h ∈ g.headers.toList, h ∈ f.groupHeaders

theorem within_of_groups_eq_empty (hsource : s.source = src) (hgroups : s.groups = #[]) :
    Within src f s where
  source_eq := hsource
  headers hg := by simp [group?, hgroups] at hg

/-- What a node gets must be headers of groups. -/
theorem Within.modifyGroup (W : Within src f s) {m : GroupNode → GroupNode}
    (hm : ∀ g, ∀ h ∈ (m g).headers.toList, h ∈ g.headers.toList ∨ h ∈ f.groupHeaders) (id : Nat) :
    Within src f (s.modifyGroup id m) where
  source_eq := W.source_eq
  headers {c g} hg h hh := by
    rw [group?_modifyGroup] at hg
    split at hg
    · obtain ⟨k, hk, rfl⟩ := Option.map_eq_some_iff.mp hg
      rcases hm k h hh with hold | hnew
      · exact W.headers hk h hold
      · exact hnew
    · exact W.headers hg h hh

theorem Within.addGroup (W : Within src f s) {g : GroupNode}
    (hg : ∀ h ∈ g.headers.toList, h ∈ f.groupHeaders) : Within src f (s.addGroup g) where
  source_eq := W.source_eq
  headers {c k} hk := by
    rw [group?_addGroup] at hk
    split at hk
    · cases hk
      exact hg
    · exact W.headers hk

theorem Within.pushHeader (W : Within src f s) {h : GroupHeader} (hh : h ∈ f.groupHeaders)
    (id : Nat) : Within src f (s.pushHeader id h) := by
  apply W.modifyGroup
  intro g k hk
  rw [Array.toList_push, List.mem_append, List.mem_singleton] at hk
  rcases hk with hk | rfl
  · exact .inl hk
  · exact .inr hh

theorem Within.adopt (W : Within src f s) {h : GroupHeader} (hh : h ∈ f.groupHeaders) (id : Nat) :
    Within src f (s.adopt id h) := by
  simp only [Session.adopt]
  split
  · exact W.pushHeader hh _
  · apply Within.modifyGroup
    · apply W.addGroup
      simpa using hh
    · intro g k hk
      exact .inl hk

theorem Within.foldl_adopt (W : Within src f s) {hs : List GroupHeader}
    (hhs : ∀ h ∈ hs, h ∈ f.groupHeaders) (id : Nat) :
    Within src f (hs.foldl (Session.adopt · id) s) := by
  induction hs generalizing s with
  | nil => exact W
  | cons h hs ih =>
    obtain ⟨hh, hhs⟩ := List.forall_mem_cons.mp hhs
    exact ih (W.adopt hh id) hhs

theorem Within.commit (W : Within src f s) {found : Found}
    (hfound : ∀ h ∈ found.groups.toList, h ∈ f.groupHeaders) (id processed : Nat) :
    Within src f (s.commit id processed found) := by
  have hindex : Within src f
      { s with index := found.records.foldl LoadedIndex.insert s.index } :=
    ⟨W.source_eq, W.headers⟩
  rw [commit_eq]
  apply Within.modifyGroup
  · apply Within.foldl_adopt _ hfound
    apply hindex.modifyGroup
    intro g h hh
    exact .inl hh
  · intro g h hh
    exact .inl hh

/-- The headers in what waits are those of groups, so a load finds headers of groups. -/
theorem Within.mem_of_scan (T : Source.Twins src b f) (W : Within src f s) {g : GroupNode}
    {c : Nat} {found : Found} (hg : s.group? c = some g)
    (hscan : g.waiting.foldlM (s.scan id) {} = .ok found) :
    ∀ h ∈ found.groups.toList, h ∈ f.groupHeaders := by
  obtain ⟨-, rfl⟩ := foldlM_scan_eq_ok_iff.mp hscan
  intro k hk
  rw [Found.empty_append, toList_groups_foundUnder, W.source_eq] at hk
  obtain ⟨h, hh, hk⟩ := List.mem_flatMap.mp hk
  exact T.mem_groupHeaders_of_mem_groupsIn (W.headers hg h (List.mem_of_mem_drop hh)) hk

/-! ## Steps that do not tell files apart -/

/-- What a step gives, with the session that it leaves on another file. -/
def relay (b : Image) : EStateM.Result Error Session α → EStateM.Result Error Session α
  | .ok a s => .ok a (s.on b)
  | .error e s => .error e (s.on b)

/-- A step that does not tell the file `b` from the one of a session with the property, which it
keeps. -/
structure Blind (P : Session → Prop) (b : Image) (x : Step α) : Prop where
  keeps : Preserves P x
  same : ∀ s, P s → x (s.on b) = relay b (x s)

section Rules

variable {P : Session → Prop} {x : Step α} {m : Session → Session}

theorem Blind.pure (a : α) : Blind P b (Pure.pure a : Step α) := ⟨.pure a, fun _ _ => rfl⟩

theorem Blind.bind {k : α → Step β} (hx : Blind P b x) (hk : ∀ a, Blind P b (k a)) :
    Blind P b (x >>= k) where
  keeps := hx.keeps.bind fun a => (hk a).keeps
  same s hs := by
    have hmid := hx.keeps s hs
    simp only [Bind.bind, EStateM.bind, hx.same s hs]
    cases hxs : x s with
    | ok a s₁ =>
      rw [after_of_ok hxs] at hmid
      exact (hk a).same s₁ hmid
    | error e s₁ => rfl

/-- A step may look at a session, if what it does then is the same on the other file. -/
theorem Blind.get_bind {k : Session → Step β} (hsame : ∀ s, P s → k (s.on b) = k s)
    (hk : ∀ t, Blind P b (k t)) : Blind P b (MonadState.get >>= k) where
  keeps := Preserves.get.bind fun t => (hk t).keeps
  same s hs := by
    have hstep (t : Session) : (MonadState.get >>= k) t = k t t := rfl
    rw [hstep, hstep, hsame s hs]
    exact (hk s).same s hs

theorem Blind.modify (hkeeps : ∀ s, P s → P (m s)) (hsame : ∀ s, m (s.on b) = (m s).on b) :
    Blind P b (modify m : Step Unit) where
  keeps := hkeeps
  same s _ := congrArg (EStateM.Result.ok ()) (hsame s)

theorem Blind.forM {k : α → Step Unit} (hk : ∀ a, Blind P b (k a)) (as : List α) :
    Blind P b (as.forM k) := by
  induction as with
  | nil => exact .pure ()
  | cons a as ih => exact (hk a).bind fun _ => ih

theorem Blind.filterM {k : α → Step Bool} (hk : ∀ a, Blind P b (k a)) (as : List α) :
    Blind P b (as.filterM k) := by
  have haux (kept : List α) : Blind P b (as.filterAuxM k kept) := by
    induction as generalizing kept with
    | nil => exact .pure kept
    | cons a as ih => exact (hk a).bind fun c => ih (cond c (a :: kept) kept)
  exact (haux []).bind fun kept => .pure kept.reverse

theorem Blind.foldlM {k : β → α → Step β} {as : List α} (hk : ∀ a ∈ as, ∀ x, Blind P b (k x a))
    (x : β) : Blind P b (as.foldlM k x) := by
  induction as generalizing x with
  | nil => exact .pure x
  | cons a as ih =>
    rw [List.foldlM_cons]
    obtain ⟨ha, has⟩ := List.forall_mem_cons.mp hk
    exact (ha x).bind fun y => ih has y

end Rules

/-! ## Loading and looking for cells -/

theorem blind_modifyCache (block : Nat) (m : Session → CellCache → CellCache)
    (hm : ∀ s, m (s.on b) = m s) :
    Blind (Within src f) b (modify fun s => s.modifyCache block (m s) : Step Unit) := by
  apply Blind.modify
  · intro s W
    apply W.modifyGroup
    intro g h hh
    exact .inl hh
  · intro s
    rw [hm]
    rfl

theorem blind_takeBudget : Blind (Within src f) b takeBudget where
  keeps := by
    intro s W
    have htake := takeBudget_eq s
    split at htake
    · rwa [after_of_ok htake]
    · rw [after_of_ok htake]
      exact ⟨W.source_eq, W.headers⟩
  same := by
    intro s W
    rw [takeBudget_eq, takeBudget_eq]
    have hoptions : (s.on b).options = s.options := rfl
    have hcount : (s.on b).subBlocksLoaded = s.subBlocksLoaded := rfl
    rw [hoptions, hcount]
    split <;> rfl

section Loading

variable (T : Source.Twins src b f)
include T

/-- Loading one group reads bytes, but only of groups in the file. -/
theorem blind_loadOne (id : Nat) : Blind (Within src f) b (loadOne id) where
  keeps := by
    intro s W
    have hone := loadOne_eq id s
    cases hid : s.group? id with
    | none =>
      rw [hid] at hone
      rwa [after_of_ok hone]
    | some g =>
      simp only [hid] at hone
      split at hone
      · rwa [after_of_ok hone]
      · cases hscan : g.waiting.foldlM (s.scan g.id) {} with
        | error e =>
          rw [hscan] at hone
          rwa [after_of_error hone]
        | ok found =>
          rw [hscan] at hone
          rw [after_of_ok hone]
          exact W.commit (W.mem_of_scan T hid hscan) _ _
  same := by
    intro s W
    rw [loadOne_eq, loadOne_eq, group?_on]
    cases hid : s.group? id with
    | none => rfl
    | some g =>
      have hwaiting : ∀ h ∈ g.waiting, h ∈ f.groupHeaders :=
        fun h hh => W.headers hid h (List.mem_of_mem_drop hh)
      have hscan : g.waiting.foldlM ((s.on b).scan g.id) {} = g.waiting.foldlM (s.scan g.id) {} :=
        foldlM_scan_on (W.source_eq.symm ▸ T) hwaiting {}
      simp only [hscan, commit_on]
      split
      · rfl
      · cases g.waiting.foldlM (s.scan g.id) {} <;> rfl

theorem blind_loadDeep (depth id : Nat) : Blind (Within src f) b (loadDeep depth id) := by
  induction depth generalizing id with
  | zero => exact .pure ()
  | succ depth ih =>
    refine (blind_loadOne T id).bind fun _ => Blind.get_bind (fun _ _ => rfl) fun t => ?_
    exact .forM ih (t.children id)

theorem blind_load (id : Nat) (deep : Bool) : Blind (Within src f) b (load id deep) := by
  have hread : Blind (Within src f) b
      (do return (← MonadState.get).records id : Step (List Record)) :=
    .get_bind (fun _ _ => rfl) fun t => .pure (t.records id)
  cases deep with
  | false => exact (blind_loadOne T id).bind fun _ => hread
  | true =>
    refine Blind.get_bind (fun s W => ?_) fun t => (blind_loadDeep T t.depthBound id).bind fun _ =>
      hread
    have hsize : b.size = s.image.size := by
      rw [T.size_eq, ← W.source_eq]
      rfl
    have hdepth : (s.on b).depthBound = s.depthBound := by
      simp only [depthBound, on, hsize]
    simp only [hdepth]

theorem blind_absorb (block : Nat) (world : FormId) (subBlock : Nat) :
    Blind (Within src f) b (absorb block world subBlock) :=
  (blind_load T subBlock true).bind fun _ => blind_modifyCache block _ fun _ => rfl

theorem blind_resolveSubBlock (block : Nat) (p : GridPosition) :
    Blind (Within src f) b (resolveSubBlock block p) := by
  refine Blind.get_bind (fun _ _ => rfl) fun s => ?_
  split
  · exact .pure true
  · refine (blind_loadOne T block).bind fun _ => Blind.get_bind (fun _ _ => rfl) fun t => ?_
    dsimp only
    split
    · exact .pure false
    · refine blind_takeBudget.bind fun granted => ?_
      cases granted with
      | false => exact .pure false
      | true =>
        refine Blind.bind (.forM (blind_absorb T block p.worldForm) _) fun _ => ?_
        exact (blind_modifyCache block _ fun _ => rfl).bind fun _ => .pure true

theorem blind_resolveBlocks (world : Nat) (p : GridPosition) :
    Blind (Within src f) b (resolveBlocks world p) :=
  (blind_loadOne T world).bind fun _ => Blind.get_bind (fun _ _ => rfl) fun _ =>
    .filterM (fun block => blind_resolveSubBlock T block p) _

theorem blind_addHeader {h : GroupHeader} (hh : h ∈ f.groupHeaders) (id : Nat) (eager : Bool) :
    Blind (Within src f) b (addHeader id h eager) := by
  refine Blind.bind (.modify (fun s W => W.pushHeader hh id) fun _ => rfl) fun _ => ?_
  split
  · exact blind_loadOne T id
  · exact .pure ()

end Loading

end Session

/-! ## Requests -/

/-- What a caller can ask for. -/
inductive Request where
  /-- To do an operation. -/
  | operation (op : Operation)
  /-- To follow a reference, to a record of the given shape if there is one. -/
  | resolve (shape : Option Shape) (reference : FormRef)

/-- What a caller is told. -/
inductive Answer where
  | done
  | records (rs : List Record)
  | record? (r? : Option Record)
  | group? (id? : Option Nat)

namespace Plugin

open Session (Step Blind Within)

/-- Does what is asked for. -/
def answer (p : Plugin) : Request → Step Answer
  | .operation (.load id deep) => do return .records (← Session.load id deep)
  | .operation .loadAll => do p.loadAll; return .done
  | .operation (.records tag) => do return .records (← p.records tag)
  | .operation (.query q) => do return .record? (← p.query q)
  | .operation (.worldChildren world) => do return .group? (← p.worldChildren world)
  | .resolve shape reference => do return .record? (p.resolve? (← get) shape reference)

/-- Does what is asked for, one after another, and goes on after a failure. -/
def serve (p : Plugin) : List Request → Session → List (Except Error Answer) × Session
  | [], s => ([], s)
  | request :: requests, s =>
    match p.answer request s with
    | .ok a t => (.ok a :: (p.serve requests t).1, (p.serve requests t).2)
    | .error e t => (.error e :: (p.serve requests t).1, (p.serve requests t).2)

section Serving

variable {src : Source} {b : Image} {f : Forest} {s : Session} (T : Source.Twins src b f)
include T

theorem blind_worldChildren (p : Plugin) (world : FormId) :
    Blind (Within src f) b (p.worldChildren world) := by
  refine Blind.get_bind (fun _ _ => rfl) fun t => ?_
  split
  · exact .pure _
  · exact (Session.blind_loadOne T _).bind fun _ => .get_bind (fun _ _ => rfl) fun _ => .pure _

theorem blind_atPosition (p : Plugin) {find : Session → Nat → GridPosition → Option Record}
    (hfind : ∀ s, find (s.on b) = find s) (position : GridPosition) :
    Blind (Within src f) b (p.atPosition find position) := by
  rw [atPosition]
  split
  · exact .pure _
  · refine (blind_worldChildren T p _).bind fun world? => ?_
    cases world? with
    | none => exact .pure _
    | some world =>
      refine (Session.blind_resolveBlocks T world position).bind fun blocks => ?_
      exact .get_bind (fun s _ => by rw [hfind]) fun _ => .pure _

theorem blind_records (p : Plugin) (tag : Tag) : Blind (Within src f) b (p.records tag) := by
  rw [records]
  split
  · exact .pure _
  · refine Blind.get_bind (fun _ _ => rfl) fun t => ?_
    split
    · exact .pure _
    · exact (Session.blind_load T _ false).bind fun _ => .pure _

theorem blind_query (p : Plugin) (q : Query) : Blind (Within src f) b (p.query q) := by
  rw [query]
  split
  · exact .pure _
  · cases q with
    | editorId name => exact .get_bind (fun _ _ => rfl) fun _ => .pure _
    | cell position => exact blind_atPosition T p (fun _ => rfl) position
    | land position => exact blind_atPosition T p (fun _ => rfl) position
    | cellName name =>
      refine Blind.get_bind (fun _ _ => rfl) fun t => ?_
      split
      · exact .get_bind (fun _ _ => rfl) fun _ => .pure _
      · exact (Session.blind_load T _ true).bind fun _ => .get_bind (fun _ _ => rfl) fun _ =>
          .pure _

/-- No request tells the files apart. -/
theorem blind_answer (p : Plugin) (request : Request) :
    Blind (Within src f) b (p.answer request) := by
  cases request with
  | resolve shape reference => exact .get_bind (fun _ _ => rfl) fun _ => .pure _
  | operation op =>
    cases op with
    | load id deep => exact (Session.blind_load T id deep).bind fun _ => .pure _
    | records tag => exact (blind_records T p tag).bind fun _ => .pure _
    | query q => exact (blind_query T p q).bind fun _ => .pure _
    | worldChildren world => exact (blind_worldChildren T p world).bind fun _ => .pure _
    | loadAll =>
      refine Blind.bind (.forM (fun id => ?_) p.topGroups) fun _ => .pure _
      exact (Session.blind_load T id true).bind fun _ => .pure ()

/-- All requests are answered in the same way. -/
theorem serve_on (p : Plugin) (W : Within src f s) (requests : List Request) :
    p.serve requests (s.on b) =
      ((p.serve requests s).1, (p.serve requests s).2.on b) := by
  induction requests generalizing s with
  | nil => rfl
  | cons request requests ih =>
    have hkeeps := (blind_answer T p request).keeps s W
    have hsame := (blind_answer T p request).same s W
    cases hanswer : p.answer request s with
    | ok a t =>
      rw [Session.after_of_ok hanswer] at hkeeps
      rw [hanswer, Session.relay] at hsame
      simp only [serve, hsame, hanswer, ih hkeeps]
    | error e t =>
      rw [Session.after_of_error hanswer] at hkeeps
      rw [hanswer, Session.relay] at hsame
      simp only [serve, hsame, hanswer, ih hkeeps]

/-- Registering top groups does not tell the files apart. -/
theorem blind_registerTop {h : GroupHeader} (hh : h ∈ f.groupHeaders) (eager : Bool)
    (ids : List Nat) : Blind (Within src f) b (registerTop eager ids h) := by
  refine Blind.get_bind (fun _ _ => rfl) fun t => ?_
  split
  · exact (Session.blind_addHeader T hh _ eager).bind fun _ => .pure _
  · refine Blind.bind ?_ fun id => (Session.blind_addHeader T hh id eager).bind fun _ => .pure _
    refine Blind.get_bind (fun _ _ => rfl) fun t => ?_
    refine Blind.bind (.modify (fun s W => W.addGroup ?_) fun _ => rfl) fun _ => .pure _
    simp

end Serving

/-! ## Opening -/

section Opening

variable {a b : Image} {schema : Schema} {pos : Nat} {cs : List Chunk}

/-- Where both files are cut into the same chunks, the same top groups are found. -/
theorem topHeaders_congr (hsize : b.size = a.size) (hrun : Chunk.Run a schema cs pos a.size)
    (hrun' : Chunk.Run b schema cs pos b.size) (length : Nat) :
    topHeaders b schema length pos = topHeaders a schema length pos := by
  induction cs generalizing pos with
  | nil =>
    rcases Nat.lt_or_ge pos length with hlt | hge
    · -- the length is too great; at the end, neither file has a header
      have hend : a.size ≤ pos := Nat.le_of_eq (Eq.symm hrun)
      rw [topHeaders_of_error hlt (Chunk.read_of_size_le hend),
        topHeaders_of_error hlt (Chunk.read_of_size_le (hsize ▸ hend))]
    · rw [topHeaders_of_le hge, topHeaders_of_le hge]
  | cons c cs ih =>
    obtain ⟨-, hread, hrest⟩ := hrun
    obtain ⟨-, hread', hrest'⟩ := hrun'
    have hsame := ih hrest hrest'
    rcases Nat.lt_or_ge pos length with hlt | hge
    · cases c with
      | record h => rwa [topHeaders_of_record hlt hread, topHeaders_of_record hlt hread']
      | group h =>
        rw [Chunk.stop_group] at hsame
        rw [topHeaders_of_group hlt hread, topHeaders_of_group hlt hread', hsame]
    · rw [topHeaders_of_le hge, topHeaders_of_le hge]

/-- Where both files are cut into the same chunks and their records are the same, a file without
groups is read in the same way. -/
theorem flatRecords_on {s : Session} (hsize : b.size = s.image.size)
    (hrun : Chunk.Run s.image .tes3 cs pos s.image.size)
    (hrun' : Chunk.Run b .tes3 cs pos b.size)
    (hreads : ∀ r ∈ cs.filterMap Chunk.record?, (s.source.on b).read r = s.source.read r)
    (length : Nat) : flatRecords (s.on b) length pos = flatRecords s length pos := by
  induction cs generalizing pos with
  | nil =>
    rcases Nat.lt_or_ge pos length with hlt | hge
    · have hend : s.image.size ≤ pos := Nat.le_of_eq (Eq.symm hrun)
      have hend' : (s.on b).image.size ≤ pos := hsize ▸ hend
      rw [flatRecords_of_error hlt (Chunk.read_of_size_le hend),
        flatRecords_of_error hlt (Chunk.read_of_size_le hend')]
    · rw [flatRecords_of_le hge, flatRecords_of_le hge]
  | cons c cs ih =>
    obtain ⟨-, hread, hrest⟩ := hrun
    obtain ⟨-, hread', hrest'⟩ := hrun'
    rcases Nat.lt_or_ge pos length with hlt | hge
    · cases c with
      | group h => cases (Chunk.tag_of_read_group hread).2
      | record h =>
        have hsame := ih hrest hrest' fun r hr => hreads r (List.mem_cons_of_mem _ hr)
        rw [Chunk.stop_record] at hsame
        have hfirst : (s.on b).source.read h = s.source.read h := hreads h List.mem_cons_self
        rw [flatRecords_of_record hlt hread, flatRecords_of_record (s := s.on b) hlt hread', hfirst,
          hsame]
    · rw [flatRecords_of_le hge, flatRecords_of_le hge]

variable {options : Options} {f : Forest}

/-- The top groups of a file are groups in it, whatever its length is said to be. -/
theorem mem_groupHeaders_of_topHeaders {src : Source} (T : Source.Twins src b f)
    {root : RecordHeader}
    (hread : Chunk.read src.image src.context.schema 0 none = .ok (.record root)) {length : Nat}
    {headers : List GroupHeader}
    (htop : topHeaders src.image src.context.schema length root.stop = .ok headers) :
    ∀ h ∈ headers, h ∈ f.groupHeaders := by
  obtain ⟨cs, hchunks, hrun, -⟩ := T.exists_rest hread
  obtain ⟨ds, htrail, rfl, -⟩ := exists_trail_of_topHeaders htop
  intro h hh
  obtain ⟨c, hc, hgroup⟩ := List.mem_filterMap.mp hh
  cases c with
  | record r => cases hgroup
  | group g =>
    cases hgroup
    apply T.mem_groupHeaders_of_mem_chunks
    rw [hchunks]
    exact List.mem_cons_of_mem _ (htrail.mem_of_run hrun hc)

/-- A file without groups is read in the same way. -/
theorem flatRecords_of_twins {s : Session} (T : Source.Twins s.source b f)
    (hflat : ¬s.context.schema.hasGroups) {root : RecordHeader}
    (hread : Chunk.read s.image s.context.schema 0 none = .ok (.record root)) (length : Nat) :
    flatRecords (s.on b) length root.stop = flatRecords s length root.stop := by
  obtain ⟨cs, hchunks, hrun, hrun'⟩ := T.exists_rest hread
  have hschema : s.source.context.schema = .tes3 := Schema.eq_tes3_of_not_hasGroups hflat
  rw [hschema] at hrun hrun'
  refine flatRecords_on T.size_eq hrun hrun' (fun r hr => ?_) length
  apply T.read_eq_of_flat hflat
  rw [hchunks]
  exact List.mem_cons_of_mem _ hr

/-- Top groups of a file are registered in the same way. -/
theorem blind_foldlM_registerTop {src : Source} (T : Source.Twins src b f) {root : RecordHeader}
    (hread : Chunk.read src.image src.context.schema 0 none = .ok (.record root)) {length : Nat}
    {headers : List GroupHeader}
    (htop : topHeaders src.image src.context.schema length root.stop = .ok headers) (eager : Bool) :
    Blind (Within src f) b (headers.foldlM (registerTop eager) []) := by
  have hmem := mem_groupHeaders_of_topHeaders T hread htop
  exact .foldlM (fun h hh ids => blind_registerTop T (hmem h hh) eager ids) []

/-- Twin files open in the same way, and fail to open in the same way. -/
theorem open?_on (hsize : b.size = a.size) (hdetect : Schema.detect a = .ok schema)
    (hdetect' : Schema.detect b = .ok schema)
    (hroot : readRoot b options schema = readRoot a options schema)
    (htwins : ∀ root content context, readRoot a options schema = .ok (root, content, context) →
      Source.Twins ⟨a, context, options⟩ b f) (length? : Option Nat) :
    open? b options length? = (open? a options length?).map fun x => (x.1, x.2.on b) := by
  simp only [open?, hdetect, hdetect', hroot, hsize, bind, Except.bind]
  cases checkEdition options schema with
  | error e => rfl
  | ok _ =>
    cases hresult : readRoot a options schema with
    | error e => rfl
    | ok result =>
      obtain ⟨root, content, context⟩ := result
      have T := htwins root content context hresult
      obtain ⟨hread, rfl⟩ := read_of_readRoot hresult
      obtain ⟨s, hs⟩ : ∃ s : Session,
          s = { image := a, length := some (length?.getD a.size), context, options } := ⟨_, rfl⟩
      have hb : { image := b, length := some (length?.getD a.size), context, options } = s.on b := by
        rw [hs, Session.on]
      have hsource : s.source = ⟨a, context, options⟩ := by rw [hs]; rfl
      dsimp only
      rw [hb, ← hs]
      by_cases hgroups : context.schema.hasGroups
      · obtain ⟨cs, -, hrun, hrun'⟩ := T.exists_rest hread
        have hheaders : topHeaders b context.schema (length?.getD a.size) root.header.stop =
            topHeaders a context.schema (length?.getD a.size) root.header.stop :=
          topHeaders_congr hsize hrun hrun' _
        rw [if_pos hgroups, if_pos hgroups, hheaders]
        cases htop : topHeaders a context.schema (length?.getD a.size) root.header.stop with
        | error e => rfl
        | ok headers =>
          have hsame := (blind_foldlM_registerTop T hread htop options.eager).same s
            (Session.within_of_groups_eq_empty hsource (by rw [hs]))
          simp only [EStateM.run, hsame]
          cases headers.foldlM (registerTop options.eager) [] s <;> rfl
      · have hflat := flatRecords_of_twins (s := s) (hsource ▸ T) (by rwa [hs]) (by rwa [hs])
          (length?.getD a.size)
        rw [if_neg hgroups, if_neg hgroups, hflat]
        cases flatRecords s (length?.getD a.size) root.header.stop <;> rfl

/-- The session that an open plugin starts from knows only headers of groups in the file. -/
theorem within_of_open? {plugin : Plugin} {s : Session} {length? : Option Nat}
    (hopen : open? a options length? = .ok (plugin, s)) (hdetect : Schema.detect a = .ok schema)
    (htwins : ∀ root content context, readRoot a options schema = .ok (root, content, context) →
      Source.Twins ⟨a, context, options⟩ b f) :
    ∃ src, Source.Twins src b f ∧ Within src f s := by
  obtain ⟨schema', context, hdetect', hroot, hcases⟩ := open?_cases hopen
  cases hdetect.symm.trans hdetect'
  have T := htwins _ _ _ hroot
  obtain ⟨hread, rfl⟩ := read_of_readRoot hroot
  refine ⟨_, T, ?_⟩
  rcases hcases with ⟨-, -, headers, htop, hfold⟩ | ⟨-, hsource, hgroups, -⟩
  · have hkeeps := (blind_foldlM_registerTop T hread htop options.eager).keeps
      { image := a, length := some (length?.getD a.size), context, options }
      (Session.within_of_groups_eq_empty rfl rfl)
    rwa [Session.after_of_ok hfold] at hkeeps
  · exact Session.within_of_groups_eq_empty hsource hgroups

end Opening

/-! ## The main result -/

/-- **Bytes that are passed over are not seen.** A file that differs from another one only in bytes
that are passed over has the same outline. It opens in the same way, or fails in the same way,
whatever its length is said to be. All requests are then answered in the same way, those that fail
included, and lead to sessions that differ in their file alone. -/
theorem passed_over_unseen {a b : Image} {o : Outline} {options : Options}
    (ho : Outline.ofImage a = .ok o) (hsize : b.size = a.size)
    (hdiff : ∀ i, b.bytes[i]? ≠ a.bytes[i]? → o.PassesOver (Skips a options o.schema) i)
    (length? : Option Nat) :
    Outline.ofImage b = .ok o ∧
      open? b options length? = (open? a options length?).map (fun x => (x.1, x.2.on b)) ∧
      ∀ plugin s, open? a options length? = .ok (plugin, s) → ∀ requests,
        plugin.serve requests (s.on b) =
          ((plugin.serve requests s).1, (plugin.serve requests s).2.on b) := by
  obtain ⟨ho', hdetect, hdetect', hroot, f, htwins⟩ :=
    Outline.twins_of_passesOver ho hsize hdiff
  refine ⟨ho', open?_on hsize hdetect hdetect' hroot htwins length?, ?_⟩
  intro plugin s hopen requests
  obtain ⟨src, T, W⟩ := within_of_open? hopen hdetect htwins
  exact serve_on T plugin W requests

/-- A file with the given bytes in three places that are passed over: the payload of a record
outside of groups, the payload of a record in a group whose tag has no shape, and the last word of
the group's header. -/
def veiled (payload : Bytes) (stamp : UInt8) : Image :=
  .ofBytes ((Draft.encodeAll .tes4
    [.record .TES4 0 ⟨0⟩ [72, 69, 68, 82, 12, 0, 0, 0, 128, 63, 4, 0, 0, 0, 0, 8, 0, 0],
     .record .GLOB 0 ⟨7⟩ payload,
     .group Tag.GLOB.code .top [.record .XXXX 0 ⟨9⟩ payload, .record .GLOB 0 ⟨8⟩ []]]).set 78 stamp)

/-- What is passed over may look like the header of a group. -/
theorem passed_over_unseen_veiled :
    ∃ o plugin s, Outline.ofImage (veiled [0, 0, 0, 0] 0) = .ok o ∧
      open? (veiled [0, 0, 0, 0] 0) { edition := some .oblivion } none = .ok (plugin, s) ∧
      s.groups.size = 1 ∧ (veiled [71, 82, 85, 80] 255).bytes ≠ (veiled [0, 0, 0, 0] 0).bytes ∧
      Outline.ofImage (veiled [71, 82, 85, 80] 255) = .ok o ∧
      open? (veiled [71, 82, 85, 80] 255) { edition := some .oblivion } none =
        .ok (plugin, s.on (veiled [71, 82, 85, 80] 255)) ∧
      ∀ requests, (plugin.serve requests (s.on (veiled [71, 82, 85, 80] 255))).1 =
        (plugin.serve requests s).1 := by
  have houtline : ((Outline.ofImage (veiled [0, 0, 0, 0] 0)).toOption.map fun o =>
      (List.range 126).all fun i => decide
        ((veiled [71, 82, 85, 80] 255).bytes[i]? = (veiled [0, 0, 0, 0] 0).bytes[i]? ∨
          o.PassesOver (· = .XXXX) i)) = some true := by
    decide +kernel
  have hopens : ((open? (veiled [0, 0, 0, 0] 0) { edition := some .oblivion } none).toOption.map
      fun x => x.2.groups.size) = some 1 := by
    decide +kernel
  obtain ⟨o, ho, hall⟩ := exists_eq_ok_of_map houtline
  obtain ⟨⟨plugin, s⟩, hopen, hgroups⟩ := exists_eq_ok_of_map hopens
  have hskips (tag : Tag) (htag : tag = .XXXX) :
      Skips (veiled [0, 0, 0, 0] 0) { edition := some .oblivion } o.schema tag := by
    intro root content context _
    rw [htag]
    cases context.edition <;> decide
  have hdiff (i : Nat) (hi : (veiled [71, 82, 85, 80] 255).bytes[i]? ≠
      (veiled [0, 0, 0, 0] 0).bytes[i]?) :
      o.PassesOver (Skips (veiled [0, 0, 0, 0] 0) { edition := some .oblivion } o.schema) i := by
    rcases Nat.lt_or_ge i 126 with hlt | hge
    · have hat := of_decide_eq_true (List.all_eq_true.mp hall i (List.mem_range.mpr hlt))
      exact (hat.resolve_left hi).imp hskips
    · have hlen : (veiled [71, 82, 85, 80] 255).bytes.length = 126 ∧
          (veiled [0, 0, 0, 0] 0).bytes.length = 126 := by decide +kernel
      rw [List.getElem?_eq_none (hlen.1 ▸ hge), List.getElem?_eq_none (hlen.2 ▸ hge)] at hi
      exact absurd rfl hi
  obtain ⟨ho', hopen', hserve⟩ := passed_over_unseen ho (by decide +kernel) hdiff none
  refine ⟨o, plugin, s, ho, hopen, hgroups, by decide +kernel, ho', ?_, fun requests => ?_⟩
  · rw [hopen', hopen]
    rfl
  · rw [hserve plugin s hopen requests]

end Plugin

end GamePlugin
