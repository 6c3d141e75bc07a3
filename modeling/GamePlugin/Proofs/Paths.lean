import GamePlugin.Proofs.Failure
import Mathlib.Data.List.Forall2

/-!
# Groups by their paths

The index of a node depends on when the node was made. Its path does not: it names the group at the
top by its label, and each group below by its label and kind. What lies at a path is a function of
the file alone (`Source.piecesAt`, `Source.recordsAt`), and a node that is loaded, with all nodes
above it, holds exactly that (`Session.Sound.headers_eq_piecesAt`). So two sessions agree on what
both have loaded, whatever each of them has done before.

The nodes above have to be loaded as well. Opening prepares the groups of cells and worlds piece by
piece; a piece of another kind waits, and what it holds is still missing below.

## Main definitions

* `GroupPath` — a path.
* `Source.piecesAt`, `Source.recordsAt` — what the file holds at a path.
* `Session.At` — the node at an index has a path.
* `Plugin.tops` — the headers at the top of the file.
-/

namespace GamePlugin

/-! ## Paths -/

/-- A path from the top of a file to a group. The kind does not count among top groups. -/
inductive GroupPath where
  | top (label : UInt32)
  | inside (outer : GroupPath) (label : UInt32) (kind : GroupKind)
deriving DecidableEq

namespace Source

/-- Headers of the pieces of the group at a path, in a file with the given headers at the top. -/
def piecesAt (src : Source) (tops : List GroupHeader) : GroupPath → List GroupHeader
  | .top label => tops.filter (·.label = label)
  | .inside outer label kind =>
    ((src.piecesAt tops outer).flatMap src.groupsIn).filter fun h =>
      h.label = label && h.kind = kind

/-- The records directly in the group at a path, without those that are passed over. -/
def recordsAt (src : Source) (tops : List GroupHeader) (path : GroupPath) : List Record :=
  (src.piecesAt tops path).flatMap src.decoded

theorem under_none_of_mem_recordsAt {src : Source} {tops : List GroupHeader} {path : GroupPath}
    {r : Record} (hr : r ∈ src.recordsAt tops path) : r.under none = r := by
  obtain ⟨h, -, hin⟩ := List.mem_flatMap.mp hr
  exact under_none_of_mem_decoded hin

/-- The index of a node is all that its records have and the file does not say. -/
theorem map_filter_under {src : Source} {tops : List GroupHeader} {path : GroupPath}
    {parent : Option Nat} {q : Record → Bool} (hq : ∀ r, q (r.under parent) = q r) :
    (((src.recordsAt tops path).map (·.under parent)).filter q).map (·.under none) =
      (src.recordsAt tops path).filter q := by
  have hq' : q ∘ (·.under parent) = q := funext hq
  rw [List.filter_map, List.map_map, hq']
  refine (List.map_congr_left fun r hr => ?_).trans (List.map_id _)
  exact under_none_of_mem_recordsAt (List.mem_of_mem_filter hr)

/-- Whether groups are prepared does not matter to what the file holds. -/
theorem piecesAt_eager (image : Image) (context : Context) (options : Options) (eager : Bool)
    (tops : List GroupHeader) (path : GroupPath) :
    piecesAt ⟨image, context, { options with eager }⟩ tops path =
      piecesAt ⟨image, context, options⟩ tops path := by
  induction path with
  | top label => rfl
  | inside outer label kind ih =>
    have hgroups : groupsIn ⟨image, context, { options with eager }⟩ =
        groupsIn ⟨image, context, options⟩ := rfl
    rw [piecesAt, piecesAt, ih, hgroups]

end Source

namespace Session

variable {src : Source} {tops : List GroupHeader} {ids : List Nat} {s s' : Session} {id p : Nat}
  {g : GroupNode} {path : GroupPath} {label : UInt32} {kind : GroupKind}

/-- The node at an index has a path. -/
def At (s : Session) : GroupPath → Nat → Prop
  | .top label, id => ∃ g, s.group? id = some g ∧ g.parent = none ∧ g.label = label
  | .inside outer label kind, id => ∃ g p, s.group? id = some g ∧ g.parent = some p ∧
      g.label = label ∧ g.kind = kind ∧ s.At outer p

instance decidableAt (s : Session) : (path : GroupPath) → (id : Nat) → Decidable (s.At path id)
  | .top label, id =>
    decidable_of_iff ((s.group? id).any fun g => g.parent = none && g.label = label) (by
      simp [At, Option.any_eq_true])
  | .inside outer label kind, id =>
    have := decidableAt s outer
    decidable_of_iff ((s.group? id).any fun g =>
      g.label = label && g.kind = kind && g.parent.any fun p => s.At outer p) (by
      simp only [Option.any_eq_true, Bool.and_eq_true, decide_eq_true_eq, At]
      constructor
      · rintro ⟨g, hid, ⟨hlabel, hkind⟩, p, hp, hat⟩
        exact ⟨g, p, hid, hp, hlabel, hkind, hat⟩
      · rintro ⟨g, p, hid, hp, hlabel, hkind, hat⟩
        exact ⟨g, hid, ⟨hlabel, hkind⟩, p, hp, hat⟩)

theorem At.exists_group? (H : s.At path id) : ∃ g, s.group? id = some g := by
  cases path with
  | top label =>
    obtain ⟨g, hid, -⟩ := H
    exact ⟨g, hid⟩
  | inside outer label kind =>
    obtain ⟨g, p, hid, -⟩ := H
    exact ⟨g, hid⟩

/-- A node below the top has the path of its holder, its label and its kind. -/
theorem At.of_parent (H : s.At path p) (hid : s.group? id = some g) (hp : g.parent = some p) :
    s.At (.inside path g.label g.kind) id :=
  ⟨g, p, hid, hp, rfl, rfl, H⟩

/-- A node has one path at most. -/
theorem At.path_unique {path' : GroupPath} (hat : s.At path id) (hat' : s.At path' id) :
    path = path' := by
  induction path generalizing id path' with
  | top label =>
    obtain ⟨g, hid, hp, rfl⟩ := hat
    cases path' with
    | top label' =>
      obtain ⟨g', hid', -, rfl⟩ := hat'
      cases hid.symm.trans hid'
      rfl
    | inside outer' label' kind' =>
      obtain ⟨g', p', hid', hp', -⟩ := hat'
      cases hid.symm.trans hid'
      cases hp.symm.trans hp'
  | inside outer label kind ih =>
    obtain ⟨g, p, hid, hp, rfl, rfl, houter⟩ := hat
    cases path' with
    | top label' =>
      obtain ⟨g', hid', hp', -⟩ := hat'
      cases hid.symm.trans hid'
      cases hp.symm.trans hp'
    | inside outer' label' kind' =>
      obtain ⟨g', p', hid', hp', rfl, rfl, houter'⟩ := hat'
      cases hid.symm.trans hid'
      cases hp.symm.trans hp'
      rw [ih houter houter']

/-- Every node has a path. -/
theorem Sound.exists_at (H : Sound src tops s) (hid : s.group? id = some g) :
    ∃ path, s.At path id := by
  induction id using Nat.strongRecOn generalizing g with
  | ind id ih =>
    cases hp : g.parent with
    | none => exact ⟨.top g.label, g, hid, hp, rfl⟩
    | some p =>
      have hlt := H.arena.parent_lt hid hp
      obtain ⟨k, hk⟩ := group?_of_lt (Nat.lt_trans hlt (lt_of_group? hid))
      obtain ⟨path, hat⟩ := ih p hlt hk
      exact ⟨_, hat.of_parent hid hp⟩

/-- There is one node at a path at most. -/
theorem Sound.at_unique {c : Nat} (H : Sound src tops s) (hat : s.At path id)
    (hat' : s.At path c) : id = c := by
  induction path generalizing id c with
  | top label =>
    obtain ⟨g, hid, hp, rfl⟩ := hat
    obtain ⟨k, hc, hp', hlabel⟩ := hat'
    refine H.arena.unique hid hc (hp.trans hp'.symm) ?_
    simp [GroupNode.key, hp, hp', hlabel]
  | inside outer label kind ih =>
    obtain ⟨g, p, hid, hp, rfl, rfl, houter⟩ := hat
    obtain ⟨k, p', hc, hp', hlabel, hkind, houter'⟩ := hat'
    obtain rfl := ih houter houter'
    refine H.arena.unique hid hc (hp.trans hp'.symm) ?_
    simp [GroupNode.key, hp, hp', hlabel, hkind]

/-! ## What nodes hold -/

/-- **A node below loaded nodes has the headers that the file has at its path.** -/
theorem Sound.headers_eq_piecesAt (H : Sound src tops s) (hat : s.At path id)
    (hid : s.group? id = some g) (habove : ∀ p, g.parent = some p → Settled s p) :
    g.headers.toList = src.piecesAt tops path := by
  induction path generalizing id g with
  | top label =>
    obtain ⟨g', hid', hp, rfl⟩ := hat
    cases hid'.symm.trans hid
    rw [H.arena.headers_eq hid, hp, pieces, Source.piecesAt]
    refine List.filter_congr fun h _ => ?_
    have hkey := GroupNode.key_eq_iff_of_top hp h
    rw [decide_eq_decide, eq_comm, hkey, eq_comm]
  | inside outer label kind ih =>
    obtain ⟨g', p, hid', hp, rfl, rfl, houter⟩ := hat
    cases hid'.symm.trans hid
    obtain ⟨k, hk⟩ := houter.exists_group?
    have hsettled := habove p hp
    have hheaders := ih houter hk fun q hq => hsettled.parent hk hq
    rw [H.arena.headers_eq hid, hp, pieces_of_group? hk,
      GroupNode.done_of_isLoaded (hsettled.isLoaded hk), hheaders, Source.piecesAt]
    refine List.filter_congr fun h _ => ?_
    have hkey := GroupNode.key_eq_iff_of_parent hp h
    rw [← Bool.decide_and, decide_eq_decide, eq_comm, hkey, eq_comm, @eq_comm _ g.kind]

/-- The headers of a node are among those that the file has at its path. -/
theorem Sound.mem_piecesAt (H : Sound src tops s) (hat : s.At path id)
    (hid : s.group? id = some g) {h : GroupHeader} (hh : h ∈ g.headers.toList) :
    h ∈ src.piecesAt tops path := by
  induction path generalizing id g h with
  | top label =>
    obtain ⟨g', hid', hp, rfl⟩ := hat
    cases hid'.symm.trans hid
    rw [H.arena.headers_eq hid, hp] at hh
    obtain ⟨hmem, hkey⟩ := List.mem_filter.mp hh
    have hlabel := (GroupNode.key_eq_iff_of_top hp h).mp (of_decide_eq_true hkey).symm
    exact List.mem_filter.mpr ⟨hmem, decide_eq_true hlabel.symm⟩
  | inside outer label kind ih =>
    obtain ⟨g', p, hid', hp, rfl, rfl, houter⟩ := hat
    cases hid'.symm.trans hid
    obtain ⟨k, hk⟩ := houter.exists_group?
    obtain ⟨above, habove, hin⟩ := H.exists_outer hid hp hk hh
    rw [H.arena.headers_eq hid, hp] at hh
    have hkey := of_decide_eq_true (List.mem_filter.mp hh).2
    obtain ⟨hlabel, hkind⟩ := (GroupNode.key_eq_iff_of_parent hp h).mp hkey.symm
    refine List.mem_filter.mpr ⟨List.mem_flatMap.mpr ⟨above, ih houter hk habove, hin⟩, ?_⟩
    simp [hlabel, hkind]

/-- The records of a node are among those that the file has at its path. -/
theorem Sound.mem_recordsAt (H : Sound src tops s) (hat : s.At path id) {r : Record}
    (hr : r ∈ s.records id) : r.under none ∈ src.recordsAt tops path := by
  obtain ⟨g, hid⟩ := hat.exists_group?
  rw [records, hid, Option.map_some, Option.getD_some, (H.tidy hid).records_eq] at hr
  obtain ⟨r', hr', rfl⟩ := List.mem_map.mp hr
  obtain ⟨h, hh, hin⟩ := List.mem_flatMap.mp hr'
  have hsame : (r'.under (some id)).under none = r' := Source.under_none_of_mem_decoded hin
  rw [hsame]
  exact List.mem_flatMap.mpr ⟨h, H.mem_piecesAt hat hid (List.mem_of_mem_take hh), hin⟩

/-- A node that is loaded, with all nodes above it, has the records that the file has at its
path. -/
theorem Sound.records_eq_recordsAt (H : Sound src tops s) (hat : s.At path id)
    (hid : s.group? id = some g) (hsettled : Settled s id) :
    g.records.toList = (src.recordsAt tops path).map (·.under (some id)) := by
  have hheaders := H.headers_eq_piecesAt hat hid fun p hp => hsettled.parent hid hp
  rw [(H.tidy hid).records_eq, GroupNode.done_of_isLoaded (hsettled.isLoaded hid), hheaders,
    Source.recordsAt]

theorem under_none_records (H : Tidy src id g) :
    g.records.toList.map (·.under none) = g.done.flatMap src.decoded := by
  rw [H.records_eq, List.map_map]
  conv_rhs => rw [← List.map_id (g.done.flatMap src.decoded)]
  refine List.map_congr_left fun r hr => ?_
  obtain ⟨h, -, hin⟩ := List.mem_flatMap.mp hr
  exact Source.under_none_of_mem_decoded hin

/-- The children of a loaded node come in the order of their first headers. -/
theorem Sound.children_order (H : Sound src tops s) (hid : s.group? id = some g)
    (hloaded : g.isLoaded) :
    g.children.toList.map s.key? = ((g.headers.toList.flatMap src.groupsIn).map fun h =>
      some (⟨h.label, some h.kind⟩ : GroupKey)).eraseDups := by
  rw [H.arena.children_eq hid, H.arena.order, pieces_of_group? hid,
    GroupNode.done_of_isLoaded hloaded]
  rfl

/-- Where no node is read in part, a node is loaded only after all nodes above it. -/
theorem Sound.settled_of_whole (H : Sound src tops s) (hwhole : Whole s)
    (hid : s.group? id = some g) (hloaded : g.isLoaded) : Settled s id := by
  induction id using Nat.strongRecOn generalizing g with
  | ind id ih =>
    refine .intro hid hloaded fun p hp => ?_
    have hlt := H.arena.parent_lt hid hp
    obtain ⟨k, hk⟩ := group?_of_lt (Nat.lt_trans hlt (lt_of_group? hid))
    refine ih p hlt hk ((hwhole p k hk).resolve_left fun hzero => ?_)
    exact H.parent_ne_of_processed_eq_zero hk hzero hid hp

/-- Nodes with the same keys in the same order, below nodes with the same path, have the same
paths. -/
theorem forall₂_at {s s' : Session} {cs cs' : List Nat} {p' : Nat} (hat : s.At path p)
    (hat' : s'.At path p') (hcs : ∀ c ∈ cs, ∃ k, s.group? c = some k ∧ k.parent = some p)
    (hcs' : ∀ c ∈ cs', ∃ k, s'.group? c = some k ∧ k.parent = some p')
    (hkeys : cs.map s.key? = cs'.map s'.key?) :
    List.Forall₂ (fun c c' => ∃ label kind, s.At (.inside path label kind) c ∧
      s'.At (.inside path label kind) c') cs cs' := by
  induction cs generalizing cs' with
  | nil =>
    rw [List.map_nil, eq_comm, List.map_eq_nil_iff] at hkeys
    rw [hkeys]
    exact .nil
  | cons c cs ih =>
    cases cs' with
    | nil => cases hkeys
    | cons c' cs' =>
      obtain ⟨⟨k, hk, hp⟩, hcs⟩ := List.forall_mem_cons.mp hcs
      obtain ⟨⟨k', hk', hp'⟩, hcs'⟩ := List.forall_mem_cons.mp hcs'
      rw [List.map_cons, List.map_cons, List.cons.injEq] at hkeys
      obtain ⟨hkey, hkeys⟩ := hkeys
      simp only [key?, hk, hk', Option.map_some, Option.some.injEq, GroupNode.key, hp, hp',
        GroupKey.mk.injEq] at hkey
      refine .cons ⟨k.label, k.kind, hat.of_parent hk hp, ?_⟩ (ih hcs hcs' hkeys)
      rw [hkey.1, hkey.2]
      exact hat'.of_parent hk' hp'

end Session

/-! ## Headers at the top -/

/-- Headers of the groups at the top of the file that a session reads. -/
def Plugin.tops (p : Plugin) (s : Session) : List GroupHeader :=
  (topHeaders s.image s.context.schema (s.length.getD s.image.size)
    p.root.header.stop).toOption.getD []

namespace Plugin

variable {image : Image} {options : Options} {length? : Option Nat} {p : Plugin}
  {s₀ s : Session}

theorem position_of_mem_tops {h : GroupHeader} (hh : h ∈ p.tops s) :
    s.context.schema.groupHeaderSize ≤ h.position := by
  rw [tops] at hh
  cases htop : topHeaders s.image s.context.schema (s.length.getD s.image.size)
      p.root.header.stop with
  | error e => rw [htop] at hh; cases hh
  | ok headers => exact position_of_mem_topHeaders htop h (by rwa [htop] at hh)

/-- Registering top groups leaves all but the nodes and the index. -/
theorem rest_registerTop {src : Source} {tops : List GroupHeader} {ids ids' : List Nat}
    {s s' : Session} {h : GroupHeader} {eager : Bool} (start : Session)
    (H : Session.Rooted src tops ids s)
    (hrest : s = { start with groups := s.groups, index := s.index })
    (heq : registerTop eager ids h s = .ok ids' s') :
    s' = { start with groups := s'.groups, index := s'.index } := by
  refine of_registerTop (Q := fun s => s = { start with groups := s.groups, index := s.index })
    ?_ ?_ H hrest heq
  · intro s h s' P hs
    have G := P.grows fun p hp => by cases hp
    rw [G.others, hs]
  · intro src tops ids s id g R hid _ hs
    obtain ⟨-, G⟩ := R.arena.commit hid g.headers.size (Session.foundUnder src id g.waiting)
    rw [G.others, Session.recorded, Session.modifyGroup, hs]

/-- What opening has read of the root record. -/
theorem readRoot_of_open? (hopen : open? image options length? = .ok (p, s₀)) :
    Schema.detect image = .ok s₀.context.schema ∧
      readRoot image options s₀.context.schema = .ok (p.root, p.header, s₀.context) := by
  obtain ⟨schema, context, hdetect, hroot, hcases⟩ := open?_cases hopen
  obtain ⟨-, hschema⟩ := read_of_readRoot hroot
  have hcontext : s₀.context = context := by
    rcases hcases with ⟨-, -, headers, -, hfold⟩ | ⟨-, hsource, -⟩
    · have hstart : Session.Rooted ⟨image, context, options⟩ [] []
          { image, length := some (length?.getD image.size), context, options } :=
        Session.rooted_of_groups_eq_empty rfl rfl
      exact congrArg Source.context (hstart.foldlM_registerTop hfold).source_eq
    · exact congrArg Source.context hsource
  rw [hcontext, hschema]
  exact ⟨hdetect, hroot⟩

/-- What registering top groups keeps, from a session without nodes, holds of the session of an open
file with groups. -/
theorem of_open?_of_hasGroups {Q : Session → Prop}
    (hopen : open? image options length? = .ok (p, s₀)) (hgroups : s₀.context.schema.hasGroups)
    (hstart :
      Q { image, length := some (length?.getD image.size), context := s₀.context, options })
    (hstep : ∀ {src tops ids s h ids' s'}, Session.Rooted src tops ids s → Q s →
      registerTop options.eager ids h s = .ok ids' s' → Q s') : Q s₀ := by
  obtain ⟨hdetect, hroot⟩ := readRoot_of_open? hopen
  obtain ⟨schema, context, hdetect', hroot', hcases⟩ := open?_cases hopen
  cases hdetect.symm.trans hdetect'
  cases hroot.symm.trans hroot'
  rcases hcases with ⟨-, -, headers, -, hfold⟩ | ⟨hnot, -⟩
  · have hempty : Session.Rooted ⟨image, s₀.context, options⟩ [] []
        { image, length := some (length?.getD image.size), context := s₀.context, options } :=
      Session.rooted_of_groups_eq_empty rfl rfl
    exact (hempty.foldlM_registerTop_and hstep hstart hfold).2
  · exact absurd hgroups hnot

/-- The session of an open file with groups, up to its nodes and its index. -/
theorem rest_of_open? (hopen : open? image options length? = .ok (p, s₀))
    (hgroups : s₀.context.schema.hasGroups) :
    s₀ = { image, length := some (length?.getD image.size), context := s₀.context, options,
           groups := s₀.groups, index := s₀.index } :=
  of_open?_of_hasGroups
    (Q := fun s => s = { image, length := some (length?.getD image.size), context := s₀.context,
                         options, groups := s.groups, index := s.index })
    hopen hgroups rfl (rest_registerTop
      { image, length := some (length?.getD image.size), context := s₀.context, options })

/-- An open file with groups: what its session reads from, and the headers at its top. -/
theorem rooted_tops_of_open? (hopen : open? image options length? = .ok (p, s₀))
    (hgroups : s₀.context.schema.hasGroups) :
    p.flat = none ∧ s₀.source = ⟨image, s₀.context, options⟩ ∧
      s₀.length = some (length?.getD image.size) ∧
      Session.Rooted s₀.source (p.tops s₀) p.topGroups s₀ := by
  obtain ⟨hdetect, hroot⟩ := readRoot_of_open? hopen
  obtain ⟨schema, context, hdetect', hroot', hcases⟩ := open?_cases hopen
  cases hdetect.symm.trans hdetect'
  cases hroot.symm.trans hroot'
  rcases hcases with ⟨-, hflat, headers, htop, hfold⟩ | ⟨hnot, -⟩
  · have hstart : Session.Rooted ⟨image, s₀.context, options⟩ [] []
        { image, length := some (length?.getD image.size), context := s₀.context, options } :=
      Session.rooted_of_groups_eq_empty rfl rfl
    have H := hstart.foldlM_registerTop hfold
    have hlength : s₀.length = some (length?.getD image.size) := by
      rw [rest_of_open? hopen hgroups]
    have himage : s₀.image = image := congrArg Source.image H.source_eq
    have htops : p.tops s₀ = headers := by
      rw [tops, himage, hlength, Option.getD_some, htop]
      rfl
    rw [H.source_eq, htops]
    exact ⟨hflat, rfl, hlength, H⟩
  · exact absurd hgroups hnot

/-- A file whose session has nodes is a file with groups. -/
theorem hasGroups_of_group? (hopen : open? image options length? = .ok (p, s₀))
    (hreach : p.Reaches s₀ s) {id : Nat} {g : GroupNode} (hid : s.group? id = some g) :
    s₀.context.schema.hasGroups := by
  obtain ⟨hdetect, -⟩ := readRoot_of_open? hopen
  obtain ⟨schema, context, hdetect', -, hcases⟩ := open?_cases hopen
  cases hdetect.symm.trans hdetect'
  rcases hcases with ⟨hgroups, -⟩ | ⟨-, -, hempty, -⟩
  · exact hgroups
  · have hnone := hreach.of_stable Session.stable_empty hempty
    simp [Session.group?, hnone] at hid

/-- Whether groups are prepared does not matter to what a file is. -/
theorem tops_eager {eager : Bool} {p' : Plugin} {s₀' : Session}
    (hopen : open? image options length? = .ok (p, s₀))
    (hopen' : open? image { options with eager } length? = .ok (p', s₀'))
    (hgroups : s₀.context.schema.hasGroups) :
    s₀'.source = ⟨image, s₀.context, { options with eager }⟩ ∧ p'.tops s₀' = p.tops s₀ := by
  obtain ⟨hdetect, hroot⟩ := readRoot_of_open? hopen
  obtain ⟨hdetect', hroot'⟩ := readRoot_of_open? hopen'
  have hschema : s₀'.context.schema = s₀.context.schema :=
    Except.ok.inj (hdetect'.symm.trans hdetect)
  have hsame : readRoot image { options with eager } s₀'.context.schema =
      readRoot image options s₀'.context.schema := rfl
  rw [hsame, hschema, hroot, Except.ok.injEq, Prod.mk.injEq, Prod.mk.injEq] at hroot'
  obtain ⟨hp, -, hcontext⟩ := hroot'
  obtain ⟨-, hsource, hlength, -⟩ := rooted_tops_of_open? hopen hgroups
  obtain ⟨-, hsource', hlength', -⟩ := rooted_tops_of_open? hopen' (hschema ▸ hgroups)
  have himage : s₀.image = image := congrArg Source.image hsource
  have himage' : s₀'.image = image := congrArg Source.image hsource'
  refine ⟨by rw [hsource', ← hcontext], ?_⟩
  rw [tops, tops, himage, himage', hlength, hlength', ← hcontext, ← hp]

/-! ## The main result -/

/-- A node that is loaded in a session that is reached, and the nodes above it. -/
theorem settled_of_reaches (hopen : open? image options length? = .ok (p, s₀))
    (hreach : p.Reaches s₀ s) {id : Nat} {g : GroupNode} (hid : s.group? id = some g)
    (hloaded : g.isLoaded) (huniform : options.eager → s₀.Uniform) : s.Settled id := by
  obtain ⟨tops, H₀, -⟩ := exists_rooted_of_open? hopen
  have hwhole := H₀.toSound.whole_of_prepared (prepared_of_open? hopen) huniform
  obtain ⟨H, hwhole⟩ := hreach.rooted_and H₀ hwhole .commit .alike
  exact H.toSound.settled_of_whole hwhole hid hloaded

/-- **What is loaded does not depend on when it is loaded.** Two callers have opened a file, and one
of them may have had cells and worlds prepared. Nodes with the same path that are loaded in both
sessions have the same headers, the same records up to the index of the node, and children with the
same paths, all in the same order. The nodes above are loaded as well, unless groups were prepared
and a node of the opened file has headers of different kinds. -/
theorem loaded_nodes_agree {eager : Bool} {p' : Plugin} {s₀' s' : Session} {path : GroupPath}
    {id id' : Nat} {g g' : GroupNode}
    (hopen : open? image options length? = .ok (p, s₀))
    (hopen' : open? image { options with eager } length? = .ok (p', s₀'))
    (hreach : p.Reaches s₀ s) (hreach' : p'.Reaches s₀' s')
    (hat : s.At path id) (hat' : s'.At path id')
    (hid : s.group? id = some g) (hid' : s'.group? id' = some g')
    (hloaded : g.isLoaded) (hloaded' : g'.isLoaded)
    (habove : s.Settled id ∨ (options.eager → s₀.Uniform))
    (habove' : s'.Settled id' ∨ (eager → s₀'.Uniform)) :
    g'.headers = g.headers ∧
      g'.records.toList.map (·.under none) = g.records.toList.map (·.under none) ∧
      List.Forall₂ (fun c c' => ∃ label kind, s.At (.inside path label kind) c ∧
        s'.At (.inside path label kind) c') g.children.toList g'.children.toList := by
  have hgroups := hasGroups_of_group? hopen hreach hid
  have hgroups' := hasGroups_of_group? hopen' hreach' hid'
  obtain ⟨-, hsource, -, H₀⟩ := rooted_tops_of_open? hopen hgroups
  obtain ⟨-, -, -, H₀'⟩ := rooted_tops_of_open? hopen' hgroups'
  obtain ⟨hsource', htops⟩ := tops_eager hopen hopen' hgroups
  rw [hsource] at H₀
  rw [hsource', htops] at H₀'
  have H := (hreach.of_stable Session.Rooted.stable H₀).toSound
  have H' := (hreach'.of_stable Session.Rooted.stable H₀').toSound
  have hsettled : s.Settled id :=
    habove.elim (fun h => h) (settled_of_reaches hopen hreach hid hloaded)
  have hsettled' : s'.Settled id' :=
    habove'.elim (fun h => h) (settled_of_reaches hopen' hreach' hid' hloaded')
  have hheaders := H.headers_eq_piecesAt hat hid fun q hq => hsettled.parent hid hq
  have hheaders' := H'.headers_eq_piecesAt hat' hid' fun q hq => hsettled'.parent hid' hq
  rw [Source.piecesAt_eager] at hheaders'
  refine ⟨Array.toList_inj.mp (hheaders'.trans hheaders.symm), ?_, ?_⟩
  · rw [Session.under_none_records (H.tidy hid), Session.under_none_records (H'.tidy hid'),
      GroupNode.done_of_isLoaded hloaded, GroupNode.done_of_isLoaded hloaded', hheaders, hheaders']
    rfl
  · refine Session.forall₂_at hat hat' (fun c hc => H.exists_child hid hc)
      (fun c hc => H'.exists_child hid' hc) ?_
    rw [H.children_order hid hloaded, H'.children_order hid' hloaded', hheaders, hheaders']
    rfl

/-- A block in two pieces is node 1 where cells were prepared, and node 2 where they were not: with
the groups at the top registered first, the block comes after them. -/
theorem loaded_nodes_agree_splitCells :
    ∃ p s₀ p' s₀' s s' g g',
      open? splitCells { edition := some .oblivion } none = .ok (p, s₀) ∧
      open? splitCells { edition := some .oblivion, eager := false } none = .ok (p', s₀') ∧
      p.Reaches s₀ s ∧ p'.Reaches s₀' s' ∧
      s.At (.inside (.top Tag.CELL.code) 0 .interiorCellBlock) 1 ∧
      s'.At (.inside (.top Tag.CELL.code) 0 .interiorCellBlock) 2 ∧
      s.group? 1 = some g ∧ s'.group? 2 = some g' ∧ g.isLoaded ∧ g'.isLoaded ∧
      s₀.Uniform ∧ g.headers.size = 2 ∧ g.children.size = 2 ∧ g'.headers = g.headers ∧
      g'.records.toList.map (·.under none) = g.records.toList.map (·.under none) ∧
      List.Forall₂ (fun c c' => ∃ label kind,
        s.At (.inside (.inside (.top Tag.CELL.code) 0 .interiorCellBlock) label kind) c ∧
        s'.At (.inside (.inside (.top Tag.CELL.code) 0 .interiorCellBlock) label kind) c')
        g.children.toList g'.children.toList := by
  have hprepared : ((open? splitCells { edition := some .oblivion } none).toOption.map fun x =>
      let s := Session.after (x.1.perform (.load 1 false)) x.2
      (decide (s.At (.inside (.top Tag.CELL.code) 0 .interiorCellBlock) 1),
        (s.group? 1).map fun g => (g.isLoaded, g.headers.size, g.children.size),
        x.2.groups.toList.all fun g => g.headers.toList.all fun h => decide (h.kind = g.kind))) =
      some (true, some (true, 2, 2), true) := by
    decide +kernel
  have hplain : ((open? splitCells { edition := some .oblivion, eager := false } none).toOption.map
      fun x =>
        let s := Session.after (x.1.perform (.load 0 true)) x.2
        (decide (s.At (.inside (.top Tag.CELL.code) 0 .interiorCellBlock) 2),
          (s.group? 2).map (·.isLoaded))) = some (true, some true) := by
    decide +kernel
  obtain ⟨⟨p, s₀⟩, hopen, hvalues⟩ := exists_eq_ok_of_map hprepared
  obtain ⟨⟨p', s₀'⟩, hopen', hvalues'⟩ := exists_eq_ok_of_map hplain
  simp only [Prod.mk.injEq] at hvalues hvalues'
  obtain ⟨hat, hnode, hkinds⟩ := hvalues
  obtain ⟨hat', hnode'⟩ := hvalues'
  obtain ⟨g, hg, hcounts⟩ := Option.map_eq_some_iff.mp hnode
  obtain ⟨g', hg', hloaded'⟩ := Option.map_eq_some_iff.mp hnode'
  simp only [Prod.mk.injEq] at hcounts
  obtain ⟨hloaded, hheaders, hchildren⟩ := hcounts
  have huniform : s₀.Uniform := by
    intro c g hg h hh
    have hmem : g ∈ s₀.groups.toList := Array.mem_toList_iff.mpr (Array.mem_of_getElem? hg)
    exact of_decide_eq_true (List.all_eq_true.mp (List.all_eq_true.mp hkinds g hmem) h hh)
  have hreach : p.Reaches s₀ (Session.after (p.perform (.load 1 false)) s₀) := .step .refl _
  have hreach' : p'.Reaches s₀' (Session.after (p'.perform (.load 0 true)) s₀') := .step .refl _
  exact ⟨p, s₀, p', s₀', _, _, g, g', hopen, hopen', hreach, hreach', of_decide_eq_true hat,
    of_decide_eq_true hat', hg, hg', hloaded, hloaded', huniform, hheaders, hchildren,
    loaded_nodes_agree hopen hopen' hreach hreach' (of_decide_eq_true hat)
      (of_decide_eq_true hat') hg hg' hloaded hloaded' (.inr fun _ => huniform) (.inr nofun)⟩

/-- A file with two groups at the top that have the label of cells, but only one of them has the
kind of top groups. Each has a piece of the same block. -/
def tornCells : Image :=
  .ofBytes (Draft.encodeAll .tes4
    [.record .TES4 0 ⟨0⟩ [72, 69, 68, 82, 12, 0, 0, 0, 128, 63, 4, 0, 0, 0, 0, 8, 0, 0],
     .group Tag.CELL.code .top [.group 5 .interiorCellBlock [.record .CELL 0 ⟨7⟩ []]],
     .group Tag.CELL.code .interiorCellBlock
      [.group 5 .interiorCellBlock [.record .CELL 0 ⟨8⟩ []]]])

/-- Below a node that is read in part, what is loaded depends on when it is loaded: the second piece
of the block is found only once the waiting header above it is read. -/
theorem loaded_nodes_differ :
    ∃ p s₀ s s' g g', open? tornCells { edition := some .oblivion } none = .ok (p, s₀) ∧
      p.Reaches s₀ s ∧ p.Reaches s₀ s' ∧
      s.At (.inside (.top Tag.CELL.code) 5 .interiorCellBlock) 1 ∧
      s'.At (.inside (.top Tag.CELL.code) 5 .interiorCellBlock) 1 ∧
      s.group? 1 = some g ∧ s'.group? 1 = some g' ∧ g.isLoaded ∧ g'.isLoaded ∧
      g.headers.size = 1 ∧ g.records.size = 1 ∧ g'.headers.size = 2 ∧ g'.records.size = 2 := by
  have hloads : ((open? tornCells { edition := some .oblivion } none).toOption.map fun x =>
      let s := Session.after (x.1.perform (.load 1 false)) x.2
      let s' := Session.after (x.1.perform (.load 1 false))
        (Session.after (x.1.perform (.load 0 false)) x.2)
      (decide (s.At (.inside (.top Tag.CELL.code) 5 .interiorCellBlock) 1) &&
          decide (s'.At (.inside (.top Tag.CELL.code) 5 .interiorCellBlock) 1),
        [s, s'].map fun s => (s.group? 1).map fun g =>
          (g.isLoaded, g.headers.size, g.records.size))) =
      some (true, [some (true, 1, 1), some (true, 2, 2)]) := by
    decide +kernel
  obtain ⟨⟨p, s₀⟩, hopen, hvalues⟩ := exists_eq_ok_of_map hloads
  simp only [Prod.mk.injEq, Bool.and_eq_true, List.map_cons, List.cons.injEq] at hvalues
  obtain ⟨⟨hat, hat'⟩, hnode, hnode', -⟩ := hvalues
  obtain ⟨g, hg, hcounts⟩ := Option.map_eq_some_iff.mp hnode
  obtain ⟨g', hg', hcounts'⟩ := Option.map_eq_some_iff.mp hnode'
  simp only [Prod.mk.injEq] at hcounts hcounts'
  exact ⟨p, s₀, _, _, g, g', hopen, .step .refl _, .step (.step .refl _) _,
    of_decide_eq_true hat, of_decide_eq_true hat', hg, hg', hcounts.1, hcounts'.1, hcounts.2.1,
    hcounts.2.2, hcounts'.2.1, hcounts'.2.2⟩

end Plugin

end GamePlugin
