import GamePlugin.Plugin.Open
import GamePlugin.Proofs.Completion
import GamePlugin.Proofs.Forest

/-!
# Opening a file

Opening a file with groups finds the headers at its top, in file order, and places them in an empty
arena. With what loading keeps true, the session that an open plugin starts from is sound
(`Plugin.exists_rooted_of_open?`). Where the file has the shape of a forest, the headers are those
of the groups at the top of the forest (`Plugin.rooted_of_open?`).
-/

namespace GamePlugin

variable {src : Source} {tops : List GroupHeader} {ids : List Nat} {s s' : Session}

/-! ## Top headers -/

namespace Plugin

variable {image : Image} {schema : Schema} {pos length : Nat}

theorem topHeaders_of_le (h : length ≤ pos) : topHeaders image schema length pos = .ok [] := by
  rw [topHeaders, if_neg (Nat.not_lt.mpr h)]

theorem topHeaders_of_error {e : Error} (hlt : pos < length)
    (hread : Chunk.read image schema pos none = .error e) :
    topHeaders image schema length pos = .error e := by
  rw [topHeaders, if_pos hlt]
  split
  case h_1 e he => rw [hread] at he; cases he; rfl
  case h_2 r hr => rw [hread] at hr; cases hr
  case h_3 g hg => rw [hread] at hg; cases hg

theorem topHeaders_of_record {h : RecordHeader} (hlt : pos < length)
    (hread : Chunk.read image schema pos none = .ok (.record h)) :
    topHeaders image schema length pos = topHeaders image schema length h.stop := by
  rw [topHeaders, if_pos hlt]
  split
  case h_1 e he => rw [hread] at he; cases he
  case h_2 r hr => rw [hread] at hr; cases hr; rfl
  case h_3 g hg => rw [hread] at hg; cases hg

theorem topHeaders_of_group {h : GroupHeader} (hlt : pos < length)
    (hread : Chunk.read image schema pos none = .ok (.group h)) :
    topHeaders image schema length pos =
      if length < h.stop then .error (.groupSizeMismatch h.label h.position h.stop length)
      else (topHeaders image schema length h.stop).map (h :: ·) := by
  rw [topHeaders, if_pos hlt]
  split
  case h_1 e he => rw [hread] at he; cases he
  case h_2 r hr => rw [hread] at hr; cases hr
  case h_3 g hg =>
    rw [hread] at hg
    cases hg
    congr 1
    cases topHeaders image schema length h.stop <;> rfl

theorem flatRecords_of_le {s : Session} (h : length ≤ pos) : flatRecords s length pos = .ok [] := by
  rw [flatRecords, if_neg (Nat.not_lt.mpr h)]

theorem flatRecords_of_error {s : Session} {e : Error} (hlt : pos < length)
    (hread : Chunk.read s.image .tes3 pos none = .error e) :
    flatRecords s length pos = .error e := by
  rw [flatRecords, if_pos hlt]
  split
  case h_1 e he => rw [hread] at he; cases he; rfl
  case h_2 g hg => rw [hread] at hg; cases hg
  case h_3 r hr => rw [hread] at hr; cases hr

theorem flatRecords_of_record {s : Session} {h : RecordHeader} (hlt : pos < length)
    (hread : Chunk.read s.image .tes3 pos none = .ok (.record h)) :
    flatRecords s length pos =
      (s.source.read h).bind fun x => (flatRecords s length h.stop).map (x.toList ++ ·) := by
  rw [flatRecords, if_pos hlt]
  split
  case h_1 e he => rw [hread] at he; cases he
  case h_2 g hg => rw [hread] at hg; cases hg
  case h_3 r hr =>
    rw [hread] at hr
    cases hr
    have hsource : s.options.readRecord s.image s.context h = s.source.read h := rfl
    rw [hsource]
    cases s.source.read h with
    | error e => rfl
    | ok x =>
      simp only [Except.bind]
      cases flatRecords s length h.stop <;> rfl

/-- The headers at the top of a range that is cut into chunks. -/
theorem topHeaders_of_run {cs : List Chunk} (H : Chunk.Run image schema cs pos length) :
    topHeaders image schema length pos = .ok (cs.filterMap Chunk.group?) := by
  induction cs generalizing pos with
  | nil => exact topHeaders_of_le (Nat.le_of_eq (Eq.symm H))
  | cons c cs ih =>
    obtain ⟨hlt, hread, hrest⟩ := H
    cases c with
    | record h =>
      rw [Chunk.stop_record] at hrest
      rw [topHeaders_of_record hlt hread, ih hrest, List.filterMap_cons, Chunk.group?_record]
    | group h =>
      rw [Chunk.stop_group] at hrest
      rw [topHeaders_of_group hlt hread, if_neg (Nat.not_lt.mpr hrest.le), ih hrest,
        List.filterMap_cons, Chunk.group?_group]
      rfl

end Plugin

namespace Session

/-! ## Registering top groups -/

/-- Placing a header at the top of the file keeps a session sound. -/
theorem Sound.place_top {h : GroupHeader} (H : Sound src tops s) (P : Place s none h s') :
    Sound src (tops ++ [h]) s' := by
  have howner : ∀ p, none = some p → p < s.groups.size := fun p hp => by cases hp
  have G := P.grows howner
  refine ⟨G.source_eq.trans H.source_eq, ?_, G.tidy H.tidy, fun c => ?_⟩
  case refine_2 =>
    refine (H.labelled c).grows G (by simp) fun d hd => ?_
    obtain ⟨k, hk, -⟩ := H.arena.exists_of_mem_lists hd
    exact ⟨k, hk⟩
  have hpieces : s'.pieces src (tops ++ [h]) = addPieces (s.pieces src tops) none [h] := by
    funext o
    cases o with
    | none => rw [addPieces_self, pieces, pieces]
    | some c =>
      rw [addPieces_of_ne _ _ (by simp), ← G.pieces_eq H.tidy tops c]
      rfl
  rw [hpieces]
  exact P.arena H.arena howner

/-- A group that is made without headers and then given one is made with that header. -/
theorem pushHeader_addGroup (s : Session) (h : GroupHeader) :
    (s.addGroup
        { id := s.groups.size, parent := none, label := h.label, kind := h.kind }).pushHeader
          s.groups.size h =
      (s.addGroup (freshNode s.groups.size none h)).link none s.groups.size := by
  have hgroups : (s.groups.push
        { id := s.groups.size, parent := none, label := h.label, kind := h.kind }).modify
          s.groups.size (fun g => { g with headers := g.headers.push h }) =
      s.groups.push (freshNode s.groups.size none h) := by
    refine Array.ext_getElem? fun c => ?_
    rw [Array.getElem?_modify, Array.getElem?_push, Array.getElem?_push]
    by_cases hc : c = s.groups.size
    · subst hc
      simp [freshNode]
    · simp [hc, Ne.symm hc]
  simp only [pushHeader, modifyGroup, addGroup, link, hgroups]

theorem addHeader_eq (id : Nat) (h : GroupHeader) (eager : Bool) (s : Session) :
    addHeader id h eager s =
      if eager && isSpatial h then loadOne id (s.pushHeader id h)
      else .ok () (s.pushHeader id h) := by
  have hstep : addHeader id h eager s =
      (if eager && isSpatial h then loadOne id else pure ()) (s.pushHeader id h) := rfl
  rw [hstep]
  split <;> rfl

/-- The node at index `id` gets the header of a top group; it may be made for it. -/
structure Receives (s : Session) (id : Nat) (h : GroupHeader) (s' : Session) : Prop where
  place : Place s none h s'
  frame : ∀ {c}, c ≠ id → s'.group? c = s.group? c
  node : (∃ g, s.group? id = some g ∧ g.parent = none ∧
      s'.group? id = some { g with headers := g.headers.push h }) ∨
    (s.group? id = none ∧ s'.group? id = some (freshNode id none h))

theorem receives_pushHeader {id : Nat} {g : GroupNode} {h : GroupHeader}
    (hid : s.group? id = some g) (hp : g.parent = none) (hlabel : g.label = h.label) :
    Receives s id h (s.pushHeader id h) where
  place := .piece hid hp ((GroupNode.key_eq_iff_of_top hp h).mpr hlabel)
  frame hc := by rw [pushHeader, group?_modifyGroup, if_neg (Ne.symm hc)]
  node := by
    refine .inl ⟨g, hid, hp, ?_⟩
    rw [pushHeader, group?_modifyGroup, if_pos rfl, hid]
    rfl

theorem receives_addGroup {h : GroupHeader}
    (hnew : ∀ {c g}, s.group? c = some g → g.parent = none → g.label ≠ h.label) :
    Receives s s.groups.size h
      ((s.addGroup (freshNode s.groups.size none h)).link none s.groups.size) := by
  have howner : ∀ p, none = some p → p < s.groups.size := fun p hp => by cases hp
  constructor
  case place =>
    exact .fresh fun hg hp hkey => hnew hg hp ((GroupNode.key_eq_iff_of_top hp h).mp hkey)
  case frame =>
    intro c hc
    rw [group?_link_addGroup howner, if_neg hc, if_neg (by simp)]
  case node =>
    refine .inr ⟨Array.getElem?_eq_none (Nat.le_refl _), ?_⟩
    rw [group?_link_addGroup howner, if_pos rfl]

/-- A node that has got a header may then be loaded. -/
theorem addHeader_cases {id : Nat} {h : GroupHeader} {eager : Bool}
    (heq : addHeader id h eager s = .ok () s') :
    ((eager && isSpatial h) = true ∧ loadOne id (s.pushHeader id h) = .ok () s') ∨
      ((eager && isSpatial h) = false ∧ s' = s.pushHeader id h) := by
  rw [addHeader_eq] at heq
  split at heq
  case isTrue hprepare => exact .inl ⟨hprepare, heq⟩
  case isFalse hprepare =>
    cases heq
    exact .inr ⟨Bool.eq_false_iff.mpr hprepare, rfl⟩

end Session

/-- Everything that registering a top group can do: its header goes to a top node, which is loaded
at once or not. -/
theorem Session.Rooted.registerTop_cases {eager : Bool} {h : GroupHeader} {ids' : List Nat}
    (H : Rooted src tops ids s) (heq : Plugin.registerTop eager ids h s = .ok ids' s') :
    ∃ id s₁, Receives s id h s₁ ∧ Rooted src (tops ++ [h]) ids' s₁ ∧
      (((eager && isSpatial h) = true ∧ loadOne id s₁ = .ok () s') ∨
        ((eager && isSpatial h) = false ∧ s' = s₁)) := by
  obtain ⟨_, _, hget, hrest⟩ := bind_eq_ok_iff.mp heq
  cases hget
  have hnode {c : Nat} (hc : c ∈ ids) : ∃ g, s.group? c = some g ∧ g.parent = none :=
    mem_heldBy.mp (H.heldBy_none ▸ hc)
  cases hfind : s.labelled? ids h.label with
  | some id =>
    simp only [hfind] at hrest
    obtain ⟨_, s₁, hadd, hpure⟩ := bind_eq_ok_iff.mp hrest
    cases hpure
    obtain ⟨g, hg, hp⟩ := hnode (List.mem_of_find?_eq_some hfind)
    have hlabel : g.label = h.label := by
      have := List.find?_some hfind
      simpa [hg] using this
    have R := receives_pushHeader hg hp hlabel
    refine ⟨id, s.pushHeader id h, R, ⟨H.toSound.place_top R.place, ?_⟩, addHeader_cases hadd⟩
    rw [← H.heldBy_none]
    exact heldBy_modifyGroup hg rfl none
  | none =>
    simp only [hfind] at hrest
    obtain ⟨_, s₁, hcreate, hrest⟩ := bind_eq_ok_iff.mp hrest
    cases hcreate
    obtain ⟨_, s₂, hadd, hpure⟩ := bind_eq_ok_iff.mp hrest
    cases hpure
    have hload := addHeader_cases hadd
    rw [pushHeader_addGroup] at hload
    have R := receives_addGroup (s := s) (h := h) fun {c g} hg hp hlabel => by
      have hc : c ∈ ids := H.heldBy_none ▸ mem_heldBy.mpr ⟨g, hg, hp⟩
      have hno := List.find?_eq_none.mp hfind c hc
      rw [hg] at hno
      exact hno (decide_eq_true hlabel)
    refine ⟨s.groups.size, _, R, ⟨H.toSound.place_top R.place, ?_⟩, hload⟩
    rw [heldBy_link_addGroup, if_pos rfl, H.heldBy_none]

/-- Registering a top group places its header. -/
theorem Session.Rooted.registerTop {eager : Bool} {h : GroupHeader} {ids' : List Nat}
    (H : Rooted src tops ids s) (heq : Plugin.registerTop eager ids h s = .ok ids' s') :
    Rooted src (tops ++ [h]) ids' s' := by
  obtain ⟨id, s₁, -, H₁, ⟨-, hload⟩ | ⟨-, rfl⟩⟩ := H.registerTop_cases heq
  · exact after_of_ok hload ▸ Rooted.preserves_loadOne id s₁ H₁
  · exact H₁

/-- What registering one top group keeps of sound sessions, registering all of them keeps. -/
theorem Session.Rooted.foldlM_registerTop_and {Q : Session → Prop} {eager : Bool}
    {hs : List GroupHeader} {ids' : List Nat}
    (hstep : ∀ {tops ids s h ids' s'}, Rooted src tops ids s → Q s →
      Plugin.registerTop eager ids h s = .ok ids' s' → Q s')
    (H : Rooted src tops ids s) (hQ : Q s)
    (heq : hs.foldlM (Plugin.registerTop eager) ids s = .ok ids' s') :
    Rooted src (tops ++ hs) ids' s' ∧ Q s' := by
  induction hs generalizing tops ids s with
  | nil =>
    cases heq
    rw [List.append_nil]
    exact ⟨H, hQ⟩
  | cons h hs ih =>
    rw [List.foldlM_cons] at heq
    obtain ⟨ids₁, s₁, hfirst, hrest⟩ := bind_eq_ok_iff.mp heq
    rw [List.append_cons]
    exact ih (H.registerTop hfirst) (hstep H hQ hfirst) hrest

theorem Session.Rooted.foldlM_registerTop {eager : Bool} {hs : List GroupHeader} {ids' : List Nat}
    (H : Rooted src tops ids s)
    (heq : hs.foldlM (Plugin.registerTop eager) ids s = .ok ids' s') :
    Rooted src (tops ++ hs) ids' s' :=
  (H.foldlM_registerTop_and (Q := fun _ => True) (fun _ _ _ => trivial) trivial heq).1

/-- A session without groups is sound. -/
theorem Session.rooted_of_groups_eq_empty (hsource : s.source = src) (hgroups : s.groups = #[]) :
    Rooted src [] [] s := by
  have hnone (c : Nat) : s.group? c = none := by simp [group?, hgroups]
  have hno {c : Nat} {g : GroupNode} (hg : s.group? c = some g) : False := by
    rw [hnone] at hg
    cases hg
  have hlists (c : Nat) : s.lists c = ([], ∅) := by simp [lists, hnone]
  refine ⟨⟨hsource, ⟨?_, ?_, ?_, ?_, ?_, ?_, ?_, ?_⟩, fun hg => (hno hg).elim, fun c label => ?_⟩,
    ?_⟩
  · exact fun hg => (hno hg).elim
  · exact fun hg => (hno hg).elim
  · exact fun hg => (hno hg).elim
  · exact fun hg => (hno hg).elim
  · exact fun hg => (hno hg).elim
  · exact fun hg => (hno hg).elim
  · intro owner h hh
    cases owner with
    | none => cases hh
    | some p => simp [pieces, hnone] at hh
  · intro owner
    cases owner with
    | none => simp [heldBy, hgroups, pieces]
    | some p => simp [heldBy, hgroups, pieces, hnone]
  · simp [hlists]
  · simp [heldBy, hgroups]

namespace Plugin

/-! ## Opening -/

/-- What reading the root record does: the record is read for an edition that is assumed, and then
tells the edition. -/
theorem readRoot_cases {image : Image} {options : Options} {schema : Schema} {root : Record}
    {content : Root} {context : Context}
    (h : readRoot image options schema = .ok (root, content, context)) :
    ∃ localized, Chunk.read image schema 0 none = .ok (.record root.header) ∧
      options.readRecord image
          { schema, edition := options.edition.getD (provisionalEdition schema), localized }
          root.header = .ok (some root) ∧
      context =
        { schema, edition := options.edition.getD (.infer schema content.version), localized } := by
  simp only [readRoot] at h
  cases hread : Chunk.read image schema 0 none with
  | error e => rw [hread] at h; cases h
  | ok c =>
    rw [hread] at h
    cases c with
    | group g => cases h
    | record r =>
      simp only [bind, Except.bind] at h
      split at h
      case h_1 => cases h
      case h_2 read hrecord =>
        split at h
        case h_1 => cases h
        case h_2 root' =>
          split at h
          case h_1 =>
            cases h
            rw [Options.header_of_readRecord hrecord]
            exact ⟨_, rfl, hrecord, rfl⟩
          case h_2 => cases h

theorem read_of_readRoot {image : Image} {options : Options} {schema : Schema} {root : Record}
    {content : Root} {context : Context}
    (h : readRoot image options schema = .ok (root, content, context)) :
    Chunk.read image schema 0 none = .ok (.record root.header) ∧ context.schema = schema := by
  obtain ⟨localized, hread, -, rfl⟩ := readRoot_cases h
  exact ⟨hread, rfl⟩

/-- What opening a file does: in a file with groups it registers the headers at the top, and a file
without groups gets no nodes and is read whole. -/
theorem open?_cases {image : Image} {options : Options} {length? : Option Nat} {plugin : Plugin}
    (h : open? image options length? = .ok (plugin, s)) :
    ∃ schema context, Schema.detect image = .ok schema ∧
      readRoot image options schema = .ok (plugin.root, plugin.header, context) ∧
      ((schema.hasGroups ∧ plugin.flat = none ∧ ∃ headers,
          topHeaders image schema (length?.getD image.size) plugin.root.header.stop = .ok headers ∧
          headers.foldlM (registerTop options.eager) []
            { image, length := some (length?.getD image.size), context, options } =
              .ok plugin.topGroups s) ∨
        (¬schema.hasGroups ∧ s.source = ⟨image, context, options⟩ ∧ s.groups = #[] ∧
          plugin.topGroups = [] ∧ ∃ records,
            flatRecords { image, length := some (length?.getD image.size), context, options }
              (length?.getD image.size) plugin.root.header.stop = .ok records ∧
            plugin.flat = some (.ofRecords records))) := by
  simp only [open?, bind, Except.bind] at h
  cases hdetect : Schema.detect image with
  | error e => rw [hdetect] at h; cases h
  | ok schema =>
    simp only [hdetect] at h
    split at h
    case h_1 => cases h
    case h_2 =>
      split at h
      case h_1 => cases h
      case h_2 result hroot =>
        obtain ⟨root, content, context⟩ := result
        refine ⟨schema, context, rfl, ?_⟩
        dsimp only at h
        by_cases hgroups : schema.hasGroups
        · rw [if_pos hgroups] at h
          split at h
          case h_1 => cases h
          case h_2 headers htop =>
            split at h
            case h_1 => cases h
            case h_2 ids session hfold =>
              cases h
              exact ⟨hroot, .inl ⟨hgroups, rfl, headers, htop, hfold⟩⟩
        · rw [if_neg hgroups] at h
          split at h
          case h_1 => cases h
          case h_2 records hflat =>
            cases h
            exact ⟨hroot, .inr ⟨hgroups, rfl, rfl, rfl, records, hflat, rfl⟩⟩

/-- The headers at the top follow one another. -/
theorem pairwise_topHeaders {image : Image} {schema : Schema} {length pos : Nat}
    {headers : List GroupHeader} (h : topHeaders image schema length pos = .ok headers) :
    (∀ k ∈ headers, pos < k.position) ∧ headers.Pairwise (·.stop < ·.position) := by
  fun_induction topHeaders image schema length pos generalizing headers with
  | case1 | case3 | case4 => cases h
  | case2 pos hlt r hread ih =>
    obtain ⟨hpos, hpair⟩ := ih h
    have hstop : pos < r.stop := Chunk.lt_stop_of_read hread
    exact ⟨fun k hk => Nat.lt_trans hstop (hpos k hk), hpair⟩
  | case5 pos hlt g hread hle rest hrest ih =>
    cases h
    obtain ⟨hpos, hpair⟩ := ih hrest
    have hfirst : pos < g.position := Chunk.lt_position_of_read hread
    have hstop : pos < g.stop := Chunk.lt_stop_of_read hread
    refine ⟨List.forall_mem_cons.mpr ⟨hfirst, ?_⟩, List.pairwise_cons.mpr ⟨hpos, hpair⟩⟩
    exact fun k hk => Nat.lt_trans hstop (hpos k hk)
  | case6 => cases h; simp

/-- The payloads of the headers at the top come after a header. -/
theorem position_of_mem_topHeaders {image : Image} {schema : Schema} {length pos : Nat}
    {headers : List GroupHeader} (h : topHeaders image schema length pos = .ok headers) :
    ∀ k ∈ headers, schema.groupHeaderSize ≤ k.position := by
  fun_induction topHeaders image schema length pos generalizing headers with
  | case1 | case3 | case4 => cases h
  | case2 pos hlt r hread ih => exact ih h
  | case5 pos hlt g hread hle rest hrest ih =>
    cases h
    have hfirst : g.position = pos + schema.groupHeaderSize := Chunk.position_of_read hread
    exact List.forall_mem_cons.mpr ⟨by omega, ih hrest⟩
  | case6 => cases h; simp

/-- The session that an open plugin starts from is sound, and its top groups are in file order. -/
theorem exists_rooted_of_open? {image : Image} {options : Options} {length? : Option Nat}
    {plugin : Plugin} (h : open? image options length? = .ok (plugin, s)) :
    ∃ tops, Session.Rooted ⟨image, s.context, options⟩ tops plugin.topGroups s ∧
      tops.Pairwise (·.stop < ·.position) := by
  obtain ⟨schema, context, -, -,
    ⟨-, -, headers, htop, hfold⟩ | ⟨-, hsource, hgroups, htops, -⟩⟩ := open?_cases h
  · have hstart : Session.Rooted ⟨image, context, options⟩ [] []
        { image, length := some (length?.getD image.size), context, options } :=
      Session.rooted_of_groups_eq_empty rfl rfl
    have H := hstart.foldlM_registerTop hfold
    have hcontext : s.context = context := congrArg Source.context H.source_eq
    rw [hcontext]
    exact ⟨headers, H, (pairwise_topHeaders htop).2⟩
  · have hcontext : s.context = context := congrArg Source.context hsource
    rw [hcontext, htops]
    exact ⟨[], Session.rooted_of_groups_eq_empty hsource hgroups, .nil⟩

/-- What holds of a session without nodes and survives registering a top group holds of the session
that an open plugin starts from, unless the file has no groups. -/
theorem of_open? {image : Image} {options : Options} {length? : Option Nat} {plugin : Plugin}
    {Q : Session → Prop} (h : open? image options length? = .ok (plugin, s))
    (hstart : ∀ {s}, s.groups = #[] → s.index = {} → Q s)
    (hstep : ∀ {src tops ids s h ids' s'}, Session.Rooted src tops ids s → Q s →
      registerTop options.eager ids h s = .ok ids' s' → Q s') :
    Q s ∨ s.groups = #[] := by
  obtain ⟨schema, context, -, -, ⟨-, -, headers, -, hfold⟩ | ⟨-, -, hgroups, -⟩⟩ := open?_cases h
  case inr => exact .inr hgroups
  have hbegin : Session.Rooted ⟨image, context, options⟩ [] []
      { image, length := some (length?.getD image.size), context, options } :=
    Session.rooted_of_groups_eq_empty rfl rfl
  exact .inl (hbegin.foldlM_registerTop_and hstep (hstart rfl rfl) hfold).2

/-- What survives placing a header and loading a group survives registering a top group. -/
theorem of_registerTop {eager : Bool} {h : GroupHeader} {ids' : List Nat} {Q : Session → Prop}
    (hplace : ∀ {s h s'}, Session.Place s none h s' → Q s → Q s')
    (hcommit : ∀ {src tops ids s id g}, Session.Rooted src tops ids s → s.group? id = some g →
      ¬g.isLoaded → Q s → Q (s.commit id g.headers.size (Session.foundUnder src id g.waiting)))
    (H : Session.Rooted src tops ids s) (hQ : Q s) (heq : registerTop eager ids h s = .ok ids' s') :
    Q s' := by
  obtain ⟨id, s₁, R, H₁, ⟨-, hload⟩ | ⟨-, rfl⟩⟩ := H.registerTop_cases heq
  · have hQ₁ := hplace R.place hQ
    rcases H₁.loadOne_cases id with
      ⟨hsame, -⟩ | ⟨g, hid, hnot, -, hread⟩ | ⟨g, e, -, -, hfail⟩
    · cases hsame.symm.trans hload
      exact hQ₁
    · cases hread.symm.trans hload
      exact hcommit H₁ hid hnot hQ₁
    · cases hfail.symm.trans hload
  · exact hplace R.place hQ

/-- An open file that has the shape of a forest: its session is sound, with the groups at the top of
the forest. -/
theorem rooted_of_open? {image : Image} {options : Options} {plugin : Plugin} {schema : Schema}
    {f : Forest} (h : open? image options none = .ok (plugin, s))
    (hdetect : Schema.detect image = .ok schema) (hgroups : schema.hasGroups)
    (hf : f.Fills image schema 0 image.size) :
    s.context.schema = schema ∧
      Session.Rooted ⟨image, s.context, options⟩ (f.chunks.filterMap Chunk.group?)
        plugin.topGroups s := by
  obtain ⟨schema', context, hdetect', hroot,
    ⟨-, -, headers, htop, hfold⟩ | ⟨hnot, -⟩⟩ := open?_cases h
  case inr =>
    cases hdetect.symm.trans hdetect'
    exact absurd hgroups hnot
  cases hdetect.symm.trans hdetect'
  obtain ⟨hread, hschema⟩ := read_of_readRoot hroot
  have hheaders : headers = f.chunks.filterMap Chunk.group? := by
    obtain ⟨cs, hchunks, hrest⟩ := hf.exists_rest hread
    rw [Chunk.stop_record] at hrest
    rw [Option.getD_none, topHeaders_of_run hrest] at htop
    rw [hchunks, List.filterMap_cons, Chunk.group?_record]
    exact (Except.ok.inj htop).symm
  have hstart : Session.Rooted ⟨image, context, options⟩ [] []
      { image, length := some image.size, context, options } :=
    Session.rooted_of_groups_eq_empty rfl rfl
  have H := hstart.foldlM_registerTop hfold
  rw [List.nil_append, hheaders] at H
  have hcontext : s.context = context := congrArg Source.context H.source_eq
  rw [hcontext]
  exact ⟨hschema, H⟩

end Plugin

end GamePlugin
