import GamePlugin.Plugin.Query
import GamePlugin.Proofs.Loading

/-!
# Loading a group to the end

Loading deep comes back only after every node below a group is loaded. Two facts carry the proof.
A node that is loaded, and all of whose holders are loaded, is never touched again
(`Session.Settled`, `Session.Keeps`), so what was finished stays finished while its siblings are
loaded. And a group is smaller than the one that holds it, so the depth to which `loadDeep` goes is
never reached.

## Main definitions

* `Session.Settled` — a node and all its holders are loaded.
* `Session.Complete` — a node and all that it holds, at any depth, are loaded.
-/

namespace GamePlugin.Session

variable {src : Source} {tops : List GroupHeader} {ids : List Nat} {s s' : Session} {id : Nat}
  {g : GroupNode}

/-! ## Settled nodes -/

/-- The node and all nodes above it are loaded. -/
inductive Settled (s : Session) : Nat → Prop
  | intro {id : Nat} {g : GroupNode} (hid : s.group? id = some g) (hloaded : g.isLoaded)
      (hparent : ∀ p, g.parent = some p → Settled s p) : Settled s id

theorem Settled.isLoaded (H : Settled s id) (hid : s.group? id = some g) : g.isLoaded := by
  obtain ⟨hid', hloaded, -⟩ := H
  cases hid'.symm.trans hid
  exact hloaded

theorem Settled.parent (H : Settled s id) (hid : s.group? id = some g) {p : Nat}
    (hp : g.parent = some p) : Settled s p := by
  obtain ⟨hid', -, hparent⟩ := H
  cases hid'.symm.trans hid
  exact hparent p hp

/-- Settled nodes stay as they are, up to what they remember of cells. -/
def Keeps (s s' : Session) : Prop :=
  ∀ id g, Settled s id → s.group? id = some g → ∃ cache, s'.group? id = some { g with cache }

theorem Keeps.refl (s : Session) : Keeps s s := fun _ g _ hid => ⟨g.cache, hid⟩

theorem Keeps.settled (K : Keeps s s') (H : Settled s id) : Settled s' id := by
  induction H with
  | intro hid hloaded hparent ih =>
    obtain ⟨cache, hid'⟩ := K _ _ (.intro hid hloaded hparent) hid
    exact .intro hid' hloaded ih

theorem Keeps.trans {s'' : Session} (K : Keeps s s') (K' : Keeps s' s'') : Keeps s s'' := by
  intro id g hsettled hid
  obtain ⟨cache, hid'⟩ := K id g hsettled hid
  obtain ⟨cache', hid''⟩ := K' id _ (K.settled hsettled) hid'
  exact ⟨cache', hid''⟩

/-- Loading a group leaves settled nodes as they are: it changes only a node that is not loaded and
the nodes that this one holds. -/
theorem Sound.keeps_loadOne (H : Sound src tops s) (h : loadOne id s = .ok () s') : Keeps s s' := by
  rcases H.loadOne_cases id with ⟨heq, -⟩ | ⟨g, hid, hnot, -, heq⟩ | ⟨g, e, -, -, heq⟩
  · rw [heq] at h
    cases h
    exact .refl s
  · rw [heq] at h
    cases h
    obtain ⟨-, G⟩ := H.arena.commit hid g.headers.size (foundUnder src id g.waiting)
    intro c k hsettled hk
    have hc : id ≠ c := by
      rintro rfl
      exact hnot (hsettled.isLoaded hid)
    have hparent : k.parent ≠ some id := fun hp =>
      hnot ((hsettled.parent hk hp).isLoaded hid)
    refine ⟨k.cache, G.frame ?_ hparent (by simpa using hc)⟩
    rw [group?_recorded, if_neg hc, hk]
  · rw [heq] at h
    cases h

/-- A group that was loaded without an error is loaded. -/
theorem Sound.isLoaded_loadOne (H : Sound src tops s) (hid : s.group? id = some g)
    (h : loadOne id s = .ok () s') :
    ∃ g', s'.group? id = some g' ∧ g'.isLoaded ∧ g'.parent = g.parent ∧
      g'.headers = g.headers := by
  rcases H.loadOne_cases id with ⟨heq, hloaded⟩ | ⟨k, hk, -, -, heq⟩ | ⟨k, e, -, -, heq⟩
  · rw [heq] at h
    cases h
    exact ⟨g, hid, hloaded hid, rfl, rfl⟩
  · rw [heq] at h
    cases h
    cases hid.symm.trans hk
    obtain ⟨g', hg', hparent, hheaders, hprocessed, -⟩ :=
      H.group?_commit hid g.headers.size (foundUnder src id g.waiting)
    refine ⟨g', hg', decide_eq_true ?_, hparent, hheaders⟩
    rw [hprocessed, hheaders]
  · rw [heq] at h
    cases h

/-! ## Complete nodes -/

/-- The node and all nodes below it are loaded. -/
inductive Complete (s : Session) : Nat → Prop
  | intro {id : Nat} {g : GroupNode} (hid : s.group? id = some g) (hloaded : g.isLoaded)
      (hchildren : ∀ c ∈ g.children.toList, Complete s c) : Complete s id

theorem Sound.exists_child (H : Sound src tops s) (hid : s.group? id = some g) {c : Nat}
    (hc : c ∈ g.children.toList) : ∃ k, s.group? c = some k ∧ k.parent = some id := by
  rw [H.arena.children_eq hid] at hc
  exact mem_heldBy.mp hc

/-- Nothing above a child of a settled node is still to be loaded. -/
theorem Sound.settled_of_child (H : Sound src tops s) (hid : s.group? id = some g) {c : Nat}
    (hc : c ∈ g.children.toList) (hsettled : Settled s id) :
    ∀ k p, s.group? c = some k → k.parent = some p → Settled s p := by
  intro k p hk hp
  obtain ⟨k', hk', hp'⟩ := H.exists_child hid hc
  cases hk'.symm.trans hk
  cases hp'.symm.trans hp
  exact hsettled

/-- What is complete stays complete, if nothing above it is still to be loaded. -/
theorem Keeps.complete (K : Keeps s s') (H : Sound src tops s) (hcomplete : Complete s id)
    (hparent : ∀ g p, s.group? id = some g → g.parent = some p → Settled s p) : Complete s' id := by
  induction hcomplete with
  | @intro id g hid hloaded _ ih =>
    have hsettled : Settled s id := .intro hid hloaded fun p => hparent g p hid
    obtain ⟨cache, hid'⟩ := K id g hsettled hid
    exact .intro hid' hloaded fun c hc => ih c hc (H.settled_of_child hid hc hsettled)

/-- The headers of a node lie in headers of the node that holds it. -/
theorem Sound.exists_outer (H : Sound src tops s) {c p : Nat} {k : GroupNode}
    (hk : s.group? c = some k) (hp : k.parent = some p) (hid : s.group? p = some g)
    {h : GroupHeader} (hh : h ∈ k.headers.toList) :
    ∃ outer ∈ g.headers.toList, h ∈ src.groupsIn outer := by
  rw [H.arena.headers_eq hk, hp, pieces_of_group? hid] at hh
  obtain ⟨outer, houter, hin⟩ := List.mem_flatMap.mp (List.mem_of_mem_filter hh)
  exact ⟨outer, List.mem_of_mem_take houter, hin⟩

/-- Once a node is loaded, what its headers hold can be read at any depth if the headers of its
children can. -/
theorem Sound.deep_of_children (H : Sound src tops s) (hid : s.group? id = some g)
    (hloaded : g.isLoaded)
    (hdeep : ∀ c ∈ g.children.toList, ∀ k, s.group? c = some k →
      ∀ h ∈ k.headers.toList, src.Deep h) : ∀ h ∈ g.headers.toList, src.Deep h := by
  intro h hh
  rw [← GroupNode.done_of_isLoaded hloaded] at hh
  refine .intro ((H.tidy hid).readable h hh) fun inner hinner => ?_
  have hpiece : inner ∈ s.pieces src tops (some id) := by
    rw [pieces_of_group? hid]
    exact List.mem_flatMap.mpr ⟨h, hh, hinner⟩
  obtain ⟨c, k, hk, hp, hkey⟩ := H.arena.covers hpiece
  have hmem : c ∈ g.children.toList := by
    rw [H.arena.children_eq hid]
    exact mem_heldBy.mpr ⟨k, hk, hp⟩
  refine hdeep c hmem k hk inner ?_
  rw [H.arena.headers_eq hk, hp]
  exact List.mem_filter.mpr ⟨hpiece, decide_eq_true hkey.symm⟩

/-- What a complete node has been read from can be read at any depth. -/
theorem Sound.deep_of_complete (H : Sound src tops s) (hcomplete : Complete s id)
    (hid : s.group? id = some g) : ∀ h ∈ g.headers.toList, src.Deep h := by
  induction hcomplete generalizing g with
  | @intro id g' hid' hloaded _ ih =>
    cases hid'.symm.trans hid
    exact H.deep_of_children hid hloaded fun c hc k hk => ih c hc hk

/-- Loading one group settles it if all above it is loaded, unless it cannot be read. -/
theorem Rooted.leads_loadOne (H : Rooted src tops ids s) (hid : s.group? id = some g)
    (hparent : ∀ p, g.parent = some p → Settled s p) :
    Leads (loadOne id) s
      (fun _ t => Rooted src tops ids t ∧ Keeps s t ∧ Settled t id ∧
        ∃ g', t.group? id = some g' ∧ g'.headers = g.headers)
      (fun t => t = s ∧ ∃ h ∈ g.headers.toList, ¬src.Readable h) := by
  constructor
  · intro _ t heq
    obtain ⟨g', hid', hloaded, hp, hheaders⟩ := H.toSound.isLoaded_loadOne hid heq
    have K := H.toSound.keeps_loadOne heq
    refine ⟨after_of_ok heq ▸ Rooted.preserves_loadOne id s H, K, ?_, g', hid', hheaders⟩
    exact .intro hid' hloaded fun p hg' => K.settled (hparent p (hp ▸ hg'))
  · intro e t heq
    rcases H.loadOne_cases id with
      ⟨hok, -⟩ | ⟨k, -, -, -, hok⟩ | ⟨k, e', hk, ⟨h, hh, hnot⟩, herror⟩
    · cases hok.symm.trans heq
    · cases hok.symm.trans heq
    · cases herror.symm.trans heq
      cases hid.symm.trans hk
      exact ⟨rfl, h, List.mem_of_mem_drop hh, hnot⟩

/-- **Loading a group deep completes it, unless something in it cannot be read.** All above it is
loaded, and its headers are smaller than the depth, in a sense in which groups are smaller than
those that they are in. -/
theorem Rooted.leads_loadDeep {depth : Nat} (size : GroupHeader → Nat)
    (hsize : ∀ {outer h}, h ∈ src.groupsIn outer → size h < size outer)
    (H : Rooted src tops ids s) (hid : s.group? id = some g)
    (hparent : ∀ p, g.parent = some p → Settled s p)
    (hdepth : ∀ h ∈ g.headers.toList, size h < depth) :
    Leads (loadDeep depth id) s
      (fun _ t => Rooted src tops ids t ∧ Keeps s t ∧ Complete t id)
      (fun _ => ∃ h ∈ g.headers.toList, ¬src.Deep h) := by
  induction depth generalizing id g s with
  | zero =>
    have hnil : g.headers.toList = [] := List.eq_nil_iff_forall_not_mem.mpr fun k hk =>
      absurd (hdepth k hk) (Nat.not_lt_zero _)
    exact absurd (Array.toList_eq_nil_iff.mp hnil) (H.arena.headers_ne hid)
  | succ depth ih =>
    have hfail {t : Session} (h : t = s ∧ ∃ h ∈ g.headers.toList, ¬src.Readable h) :
        ∃ h ∈ g.headers.toList, ¬src.Deep h := by
      obtain ⟨-, k, hk, hnot⟩ := h
      refine ⟨k, hk, fun hdeep => ?_⟩
      obtain ⟨hreadable, -⟩ := hdeep
      exact hnot hreadable
    refine ((H.leads_loadOne hid hparent).imp (fun h => h) hfail).bind fun {_ s₁} h₁ =>
      Leads.get_bind ?_
    obtain ⟨H₁, K₁, hsettled₁, g₁, hid₁, hheaders⟩ := h₁
    have hchildren : s₁.children id = g₁.children.toList := by
      rw [Session.children, hid₁]
      rfl
    rw [hchildren]
    -- while the children are loaded, the node stays settled, so its children stay the same
    refine (Leads.forM (I := fun t => Rooted src tops ids t ∧ Keeps s₁ t)
      (D := fun c t => Complete t c) ?_ ⟨H₁, .refl s₁⟩).imp (fun {_ t} h => ?_) fun h => h
    · rintro c hc t ⟨Ht, Kt⟩
      obtain ⟨cache, hidt⟩ := Kt id g₁ hsettled₁ hid₁
      have hst := Kt.settled hsettled₁
      obtain ⟨k, hk, hp⟩ := Ht.toSound.exists_child hidt hc
      have houter {h : GroupHeader} (hh : h ∈ k.headers.toList) :
          ∃ outer ∈ g.headers.toList, h ∈ src.groupsIn outer := by
        rw [← hheaders]
        exact Ht.toSound.exists_outer hk hp hidt hh
      have hsizes : ∀ h ∈ k.headers.toList, size h < depth := by
        intro h hh
        obtain ⟨outer, houter, hin⟩ := houter hh
        have hlt := hsize hin
        have hle := hdepth outer houter
        omega
      have hholder {c : Nat} (hc : c ∈ g₁.children.toList) :=
        Ht.toSound.settled_of_child hidt (c := c) hc hst
      refine (ih Ht hk (hholder hc k · hk) hsizes).imp (fun {_ t'} h => ?_) fun h => ?_
      · obtain ⟨Ht', K', hcomplete⟩ := h
        refine ⟨⟨Ht', Kt.trans K'⟩, hcomplete, fun d hd hdone => ?_⟩
        exact K'.complete Ht.toSound hdone (hholder hd)
      · obtain ⟨h, hh, hnot⟩ := h
        obtain ⟨outer, hmem, hin⟩ := houter hh
        refine ⟨outer, hmem, fun hdeep => ?_⟩
        obtain ⟨-, hgroups⟩ := hdeep
        exact hnot (hgroups h hin)
    · obtain ⟨⟨Ht, Kt⟩, hall⟩ := h
      obtain ⟨cache, hidt⟩ := Kt id g₁ hsettled₁ hid₁
      have hloaded := (Kt.settled hsettled₁).isLoaded hidt
      exact ⟨Ht, K₁.trans Kt, .intro hidt hloaded hall⟩

/-! ## Loading everything -/

theorem load_deep_eq (id : Nat) (s : Session) :
    load id true s =
      match loadDeep s.depthBound id s with
      | .ok _ s' => .ok (s'.records id) s'
      | .error e s' => .error e s' := by
  have hstep : load id true s =
      (loadDeep s.depthBound id >>= fun _ => return (← get).records id) s := rfl
  rw [hstep]
  simp only [bind, EStateM.bind]
  cases loadDeep s.depthBound id s <;> rfl

theorem load_deep_eq_ok_iff {id : Nat} {records : List Record} :
    load id true s = .ok records s' ↔
      loadDeep s.depthBound id s = .ok () s' ∧ s'.records id = records := by
  rw [load_deep_eq]
  cases loadDeep s.depthBound id s with
  | ok _ t =>
    simp only [EStateM.Result.ok.injEq]
    constructor
    · rintro ⟨hrecords, rfl⟩
      exact ⟨⟨trivial, rfl⟩, hrecords⟩
    · rintro ⟨⟨-, rfl⟩, hrecords⟩
      exact ⟨hrecords, rfl⟩
  | error e t => simp

theorem after_load_deep (id : Nat) (s : Session) :
    after (load id true) s = after (loadDeep s.depthBound id) s := by
  rw [after, after, load_deep_eq]
  cases loadDeep s.depthBound id s <;> rfl

theorem load_shallow_of_ok (h : loadOne id s = .ok () s') :
    load id false s = .ok (s'.records id) s' := by
  have hstep : load id false s = (loadOne id >>= fun _ => return (← get).records id) s := rfl
  rw [hstep]
  exact bind_eq_ok_iff.mpr ⟨(), s', h, rfl⟩

theorem load_shallow_of_error {e : Error} (h : loadOne id s = .error e s') :
    load id false s = .error e s' := by
  have hstep : load id false s = (loadOne id >>= fun _ => return (← get).records id) s := rfl
  rw [hstep]
  simp only [bind, EStateM.bind, h]

/-- If the nodes at the top are complete, all are. -/
theorem Rooted.complete_of_top (H : Rooted src tops ids s) (htop : ∀ c ∈ ids, Complete s c)
    (hid : s.group? id = some g) : Complete s id := by
  induction id using Nat.strongRecOn generalizing g with
  | ind id ih =>
    cases hp : g.parent with
    | none => exact htop id (H.heldBy_none ▸ mem_heldBy.mpr ⟨g, hid, hp⟩)
    | some p =>
      have hlt := H.arena.parent_lt hid hp
      obtain ⟨k, hk⟩ := group?_of_lt (Nat.lt_trans hlt (lt_of_group? hid))
      obtain ⟨hk', -, hchildren⟩ := ih p hlt hk
      refine hchildren id ?_
      rw [H.arena.children_eq hk']
      exact mem_heldBy.mpr ⟨g, hid, hp⟩

/-- Loading all top groups leaves no group unloaded. -/
theorem Rooted.loadAll {plugin : Plugin} (H : Rooted src tops plugin.topGroups s)
    (hsize : ∀ h ∈ tops, h.stop ≤ src.image.size) (h : plugin.loadAll s = .ok () s') :
    Rooted src tops plugin.topGroups s' ∧ ∀ {id g}, s'.group? id = some g → g.isLoaded := by
  have hnode {t : Session} {c : Nat} (Ht : Rooted src tops plugin.topGroups t)
      (hc : c ∈ plugin.topGroups) : ∃ k, t.group? c = some k ∧ k.parent = none := by
    rw [← Ht.heldBy_none] at hc
    exact mem_heldBy.mp hc
  have hloads : Leads plugin.loadAll s (fun _ t => Rooted src tops plugin.topGroups t ∧
      ∀ c ∈ plugin.topGroups, Complete t c) fun _ => True := by
    refine Leads.forM (fun c hc t Ht => ?_) H
    obtain ⟨k, hk, hp⟩ := hnode Ht hc
    have hfit : ∀ h ∈ k.headers.toList, h.dataSize.toNat < t.depthBound := by
      intro h hh
      rw [Ht.arena.headers_eq hk, hp] at hh
      have hstop := hsize h (List.mem_of_mem_filter hh)
      have himage : t.image.size = src.image.size := by rw [← Ht.source_eq]; rfl
      simp only [GroupHeader.stop] at hstop
      simp only [depthBound]
      omega
    have hdeep := Ht.leads_loadDeep (·.dataSize.toNat) Source.dataSize_lt_of_mem_groupsIn hk
      (by simp [hp]) hfit
    refine ⟨fun {_ t'} hload => ?_, fun _ => trivial⟩
    obtain ⟨records, t'', hload, hpure⟩ := bind_eq_ok_iff.mp hload
    cases hpure
    obtain ⟨Ht', K, hcomplete⟩ := hdeep.ok (load_deep_eq_ok_iff.mp hload).1
    refine ⟨Ht', hcomplete, fun d hd hdone => K.complete Ht.toSound hdone fun l q hl hq => ?_⟩
    obtain ⟨l', hl', hq'⟩ := hnode Ht hd
    cases hl'.symm.trans hl
    cases hq'.symm.trans hq
  obtain ⟨H', hcomplete⟩ := hloads.ok h
  refine ⟨H', fun hid => ?_⟩
  obtain ⟨hid', hloaded, -⟩ := H'.complete_of_top hcomplete hid
  cases hid'.symm.trans hid
  exact hloaded

/-- Where every header can be read, loading all top groups does not fail. -/
theorem Rooted.succeeds_loadAll {plugin : Plugin}
    (hall : ∀ {s}, Rooted src tops ids s → ∀ {id g}, s.group? id = some g →
      ∀ h ∈ g.headers.toList, src.Readable h) :
    Succeeds (Rooted src tops ids) plugin.loadAll := by
  refine Succeeds.forM (fun id s H => ?_) plugin.topGroups
  obtain ⟨_, s', hdeep, H'⟩ :=
    Succeeds.loadDeep (Rooted.succeeds_loadOne hall) s.depthBound id s H
  refine ⟨(), s', bind_eq_ok_iff.mpr ⟨s'.records id, s', ?_, rfl⟩, H'⟩
  exact load_deep_eq_ok_iff.mpr ⟨hdeep, rfl⟩

end GamePlugin.Session
