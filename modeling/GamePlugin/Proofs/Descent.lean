import GamePlugin.Proofs.Completion

/-!
# Loading a group deep, to the end or not

Loading deep goes down from a group, and may fail on the way. What it has done by then is a part of
what it would have done: every node that it has touched is loaded, with all nodes between it and the
group where the descent began (`Session.Finished`). Such nodes are not touched again
(`Session.Spares`), since headers are found by loading the holder, and the holders are done.

So a failed descent leaves no node half read by it (`Session.Rooted.descended_loadDeep`).

## Main definitions

* `Session.Finished` — a node and those above it, up to a given one, are loaded.
* `Session.Descended` — the state of a descent at any time.
-/

namespace GamePlugin.Session

variable {src : Source} {tops : List GroupHeader} {ids : List Nat} {s s' : Session}
  {top id : Nat} {g : GroupNode}

/-! ## Finished nodes -/

/-- The node and the nodes above it, up to `top`, are loaded. -/
inductive Finished (s : Session) (top : Nat) : Nat → Prop
  | start {g : GroupNode} (htop : s.group? top = some g) (hloaded : g.isLoaded) : Finished s top top
  | held {id p : Nat} {g : GroupNode} (hid : s.group? id = some g) (hloaded : g.isLoaded)
      (hparent : g.parent = some p) (hp : Finished s top p) : Finished s top id

theorem Finished.isLoaded (F : Finished s top id) (hid : s.group? id = some g) : g.isLoaded := by
  cases F with
  | start htop hloaded =>
    cases htop.symm.trans hid
    exact hloaded
  | held hid' hloaded _ _ =>
    cases hid'.symm.trans hid
    exact hloaded

theorem Finished.parent (F : Finished s top id) (hid : s.group? id = some g) :
    id = top ∨ ∃ p, g.parent = some p ∧ Finished s top p := by
  cases F with
  | start => exact .inl rfl
  | held hid' _ hparent hp =>
    cases hid'.symm.trans hid
    exact .inr ⟨_, hparent, hp⟩

theorem Finished.le (H : Sound src tops s) (F : Finished s top id) : top ≤ id := by
  induction F with
  | start => exact Nat.le_refl _
  | held hid _ hparent _ ih => exact Nat.le_trans ih (Nat.le_of_lt (H.arena.parent_lt hid hparent))

/-- Finished nodes stay as they are. -/
def Spares (top : Nat) (s s' : Session) : Prop :=
  ∀ id g, Finished s top id → s.group? id = some g → s'.group? id = some g

theorem Spares.refl (top : Nat) (s : Session) : Spares top s s := fun _ _ _ hid => hid

theorem Spares.finished (S : Spares top s s') (F : Finished s top id) : Finished s' top id := by
  induction F with
  | start htop hloaded => exact .start (S _ _ (.start htop hloaded) htop) hloaded
  | held hid hloaded hparent hp ih =>
    exact .held (S _ _ (.held hid hloaded hparent hp) hid) hloaded hparent ih

theorem Spares.trans {s'' : Session} (S : Spares top s s') (S' : Spares top s' s'') :
    Spares top s s'' :=
  fun id g hfinished hid => S' id g (S.finished hfinished) (S id g hfinished hid)

/-- Loading a group that is not above `top` leaves finished nodes as they are. -/
theorem Sound.spares_commit (H : Sound src tops s) (hid : s.group? id = some g)
    (hnot : ¬g.isLoaded) (hle : top ≤ id) (found : Found) :
    Spares top s (s.commit id g.headers.size found) := by
  obtain ⟨-, G⟩ := H.arena.commit hid g.headers.size found
  intro c k hfinished hk
  have hc : id ≠ c := by
    rintro rfl
    exact hnot (hfinished.isLoaded hid)
  have hparent : k.parent ≠ some id := by
    intro hp
    rcases hfinished.parent hk with rfl | ⟨p, hp', hpfinished⟩
    · exact Nat.not_lt.mpr hle (H.arena.parent_lt hk hp)
    · cases hp'.symm.trans hp
      exact hnot (hpfinished.isLoaded hid)
  refine G.frame ?_ hparent (by simpa using hc)
  rw [group?_recorded, if_neg hc, hk]

/-! ## Descending -/

/-- How many headers of the node at an index have been processed; none if there is no node. -/
def processed (s : Session) (id : Nat) : Nat := ((s.group? id).map (·.processed)).getD 0

theorem processed_of_group? (hid : s.group? id = some g) : s.processed id = g.processed := by
  rw [processed, hid]
  rfl

/-- The session `t` is on the way of a descent that began at `top` in `s`. -/
structure Descended (top : Nat) (s t : Session) : Prop where
  /-- No node has gone away. -/
  group?_eq_none : ∀ {c}, t.group? c = none → s.group? c = none
  /-- A node for which something has been read is finished. -/
  finished : ∀ {c k}, t.group? c = some k → k.processed ≠ s.processed c → Finished t top c

theorem Descended.refl (top : Nat) (s : Session) : Descended top s s where
  group?_eq_none hc := hc
  finished hk hne := absurd (processed_of_group? hk).symm hne

/-- A node that the descent may come to next: the one where it begins, or one whose holder is
finished. -/
def Next (s : Session) (top id : Nat) : Prop :=
  id = top ∨ ∃ g p, s.group? id = some g ∧ g.parent = some p ∧ Finished s top p

theorem Next.le (H : Sound src tops s) (hnext : Next s top id) : top ≤ id := by
  rcases hnext with rfl | ⟨g, p, hid, hparent, hp⟩
  · exact Nat.le_refl _
  · exact Nat.le_trans (hp.le H) (Nat.le_of_lt (H.arena.parent_lt hid hparent))

/-- The next node of a descent is finished once it is loaded. -/
theorem Next.finished (hnext : Next s top id) (S : Spares top s s') (hid : s.group? id = some g)
    {g' : GroupNode} (hid' : s'.group? id = some g') (hloaded : g'.isLoaded)
    (hparent : g'.parent = g.parent) : Finished s' top id := by
  rcases hnext with rfl | ⟨k, p, hk, hp, hfinished⟩
  · exact .start hid' hloaded
  · cases hid.symm.trans hk
    exact .held hid' hloaded (hparent.trans hp) (S.finished hfinished)

variable {t : Session}

/-- A step of a descent. -/
theorem Sound.descended_loadOne (H : Sound src tops t) (D : Descended top s t)
    (hnext : Next t top id) :
    Descended top s (after (loadOne id) t) ∧ Spares top t (after (loadOne id) t) := by
  rcases H.loadOne_cases id with ⟨heq, -⟩ | ⟨g, hid, hnot, -, heq⟩ | ⟨g, e, -, -, heq⟩
  · rw [after_of_ok heq]
    exact ⟨D, .refl top t⟩
  · rw [after_of_ok heq]
    have S := H.spares_commit hid hnot (hnext.le H) (foundUnder src id g.waiting)
    refine ⟨⟨fun {c} hc => D.group?_eq_none ?_, fun {c k'} hk' hne => ?_⟩, S⟩
    · cases hk : t.group? c with
      | none => rfl
      | some k =>
        obtain ⟨k', hk', -⟩ := H.exists_group?_commit hid g.headers.size _ hk
        cases hc.symm.trans hk'
    · rcases H.commit_cases hid hk' with
        ⟨rfl, hext, hheaders⟩ | ⟨k, -, hk, hext⟩ | ⟨hnone, -, hzero, -⟩
      · exact hnext.finished S hid hk' (hext.isLoaded_of_recorded hheaders) hext.parent
      · rw [hext.processed] at hne
        exact S.finished (D.finished hk hne)
      · rw [hzero, processed, D.group?_eq_none hnone] at hne
        exact absurd rfl hne
  · rw [after_of_error heq]
    exact ⟨D, .refl top t⟩

/-- A node of the descent that has been loaded, and that has children, is finished. -/
theorem Sound.finished_of_loadOne (H : Sound src tops s) (hnext : Next s top id)
    (S : Spares top s s') (h : loadOne id s = .ok () s') {c : Nat} (hc : c ∈ s'.children id) :
    ∃ g, s'.group? id = some g ∧ Finished s' top id ∧ c ∈ g.children.toList := by
  cases hid : s.group? id with
  | none =>
    have heq : loadOne id s = .ok () s := by simp only [loadOne_eq, hid]
    cases heq.symm.trans h
    rw [children, hid] at hc
    cases hc
  | some g =>
    obtain ⟨g', hid', hloaded, hparent, -⟩ := H.isLoaded_loadOne hid h
    rw [children, hid'] at hc
    exact ⟨g', hid', hnext.finished S hid hid' hloaded hparent, hc⟩

/-- A whole descent, which may fail. -/
theorem Rooted.descended_loadDeep (H : Rooted src tops ids t) (D : Descended top s t)
    (hnext : Next t top id) (depth : Nat) :
    Descended top s (after (loadDeep depth id) t) ∧
      Spares top t (after (loadDeep depth id) t) := by
  induction depth generalizing id t with
  | zero => exact ⟨D, .refl top t⟩
  | succ depth ih =>
    obtain ⟨D₁, S₁⟩ := H.toSound.descended_loadOne D hnext
    have H₁ := Rooted.preserves_loadOne id t H
    have hstep : loadDeep (depth + 1) id = loadOne id >>= fun _ => get >>= fun s =>
      (s.children id).forM (loadDeep depth) := rfl
    rw [hstep]
    cases hone : loadOne id t with
    | error e t₁ =>
      rw [after_of_error hone] at D₁ S₁
      rw [after_bind_of_error hone]
      exact ⟨D₁, S₁⟩
    | ok _ t₁ =>
      rw [after_of_ok hone] at D₁ S₁ H₁
      have hget : (get : Step Session) t₁ = .ok t₁ t₁ := rfl
      rw [after_bind_of_ok hone, after_bind_of_ok hget]
      have hloop : ∀ c ∈ t₁.children id, ∀ t₂,
          Rooted src tops ids t₂ ∧ Descended top s t₂ ∧ Spares top t₁ t₂ →
          Rooted src tops ids (after (loadDeep depth c) t₂) ∧
            Descended top s (after (loadDeep depth c) t₂) ∧
            Spares top t₁ (after (loadDeep depth c) t₂) := by
        rintro c hc t₂ ⟨H₂, D₂, S₂⟩
        -- the node is finished, so it has the same children until they are all loaded
        obtain ⟨g₁, hid₁, hfinished, hchild⟩ := H.toSound.finished_of_loadOne hnext S₁ hone hc
        obtain ⟨k, hk, hparent⟩ := H₂.toSound.exists_child (S₂ id g₁ hfinished hid₁) hchild
        have hnext₂ : Next t₂ top c := .inr ⟨k, id, hk, hparent, S₂.finished hfinished⟩
        obtain ⟨D₃, S₃⟩ := ih H₂ D₂ hnext₂
        exact ⟨Rooted.preserves_loadDeep depth c t₂ H₂, D₃, S₂.trans S₃⟩
      obtain ⟨-, D', S'⟩ := after_forM hloop ⟨H₁, D₁, .refl top t₁⟩
      exact ⟨D', S₁.trans S'⟩

end GamePlugin.Session
