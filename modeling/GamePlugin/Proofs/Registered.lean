import GamePlugin.Proofs.FlatFile
import GamePlugin.Proofs.Termination
import GamePlugin.Proofs.Watermark

/-!
# What decides whether a file can be read

A record whose tag has no shape is passed over without a look at its payload. So whatever such
records are like, they cannot make anything fail. A group loads exactly if its payload is cut into
chunks and its registered records can be read (`Session.Rooted.load_eq_ok_iff`), whether alone or
with all groups below it, and in any session that a caller can get to. A file without groups opens
exactly if the registered records on its way can be read (`Plugin.open?_of_trail`), and any file is
decoded by outline exactly if those that are listed can (`Outline.decode_eq_ok_iff`).

## Main definitions

* `Source.ReadsRegistered` — the registered records among chunks can be read.
* `Source.Clear` — a group can be read, alone or deep.
* `Source.Contains` — a group contains a record, directly or at any depth.
-/

namespace GamePlugin

/-! ## Groups -/

namespace Source

variable {src : Source} {deep : Bool} {h : GroupHeader} {k : RecordHeader} {cs : List Chunk}

/-- Every registered record among the chunks can be read. -/
def ReadsRegistered (src : Source) (cs : List Chunk) : Prop :=
  ∀ k ∈ cs.filterMap Chunk.record?, src.registered k → ∃ r, src.read k = .ok (some r)

/-- The group's payload is cut into chunks exactly, and every registered record directly in it can
be read; with `deep`, this is so for all groups in it. -/
inductive Clear (src : Source) (deep : Bool) : GroupHeader → Prop
  | intro {h : GroupHeader}
      (hrun : Chunk.Run src.image src.context.schema (src.chunksIn h) h.position h.stop)
      (hreads : src.ReadsRegistered (src.chunksIn h))
      (hgroups : deep → ∀ k ∈ src.groupsIn h, Clear src deep k) : Clear src deep h

/-- The record lies directly in the group; with `deep`, it may lie in a group in it. -/
inductive Contains (src : Source) (deep : Bool) (k : RecordHeader) : GroupHeader → Prop
  | direct {h : GroupHeader} (hk : k ∈ src.recordsIn h) : Contains src deep k h
  | inside {h inner : GroupHeader} (hdeep : deep) (hin : inner ∈ src.groupsIn h)
      (H : Contains src deep k inner) : Contains src deep k h

/-- A record that is not registered is never refused, whatever its size. -/
theorem read_of_not_registered (hnot : ¬src.registered k) : src.read k = .ok none := by
  refine Options.readRecord_of_shape?_eq_none ?_
  simpa [registered] using hnot

theorem readsAll_iff : src.ReadsAll cs ↔ src.ReadsRegistered cs := by
  constructor
  · intro H k hk hregistered
    obtain ⟨x, hx⟩ := H k hk
    obtain ⟨shape, hshape⟩ := Option.isSome_iff_exists.mp hregistered
    obtain ⟨r, rfl⟩ := Options.exists_some_of_readRecord hshape hx
    exact ⟨r, hx⟩
  · intro H k hk
    by_cases hregistered : src.registered k
    · obtain ⟨r, hr⟩ := H k hk hregistered
      exact ⟨some r, hr⟩
    · exact ⟨none, read_of_not_registered hregistered⟩

theorem clear_false_iff : src.Clear false h ↔ src.Readable h := by
  constructor
  · rintro ⟨hrun, hreads, -⟩
    exact ⟨hrun, readsAll_iff.mpr hreads⟩
  · rintro ⟨hrun, hreads⟩
    exact ⟨hrun, readsAll_iff.mp hreads, by simp⟩

theorem clear_true_iff : src.Clear true h ↔ src.Deep h := by
  constructor
  · intro H
    induction H with
    | intro hrun hreads _ ih => exact ⟨⟨hrun, readsAll_iff.mpr hreads⟩, ih rfl⟩
  · intro H
    induction H with
    | intro hreadable _ ih =>
      exact ⟨hreadable.run, readsAll_iff.mp hreadable.reads, fun _ => ih⟩

end Source

namespace Session

variable {src : Source} {tops : List GroupHeader} {ids : List Nat} {s t : Session} {top id : Nat}
  {g : GroupNode}

theorem Sound.loadOne_eq_ok_iff (H : Sound src tops s) (hid : s.group? id = some g) :
    (∃ t, loadOne id s = .ok () t) ↔ ∀ h ∈ g.headers.toList, src.Readable h := by
  have hdone := (H.tidy hid).readable
  have hsplit : (∀ h ∈ g.headers.toList, src.Readable h) ↔ ∀ h ∈ g.waiting, src.Readable h := by
    rw [← GroupNode.done_append_waiting]
    simp only [List.mem_append]
    exact ⟨fun hall h hh => hall h (.inr hh), fun hall h hh => hh.elim (hdone h) (hall h)⟩
  rw [hsplit]
  rcases H.loadOne_cases id with ⟨heq, hloaded⟩ | ⟨k, hk, -, hall, heq⟩ | ⟨k, e, hk, hnot, heq⟩
  · have hwaiting : g.waiting = [] := by
      have hall := GroupNode.done_append_waiting g
      rw [GroupNode.done_of_isLoaded (hloaded hid)] at hall
      exact List.append_right_eq_self.mp hall
    simp [heq, hwaiting]
  · cases hid.symm.trans hk
    exact ⟨fun _ => hall, fun _ => ⟨_, heq⟩⟩
  · cases hid.symm.trans hk
    obtain ⟨h, hh, hnot⟩ := hnot
    refine ⟨fun ⟨t, hok⟩ => ?_, fun hall => absurd (hall h hh) hnot⟩
    cases heq.symm.trans hok

/-- While a holder stays as it is, so do the headers of the nodes that it holds. -/
theorem Sound.headers_of_stays (H : Sound src tops s) (H' : Sound src tops t) (S : Stays s t)
    (hid : s.group? id = some g) (hid' : t.group? id = some g) {c : Nat} {k : GroupNode}
    (hk : s.group? c = some k) (hp : k.parent = some id) :
    ∃ k', t.group? c = some k' ∧ k'.parent = some id ∧ k'.headers.toList = k.headers.toList := by
  obtain ⟨k', hk', hp', hlabel, hkind⟩ := S c k hk
  have hkey : k'.key = k.key := by simp [GroupNode.key, hp', hlabel, hkind]
  refine ⟨k', hk', hp'.trans hp, ?_⟩
  rw [H'.arena.headers_eq hk', H.arena.headers_eq hk, hkey, hp', hp, pieces_of_group? hid,
    pieces_of_group? hid']

/-- **Going down from a node succeeds exactly if its headers can be read at any depth.** -/
theorem Rooted.leads_descent {depth : Nat} (H : Rooted src tops ids s) (hnext : Next s top id)
    (hid : s.group? id = some g) (hdepth : ∀ h ∈ g.headers.toList, src.depthBelow h < depth) :
    Leads (loadDeep depth id) s (fun _ _ => ∀ h ∈ g.headers.toList, src.Deep h)
      (fun _ => ∃ h ∈ g.headers.toList, ¬src.Deep h) := by
  induction depth generalizing id g s with
  | zero =>
    have hnil : g.headers.toList = [] := List.eq_nil_iff_forall_not_mem.mpr fun h hh =>
      absurd (hdepth h hh) (Nat.not_lt_zero _)
    exact absurd (Array.toList_eq_nil_iff.mp hnil) (H.arena.headers_ne hid)
  | succ depth ih =>
    have hone : Leads (loadOne id) s (fun _ t => loadOne id s = .ok () t)
        (fun _ => ∃ h ∈ g.headers.toList, ¬src.Deep h) := by
      refine ⟨fun heq => heq, fun {e t} heq => ?_⟩
      by_contra hall
      obtain ⟨t', hok⟩ := (H.toSound.loadOne_eq_ok_iff hid).mpr fun h hh => by
        by_contra hnot
        exact hall ⟨h, hh, fun ⟨hreadable, _⟩ => hnot hreadable⟩
      cases hok.symm.trans heq
    refine hone.bind fun {_ s₁} hload => Leads.get_bind ?_
    obtain ⟨g₁, hid₁, hloaded, hparent, hheaders⟩ := H.toSound.isLoaded_loadOne hid hload
    have S₁ := (H.toSound.descended_loadOne (.refl top s) hnext).2
    have H₁ := Rooted.preserves_loadOne id s H
    rw [after_of_ok hload] at S₁ H₁
    have hfinished := hnext.finished S₁ hid hid₁ hloaded hparent
    have hchildren : s₁.children id = g₁.children.toList := by
      rw [Session.children, hid₁]
      rfl
    rw [hchildren, ← hheaders]
    -- the node is finished, so its children have the same headers until they are all loaded
    refine (Leads.forM (I := fun t => (Rooted src tops ids t ∧ Loads s₁ t) ∧ Spares top s₁ t)
      (D := fun c _ => ∀ k, s₁.group? c = some k → ∀ h ∈ k.headers.toList, src.Deep h)
      ?_ ⟨⟨H₁, .refl s₁⟩, .refl top s₁⟩).imp (fun h => ?_) fun h => h
    · rintro c hc t ⟨⟨Ht, Lt⟩, St⟩
      have hidt := St id g₁ hfinished hid₁
      obtain ⟨k, hk, hp⟩ := H₁.toSound.exists_child hid₁ hc
      obtain ⟨k', hk', hp', hsame⟩ :=
        H₁.toSound.headers_of_stays Ht.toSound Lt.stays hid₁ hidt hk hp
      have hnextt : Next t top c := .inr ⟨k', id, hk', hp', St.finished hfinished⟩
      have houter {h : GroupHeader} (hh : h ∈ k'.headers.toList) :=
        Ht.toSound.exists_outer hk' hp' hidt hh
      have hfits : ∀ h ∈ k'.headers.toList, src.depthBelow h < depth := by
        intro h hh
        obtain ⟨outer, hmem, hin⟩ := houter hh
        have hlt := Source.depthBelow_lt_of_mem_groupsIn hin
        have hle := hdepth outer (hheaders ▸ hmem)
        omega
      have hkeep := Preserves.loadDeep (Rooted.preserves_loads s₁) depth c t ⟨Ht, Lt⟩
      have hspare := (Ht.descended_loadDeep (.refl top t) hnextt depth).2
      have hc' := ih Ht hnextt hk' hfits
      refine ⟨fun {_ t'} heq => ?_, fun {e t'} heq => ?_⟩
      · rw [after_of_ok heq] at hkeep hspare
        refine ⟨⟨hkeep, St.trans hspare⟩, fun j hj => ?_, fun _ _ h => h⟩
        cases hk.symm.trans hj
        rw [← hsame]
        exact hc'.ok heq
      · obtain ⟨h, hh, hnot⟩ := hc'.error heq
        obtain ⟨outer, hmem, hin⟩ := houter hh
        exact ⟨outer, hmem, fun ⟨_, hgroups⟩ => hnot (hgroups h hin)⟩
    · exact H₁.toSound.deep_of_children hid₁ hloaded h.2

/-- **Whether a group loads is decided by its framing and its registered records.** -/
theorem Rooted.load_eq_ok_iff (H : Rooted src tops ids s) (hid : s.group? id = some g)
    (deep : Bool) :
    (∃ rs t, load id deep s = .ok rs t) ↔ ∀ h ∈ g.headers.toList, src.Clear deep h := by
  cases deep with
  | false =>
    simp only [Source.clear_false_iff]
    rw [← H.toSound.loadOne_eq_ok_iff hid]
    constructor
    · rintro ⟨rs, t, hload⟩
      obtain ⟨_, t', hone, -⟩ := bind_eq_ok_iff.mp (show
        (loadOne id >>= fun _ => return (← get).records id) s = .ok rs t from hload)
      exact ⟨t', hone⟩
    · rintro ⟨t, hone⟩
      exact ⟨_, t, load_shallow_of_ok hone⟩
  | true =>
    simp only [Source.clear_true_iff]
    have hfits : ∀ h ∈ g.headers.toList, src.depthBelow h < s.depthBound := by
      intro h _
      have himage : s.image.size = src.image.size := by rw [← H.source_eq]; rfl
      simp only [Source.depthBelow, depthBound]
      omega
    have hdeep := H.leads_descent (.inl rfl : Next s id id) hid hfits
    constructor
    · rintro ⟨rs, t, hload⟩
      exact hdeep.ok (load_deep_eq_ok_iff.mp hload).1
    · intro hall
      cases hload : loadDeep s.depthBound id s with
      | ok _ t => exact ⟨_, t, load_deep_eq_ok_iff.mpr ⟨hload, rfl⟩⟩
      | error e t =>
        obtain ⟨h, hh, hnot⟩ := hdeep.error hload
        exact absurd (hall h hh) hnot

end Session

/-! ## Files without groups -/

namespace Plugin

variable {image : Image} {options : Options} {length? : Option Nat} {plugin : Plugin}
  {s s₀ : Session} {root : Record} {content : Root} {context : Context} {cs : List Chunk}
  {pos length : Nat}

/-- What opening a file without groups does. -/
theorem open?_of_flat (hdetect : Schema.detect image = .ok .tes3)
    (hedition : checkEdition options .tes3 = .ok ())
    (hroot : readRoot image options .tes3 = .ok (root, content, context)) (length? : Option Nat) :
    open? image options length? =
      (flatRecords { image, length := some (length?.getD image.size), context, options }
        (length?.getD image.size) root.header.stop).map fun records =>
          ({ root, header := content, flat := some (.ofRecords records) },
            { image, length := some (length?.getD image.size), context, options,
              index := records.foldl LoadedIndex.insert {} }) := by
  simp only [open?, bind, Except.bind, hdetect, hedition, hroot]
  cases flatRecords { image, length := some (length?.getD image.size), context, options }
    (length?.getD image.size) root.header.stop <;> rfl

theorem checkEdition_of_open? {schema : Schema}
    (hopen : open? image options length? = .ok (plugin, s₀))
    (hdetect : Schema.detect image = .ok schema) : checkEdition options schema = .ok () := by
  simp only [open?, bind, Except.bind, hdetect] at hopen
  cases hedition : checkEdition options schema with
  | error e => rw [hedition] at hopen; cases hopen
  | ok _ => rfl

/-- The records on a trail can be read one after another exactly if none is refused. -/
theorem flatRecords_eq_ok_iff (htrail : Chunk.Trail s.image .tes3 length cs pos) :
    (∃ rs, flatRecords s length pos = .ok rs) ↔ s.source.ReadsAll cs := by
  constructor
  · rintro ⟨rs, hrs⟩
    obtain ⟨ds, htrail', hreads, -⟩ := exists_trail_of_flatRecords hrs
    rwa [htrail.unique htrail']
  · intro hreads
    induction cs generalizing pos with
    | nil => exact ⟨[], flatRecords_of_le htrail⟩
    | cons c cs ih =>
      obtain ⟨hlt, hread, hrest⟩ := htrail
      cases c with
      | group g => cases (Chunk.tag_of_read_group hread).2
      | record k =>
        obtain ⟨⟨x, hx⟩, hreads⟩ := Source.readsAll_record.mp hreads
        obtain ⟨rs, hrs⟩ := ih hrest hreads
        rw [Chunk.stop_record] at hrs
        refine ⟨x.toList ++ rs, ?_⟩
        rw [flatRecords_of_record hlt hread, hx, Except.bind, hrs]
        rfl

/-- **Whether a file without groups opens is decided by its registered records.** -/
theorem open?_of_trail (hdetect : Schema.detect image = .ok .tes3)
    (hedition : checkEdition options .tes3 = .ok ())
    (hroot : readRoot image options .tes3 = .ok (root, content, context))
    (htrail : Chunk.Trail image .tes3 (length?.getD image.size) cs root.header.stop) :
    (∃ x, open? image options length? = .ok x) ↔
      Source.ReadsRegistered ⟨image, context, options⟩ cs := by
  rw [← Source.readsAll_iff, open?_of_flat hdetect hedition hroot]
  have hiff := @flatRecords_eq_ok_iff
    { image, length := some (length?.getD image.size), context, options } cs root.header.stop _
    htrail
  rw [Session.source] at hiff
  rw [← hiff]
  cases flatRecords { image, length := some (length?.getD image.size), context, options }
      (length?.getD image.size) root.header.stop with
  | error e => exact ⟨fun ⟨_, h⟩ => (by cases h), fun ⟨_, h⟩ => (by cases h)⟩
  | ok rs => exact ⟨fun _ => ⟨rs, rfl⟩, fun _ => ⟨_, rfl⟩⟩

end Plugin

/-! ## Decoding by outline -/

/-- A map that succeeds has succeeded for each element, and gives no more. -/
theorem of_mapM_eq_ok {α β : Type} {p : α → Except Error β} {xs : List α} {ys : List β}
    (h : xs.mapM p = .ok ys) :
    (∀ x ∈ xs, ∃ y, p x = .ok y) ∧ ∀ y ∈ ys, ∃ x ∈ xs, p x = .ok y := by
  induction xs generalizing ys with
  | nil =>
    cases h
    simp
  | cons x xs ih =>
    rw [List.mapM_cons] at h
    cases hx : p x with
    | error e => rw [hx] at h; cases h
    | ok y =>
      cases hxs : xs.mapM p with
      | error e => rw [hx, hxs] at h; cases h
      | ok zs =>
        rw [hx, hxs] at h
        cases h
        obtain ⟨hall, hmem⟩ := ih hxs
        refine ⟨List.forall_mem_cons.mpr ⟨⟨y, hx⟩, hall⟩,
          List.forall_mem_cons.mpr ⟨⟨x, List.mem_cons_self, hx⟩, fun z hz => ?_⟩⟩
        obtain ⟨w, hw, hpw⟩ := hmem z hz
        exact ⟨w, List.mem_cons_of_mem x hw, hpw⟩

theorem exists_mapM_eq_ok {α β : Type} {p : α → Except Error β} {xs : List α}
    (h : ∀ x ∈ xs, ∃ y, p x = .ok y) : ∃ ys, xs.mapM p = .ok ys := by
  induction xs with
  | nil => exact ⟨[], rfl⟩
  | cons x xs ih =>
    obtain ⟨⟨y, hx⟩, hall⟩ := List.forall_mem_cons.mp h
    obtain ⟨ys, hxs⟩ := ih hall
    refine ⟨y :: ys, ?_⟩
    rw [List.mapM_cons, hx, hxs]
    rfl

namespace Outline

variable {o : Outline} {image : Image} {context : Context} {options : Options} {e : RecordEntry}

/-- An entry is refused only if its record is registered. -/
theorem decodeEntry_eq_ok_iff :
    (∃ x, decodeEntry image context options e = .ok x) ↔
      (Source.registered ⟨image, context, options⟩ e.header →
        ∃ r, decodeEntry image context options e = .ok (some r)) := by
  cases hshape : options.registry.shape? e.header.tag context.edition with
  | none =>
    have hnot : ¬Source.registered ⟨image, context, options⟩ e.header := by
      simp [Source.registered, hshape]
    have hnone : decodeEntry image context options e = .ok none := by
      simp only [decodeEntry, Options.shapeFor, hshape]
      rfl
    exact ⟨fun _ h => absurd h hnot, fun _ => ⟨none, hnone⟩⟩
  | some shape =>
    have hregistered : Source.registered ⟨image, context, options⟩ e.header := by
      simp [Source.registered, hshape]
    refine ⟨?_, fun h => ?_⟩
    · rintro ⟨x, hx⟩ -
      simp only [decodeEntry, Options.shapeFor, hshape] at hx ⊢
      split at hx
      · cases hx
      rename_i hlimit
      simp only [if_neg hlimit, pure_bind] at hx ⊢
      split at hx
      · cases hx
      rename_i hstop
      simp only [if_neg hstop]
      cases hdecode : Record.decode e.header shape
          (image.slice e.header.position e.header.dataSize.toNat) context
          options.maxRecordSize with
      | error e => rw [hdecode] at hx; cases hx
      | ok r => exact ⟨r, rfl⟩
    · obtain ⟨r, hr⟩ := h hregistered
      exact ⟨some r, hr⟩

/-- **Whether a file can be decoded by outline is decided by its registered records.** -/
theorem decode_eq_ok_iff :
    (∃ rs, o.decode image context options = .ok rs) ↔
      ∀ e ∈ o.records.toList, Source.registered ⟨image, context, options⟩ e.header →
        ∃ r, decodeEntry image context options e = .ok (some r) := by
  constructor
  · rintro ⟨rs, hrs⟩ e he
    rw [decode] at hrs
    cases hmap : o.records.toList.mapM (decodeEntry image context options) with
    | error e => rw [hmap] at hrs; cases hrs
    | ok xs => exact decodeEntry_eq_ok_iff.mp ((of_mapM_eq_ok hmap).1 e he)
  · intro hall
    obtain ⟨xs, hmap⟩ := exists_mapM_eq_ok fun e he => decodeEntry_eq_ok_iff.mpr (hall e he)
    refine ⟨xs.filterMap id, ?_⟩
    rw [decode, hmap]
    rfl

end Outline

end GamePlugin
