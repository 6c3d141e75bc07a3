import GamePlugin.Proofs.Names

/-!
# The index of loaded records

Loading a group keeps its records all at once, after those that were kept before. So the records of
a session have an order: by the time when they were kept, and those that were kept at once in file
order. `Session.Commits` says which lists of records a session can have been given in this way.

The index of a session has no more in it than such a list, and no less: for every key it gives the
last record of the list that has it (`Session.Commits.tracks`). What a load that fails has read is
not in the list.

## Main definitions

* `Session.Commits` — the records that a session has been given, in order.
* `FormRef.means` — the records that a reference means.
-/

namespace GamePlugin

/-- Whether a reference means a record. A form id of zero means none; editor ids count up to the
case of ASCII letters. -/
def FormRef.means : FormRef → Record → Bool
  | .id form, r => !form.isNone && r.form = form
  | .editorId name, r => r.hasName name

theorem LoadedIndex.form?_insert (x : LoadedIndex) (r : Record) (form : FormId) :
    (x.insert r).form? form = if FormRef.means (.id form) r then some r else x.form? form := by
  by_cases hform : r.form = form
  · subst hform
    by_cases hnone : r.form.isNone
    · simp [form?, insert, FormRef.means, hnone]
    · simp [form?, insert, FormRef.means, hnone]
  · have hvalue : r.form.value ≠ form.value := fun h => hform (congrArg FormId.mk h)
    by_cases hnone : r.form.isNone
    · simp [form?, insert, FormRef.means, hnone, hform]
    · simp [form?, insert, FormRef.means, hnone, hform, hvalue, Std.TreeMap.getElem?_insert]

theorem LoadedIndex.form?_foldl (rs : List Record) (x : LoadedIndex) (form : FormId) :
    (rs.foldl insert x).form? form =
      ((rs.filter (FormRef.means (.id form))).getLast?).or (x.form? form) :=
  find_foldl (·.form? form) (fun x r => form?_insert x r form) rs x

namespace Session

variable {src : Source} {tops : List GroupHeader} {ids : List Nat} {start s t : Session}
  {log : List Record}

/-! ## The log -/

/-- The records that a session has been given on its way from `start`, in the order in which they
were kept. Headers of top groups are placed on the way, and blocks remember cells; neither gives it
a record. -/
inductive Commits (start : Session) : List Record → Session → Prop
  | start : Commits start [] start
  | place {log : List Record} {s t : Session} {h : GroupHeader} (H : Commits start log s)
      (P : Place s none h t) : Commits start log t
  | alike {log : List Record} {s t : Session} (H : Commits start log s) (A : Alike s t) :
      Commits start log t
  /-- What a load has added to the records of its group comes last. -/
  | load {log : List Record} {s t : Session} {id : Nat} (H : Commits start log s)
      (hload : loadOne id s = .ok () t) :
      Commits start (log ++ (t.records id).drop (s.records id).length) t

/-- Each node has the records of the log that name it, and the index gives the last record of the
log with a key. -/
structure Tracks (log : List Record) (s : Session) : Prop where
  records_eq : ∀ c, log.filter (·.header.parent = some c) = s.records c
  form?_eq : ∀ form, s.index.form? form = (log.filter (FormRef.means (.id form))).getLast?
  editorId?_eq : ∀ name,
    s.index.editorId? name = (log.filter (FormRef.means (.editorId name))).getLast?

theorem tracks_of_empty (hgroups : s.groups = #[]) (hindex : s.index = {}) : Tracks [] s where
  records_eq c := by simp [records, group?, hgroups]
  form?_eq form := by simp [hindex, LoadedIndex.form?]
  editorId?_eq name := by simp [hindex, LoadedIndex.editorId?]

theorem Tracks.congr (T : Tracks log s) (hindex : t.index = s.index)
    (hrecords : ∀ c, t.records c = s.records c) : Tracks log t where
  records_eq c := by rw [hrecords, T.records_eq]
  form?_eq form := by rw [hindex, T.form?_eq]
  editorId?_eq name := by rw [hindex, T.editorId?_eq]

/-- The records of a node name it. -/
theorem parent_of_mem_foundUnder {id : Nat} {hs : List GroupHeader} {r : Record}
    (hr : r ∈ (foundUnder src id hs).records.toList) : r.header.parent = some id := by
  rw [toList_records_foundUnder] at hr
  obtain ⟨r', -, rfl⟩ := List.mem_map.mp hr
  rfl

/-- What is kept comes last in the log. -/
theorem Tracks.commit {id : Nat} {g : GroupNode} (T : Tracks log s) (R : Rooted src tops ids s)
    (hid : s.group? id = some g) :
    Tracks (log ++ (foundUnder src id g.waiting).records.toList)
      (s.commit id g.headers.size (foundUnder src id g.waiting)) where
  records_eq c := by
    rw [R.toSound.records_commit hid, List.filter_append, T.records_eq]
    by_cases hc : id = c
    · subst hc
      rw [if_pos rfl, List.filter_eq_self.mpr]
      intro r hr
      simp [parent_of_mem_foundUnder hr]
    · rw [if_neg hc, List.filter_eq_nil_iff.mpr, List.append_nil]
      intro r hr
      simp [parent_of_mem_foundUnder hr, hc]
  form?_eq form := by
    rw [R.toSound.index_commit hid, LoadedIndex.form?_foldl, T.form?_eq, List.filter_append,
      List.getLast?_append]
  editorId?_eq name := by
    rw [R.toSound.index_commit hid, LoadedIndex.editorId?_foldl, T.editorId?_eq,
      List.filter_append, List.getLast?_append]
    rfl

/-- **A session that started empty is sound, and its index is that of its log.** -/
theorem Commits.tracks (H : Commits start log s) (hgroups : start.groups = #[])
    (hindex : start.index = {}) :
    (∃ tops ids, Rooted start.source tops ids s) ∧ Tracks log s := by
  induction H with
  | start =>
    exact ⟨⟨[], [], rooted_of_groups_eq_empty rfl hgroups⟩, tracks_of_empty hgroups hindex⟩
  | place H P ih =>
    obtain ⟨⟨tops, ids, R⟩, T⟩ := ih
    have G := P.grows fun p hp => by cases hp
    refine ⟨⟨_, _, R.toSound.place_top P, rfl⟩, T.congr ?_ G.records_eq⟩
    rw [G.others]
  | alike H A ih =>
    obtain ⟨⟨tops, ids, R⟩, T⟩ := ih
    exact ⟨⟨tops, ids, R.alike A⟩, T.congr A.index_eq A.records_eq⟩
  | @load log s t id H hload ih =>
    obtain ⟨⟨tops, ids, R⟩, T⟩ := ih
    rcases R.loadOne_cases id with
      ⟨hsame, -⟩ | ⟨g, hid, -, hreadable, hread⟩ | ⟨g, e, -, -, hfail⟩
    · cases hsame.symm.trans hload
      rw [List.drop_length, List.append_nil]
      exact ⟨⟨tops, ids, R⟩, T⟩
    · cases hread.symm.trans hload
      rw [R.toSound.records_commit hid, if_pos rfl, List.drop_left]
      exact ⟨⟨tops, ids, R.commit hid hreadable⟩, T.commit R hid⟩
    · cases hfail.symm.trans hload

/-- Whatever is done next only adds to the log. -/
theorem Rooted.stable_commits :
    Stable fun t => Rooted src tops ids t ∧ ∃ more, Commits start (log ++ more) t where
  loadOne id := by
    rintro s ⟨R, more, H⟩
    refine ⟨Rooted.preserves_loadOne id s R, ?_⟩
    rcases R.loadOne_cases id with ⟨hload, -⟩ | ⟨g, -, -, -, hload⟩ | ⟨g, e, -, -, hload⟩
    · rw [after_of_ok hload]
      exact ⟨more, H⟩
    · rw [after_of_ok hload]
      have H' := H.load hload
      rw [List.append_assoc] at H'
      exact ⟨_, H'⟩
    · rw [after_of_error hload]
      exact ⟨more, H⟩
  alike A h := by
    obtain ⟨R, more, H⟩ := h
    exact ⟨R.alike A, more, H.alike A⟩

/-- The session before anything was found in the file. -/
def blank (s : Session) : Session := { s with groups := #[], index := {}, subBlocksLoaded := 0 }

end Session

namespace Plugin

open Session (Commits after)

variable {image : Image} {options : Options} {length? : Option Nat} {plugin : Plugin}
  {s₀ s : Session} {log : List Record}

/-- Opening a file gives the session the records of groups that are loaded at once. -/
theorem exists_commits_of_open? (hopen : open? image options length? = .ok (plugin, s₀))
    (hgroups : s₀.context.schema.hasGroups) : ∃ log, Commits s₀.blank log s₀ := by
  have hblank : s₀.blank =
      { image, length := some (length?.getD image.size), context := s₀.context, options } := by
    rw [Session.blank, rest_of_open? hopen hgroups]
  refine of_open?_of_hasGroups (Q := fun s => ∃ log, Commits s₀.blank log s) hopen hgroups ?_ ?_
  · exact ⟨[], hblank ▸ .start⟩
  · rintro src tops ids s h ids' s' R ⟨log, H⟩ heq
    obtain ⟨id, s₁, P, -, ⟨-, hload⟩ | ⟨-, rfl⟩⟩ := R.registerTop_cases heq
    · exact ⟨_, (H.place P.place).load hload⟩
    · exact ⟨log, H.place P.place⟩

/-- An operation only adds to the log, whether it succeeds or fails. -/
theorem exists_commits_perform (hopen : open? image options length? = .ok (plugin, s₀))
    (hgroups : s₀.context.schema.hasGroups) (hreach : plugin.Reaches s₀ s)
    (H : Commits s₀.blank log s) (op : Operation) :
    ∃ more, Commits s₀.blank (log ++ more) (after (plugin.perform op) s) := by
  obtain ⟨-, -, -, R₀⟩ := rooted_tops_of_open? hopen hgroups
  have R := hreach.of_stable Session.Rooted.stable R₀
  have hstable : Session.Stable fun t =>
      Session.Rooted s₀.source (plugin.tops s₀) plugin.topGroups t ∧
        ∃ more, Commits s₀.blank (log ++ more) t := Session.Rooted.stable_commits
  have hstart : ∃ more, Commits s₀.blank (log ++ more) s := ⟨[], by rwa [List.append_nil]⟩
  exact (preserves_perform hstable.loadOne (preserves_atPosition hstable plugin) op s
    ⟨R, hstart⟩).2

theorem exists_commits_of_reaches (hopen : open? image options length? = .ok (plugin, s₀))
    (hgroups : s₀.context.schema.hasGroups) (hreach : plugin.Reaches s₀ s) :
    ∃ log, Commits s₀.blank log s := by
  induction hreach with
  | refl => exact exists_commits_of_open? hopen hgroups
  | step hreach op ih =>
    obtain ⟨log, H⟩ := ih
    obtain ⟨more, H⟩ := exists_commits_perform hopen hgroups hreach H op
    exact ⟨log ++ more, H⟩

/-- A reference leads to the last record of the log that it means. -/
theorem target?_of_tracks (hflat : plugin.flat = none) (T : Session.Tracks log s)
    (reference : FormRef) :
    plugin.target? s reference = (log.filter reference.means).getLast? := by
  cases reference with
  | editorId name => rw [target?, hflat, T.editorId?_eq]
  | id form =>
    rw [target?, T.form?_eq]
    by_cases hnone : form.isNone
    · have hnil : log.filter (FormRef.means (.id form)) = [] := by
        rw [List.filter_eq_nil_iff]
        intro r _
        simp [FormRef.means, hnone]
      rw [if_pos hnone, hnil]
      rfl
    · rw [if_neg hnone]

/-- **The index of loaded records is exact.** A session that is reached has been given its records
in some order, to which whatever is done next only adds. In any such order, each node has the
records that name it; for every form id and every editor id the index gives the last record that has
it, and none if there is none; and a reference leads to the last record that it means, if that has
the wanted shape. -/
theorem index_exact (hopen : open? image options length? = .ok (plugin, s₀))
    (hgroups : s₀.context.schema.hasGroups) (hreach : plugin.Reaches s₀ s) :
    (∃ log, Commits s₀.blank log s) ∧
    ∀ log, Commits s₀.blank log s →
      (∀ op, ∃ more, Commits s₀.blank (log ++ more) (after (plugin.perform op) s)) ∧
      (∀ c, log.filter (·.header.parent = some c) = s.records c) ∧
      (∀ form, s.index.form? form = (log.filter (FormRef.means (.id form))).getLast?) ∧
      (∀ name, s.index.editorId? name = (log.filter (FormRef.means (.editorId name))).getLast?) ∧
      ∀ shape reference, plugin.resolve? s shape reference =
        (log.filter reference.means).getLast?.filter fun r => shape.all (· = r.body.shape) := by
  refine ⟨exists_commits_of_reaches hopen hgroups hreach, fun log H => ?_⟩
  obtain ⟨hflat, -⟩ := rooted_tops_of_open? hopen hgroups
  obtain ⟨-, T⟩ := H.tracks rfl rfl
  refine ⟨exists_commits_perform hopen hgroups hreach H, T.records_eq, T.form?_eq, T.editorId?_eq,
    fun shape reference => ?_⟩
  rw [resolve?, target?_of_tracks hflat T]

/-- A file in which two groups have a record with the same form id. -/
def sharedForm : Image :=
  .ofBytes (Draft.encodeAll .tes4
    [.record .TES4 0 ⟨0⟩ [72, 69, 68, 82, 12, 0, 0, 0, 128, 63, 4, 0, 0, 0, 0, 8, 0, 0],
     .group Tag.GLOB.code .top [.record .GLOB 0 ⟨7⟩ []],
     .group Tag.MISC.code .top [.record .MISC 0 ⟨7⟩ []]])

/-- The group that comes first in the file is loaded last, so its record has the form id. -/
theorem index_exact_sharedForm :
    ∃ plugin s₀ s log, open? sharedForm { edition := some .oblivion } none = .ok (plugin, s₀) ∧
      s₀.context.schema.hasGroups ∧ plugin.Reaches s₀ s ∧ Commits s₀.blank log s ∧
      log.filter (·.header.parent = some 0) = s.records 0 ∧ (s.records 0).length = 1 ∧
      log.filter (·.header.parent = some 1) = s.records 1 ∧ (s.records 1).length = 1 ∧
      s.index.form? ⟨7⟩ = (log.filter (FormRef.means (.id ⟨7⟩))).getLast? ∧
      (log.filter (FormRef.means (.id ⟨7⟩))).getLast?.any (·.tag = .GLOB) := by
  have hopens : ((open? sharedForm { edition := some .oblivion } none).toOption.map fun x =>
      let s := after (x.1.perform (.records .GLOB)) (after (x.1.perform (.records .MISC)) x.2)
      (x.2.context.schema.hasGroups, (s.records 0).length, (s.records 1).length,
        (s.index.form? ⟨7⟩).any (·.tag = .GLOB))) = some (true, 1, 1, true) := by
    decide +kernel
  obtain ⟨⟨plugin, s₀⟩, hopen, hfacts⟩ := exists_eq_ok_of_map hopens
  simp only [Prod.mk.injEq] at hfacts
  obtain ⟨hgroups, hfirst, hsecond, hform⟩ := hfacts
  have hreach : plugin.Reaches s₀ _ := (Reaches.refl.step (.records .MISC)).step (.records .GLOB)
  obtain ⟨⟨log, H⟩, hall⟩ := index_exact hopen hgroups hreach
  obtain ⟨-, hrecords, hforms, -⟩ := hall log H
  rw [hforms] at hform
  exact ⟨plugin, s₀, _, log, hopen, hgroups, hreach, H, hrecords 0, hfirst, hrecords 1, hsecond,
    hforms ⟨7⟩, hform⟩

end Plugin

end GamePlugin
