import GamePlugin.Proofs.CommitLog
import GamePlugin.Proofs.FlatFile

/-!
# Keys that should lead nowhere

Two kinds of keys stand for nothing that a file can hold. A null reference has a form id of zero or
an empty editor id. An interior position has coordinates, but no world in which they could lie.

Files with groups and files without keep their tables apart, and each kind of file passes over one
of the two keys only. In a file with groups an interior position leads nowhere, but records with an
empty editor id are indexed like others, and a null reference leads to the one that was kept last
(`Plugin.null_reference_leads_iff`). A file without groups has no key for an empty editor id, but
the world of a position does not count there, and an interior position leads to what lies at its
coordinates (`Plugin.interior_position_query`).
-/

namespace GamePlugin

/-- An empty name is equal to no other one, whatever the case of letters. -/
theorem Record.hasName_empty (r : Record) : r.hasName "" ↔ r.editorId = some "" := by
  have hfold : LoadedIndex.foldName "" = "" := String.map_eq_empty.mpr rfl
  rw [hasName, hfold]
  cases r.editorId with
  | none => simp
  | some id => simp [LoadedIndex.foldName]

/-- A null reference means the records with an empty editor id, if its own editor id is empty. -/
theorem FormRef.filter_means_of_isNull {reference : FormRef} (hnull : reference.isNull)
    (rs : List Record) :
    rs.filter reference.means =
      if reference = .editorId "" then rs.filter (·.editorId = some "") else [] := by
  cases reference with
  | id form =>
    rw [isNull] at hnull
    rw [if_neg (by simp), List.filter_eq_nil_iff]
    intro r _
    simp [means, hnull]
  | editorId name =>
    rw [isNull, String.isEmpty_iff] at hnull
    subst hnull
    rw [if_pos rfl]
    refine List.filter_congr fun r _ => ?_
    simp [means, ← Record.hasName_empty]

namespace Plugin

open Session (Commits after)

variable {image : Image} {options : Options} {length? : Option Nat} {plugin : Plugin}
  {s₀ s : Session} {reference : FormRef}

/-! ## Null references -/

/-- A file without groups has no key for an empty editor id. -/
theorem target?_of_isNull_of_flat {rs : List Record} (htables : plugin.flat = some (.ofRecords rs))
    (hnull : reference.isNull) : plugin.target? s reference = none := by
  cases reference with
  | id form =>
    rw [FormRef.isNull] at hnull
    rw [target?, if_pos hnull]
  | editorId name =>
    rw [FormRef.isNull, String.isEmpty_iff] at hnull
    subst hnull
    have hquery := FlatTables.queryFlat_ofRecords rs (.editorId "")
    rw [List.filter_eq_nil_iff.mpr] at hquery
    · rw [target?, htables]
      exact hquery
    · intro r _ hmeans
      simp [Query.means, Record.hasName_empty] at hmeans

/-- A file with groups has such a key, and the last record of the log with it is found. -/
theorem target?_of_isNull_iff {log : List Record} {r : Record} (hflat : plugin.flat = none)
    (T : Session.Tracks log s) (hnull : reference.isNull) :
    plugin.target? s reference = some r ↔
      reference = .editorId "" ∧ (log.filter (·.editorId = some "")).getLast? = some r := by
  rw [target?_of_tracks hflat T, FormRef.filter_means_of_isNull hnull]
  by_cases hempty : reference = .editorId "" <;> simp [hempty]

/-- **A null reference leads to the last record with an empty editor id.** This is so in files with
groups, if the reference has an empty editor id and the record has the wanted shape; other null
references lead nowhere, and so do all of them as long as no record with an empty editor id has been
loaded. -/
theorem null_reference_leads_iff (hopen : open? image options length? = .ok (plugin, s₀))
    (hreach : plugin.Reaches s₀ s) (hnull : reference.isNull) (shape : Option Shape) (r : Record) :
    plugin.resolve? s shape reference = some r ↔
      s₀.context.schema.hasGroups ∧ reference = .editorId "" ∧ shape.all (· = r.body.shape) ∧
        ∃ log, Commits s₀.blank log s ∧
          (log.filter (·.editorId = some "")).getLast? = some r := by
  by_cases hgroups : s₀.context.schema.hasGroups
  · obtain ⟨hflat, -⟩ := rooted_tops_of_open? hopen hgroups
    rw [resolve?, Option.filter_eq_some_iff]
    constructor
    · rintro ⟨hlead, hshape⟩
      obtain ⟨log, H⟩ := exists_commits_of_reaches hopen hgroups hreach
      obtain ⟨-, T⟩ := H.tracks rfl rfl
      obtain ⟨hempty, hlast⟩ := (target?_of_isNull_iff hflat T hnull).mp hlead
      exact ⟨hgroups, hempty, hshape, log, H, hlast⟩
    · rintro ⟨-, hempty, hshape, log, H, hlast⟩
      obtain ⟨-, T⟩ := H.tracks rfl rfl
      exact ⟨(target?_of_isNull_iff hflat T hnull).mpr ⟨hempty, hlast⟩, hshape⟩
  · obtain ⟨-, cs, -, -, htables⟩ := exists_trail_of_flat hopen hgroups
    rw [resolve?, target?_of_isNull_of_flat htables hnull]
    simp [hgroups]

/-- A file with a variable and an item whose editor ids are empty. -/
def unnamed : Image :=
  .ofBytes (Draft.encodeAll .tes4
    [.record .TES4 0 ⟨0⟩ [72, 69, 68, 82, 12, 0, 0, 0, 128, 63, 4, 0, 0, 0, 0, 8, 0, 0],
     .group Tag.GLOB.code .top [.record .GLOB 0 ⟨7⟩ [69, 68, 73, 68, 1, 0, 0]],
     .group Tag.MISC.code .top [.record .MISC 0 ⟨8⟩ [69, 68, 73, 68, 1, 0, 0]]])

/-- The record of the group that is loaded last is found. -/
theorem null_reference_leads_iff_unnamed :
    ∃ plugin s₀ s r log, open? unnamed { edition := some .oblivion } none = .ok (plugin, s₀) ∧
      plugin.Reaches s₀ s ∧ FormRef.isNull (.editorId "") ∧
      plugin.resolve? s none (.editorId "") = some r ∧ r.form = ⟨7⟩ ∧
      s₀.context.schema.hasGroups ∧ Commits s₀.blank log s ∧
      (log.filter (·.editorId = some "")).getLast? = some r := by
  have hopens : ((open? unnamed { edition := some .oblivion } none).toOption.map fun x =>
      let s := after (x.1.perform (.records .GLOB)) (after (x.1.perform (.records .MISC)) x.2)
      (x.1.resolve? s none (.editorId "")).map (·.form)) = some (some ⟨7⟩) := by
    decide +kernel
  obtain ⟨⟨plugin, s₀⟩, hopen, hlead⟩ := exists_eq_ok_of_map hopens
  obtain ⟨r, hr, hform⟩ := Option.map_eq_some_iff.mp hlead
  have hreach : plugin.Reaches s₀ _ := (Reaches.refl.step (.records .MISC)).step (.records .GLOB)
  obtain ⟨hgroups, -, -, log, H, hlast⟩ :=
    (null_reference_leads_iff hopen hreach rfl none r).mp hr
  exact ⟨plugin, s₀, _, r, log, hopen, hreach, rfl, hr, hform, hgroups, H, hlast⟩

/-- A null reference may lead to a record. -/
theorem exists_null_reference_leads :
    ∃ image options plugin s₀ s reference, open? image options none = .ok (plugin, s₀) ∧
      plugin.Reaches s₀ s ∧ FormRef.isNull reference ∧
      (plugin.resolve? s none reference).isSome := by
  have hopens : ((open? unnamed { edition := some .oblivion } none).toOption.map fun x =>
      (x.1.resolve? (after (x.1.perform (.records .GLOB)) x.2) none (.editorId "")).isSome) =
        some true := by
    decide +kernel
  obtain ⟨⟨plugin, s₀⟩, hopen, hlead⟩ := exists_eq_ok_of_map hopens
  exact ⟨unnamed, _, plugin, s₀, _, .editorId "", hopen, Reaches.refl.step (.records .GLOB), rfl,
    hlead⟩

/-! ## Interior positions -/

/-- **An interior position leads nowhere in a file with groups, and elsewhere to what lies at its
coordinates.** A file without groups takes the position for one of a world: the last exterior cell
with its coordinates is found, and the last land. An interior cell is never found. -/
theorem interior_position_query (hopen : open? image options length? = .ok (plugin, s₀))
    (x y : Int32) (s : Session) :
    (s₀.context.schema.hasGroups ∧
      plugin.query (.cell (.interior x y)) s = .ok none s ∧
      plugin.query (.land (.interior x y)) s = .ok none s) ∨
    (s₀.context.schema = .tes3 ∧ ∃ cs rs,
      Chunk.Trail image .tes3 (length?.getD image.size) cs plugin.root.header.stop ∧
      Source.ReadsAll ⟨image, s₀.context, options⟩ cs ∧
      rs = (cs.filterMap Chunk.record?).filterMap
        (Source.record? ⟨image, s₀.context, options⟩) ∧
      plugin.query (.cell (.interior x y)) s =
        .ok (rs.filter (·.isExteriorAt (.interior x y))).getLast? s ∧
      plugin.query (.land (.interior x y)) s =
        .ok (rs.filter (·.isLandAt (.interior x y))).getLast? s) := by
  by_cases hgroups : s₀.context.schema.hasGroups
  · obtain ⟨hflat, -⟩ := rooted_tops_of_open? hopen hgroups
    have hin : (GridPosition.interior x y).isInterior := by
      simp [GridPosition.interior, GridPosition.isInterior]
    exact .inl ⟨hgroups, query_cell_interior hflat hin s, query_land_interior hflat hin s⟩
  · obtain ⟨hschema, cs, htrail, hreads, htables⟩ := exists_trail_of_flat hopen hgroups
    exact .inr ⟨hschema, cs, _, htrail, hreads, rfl, query_of_flat htables _ s,
      query_of_flat htables _ s⟩

/-- The cell and the land at `(1, 2)` are found without a world. -/
theorem interior_position_query_flatCells :
    ∃ plugin s cs rs, open? flatCells { edition := some .morrowind } none = .ok (plugin, s) ∧
      s.context.schema = .tes3 ∧
      Chunk.Trail flatCells .tes3 flatCells.size cs plugin.root.header.stop ∧
      rs = (cs.filterMap Chunk.record?).filterMap
        (Source.record? ⟨flatCells, s.context, { edition := some .morrowind }⟩) ∧
      plugin.query (.cell (.interior 1 2)) s =
        .ok (rs.filter (·.isExteriorAt (.interior 1 2))).getLast? s ∧
      (rs.filter (·.isExteriorAt (.interior 1 2))).getLast?.any (·.header.position = 141) ∧
      plugin.query (.land (.interior 1 2)) s =
        .ok (rs.filter (·.isLandAt (.interior 1 2))).getLast? s ∧
      (rs.filter (·.isLandAt (.interior 1 2))).getLast?.any (·.header.position = 177) := by
  have hopens : ((open? flatCells { edition := some .morrowind } none).toOption.map fun x =>
      (((x.1.query (.cell (.interior 1 2))).run' x.2).any (·.any (·.header.position = 141)),
        ((x.1.query (.land (.interior 1 2))).run' x.2).any (·.any (·.header.position = 177)))) =
      some (true, true) := by
    decide +kernel
  obtain ⟨⟨plugin, s⟩, hopen, hfacts⟩ := exists_eq_ok_of_map hopens
  simp only [Prod.mk.injEq] at hfacts
  obtain ⟨hcell, hland⟩ := hfacts
  obtain ⟨-, hnone, -⟩ | ⟨hschema, cs, rs, htrail, -, hrs, hcells, hlands⟩ :=
    interior_position_query hopen 1 2 s
  · simp [Session.run'_of_eq_ok hnone] at hcell
  · simp only [Session.run'_of_eq_ok hcells, Option.any_some] at hcell
    simp only [Session.run'_of_eq_ok hlands, Option.any_some] at hland
    exact ⟨plugin, s, cs, rs, hopen, hschema, htrail, hrs, hcells, hcell, hlands, hland⟩

/-- An interior position may lead to a cell and to a land. -/
theorem exists_interior_position_found :
    ∃ image options plugin s x y, open? image options none = .ok (plugin, s) ∧
      ((plugin.query (.cell (.interior x y))).run' s).any (·.isSome) ∧
      ((plugin.query (.land (.interior x y))).run' s).any (·.isSome) := by
  have hopens : ((open? flatCells { edition := some .morrowind } none).toOption.map fun x =>
      (((x.1.query (.cell (.interior 1 2))).run' x.2).any (·.isSome),
        ((x.1.query (.land (.interior 1 2))).run' x.2).any (·.isSome))) = some (true, true) := by
    decide +kernel
  obtain ⟨⟨plugin, s⟩, hopen, hfacts⟩ := exists_eq_ok_of_map hopens
  simp only [Prod.mk.injEq] at hfacts
  exact ⟨flatCells, _, plugin, s, 1, 2, hopen, hfacts⟩

end Plugin

end GamePlugin
