import GamePlugin.Proofs.Series

/-!
# Elements and what belongs to them

The lists that records build up field by field: the effects of magic, the lines of a response, the
stages and objectives of a quest, the entries of a leveled list, the relations and ranks of a
faction, the layers of a land and the masters of a plugin. Each is a `Series`. In a few of them
only some schemas build the list so, since in the others one field holds a whole element.

Figures of an effect and texts of a response make an element of their own if there is none. In all
other lists such a field is lost.

## Main definitions

* `Field.valueAt`, `Field.wholeText`, `Field.wholeDisplayText` — what a field holds.
* `Effect.series`, `Info.responseSeries`, `Quest.stageSeries`, `Quest.objectiveSeries`,
  `LeveledList.series`, `Faction.relationSeries`, `Faction.rankSeries`, `Land.layerSeries`,
  `Root.masterSeries` — the series.
-/

namespace GamePlugin

open GamePlugin.Field Field.Reader

variable {α β : Type}

/-! ## What a field holds -/

namespace Field

/-- The value of a layout `k` bytes into the field. -/
def valueAt (f : Field) (k : Nat) (l : Layout α) : α := l.parse ((f.place k).rest.take l.size)

/-- The field as a text. -/
def wholeText (f : Field) : String := Text.decode f.payload

/-- The field as a text for display. -/
def wholeDisplayText (f : Field) : DisplayText :=
  if f.context.localized && f.size == 4 then .entry (f.valueAt 0 .word32) else .text f.wholeText

theorem rest_place_zero (f : Field) : (f.place 0).rest = f.payload := rfl

namespace Reader

variable {f : Field}

theorem grants_displayText (Q : DisplayText → Cursor → Prop) :
    Grants displayText f (f.place 0) Q ↔ Q f.wholeDisplayText (f.place f.size) := by
  have hends : Ends displayText f (f.place 0) fun t c =>
      t = f.wholeDisplayText ∧ c = f.place f.size := by
    simp only [displayText, wholeDisplayText, ends_bind, ends_read, ends_remaining, ends_ite]
    by_cases hentry : f.context.localized && f.size == 4
    · have hsize : f.size = 4 := by simpa using (Bool.and_eq_true_iff.mp hentry).2
      simp only [Nat.sub_zero, if_pos hentry]
      simp [word32, valueAt, hsize]
    · simp only [Nat.sub_zero, if_neg hentry]
      simp [text, wholeText, rest_place_zero]
  obtain ⟨_, _, hread, rfl, rfl⟩ := hends
  exact grants_of_ok hread

end Reader

end Field

/-! ## The latest element -/

theorem toList_modifyLast (xs : Array α) (g : α → α) :
    (modifyLast xs g).toList = xs.toList.dropLast ++ (xs.back?.map g).toList := by
  by_cases h : xs = #[]
  · subst h
    rfl
  · obtain ⟨ys, a, rfl⟩ := Array.exists_push_of_ne_empty h
    simp [modifyLast_push]

/-- A change of the last element that makes one if there is none. -/
theorem toList_modifyLast_of_default (xs : Array α) (a : α) (g : α → α) :
    (if xs.isEmpty then #[g a] else modifyLast xs g).toList =
      xs.toList.dropLast ++ ((xs.back?.or (some a)).map g).toList := by
  by_cases h : xs = #[]
  · subst h
    rfl
  · obtain ⟨ys, a, rfl⟩ := Array.exists_push_of_ne_empty h
    simp [modifyLast_push]

theorem Effect.toList_setLatest (xs : Array Effect) (id : EffectId) (g : Effect → Effect) :
    (setLatest id g xs).toList =
      xs.toList.dropLast ++ ((xs.back?.or (some { id })).map g).toList :=
  toList_modifyLast_of_default xs { id } g

theorem Info.toList_changeLatest (n : Info) (g : Response → Response) :
    (n.changeLatest g).responses.toList =
      n.responses.toList.dropLast ++ ((n.responses.back?.or (some {})).map g).toList :=
  toList_modifyLast_of_default n.responses {} g

/-! ## Series -/

namespace Effect

/-- Figures as whole numbers, `k` bytes into the field. -/
def withFigures (f : Field) (k : Nat) (effect : Effect) : Effect :=
  { effect with
    magnitude := Single.ofUInt32 (f.valueAt k .word32)
    area := f.valueAt (k + 4) .word32
    duration := f.valueAt (k + 8) .word32
    range := some (f.valueAt (k + 12) .word32)
    actorValue := some (f.valueAt (k + 16) .int32) }

/-- The skill that is affected, or else the attribute. -/
def affected (skill governing : Int8) : Int32 :=
  (if 0 ≤ skill then skill else governing).toInt32

/-- The effect that one field holds. -/
def ofField (f : Field) : Effect :=
  { id := .index (f.valueAt 0 .word16)
    magnitude := Single.ofInt32 (f.valueAt 16 .int32)
    magnitudeMax := some (Single.ofInt32 (f.valueAt 20 .int32))
    area := clampWord (f.valueAt 8 .int32)
    duration := clampWord (f.valueAt 12 .int32)
    range := some (clampWord (f.valueAt 4 .int32))
    actorValue := some (affected (f.valueAt 2 .byte).toInt8 (f.valueAt 3 .byte).toInt8) }

/-- Effects of spells, enchantments, potions and ingredients. -/
def series : Series Effect where
  list?
    | .spell b => some b.effects.toList
    | .enchantment b => some b.effects.toList
    | .potion b => some b.effects.toList
    | .ingredient b => some b.effects.toList
    | _ => none
  starts :=
    [{ tag := .ENAM, sizes := .exactly 24, schemas := [.tes3] },
      { tag := .EFID, sizes := .exactly 4, schemas := [.tes4] },
      { tag := .EFID, sizes := .exactly 4, schemas := [.tes5] }]
  start f :=
    match f.context.schema with
    | .tes3 => ofField f
    | .tes4 => { id := .code ⟨f.valueAt 0 .word32⟩ }
    | .tes5 => { id := .form ⟨f.valueAt 0 .word32⟩ }
  follows :=
    [{ tag := .EFIT, sizes := .exactly 24, schemas := [.tes4] },
      { tag := .EFIT, sizes := .exactly 20, schemas := [.tes5] },
      { tag := .EFIT, sizes := .exactly 12, schemas := [.tes5] }]
  follow f effect :=
    if f.size = 24 then effect.withFigures f 4
    else if f.size = 20 then effect.withFigures f 0
    else
      { effect with
        magnitude := f.valueAt 0 .single
        area := f.valueAt 4 .word32
        duration := f.valueAt 8 .word32 }
  default? f :=
    if f.context.schema = .tes4 then some { id := .code ⟨f.valueAt 0 .word32⟩ }
    else some { id := .form .none }

end Effect

/-- Responses of a line, in the newer schemas. -/
def Info.responseSeries : Series Response where
  list?
    | .info n => some n.responses.toList
    | _ => none
  schemas := [.tes4, .tes5]
  starts := [{ tag := .TRDT, sizes := .oneOf [20, 24] }]
  start f :=
    { emotion := f.valueAt 0 .word32
      emotionValue := f.valueAt 4 .int32
      number := f.valueAt 12 .byte }
  follows := [{ tag := .NAM1 }, { tag := .NAM2 }]
  follow f response :=
    if f.tag = .NAM1 then { response with text := some f.wholeDisplayText }
    else { response with notes := some f.wholeText }
  default? _ := some {}

/-- Stages of a quest. -/
def Quest.stageSeries : Series QuestStage where
  list?
    | .quest q => some q.stages.toList
    | _ => none
  starts := [{ tag := .INDX, sizes := .exactly 2 }, { tag := .INDX, sizes := .exactly 4 }]
  start f :=
    { index := f.valueAt 0 .int16, flags := if f.size = 4 then f.valueAt 2 .byte else 0 }
  follows := [{ tag := .QSDT, sizes := .exactly 1 }, { tag := .CNAM }]
  follow f stage :=
    if f.tag = .QSDT then { stage with flags := f.valueAt 0 .byte }
    else { stage with logEntries := stage.logEntries.push f.wholeDisplayText }

/-- Objectives of a quest. -/
def Quest.objectiveSeries : Series QuestObjective where
  list?
    | .quest q => some q.objectives.toList
    | _ => none
  starts := [{ tag := .QOBJ, sizes := .exactly 2 }, { tag := .QOBJ, sizes := .exactly 4 }]
  start f :=
    { index := if f.size = 2 then (f.valueAt 0 .word16).toUInt32.toInt32 else f.valueAt 0 .int32 }
  follows := [{ tag := .NNAM }]
  follow f objective := { objective with text := some f.wholeDisplayText }

namespace LeveledList

/-- Entries of a leveled list that are started by a name, in the oldest schema. -/
def namedSeries : Series LeveledEntry where
  list?
    | .leveledList l => some l.entries.toList
    | _ => none
  schemas := [.tes3]
  starts := [{ tag := .CNAM }, { tag := .INAM }]
  start f := ⟨0, .editorId f.wholeText, 1⟩
  follows := [{ tag := .INTV, sizes := .exactly 2 }]
  follow f entry := { entry with level := f.valueAt 0 .word16 }

/-- Entries of a leveled list in the oldest schema. The field that holds a whole entry in the other
schemas does so here too. -/
def series : Series LeveledEntry :=
  { namedSeries with
    starts := namedSeries.starts ++
      [{ tag := .LVLO, sizes := .exactly 8 }, { tag := .LVLO, sizes := .exactly 12 }]
    start := fun f =>
      if f.tag = .LVLO then
        { level := clampHalf (f.valueAt 0 .int16)
          item := .id ⟨f.valueAt 4 .word32⟩
          count := if f.size = 12 then clampHalf (f.valueAt 8 .int16) else 1 }
      else namedSeries.start f }

end LeveledList

/-- Relations of a faction, in the oldest schema. -/
def Faction.relationSeries : Series FactionRelation where
  list?
    | .faction g => some g.relations.toList
    | _ => none
  schemas := [.tes3]
  starts := [{ tag := .ANAM }]
  start f := { faction := .editorId f.wholeText }
  follows := [{ tag := .INTV, sizes := .exactly 4 }]
  follow f relation := { relation with modifier := f.valueAt 0 .int32 }

/-- Ranks of a faction, in the newer schemas. -/
def Faction.rankSeries : Series FactionRank where
  list?
    | .faction g => some g.ranks.toList
    | _ => none
  schemas := [.tes4, .tes5]
  starts := [{ tag := .RNAM, sizes := .exactly 4 }]
  start f := { number := f.valueAt 0 .int32 }
  follows := [{ tag := .MNAM }, { tag := .FNAM }]
  follow f rank :=
    if f.tag = .MNAM then { rank with maleTitle := some f.wholeText }
    else { rank with femaleTitle := some f.wholeText }

/-- Layers of a land. -/
def Land.layerSeries : Series LandLayer where
  list?
    | .land l => some l.layers.toList
    | _ => none
  starts := [{ tag := .BTXT, sizes := .exactly 8 }, { tag := .ATXT, sizes := .exactly 8 }]
  start f :=
    { texture := ⟨f.valueAt 0 .word32⟩
      quadrant := f.valueAt 4 .byte
      layer := if f.tag = .ATXT then some (f.valueAt 6 .word16) else none }
  follows := [{ tag := .VTXT, sizes := .multipleOf 8 }]
  follow f layer := { layer with alpha := (Layout.opacity.split f.payload).1 }

/-- Masters of a plugin. -/
def Root.masterSeries : Series Master where
  list?
    | .root r => some r.masters.toList
    | _ => none
  starts := [{ tag := .MAST }]
  start f := { name := f.wholeText }
  follows := [{ tag := .DATA, sizes := .exactly 8 }]
  follow f master :=
    { master with size := some (Root.joined (f.valueAt 0 .word32) (f.valueAt 4 .word32)) }

/-! ## Tables -/

theorem Schema.mem_all {schema : Schema} : schema ∈ [Schema.tes3, .tes4, .tes5] ↔ True :=
  iff_true_intro (by cases schema <;> decide)

-- What `simp` follows through a field, as for the fields that do not fit, and what a series says of
-- a field whose tag, size and schema are known.
attribute [local simp] byte int8 word16 int16 word32 int32 single formId Field.Reader.tag fixedText
  text idRef nameRef skip_eq skipRest_eq Sizes.allow Rule.on Rule.onTes3
  Rule.onSchema Rule.onGrouped Series.step Series.begins Series.continues Key.fits valueAt wholeText
  rest_place_zero toList_modifyLast grants_displayText Effect.toList_setLatest
  Info.toList_changeLatest

attribute [local simp ↓] Rule.builds_some_map Rule.builds_mk Schema.mem_all

theorem Effect.toInt32_ite (skill governing : Int8) :
    (if 0 ≤ skill then skill else governing).toInt32 = affected skill governing := rfl

theorem Effect.builds : ∀ r ∈ rules, r.Builds series fun effects => effects := by
  simp +contextual +decide [or_imp, rules, series, ofField, toInt32_ite, wholeFigures, withFigures]

theorem Info.builds : ∀ r ∈ rules, r.Builds responseSeries (·.responses) := by
  refine List.forall_mem_append.mpr ⟨?_, Rule.forall_builds_within (fun _ _ => rfl) ?_⟩
  · simp +contextual +decide [or_imp, tes3Rules, groupedRules, responseSeries]
  · decide

theorem Quest.builds_stages : ∀ r ∈ rules, r.Builds stageSeries (·.stages) := by
  refine List.forall_mem_append.mpr ⟨?_, Rule.forall_builds_within (fun _ _ => rfl) ?_⟩
  · simp +contextual +decide [or_imp, stageSeries, readObjectiveText]
  · decide

theorem Quest.builds_objectives : ∀ r ∈ rules, r.Builds objectiveSeries (·.objectives) := by
  refine List.forall_mem_append.mpr ⟨?_, Rule.forall_builds_within (fun _ _ => rfl) ?_⟩
  · simp +contextual +decide [or_imp, objectiveSeries, readObjectiveText]
  · decide

theorem LeveledList.builds : ∀ r ∈ rules, r.Builds series (·.entries) := by
  refine List.forall_mem_append.mpr ⟨?_, Rule.forall_builds_within (fun _ _ => rfl) ?_⟩
  · simp +contextual +decide [or_imp, series, namedSeries, readName, ref]
  · decide

theorem Faction.builds_relations : ∀ r ∈ rules, r.Builds relationSeries (·.relations) := by
  refine List.forall_mem_append.mpr ⟨?_, Rule.forall_builds_within (fun _ _ => rfl) ?_⟩
  · simp +contextual +decide [or_imp, forall_and, relationSeries, readTitle, ref]
  · decide

theorem Faction.builds_ranks : ∀ r ∈ rules, r.Builds rankSeries (·.ranks) := by
  refine List.forall_mem_append.mpr ⟨?_, Rule.forall_builds_within (fun _ _ => rfl) ?_⟩
  · simp +contextual +decide [or_imp, rankSeries, readTitle]
  · decide

theorem Land.builds : ∀ r ∈ rules, r.Builds layerSeries (·.layers) := by
  simp +contextual +decide [or_imp, rules, layerSeries, readLayer, readHeights]

theorem Root.builds : ∀ r ∈ rules, r.Builds masterSeries (·.masters) := by
  simp +contextual +decide [or_imp, rules, masterSeries]

/-! ## Effects of the bodies that have some -/

namespace Effect

theorem covered : series.Covered rules := by decide

/-- A body with effects and an identity, whose own fields have nothing to do with the effects. -/
theorem list_of_takes {rules own : List (Rule β)} {effects : β → Array Effect}
    {putEffects : β → Array Effect → β} {identity : β → Identity} {putIdentity : β → Identity → β}
    (g : β → Body) (hlist : ∀ b, series.list? (g b) = some (effects b).toList)
    (hoffer : ∀ b, Body.offer (g b) = do return (← offerTo rules b).map g)
    (hrules : rules =
      own ++ rulesWithin effects putEffects ++ Identity.rulesWithin identity putIdentity)
    (heffects : ∀ b xs, effects (putEffects b xs) = xs)
    (hidentity : ∀ b i, effects (putIdentity b i) = effects b)
    (hown : ∀ r ∈ own, r.Builds series effects) {f : Field} {b : β} {b' : Body} {xs : List Effect}
    (hschema : f.context.schema ∈ series.schemas) (hxs : series.list? (g b) = some xs)
    (h : Fields.Takes (Offer.sink Body.offer) f (g b) b') :
    series.list? b' = some (series.step xs f) := by
  refine Series.list_of_takes g hlist hoffer ?_ ?_ hschema hxs h
  · rw [hrules]
    refine List.forall_mem_append.mpr ⟨List.forall_mem_append.mpr ⟨hown, ?_⟩, ?_⟩
    · exact List.forall_mem_map.mpr fun r hr => (builds r hr).within heffects
    · exact Rule.forall_builds_within hidentity (by decide)
  · intro k hk
    obtain ⟨r, hr, hrule⟩ := covered k hk
    have hmem : r.within effects putEffects ∈ rulesWithin effects putEffects :=
      List.mem_map_of_mem hr
    rw [hrules]
    exact ⟨_, List.mem_append_left _ (List.mem_append_right own hmem), hrule⟩

theorem governs : series.Governs := by
  refine Series.governs_of_step fun {f b b' xs} hschema hlist h => ?_
  cases b
  case spell b =>
    refine list_of_takes .spell (fun _ => rfl) (fun _ => rfl) rfl (fun _ _ => rfl) (fun _ _ => rfl)
      ?_ hschema hlist h
    simp +contextual +decide [or_imp, series]
  case enchantment b =>
    refine list_of_takes .enchantment (fun _ => rfl) (fun _ => rfl) rfl (fun _ _ => rfl)
      (fun _ _ => rfl) ?_ hschema hlist h
    simp +contextual +decide [or_imp, series]
  case potion b =>
    refine list_of_takes .potion (fun _ => rfl) (fun _ => rfl) rfl (fun _ _ => rfl)
      (fun _ _ => rfl) ?_ hschema hlist h
    simp +contextual +decide [or_imp, series]
  case ingredient b =>
    refine list_of_takes .ingredient (fun _ => rfl) (fun _ => rfl) rfl (fun _ _ => rfl)
      (fun _ _ => rfl) ?_ hschema hlist h
    simp +contextual +decide [or_imp, series]
  all_goals cases hlist

end Effect

/-! ## Lists of bodies of one shape -/

theorem Info.governs : responseSeries.Governs := by
  refine Series.governs_of_table .info (fun _ => rfl) (fun _ => rfl) ?_ builds ?_
  · intro b
    cases b <;> simp [responseSeries]
  · decide

theorem Quest.governs_stages : stageSeries.Governs := by
  refine Series.governs_of_table .quest (fun _ => rfl) (fun _ => rfl) ?_ builds_stages ?_
  · intro b
    cases b <;> simp [stageSeries]
  · decide

theorem Quest.governs_objectives : objectiveSeries.Governs := by
  refine Series.governs_of_table .quest (fun _ => rfl) (fun _ => rfl) ?_ builds_objectives ?_
  · intro b
    cases b <;> simp [objectiveSeries]
  · decide

theorem LeveledList.governs : series.Governs := by
  refine Series.governs_of_table .leveledList (fun _ => rfl) (fun _ => rfl) ?_ builds ?_
  · intro b
    cases b <;> simp [series, namedSeries]
  · decide

theorem Faction.governs_relations : relationSeries.Governs := by
  refine Series.governs_of_table .faction (fun _ => rfl) (fun _ => rfl) ?_ builds_relations ?_
  · intro b
    cases b <;> simp [relationSeries]
  · decide

theorem Faction.governs_ranks : rankSeries.Governs := by
  refine Series.governs_of_table .faction (fun _ => rfl) (fun _ => rfl) ?_ builds_ranks ?_
  · intro b
    cases b <;> simp [rankSeries]
  · decide

theorem Land.governs : layerSeries.Governs := by
  refine Series.governs_of_table .land (fun _ => rfl) (fun _ => rfl) ?_ builds ?_
  · intro b
    cases b <;> simp [layerSeries]
  · decide

theorem Root.governs : masterSeries.Governs := by
  refine Series.governs_of_table .root (fun _ => rfl) (fun _ => rfl) ?_ builds ?_
  · intro b
    cases b <;> simp [masterSeries]
  · decide

/-- **Fields belong to the latest element.** Every field that is accepted makes of each of these
lists what the list's series says. -/
theorem latest_elements :
    Effect.series.Governs ∧ Info.responseSeries.Governs ∧ Quest.stageSeries.Governs ∧
      Quest.objectiveSeries.Governs ∧ LeveledList.series.Governs ∧
      Faction.relationSeries.Governs ∧ Faction.rankSeries.Governs ∧ Land.layerSeries.Governs ∧
      Root.masterSeries.Governs :=
  ⟨Effect.governs, Info.governs, Quest.governs_stages, Quest.governs_objectives,
    LeveledList.governs, Faction.governs_relations, Faction.governs_ranks, Land.governs,
    Root.governs⟩

namespace LeveledList

/-- A whole entry, as the newer schemas store it. -/
def wholeEntry : Field := ⟨.LVLO, .LEVI, 16, .ofEdition .morrowind, [1, 0, 0, 0, 5, 0, 0, 0]⟩

/-- In the oldest schema too, a whole entry is added without a name. -/
theorem not_governs_named : ¬namedSeries.Governs := by
  intro h
  have heval : (Fields.offerField (Offer.sink Body.offer) wholeEntry
      Shape.leveledList.empty).toOption.isSome := by
    decide +kernel
  cases hread : Fields.offerField (Offer.sink Body.offer) wholeEntry Shape.leveledList.empty with
  | error e =>
    rw [hread] at heval
    cases heval
  | ok b =>
    have htakes := Fields.offerField_eq_ok_iff.mp hread
    have hschema : wholeEntry.context.schema ∈ [Schema.tes3] := by decide
    have hlist : series.list? Shape.leveledList.empty = some [] := rfl
    have hnone : namedSeries.list? b = some [] := h.step_of_takes hschema rfl htakes
    have hone : series.list? b = some [series.start wholeEntry] :=
      governs.step_of_takes hschema hlist htakes
    cases hone.symm.trans hnone

end LeveledList

end GamePlugin
