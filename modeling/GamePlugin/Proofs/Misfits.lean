import GamePlugin.Body
import GamePlugin.Proofs.FieldGrammar
import GamePlugin.Proofs.Tables

/-!
# Fields that do not fit

Every body takes its fields to the last byte or declines them, but for a few fields whose size its
table does not check. `Body.Misfit` names them, and the step of the field loop fails just there.

## Main definitions

* `Body.Misfit` — a field that a body cannot take.
-/

namespace GamePlugin

open GamePlugin.Field Field.Reader

-- What `simp` follows through a field: each reader takes a number of bytes or all that are left.
attribute [local simp] byte int8 word16 int16 word32 int32 single formId Field.Reader.tag fixedText
  text idRef nameRef skip_eq skipRest_eq ends_displayText ends_ref Drains Settles Sizes.allow
  Rule.fails_ref Rule.fails_formIds or_imp forall_and

attribute [local simp ↓] Rule.fails_iff_settles Rule.settles_on Rule.settles_onTes3
  Rule.settles_onGrouped Rule.settles_onSchema Rule.settles_mk

/-- In this form a least size is an equation for the size. -/
theorem Sizes.allow_atLeast {n size : Nat} : (atLeast n).allow size ↔ ∃ m, size = m + n := by
  simp only [allow, decide_eq_true_eq]
  exact ⟨fun h => ⟨size - n, by omega⟩, by omega⟩

variable {β : Type}

/-! ## Parts that bodies have in common -/

theorem ItemEntry.settles : ∀ r ∈ rules, r.Settles := by
  simp +contextual [rules]

theorem ItemEntry.fails_within {get : β → Array ItemEntry} {set : β → Array ItemEntry → β}
    {refs forms : List Tag} (htags : ∀ r ∈ rules, r.tag ∉ refs ∧ r.tag ∉ forms) :
    ∀ r ∈ rulesWithin get set, r.Fails (Strays refs forms) :=
  Rule.forall_fails_within (fun r hr => (Rule.fails_iff_settles (htags r hr).1 (htags r hr).2).mpr
    (settles r hr)) get set

theorem Effect.fails_within {get : β → Array Effect} {set : β → Array Effect → β} :
    ∀ r ∈ rulesWithin get set, r.Fails (Strays [.SCRI] [.KWDA]) := by
  refine Rule.forall_fails_within ?_ get set
  simp +contextual +decide [rules, wholeFigures]

namespace Identity

variable {get : β → Identity} {set : β → Identity → β} {own : List (Rule β)}
  {refs forms : List Tag}

theorem fails : ∀ r ∈ rules, r.Fails (Strays [.SCRI] [.KWDA]) := by
  simp +contextual +decide [rules, Layout.bounds, Layout.corner]

theorem fails_within (htags : ∀ t ∈ refs ++ forms, ∀ r ∈ rules, r.tag ≠ t) :
    ∀ r ∈ rulesWithin get set, r.Fails (Strays (.SCRI :: refs) (.KWDA :: forms)) := by
  refine Rule.forall_fails_within (fun r hr => (fails r hr).congr fun f happlies => ?_) get set
  have htag : r.tag ∉ refs ++ forms := fun ht => htags r.tag ht r hr rfl
  obtain ⟨hrefs, hforms⟩ := not_or.mp (mt List.mem_append.mpr htag)
  simp [Strays, Rule.tag_eq_of_applies happlies, hrefs, hforms]

theorem exists_takesAll {t : Tag} (ht : t = .SCRI ∨ t = .KWDA) :
    ∃ r ∈ rules, r.tag = t ∧ r.takesAll := by
  rcases ht with rfl | rfl <;> decide

/-- The table of a body that has an identity. Its own rules come first. -/
theorem fails_append (hown : ∀ r ∈ own, r.Fails (Strays (.SCRI :: refs) (.KWDA :: forms)))
    (htags : ∀ t ∈ refs ++ forms,
      (∃ r ∈ own, r.tag = t ∧ r.takesAll) ∧ ∀ r ∈ rules, r.tag ≠ t) :
    Table.Fails (own ++ rulesWithin get set) (Strays (.SCRI :: refs) (.KWDA :: forms)) := by
  refine Table.fails_strays (List.forall_mem_append.mpr
    ⟨hown, fails_within fun t ht => (htags t ht).2⟩) fun t ht => ?_
  have hcases : (t = .SCRI ∨ t = .KWDA) ∨ t ∈ refs ++ forms := by
    simp only [List.mem_append, List.mem_cons] at ht ⊢
    grind
  rcases hcases with ht | ht
  · obtain ⟨r, hr, htag, htakes⟩ := exists_takesAll ht
    exact ⟨r.within get set, List.mem_append_right own (List.mem_map_of_mem hr), htag, htakes⟩
  · obtain ⟨r, hr, hrt⟩ := (htags t ht).1
    exact ⟨r, List.mem_append_left _ hr, hrt⟩

end Identity

/-! ## Bodies with an identity -/

theorem Plain.fails : Table.Fails rules (Strays [.SCRI] [.KWDA]) :=
  Identity.fails_append (List.forall_mem_nil _) (by simp)

theorem Class.fails : Table.Fails rules (Strays [.SCRI] [.KWDA]) := by
  refine Identity.fails_append ?_ (by simp)
  simp +contextual +decide [Layout.classData]

theorem Faction.fails : Table.Fails rules (Strays [.SCRI] [.KWDA]) := by
  refine Identity.fails_append ?_ (by simp)
  simp +contextual +decide [Faction.readTitle]

theorem Race.fails : Table.Fails rules (Strays [.SCRI] [.KWDA]) := by
  refine Identity.fails_append ?_ (by simp)
  simp +contextual +decide [Layout.raceData, Layout.skillBonus]

theorem Birthsign.fails : Table.Fails rules (Strays [.SCRI] [.KWDA]) := by
  refine Identity.fails_append ?_ (by simp)
  simp +contextual +decide

theorem Skill.fails : Table.Fails rules (Strays [.SCRI] [.KWDA]) := by
  refine Identity.fails_append ?_ (by simp)
  simp +contextual +decide

theorem Sound.fails : Table.Fails rules (Strays [.SCRI] [.KWDA]) := by
  refine Identity.fails_append ?_ (by simp)
  simp +contextual +decide

theorem MagicEffect.fails : Table.Fails rules (Strays [.SCRI] [.KWDA]) := by
  refine Identity.fails_append ?_ (by simp)
  simp +contextual +decide [↓Sizes.allow_atLeast]

theorem Script.fails : Table.Fails rules (Strays [.SCRI] [.KWDA]) := by
  refine Identity.fails_append ?_ (by simp)
  simp +contextual +decide

theorem LandTexture.fails : Table.Fails rules (Strays [.SCRI] [.KWDA]) := by
  refine Identity.fails_append ?_ (by simp)
  simp +contextual +decide

theorem Ammo.fails : Table.Fails rules (Strays [.SCRI] [.KWDA]) := by
  refine Identity.fails_append ?_ (by simp)
  simp +contextual +decide

theorem Item.fails : Table.Fails rules (Strays [.SCRI] [.KWDA]) := by
  refine Identity.fails_append ?_ (by simp)
  simp +contextual +decide [Item.readPick]

theorem FormList.fails : Table.Fails rules (Strays [.SCRI] [.KWDA]) := by
  refine Identity.fails_append ?_ (by simp)
  simp +contextual +decide

theorem LeveledList.fails : Table.Fails rules (Strays [.SCRI] [.KWDA]) := by
  refine Identity.fails_append ?_ (by simp)
  simp +contextual +decide [LeveledList.readName]

theorem Worldspace.fails : Table.Fails rules (Strays [.SCRI] [.KWDA]) := by
  refine Identity.fails_append ?_ (by simp)
  simp +contextual +decide [Layout.planar]

theorem Region.fails : Table.Fails rules (Strays [.SCRI] [.KWDA]) := by
  refine Identity.fails_append ?_ (by simp)
  simp +contextual +decide [Layout.color, Layout.planar]

theorem PathGrid.fails : Table.Fails rules (Strays [.SCRI] [.KWDA]) := by
  refine Identity.fails_append ?_ (by simp)
  simp +contextual +decide [Layout.wholePathPoint, Layout.pathPoint, Layout.point]

theorem Topic.fails : Table.Fails rules (Strays [.SCRI] [.KWDA]) := by
  refine Identity.fails_append ?_ (by simp)
  simp +contextual +decide [Topic.readKind]

theorem Info.fails : Table.Fails rules (Strays [.SCRI] [.KWDA]) := by
  refine Identity.fails_append ?_ (by simp)
  simp +contextual +decide [Info.tes3Rules, Info.groupedRules, Condition.read, ↓Sizes.allow_atLeast]

theorem Quest.fails : Table.Fails rules (Strays [.SCRI] [.KWDA]) := by
  refine Identity.fails_append ?_ (by simp)
  simp +contextual +decide [Quest.readObjectiveText, Condition.read, ↓Sizes.allow_atLeast]

theorem Spell.fails : Table.Fails rules (Strays [.SCRI] [.KWDA]) := by
  refine Identity.fails_append (List.forall_mem_append.mpr ⟨?_, Effect.fails_within⟩) (by simp)
  simp +contextual +decide

theorem Enchantment.fails : Table.Fails rules (Strays [.SCRI] [.KWDA]) := by
  refine Identity.fails_append (List.forall_mem_append.mpr ⟨?_, Effect.fails_within⟩) (by simp)
  simp +contextual +decide

theorem Potion.fails : Table.Fails rules (Strays [.SCRI] [.KWDA]) := by
  refine Identity.fails_append (List.forall_mem_append.mpr ⟨?_, Effect.fails_within⟩) (by simp)
  simp +contextual +decide

theorem Ingredient.fails : Table.Fails rules (Strays [.SCRI] [.KWDA]) := by
  refine Identity.fails_append (List.forall_mem_append.mpr ⟨?_, Effect.fails_within⟩) (by simp)
  simp +contextual +decide

theorem Container.fails : Table.Fails rules (Strays [.SCRI] [.KWDA]) := by
  refine Identity.fails_append
    (List.forall_mem_append.mpr ⟨ItemEntry.fails_within (by decide), ?_⟩) (by simp)
  simp +contextual +decide

theorem TextureSet.fails : Table.Fails rules (Strays [.SCRI] [.KWDA]) := by
  have hslots : ∀ slot, slots.get slot ≠ .SCRI ∧ slots.get slot ≠ .KWDA := by decide
  refine Identity.fails_append (List.forall_mem_append.mpr ⟨?_, ?_⟩) (by simp)
  · simp +contextual [hslots]
  · simp +contextual +decide

/-- Weathers are read if they fill their field, and else the field is declined. -/
theorem Climate.settles_readWeathers (c : Climate) (f : Field) : Settles (c.readWeathers) f := by
  simp only [Settles, readWeathers, ends_bind, ends_read, ends_ite]
  split
  case isTrue => simp
  case isFalse hfull => simp [Decidable.of_not_not hfull]

theorem Climate.fails : Table.Fails rules (Strays [.SCRI] [.KWDA]) := by
  refine Identity.fails_append ?_ (by simp)
  simp +contextual +decide [Climate.settles_readWeathers, -Field.Reader.Settles]

/-! ## Bodies without an identity -/

theorem Root.fails : Table.Fails rules (Strays [] [.ONAM]) := by
  refine Table.fails_strays ?_ (by decide)
  simp +contextual +decide [rules]

/-- A value fills its field, or the field is declined. -/
theorem GameSetting.ends_readValue (s : GameSetting) (f : Field) :
    Ends s.readValue f (f.place 0) fun value c => value = none ∨ c = f.place f.size := by
  simp only [readValue, ends_bind, ends_read]
  split <;> simp +contextual

theorem GameSetting.fails : Table.Fails rules (Strays [] []) := by
  refine Table.fails_strays ?_ (by simp)
  simp +contextual [rules, ends_readValue]

theorem Global.fails : Table.Fails rules (Strays [] []) := by
  refine Table.fails_strays ?_ (by simp)
  simp +contextual [rules]

theorem Land.fails : Table.Fails rules (Strays [] []) := by
  refine Table.fails_strays ?_ (by simp)
  simp +contextual [rules, readHeights, readLayer, Layout.opacity]

theorem Reference.fails : Table.Fails rules (Strays [] []) := by
  refine Table.fails_strays ?_ (by simp)
  simp +contextual [rules, Layout.placement, Layout.point]

theorem CellReference.fails : Table.Fails rules (Strays [] []) := by
  refine Table.fails_strays ?_ (by simp)
  simp +contextual [rules, Layout.placement, Layout.point]

/-! ## Bodies with more references and form ids -/

theorem Weapon.fails : Table.Fails rules (Strays [.SCRI, .ENAM] [.KWDA]) := by
  refine Identity.fails_append ?_ (by decide)
  simp +contextual +decide

theorem Armor.fails : Table.Fails rules (Strays [.SCRI, .ENAM] [.KWDA]) := by
  refine Identity.fails_append ?_ (by decide)
  simp +contextual +decide

theorem Clothing.fails : Table.Fails rules (Strays [.SCRI, .ENAM] [.KWDA]) := by
  refine Identity.fails_append ?_ (by decide)
  simp +contextual +decide

theorem Book.fails : Table.Fails rules (Strays [.SCRI, .ENAM] [.KWDA]) := by
  refine Identity.fails_append ?_ (by decide)
  simp +contextual +decide

theorem Light.fails : Table.Fails rules (Strays [.SCRI, .SNAM] [.KWDA]) := by
  refine Identity.fails_append ?_ (by decide)
  simp +contextual +decide [Light.readShine, Light.readCone, Light.readWorth, Layout.color]

theorem Door.fails : Table.Fails rules (Strays [.SCRI, .SNAM, .ANAM] [.KWDA]) := by
  refine Identity.fails_append ?_ (by decide)
  simp +contextual +decide

theorem Cell.fails : Table.Fails rules (Strays [.SCRI] [.KWDA, .XCLR]) := by
  refine Identity.fails_append ?_ (by decide)
  simp +contextual +decide [Cell.startReference, Layout.color]

/-! ## Actors -/

/-- Figures of 96 bytes, in the oldest schema, of a record that is no creature. -/
def Field.UnknownFigures (f : Field) : Prop :=
  f.tag = .NPDT ∧ f.context.schema = .tes3 ∧ f.size = 96 ∧ f.record ≠ .CREA

namespace Actor

/-- Only a creature has figures of 96 bytes; any other record reads 12 of them. -/
theorem fails_readWideStats :
    (Rule.onTes3 .NPDT (.exactly 96) readWideStats).Fails UnknownFigures := by
  intro a f happlies
  obtain ⟨htag, hschema, hsize⟩ := Rule.applies_iff.mp happlies
  simp only [Rule.onTes3, List.mem_singleton, Sizes.allow, decide_eq_true_eq] at htag hschema hsize
  simp only [UnknownFigures, htag, hschema, hsize, true_and, ne_eq, Decidable.not_not]
  refine ⟨fun hrecord => ?_, fun hrecord => settles_some_map.mpr ?_⟩
  · have hshort : Ends (readWideStats a) f (f.place 0) fun _ c => c = f.place 12 := by
      simp [readWideStats, readShortStats, hrecord, hsize]
    obtain ⟨a', c, hread, rfl⟩ := hshort
    exact .unread (map_of_ok hread _) (by simp [hsize])
  · simp [readWideStats, readCreatureStats, hrecord, hsize]

theorem fails_of_tag_eq : ∀ r ∈ rules, r.tag = .NPDT → r.Fails UnknownFigures := by
  have hfilter : rules.filter (·.tag = .NPDT) = [.onTes3 .NPDT (.exactly 12) readShortStats,
    .onTes3 .NPDT (.exactly 52) readLongStats, .onTes3 .NPDT (.exactly 96) readWideStats] := rfl
  have hshort : (Rule.onTes3 .NPDT (.exactly 12) readShortStats).Settles := by
    simp +contextual [readShortStats]
  have hlong : (Rule.onTes3 .NPDT (.exactly 52) readLongStats).Settles := by
    simp +contextual [readLongStats]
  have hforall : ∀ r ∈ rules.filter (·.tag = .NPDT), r.Fails UnknownFigures := by
    simp only [hfilter, List.forall_mem_cons]
    refine ⟨hshort.fails ?_, hlong.fails ?_, fails_readWideStats, List.forall_mem_nil _⟩
    all_goals simp +contextual [Rule.applies_iff, UnknownFigures, Rule.onTes3]
  intro r hr htag
  exact hforall r (List.mem_filter.mpr ⟨hr, by simpa using htag⟩)

theorem fails_of_tag_ne :
    ∀ r ∈ rules, r.tag ≠ .NPDT → r.Fails (Strays [.SCRI, .RNAM, .CNAM] [.KWDA]) := by
  simp only [rules, List.forall_mem_append]
  refine ⟨⟨fun r hr _ => ItemEntry.fails_within (by decide) r hr, ?_⟩,
    fun r hr _ => Identity.fails_within (by decide) r hr⟩
  simp +contextual +decide [readLevels]

theorem fails : Table.Fails rules fun f =>
    f.Strays [.SCRI, .RNAM, .CNAM] [.KWDA] ∨ f.UnknownFigures := by
  refine Table.fails_of_forall_mem (fun r hr => ?_) fun f hf => ?_
  · by_cases htag : r.tag = .NPDT
    · refine (fails_of_tag_eq r hr htag).congr fun f happlies => ?_
      simp +decide [Strays, Rule.tag_eq_of_applies happlies, htag]
    · refine (fails_of_tag_ne r hr htag).congr fun f happlies => ?_
      simp [UnknownFigures, Rule.tag_eq_of_applies happlies, htag]
  · rcases hf with hf | ⟨htag, hschema, hsize, -⟩
    · exact Table.exists_applies_of_strays (by decide) hf
    · have hwide : ∃ r ∈ rules, r.tag = .NPDT ∧ .tes3 ∈ r.schemas ∧ r.sizes.allow 96 := by
        decide
      obtain ⟨r, hr, hrule⟩ := hwide
      refine ⟨r, hr, Rule.applies_iff.mpr ?_⟩
      rwa [htag, hschema, hsize, eq_comm]

end Actor

/-! ## Cells -/

namespace Cell

variable (c : Cell) {f : Field}

theorem offer_eq (f : Field) :
    offer c f = if c.belongsToReference f then offerToLatest c f else offerTo rules c f := by
  funext cur
  have hread : (read : Field.Reader Field) f cur = .ok f cur := rfl
  rw [offer, bind_of_ok hread]
  split <;> rfl

theorem settles_offerToLatest (f : Field) : Settles (offerToLatest c) f := by
  rw [offerToLatest]
  split
  case h_1 => simp
  case h_2 latest _ =>
    exact ((CellReference.fails latest f).2 (by simp [Strays])).map _

theorem belongsToReference_iff (htag : f.tag ≠ .FRMR) :
    c.belongsToReference f ↔ c.references ≠ #[] ∧ f.context.schema = .tes3 := by
  simp [belongsToReference, htag, and_comm]

end Cell

/-! ## The step of the field loop -/

namespace Field.Reader

variable {offer : Offer β} {b : β} {f : Field}

theorem Breaks.error_eq (h : Breaks (offer b) f) {e : Error} {c : Cursor}
    (herror : offer b f f.start = .error e c) :
    ∃ actual, e = .sizeMismatch f.record (some f.tag) f.offset f.size actual := by
  cases h with
  | refused h =>
    cases h.symm.trans herror
    exact ⟨_, rfl⟩
  | unread h hend => cases h.symm.trans herror

theorem Breaks.exists_offerField_eq_error (h : Breaks (offer b) f) :
    ∃ e, Fields.offerField (Offer.sink offer) f b = .error e := by
  cases h with
  | @refused actual c h =>
    refine ⟨.sizeMismatch f.record (some f.tag) f.offset f.size actual, ?_⟩
    have hsink : Offer.sink offer b f f.start = .error _ c := bind_of_error h _
    simp only [Fields.offerField, hsink]
  | @unread b' c h hend =>
    refine ⟨.sizeMismatch f.record (some f.tag) f.offset f.size c.pos, ?_⟩
    have hsink : Offer.sink offer b f f.start = .ok (.handled, b') c := bind_of_ok h _
    simp only [Fields.offerField, hsink, if_neg hend]

theorem Settles.sink (h : Settles (offer b) f) :
    (∃ b', Offer.sink offer b f f.start = .ok (.handled, b') ⟨[], f.size⟩) ∨
      ∃ c, Offer.sink offer b f f.start = .ok (.declined, b) c := by
  obtain ⟨b?, c, hread, hc⟩ := h
  cases b? with
  | none => exact .inr ⟨c, bind_of_ok hread _⟩
  | some b' =>
    obtain rfl : c = ⟨[], f.size⟩ := by
      rw [hc.resolve_left nofun, place, ← rest_place_size f]
      rfl
    exact .inl ⟨b', bind_of_ok hread _⟩

end Field.Reader

/-! ## Bodies -/

/-- Tags of references that a body of the shape takes in fields of any size, apart from its
identity's. -/
def Shape.refTags : Shape → List Tag
  | weapon => [.ENAM]
  | armor => [.ENAM]
  | book => [.ENAM]
  | clothing => [.ENAM]
  | light => [.SNAM]
  | door => [.SNAM, .ANAM]
  | actor => [.RNAM, .CNAM]
  | _ => []

/-- Tags of form ids that a body of the shape takes in fields of any size, apart from its
identity's. -/
def Shape.formTags : Shape → List Tag
  | root => [.ONAM]
  | cell => [.XCLR]
  | _ => []

namespace Body

/-- In the oldest schema, fields after the first reference of a cell belong to a reference. -/
def InReference (b : Body) (f : Field) : Prop :=
  ∃ c : Cell, b = .cell c ∧ c.references ≠ #[] ∧ f.context.schema = .tes3

/-- A field that the body cannot take: a reference that is not one form id long, in the schemas with
groups; form ids that do not fill their field; or figures of 96 bytes of an actor that is no
creature. -/
def Misfit (b : Body) (f : Field) : Prop :=
  (f.context.schema ≠ .tes3 ∧ f.size ≠ 4 ∧
    (f.tag ∈ b.shape.refTags ∨ f.tag = .SCRI ∧ b.identity?.isSome)) ∨
  (f.size % 4 ≠ 0 ∧ (f.tag ∈ b.shape.formTags ∨ f.tag = .KWDA ∧ b.identity?.isSome) ∧
    ¬b.InReference f) ∨
  (b.shape = .actor ∧ f.UnknownFigures)

variable {b : Body} {f : Field}

theorem not_inReference (hcell : b.shape ≠ .cell) : ¬b.InReference f := by
  rintro ⟨c, rfl, -⟩
  exact hcell rfl

theorem misfit_actor {a : Actor} : (Body.actor a).Misfit f ↔
    f.Strays [.SCRI, .RNAM, .CNAM] [.KWDA] ∨ f.UnknownFigures := by
  have hreference : ¬(Body.actor a).InReference f := not_inReference nofun
  simp only [Misfit, Strays, hreference, shape, identity?, Shape.refTags, Shape.formTags,
    Option.isSome_some, List.mem_cons, List.not_mem_nil]
  grind

theorem misfit_cell {c : Cell} : (Body.cell c).Misfit f ↔
    f.Strays [.SCRI] [.KWDA, .XCLR] ∧ ¬c.belongsToReference f := by
  have hreference : (Body.cell c).InReference f ↔ c.references ≠ #[] ∧ f.context.schema = .tes3 :=
    ⟨fun ⟨_, hc, h⟩ => by cases hc; exact h, fun h => ⟨c, rfl, h⟩⟩
  have hbelongs : f.Strays [.SCRI] [.KWDA, .XCLR] →
      (c.belongsToReference f ↔ c.references ≠ #[] ∧ f.context.schema = .tes3) := by
    refine fun h => c.belongsToReference_iff fun htag => ?_
    have hmem := h.mem_tags
    rw [htag] at hmem
    revert hmem
    decide
  rw [and_congr_right fun h => not_congr (hbelongs h)]
  simp only [Misfit, Strays, hreference, shape, identity?, Shape.refTags, Shape.formTags,
    Option.isSome_some, List.mem_cons, List.not_mem_nil]
  grind

section Tables

/-! Bodies of all shapes but these two just offer the field to their table. -/

variable {rules : List (Rule β)} (g : β → Body) (b : β) (f : Field)
  (hoffer : offer (g b) = do return (← offerTo rules b).map g)
  (hplain : [Shape.cell, .actor].contains (g b).shape = false)

include hoffer hplain

theorem offer_fails_of_identity (h : Table.Fails rules
      (Strays (.SCRI :: (g b).shape.refTags) (.KWDA :: (g b).shape.formTags)))
    (hidentity : (g b).identity?.isSome) :
    ((g b).Misfit f → Breaks (offer (g b)) f) ∧ (¬(g b).Misfit f → Settles (offer (g b)) f) := by
  obtain ⟨hcell, hactor⟩ : (g b).shape ≠ .cell ∧ (g b).shape ≠ .actor := by simpa using hplain
  rw [hoffer]
  refine h.map b g ?_
  simp only [Misfit, Strays, hidentity, not_inReference hcell, hactor, List.mem_cons]
  grind

theorem offer_fails_of_no_identity
    (h : Table.Fails rules (Strays (g b).shape.refTags (g b).shape.formTags))
    (hidentity : (g b).identity?.isSome = false) :
    ((g b).Misfit f → Breaks (offer (g b)) f) ∧ (¬(g b).Misfit f → Settles (offer (g b)) f) := by
  obtain ⟨hcell, hactor⟩ : (g b).shape ≠ .cell ∧ (g b).shape ≠ .actor := by simpa using hplain
  rw [hoffer]
  refine h.map b g ?_
  simp only [Misfit, Strays, hidentity, not_inReference hcell, hactor]
  grind

end Tables

theorem offer_cell_fails (c : Cell) (f : Field) :
    ((Body.cell c).Misfit f → Breaks (offer (.cell c)) f) ∧
      (¬(Body.cell c).Misfit f → Settles (offer (.cell c)) f) := by
  have hoffer : offer (.cell c) = do return (← Cell.offer c).map .cell := rfl
  have heq := c.offer_eq f
  rw [hoffer, misfit_cell]
  by_cases h : c.belongsToReference f
  · rw [if_pos h] at heq
    refine ⟨fun hmisfit => absurd h hmisfit.2, fun _ => .map (.congr heq.symm ?_) _⟩
    exact c.settles_offerToLatest f
  · rw [if_neg h] at heq
    obtain ⟨hbreaks, hsettles⟩ := Cell.fails c f
    rw [and_iff_left h]
    exact ⟨fun hmisfit => .map (.congr heq.symm (hbreaks hmisfit)) _,
      fun hfits => .map (.congr heq.symm (hsettles hfits)) _⟩

/-- A body breaks at a misfit and settles every other field. -/
theorem offer_fails (b : Body) (f : Field) :
    (b.Misfit f → Breaks (offer b) f) ∧ (¬b.Misfit f → Settles (offer b) f) := by
  cases b with
  | root b => exact offer_fails_of_no_identity .root b f rfl rfl Root.fails rfl
  | gameSetting b => exact offer_fails_of_no_identity .gameSetting b f rfl rfl GameSetting.fails rfl
  | global b => exact offer_fails_of_no_identity .global b f rfl rfl Global.fails rfl
  | profession b => exact offer_fails_of_identity .profession b f rfl rfl Class.fails rfl
  | faction b => exact offer_fails_of_identity .faction b f rfl rfl Faction.fails rfl
  | race b => exact offer_fails_of_identity .race b f rfl rfl Race.fails rfl
  | birthsign b => exact offer_fails_of_identity .birthsign b f rfl rfl Birthsign.fails rfl
  | skill b => exact offer_fails_of_identity .skill b f rfl rfl Skill.fails rfl
  | sound b => exact offer_fails_of_identity .sound b f rfl rfl Sound.fails rfl
  | magicEffect b => exact offer_fails_of_identity .magicEffect b f rfl rfl MagicEffect.fails rfl
  | script b => exact offer_fails_of_identity .script b f rfl rfl Script.fails rfl
  | landTexture b => exact offer_fails_of_identity .landTexture b f rfl rfl LandTexture.fails rfl
  | spell b => exact offer_fails_of_identity .spell b f rfl rfl Spell.fails rfl
  | enchantment b => exact offer_fails_of_identity .enchantment b f rfl rfl Enchantment.fails rfl
  | potion b => exact offer_fails_of_identity .potion b f rfl rfl Potion.fails rfl
  | ingredient b => exact offer_fails_of_identity .ingredient b f rfl rfl Ingredient.fails rfl
  | weapon b => exact offer_fails_of_identity .weapon b f rfl rfl Weapon.fails rfl
  | armor b => exact offer_fails_of_identity .armor b f rfl rfl Armor.fails rfl
  | ammo b => exact offer_fails_of_identity .ammo b f rfl rfl Ammo.fails rfl
  | book b => exact offer_fails_of_identity .book b f rfl rfl Book.fails rfl
  | clothing b => exact offer_fails_of_identity .clothing b f rfl rfl Clothing.fails rfl
  | light b => exact offer_fails_of_identity .light b f rfl rfl Light.fails rfl
  | item b => exact offer_fails_of_identity .item b f rfl rfl Item.fails rfl
  | container b => exact offer_fails_of_identity .container b f rfl rfl Container.fails rfl
  | door b => exact offer_fails_of_identity .door b f rfl rfl Door.fails rfl
  | textureSet b => exact offer_fails_of_identity .textureSet b f rfl rfl TextureSet.fails rfl
  | formList b => exact offer_fails_of_identity .formList b f rfl rfl FormList.fails rfl
  | leveledList b => exact offer_fails_of_identity .leveledList b f rfl rfl LeveledList.fails rfl
  | actor b => exact Actor.fails.map b Body.actor misfit_actor
  | cell c => exact offer_cell_fails c f
  | land b => exact offer_fails_of_no_identity .land b f rfl rfl Land.fails rfl
  | worldspace b => exact offer_fails_of_identity .worldspace b f rfl rfl Worldspace.fails rfl
  | region b => exact offer_fails_of_identity .region b f rfl rfl Region.fails rfl
  | climate b => exact offer_fails_of_identity .climate b f rfl rfl Climate.fails rfl
  | pathGrid b => exact offer_fails_of_identity .pathGrid b f rfl rfl PathGrid.fails rfl
  | reference b => exact offer_fails_of_no_identity .reference b f rfl rfl Reference.fails rfl
  | topic b => exact offer_fails_of_identity .topic b f rfl rfl Topic.fails rfl
  | info b => exact offer_fails_of_identity .info b f rfl rfl Info.fails rfl
  | quest b => exact offer_fails_of_identity .quest b f rfl rfl Quest.fails rfl
  | plain b => exact offer_fails_of_identity .plain b f rfl rfl Plain.fails rfl

/-- **A body fails at a misfit and nowhere else.** The only error of an offer is that of a wrong
size, and it names the field. Any field but a misfit is taken to its last byte, or it is declined
and leaves the body as it is. -/
theorem offer_fails_iff_misfit (b : Body) (f : Field) :
    (∀ e c, offer b f f.start = .error e c →
      ∃ actual, e = .sizeMismatch f.record (some f.tag) f.offset f.size actual) ∧
    ((∃ e, Fields.offerField (Offer.sink offer) f b = .error e) ↔ b.Misfit f) ∧
    (¬b.Misfit f →
      (∃ b', Offer.sink offer b f f.start = .ok (.handled, b') ⟨[], f.size⟩) ∨
        ∃ c, Offer.sink offer b f f.start = .ok (.declined, b) c) := by
  obtain ⟨hbreaks, hsettles⟩ := b.offer_fails f
  by_cases hmisfit : b.Misfit f
  · have h := hbreaks hmisfit
    exact ⟨fun _ _ => h.error_eq, iff_of_true h.exists_offerField_eq_error hmisfit, absurd hmisfit⟩
  · have h := hsettles hmisfit
    refine ⟨fun e c herror => absurd h (not_ends_of_error herror),
      iff_of_false ?_ hmisfit, fun _ => h.sink⟩
    rintro ⟨e, herror⟩
    rcases h.sink with ⟨b', hsink⟩ | ⟨c, hsink⟩ <;> simp [Fields.offerField, hsink] at herror

end Body

end GamePlugin
