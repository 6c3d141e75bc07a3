import GamePlugin.Proofs.DisplayTexts
import GamePlugin.Proofs.Misfits
import GamePlugin.Proofs.Transport

/-!
# Bodies hold on to texts

A body keeps the texts for display of its fields and does nothing else with them. If each text is
replaced, and a field is changed so that its own text is replaced in the same way, the body takes
the field as before (`Offer.Natural`). What a field is taken for can therefore neither depend on a
text nor bring in a text from elsewhere.

## Main definitions

* `Field.Carries` — a replacement of texts that goes with a change of a field.
* `Offer.Natural` — an offer that goes along with each such replacement.
-/

namespace GamePlugin

open Field.Reader
open HasTexts (texts mapTexts)
open HasIdentity

variable {α β γ : Type}

/-! ## Replacing texts along with a field -/

/-- Fields in a plugin that is localized, or in one that is not. -/
def Field.Change.localize (flag : Bool) : Field.Change where
  field f := { f with context := { f.context with localized := flag } }
  error := id
  payload _ := rfl
  tag _ := rfl
  record _ := rfl
  schema _ := rfl
  malformed _ := rfl
  sizeMismatch _ _ _ := rfl

/-- A reader of no text for display does not see whether the plugin is localized. -/
theorem Field.Reader.apply_localize {flag : Bool} (x : Field.Reader α)
    [h : Respects (.localize flag) x] (f : Field) (c : Field.Cursor) :
    x ((Field.Change.localize flag).field f) c = x f c := by
  rw [h.eq_changed]
  cases x f c <;> rfl

namespace Field.Reader

variable {f f' : Field} {c c' : Cursor}

/-- What is made of a value depends on the value alone. -/
theorem map_congr_at {x y : Reader α} (h : x f c = y f c) (k : α → β) :
    (k <$> x) f c = (k <$> y) f c := by
  cases hx : x f c with
  | ok a c' => rw [map_of_ok hx, map_of_ok (h.symm.trans hx)]
  | error e c' => rw [map_of_error hx, map_of_error (h.symm.trans hx)]

/-- What is made of a value that another value was made into. -/
theorem map_of_eq_map {x : Reader α} {x' : Reader β} {k : α → β} (h : x' f' c' = (k <$> x) f c)
    (k' : β → γ) : (k' <$> x') f' c' = ((fun a => k' (k a)) <$> x) f c := by
  cases hx : x f c with
  | ok a c₁ =>
    rw [map_of_ok hx] at h
    rw [map_of_ok hx, map_of_ok h]
  | error e c₁ =>
    rw [map_of_error hx] at h
    rw [map_of_error hx, map_of_error h]

theorem map_ite (p : Prop) [Decidable p] (k : α → β) (x y : Reader α) :
    (k <$> if p then x else y) = if p then k <$> x else k <$> y := by
  split <;> rfl

end Field.Reader

/-- A replacement of texts that goes with a change of a field: what is read as a text for display
from the new field replaces what is read from the old one. In the oldest schema some fields have
their text stored as itself in any case, so there that text is kept. -/
structure Field.Carries (g : DisplayText → DisplayText) (f f' : Field) : Prop where
  eq_localize : ∃ flag, f' = (Field.Change.localize flag).field f
  displayText : displayText f' f'.start = (g <$> Field.Reader.displayText) f f.start
  text : f.context.schema = .tes3 →
    g (.text (Text.decode f.payload)) = .text (Text.decode f.payload)

namespace Field.Carries

variable {g : DisplayText → DisplayText} {f f' : Field}

/-- What is made of a text for display. -/
theorem map_displayText (H : f.Carries g f') {k k' : DisplayText → α} (h : ∀ t, k' (g t) = k t) :
    (k' <$> Reader.displayText) f' f'.start = (k <$> Reader.displayText) f f.start := by
  rw [map_of_eq_map H.displayText]
  simp only [h]

/-- What is made of a text that is stored as itself. -/
theorem map_text (H : f.Carries g f') (hschema : f.context.schema = .tes3)
    (k k' : DisplayText → α) (h : ∀ t, k' (g t) = k t) :
    ((fun s => k' (.text s)) <$> Reader.text) f' f'.start =
      ((fun s => k (.text s)) <$> Reader.text) f f.start := by
  obtain ⟨flag, rfl⟩ := H.eq_localize
  have hread : Reader.text f f.start = .ok (Text.decode f.payload) ⟨[], 0 + f.payload.length⟩ := rfl
  have htext := h (.text (Text.decode f.payload))
  rw [H.text hschema] at htext
  rw [map_of_ok hread, ← htext]
  rfl

end Field.Carries

/-- An offer that goes along with the replacement of texts: the body with its texts replaced takes
the new field as the body takes the old one. -/
class Offer.Natural [HasTexts β] (offer : Offer β) : Prop where
  eq_map : ∀ {g f f'}, f.Carries g f' → ∀ b,
    offer (mapTexts g b) f' f'.start = (Option.map (mapTexts g) <$> offer b) f f.start

/-! ## Rules -/

namespace Rule

variable [HasTexts β]

/-- A rule that goes along with the replacement of texts wherever it applies. -/
def Natural (r : Rule β) : Prop := ∀ g f f', r.applies f → f.Carries g f' → ∀ b,
  r.read (mapTexts g b) f' f'.start = (Option.map (mapTexts g) <$> r.read b) f f.start

/-- A rule that leaves the texts of a body alone. -/
def Commutes (r : Rule β) : Prop :=
  ∀ g b, r.read (mapTexts g b) = Option.map (mapTexts g) <$> r.read b

theorem Natural.of_commutes {r : Rule β} [hr : ∀ flag, r.Respects (.localize flag)]
    (h : r.Commutes) : r.Natural := by
  intro g f f' _ H b
  obtain ⟨flag, rfl⟩ := H.eq_localize
  have hread := (hr flag).read b
  rw [h g b]
  exact apply_localize (Option.map (mapTexts g) <$> r.read b) f f.start

/-- A rule for a part, used for the whole. -/
theorem Natural.within [HasTexts α] {r : Rule β} (h : r.Natural) {get : α → β}
    {set : α → β → α} (hget : ∀ g a, get (mapTexts g a) = mapTexts g (get a))
    (hset : ∀ g a b, set (mapTexts g a) (mapTexts g b) = mapTexts g (set a b)) :
    (r.within get set).Natural := by
  intro g f f' happlies H a
  simp only [Rule.within, bind_pure_comp, Functor.map_map, hget]
  rw [map_of_eq_map (h g f f' happlies H (get a))]
  simp only [Option.map_map, Function.comp_def, hset]

/-- A rule that puts a value into the body. -/
theorem commutes_mk {tag : Tag} {sizes : Sizes} {schemas : List Schema} {x : Field.Reader α}
    (put : β → α → β) (h : ∀ g b a, put (mapTexts g b) a = mapTexts g (put b a)) :
    Commutes ⟨tag, sizes, schemas, fun b => some <$> do return put b (← x)⟩ := by
  intro g b
  simp only [bind_pure_comp, Functor.map_map, Option.map_some, h]

variable {tag : Tag} {sizes : Sizes} (set : β → DisplayText → β)

/-- A rule that puts a text for display into the body. -/
theorem natural_displayText {schemas : List Schema}
    (hset : ∀ g b t, set (mapTexts g b) (g t) = mapTexts g (set b t)) :
    Natural ⟨tag, sizes, schemas, fun b => some <$> do return set b (← displayText)⟩ := by
  intro g f f' _ H b
  simp only [bind_pure_comp, Functor.map_map]
  exact H.map_displayText fun t => congrArg some (hset g b t)

/-- A rule of the oldest schema that puts a text into the body that is stored as itself. -/
theorem natural_text (hset : ∀ g b t, set (mapTexts g b) (g t) = mapTexts g (set b t)) :
    Natural (onTes3 tag sizes fun b => do return set b (.text (← text))) := by
  intro g f f' happlies H b
  have hschema : f.context.schema = .tes3 := by
    simpa [onTes3] using (applies_iff.mp happlies).2.1
  simp only [onTes3, bind_pure_comp, Functor.map_map]
  exact H.map_text hschema (fun t => some (mapTexts g (set b t)))
    (fun t => some (set (mapTexts g b) t)) fun t => congrArg some (hset g b t)

end Rule

/-- Which rule applies to a field does not depend on the replacement. -/
theorem Offer.natural_offerTo [HasTexts β] {rules : List (Rule β)} (h : ∀ r ∈ rules, r.Natural) :
    Offer.Natural (offerTo rules) := by
  refine ⟨fun {g f f'} H b => ?_⟩
  have happlies (r : Rule β) : r.applies f' = r.applies f := by
    obtain ⟨flag, rfl⟩ := H.eq_localize
    exact r.applies_field f
  cases hfind : rules.find? (·.applies f) with
  | none =>
    have hdeclined : offerTo rules b f f.start = .ok none f.start := by simp only [offerTo, hfind]
    rw [map_of_ok hdeclined]
    simp only [offerTo, happlies, hfind]
    obtain ⟨flag, rfl⟩ := H.eq_localize
    rfl
  | some r =>
    have happly := List.find?_some hfind
    have hnew : offerTo rules (mapTexts g b) f' f'.start = r.read (mapTexts g b) f' f'.start := by
      simp only [offerTo, happlies, hfind]
    have hold : r.read b f f.start = offerTo rules b f f.start := by simp only [offerTo, hfind]
    rw [hnew, h r (List.mem_of_find?_eq_some hfind) g f f' happly H b]
    exact map_congr_at hold _

/-! ## Identities -/

-- What `simp` follows through a rule: the readers of a rule, and what it does with their values.
attribute [local simp] Rule.Commutes HasTexts.mapTexts identity withIdentity Rule.within Rule.on
  Rule.onTes3 Rule.onGrouped Rule.onSchema map_ite

namespace Identity

open Rule (natural_displayText natural_text)

theorem natural : ∀ r ∈ rules, r.Natural := by
  simp only [rules, List.forall_mem_cons]
  refine ⟨.of_commutes ?_, .of_commutes ?_, natural_displayText _ ?_,
    natural_text (fun (i : Identity) t => { i with name := some t }) ?_, .of_commutes ?_,
    .of_commutes ?_, .of_commutes ?_, .of_commutes ?_, .of_commutes ?_, .of_commutes ?_,
    natural_displayText _ ?_, .of_commutes ?_, .of_commutes ?_, .of_commutes ?_, .of_commutes ?_,
    .of_commutes ?_, List.forall_mem_nil _⟩
  all_goals simp [modelOrEmpty]

theorem natural_rulesWithin [HasTexts β] {get : β → Identity} {set : β → Identity → β}
    (hget : ∀ g b, get (mapTexts g b) = mapTexts g (get b))
    (hset : ∀ g b i, set (mapTexts g b) (mapTexts g i) = mapTexts g (set b i)) :
    ∀ r ∈ rulesWithin get set, r.Natural :=
  List.forall_mem_map.mpr fun r hr => (natural r hr).within hget hset

/-- The table of a body with an identity. Its own rules come first and leave the texts alone. -/
theorem natural_append [HasIdentity β] {own : List (Rule β)}
    [hown : ∀ flag, Table.Respects (.localize flag) own] (h : ∀ r ∈ own, r.Commutes) :
    Offer.Natural (offerTo (own ++ rulesWithin identity withIdentity)) := by
  refine Offer.natural_offerTo (List.forall_mem_append.mpr ⟨fun r hr => ?_,
    natural_rulesWithin (fun g b => identity_withIdentity ..) fun g b i => ?_⟩)
  · have hrespects (flag : Bool) := (hown flag).mem r hr
    exact .of_commutes (h r hr)
  · simp only [mapTexts, withIdentity_withIdentity, identity_withIdentity]

end Identity

instance : Offer.Natural (offerTo Plain.rules) := Identity.natural_append (List.forall_mem_nil _)
instance : Offer.Natural (offerTo Class.rules) := Identity.natural_append (by simp)
instance : Offer.Natural (offerTo Faction.rules) :=
  Identity.natural_append (by simp [Faction.readTitle])
instance : Offer.Natural (offerTo Race.rules) := Identity.natural_append (by simp)
instance : Offer.Natural (offerTo Birthsign.rules) := Identity.natural_append (by simp)
instance : Offer.Natural (offerTo Skill.rules) := Identity.natural_append (by simp)
instance : Offer.Natural (offerTo Sound.rules) := Identity.natural_append (by simp)
instance : Offer.Natural (offerTo MagicEffect.rules) := Identity.natural_append (by simp)
instance : Offer.Natural (offerTo Script.rules) := Identity.natural_append (by simp)
instance : Offer.Natural (offerTo LandTexture.rules) := Identity.natural_append (by simp)
instance : Offer.Natural (offerTo Spell.rules) :=
  Identity.natural_append (by simp [Effect.rulesWithin, Effect.rules])
instance : Offer.Natural (offerTo Enchantment.rules) :=
  Identity.natural_append (by simp [Effect.rulesWithin, Effect.rules])
instance : Offer.Natural (offerTo Potion.rules) :=
  Identity.natural_append (by simp [Effect.rulesWithin, Effect.rules])
instance : Offer.Natural (offerTo Ingredient.rules) :=
  Identity.natural_append (by simp [Effect.rulesWithin, Effect.rules])
instance : Offer.Natural (offerTo Weapon.rules) := Identity.natural_append (by simp)
instance : Offer.Natural (offerTo Armor.rules) := Identity.natural_append (by simp)
instance : Offer.Natural (offerTo Ammo.rules) := Identity.natural_append (by simp)
instance : Offer.Natural (offerTo Book.rules) := Identity.natural_append (by simp)
instance : Offer.Natural (offerTo Clothing.rules) := Identity.natural_append (by simp)
instance : Offer.Natural (offerTo Light.rules) :=
  Identity.natural_append (by simp [Light.readShine, Light.readCone, Light.readWorth])
instance : Offer.Natural (offerTo Item.rules) :=
  Identity.natural_append (by simp [Item.readPick])
instance : Offer.Natural (offerTo Container.rules) :=
  Identity.natural_append (by simp [ItemEntry.rulesWithin, ItemEntry.rules])
instance : Offer.Natural (offerTo Door.rules) := Identity.natural_append (by simp)
instance : Offer.Natural (offerTo TextureSet.rules) :=
  Identity.natural_append (List.forall_mem_append.mpr
    ⟨List.forall_mem_map.mpr fun slot _ => by simp, by simp⟩)
instance : Offer.Natural (offerTo FormList.rules) := Identity.natural_append (by simp)
instance : Offer.Natural (offerTo LeveledList.rules) :=
  Identity.natural_append (by simp [LeveledList.readName])
instance : Offer.Natural (offerTo Actor.rules) :=
  Identity.natural_append (by simp [ItemEntry.rulesWithin, ItemEntry.rules, Actor.readShortStats,
    Actor.readLongStats, Actor.readWideStats, Actor.readCreatureStats, Actor.readLevels,
    Actor.setRank])
instance : Offer.Natural (offerTo Cell.rules) :=
  Identity.natural_append (by simp [Cell.startReference])
instance : Offer.Natural (offerTo Worldspace.rules) := Identity.natural_append (by simp)
instance : Offer.Natural (offerTo Region.rules) := Identity.natural_append (by simp)
instance : Offer.Natural (offerTo Climate.rules) :=
  Identity.natural_append (by simp [Climate.readWeathers])
instance : Offer.Natural (offerTo PathGrid.rules) := Identity.natural_append (by simp)
instance : Offer.Natural (offerTo Topic.rules) :=
  Identity.natural_append (by simp [Topic.readKind])

/-! ## Bodies without texts -/

theorem Offer.natural_of_forall_eq [HasTexts β] {rules : List (Rule β)}
    [hrules : ∀ flag, Table.Respects (.localize flag) rules]
    (h : ∀ g (b : β), mapTexts g b = b) : Offer.Natural (offerTo rules) := by
  refine Offer.natural_offerTo fun r hr => ?_
  have hrespects (flag : Bool) := (hrules flag).mem r hr
  have hid (g : DisplayText → DisplayText) : mapTexts g = (id : β → β) := funext (h g)
  refine .of_commutes fun g b => ?_
  rw [hid, Option.map_id, id_map, id]

instance : Offer.Natural (offerTo Root.rules) := Offer.natural_of_forall_eq fun _ _ => rfl
instance : Offer.Natural (offerTo Global.rules) := Offer.natural_of_forall_eq fun _ _ => rfl
instance : Offer.Natural (offerTo Land.rules) := Offer.natural_of_forall_eq fun _ _ => rfl
instance : Offer.Natural (offerTo Reference.rules) := Offer.natural_of_forall_eq fun _ _ => rfl

/-! ## Bodies with more texts -/

open Rule (commutes_mk natural_displayText natural_text)

namespace GameSetting

theorem readValue_of_letter {s : GameSetting} (h : s.letter = some 's') :
    s.readValue = (fun t => some (.string t)) <$> displayText := by
  simp only [readValue, h, bind_pure_comp]
  rfl

theorem readValue_mapTexts {s : GameSetting} (h : s.letter ≠ some 's')
    (g : DisplayText → DisplayText) :
    (mapTexts g s).readValue = Option.map (mapTexts g) <$> s.readValue := by
  have hletter : (mapTexts g s).letter = s.letter := rfl
  simp only [readValue, hletter, map_bind]
  refine bind_congr fun field => ?_
  split
  · contradiction
  all_goals simp

theorem natural_readValue (s : GameSetting) {g : DisplayText → DisplayText} {f f' : Field}
    (H : f.Carries g f') :
    (mapTexts g s).readValue f' f'.start = (Option.map (mapTexts g) <$> s.readValue) f f.start := by
  by_cases hs : s.letter = some 's'
  · have hs' : (mapTexts g s).letter = some 's' := hs
    rw [readValue_of_letter hs, readValue_of_letter hs', Functor.map_map]
    exact H.map_displayText fun t => rfl
  · have hrespects (flag : Bool) : Respects (.localize flag) s.readValue := by
      refine respects_read_bind (fun f => ?_) fun f => ?_
      · simp only [Field.Change.size_field]
      · split
        · contradiction
        all_goals infer_instance
    obtain ⟨flag, rfl⟩ := H.eq_localize
    rw [readValue_mapTexts hs]
    exact apply_localize (Option.map (mapTexts g) <$> s.readValue) f f.start

instance : Offer.Natural (offerTo rules) := by
  refine Offer.natural_offerTo ?_
  simp only [rules, List.forall_mem_cons]
  refine ⟨.of_commutes (by simp), .of_commutes (by simp),
    natural_text (fun (s : GameSetting) t => { s with value := .string t }) (by simp),
    .of_commutes (by simp), .of_commutes (by simp), fun g f f' _ H s => ?_, List.forall_mem_nil _⟩
  simp only [bind_pure_comp, Functor.map_map]
  rw [map_of_eq_map (natural_readValue s H)]
  simp only [Option.map_map, Function.comp_def]
  rfl

end GameSetting

namespace Cell

/-- What stands in a cell has no texts. -/
theorem offerToLatest_mapTexts (c : Cell) (g : DisplayText → DisplayText) :
    (mapTexts g c).offerToLatest = Option.map (mapTexts g) <$> c.offerToLatest := by
  have hreferences : (mapTexts g c).references = c.references := rfl
  rw [offerToLatest, offerToLatest, hreferences]
  split
  · rfl
  · simp [Function.comp_def]

instance : Offer.Natural offer := by
  refine ⟨fun {g f f'} H c => ?_⟩
  have hbelongs : (mapTexts g c).belongsToReference f' = c.belongsToReference f := by
    obtain ⟨flag, rfl⟩ := H.eq_localize
    rfl
  have hold := c.offer_eq f
  have hnew := (mapTexts g c).offer_eq f'
  rw [hbelongs] at hnew
  by_cases h : c.belongsToReference f
  · rw [if_pos h] at hold hnew
    obtain ⟨flag, rfl⟩ := H.eq_localize
    rw [congrFun hnew, map_congr_at (congrFun hold _), offerToLatest_mapTexts]
    exact apply_localize (Option.map (mapTexts g) <$> c.offerToLatest) f f.start
  · rw [if_neg h] at hold hnew
    rw [congrFun hnew, map_congr_at (congrFun hold _)]
    exact Offer.Natural.eq_map H c

end Cell

theorem modifyLast_mapTexts [HasTexts α] {g : DisplayText → DisplayText} {k k' : α → α}
    (h : ∀ a, k' (mapTexts g a) = mapTexts g (k a)) (as : Array α) :
    modifyLast (mapTexts g as) k' = mapTexts g (modifyLast as k) := by
  ext i hi hi'
  · simp [modifyLast]
  · simp only [modifyLast, mapTexts, Array.size_map, Array.getElem_modify, Array.getElem_map]
    split
    · exact h _
    · rfl

theorem isEmpty_mapTexts [HasTexts α] (g : DisplayText → DisplayText) (as : Array α) :
    (mapTexts g as).isEmpty = as.isEmpty := by
  simp only [mapTexts, Array.isEmpty, Array.size_map]

namespace Quest

variable {g : DisplayText → DisplayText}

theorem changeStage_mapTexts {k k' : QuestStage → QuestStage}
    (h : ∀ stage, k' (mapTexts g stage) = mapTexts g (k stage)) (q : Quest) :
    { mapTexts g q with stages := modifyLast (mapTexts g q).stages k' } =
      mapTexts g { q with stages := modifyLast q.stages k } :=
  congrArg (fun stages => ({ mapTexts g q with stages } : Quest)) (modifyLast_mapTexts h q.stages)

theorem changeObjective_mapTexts {k k' : QuestObjective → QuestObjective}
    (h : ∀ objective, k' (mapTexts g objective) = mapTexts g (k objective)) (q : Quest) :
    { mapTexts g q with objectives := modifyLast (mapTexts g q).objectives k' } =
      mapTexts g { q with objectives := modifyLast q.objectives k } :=
  congrArg (fun objectives => ({ mapTexts g q with objectives } : Quest))
    (modifyLast_mapTexts h q.objectives)

theorem natural_readObjectiveText {f f' : Field} (H : f.Carries g f') (q : Quest) :
    readObjectiveText (mapTexts g q) f' f'.start =
      (Option.map (mapTexts g) <$> readObjectiveText q) f f.start := by
  have hempty : (mapTexts g q).objectives.isEmpty = q.objectives.isEmpty :=
    isEmpty_mapTexts g q.objectives
  rw [readObjectiveText, readObjectiveText, hempty]
  split
  · obtain ⟨flag, rfl⟩ := H.eq_localize
    rfl
  · simp only [bind_pure_comp, Functor.map_map]
    refine H.map_displayText fun t => congrArg some (changeObjective_mapTexts ?_ q)
    exact fun _ => rfl

instance : Offer.Natural (offerTo rules) := by
  refine Offer.natural_offerTo (List.forall_mem_append.mpr
    ⟨?_, Identity.natural_rulesWithin (fun _ _ => rfl) fun _ _ _ => rfl⟩)
  simp only [List.forall_mem_cons]
  refine ⟨.of_commutes ?_, .of_commutes ?_, .of_commutes ?_, .of_commutes ?_,
    .of_commutes (commutes_mk _ fun g q _ => changeStage_mapTexts ?_ q),
    natural_displayText _ fun g q _ => changeStage_mapTexts ?_ q, .of_commutes ?_,
    .of_commutes ?_, fun g f f' _ H q => natural_readObjectiveText H q, .of_commutes ?_,
    List.forall_mem_nil _⟩
  all_goals simp

end Quest

namespace Info

theorem changeLatest_mapTexts {g : DisplayText → DisplayText} {k k' : Response → Response}
    (h : ∀ r, k' (mapTexts g r) = mapTexts g (k r)) (n : Info) :
    (mapTexts g n).changeLatest k' = mapTexts g (n.changeLatest k) := by
  have hresponses : (mapTexts g n).responses = mapTexts g n.responses := rfl
  have hfirst : #[k' {}] = mapTexts g #[k {}] :=
    (congrArg (#[·]) (h {})).trans Array.map_singleton.symm
  simp only [changeLatest, hresponses, isEmpty_mapTexts]
  split
  · exact congrArg (fun responses => ({ mapTexts g n with responses } : Info)) hfirst
  · exact congrArg (fun responses => ({ mapTexts g n with responses } : Info))
      (modifyLast_mapTexts h n.responses)

theorem natural_tes3Rules : ∀ r ∈ tes3Rules, r.Natural := by
  simp only [tes3Rules, List.forall_mem_cons]
  refine ⟨.of_commutes ?_, .of_commutes ?_, .of_commutes ?_, .of_commutes ?_, .of_commutes ?_,
    natural_text (fun (n : Info) t => n.changeLatest ({ · with text := some t }))
      fun g n t => changeLatest_mapTexts ?_ n,
    .of_commutes ?_, .of_commutes ?_, .of_commutes ?_, .of_commutes ?_, List.forall_mem_nil _⟩
  all_goals simp

theorem natural_groupedRules : ∀ r ∈ groupedRules, r.Natural := by
  simp only [groupedRules, List.forall_mem_cons]
  refine ⟨.of_commutes ?_, .of_commutes ?_, .of_commutes ?_, .of_commutes ?_, .of_commutes ?_,
    .of_commutes ?_, natural_displayText _ fun g n t => changeLatest_mapTexts ?_ n,
    .of_commutes (commutes_mk _ fun g n t => changeLatest_mapTexts ?_ n),
    .of_commutes ?_, .of_commutes ?_, List.forall_mem_nil _⟩
  all_goals simp

instance : Offer.Natural (offerTo rules) :=
  Offer.natural_offerTo (List.forall_mem_append.mpr
    ⟨List.forall_mem_append.mpr ⟨natural_tes3Rules, natural_groupedRules⟩,
      Identity.natural_rulesWithin (fun _ _ => rfl) fun _ _ _ => rfl⟩)

end Info

/-! ## All bodies -/

/-- A body of one shape takes a field as part of the whole. -/
theorem Offer.Natural.eq_map_into [HasTexts β] {offer : Offer β} [h : Offer.Natural offer]
    {whole : β → Body} (hwhole : ∀ g b, mapTexts g (whole b) = whole (mapTexts g b))
    {g : DisplayText → DisplayText} {f f' : Field} (H : f.Carries g f') (b : β) :
    (do return (← offer (mapTexts g b)).map whole : Field.Reader (Option Body)) f' f'.start =
      (Option.map (mapTexts g) <$> do return (← offer b).map whole) f f.start := by
  simp only [bind_pure_comp, Functor.map_map, Option.map_map]
  rw [map_of_eq_map (h.eq_map H b)]
  simp only [Option.map_map, Function.comp_def, hwhole]

instance : Offer.Natural Body.offer := by
  refine ⟨fun H b => ?_⟩
  cases b <;> exact Offer.Natural.eq_map_into (fun _ _ => rfl) H _

end GamePlugin
