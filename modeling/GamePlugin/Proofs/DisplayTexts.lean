import GamePlugin.Body

/-!
# Texts for display

A text for display is stored as itself or, in a localized plugin, as the number of an entry in a
string table. Bodies have such texts in many places: names and descriptions, what is said in a line
of a topic, what a quest writes into the journal. Wherever they stand, they can be listed and
replaced, and a body is unchanged by a replacement exactly if each of its texts is.

## Main definitions

* `HasTexts` — types with texts for display in them.
* `HasIdentity` — bodies with an identity.
* `Body.texts`, `Body.mapTexts` — the texts of a body, and the body with each text replaced.
-/

namespace GamePlugin

variable {α β : Type}

/-! ## Types with texts -/

/-- A type whose values may have texts for display in them. -/
class HasTexts (β : Type) where
  /-- The texts, in a fixed order. -/
  texts : β → List DisplayText
  /-- Replaces each text. -/
  mapTexts : (DisplayText → DisplayText) → β → β
  mapTexts_eq_self_iff : ∀ {g b}, mapTexts g b = b ↔ ∀ t ∈ texts b, g t = t

open HasTexts (texts mapTexts)

instance : HasTexts DisplayText := ⟨fun t => [t], fun g t => g t, by simp⟩

instance [HasTexts α] : HasTexts (Option α) where
  texts a? := a?.toList.flatMap texts
  mapTexts g a? := a?.map (mapTexts g)
  mapTexts_eq_self_iff {g a?} := by cases a? <;> simp [HasTexts.mapTexts_eq_self_iff]

instance [HasTexts α] : HasTexts (Array α) where
  texts as := as.toList.flatMap texts
  mapTexts g as := as.map (mapTexts g)
  mapTexts_eq_self_iff {g as} := by
    obtain ⟨as⟩ := as
    induction as with
    | nil => simp
    | cons a as ih =>
      simp only [List.map_toArray, Array.mk.injEq] at ih
      simp [HasTexts.mapTexts_eq_self_iff, ih, or_imp, forall_and]

instance : HasTexts Identity where
  texts i := texts i.name ++ texts i.description
  mapTexts g i := { i with name := mapTexts g i.name, description := mapTexts g i.description }
  mapTexts_eq_self_iff {g i} := by
    cases i
    simp [HasTexts.mapTexts_eq_self_iff, or_imp, forall_and]

instance : HasTexts SettingValue where
  texts
    | .string t => [t]
    | _ => []
  mapTexts g
    | .string t => .string (g t)
    | value => value
  mapTexts_eq_self_iff {g value} := by cases value <;> simp

instance : HasTexts GameSetting where
  texts s := texts s.value
  mapTexts g s := { s with value := mapTexts g s.value }
  mapTexts_eq_self_iff {g s} := by
    cases s
    simp [HasTexts.mapTexts_eq_self_iff]

instance : HasTexts Response where
  texts r := texts r.text
  mapTexts g r := { r with text := mapTexts g r.text }
  mapTexts_eq_self_iff {g r} := by
    cases r
    simp [HasTexts.mapTexts_eq_self_iff]

instance : HasTexts Info where
  texts n := texts n.identity ++ texts n.responses
  mapTexts g n :=
    { n with identity := mapTexts g n.identity, responses := mapTexts g n.responses }
  mapTexts_eq_self_iff {g n} := by
    cases n
    simp [HasTexts.mapTexts_eq_self_iff, or_imp, forall_and]

instance : HasTexts QuestStage where
  texts s := texts s.logEntries
  mapTexts g s := { s with logEntries := mapTexts g s.logEntries }
  mapTexts_eq_self_iff {g s} := by
    cases s
    simp [HasTexts.mapTexts_eq_self_iff]

instance : HasTexts QuestObjective where
  texts o := texts o.text
  mapTexts g o := { o with text := mapTexts g o.text }
  mapTexts_eq_self_iff {g o} := by
    cases o
    simp [HasTexts.mapTexts_eq_self_iff]

instance : HasTexts Quest where
  texts q := texts q.identity ++ texts q.stages ++ texts q.objectives
  mapTexts g q :=
    { q with
      identity := mapTexts g q.identity
      stages := mapTexts g q.stages
      objectives := mapTexts g q.objectives }
  mapTexts_eq_self_iff {g q} := by
    cases q
    simp [HasTexts.mapTexts_eq_self_iff, or_imp, forall_and]

/-- A type without texts. -/
abbrev HasTexts.without (β : Type) : HasTexts β := ⟨fun _ => [], fun _ b => b, by simp⟩

instance : HasTexts Root := .without Root
instance : HasTexts Global := .without Global
instance : HasTexts Land := .without Land
instance : HasTexts Reference := .without Reference

/-- A body with an identity, which has all its texts. -/
class HasIdentity (β : Type) where
  identity : β → Identity
  withIdentity : β → Identity → β
  identity_withIdentity : ∀ b i, identity (withIdentity b i) = i := by intros; rfl
  withIdentity_identity : ∀ b, withIdentity b (identity b) = b := by intros; rfl
  withIdentity_withIdentity : ∀ b i j, withIdentity (withIdentity b i) j = withIdentity b j := by
    intros; rfl

open HasIdentity

instance [HasIdentity β] : HasTexts β where
  texts b := texts (identity b)
  mapTexts g b := withIdentity b (mapTexts g (identity b))
  mapTexts_eq_self_iff {g b} := by
    rw [← HasTexts.mapTexts_eq_self_iff]
    constructor
    · intro h
      rw [← identity_withIdentity b (mapTexts g (identity b)), h]
    · intro h
      rw [h, withIdentity_identity]

instance : HasIdentity Class := .mk (·.identity) fun b i => { b with identity := i }
instance : HasIdentity Faction := .mk (·.identity) fun b i => { b with identity := i }
instance : HasIdentity Race := .mk (·.identity) fun b i => { b with identity := i }
instance : HasIdentity Birthsign := .mk (·.identity) fun b i => { b with identity := i }
instance : HasIdentity Skill := .mk (·.identity) fun b i => { b with identity := i }
instance : HasIdentity Sound := .mk (·.identity) fun b i => { b with identity := i }
instance : HasIdentity MagicEffect := .mk (·.identity) fun b i => { b with identity := i }
instance : HasIdentity Script := .mk (·.identity) fun b i => { b with identity := i }
instance : HasIdentity LandTexture := .mk (·.identity) fun b i => { b with identity := i }
instance : HasIdentity Spell := .mk (·.identity) fun b i => { b with identity := i }
instance : HasIdentity Enchantment := .mk (·.identity) fun b i => { b with identity := i }
instance : HasIdentity Potion := .mk (·.identity) fun b i => { b with identity := i }
instance : HasIdentity Ingredient := .mk (·.identity) fun b i => { b with identity := i }
instance : HasIdentity Weapon := .mk (·.identity) fun b i => { b with identity := i }
instance : HasIdentity Armor := .mk (·.identity) fun b i => { b with identity := i }
instance : HasIdentity Ammo := .mk (·.identity) fun b i => { b with identity := i }
instance : HasIdentity Book := .mk (·.identity) fun b i => { b with identity := i }
instance : HasIdentity Clothing := .mk (·.identity) fun b i => { b with identity := i }
instance : HasIdentity Light := .mk (·.identity) fun b i => { b with identity := i }
instance : HasIdentity Item := .mk (·.identity) fun b i => { b with identity := i }
instance : HasIdentity Container := .mk (·.identity) fun b i => { b with identity := i }
instance : HasIdentity Door := .mk (·.identity) fun b i => { b with identity := i }
instance : HasIdentity TextureSet := .mk (·.identity) fun b i => { b with identity := i }
instance : HasIdentity FormList := .mk (·.identity) fun b i => { b with identity := i }
instance : HasIdentity LeveledList := .mk (·.identity) fun b i => { b with identity := i }
instance : HasIdentity Actor := .mk (·.identity) fun b i => { b with identity := i }
instance : HasIdentity Cell := .mk (·.identity) fun b i => { b with identity := i }
instance : HasIdentity Worldspace := .mk (·.identity) fun b i => { b with identity := i }
instance : HasIdentity Region := .mk (·.identity) fun b i => { b with identity := i }
instance : HasIdentity Climate := .mk (·.identity) fun b i => { b with identity := i }
instance : HasIdentity PathGrid := .mk (·.identity) fun b i => { b with identity := i }
instance : HasIdentity Topic := .mk (·.identity) fun b i => { b with identity := i }
instance : HasIdentity Plain := .mk (·.identity) fun b i => { b with identity := i }

namespace Body

/-- The texts of a body. -/
def texts : Body → List DisplayText
  | gameSetting b => HasTexts.texts b
  | info b => HasTexts.texts b
  | quest b => HasTexts.texts b
  | b => HasTexts.texts b.identity?

/-- Replaces each text of a body. -/
def mapTexts (g : DisplayText → DisplayText) : Body → Body
  | root b => .root (HasTexts.mapTexts g b)
  | gameSetting b => .gameSetting (HasTexts.mapTexts g b)
  | global b => .global (HasTexts.mapTexts g b)
  | profession b => .profession (HasTexts.mapTexts g b)
  | faction b => .faction (HasTexts.mapTexts g b)
  | race b => .race (HasTexts.mapTexts g b)
  | birthsign b => .birthsign (HasTexts.mapTexts g b)
  | skill b => .skill (HasTexts.mapTexts g b)
  | sound b => .sound (HasTexts.mapTexts g b)
  | magicEffect b => .magicEffect (HasTexts.mapTexts g b)
  | script b => .script (HasTexts.mapTexts g b)
  | landTexture b => .landTexture (HasTexts.mapTexts g b)
  | spell b => .spell (HasTexts.mapTexts g b)
  | enchantment b => .enchantment (HasTexts.mapTexts g b)
  | potion b => .potion (HasTexts.mapTexts g b)
  | ingredient b => .ingredient (HasTexts.mapTexts g b)
  | weapon b => .weapon (HasTexts.mapTexts g b)
  | armor b => .armor (HasTexts.mapTexts g b)
  | ammo b => .ammo (HasTexts.mapTexts g b)
  | book b => .book (HasTexts.mapTexts g b)
  | clothing b => .clothing (HasTexts.mapTexts g b)
  | light b => .light (HasTexts.mapTexts g b)
  | item b => .item (HasTexts.mapTexts g b)
  | container b => .container (HasTexts.mapTexts g b)
  | door b => .door (HasTexts.mapTexts g b)
  | textureSet b => .textureSet (HasTexts.mapTexts g b)
  | formList b => .formList (HasTexts.mapTexts g b)
  | leveledList b => .leveledList (HasTexts.mapTexts g b)
  | actor b => .actor (HasTexts.mapTexts g b)
  | cell b => .cell (HasTexts.mapTexts g b)
  | land b => .land (HasTexts.mapTexts g b)
  | worldspace b => .worldspace (HasTexts.mapTexts g b)
  | region b => .region (HasTexts.mapTexts g b)
  | climate b => .climate (HasTexts.mapTexts g b)
  | pathGrid b => .pathGrid (HasTexts.mapTexts g b)
  | reference b => .reference (HasTexts.mapTexts g b)
  | topic b => .topic (HasTexts.mapTexts g b)
  | info b => .info (HasTexts.mapTexts g b)
  | quest b => .quest (HasTexts.mapTexts g b)
  | plain b => .plain (HasTexts.mapTexts g b)

instance : HasTexts Body where
  texts := texts
  mapTexts := mapTexts
  mapTexts_eq_self_iff {g b} := by
    cases b <;> simp [texts, mapTexts, identity?, identity, HasTexts.mapTexts_eq_self_iff,
      HasTexts.texts]

end Body

end GamePlugin
