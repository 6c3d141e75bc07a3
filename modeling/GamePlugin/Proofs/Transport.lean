import GamePlugin.Body
import GamePlugin.Proofs.Readers

/-!
# Readers under a change of their field

A field knows more than its bytes: where it lies, which record it belongs to, which game it is from.
A change of what its readers hardly look at is followed through all of them at once
(`Field.Reader.Respects`): on the changed field a reader does the same, and its errors are changed
along. Only a text for display looks at whether the plugin is localized, so the readers that read
such texts respect the changes that leave this alone (`Field.Change.KeepsLocalized`), and all others
respect every change.

## Main definitions

* `Field.Change` — a change of fields, with what becomes of the errors about them.
* `Field.Reader.Respects` — a reader that does the same on the changed field.
* `Fields.Follows` — reading fields one way goes along with reading them another way.
-/

namespace GamePlugin

/-- A change of fields, with what becomes of the errors about them. Neither the bytes of a field nor
what decides how they are read is changed, but for whether the plugin is localized. -/
structure Field.Change where
  field : Field → Field
  error : Error → Error
  payload : ∀ f, (field f).payload = f.payload
  tag : ∀ f, (field f).tag = f.tag
  record : ∀ f, (field f).record = f.record
  schema : ∀ f, (field f).context.schema = f.context.schema
  malformed : ∀ text, error (.malformed text) = .malformed text
  sizeMismatch : ∀ f expected actual,
    error (.sizeMismatch f.record (some f.tag) f.offset expected actual) =
      .sizeMismatch f.record (some f.tag) (field f).offset expected actual

namespace Field.Change

variable (φ : Change) (f : Field)

theorem size_field : (φ.field f).size = f.size := congrArg List.length (φ.payload f)

theorem start_field : (φ.field f).start = f.start := congrArg (Cursor.mk · 0) (φ.payload f)

/-- The change leaves alone whether the plugin is localized. -/
class KeepsLocalized : Prop where
  localized : ∀ f, (φ.field f).context.localized = f.context.localized

end Field.Change

variable {α β : Type} {φ : Field.Change}

namespace Field.Reader

/-- The outcome of a reader, with its error changed. -/
def changed (φ : Change) : EStateM.Result Error Cursor α → EStateM.Result Error Cursor α
  | .ok a c => .ok a c
  | .error e c => .error (φ.error e) c

/-- A reader for which a change of its field shows only in errors. -/
class Respects (φ : Change) (x : Field.Reader α) : Prop where
  eq_changed : ∀ f c, x (φ.field f) c = changed φ (x f c)

instance (a : α) : Respects φ (pure a : Field.Reader α) := ⟨fun _ _ => rfl⟩

instance (x : Field.Reader α) (g : α → Field.Reader β) [hx : Respects φ x]
    [hg : ∀ a, Respects φ (g a)] : Respects φ (x >>= g) := by
  refine ⟨fun f c => ?_⟩
  cases h : x f c with
  | ok a c' =>
    have hchanged : x (φ.field f) c = .ok a c' := by rw [hx.eq_changed, h]; rfl
    rw [bind_of_ok h, bind_of_ok hchanged, (hg a).eq_changed]
  | error e c' =>
    have hchanged : x (φ.field f) c = .error (φ.error e) c' := by rw [hx.eq_changed, h]; rfl
    rw [bind_of_error h, bind_of_error hchanged]
    rfl

instance (g : α → β) (x : Field.Reader α) [Respects φ x] : Respects φ (g <$> x) := by
  rw [← bind_pure_comp]
  infer_instance

instance (p : Prop) [Decidable p] (x y : Field.Reader α) [Respects φ x] [Respects φ y] :
    Respects φ (if p then x else y) := by
  split <;> infer_instance

/-- A reader may use all of its field that the change leaves alone. -/
theorem respects_read_bind {g : Field → Field.Reader β} (h : ∀ f, g (φ.field f) = g f)
    (hg : ∀ f, Respects φ (g f)) : Respects φ (read >>= g) := by
  refine ⟨fun f c => ?_⟩
  have hread (f : Field) : (read : Field.Reader Field) f c = .ok f c := rfl
  rw [bind_of_ok (hread f), bind_of_ok (hread (φ.field f)), h, (hg f).eq_changed]

instance (wanted : Nat) : Respects φ (overrun wanted : Field.Reader α) := by
  refine ⟨fun f c => ?_⟩
  simp only [overrun, φ.record, φ.tag, φ.size_field, changed, φ.sizeMismatch]

instance (n : Nat) : Respects φ (bytes n) := by
  refine ⟨fun f c => ?_⟩
  simp only [bytes]
  split
  · rfl
  · exact Respects.eq_changed f c

instance : Respects φ toEnd := ⟨fun _ _ => rfl⟩

instance : Respects φ remaining := ⟨fun _ _ => rfl⟩

theorem cutShort_field (l : Layout α) (f : Field) :
    cutShort l (φ.field f) = φ.error (cutShort l f) := by
  simp only [cutShort]
  split
  · exact (φ.malformed _).symm
  · simp only [φ.record, φ.tag, φ.size_field, φ.sizeMismatch]

instance (l : Layout α) : Respects φ (item l) := by
  refine ⟨fun f c => ?_⟩
  simp only [item]
  split
  · rfl
  · rw [cutShort_field]
    rfl

instance (l : Layout α) : Respects φ (items l) := by
  refine ⟨fun f c => ?_⟩
  simp only [items]
  split
  · rfl
  · rw [cutShort_field]
    rfl

instance (n : Nat) : Respects φ (skip n) :=
  inferInstanceAs (Respects φ (bytes n >>= fun _ => pure ()))

instance : Respects φ skipRest := inferInstanceAs (Respects φ (toEnd >>= fun _ => pure ()))
instance : Respects φ byte := inferInstanceAs (Respects φ (_ <$> bytes 1))
instance : Respects φ int8 := inferInstanceAs (Respects φ (_ <$> byte))
instance : Respects φ word16 := inferInstanceAs (Respects φ (_ <$> bytes 2))
instance : Respects φ int16 := inferInstanceAs (Respects φ (_ <$> bytes 2))
instance : Respects φ word32 := inferInstanceAs (Respects φ (_ <$> bytes 4))
instance : Respects φ int32 := inferInstanceAs (Respects φ (_ <$> bytes 4))
instance : Respects φ single := inferInstanceAs (Respects φ (_ <$> bytes 4))
instance : Respects φ formId := inferInstanceAs (Respects φ (_ <$> word32))
instance : Respects φ Field.Reader.tag := inferInstanceAs (Respects φ (_ <$> word32))
instance (n : Nat) : Respects φ (fixedText n) := inferInstanceAs (Respects φ (_ <$> bytes n))
instance : Respects φ text := inferInstanceAs (Respects φ (_ <$> toEnd))
instance : Respects φ idRef := inferInstanceAs (Respects φ (_ <$> formId))
instance : Respects φ nameRef := inferInstanceAs (Respects φ (_ <$> fixedText 32))

instance [h : φ.KeepsLocalized] : Respects φ displayText := by
  refine respects_read_bind (fun f => ?_) fun f => inferInstance
  simp only [h.localized]

instance : Respects φ formIds := by
  rw [formIds]
  infer_instance

instance : Respects φ ref := by
  refine respects_read_bind (fun f => ?_) fun f => ?_
  · simp only [φ.schema]
  · split <;> infer_instance

end Field.Reader

open Field.Reader

/-! ## Rules and tables -/

/-- A rule with a reader that respects the change. -/
class Rule.Respects (φ : Field.Change) (r : Rule β) : Prop where
  read : ∀ b, Field.Reader.Respects φ (r.read b)

namespace Rule

variable (tag : Tag) (sizes : Sizes)

instance (schemas : List Schema) (read : Offer β) [h : ∀ b, Field.Reader.Respects φ (read b)] :
    Respects φ ⟨tag, sizes, schemas, read⟩ := ⟨h⟩

section

variable (read : β → Field.Reader β) [∀ b, Field.Reader.Respects φ (read b)]

instance : Respects φ (on tag sizes read) := by
  rw [on]
  infer_instance

instance : Respects φ (onTes3 tag sizes read) := by
  rw [onTes3]
  infer_instance

instance : Respects φ (onGrouped tag sizes read) := by
  rw [onGrouped]
  infer_instance

instance (schema : Schema) : Respects φ (onSchema schema tag sizes read) := by
  rw [onSchema]
  infer_instance

end

instance (get : α → β) (set : α → β → α) (r : Rule β) [h : r.Respects φ] :
    Respects φ (r.within get set) := by
  have hread := h.read
  rw [within]
  infer_instance

/-- Which rule applies to a field is not changed. -/
theorem applies_field (r : Rule β) (f : Field) : r.applies (φ.field f) = r.applies f := by
  simp only [applies, φ.tag, φ.schema, φ.size_field]

end Rule

/-- A table of rules that respect the change. -/
class Table.Respects (φ : Field.Change) (rules : List (Rule β)) : Prop where
  mem : ∀ r ∈ rules, r.Respects φ

namespace Table

instance : Respects φ ([] : List (Rule β)) := ⟨List.forall_mem_nil _⟩

instance (r : Rule β) (rules : List (Rule β)) [hr : r.Respects φ] [h : Respects φ rules] :
    Respects φ (r :: rules) := ⟨List.forall_mem_cons.mpr ⟨hr, h.mem⟩⟩

instance (own rules : List (Rule β)) [hown : Respects φ own] [h : Respects φ rules] :
    Respects φ (own ++ rules) := ⟨List.forall_mem_append.mpr ⟨hown.mem, h.mem⟩⟩

instance (get : α → β) (set : α → β → α) (rules : List (Rule β)) [h : Respects φ rules] :
    Respects φ (rules.map (Rule.within get set)) :=
  ⟨List.forall_mem_map.mpr fun r hr => have := h.mem r hr; inferInstance⟩

instance (rules : List (Rule β)) (b : β) [h : Respects φ rules] :
    Field.Reader.Respects φ (offerTo rules b) := by
  refine ⟨fun f c => ?_⟩
  simp only [offerTo, Rule.applies_field]
  cases hfind : rules.find? (·.applies f) with
  | none => rfl
  | some r => exact ((h.mem r (List.mem_of_find?_eq_some hfind)).read b).eq_changed f c

end Table

/-! ## Readers of bodies -/

instance : Respects φ Condition.read := by rw [Condition.read]; infer_instance
instance : Respects φ Effect.wholeFigures := by rw [Effect.wholeFigures]; infer_instance
instance (n : Item) : Respects φ n.readPick := by rw [Item.readPick]; infer_instance
instance (l : Light) : Respects φ l.readShine := by rw [Light.readShine]; infer_instance
instance (l : Light) : Respects φ l.readCone := by rw [Light.readCone]; infer_instance
instance (l : Light) : Respects φ l.readWorth := by rw [Light.readWorth]; infer_instance
instance (t : Topic) : Respects φ t.readKind := by rw [Topic.readKind]; infer_instance
instance (l : LeveledList) : Respects φ l.readName := by rw [LeveledList.readName]; infer_instance
instance (c : Cell) : Respects φ c.startReference := by rw [Cell.startReference]; infer_instance
instance (side : Nat) (l : Land) : Respects φ (l.readHeights side) := by
  rw [Land.readHeights]; infer_instance
instance (numbered : Bool) (l : Land) : Respects φ (l.readLayer numbered) := by
  rw [Land.readLayer]; infer_instance
instance (set : FactionRank → String → FactionRank) (f : Faction) :
    Respects φ (f.readTitle set) := by
  rw [Faction.readTitle]; infer_instance

namespace Actor

variable (a : Actor)

instance : Respects φ a.readShortStats := by rw [readShortStats]; infer_instance
instance : Respects φ a.readLongStats := by rw [readLongStats]; infer_instance
instance : Respects φ a.readCreatureStats := by rw [readCreatureStats]; infer_instance
instance (flags : UInt32) : Respects φ (a.readLevels flags) := by rw [readLevels]; infer_instance

instance : Respects φ a.readWideStats := by
  refine respects_read_bind (fun f => ?_) fun _ => inferInstance
  simp only [φ.record]

end Actor

instance (c : Climate) : Respects φ c.readWeathers := by
  refine respects_read_bind (fun f => ?_) fun _ => inferInstance
  simp only [φ.schema, φ.size_field]

instance (get : β → Array ItemEntry) (set : β → Array ItemEntry → β) :
    Table.Respects φ (ItemEntry.rulesWithin get set) := by
  rw [ItemEntry.rulesWithin, ItemEntry.rules]
  infer_instance

instance (get : β → Array Effect) (set : β → Array Effect → β) :
    Table.Respects φ (Effect.rulesWithin get set) := by
  rw [Effect.rulesWithin, Effect.rules]
  infer_instance

/-- Every slot of a set of textures has a rule that respects the change. -/
instance (slots : List (Fin 8)) (rule : Fin 8 → Rule TextureSet)
    [h : ∀ slot, (rule slot).Respects φ] : Table.Respects φ (slots.map rule) :=
  ⟨List.forall_mem_map.mpr fun slot _ => h slot⟩

instance : Table.Respects φ Root.rules := by rw [Root.rules]; infer_instance
instance : Table.Respects φ Global.rules := by rw [Global.rules]; infer_instance
instance : Table.Respects φ CellReference.rules := by rw [CellReference.rules]; infer_instance
instance : Table.Respects φ Land.rules := by rw [Land.rules]; infer_instance
instance : Table.Respects φ Reference.rules := by rw [Reference.rules]; infer_instance

instance (c : Cell) : Respects φ c.offerToLatest := by
  rw [Cell.offerToLatest]
  split <;> infer_instance

/-! ## Readers of texts for display -/

section

variable [φ.KeepsLocalized]

instance (q : Quest) : Respects φ q.readObjectiveText := by
  rw [Quest.readObjectiveText]; infer_instance

instance (s : GameSetting) : Respects φ s.readValue := by
  refine respects_read_bind (fun f => ?_) fun f => ?_
  · simp only [φ.size_field]
  · split <;> infer_instance

instance (get : β → Identity) (set : β → Identity → β) :
    Table.Respects φ (Identity.rulesWithin get set) := by
  rw [Identity.rulesWithin, Identity.rules]
  infer_instance

instance : Table.Respects φ GameSetting.rules := by rw [GameSetting.rules]; infer_instance
instance : Table.Respects φ Class.rules := by rw [Class.rules]; infer_instance
instance : Table.Respects φ Faction.rules := by rw [Faction.rules]; infer_instance
instance : Table.Respects φ Race.rules := by rw [Race.rules]; infer_instance
instance : Table.Respects φ Birthsign.rules := by rw [Birthsign.rules]; infer_instance
instance : Table.Respects φ Skill.rules := by rw [Skill.rules]; infer_instance
instance : Table.Respects φ Sound.rules := by rw [Sound.rules]; infer_instance
instance : Table.Respects φ MagicEffect.rules := by rw [MagicEffect.rules]; infer_instance
instance : Table.Respects φ Script.rules := by rw [Script.rules]; infer_instance
instance : Table.Respects φ LandTexture.rules := by rw [LandTexture.rules]; infer_instance
instance : Table.Respects φ Spell.rules := by rw [Spell.rules]; infer_instance
instance : Table.Respects φ Enchantment.rules := by rw [Enchantment.rules]; infer_instance
instance : Table.Respects φ Potion.rules := by rw [Potion.rules]; infer_instance
instance : Table.Respects φ Ingredient.rules := by rw [Ingredient.rules]; infer_instance
instance : Table.Respects φ Weapon.rules := by rw [Weapon.rules]; infer_instance
instance : Table.Respects φ Armor.rules := by rw [Armor.rules]; infer_instance
instance : Table.Respects φ Ammo.rules := by rw [Ammo.rules]; infer_instance
instance : Table.Respects φ Book.rules := by rw [Book.rules]; infer_instance
instance : Table.Respects φ Clothing.rules := by rw [Clothing.rules]; infer_instance
instance : Table.Respects φ Light.rules := by rw [Light.rules]; infer_instance
instance : Table.Respects φ Item.rules := by rw [Item.rules]; infer_instance
instance : Table.Respects φ Container.rules := by rw [Container.rules]; infer_instance
instance : Table.Respects φ Door.rules := by rw [Door.rules]; infer_instance
instance : Table.Respects φ TextureSet.rules := by rw [TextureSet.rules]; infer_instance
instance : Table.Respects φ FormList.rules := by rw [FormList.rules]; infer_instance
instance : Table.Respects φ LeveledList.rules := by rw [LeveledList.rules]; infer_instance
instance : Table.Respects φ Actor.rules := by rw [Actor.rules]; infer_instance
instance : Table.Respects φ Cell.rules := by rw [Cell.rules]; infer_instance
instance : Table.Respects φ Worldspace.rules := by rw [Worldspace.rules]; infer_instance
instance : Table.Respects φ Region.rules := by rw [Region.rules]; infer_instance
instance : Table.Respects φ Climate.rules := by rw [Climate.rules]; infer_instance
instance : Table.Respects φ PathGrid.rules := by rw [PathGrid.rules]; infer_instance
instance : Table.Respects φ Topic.rules := by rw [Topic.rules]; infer_instance
instance : Table.Respects φ Info.tes3Rules := by rw [Info.tes3Rules]; infer_instance
instance : Table.Respects φ Info.groupedRules := by rw [Info.groupedRules]; infer_instance
instance : Table.Respects φ Info.rules := by rw [Info.rules]; infer_instance
instance : Table.Respects φ Quest.rules := by rw [Quest.rules]; infer_instance
instance : Table.Respects φ Plain.rules := by rw [Plain.rules]; infer_instance

instance (c : Cell) : Respects φ c.offer := by
  refine respects_read_bind (fun f => ?_) fun _ => inferInstance
  have hbelongs : c.belongsToReference (φ.field f) = c.belongsToReference f := by
    simp only [Cell.belongsToReference, φ.schema, φ.tag, φ.size_field]
  rw [hbelongs]

instance (b : Body) : Respects φ b.offer := by
  cases b <;> rw [Body.offer] <;> infer_instance

end

/-- A body as a sink respects what the body respects, for a declined field leaves it as it is. -/
instance (offer : Offer β) (b : β) [Respects φ (offer b)] : Respects φ (Offer.sink offer b) := by
  have hanswer (b? : Option β) : Respects φ (match b? with
      | some b' => return (Field.Outcome.handled, b')
      | none => return (Field.Outcome.declined, b) : Field.Reader (Field.Outcome × β)) := by
    cases b? <;> infer_instance
  rw [Offer.sink]
  infer_instance

/-! ## Payloads -/

namespace Fields

variable {σ : Type}

/-- Reading the fields of one frame goes along with reading those of another: the sink does the same
with each field, but for a change of its states and of the errors. -/
structure Follows (m : σ → σ) (ψ : Error → Error) (sink : Sink σ) (frame frame' : Frame) :
    Prop where
  schema : frame'.context.schema = frame.context.schema
  record : frame'.record = frame.record
  length : frame'.length = frame.length
  mismatch : ∀ tag pos expected actual,
    frame'.mismatch tag (frame'.base + pos) expected actual =
      ψ (frame.mismatch tag (frame.base + pos) expected actual)
  badEscape : ∀ pos size,
    Error.badEscape (frame'.base + pos) size = ψ (.badEscape (frame.base + pos) size)
  offer : ∀ tag pos payload s,
    offerField sink ⟨tag, frame'.record, frame'.base + pos, frame'.context, payload⟩ (m s) =
      ((offerField sink ⟨tag, frame.record, frame.base + pos, frame.context, payload⟩ s).map
        m).mapError ψ

variable {m : σ → σ} {ψ : Error → Error} {sink : Sink σ} {frame frame' : Frame}

/-- A field is offered alike to states that the sink changes alike. -/
theorem offerField_eq_map {f f' : Field} {s : σ} (hsize : f'.size = f.size)
    (hmismatch : ∀ actual, Error.sizeMismatch f'.record (some f'.tag) f'.offset f'.size actual =
      ψ (.sizeMismatch f.record (some f.tag) f.offset f.size actual))
    (hok : ∀ {outcome s' c}, sink s f f.start = .ok (outcome, s') c →
      sink (m s) f' f'.start = .ok (outcome, m s') c)
    (herror : ∀ {e c}, sink s f f.start = .error e c → sink (m s) f' f'.start = .error (ψ e) c) :
    offerField sink f' (m s) = ((offerField sink f s).map m).mapError ψ := by
  cases h : sink s f f.start with
  | error e c =>
    simp only [offerField, h, herror h]
    rfl
  | ok answer c =>
    obtain ⟨outcome, s'⟩ := answer
    cases outcome with
    | declined =>
      simp only [offerField, h, hok h]
      rfl
    | handled =>
      simp only [offerField, h, hok h, hsize]
      split
      · rfl
      · exact congrArg Except.error (hsize ▸ hmismatch c.pos)

/-- A sink that respects a change offers the changed field alike. -/
theorem offerField_field [hsink : ∀ s, Respects φ (sink s)] (f : Field) (s : σ) :
    offerField sink (φ.field f) s = (offerField sink f s).mapError φ.error := by
  have hmap : offerField sink (φ.field f) (id s) =
      ((offerField sink f s).map id).mapError φ.error := by
    refine offerField_eq_map (φ.size_field f) (fun actual => ?_) (fun h => ?_) fun h => ?_
    · rw [φ.record, φ.tag, φ.size_field, φ.sizeMismatch]
    · rw [φ.start_field, (hsink _).eq_changed, id, h]
      rfl
    · rw [φ.start_field, (hsink _).eq_changed, id, h]
      rfl
  rwa [Except.map_id] at hmap

/-- The loop takes the same way through the payload. -/
theorem Follows.loop_eq (H : Follows m ψ sink frame frame') (pending : Option UInt32) (pos : Nat)
    (rest : Bytes) (s : σ) :
    loop sink frame' pending pos rest (m s) =
      ((loop sink frame pending pos rest s).map m).mapError ψ := by
  fun_induction loop sink frame pending pos rest s with
  | case1 pending pos rest s schema head hshort hempty =>
    rw [loop, H.schema]
    exact (if_pos hshort).trans (if_pos hempty)
  | case2 pending pos rest s schema head hshort hempty =>
    rw [loop, H.schema]
    refine (if_pos hshort).trans ((if_neg hempty).trans ?_)
    exact congrArg Except.error (H.length ▸ H.mismatch none 0 frame'.length pos)
  | case3 pending pos rest s schema head hlong offset header htag hfour =>
    rw [loop, H.schema]
    refine (if_neg hlong).trans ((if_pos htag).trans ((if_pos hfour).trans ?_))
    exact congrArg Except.error (H.badEscape pos _)
  | case4 pending pos rest s schema head hlong offset header rest' htag hfour hword =>
    rw [loop, H.schema]
    refine (if_neg hlong).trans ((if_pos htag).trans ((if_neg hfour).trans
      ((if_pos hword).trans ?_)))
    exact congrArg Except.error (H.mismatch _ pos _ _)
  | case5 pending pos rest s schema head hlong header rest' pos' htag hfour hword ih =>
    rw [loop, H.schema, ← ih]
    exact (if_neg hlong).trans ((if_pos htag).trans ((if_neg hfour).trans (if_neg hword)))
  | case6 pending pos rest s schema head hlong header htag hoffsets =>
    rw [loop, H.schema, H.record]
    exact (if_neg hlong).trans ((if_neg htag).trans (if_pos hoffsets))
  | case7 pending pos rest s schema head hlong offset header rest' htag hoffsets size payload
      hpayload =>
    rw [loop, H.schema, H.record]
    refine (if_neg hlong).trans ((if_neg htag).trans ((if_neg hoffsets).trans
      ((if_pos hpayload).trans ?_)))
    exact congrArg Except.error (H.mismatch _ pos _ _)
  | case8 pending pos rest s schema head hlong offset header rest' htag hoffsets size payload
      hpayload e hoffer =>
    have hfollows := H.offer header.tag pos payload s
    rw [hoffer, H.record] at hfollows
    rw [loop, H.schema, H.record]
    refine (if_neg hlong).trans ((if_neg htag).trans ((if_neg hoffsets).trans
      ((if_neg hpayload).trans ?_)))
    split
    case h_1 e' he =>
      cases he.symm.trans hfollows
      rfl
    case h_2 s₁ hs => cases hs.symm.trans hfollows
  | case9 pending pos rest s schema head hlong offset header rest' pos' htag hoffsets size payload
      hpayload s₁ hoffer ih =>
    have hfollows := H.offer header.tag pos payload s
    rw [hoffer, H.record] at hfollows
    rw [loop, H.schema, H.record, ← ih]
    refine (if_neg hlong).trans ((if_neg htag).trans ((if_neg hoffsets).trans
      ((if_neg hpayload).trans ?_)))
    split
    case h_1 e' he => cases he.symm.trans hfollows
    case h_2 s₁ hs =>
      cases hs.symm.trans hfollows
      rfl

end Fields

end GamePlugin
