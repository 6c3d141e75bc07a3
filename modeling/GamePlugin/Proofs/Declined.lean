import GamePlugin.Body
import GamePlugin.Proofs.Tables

/-!
# Declined fields

A body that declines a field has nothing to do with it: it stays as it is, and it has not read any
of the field's bytes, so that the field can be offered elsewhere. Rules may decline late. Whether a
field can be taken may depend on what came before it: a title needs a rank, the value of a setting
needs the setting's name. All of these rules look before they read, but for two that read a value
and then find that there is nothing for it to belong to. `Body.Orphan` names the fields that they
leave read to the end.

## Main definitions

* `Field.Reader.Spares` — a field that is declined has not been read.
* `Rule.Spares`, `Table.Spares` — the fields that a rule or a table declines have not been read.
* `Body.Orphan` — a value that comes before the first element it could belong to.
-/

namespace GamePlugin

open Field.Reader

variable {α β : Type}

/-! ## Readers -/

namespace Field.Reader

variable {f : Field}

/-- If the field is declined, none of its bytes has been read. -/
def Spares (x : Field.Reader (Option β)) (f : Field) : Prop :=
  Grants x f f.start fun b? c => b? = none → c = f.start

@[simp] theorem spares_some_map (x : Field.Reader β) : Spares (some <$> x) f := by
  simp [Spares]

theorem Spares.congr {x y : Field.Reader (Option β)} (h : x f = y f) (hx : Spares x f) :
    Spares y f := by
  simpa only [Spares, Grants, h] using hx

theorem Spares.map {x : Field.Reader (Option α)} (h : Spares x f) (g : α → β) :
    Spares (do return (← x).map g) f := by
  simpa [Spares] using h

end Field.Reader

/-! ## Rules and tables -/

/-- The fields that the rule declines have not been read, in the bodies where `p` holds of them. -/
def Rule.Spares (p : β → Field → Prop) (r : Rule β) : Prop :=
  ∀ b f, r.applies f → p b f → Field.Reader.Spares (r.read b) f

/-- The fields that the rules decline have not been read. -/
def Table.Spares (p : β → Field → Prop) (rules : List (Rule β)) : Prop :=
  ∀ r ∈ rules, r.Spares p

section Table

variable {p : β → Field → Prop} {tag : Tag} {sizes : Sizes} {read : β → Field.Reader β}

-- Rules that take all fields they apply to.
@[simp] theorem Rule.spares_on : (on tag sizes read).Spares p :=
  fun b _ _ _ => spares_some_map (read b)

@[simp] theorem Rule.spares_onTes3 : (onTes3 tag sizes read).Spares p :=
  fun b _ _ _ => spares_some_map (read b)

@[simp] theorem Rule.spares_onGrouped : (onGrouped tag sizes read).Spares p :=
  fun b _ _ _ => spares_some_map (read b)

@[simp] theorem Rule.spares_onSchema {schema : Schema} :
    (onSchema schema tag sizes read).Spares p :=
  fun b _ _ _ => spares_some_map (read b)

theorem Rule.Spares.within {r : Rule β} (h : r.Spares fun _ _ => True) (get : α → β)
    (set : α → β → α) {q : α → Field → Prop} : (r.within get set).Spares q :=
  fun a f happlies _ => (h (get a) f happlies trivial).map (set a)

namespace Table

@[simp] theorem spares_nil : Spares p [] := List.forall_mem_nil _

@[simp] theorem spares_cons {r : Rule β} {rules : List (Rule β)} :
    Spares p (r :: rules) ↔ r.Spares p ∧ Spares p rules :=
  List.forall_mem_cons

@[simp] theorem spares_append {rules rules' : List (Rule β)} :
    Spares p (rules ++ rules') ↔ Spares p rules ∧ Spares p rules' :=
  List.forall_mem_append

@[simp] theorem spares_map {l : List α} {g : α → Rule β} :
    Spares p (l.map g) ↔ ∀ a ∈ l, (g a).Spares p :=
  List.forall_mem_map

theorem Spares.within {rules : List (Rule β)} (h : Spares (fun _ _ => True) rules) (get : α → β)
    (set : α → β → α) {q : α → Field → Prop} : Spares q (rules.map (Rule.within get set)) :=
  spares_map.mpr fun r hr => (h r hr).within get set

theorem Spares.offerTo {rules : List (Rule β)} (h : Spares p rules) {b : β} {f : Field}
    (hp : p b f) : Field.Reader.Spares (offerTo rules b) f := by
  cases hfind : rules.find? (·.applies f) with
  | none =>
    intro b? c hread _
    simp only [GamePlugin.offerTo, hfind] at hread
    cases hread
    rfl
  | some r =>
    have hread : r.read b f = GamePlugin.offerTo rules b f := by
      funext c
      simp only [GamePlugin.offerTo, hfind]
    have happlies : r.applies f := List.find?_some (p := fun r : Rule β => r.applies f) hfind
    exact (h r (List.mem_of_find?_eq_some hfind) b f happlies hp).congr hread

end Table

/-- The first rule that applies decides. -/
theorem ends_offerTo_cons {r : Rule β} {rules : List (Rule β)} {b : β} {f : Field}
    {c : Field.Cursor} {Q : Option β → Field.Cursor → Prop} :
    Ends (offerTo (r :: rules) b) f c Q ↔
      if r.applies f then Ends (r.read b) f c Q else Ends (offerTo rules b) f c Q := by
  cases happlies : r.applies f with
  | true => simp only [Ends, offerTo, List.find?_cons, happlies, if_true]
  | false => simp only [Ends, offerTo, List.find?_cons, happlies, Bool.false_eq_true, if_false]

@[simp] theorem Identity.spares_within {get : β → Identity} {set : β → Identity → β} :
    Table.Spares p (rulesWithin get set) :=
  .within (by simp [rules]) get set

@[simp] theorem Effect.spares_within {get : β → Array Effect} {set : β → Array Effect → β} :
    Table.Spares p (rulesWithin get set) :=
  .within (by simp [rules]) get set

@[simp] theorem ItemEntry.spares_within {get : β → Array ItemEntry}
    {set : β → Array ItemEntry → β} : Table.Spares p (rulesWithin get set) :=
  .within (by simp [rules]) get set

end Table

/-! ## Rules that look before they read -/

section Guarded

variable {tag : Tag} {sizes : Sizes} {schemas : List Schema}

theorem GameSetting.spares_readValue (s : GameSetting) (f : Field) : Spares s.readValue f := by
  simp only [Spares, readValue, grants_bind, grants_read]
  split <;> simp

theorem GameSetting.spares : Table.Spares (fun _ _ => True) rules := by
  simp only [rules, Table.spares_cons, Table.spares_nil, Rule.spares_onTes3,
    Rule.spares_onGrouped, true_and, and_true]
  exact fun s f _ _ => (s.spares_readValue f).map _

@[simp] theorem Quest.spares_readObjectiveText {p : Quest → Field → Prop} :
    Rule.Spares p ⟨tag, sizes, schemas, readObjectiveText⟩ := by
  intro q f _ _
  simp [Spares, readObjectiveText]

@[simp] theorem Climate.spares_readWeathers {p : Climate → Field → Prop} :
    Rule.Spares p ⟨tag, sizes, schemas, readWeathers⟩ := by
  intro c f _ _
  simp [Spares, readWeathers]

@[simp] theorem Faction.spares_readTitle {p : Faction → Field → Prop}
    {set : FactionRank → String → FactionRank} :
    Rule.Spares p ⟨tag, sizes, schemas, readTitle set⟩ := by
  intro g f _ _
  simp [Spares, readTitle]

end Guarded

theorem Cell.spares_offer (c : Cell) (f : Field) : Spares (Cell.offer c) f := by
  have hreference : Table.Spares (fun _ _ => True) CellReference.rules := by
    simp [CellReference.rules]
  have hcell : Table.Spares (fun _ _ => True) rules := by
    simp [rules]
  simp only [Spares, offer, grants_bind, grants_read, grants_ite]
  split
  case isTrue =>
    rw [offerToLatest]
    split
    case h_1 => simp
    case h_2 latest _ => exact (hreference.offerTo (b := latest) trivial).map _
  case isFalse => exact hcell.offerTo trivial

/-! ## Values without an element -/

/-- The size of a value that belongs to the latest element of the body's list, if there is no
element. -/
def Body.orphanSize? : Body → Option Nat
  | leveledList l => if l.entries.isEmpty then some 2 else none
  | faction g => if g.relations.isEmpty then some 4 else none
  | _ => none

/-- The field is a value that belongs to the latest element of the body's list, and there is no
element. -/
def Body.Orphan (b : Body) (f : Field) : Prop :=
  f.tag = .INTV ∧ f.context.schema = .tes3 ∧ b.orphanSize? = some f.size

/-- A rule that reads a value and then declines it for want of an element spares the fields of
bodies that have one. -/
theorem Rule.spares_late {p : β → Field → Prop} {tag : Tag} {n : Nat} {x : Field.Reader α}
    {lacks : β → Bool} {put : β → α → β}
    (h : ∀ b f, f.tag = tag → f.context.schema = .tes3 → f.size = n → p b f → lacks b = false) :
    Rule.Spares p ⟨tag, .exactly n, [.tes3], fun b => do
      let a ← x
      if lacks b then return none else return some (put b a)⟩ := by
  intro b f happlies hp
  obtain ⟨htag, hschema, hsize⟩ := Rule.applies_iff.mp happlies
  have hlacks : lacks b = false :=
    h b f htag (List.mem_singleton.mp hschema) (of_decide_eq_true hsize) hp
  simp [Field.Reader.Spares, hlacks]

theorem LeveledList.spares : Table.Spares (fun l f => ¬(Body.leveledList l).Orphan f) rules := by
  simp only [rules, Table.spares_append, Table.spares_cons, Table.spares_nil, Rule.spares_on,
    Rule.spares_onTes3, Rule.spares_onGrouped, Identity.spares_within, true_and, and_true]
  refine Rule.spares_late fun l f htag hschema hsize horphan => ?_
  simpa [Body.Orphan, Body.orphanSize?, htag, hschema, hsize] using horphan

theorem Faction.spares : Table.Spares (fun g f => ¬(Body.faction g).Orphan f) rules := by
  simp only [rules, Table.spares_append, Table.spares_cons, Table.spares_nil,
    Rule.spares_onTes3, Rule.spares_onGrouped, spares_readTitle, Identity.spares_within, true_and,
    and_true]
  refine Rule.spares_late fun g f htag hschema hsize horphan => ?_
  simpa [Body.Orphan, Body.orphanSize?, htag, hschema, hsize] using horphan

namespace Body

variable {b b' : Body} {f : Field} {c : Field.Cursor}

/-- All other fields that a body declines have not been read. -/
theorem spares_offer (h : ¬b.Orphan f) : Spares (offer b) f := by
  cases b
  case cell c => exact (c.spares_offer f).map _
  case leveledList l => exact (LeveledList.spares.offerTo h).map _
  case faction g => exact (Faction.spares.offerTo h).map _
  case gameSetting s => exact (GameSetting.spares.offerTo trivial).map _
  all_goals
    refine (Table.Spares.offerTo (p := fun _ _ => True) ?_ trivial).map _
    simp [Root.rules, Global.rules, Class.rules, Race.rules, Birthsign.rules, Skill.rules,
      Sound.rules, MagicEffect.rules, Script.rules, LandTexture.rules, Spell.rules,
      Enchantment.rules, Potion.rules, Ingredient.rules, Weapon.rules, Armor.rules, Ammo.rules,
      Book.rules, Clothing.rules, Light.rules, Item.rules, Container.rules, Door.rules,
      TextureSet.rules, FormList.rules, Actor.rules, Land.rules, Worldspace.rules, Region.rules,
      Climate.rules, PathGrid.rules, Reference.rules, Topic.rules, Info.rules,
      Info.tes3Rules, Info.groupedRules, Quest.rules, Plain.rules]

/-- A value without an element is read to its end and then declined. -/
theorem offer_of_orphan (h : b.Orphan f) : offer b f f.start = .ok none (f.place f.size) := by
  obtain ⟨htag, hschema, hsize⟩ := h
  have hends : Ends (offer b) f (f.place 0) fun b? c => b? = none ∧ c = f.place f.size := by
    cases b
    case leveledList l =>
      obtain ⟨hempty, hsize⟩ : l.entries = #[] ∧ 2 = f.size := by simpa [orphanSize?] using hsize
      simp +decide [offer, LeveledList.rules, ends_offerTo_cons, Rule.applies, Rule.on,
        Rule.onTes3, Sizes.allow, word16, htag, hschema, ← hsize, hempty]
    case faction g =>
      obtain ⟨hempty, hsize⟩ : g.relations = #[] ∧ 4 = f.size := by simpa [orphanSize?] using hsize
      simp +decide [offer, Faction.rules, ends_offerTo_cons, Rule.applies, Rule.onTes3,
        Sizes.allow, int32, htag, hschema, ← hsize, hempty]
    all_goals cases hsize
  obtain ⟨_, _, hread, rfl, rfl⟩ := hends
  exact hread

/-- **A declined field is left alone.** The body is as before, and no byte of the field has been
read, unless the field is a value without an element, which has been read to the end. -/
theorem sink_of_declined (h : Offer.sink offer b f f.start = .ok (.declined, b') c) :
    b' = b ∧ (¬b.Orphan f → c = f.start) ∧ (b.Orphan f → c = f.place f.size) := by
  obtain ⟨b?, hread, rfl, hnone⟩ := Offer.exists_of_sink h
  obtain rfl : b? = none := hnone.mp rfl
  refine ⟨rfl, fun horphan => spares_offer horphan none c hread rfl, fun horphan => ?_⟩
  cases hread.symm.trans (offer_of_orphan horphan)
  rfl

/-- The text of an objective, offered to a quest that has none. -/
def earlyText : Field := ⟨.NNAM, .QUST, 24, .ofEdition .skyrim, [65, 0]⟩

theorem sink_of_declined_earlyText :
    ∃ c, Offer.sink offer Shape.quest.empty earlyText earlyText.start =
        .ok (.declined, Shape.quest.empty) c ∧ c = earlyText.start := by
  have hsink : Offer.sink offer Shape.quest.empty earlyText earlyText.start =
      .ok (.declined, Shape.quest.empty) earlyText.start := rfl
  have horphan : ¬Shape.quest.empty.Orphan earlyText := fun horphan => nomatch horphan.1
  exact ⟨_, hsink, (sink_of_declined hsink).2.1 horphan⟩

/-- The level of an entry, offered to a leveled list that has none. -/
def earlyLevel : Field := ⟨.INTV, .LEVI, 16, .ofEdition .morrowind, [7, 0]⟩

/-- Even a body that has not taken any field yet may read a field and then decline it. -/
theorem exists_declined_after_reading :
    ¬∀ (s : Shape) (f : Field) (b' : Body) (c : Field.Cursor),
      Offer.sink offer s.empty f f.start = .ok (.declined, b') c → c.pos = 0 ∧ b' = s.empty := by
  intro h
  have horphan : Shape.leveledList.empty.Orphan earlyLevel := ⟨rfl, rfl, rfl⟩
  have hsink : Offer.sink offer Shape.leveledList.empty earlyLevel earlyLevel.start =
      .ok (.declined, Shape.leveledList.empty) (earlyLevel.place 2) :=
    bind_of_ok (offer_of_orphan horphan) _
  obtain ⟨hpos, -⟩ := h .leveledList earlyLevel _ _ hsink
  cases hpos

end Body

end GamePlugin
