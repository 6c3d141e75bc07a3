import GamePlugin.Body.Actor
import GamePlugin.Body.Alchemy
import GamePlugin.Body.Apparel
import GamePlugin.Body.Book
import GamePlugin.Body.Cell
import GamePlugin.Body.Faction
import GamePlugin.Body.Item
import GamePlugin.Body.Land
import GamePlugin.Body.Lists
import GamePlugin.Body.PathGrid
import GamePlugin.Body.People
import GamePlugin.Body.Quest
import GamePlugin.Body.Reference
import GamePlugin.Body.Root
import GamePlugin.Body.Script
import GamePlugin.Body.Setting
import GamePlugin.Body.Spell
import GamePlugin.Body.Texture
import GamePlugin.Body.Topic
import GamePlugin.Body.Weapon
import GamePlugin.Body.World

/-!
# Bodies

What a record says, once its fields are read. There are forty shapes of bodies; a record starts from
the empty body of its shape and takes in one field after another.

## Main definitions

* `Shape` — the shapes; `Shape.empty` — the body to start from.
* `Body` — a body of some shape; `Body.shape`, `Body.editorId`, `Body.name`.
* `Body.offer` — offers a field to a body.
-/

namespace GamePlugin

/-- The shapes that a body can have. -/
inductive Shape where
  | root
  | gameSetting
  | global
  | profession
  | faction
  | race
  | birthsign
  | skill
  | sound
  | magicEffect
  | script
  | landTexture
  | spell
  | enchantment
  | potion
  | ingredient
  | weapon
  | armor
  | ammo
  | book
  | clothing
  | light
  | item
  | container
  | door
  | textureSet
  | formList
  | leveledList
  | actor
  | cell
  | land
  | worldspace
  | region
  | climate
  | pathGrid
  | reference
  | topic
  | info
  | quest
  | plain
deriving DecidableEq

/-- Every shape. -/
def Shape.all : List Shape :=
  [root, gameSetting, global, profession, faction, race, birthsign, skill, sound, magicEffect,
    script, landTexture, spell, enchantment, potion, ingredient, weapon, armor, ammo, book,
    clothing, light, item, container, door, textureSet, formList, leveledList, actor, cell,
    land, worldspace, region, climate, pathGrid, reference, topic, info, quest, plain]

/-- The name of a shape. -/
def Shape.text : Shape → String
  | root => "Header"
  | gameSetting => "GameSetting"
  | global => "Global"
  | profession => "Class"
  | faction => "Faction"
  | race => "Race"
  | birthsign => "Birthsign"
  | skill => "Skill"
  | sound => "Sound"
  | magicEffect => "MagicEffect"
  | script => "Script"
  | landTexture => "LandTexture"
  | spell => "Spell"
  | enchantment => "Enchantment"
  | potion => "Potion"
  | ingredient => "Ingredient"
  | weapon => "Weapon"
  | armor => "Armor"
  | ammo => "Ammo"
  | book => "Book"
  | clothing => "Clothing"
  | light => "Light"
  | item => "Item"
  | container => "Container"
  | door => "Door"
  | textureSet => "TextureSet"
  | formList => "FormList"
  | leveledList => "LeveledList"
  | actor => "Actor"
  | cell => "Cell"
  | land => "Land"
  | worldspace => "Worldspace"
  | region => "Region"
  | climate => "Climate"
  | pathGrid => "PathGrid"
  | reference => "Reference"
  | topic => "Dialogue"
  | info => "Info"
  | quest => "Quest"
  | plain => "Object"

/-- The body of a record. -/
inductive Body where
  | root (b : Root)
  | gameSetting (b : GameSetting)
  | global (b : Global)
  | profession (b : Class)
  | faction (b : Faction)
  | race (b : Race)
  | birthsign (b : Birthsign)
  | skill (b : Skill)
  | sound (b : Sound)
  | magicEffect (b : MagicEffect)
  | script (b : Script)
  | landTexture (b : LandTexture)
  | spell (b : Spell)
  | enchantment (b : Enchantment)
  | potion (b : Potion)
  | ingredient (b : Ingredient)
  | weapon (b : Weapon)
  | armor (b : Armor)
  | ammo (b : Ammo)
  | book (b : Book)
  | clothing (b : Clothing)
  | light (b : Light)
  | item (b : Item)
  | container (b : Container)
  | door (b : Door)
  | textureSet (b : TextureSet)
  | formList (b : FormList)
  | leveledList (b : LeveledList)
  | actor (b : Actor)
  | cell (b : Cell)
  | land (b : Land)
  | worldspace (b : Worldspace)
  | region (b : Region)
  | climate (b : Climate)
  | pathGrid (b : PathGrid)
  | reference (b : Reference)
  | topic (b : Topic)
  | info (b : Info)
  | quest (b : Quest)
  | plain (b : Plain)

/-- The body of a shape before any field is read. -/
def Shape.empty : Shape → Body
  | root => .root {}
  | gameSetting => .gameSetting {}
  | global => .global {}
  | profession => .profession {}
  | faction => .faction {}
  | race => .race {}
  | birthsign => .birthsign {}
  | skill => .skill {}
  | sound => .sound {}
  | magicEffect => .magicEffect {}
  | script => .script {}
  | landTexture => .landTexture {}
  | spell => .spell {}
  | enchantment => .enchantment {}
  | potion => .potion {}
  | ingredient => .ingredient {}
  | weapon => .weapon {}
  | armor => .armor {}
  | ammo => .ammo {}
  | book => .book {}
  | clothing => .clothing {}
  | light => .light {}
  | item => .item {}
  | container => .container {}
  | door => .door {}
  | textureSet => .textureSet {}
  | formList => .formList {}
  | leveledList => .leveledList {}
  | actor => .actor {}
  | cell => .cell {}
  | land => .land {}
  | worldspace => .worldspace {}
  | region => .region {}
  | climate => .climate {}
  | pathGrid => .pathGrid {}
  | reference => .reference {}
  | topic => .topic {}
  | info => .info {}
  | quest => .quest {}
  | plain => .plain {}

namespace Body

/-- The shape of a body. -/
def shape : Body → Shape
  | root _ => .root
  | gameSetting _ => .gameSetting
  | global _ => .global
  | profession _ => .profession
  | faction _ => .faction
  | race _ => .race
  | birthsign _ => .birthsign
  | skill _ => .skill
  | sound _ => .sound
  | magicEffect _ => .magicEffect
  | script _ => .script
  | landTexture _ => .landTexture
  | spell _ => .spell
  | enchantment _ => .enchantment
  | potion _ => .potion
  | ingredient _ => .ingredient
  | weapon _ => .weapon
  | armor _ => .armor
  | ammo _ => .ammo
  | book _ => .book
  | clothing _ => .clothing
  | light _ => .light
  | item _ => .item
  | container _ => .container
  | door _ => .door
  | textureSet _ => .textureSet
  | formList _ => .formList
  | leveledList _ => .leveledList
  | actor _ => .actor
  | cell _ => .cell
  | land _ => .land
  | worldspace _ => .worldspace
  | region _ => .region
  | climate _ => .climate
  | pathGrid _ => .pathGrid
  | reference _ => .reference
  | topic _ => .topic
  | info _ => .info
  | quest _ => .quest
  | plain _ => .plain

@[simp] theorem shape_empty (s : Shape) : s.empty.shape = s := by cases s <;> rfl

/-- The identity of a body, for shapes that have one. -/
def identity? : Body → Option Identity
  | root _ => none
  | gameSetting _ => none
  | global _ => none
  | profession b => some b.identity
  | faction b => some b.identity
  | race b => some b.identity
  | birthsign b => some b.identity
  | skill b => some b.identity
  | sound b => some b.identity
  | magicEffect b => some b.identity
  | script b => some b.identity
  | landTexture b => some b.identity
  | spell b => some b.identity
  | enchantment b => some b.identity
  | potion b => some b.identity
  | ingredient b => some b.identity
  | weapon b => some b.identity
  | armor b => some b.identity
  | ammo b => some b.identity
  | book b => some b.identity
  | clothing b => some b.identity
  | light b => some b.identity
  | item b => some b.identity
  | container b => some b.identity
  | door b => some b.identity
  | textureSet b => some b.identity
  | formList b => some b.identity
  | leveledList b => some b.identity
  | actor b => some b.identity
  | cell b => some b.identity
  | land _ => none
  | worldspace b => some b.identity
  | region b => some b.identity
  | climate b => some b.identity
  | pathGrid b => some b.identity
  | reference _ => none
  | topic b => some b.identity
  | info b => some b.identity
  | quest b => some b.identity
  | plain b => some b.identity

/-- The editor id, if there is one. -/
def editorId : Body → Option String
  | gameSetting b => b.editorId
  | global b => b.editorId
  | reference b => b.editorId
  | b => b.identity?.bind (·.editorId)

/-- The name for display, if there is one. -/
def name (b : Body) : Option DisplayText := b.identity?.bind (·.name)

/-- Offers a field to a body. -/
def offer : Offer Body
  | root b => return (← offerTo Root.rules b).map .root
  | gameSetting b => return (← offerTo GameSetting.rules b).map .gameSetting
  | global b => return (← offerTo Global.rules b).map .global
  | profession b => return (← offerTo Class.rules b).map .profession
  | faction b => return (← offerTo Faction.rules b).map .faction
  | race b => return (← offerTo Race.rules b).map .race
  | birthsign b => return (← offerTo Birthsign.rules b).map .birthsign
  | skill b => return (← offerTo Skill.rules b).map .skill
  | sound b => return (← offerTo Sound.rules b).map .sound
  | magicEffect b => return (← offerTo MagicEffect.rules b).map .magicEffect
  | script b => return (← offerTo Script.rules b).map .script
  | landTexture b => return (← offerTo LandTexture.rules b).map .landTexture
  | spell b => return (← offerTo Spell.rules b).map .spell
  | enchantment b => return (← offerTo Enchantment.rules b).map .enchantment
  | potion b => return (← offerTo Potion.rules b).map .potion
  | ingredient b => return (← offerTo Ingredient.rules b).map .ingredient
  | weapon b => return (← offerTo Weapon.rules b).map .weapon
  | armor b => return (← offerTo Armor.rules b).map .armor
  | ammo b => return (← offerTo Ammo.rules b).map .ammo
  | book b => return (← offerTo Book.rules b).map .book
  | clothing b => return (← offerTo Clothing.rules b).map .clothing
  | light b => return (← offerTo Light.rules b).map .light
  | item b => return (← offerTo Item.rules b).map .item
  | container b => return (← offerTo Container.rules b).map .container
  | door b => return (← offerTo Door.rules b).map .door
  | textureSet b => return (← offerTo TextureSet.rules b).map .textureSet
  | formList b => return (← offerTo FormList.rules b).map .formList
  | leveledList b => return (← offerTo LeveledList.rules b).map .leveledList
  | actor b => return (← offerTo Actor.rules b).map .actor
  | cell b => return (← Cell.offer b).map .cell
  | land b => return (← offerTo Land.rules b).map .land
  | worldspace b => return (← offerTo Worldspace.rules b).map .worldspace
  | region b => return (← offerTo Region.rules b).map .region
  | climate b => return (← offerTo Climate.rules b).map .climate
  | pathGrid b => return (← offerTo PathGrid.rules b).map .pathGrid
  | reference b => return (← offerTo Reference.rules b).map .reference
  | topic b => return (← offerTo Topic.rules b).map .topic
  | info b => return (← offerTo Info.rules b).map .info
  | quest b => return (← offerTo Quest.rules b).map .quest
  | plain b => return (← offerTo Plain.rules b).map .plain

end Body

end GamePlugin
