import GamePlugin.Registry
import GamePlugin.Tag.Names

/-!
# The standard registry

The record types of all editions.
-/

namespace GamePlugin.Registry

/-- The first record of a file. -/
def rootTypes : List RecordType :=
  [ ⟨.TES3, "Plugin Header", .only .morrowind, .root⟩,
    ⟨.TES4, "Plugin Header", .since .oblivion, .root⟩ ]

/-- Settings and what characters are made of. -/
def peopleTypes : List RecordType :=
  [ ⟨.GMST, "Game Setting", .all, .gameSetting⟩,
    ⟨.GLOB, "Global", .all, .global⟩,
    ⟨.CLAS, "Class", .all, .profession⟩,
    ⟨.FACT, "Faction", .all, .faction⟩,
    ⟨.RACE, "Race", .all, .race⟩,
    ⟨.BSGN, "Birthsign", .upTo .oblivion, .birthsign⟩,
    ⟨.SKIL, "Skill", .upTo .oblivion, .skill⟩,
    ⟨.HAIR, "Hair", ⟨.oblivion, .falloutNV⟩, .plain⟩,
    ⟨.EYES, "Eyes", .since .oblivion, .plain⟩,
    ⟨.HDPT, "Head Part", .since .fallout3, .plain⟩,
    ⟨.BODY, "Body Part", .only .morrowind, .plain⟩,
    ⟨.AVIF, "Actor Value", .since .fallout3, .plain⟩,
    ⟨.PERK, "Perk", .since .fallout3, .plain⟩,
    ⟨.KYWD, "Keyword", .since .skyrim, .plain⟩ ]

/-- Magic and scripts. -/
def magicTypes : List RecordType :=
  [ ⟨.MGEF, "Magic Effect", .all, .magicEffect⟩,
    ⟨.SPEL, "Spell", .all, .spell⟩,
    ⟨.ENCH, "Enchantment", .all, .enchantment⟩,
    ⟨.ALCH, "Potion", .all, .potion⟩,
    ⟨.INGR, "Ingredient", .all, .ingredient⟩,
    ⟨.SCPT, "Script", .upTo .falloutNV, .script⟩,
    ⟨.SCRL, "Scroll", ⟨.skyrim, .skyrimSE⟩, .plain⟩,
    ⟨.SHOU, "Shout", ⟨.skyrim, .skyrimSE⟩, .plain⟩,
    ⟨.WOOP, "Word of Power", ⟨.skyrim, .skyrimSE⟩, .plain⟩,
    ⟨.SSCR, "Start Script", .only .morrowind, .plain⟩ ]

/-- What can be carried. -/
def itemTypes : List RecordType :=
  [ ⟨.WEAP, "Weapon", .all, .weapon⟩,
    ⟨.ARMO, "Armor", .all, .armor⟩,
    ⟨.ARMA, "Armor Addon", .since .fallout3, .plain⟩,
    ⟨.AMMO, "Ammunition", .since .oblivion, .ammo⟩,
    ⟨.BOOK, "Book", .all, .book⟩,
    ⟨.CLOT, "Clothing", .upTo .oblivion, .clothing⟩,
    ⟨.LIGH, "Light", .all, .light⟩,
    ⟨.MISC, "Misc Item", .all, .item⟩,
    ⟨.APPA, "Apparatus", .upTo .skyrimSE, .item⟩,
    ⟨.LOCK, "Lockpick", .only .morrowind, .item⟩,
    ⟨.PROB, "Probe", .only .morrowind, .item⟩,
    ⟨.REPA, "Repair Item", .only .morrowind, .item⟩,
    ⟨.KEYM, "Key", .since .oblivion, .item⟩,
    ⟨.SLGM, "Soul Gem", ⟨.oblivion, .skyrimSE⟩, .item⟩,
    ⟨.NOTE, "Note", ⟨.fallout3, .fallout76⟩, .plain⟩,
    ⟨.CMNY, "Caravan Money", .only .falloutNV, .plain⟩,
    ⟨.CCRD, "Caravan Card", .only .falloutNV, .plain⟩,
    ⟨.CHIP, "Casino Chip", .only .falloutNV, .plain⟩,
    ⟨.IMOD, "Item Mod", .only .falloutNV, .plain⟩,
    ⟨.OMOD, "Object Modification", .since .fallout4, .plain⟩,
    ⟨.COBJ, "Constructible Object", .since .fallout3, .plain⟩,
    ⟨.RCPE, "Recipe", .only .falloutNV, .plain⟩,
    ⟨.RCCT, "Recipe Category", .only .falloutNV, .plain⟩ ]

/-- What can be placed, and lists of it. -/
def objectTypes : List RecordType :=
  [ ⟨.ACTI, "Activator", .all, .plain⟩,
    ⟨.TACT, "Talking Activator", .since .fallout3, .plain⟩,
    ⟨.STAT, "Static", .all, .plain⟩,
    ⟨.SCOL, "Static Collection", .since .fallout3, .plain⟩,
    ⟨.MSTT, "Movable Static", .since .fallout3, .plain⟩,
    ⟨.FLOR, "Flora", .since .oblivion, .plain⟩,
    ⟨.FURN, "Furniture", .since .oblivion, .plain⟩,
    ⟨.GRAS, "Grass", .since .oblivion, .plain⟩,
    ⟨.TREE, "Tree", .since .oblivion, .plain⟩,
    ⟨.TERM, "Terminal", .since .fallout3, .plain⟩,
    ⟨.IDLM, "Idle Marker", .since .fallout3, .plain⟩,
    ⟨.ADDN, "Addon Node", .since .fallout3, .plain⟩,
    ⟨.ARTO, "Art Object", .since .skyrim, .plain⟩,
    ⟨.CONT, "Container", .all, .container⟩,
    ⟨.DOOR, "Door", .all, .door⟩,
    ⟨.TXST, "Texture Set", .since .fallout3, .textureSet⟩,
    ⟨.FLST, "Form List", .since .fallout3, .formList⟩,
    ⟨.LEVC, "Leveled Creature", .only .morrowind, .leveledList⟩,
    ⟨.LEVI, "Leveled Item", .only .morrowind, .leveledList⟩,
    ⟨.LVLC, "Leveled Creature", ⟨.oblivion, .falloutNV⟩, .leveledList⟩,
    ⟨.LVLI, "Leveled Item", .since .oblivion, .leveledList⟩,
    ⟨.LVLN, "Leveled NPC", .since .fallout3, .leveledList⟩,
    ⟨.LVSP, "Leveled Spell", .since .oblivion, .leveledList⟩,
    ⟨.SOUN, "Sound", .all, .sound⟩,
    ⟨.SNDG, "Sound Generator", .only .morrowind, .plain⟩,
    ⟨.SNDR, "Sound Descriptor", .since .skyrim, .plain⟩,
    ⟨.MUSC, "Music Type", .since .fallout3, .plain⟩,
    ⟨.ASPC, "Acoustic Space", .since .fallout3, .plain⟩ ]

/-- Actors and what they do. -/
def actorTypes : List RecordType :=
  [ ⟨.NPC_, "Non-Player Character", .all, .actor⟩,
    ⟨.CREA, "Creature", .upTo .falloutNV, .actor⟩,
    ⟨.PACK, "AI Package", .since .oblivion, .plain⟩,
    ⟨.CSTY, "Combat Style", .since .oblivion, .plain⟩,
    ⟨.IDLE, "Idle Animation", .since .oblivion, .plain⟩,
    ⟨.ANIO, "Animated Object", .since .oblivion, .plain⟩,
    ⟨.BPTD, "Body Part Data", .since .fallout3, .plain⟩,
    ⟨.VTYP, "Voice Type", .since .fallout3, .plain⟩,
    ⟨.RGDL, "Ragdoll", ⟨.fallout3, .falloutNV⟩, .plain⟩,
    ⟨.OTFT, "Outfit", .since .skyrim, .plain⟩,
    ⟨.RELA, "Relationship", .since .skyrim, .plain⟩,
    ⟨.MOVT, "Movement Type", .since .skyrim, .plain⟩ ]

/-- Cells, land and weather. -/
def worldTypes : List RecordType :=
  [ ⟨.CELL, "Cell", .all, .cell⟩,
    ⟨.LAND, "Landscape", .all, .land⟩,
    ⟨.LTEX, "Land Texture", .all, .landTexture⟩,
    ⟨.WRLD, "Worldspace", .since .oblivion, .worldspace⟩,
    ⟨.REGN, "Region", .all, .region⟩,
    ⟨.CLMT, "Climate", .since .oblivion, .climate⟩,
    ⟨.WTHR, "Weather", .since .oblivion, .plain⟩,
    ⟨.WATR, "Water", .since .oblivion, .plain⟩,
    ⟨.PGRD, "Path Grid", .upTo .oblivion, .pathGrid⟩,
    ⟨.ROAD, "Road", .only .oblivion, .plain⟩,
    ⟨.SBSP, "Subspace", .only .oblivion, .plain⟩,
    ⟨.NAVI, "Navigation Mesh Info Map", .since .fallout3, .plain⟩,
    ⟨.NAVM, "Navigation Mesh", .since .fallout3, .plain⟩,
    ⟨.ECZN, "Encounter Zone", .since .fallout3, .plain⟩,
    ⟨.LCTN, "Location", .since .skyrim, .plain⟩,
    ⟨.LCRT, "Location Reference Type", .since .skyrim, .plain⟩,
    ⟨.IMGS, "Image Space", .since .fallout3, .plain⟩,
    ⟨.IMAD, "Image Space Modifier", .since .fallout3, .plain⟩,
    ⟨.LGTM, "Lighting Template", .since .fallout3, .plain⟩,
    ⟨.MICN, "Menu Icon", ⟨.fallout3, .falloutNV⟩, .plain⟩,
    ⟨.PWAT, "Placeable Water", ⟨.fallout3, .falloutNV⟩, .plain⟩ ]

/-- What is placed in cells. -/
def placedTypes : List RecordType :=
  [ ⟨.REFR, "Placed Object", .since .oblivion, .reference⟩,
    ⟨.ACHR, "Placed NPC", .since .oblivion, .reference⟩,
    ⟨.ACRE, "Placed Creature", ⟨.oblivion, .falloutNV⟩, .reference⟩,
    ⟨.PGRE, "Placed Grenade", .since .fallout3, .reference⟩,
    ⟨.PMIS, "Placed Missile", .since .fallout3, .reference⟩,
    ⟨.PARW, "Placed Arrow", .since .skyrim, .reference⟩,
    ⟨.PBEA, "Placed Beam", .since .skyrim, .reference⟩,
    ⟨.PFLA, "Placed Flame", .since .skyrim, .reference⟩,
    ⟨.PCON, "Placed Cone", .since .skyrim, .reference⟩,
    ⟨.PBAR, "Placed Barrier", .since .skyrim, .reference⟩,
    ⟨.PHZD, "Placed Hazard", .since .skyrim, .reference⟩ ]

/-- Conversation and quests. -/
def storyTypes : List RecordType :=
  [ ⟨.DIAL, "Dialogue Topic", .all, .topic⟩,
    ⟨.INFO, "Dialogue Response", .all, .info⟩,
    ⟨.QUST, "Quest", .since .oblivion, .quest⟩,
    ⟨.MESG, "Message", .since .fallout3, .plain⟩,
    ⟨.DLBR, "Dialogue Branch", .since .skyrim, .plain⟩,
    ⟨.DLVW, "Dialogue View", .since .skyrim, .plain⟩,
    ⟨.SCEN, "Scene", .since .skyrim, .plain⟩,
    ⟨.SMBN, "Story Manager Branch Node", .since .skyrim, .plain⟩,
    ⟨.SMQN, "Story Manager Quest Node", .since .skyrim, .plain⟩,
    ⟨.SMEN, "Story Manager Event Node", .since .skyrim, .plain⟩,
    ⟨.LSCR, "Load Screen", .since .oblivion, .plain⟩,
    ⟨.REPU, "Reputation", .only .falloutNV, .plain⟩,
    ⟨.CHAL, "Challenge", .only .falloutNV, .plain⟩ ]

/-- Effects, projectiles and materials. -/
def effectTypes : List RecordType :=
  [ ⟨.EFSH, "Effect Shader", .since .oblivion, .plain⟩,
    ⟨.EXPL, "Explosion", .since .fallout3, .plain⟩,
    ⟨.PROJ, "Projectile", .since .fallout3, .plain⟩,
    ⟨.DEBR, "Debris", .since .fallout3, .plain⟩,
    ⟨.IPCT, "Impact", .since .fallout3, .plain⟩,
    ⟨.IPDS, "Impact Data Set", .since .fallout3, .plain⟩,
    ⟨.HAZD, "Hazard", .since .skyrim, .plain⟩,
    ⟨.RADS, "Radiation Stage", ⟨.fallout3, .falloutNV⟩, .plain⟩,
    ⟨.CAMS, "Camera Shot", .since .fallout3, .plain⟩,
    ⟨.CPTH, "Camera Path", .since .fallout3, .plain⟩,
    ⟨.DOBJ, "Default Object Manager", .since .fallout3, .plain⟩,
    ⟨.MATO, "Material Object", .since .skyrim, .plain⟩,
    ⟨.MATT, "Material Type", .since .skyrim, .plain⟩,
    ⟨.FSTP, "Footstep", .since .skyrim, .plain⟩,
    ⟨.FSTS, "Footstep Set", .since .skyrim, .plain⟩,
    ⟨.EQUP, "Equip Slot", .since .skyrim, .plain⟩,
    ⟨.COLL, "Collision Layer", .since .skyrim, .plain⟩,
    ⟨.CLFM, "Color", .since .skyrim, .plain⟩,
    ⟨.REVB, "Reverb Parameters", .since .skyrim, .plain⟩,
    ⟨.SPGD, "Shader Particle Geometry", .since .skyrim, .plain⟩ ]

/-- All known record types. -/
def standard : Registry :=
  ⟨rootTypes ++ peopleTypes ++ magicTypes ++ itemTypes ++ objectTypes ++ actorTypes ++ worldTypes ++
    placedTypes ++ storyTypes ++ effectTypes⟩

end GamePlugin.Registry
