import WzGame.Chr.PlayerSaver

/-!
This module contains how a character is built from the rows of its modules.
-/

namespace WzGame

namespace PlayerLoader

def equipOf (equipData : MapObject) : EquipEntity :=
  { EquipEntity.getEmptyEntity with
    entityId := .ofInt (equipData.getLong "equip_id" 0)
    equipId := equipData.getInt "conf_id"
    level := equipData.getInt "level"
    jinglianExp := equipData.getInt "jinglian_exp"
    jinglianLevel := equipData.getInt "jinglian_level"
    starLevel := equipData.getInt "star_level"
    starExp := equipData.getInt "star_exp"
    starBless := equipData.getInt "star_bless"
    goldLevel := equipData.getInt "gold_level" }

def addResources (resourceMap : ResourceMap) (playerData : MapObject) : ResourceMap :=
  resourceMap
    |>.updateResource .diamond (.ofInt (playerData.getLong "diamond" 0)) true
    |>.updateResource .silver (.ofInt (playerData.getLong "silver" 0)) true
    |>.updateResource .reputation (.ofInt (playerData.getLong "reputation" 0)) true

def heroOf [Gson Int32] (heroData : MapObject) : Option HeroEntity := do
  let awakeInfo ← Gson.fromJson (← heroData.getString "awake_info")
  return { HeroEntity.getEmptyEntity with
    entityId := .ofInt (heroData.getLong "hero_id" 0)
    heroId := heroData.getInt "conf_id"
    awakeLevel := heroData.getInt "awake_level"
    tianmingLevel := heroData.getInt "tianming_level"
    breakLevel := heroData.getInt "break_level"
    level := heroData.getInt "level"
    exp := heroData.getInt "exp"
    awakeInfo := awakeInfo }

def formationOf [Gson Int64] [Gson (Option Formation)] (data : MapObject)
    : Option CharFormation := do
  let partners ← Gson.fromJson (← data.getString "partners")
  let battleFormation ← Gson.fromJson (← data.getString "battle_formation")
  let formations ← Gson.fromJson (← data.getString "formation_info")
  return ⟨formations, partners, battleFormation⟩

section base

variable [DataUtil]

def moduleRows (ch : RyCharacter) (charData : CharData) (action : DBAction)
    : Option (List MapObject) :=
  if ch.entityId.toInt = charData.charId then charData.getModuleData action else none

def loadBaseData (ch : RyCharacter) (charData : CharData) : Option RyCharacter := do
  let datas ← moduleRows ch charData .player
  let playerData ← datas.head?
  let playerName ← playerData.getString "player_name"
  return { ch with
    playerName := playerName
    userId := playerData.getInt "user_id"
    resourceMap := addResources ch.resourceMap playerData }

def loadEquipData (ch : RyCharacter) (charData : CharData) : Option RyCharacter := do
  let datas ← moduleRows ch charData .equip
  return { ch with
    charEquip := (datas.map equipOf).foldl EntityStorage.addEntity ch.charEquip }

end base

variable [DataUtil] [Gson Int32] [Gson Int64] [Gson (Option Formation)]

def loadHeroEntity (ch : RyCharacter) (charData : CharData) : Option RyCharacter := do
  let datas ← moduleRows ch charData .hero
  let heroes ← datas.mapM heroOf
  return { ch with charHero := heroes.foldl EntityStorage.addEntity ch.charHero }

def loadFormation (ch : RyCharacter) (charData : CharData) : Option RyCharacter := do
  match ← moduleRows ch charData .formation with
  | [] => return ch
  | data :: _ =>
    let charFormation ← formationOf data
    return { ch with charFormation := charFormation }

-- `none` is an exception.
def loadFromCharData (currentTimeMillis : Int64) (charData : CharData) : Option RyCharacter := do
  let ch := RyCharacter.getEmptyChar currentTimeMillis (.ofInt charData.charId)
  let ch ← loadBaseData ch charData
  let ch ← loadHeroEntity ch charData
  let ch ← loadEquipData ch charData
  loadFormation ch charData

end PlayerLoader

end WzGame
