import WzGame.Chr.RyCharacter
import WzGame.Db.CharData

/-!
This module contains the rows that a character is saved as.
-/

namespace WzGame

/--
The JSON of arrays. `parse` is `none` when the text cannot be read, and a JSON `null` is read as
`some none`.
-/
class Gson (α : Type) where
  toJson : Option (List α) → String
  parse : String → Option (Option (List α))

namespace Gson

variable {α : Type} [Gson α]

-- a `null` instead of a text gives a `null`
def fromJson : Option String → Option (Option (List α))
  | none => some none
  | some json => parse json

def RoundTrips (array : Option (List α)) : Prop := parse (toJson array) = some array

theorem RoundTrips.fromJson_eq {array : Option (List α)} (h : RoundTrips array)
    : fromJson (some (toJson array)) = some array := h

end Gson

namespace PlayerSaver

def genePlayerData (ch : RyCharacter) : MapObject :=
  (∅ : MapObject)
    |>.put "player_id" (.long ch.entityId.toInt)
    |>.put "user_id" (.int ch.userId.toInt)
    |>.put "diamond" (.long (ch.resourceMap .diamond).toInt)
    |>.put "silver" (.long (ch.resourceMap .silver).toInt)
    |>.put "reputation" (.long (ch.resourceMap .reputation).toInt)
    |>.put "player_name" (ch.playerName.elim .null .string)

def insertData (ch : RyCharacter) : MapObject :=
  (∅ : MapObject)
    |>.put "player_id" (.long ch.entityId.toInt)
    |>.put "diamond" (.long (ch.resourceMap .diamond).toInt)
    |>.put "silver" (.long (ch.resourceMap .silver).toInt)
    |>.put "reputation" (.long (ch.resourceMap .reputation).toInt)
    |>.put "player_name" (ch.playerName.elim .null .string)
    |>.put "user_id" (.int ch.userId.toInt)

def insertPlayer (db : Database) (ch : RyCharacter) (outcome : InsertOutcome) : Database × Bool :=
  DBUtil.executeInsert db "player" (insertData ch) outcome

def geneEquipData (playerId : Int64) (entity : EquipEntity) : MapObject :=
  (∅ : MapObject)
    |>.put "player_id" (.long playerId.toInt)
    |>.put "equip_id" (.long entity.entityId.toInt)
    |>.put "conf_id" (.int entity.equipId.toInt)
    |>.put "level" (.int entity.level.toInt)
    |>.put "jinglian_level" (.int entity.jinglianLevel.toInt)
    |>.put "jinglian_exp" (.int entity.jinglianExp.toInt)
    |>.put "star_level" (.int entity.starLevel.toInt)
    |>.put "star_exp" (.int entity.starExp.toInt)
    |>.put "star_bless" (.int entity.starBless.toInt)
    |>.put "gold_level" (.int entity.goldLevel.toInt)

variable [Gson Int32] [Gson Int64] [Gson (Option Formation)]

def geneHeroData (playerId : Int64) (entity : HeroEntity) : MapObject :=
  (∅ : MapObject)
    |>.put "player_id" (.long playerId.toInt)
    |>.put "hero_id" (.long entity.entityId.toInt)
    |>.put "conf_id" (.int entity.heroId.toInt)
    |>.put "level" (.int entity.level.toInt)
    |>.put "exp" (.int entity.exp.toInt)
    |>.put "break_level" (.int entity.breakLevel.toInt)
    |>.put "awake_level" (.int entity.awakeLevel.toInt)
    |>.put "awake_info" (.string (Gson.toJson entity.awakeInfo))
    |>.put "tianming_level" (.int entity.tianmingLevel.toInt)

def geneFormationData (ch : RyCharacter) : MapObject :=
  (∅ : MapObject)
    |>.put "player_id" (.long ch.entityId.toInt)
    |>.put "formation_info" (.string (Gson.toJson ch.charFormation.formations))
    |>.put "partners" (.string (Gson.toJson ch.charFormation.partners))
    |>.put "battle_formation" (.string (Gson.toJson ch.charFormation.battleFormation))

def rows (ch : RyCharacter) : DBAction → List MapObject
  | .all => []
  | .player => [genePlayerData ch]
  | .hero => ch.charHero.getAllEntities.map (geneHeroData ch.entityId)
  | .equip => ch.charEquip.getAllEntities.map (geneEquipData ch.entityId)
  | .formation => [geneFormationData ch]

def geneModuleData (ch : RyCharacter) (action : DBAction) : ModuleData := fun key =>
  if key = toString ch.entityId.toInt then some (rows ch action) else none

-- `saveModule` for one module after another. An exception ends it, and the flag tells of it.
def saveModules [DataUtil] (ch : RyCharacter) : List DBAction → CharData → CharData × Bool
  | [], charData => (charData, false)
  | action :: actions, charData =>
    match charData.updateModuleData action (some (geneModuleData ch action)) with
    | (charData, true) => (charData, true)
    | (charData, false) => saveModules ch actions charData

def savePlayer [DataUtil] (ch : RyCharacter) (charData : CharData) : CharData × Bool :=
  saveModules ch [.player, .hero, .equip, .formation] charData

end PlayerSaver

end WzGame
