import WzGame.Chr.CharBag
import WzGame.Chr.RyCharacter
import WzGame.Proto.Messages

/-!
This module contains what the server tells a client about a character that has logged in.
-/

namespace WzGame

open Proto Protobuf

inductive EBattleAttribute where
  | hp
  | maxHp
  | attack
  | physicAttack
  | magicAttack
  | defence
  | physicDefence
  | magicDefence
  | attackPercent
  | defencePercent
  | hpPercent
  | hit
  | dodge
  | bonus
  | bonusRegistance
  | addHurt
  | reduceHurt
  | pvpAddHurt
  | pvpReduceHurt
  | addShuHurt
  | reduceShuHurt
  | addWeiHurt
  | reduceWeiHurt
  | addWuHurt
  | reduceWuHurt
  | addQunHurt
  | reduceQunHurt
  | hpGrow
  | attackGrow
  | defenceGrow
deriving DecidableEq

namespace EBattleAttribute

def values : List EBattleAttribute :=
  [hp, maxHp, attack, physicAttack, magicAttack, defence, physicDefence, magicDefence, attackPercent, defencePercent,
    hpPercent, hit, dodge, bonus, bonusRegistance, addHurt, reduceHurt, pvpAddHurt, pvpReduceHurt, addShuHurt,
    reduceShuHurt, addWeiHurt, reduceWeiHurt, addWuHurt, reduceWuHurt, addQunHurt, reduceQunHurt, hpGrow, attackGrow,
    defenceGrow]

def getValue (type : EBattleAttribute) : Int32 := Int32.ofNat (values.idxOf type + 1)

theorem mem_values (type : EBattleAttribute) : type ∈ values := by
  cases type <;> decide

theorem nodup_values : (values.map getValue).Nodup := by
  decide

end EBattleAttribute

namespace EMoney

def values : List EMoney :=
  [diamond, silver, reputation, zhangong, gold, jianghun, shenhun, weiming, shouhun, hunjing, qiyudian, lingyu,
    mingjiangling, mingjiangling2]

def getValue (type : EMoney) : Int32 := Int32.ofNat (values.idxOf type + 101)

theorem mem_values (type : EMoney) : type ∈ values := by
  cases type <;> decide

theorem nodup_values : (values.map getValue).Nodup := by
  decide

end EMoney

structure LoginDetails where
  tili : Int32
  jingli : Int32
  heroAttributes : HeroEntity → AttrEntity EBattleAttribute
  equipAttributes : EquipEntity → AttrEntity EBattleAttribute

-- The entries of `getAttrMap()`. Nothing depends on their order.
def AttrEntity.entries (entity : AttrEntity EBattleAttribute) : List (Int32 × Int32) :=
  EBattleAttribute.values.filterMap fun type => (entity.attrMap type).map fun value => (type.getValue, value)

-- the entries of `getResourceMap()`
def ResourceMap.entries (resourceMap : ResourceMap) : List (Int32 × Int64) :=
  EMoney.values.map fun type => (type.getValue, resourceMap type)

def MapField.ofEntries {V : Type} (entries : List (Int32 × V)) : MapField Int32 V :=
  entries.foldl (fun map entry => map.set entry.1 entry.2) .empty

namespace HeroEntity

-- the product is an `int`
def calBattleScore (attributes : AttrEntity EBattleAttribute) : Int64 := (attributes.getAttributeValue .hp * 10).toInt64

end HeroEntity

namespace CharFormation

-- `none` is a `NullPointerException`, here and below.
def calBattleScore (details : LoginDetails) (charHero : EntityStorage HeroEntity) (charFormation : CharFormation)
    : Option Int64 := do
  let formations ← charFormation.formations
  pure <| formations.foldl (fun score formation =>
    match formation.bind fun formation => charHero.getEntity formation.heroId with
    | none => score
    | some hero => score + HeroEntity.calBattleScore (details.heroAttributes hero)) 0

end CharFormation

namespace EquipPbCreator

def equipEntity (details : LoginDetails) (entity : EquipEntity) : PBEquipEntity where
  entityId := entity.entityId
  confId := entity.equipId
  level := entity.level
  goldLevel := entity.goldLevel
  starBless := entity.starBless
  starLevel := entity.starLevel
  starExp := entity.starExp
  jinglianLevel := entity.jinglianLevel
  jinglianExp := entity.jinglianExp
  attts := MapField.ofEntries (details.equipAttributes entity).entries

end EquipPbCreator

namespace HeroPbCreator

def heroEntity (details : LoginDetails) (hero : HeroEntity) : Option PBHeroEntity := do
  let awakeInfo ← hero.awakeInfo
  pure {
    heroId := hero.entityId
    confId := hero.heroId
    level := hero.level
    exp := hero.exp
    breakLevel := hero.breakLevel
    awakeInfo := awakeInfo
    awakeLevel := hero.awakeLevel
    tianmingLevel := hero.tianmingLevel
    attributes := MapField.ofEntries (details.heroAttributes hero).entries }

def oneFormation (formation : Formation) : Option PBOneFormation := do
  let equipId ← formation.equipId
  pure {
    heroId := formation.heroId
    equip := equipId
    petId := formation.petId
    horseId := formation.horseId
    mingjiangId := formation.mingjiangId }

def formation (ch : RyCharacter) : Option PBFormation := do
  let formations ← ch.charFormation.formations
  let partners ← ch.charFormation.partners
  let battleFormation ← ch.charFormation.battleFormation
  pure {
    formation := ← (formations.filterMap id).mapM oneFormation
    partner := partners
    battleFormation := battleFormation }

end HeroPbCreator

namespace LoginPbCreator

def loginSucc (details : LoginDetails) (ch : RyCharacter) : Option PBLoginSucc := do
  let name ← ch.playerName
  let battleScore ← ch.charFormation.calBattleScore details ch.charHero
  let heroList ← ch.charHero.getAllEntities.mapM (HeroPbCreator.heroEntity details)
  let formation ← HeroPbCreator.formation ch
  pure {
    playerId := ch.entityId
    userId := ch.userId
    name := name
    battleScore := battleScore
    tili := details.tili
    jingli := details.jingli
    resMap := MapField.ofEntries ch.resourceMap.entries
    heroList := heroList
    equipList := ch.charEquip.getAllEntities.map (EquipPbCreator.equipEntity details)
    formation := some formation }

end LoginPbCreator

end WzGame
