import WzGame.Base.EntityCreator
import WzGame.Base.EntityStorage

/-!
This module contains the character of a player: its resources, heroes, equipments and formation. An
array is an `Option (List _)`, since it may be `null`.
-/

namespace WzGame

inductive EMoney where
  | diamond
  | silver
  | reputation
  | zhangong
  | gold
  | jianghun
  | shenhun
  | weiming
  | shouhun
  | hunjing
  | qiyudian
  | lingyu
  | mingjiangling
  | mingjiangling2
deriving DecidableEq

structure HeroEntity where
  entityId : Int64
  heroId : Int32
  level : Int32
  breakLevel : Int32
  exp : Int32
  awakeInfo : Option (List Int32)
  awakeLevel : Int32
  tianmingLevel : Int32
  huashenLevel : Int32
deriving DecidableEq

instance : IEntity HeroEntity := ⟨HeroEntity.entityId⟩

namespace HeroEntity

-- `new HeroEntity()`
def getEmptyEntity : HeroEntity where
  entityId := 0
  heroId := 0
  level := 1
  breakLevel := 0
  exp := 0
  awakeInfo := some [0, 0, 0, 0]
  awakeLevel := 0
  tianmingLevel := 0
  huashenLevel := 0

def createHeroEntity (entityId : Int64) (heroId : Int32) : HeroEntity :=
  { getEmptyEntity with entityId := entityId, heroId := heroId }

end HeroEntity

structure EquipEntity where
  entityId : Int64
  equipId : Int32
  level : Int32
  jinglianLevel : Int32
  jinglianExp : Int32
  starLevel : Int32
  starExp : Int32
  starBless : Int32
  goldLevel : Int32
deriving DecidableEq

instance : IEntity EquipEntity := ⟨EquipEntity.entityId⟩

namespace EquipEntity

-- `new EquipEntity()`
def getEmptyEntity : EquipEntity where
  entityId := 0
  equipId := 0
  level := 1
  jinglianLevel := 0
  jinglianExp := 0
  starLevel := 0
  starExp := 0
  starBless := 0
  goldLevel := 0

def createEquip (entityId : Int64) (confId : Int32) : EquipEntity :=
  { getEmptyEntity with entityId := entityId, equipId := confId }

end EquipEntity

structure Formation where
  heroId : Int64
  equipId : Option (List Int64)
  petId : Int64
  horseId : Int64
  mingjiangId : Int64
deriving DecidableEq

-- `new Formation(heroId)`
def Formation.new (heroId : Int64) : Formation := ⟨heroId, some (List.replicate 6 0), 0, 0, 0⟩

-- `none` in `formations` is a `null`.
structure CharFormation where
  formations : Option (List (Option Formation))
  partners : Option (List Int64)
  battleFormation : Option (List Int64)
deriving DecidableEq

namespace CharFormation

def new : CharFormation where
  formations := some (List.replicate 6 none)
  partners := some (List.replicate 8 0)
  battleFormation := some (List.replicate 6 0)

-- `none` is an exception: an array is `null` or too short.
def addFirstHero (charFormation : CharFormation) (hero : HeroEntity) : Option CharFormation := do
  let formations ← charFormation.formations
  let battleFormation ← charFormation.battleFormation
  if 0 < formations.length ∧ 1 < battleFormation.length then
    some { charFormation with
      formations := some (formations.set 0 (some (.new hero.entityId)))
      battleFormation := some (battleFormation.set 1 hero.entityId) }
  else
    none

end CharFormation

abbrev ResourceMap := EMoney → Int64

namespace ResourceMap

def new : ResourceMap := fun _ => 0

def updateResource (resourceMap : ResourceMap) (type : EMoney) (value : Int64) (add : Bool)
    : ResourceMap :=
  let count := resourceMap type
  Function.update resourceMap type <|
    if add then count + value else if count - value > 0 then count - value else 0

end ResourceMap

structure RyCharacter where
  entityId : Int64
  userId : Int32
  playerName : Option String
  resourceMap : ResourceMap
  charHero : EntityStorage HeroEntity
  charEquip : EntityStorage EquipEntity
  charFormation : CharFormation
  lastSaveTime : Int64

instance : IEntity RyCharacter := ⟨RyCharacter.entityId⟩

namespace Constant

def mainHeroId : Int32 := 100001

end Constant

namespace EntityCreator

def createHero (currentSecond serverId : BitVec 32) (confId : Int32) (counts : EntityCountMap)
    : HeroEntity × EntityCountMap :=
  let (entityId, counts) := geneEntityId currentSecond serverId counts .hero
  (.createHeroEntity (.ofBitVec entityId) confId, counts)

def createEquipEntity (currentSecond serverId : BitVec 32) (confId : Int32)
    (counts : EntityCountMap) : EquipEntity × EntityCountMap :=
  let (entityId, counts) := geneEntityId currentSecond serverId counts .equip
  (.createEquip (.ofBitVec entityId) confId, counts)

end EntityCreator

namespace RyCharacter

-- `new RyCharacter()` with `setEntityId`
def getEmptyChar (currentTimeMillis playerId : Int64) : RyCharacter where
  entityId := playerId
  userId := 0
  playerName := none
  resourceMap := .new
  charHero := .empty
  charEquip := .empty
  charFormation := .new
  lastSaveTime := currentTimeMillis

def getDefault (currentTimeMillis entityId : Int64) (name : String) (userId : Int32)
    : RyCharacter :=
  { getEmptyChar currentTimeMillis entityId with playerName := some name, userId := userId }

-- the character, unless there is an exception, and the counters of the ids
def checkInit (currentSecond serverId : BitVec 32) (ch : RyCharacter)
    (counts : EntityCreator.EntityCountMap)
    : Option RyCharacter × EntityCreator.EntityCountMap :=
  if ch.charHero.entities.length ≠ 0 then
    (some ch, counts)
  else
    let (heroEntity, counts) :=
      EntityCreator.createHero currentSecond serverId Constant.mainHeroId counts
    let ch := { ch with charHero := ch.charHero.addEntity heroEntity }
    let ch := { ch with resourceMap := ch.resourceMap.updateResource .diamond 50 true }
    let ch := { ch with resourceMap := ch.resourceMap.updateResource .silver 10000 true }
    match ch.charFormation.addFirstHero heroEntity with
    | none => (none, counts)
    | some charFormation =>
      let ch := { ch with charFormation := charFormation }
      let addEquip := fun ((ch, counts) : RyCharacter × EntityCreator.EntityCountMap) confId =>
        let (equip, counts) :=
          EntityCreator.createEquipEntity currentSecond serverId confId counts
        ({ ch with charEquip := ch.charEquip.addEntity equip }, counts)
      let (ch, counts) := [200001, 200002, 200003, 200004].foldl addEquip (ch, counts)
      (some ch, counts)

end RyCharacter

namespace EntityCreator

def createChar (currentTimeMillis : Int64) (currentSecond serverId : BitVec 32) (name : String)
    (userId : Int32) (counts : EntityCountMap) : RyCharacter × EntityCountMap :=
  let (entityId, counts) := geneEntityId currentSecond serverId counts .character
  (.getDefault currentTimeMillis (.ofBitVec entityId) name userId, counts)

end EntityCreator

end WzGame
