import WzGame.Proto.Messages
import WzGame.Util.Dictionaries

/-!
This module contains what the client knows of its player: its resources, heroes, equipments and formations, as they come
with a login.
-/

namespace WzGame

open Proto Protobuf

namespace Client

structure HeroEntity where
  entityId : Int64
  confId : Int32
  level : Int32
  exp : Int32
  awakeLevel : Int32
  tianmingLevel : Int32
  attributes : Dictionary Int32 Int32

structure EquipEntity where
  equipId : Int64
  confId : Int32
  level : Int32
  attributes : Dictionary Int32 Int32

structure Formation where
  heroId : Int64
  equipList : List Int64
  petId : Int64
  horseId : Int64
  mingjiangId : Int64

-- `new Formation()`
def Formation.new : Formation := ⟨0, List.replicate 6 0, 0, 0, 0⟩

end Client

/--
The fields of `PlayerManager`, `HeroManager` and `EquipManager`, of each of which there is one. `none` in `formations`
is a `null`.
-/
structure Client where
  resMap : Dictionary Int32 Int64
  userId : Int32
  playerId : Int64
  name : Option String
  battleScore : Int64
  tili : Int32
  jingli : Int32
  formations : Option (List (Option Client.Formation))
  partners : Option (List Int64)
  battleFormation : Option (List Int64)
  heroMap : Dictionary Int64 Client.HeroEntity
  equipMap : Dictionary Int64 Client.EquipEntity

namespace Client

def start : Client := ⟨.empty, 0, 0, none, 0, 0, 0, none, none, none, .empty, .empty⟩

def HeroEntity.getAttributeValue (entity : HeroEntity) (type : Int32) : Int32 := (entity.attributes.get? type).getD 0

def attributes (map : MapField Int32 Int32) : Except (Dictionary Int32 Int32) (Dictionary Int32 Int32) :=
  Dictionary.addAll .empty map.list

section initFromLoginData

-- An exception leaves what has been done so far.

def addResource (c : Client) (entry : Int32 × Int64) : Except Client Client :=
  match c.resMap.add entry.1 entry.2 with
  | none => throw c
  | some resMap => pure { c with resMap := resMap }

def addHeroEntity (c : Client) (pb : PBHeroEntity) : Except Client Client :=
  match attributes pb.attributes with
  | .error _ => throw c
  | .ok attrs =>
    match c.heroMap.add pb.heroId ⟨pb.heroId, pb.confId, pb.level, pb.exp, pb.awakeLevel, pb.tianmingLevel, attrs⟩ with
    | none => throw c
    | some heroMap => pure { c with heroMap := heroMap }

def addEquipEntity (c : Client) (pb : PBEquipEntity) : Except Client Client :=
  match attributes pb.attts with
  | .error _ => throw c
  | .ok attrs =>
    match c.equipMap.add pb.entityId ⟨pb.entityId, pb.confId, pb.level, attrs⟩ with
    | none => throw c
    | some equipMap => pure { c with equipMap := equipMap }

def initEquip (formationPb : PBOneFormation) (i : Nat) (c : Client) : Except Client Client :=
  match formationPb.equip[i]? with
  | none => throw c
  | some equipId =>
    pure { c with
      formations := c.formations.map fun formations =>
        formations.modify i (Option.map fun formation =>
          { formation with equipList := formation.equipList.set i equipId }) }

def initFormation (count : Nat) (c : Client) (entry : PBOneFormation × Nat) : Except Client Client :=
  let (formationPb, i) := entry
  match c.formations with
  | none => throw c
  | some formations =>
    if i < formations.length then
      let formation := { Formation.new with
        heroId := formationPb.heroId
        petId := formationPb.petId
        horseId := formationPb.horseId
        mingjiangId := formationPb.mingjiangId }
      (List.range count).foldlM (fun c _ => initEquip formationPb i c)
        { c with formations := some (formations.set i (some formation)) }
    else
      throw c

-- a message without a formation is a `NullReferenceException`
def initFromLoginData (c : Client) (pb : PBLoginSucc) : Except Client Client := do
  let c ← pb.resMap.list.foldlM addResource { c with
    playerId := pb.playerId
    userId := pb.userId
    name := some pb.name
    tili := pb.tili
    jingli := pb.jingli
    battleScore := pb.battleScore
    resMap := .empty }
  let c ← pb.heroList.foldlM addHeroEntity c
  let c ← pb.equipList.foldlM addEquipEntity c
  let c := { c with formations := some (List.replicate 6 none) }
  match pb.formation with
  | none => throw c
  | some formation =>
    let c ← formation.formation.zipIdx.foldlM (initFormation formation.formation.length) c
    pure { c with
      partners := some formation.partner
      battleFormation := some formation.battleFormation }

end initFromLoginData

-- what happens to the manager when a login arrives: bytes that are no message are an exception, too
def onReceiveLogin (malformed : Malformed) (c : Client) (bytes : List UInt8) : Except Client Client :=
  match (Descriptor.PBLoginSucc.message malformed).parseFrom Descriptor.PBLoginSucc.new bytes with
  | .error _ => throw c
  | .ok pb => c.initFromLoginData pb

def getResCount (c : Client) (type : Int32) : Int64 := (c.resMap.get? type).getD 0

end Client

end WzGame
