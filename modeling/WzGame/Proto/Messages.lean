import WzGame.Protobuf.GeneratedMessage

/-!
This module contains the messages of the game as the client has them, with texts that are well-formed UTF-16. The
fields of each are in the order in which they are written.
-/

namespace WzGame.Proto

open Protobuf FieldCodec

structure PBStringList where
  list : RepeatedField String := []

structure PBInt32 where
  value : Int32 := 0

structure PBInt64 where
  value : Int64 := 0

structure PBString where
  value : String := ""

structure PBEquipEntity where
  entityId : Int64 := 0
  confId : Int32 := 0
  level : Int32 := 0
  attts : MapField Int32 Int32 := .empty
  jinglianLevel : Int32 := 0
  jinglianExp : Int32 := 0
  starLevel : Int32 := 0
  starExp : Int32 := 0
  starBless : Int32 := 0
  goldLevel : Int32 := 0

structure PBHeroEntity where
  heroId : Int64 := 0
  confId : Int32 := 0
  level : Int32 := 0
  breakLevel : Int32 := 0
  exp : Int32 := 0
  awakeInfo : RepeatedField Int32 := []
  awakeLevel : Int32 := 0
  tianmingLevel : Int32 := 0
  attributes : MapField Int32 Int32 := .empty

structure PBOneFormation where
  heroId : Int64 := 0
  equip : RepeatedField Int64 := []
  petId : Int64 := 0
  horseId : Int64 := 0
  mingjiangId : Int64 := 0

structure PBFormation where
  formation : RepeatedField PBOneFormation := []
  partner : RepeatedField Int64 := []
  battleFormation : RepeatedField Int64 := []

structure PBLoginReq where
  userId : Int32 := 0
  token : String := ""

structure PBCreateRoleReq where
  gender : Int32 := 0
  name : String := ""

structure PBLoginSucc where
  userId : Int32 := 0
  playerId : Int64 := 0
  name : String := ""
  tili : Int32 := 0
  jingli : Int32 := 0
  battleScore : Int64 := 0
  resMap : MapField Int32 Int64 := .empty
  heroList : RepeatedField PBHeroEntity := []
  equipList : RepeatedField PBEquipEntity := []
  formation : Option PBFormation := none

-- `MergeFrom(other)`
def PBFormation.mergeFrom (m other : PBFormation) : PBFormation where
  formation := m.formation ++ other.formation
  partner := m.partner ++ other.partner
  battleFormation := m.battleFormation ++ other.battleFormation

-- `MergeFrom(other)`, which throws when a key is in both maps.
def PBLoginSucc.mergeFrom (m other : PBLoginSucc) : Except Exception PBLoginSucc := do
  let resMap ← m.resMap.add other.resMap
  pure {
    userId := if other.userId ≠ 0 then other.userId else m.userId
    playerId := if other.playerId ≠ 0 then other.playerId else m.playerId
    name := if other.name.length ≠ 0 then other.name else m.name
    tili := if other.tili ≠ 0 then other.tili else m.tili
    jingli := if other.jingli ≠ 0 then other.jingli else m.jingli
    battleScore := if other.battleScore ≠ 0 then other.battleScore else m.battleScore
    resMap
    heroList := m.heroList ++ other.heroList
    equipList := m.equipList ++ other.equipList
    formation :=
      match other.formation with
      | none => m.formation
      | some formation => some ((m.formation.getD {}).mergeFrom formation) }

section

variable (malformed : Malformed)

def PBStringList.fields : Fields PBStringList :=
  [.repeated [10] (forString malformed 10).toFieldCodec (·.list) fun m v => { m with list := v }]

def PBInt32.fields : Fields PBInt32 :=
  [.singular (forInt32 8) (·.value) fun m v => { m with value := v }]

def PBInt64.fields : Fields PBInt64 :=
  [.singular (forInt64 8) (·.value) fun m v => { m with value := v }]

def PBString.fields : Fields PBString :=
  [.singular (forString malformed 10) (·.value) fun m v => { m with value := v }]

def PBEquipEntity.fields : Fields PBEquipEntity :=
  [.singular (forInt64 8) (·.entityId) fun m v => { m with entityId := v },
    .singular (forInt32 16) (·.confId) fun m v => { m with confId := v },
    .singular (forInt32 24) (·.level) fun m v => { m with level := v },
    .map ⟨forInt32 8, forInt32 16, 34⟩ (·.attts) fun m v => { m with attts := v },
    .singular (forInt32 40) (·.jinglianLevel) fun m v => { m with jinglianLevel := v },
    .singular (forInt32 48) (·.jinglianExp) fun m v => { m with jinglianExp := v },
    .singular (forInt32 56) (·.starLevel) fun m v => { m with starLevel := v },
    .singular (forInt32 72) (·.starExp) fun m v => { m with starExp := v },
    .singular (forInt32 80) (·.starBless) fun m v => { m with starBless := v },
    .singular (forInt32 88) (·.goldLevel) fun m v => { m with goldLevel := v }]

def PBHeroEntity.fields : Fields PBHeroEntity :=
  [.singular (forInt64 8) (·.heroId) fun m v => { m with heroId := v },
    .singular (forInt32 16) (·.confId) fun m v => { m with confId := v },
    .singular (forInt32 24) (·.level) fun m v => { m with level := v },
    .singular (forInt32 32) (·.breakLevel) fun m v => { m with breakLevel := v },
    .singular (forInt32 40) (·.exp) fun m v => { m with exp := v },
    .repeated [50, 48] (forInt32 50).toFieldCodec (·.awakeInfo) fun m v => { m with awakeInfo := v },
    .singular (forInt32 56) (·.awakeLevel) fun m v => { m with awakeLevel := v },
    .singular (forInt32 64) (·.tianmingLevel) fun m v => { m with tianmingLevel := v },
    .map ⟨forInt32 8, forInt32 16, 74⟩ (·.attributes) fun m v => { m with attributes := v }]

def PBOneFormation.fields : Fields PBOneFormation :=
  [.singular (forInt64 8) (·.heroId) fun m v => { m with heroId := v },
    .repeated [18, 16] (forInt64 18).toFieldCodec (·.equip) fun m v => { m with equip := v },
    .singular (forInt64 24) (·.petId) fun m v => { m with petId := v },
    .singular (forInt64 32) (·.horseId) fun m v => { m with horseId := v },
    .singular (forInt64 40) (·.mingjiangId) fun m v => { m with mingjiangId := v }]

def PBFormation.fields : Fields PBFormation :=
  [.repeated [10] (forMessage 10 (Field.message PBOneFormation.fields) {}) (·.formation)
      fun m v => { m with formation := v },
    .repeated [18, 16] (forInt64 18).toFieldCodec (·.partner) fun m v => { m with partner := v },
    .repeated [26, 24] (forInt64 26).toFieldCodec (·.battleFormation)
      fun m v => { m with battleFormation := v }]

def PBLoginReq.fields : Fields PBLoginReq :=
  [.singular (forInt32 8) (·.userId) fun m v => { m with userId := v },
    .singular (forString malformed 18) (·.token) fun m v => { m with token := v }]

def PBCreateRoleReq.fields : Fields PBCreateRoleReq :=
  [.singular (forInt32 8) (·.gender) fun m v => { m with gender := v },
    .singular (forString malformed 18) (·.name) fun m v => { m with name := v }]

def PBLoginSucc.fields : Fields PBLoginSucc :=
  [.singular (forInt32 8) (·.userId) fun m v => { m with userId := v },
    .singular (forInt64 16) (·.playerId) fun m v => { m with playerId := v },
    .singular (forString malformed 26) (·.name) fun m v => { m with name := v },
    .singular (forInt32 32) (·.tili) fun m v => { m with tili := v },
    .singular (forInt32 40) (·.jingli) fun m v => { m with jingli := v },
    .singular (forInt64 48) (·.battleScore) fun m v => { m with battleScore := v },
    .map ⟨forInt32 8, forInt64 16, 58⟩ (·.resMap) fun m v => { m with resMap := v },
    .repeated [66] (forMessage 66 (Field.message PBHeroEntity.fields) {}) (·.heroList)
      fun m v => { m with heroList := v },
    .repeated [74] (forMessage 74 (Field.message PBEquipEntity.fields) {}) (·.equipList)
      fun m v => { m with equipList := v },
    .optional 82 (Field.message PBFormation.fields) {} (·.formation) fun m v => { m with formation := v }]

end

inductive Descriptor where
  | PBStringList
  | PBInt32
  | PBInt64
  | PBString
  | PBEquipEntity
  | PBHeroEntity
  | PBOneFormation
  | PBFormation
  | PBLoginReq
  | PBCreateRoleReq
  | PBLoginSucc
deriving DecidableEq, Repr

namespace Descriptor

abbrev Message : Descriptor → Type
  | PBStringList => Proto.PBStringList
  | PBInt32 => Proto.PBInt32
  | PBInt64 => Proto.PBInt64
  | PBString => Proto.PBString
  | PBEquipEntity => Proto.PBEquipEntity
  | PBHeroEntity => Proto.PBHeroEntity
  | PBOneFormation => Proto.PBOneFormation
  | PBFormation => Proto.PBFormation
  | PBLoginReq => Proto.PBLoginReq
  | PBCreateRoleReq => Proto.PBCreateRoleReq
  | PBLoginSucc => Proto.PBLoginSucc

def fields (malformed : Malformed) : (p : Descriptor) → Fields p.Message
  | PBStringList => Proto.PBStringList.fields malformed
  | PBInt32 => Proto.PBInt32.fields
  | PBInt64 => Proto.PBInt64.fields
  | PBString => Proto.PBString.fields malformed
  | PBEquipEntity => Proto.PBEquipEntity.fields
  | PBHeroEntity => Proto.PBHeroEntity.fields
  | PBOneFormation => Proto.PBOneFormation.fields
  | PBFormation => Proto.PBFormation.fields
  | PBLoginReq => Proto.PBLoginReq.fields malformed
  | PBCreateRoleReq => Proto.PBCreateRoleReq.fields malformed
  | PBLoginSucc => Proto.PBLoginSucc.fields malformed

def new : (p : Descriptor) → p.Message
  | PBStringList => {}
  | PBInt32 => {}
  | PBInt64 => {}
  | PBString => {}
  | PBEquipEntity => {}
  | PBHeroEntity => {}
  | PBOneFormation => {}
  | PBFormation => {}
  | PBLoginReq => {}
  | PBCreateRoleReq => {}
  | PBLoginSucc => {}

def message (malformed : Malformed) (p : Descriptor) : IMessage p.Message := Field.message (p.fields malformed)

end Descriptor

end WzGame.Proto
