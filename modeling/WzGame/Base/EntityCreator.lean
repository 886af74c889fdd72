import Mathlib.Logic.Function.Basic

/-!
This module contains how the logic servers make the ids of entities. An `int` is a `BitVec 32` and a
`long` is a `BitVec 64` here.
-/

namespace WzGame

structure EntityType where
  value : BitVec 32
deriving DecidableEq

namespace EntityType

def character : EntityType := ⟨1⟩
def hero : EntityType := ⟨2⟩
def equip : EntityType := ⟨3⟩

end EntityType

namespace EntityCreator

def entityTypeMask : BitVec 64 := 0x00FFFFFFFFFFFFFF
def createTimeMask : BitVec 64 := 0xFF00000000FFFFFF
def serverIdMask : BitVec 64 := 0xFFFFFFFFFF000FFF
def entityCountMask : BitVec 64 := 0xFFFFFFFFFFFFF000

abbrev EntityCountMap := EntityType → BitVec 64

def geneEntityId (currentSecond serverId : BitVec 32) (entityCountMap : EntityCountMap)
    (entityType : EntityType) : BitVec 64 × EntityCountMap :=
  let currentSecond := currentSecond.signExtend 64
  let typeValue := entityType.value.signExtend 64
  let serverId := serverId.signExtend 64
  let itemCount := (entityCountMap entityType).srem 0xffff
  let entityId : BitVec 64 := 0
  let entityId := (entityId &&& entityTypeMask) + (typeValue <<< 56)
  let entityId := (entityId &&& createTimeMask) + (currentSecond <<< 24)
  let entityId := (entityId &&& serverIdMask) + (serverId <<< 12)
  let entityId := (entityId &&& entityCountMask) + itemCount
  (entityId, Function.update entityCountMap entityType (entityCountMap entityType + 1))

structure Call where
  serverId : BitVec 32
  entityType : EntityType
  currentSecond : BitVec 32
deriving DecidableEq

structure Servers where
  entityCountMap : BitVec 32 → EntityCountMap
  created : List (Call × BitVec 64)

namespace Servers

def start : Servers := ⟨fun _ _ => 0, []⟩

def exec (servers : Servers) (call : Call) : Servers :=
  let (entityId, counts) := geneEntityId call.currentSecond call.serverId
    (servers.entityCountMap call.serverId) call.entityType
  ⟨Function.update servers.entityCountMap call.serverId counts,
    servers.created ++ [(call, entityId)]⟩

def run (calls : List Call) : Servers := calls.foldl exec start

end Servers

namespace Call

structure WellFormed (call : Call) : Prop where
  entityType : 1 ≤ call.entityType.value.toInt ∧ call.entityType.value.toInt ≤ 127
  currentSecond : 0 ≤ call.currentSecond.toInt
  serverId : 0 ≤ call.serverId.toInt ∧ call.serverId.toInt ≤ 4095

instance (call : Call) : Decidable call.WellFormed :=
  decidable_of_iff
    ((1 ≤ call.entityType.value.toInt ∧ call.entityType.value.toInt ≤ 127)
      ∧ 0 ≤ call.currentSecond.toInt ∧ 0 ≤ call.serverId.toInt ∧ call.serverId.toInt ≤ 4095)
    ⟨fun ⟨htype, hsecond, hserver⟩ => ⟨htype, hsecond, hserver⟩,
      fun ⟨htype, hsecond, hserver⟩ => ⟨htype, hsecond, hserver⟩⟩

structure Decodes (call : Call) (entityId : BitVec 64) : Prop where
  entityType : (entityId.extractLsb' 56 8).zeroExtend 32 = call.entityType.value
  currentSecond : entityId.extractLsb' 24 32 = call.currentSecond
  serverId : (entityId.extractLsb' 12 12).zeroExtend 32 = call.serverId

def SameCounter (call call' : Call) : Prop :=
  call.serverId = call'.serverId ∧ call.entityType = call'.entityType

instance (call call' : Call) : Decidable (call.SameCounter call') :=
  inferInstanceAs (Decidable (_ ∧ _))

end Call

namespace Servers

def Layout (servers : Servers) : Prop :=
  ∀ p ∈ servers.created, p.1.Decodes p.2

/--
Two ids differ when they were made for different servers, types or seconds, and also when fewer than
4096 ids were made for the same ones.
-/
def Distinct (servers : Servers) : Prop :=
  ∀ (i j : Nat) (call call' : Call) (entityId entityId' : BitVec 64), i ≠ j →
    servers.created[i]? = some (call, entityId) →
    servers.created[j]? = some (call', entityId') →
    (call = call' → servers.created.countP (·.1 = call) < 4096) → entityId ≠ entityId'

end Servers

end EntityCreator

end WzGame
