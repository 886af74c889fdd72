import WzGame.Chr.PlayerManager
import WzGame.Packet.CocoPacket
import WzGame.Protocol.RequestCode
import WzGame.Service.GateHandlers

/-!
This module contains what the gate, the center and the logic server do with a packet that they have decoded.
-/

namespace WzGame

namespace CocoPacket

def REQUEST_FLAG : Int32 := 0x10000000

def setReqId (packet : CocoPacket) (reqId : Int32) : CocoPacket :=
  { packet with header := { packet.header with reqId } }

def setPlayerId (packet : CocoPacket) (playerId : Int64) : CocoPacket :=
  { packet with header := { packet.header with playerId } }

def resetReqIdToRequest (packet : CocoPacket) : CocoPacket :=
  if packet.header.reqId < REQUEST_FLAG then packet.setReqId (packet.header.reqId + REQUEST_FLAG) else packet

def getReqCode (packet : CocoPacket) : RequestCode := .getByValue packet.header.reqId

def isRequestMessage (packet : CocoPacket) : Option CocoPacket :=
  if packet.header.reqId > REQUEST_FLAG then some (packet.setReqId (packet.header.reqId - REQUEST_FLAG)) else none

end CocoPacket

def NetClient.sendRequest (packet : CocoPacket) : CocoPacket :=
  packet.setReqId (packet.header.reqId + CocoPacket.REQUEST_FLAG)

def ServerSession.sendRequest (packet : CocoPacket) : CocoPacket := packet.resetReqIdToRequest

namespace GateServerHandler

def handPacket (packet : CocoPacket) : Option CocoPacket :=
  if packet.getReqCode.getSendTo ≠ .gate then some (NetClient.sendRequest packet) else none

end GateServerHandler

namespace GateNetHandler

/--
What a packet of a client makes of the attribute `agent` of its connection, and what is sent to the center. `parseFrom`
reads the user of a `PBLoginReq`, where `none` is an exception.
-/
def channelRead (parseFrom : List UInt8 → Option Int32) (ctx : Nat) (agent : Option Gate.CocoAgent)
    (packet : CocoPacket)
    : Option Gate.CocoAgent × Option CocoPacket :=
  match packet.isRequestMessage with
  | none => (agent, none)
  | some packet =>
    if packet.getReqCode = .accountLogin then
      match parseFrom (packet.bytes.getD []) with
      | none => (agent, some (NetClient.sendRequest packet))
      | some userId => (some ⟨0, ctx, userId, false⟩, some (NetClient.sendRequest packet))
    else
      match agent with
      | none => (agent, none)
      | some curAgent =>
        if curAgent.valid then
          (agent, GateServerHandler.handPacket (packet.setPlayerId curAgent.playerId))
        else
          (agent, none)

end GateNetHandler

namespace CenterMessageHandler

def handPacket (packet : CocoPacket) : Option (AppId × CocoPacket) :=
  let sendTo := packet.getReqCode.getSendTo
  if sendTo ≠ .center then some (sendTo, ServerSession.sendRequest packet) else none

def channelRead (packet : CocoPacket) : Option CocoPacket := do
  let packet ← packet.isRequestMessage
  let (sendTo, packet) ← handPacket packet
  if sendTo = .logic then some packet else none

end CenterMessageHandler

namespace LogicHandler

inductive Handler where
  | actionPlayerLogin
  | formationEquip
  | strengthenEquip
  | wearEquipment
  | heroLevelUp
deriving DecidableEq

def registered : List (RequestCode × Handler) :=
  [(.logicPlayerLogin, .actionPlayerLogin), (.formationEquip, .formationEquip), (.equipStrengthen, .strengthenEquip),
    (.equipWear, .wearEquipment), (.heroStrengthen, .heroLevelUp)]

def actionHandlers (reqId : Int32) : Option Handler :=
  (registered.reverse.find? fun entry => entry.1.getValue = reqId).map Prod.snd

structure Call where
  playerId : Int64
  handler : Handler
  bytes : List UInt8
deriving DecidableEq

def handPacket (packet : CocoPacket) : Option Call :=
  if packet.getReqCode.getSendTo = .logic then
    (actionHandlers packet.header.reqId).map fun handler =>
      ⟨packet.header.playerId, handler, packet.bytes.getD []⟩
  else
    none

def messageReceived (packet : CocoPacket) : Option Call := packet.isRequestMessage.bind handPacket

theorem entityId_strengthenEquip (value : Int64) (ch : RyCharacter)
    : getEntityId (EquipManager.strengthenEquip ch value) = getEntityId ch := rfl

theorem entityId_heroLevelUp (value : Int64) (ch : RyCharacter)
    : getEntityId (HeroManager.heroLevelUp ch value) = getEntityId ch := rfl

/--
What a call makes of the players. `parseFrom` reads the value of a `PBInt64`, where `none` is an exception; then and
for a player that is not there, the handler throws. A login adds its player later on, when this has been loaded.
-/
def doAction (parseFrom : List UInt8 → Option Int64) (players : EntityStorage RyCharacter) (call : Call)
    : EntityStorage RyCharacter :=
  match call.handler, parseFrom call.bytes with
  | .strengthenEquip, some value =>
    players.modify call.playerId (EquipManager.strengthenEquip · value) (entityId_strengthenEquip value)
  | .heroLevelUp, some value =>
    players.modify call.playerId (HeroManager.heroLevelUp · value) (entityId_heroLevelUp value)
  | _, _ => players

end LogicHandler

end WzGame
