import WzGame.Service.RequestLinks
import WzGame.Service.RequestQueues

/-!
This module contains the way of the requests through the servers: the clients write bytes on their connections, the
gates send the requests that they read over the center to the logic server, and this calls its handlers. What is under
way on a link arrives in chunks, and anything can happen in between.
-/

namespace WzGame

open LogicHandler MessageDecoder Netty Runs

namespace RequestPath

/--
Which gate a connection belongs to, the numbers and times of the packets that are made of its bytes, and how the user of
a `PBLoginReq` and the value of a `PBInt64` are read.
-/
structure Setup where
  gateOf : Nat → Nat
  seqGene : Nat → Nat → Int32
  currentTimeMillis : Nat → Nat → Int64
  parseLoginReq : List UInt8 → Option Int32
  parseInt64 : List UInt8 → Option Int64

structure State where
  clients : Nat → PacketLink
  agents : Nat → Option Gate.CocoAgent
  gates : Nat → PacketLink
  logic : PacketLink
  players : EntityStorage RyCharacter
  -- What has happened so far: no handler reads it.
  pushed : List (Nat × Packet)
  written : Nat → List UInt8
  read : Nat → List (Option Gate.CocoAgent × CocoPacket)
  calls : List LogicHandler.Call

def start (agents : Nat → Option Gate.CocoAgent) (players : EntityStorage RyCharacter) : State where
  clients _ := ⟨[], LengthDecoder.start⟩
  agents := agents
  gates _ := ⟨[], LengthDecoder.start⟩
  logic := ⟨[], LengthDecoder.start⟩
  players := players
  pushed := []
  written _ := []
  read _ := []
  calls := []

inductive Action where
  -- a client sends a packet
  | push (ctx : Nat) (packet : Packet)
  -- a client sends any other bytes
  | write (ctx : Nat) (bytes : List UInt8)
  -- a login, or the end of a connection, changes its attribute
  | setAgent (ctx : Nat) (agent : Option Gate.CocoAgent)
  | arriveAtGate (ctx n : Nat)
  -- a gate sends a packet of its own
  | gateSends (gate : Nat) (packet : CocoPacket)
  | arriveAtCenter (gate n : Nat)
  -- the center sends a packet of its own
  | centerSends (packet : CocoPacket)
  | arriveAtLogic (n : Nat)
  -- a player has been loaded
  | addEntity (ch : RyCharacter)

section step

variable (setup : Setup)

def writeToGate (s : State) (ctx : Nat) (bytes : List UInt8) : State :=
  { s with
    clients := Function.update s.clients ctx ((s.clients ctx).write bytes)
    written := Function.update s.written ctx (s.written ctx ++ bytes) }

def writeToCenter (s : State) (gate : Nat) (packet : CocoPacket) : State :=
  { s with gates := Function.update s.gates gate ((s.gates gate).write packet.writePacket) }

def writeToLogic (s : State) (packet : CocoPacket) : State := { s with logic := s.logic.write packet.writePacket }

def readPacket (ctx : Nat) (s : State) (packet : CocoPacket) : State :=
  let (agent, sent) := GateNetHandler.channelRead setup.parseLoginReq ctx (s.agents ctx) packet
  let s := { s with
    agents := Function.update s.agents ctx agent
    read := Function.update s.read ctx (s.read ctx ++ [(s.agents ctx, packet)]) }
  match sent with
  | none => s
  | some packet => writeToCenter s (setup.gateOf ctx) packet

def relayPacket (s : State) (packet : CocoPacket) : State :=
  match CenterMessageHandler.channelRead packet with
  | none => s
  | some packet => writeToLogic s packet

def handlePacket (s : State) (packet : CocoPacket) : State :=
  match messageReceived packet with
  | none => s
  | some call =>
    { s with
      players := doAction setup.parseInt64 s.players call
      calls := s.calls ++ [call] }

def decoded (link link' : PacketLink) : List CocoPacket := link'.receiver.out.drop link.receiver.out.length

def decodeOf (ctx : Nat) : Channel DecoderState CocoPacket → Channel DecoderState CocoPacket × Bool :=
  GateDecoder.decode (setup.seqGene ctx) (setup.currentTimeMillis ctx)

def arriveAtGate (s : State) (ctx n : Nat) : State :=
  let link := (s.clients ctx).arrive (channelRead (decodeOf setup ctx)) n
  (decoded (s.clients ctx) link).foldl (readPacket setup ctx)
    { s with clients := Function.update s.clients ctx link }

def arriveAtCenter (s : State) (gate n : Nat) : State :=
  let link := (s.gates gate).arrive (channelRead MessageDecoder.decode) n
  (decoded (s.gates gate) link).foldl relayPacket { s with gates := Function.update s.gates gate link }

def arriveAtLogic (s : State) (n : Nat) : State :=
  let link := s.logic.arrive (channelRead MessageDecoder.decode) n
  (decoded s.logic link).foldl (handlePacket setup) { s with logic := link }

def step (s : State) : Action → Option State
  | .push ctx packet =>
    some { writeToGate s ctx (GateDecoder.send packet) with pushed := s.pushed ++ [(ctx, packet)] }
  | .write ctx bytes => some (writeToGate s ctx bytes)
  | .setAgent ctx agent => some { s with agents := Function.update s.agents ctx agent }
  | .arriveAtGate ctx n => some (arriveAtGate setup s ctx n)
  | .gateSends gate packet => some (writeToCenter s gate packet)
  | .arriveAtCenter gate n => some (arriveAtCenter s gate n)
  | .centerSends packet => some (writeToLogic s packet)
  | .arriveAtLogic n => some (arriveAtLogic setup s n)
  | .addEntity ch => some { s with players := s.players.addEntity ch }

end step

/--
The condition of a step: what a gate sends of its own is for the center, and of what the center sends of its own the
logic server handles but logins.
-/
def Allowed (_ : State) : Action → Prop
  | .gateSends _ packet => Fits packet ∧ CenterMessageHandler.channelRead packet = none
  | .centerSends packet =>
    Fits packet ∧ ∀ call, messageReceived packet = some call → call.handler = .actionPlayerLogin
  | _ => True

end RequestPath

end WzGame
