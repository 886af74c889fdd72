import WzGame.Net.LogicRecvBufOrder
import WzGame.Net.LogicRecvHandler
import WzGame.Net.Packet
import WzGame.Util.Runs

/-!
This module contains the client's end of its connections: what it receives goes through the queue of
buffers to the handler of packets, and what it sends is collected in a buffer until the next update.
-/

namespace WzGame

open Framing

namespace NetManager

variable {ω : Type} {sent : Nat → List (List UInt8)}

abbrev Tagged := Nat × UInt8

def tagged (connection : Nat) (bytes : List UInt8) : List Tagged := bytes.map (Prod.mk connection)

/--
The number of the socket and what is known of it, the sockets that wait for bytes, and whether the only
buffer of `m_SocketRecvBufQueue` is used. The bytes that have been received on each connection are
recorded, and those that have been flushed, with the connection they were flushed to.
-/
structure State (ω : Type) where
  connection : Nat
  connecting : Bool
  isConnected : Bool
  receiving : List Nat
  recvBufUsed : Bool
  m_LogicRecvBufQueue : LogicRecvBufQueue (List Tagged)
  m_LogicRecvHandler : LogicRecvHandler.State ω Tagged
  m_LogicSendBuf : MemoryStream Tagged
  received : Nat → List UInt8
  flushed : List (Nat × List Tagged)

def DEFAULT_LOGIC_RECV_QUEUE_SIZE : Nat := 10

def start (env : ω) : State ω where
  connection := 0
  connecting := false
  isConnected := false
  receiving := []
  recvBufUsed := false
  m_LogicRecvBufQueue := .create DEFAULT_LOGIC_RECV_QUEUE_SIZE
  m_LogicRecvHandler := ⟨.empty, env, []⟩
  m_LogicSendBuf := .empty
  received := fun _ => []
  flushed := []

inductive Action where
  | connect
  | onConnect
  | disconnect
  | receive (socket : Nat) (bytes : List UInt8)
  | failReceive (socket : Nat)
  | pushPacket (packet : Packet)
  | update

def connect (s : State ω) : State ω :=
  { s with connection := s.connection + 1, connecting := true, isConnected := false, recvBufUsed := false }

def recvFromSocketBuf (s : State ω) : State ω :=
  if s.isConnected = false then
    s
  else if s.recvBufUsed then
    s
  else
    { s with recvBufUsed := true, receiving := s.receiving ++ [s.connection] }

def onReceive (s : State ω) (socket : Nat) (bytes : List UInt8) : State ω :=
  let (m_LogicRecvBufQueue, i) := s.m_LogicRecvBufQueue.getEmptyBuf
  let s := { s with
    m_LogicRecvBufQueue
    receiving := s.receiving.erase socket
    recvBufUsed := if socket = s.connection then false else s.recvBufUsed }
  if bytes = [] then
    { s with isConnected := false }
  else
    recvFromSocketBuf { s with
      m_LogicRecvBufQueue := m_LogicRecvBufQueue.fill i (tagged socket bytes)
      received := Function.update s.received socket (s.received socket ++ bytes) }

def sendToSocketBuf (s : State ω) : State ω :=
  if s.isConnected = false then
    s
  else if s.m_LogicSendBuf.buffer = [] then
    s
  else
    { s with
      flushed := s.flushed ++ [(s.connection, s.m_LogicSendBuf.buffer)]
      m_LogicSendBuf := .empty }

-- a buffer with the bytes that remained in front stays in use if there is an exception
def processPacket (factory : PacketFacotry ω Tagged) (fuel : Nat) (s : State ω) : Option (State ω) :=
  let (m_LogicRecvBufQueue, buffer) := s.m_LogicRecvBufQueue.getUsedBuf
  match buffer with
  | none => some { s with m_LogicRecvBufQueue }
  | some i =>
    let memStream := (m_LogicRecvBufQueue.buffer i).content.getD []
    let (content, _) :=
      LogicRecvHandler.takeRemaining s.m_LogicRecvHandler.m_LogicRemainingBuf memStream
    (LogicRecvHandler.processPacket Prod.snd factory fuel s.m_LogicRecvHandler memStream).map
      fun (m_LogicRecvHandler, released) =>
        { s with
          m_LogicRecvHandler
          m_LogicRecvBufQueue := m_LogicRecvBufQueue.set i ⟨!released, some content⟩ }

def update (factory : PacketFacotry ω Tagged) (fuel : Nat) (s : State ω) : Option (State ω) :=
  processPacket factory fuel (sendToSocketBuf (recvFromSocketBuf s))

def pushPacket (s : State ω) (packet : Packet) : State ω :=
  if s.isConnected then
    { s with m_LogicSendBuf := packet.writePacket (Prod.mk s.connection) s.m_LogicSendBuf }
  else
    s

def step (factory : PacketFacotry ω Tagged) (fuel : Nat) (s : State ω) : Action → Option (State ω)
  | .connect => some (connect s)
  | .onConnect =>
    if s.connecting then some { s with connecting := false, isConnected := true } else none
  | .disconnect => some { s with isConnected := false }
  | .receive socket bytes => if socket ∈ s.receiving then some (onReceive s socket bytes) else none
  | .failReceive socket =>
    if socket ∈ s.receiving then some { s with receiving := s.receiving.erase socket } else none
  | .pushPacket packet => some (pushPacket s packet)
  | .update => update factory fuel s

def frames (sent : Nat → List (List UInt8)) (D : Nat → Nat) (n : Nat) : List (List Tagged) :=
  (List.range n).flatMap fun i => ((sent i).take (D i)).map (tagged i)

/--
No packet is made of bytes of two connections, and nothing is flushed to another connection than the one
it was written for. `Update` returns. Of each connection the first frames have been dispatched that the
server sent; when no buffer waits in the queue, that is all but the unfinished frame that has been
received last.
-/
structure Clean (factory : PacketFacotry ω Tagged) (sent : Nat → List (List UInt8)) (env : ω)
    (s : State ω) : Prop where
  single : ∀ packet ∈ s.m_LogicRecvHandler.packets,
    ∃ i, ∀ b ∈ packet.header ++ packet.bytes, b.1 = i
  flushed : ∀ p ∈ s.flushed, ∀ b ∈ p.2, b.1 = p.1
  returns : ∃ fuel, (update factory fuel s).isSome
  dispatched : ∃ D : Nat → Nat,
    (s.m_LogicRecvHandler.env, s.m_LogicRecvHandler.packets)
        = (frames sent D (s.connection + 1)).foldl (LogicRecvHandler.dispatch Prod.snd factory) (env, [])
      ∧ (s.m_LogicRecvBufQueue.contents = [] → ∀ i ≤ s.connection,
        ∃ r, s.received i = ((sent i).take (D i)).flatten ++ r
          ∧ Incomplete (fun f => f) r ((sent i).drop (D i)))

def SentBy (sent : Nat → List (List UInt8)) (s : State ω) : Action → Prop
  | .receive socket bytes => s.received socket ++ bytes <+: (sent socket).flatten
  | _ => True

/--
When a connection is opened, whole frames have been received on the one before, and nothing waits to be
sent. No bytes are received on an older connection, and they are put behind those that wait.
-/
def ConnectsClean (sent : Nat → List (List UInt8)) (s : State ω) : Action → Prop
  | .connect => (∃ n ≤ (sent s.connection).length,
        s.received s.connection = ((sent s.connection).take n).flatten)
      ∧ s.m_LogicSendBuf.buffer = []
  | .receive socket bytes => bytes ≠ [] → socket = s.connection ∧ s.m_LogicRecvBufQueue.FillsBehind
  | _ => True

instance {s : State ω} {a : Action} : Decidable (SentBy sent s a) :=
  match a with
  | .receive _ _ => inferInstanceAs (Decidable (_ <+: _))
  | .connect | .onConnect | .disconnect | .failReceive _ | .pushPacket _ | .update =>
    inferInstanceAs (Decidable True)

instance {s : State ω} {a : Action} : Decidable (ConnectsClean sent s a) :=
  match a with
  | .connect => inferInstanceAs (Decidable (_ ∧ _))
  | .receive _ _ => inferInstanceAs (Decidable (_ → _ ∧ _))
  | .onConnect | .disconnect | .failReceive _ | .pushPacket _ | .update =>
    inferInstanceAs (Decidable True)

end NetManager

end WzGame
