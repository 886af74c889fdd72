import WzGame.Util.Bytes

/-!
This module contains how the client makes packets of identifiers and has them handled.
-/

namespace WzGame

structure Received (β : Type) where
  header : List β
  packetID : UInt16
  bytes : List β
deriving DecidableEq

-- whether there is a type, and the handler, which says whether it throws
structure PacketTypeAndHandler (ω β : Type) where
  m_packetType : Bool
  m_handler : Option (ω → Received β → ω × Bool)

structure PacketFacotry (ω β : Type) where
  m_Dictionary : ω → UInt16 → Option (PacketTypeAndHandler ω β)
  removeWatingPackets : ω → UInt16 → ω

namespace PacketFacotry

variable {ω β : Type} {factory : PacketFacotry ω β} {env : ω}

def createPacket (factory : PacketFacotry ω β) (env : ω) (packetID : UInt16) : Bool :=
  match factory.m_Dictionary env packetID with
  | none => false
  | some tmpProcessInfo => tmpProcessInfo.m_packetType

def processPacket (factory : PacketFacotry ω β) (env : ω) (packet : Received β) : ω × Bool :=
  match factory.m_Dictionary env packet.packetID with
  | none => (env, false)
  | some tmpProcessInfo =>
    match tmpProcessInfo.m_handler with
    | none => (env, false)
    | some invoke => invoke env packet

-- after an exception, what follows the handler is left out
def handle (factory : PacketFacotry ω β) (env : ω) (packet : Received β) : ω :=
  let (env, threw) := factory.processPacket env packet
  if threw then env else factory.removeWatingPackets env packet.packetID

end PacketFacotry

end WzGame
