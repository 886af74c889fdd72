import WzGame.Packet.ByteBuf

/-!
This module contains the packets that the servers send to each other, and how they are written and
read.
-/

namespace WzGame

open ByteBuf

structure MessageHeader where
  seqId : Int32 := 0
  reqId : Int32 := 0
  playerId : Int64 := 0
  packetLength : Int16 := 0
  sendTime : Int64 := 0
deriving DecidableEq

namespace MessageHeader

def LENGTH : Nat := 4 + 4 + 8 + 8

def readHead (buffer : List UInt8) : Option (MessageHeader × List UInt8) := do
  let (playerId, buffer) ← readLong buffer
  let (seqId, buffer) ← readInt buffer
  let (reqId, buffer) ← readInt buffer
  let (sendTime, buffer) ← readLong buffer
  return ({ playerId, seqId, reqId, sendTime }, buffer)

def writeHead (header : MessageHeader) : List UInt8 :=
  writeShort header.packetLength ++ writeLong header.playerId ++ writeInt header.seqId
    ++ writeInt header.reqId ++ writeLong header.sendTime

def fields (header : MessageHeader) : List UInt8 :=
  writeLong header.playerId ++ (writeInt header.seqId ++ (writeInt header.reqId
    ++ writeLong header.sendTime))

variable {header : MessageHeader} {buffer : List UInt8}

theorem writeHead_eq : header.writeHead = writeShort header.packetLength ++ header.fields := by
  simp [writeHead, fields]

@[simp]
theorem length_fields : header.fields.length = LENGTH := by
  simp [fields, LENGTH]

theorem readHead_fields
    : readHead (header.fields ++ buffer) = some ({ header with packetLength := 0 }, buffer) := by
  simp [readHead, fields]

theorem readHead_eq_none : readHead buffer = none ↔ buffer.length < LENGTH := by
  simp only [readHead, readLong, readInt, LENGTH]
  obtain ⟨h, hread⟩ | ⟨h, _, rest, hread, hrest⟩ := readWord_cases 8 buffer
  . simp [hread]
    omega
  obtain ⟨h₁, hread₁⟩ | ⟨h₁, _, rest₁, hread₁, hrest₁⟩ := readWord_cases 4 rest
  . simp [hread, hread₁]
    omega
  obtain ⟨h₂, hread₂⟩ | ⟨h₂, _, rest₂, hread₂, hrest₂⟩ := readWord_cases 4 rest₁
  . simp [hread, hread₁, hread₂]
    omega
  obtain ⟨h₃, hread₃⟩ | ⟨h₃, _, rest₃, hread₃, hrest₃⟩ := readWord_cases 8 rest₂
  . simp [hread, hread₁, hread₂, hread₃]
    omega
  . simp [hread, hread₁, hread₂, hread₃]
    omega

end MessageHeader

structure CocoPacket where
  header : MessageHeader
  bytes : Option (List UInt8)
deriving DecidableEq

namespace CocoPacket

def getPacketLength (bytes : Option (List UInt8)) : Nat :=
  MessageHeader.LENGTH + (bytes.map List.length).getD 0

def create (seqGene : Int32) (currentTimeMillis : Int64) (reqId : Int32) (bytes : Option (List UInt8))
    (playerId : Int64) : CocoPacket where
  header := {
    seqId := seqGene
    reqId
    sendTime := currentTimeMillis
    packetLength := .ofInt (getPacketLength bytes)
    playerId
  }
  bytes

def setPacketLength (packet : CocoPacket) (packetLength : Int16) : CocoPacket :=
  { packet with header := { packet.header with packetLength } }

def readPacket (buffer : List UInt8) : Option CocoPacket :=
  (MessageHeader.readHead buffer).map fun (header, bytes) => ⟨header, some bytes⟩

def writePacket (packet : CocoPacket) : List UInt8 :=
  packet.header.writeHead ++ packet.bytes.getD []

def payload (packet : CocoPacket) : List UInt8 := packet.header.fields ++ packet.bytes.getD []

def Sized (packet : CocoPacket) : Prop :=
  packet.header.packetLength = .ofInt (getPacketLength packet.bytes)

-- the packet as it is received: a body that is `null` is empty
def received (packet : CocoPacket) : CocoPacket := { packet with bytes := some (packet.bytes.getD []) }

variable {packet : CocoPacket} {buffer : List UInt8}

theorem sized_create {seqGene reqId : Int32} {currentTimeMillis playerId : Int64}
    {bytes : Option (List UInt8)} : (create seqGene currentTimeMillis reqId bytes playerId).Sized := rfl

theorem getPacketLength_eq {bytes : Option (List UInt8)}
    : getPacketLength bytes = MessageHeader.LENGTH + (bytes.getD []).length := by
  cases bytes <;> rfl

theorem writePacket_eq
    : packet.writePacket = writeShort packet.header.packetLength ++ packet.payload := by
  simp [writePacket, payload, MessageHeader.writeHead_eq]

theorem length_payload : packet.payload.length = getPacketLength packet.bytes := by
  rw [payload, List.length_append, MessageHeader.length_fields, getPacketLength_eq]

theorem readPacket_payload
    : readPacket packet.payload
        = some ⟨{ packet.header with packetLength := 0 }, some (packet.bytes.getD [])⟩ := by
  simp [readPacket, payload, MessageHeader.readHead_fields]

theorem readPacket_eq_none : readPacket buffer = none ↔ buffer.length < MessageHeader.LENGTH := by
  rw [← MessageHeader.readHead_eq_none, readPacket, Option.map_eq_none_iff]

end CocoPacket

end WzGame
