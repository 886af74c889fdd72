import WzGame.Net.MemoryStream

/-!
This module contains the packets of the client and how they are written.
-/

namespace WzGame

open Bytes

-- the identifier is a `PACKET_TYPE`, and the body may be `null`
structure Packet where
  packetID : Int32
  bytes : Option (List UInt8)
deriving DecidableEq

namespace Packet

variable {β : Type}

-- `(UInt16)m_PacketID`
def uint16 (packetID : Int32) : UInt16 := .ofBitVec (packetID.toBitVec.setWidth 16)

def writeInt16 (v : Int16) : List UInt8 := littleEndian 2 v.toBitVec.toNat

def writeUInt16 (v : UInt16) : List UInt8 := littleEndian 2 v.toNat

def writePacketHeader (tag : UInt8 → β) (packet : Packet) (oStream : MemoryStream β)
    : MemoryStream β :=
  let oStream := oStream.write ((writeInt16 0).map tag)
  oStream.write ((writeUInt16 (uint16 packet.packetID)).map tag)

def writePacketBody (tag : UInt8 → β) (packet : Packet) (oStream : MemoryStream β)
    : MemoryStream β :=
  match packet.bytes with
  | none => oStream
  | some bytes => oStream.write (bytes.map tag)

def writePacket (tag : UInt8 → β) (packet : Packet) (oStream : MemoryStream β) : MemoryStream β :=
  let packetUINT32Pos := oStream.position
  let oStream := packet.writePacketHeader tag oStream
  let oStream := packet.writePacketBody tag oStream
  let endPos := oStream.buffer.length
  let bodyLength : Int := endPos - 2
  let oStream := oStream.seek packetUINT32Pos
  let oStream := oStream.write ((writeInt16 (.ofInt bodyLength)).map tag)
  oStream.seek endPos

def body (packet : Packet) : List UInt8 := packet.bytes.getD []

def written (length : Nat) (packet : Packet) : List UInt8 :=
  writeInt16 (.ofInt (length + 2 + packet.body.length)) ++ writeUInt16 (uint16 packet.packetID)
    ++ packet.body

variable {tag : UInt8 → β} {packet : Packet} {bytes : List β} {length : Nat}

@[simp]
theorem length_writeInt16 {v : Int16} : (writeInt16 v).length = 2 := length_littleEndian

@[simp]
theorem length_writeUInt16 {v : UInt16} : (writeUInt16 v).length = 2 := length_littleEndian

@[simp]
theorem length_written : (written length packet).length = 4 + packet.body.length := by
  simp [written]
  omega

theorem writePacketBody_ending
    : packet.writePacketBody tag (.ending bytes) = .ending (bytes ++ packet.body.map tag) := by
  cases h : packet.bytes with
  | none => simp [writePacketBody, body, h]
  | some b => simp [writePacketBody, body, h]

theorem writePacket_ending
    : packet.writePacket tag (.ending bytes)
        = .ending (bytes ++ (written bytes.length packet).map tag) := by
  have hbody : packet.writePacketBody tag (packet.writePacketHeader tag (.ending bytes))
      = .ending (bytes ++ (writeInt16 0).map tag
        ++ ((writeUInt16 (uint16 packet.packetID)).map tag ++ packet.body.map tag)) := by
    rw [writePacketHeader, MemoryStream.write_ending, MemoryStream.write_ending,
      writePacketBody_ending, List.append_assoc]
  have hlength : (((bytes ++ (writeInt16 0).map tag
        ++ ((writeUInt16 (uint16 packet.packetID)).map tag ++ packet.body.map tag)).length : Int) - 2)
      = bytes.length + 2 + packet.body.length := by
    simp only [List.length_append, List.length_map, length_writeInt16, length_writeUInt16]
    omega
  rw [writePacket, hbody]
  simp only [MemoryStream.buffer_ending, MemoryStream.position_ending]
  rw [hlength, MemoryStream.write_seek_ending (by simp)]
  simp [written]

theorem writePacket_empty : packet.writePacket id .empty = .ending (packet.written 0) := by
  have h : packet.writePacket id (.ending []) = _ := writePacket_ending
  rwa [List.map_id, List.nil_append] at h

theorem ofNat_writeUInt16 {v : UInt16} : .ofNat (ofLittleEndian (writeUInt16 v)) = v := by
  have hlt : v.toNat < 256 ^ 2 := v.toNat_lt
  rw [writeUInt16, ofLittleEndian_littleEndian, Nat.mod_eq_of_lt hlt, UInt16.ofNat_toNat]

end Packet

end WzGame
