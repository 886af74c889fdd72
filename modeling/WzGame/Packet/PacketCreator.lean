import WzGame.Packet.ByteBuf

/-!
This module contains the frames that the gate sends to the clients.
-/

namespace WzGame

open Bytes

namespace PacketCreator

def create (code : Int32) (bytes : Option (List UInt8)) : List UInt8 :=
  let length : Int := 4 + (bytes.getD []).length
  LittleEndianByteBufUtil.writeShort (.ofInt length) ++ LittleEndianByteBufUtil.writeShort code
    ++ bytes.getD []

variable {code : Int32} {bytes : Option (List UInt8)}

theorem ofLittleEndian_writeShort {v : Int32}
    : ofLittleEndian (LittleEndianByteBufUtil.writeShort v) = v.toBitVec.toNat % 65536 := by
  simp only [LittleEndianByteBufUtil.writeShort, ofLittleEndian, UInt8.toNat_ofBitVec,
    BitVec.toNat_setWidth, BitVec.toNat_ushiftRight, Nat.shiftRight_eq_div_pow]
  omega

@[simp]
theorem length_writeShort {v : Int32} : (LittleEndianByteBufUtil.writeShort v).length = 2 := rfl

@[simp]
theorem length_create : (create code bytes).length = 4 + (bytes.getD []).length := by
  simp [create]
  omega

theorem take_create
    : (create code bytes).take 2
        = LittleEndianByteBufUtil.writeShort (.ofInt (4 + (bytes.getD []).length)) := by
  rw [create, List.append_assoc, List.take_left' length_writeShort]

theorem drop_create
    : (create code bytes).drop 2 = LittleEndianByteBufUtil.writeShort code ++ bytes.getD [] := by
  rw [create, List.append_assoc, List.drop_left' length_writeShort]

theorem drop_four_create : (create code bytes).drop 4 = bytes.getD [] := by
  have hdrop : (create code bytes).drop 4 = ((create code bytes).drop 2).drop 2 := by
    rw [List.drop_drop]
  rw [hdrop, drop_create, List.drop_left' length_writeShort]

theorem ofLittleEndian_take_create (h : 4 + (bytes.getD []).length ≤ 32767)
    : ofLittleEndian ((create code bytes).take 2) = (create code bytes).length := by
  rw [take_create, ofLittleEndian_writeShort, Int32.toBitVec_ofInt, BitVec.toNat_ofInt, length_create]
  omega

end PacketCreator

end WzGame
