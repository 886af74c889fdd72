import WzGame.Util.Bytes

/-!
This module contains how numbers are read from and written to a `ByteBuf`. Reading is undefined where
there are too few bytes, which is an `IndexOutOfBoundsException`.
-/

namespace WzGame

open Bytes

namespace ByteBuf

def writeShort (v : Int16) : List UInt8 := bigEndian 2 v.toBitVec.toNat

def writeInt (v : Int32) : List UInt8 := bigEndian 4 v.toBitVec.toNat

def writeLong (v : Int64) : List UInt8 := bigEndian 8 v.toBitVec.toNat

def readWord (k : Nat) (buffer : List UInt8) : Option (Nat × List UInt8) :=
  if buffer.length < k then
    none
  else
    some (ofBigEndian (buffer.take k), buffer.drop k)

def readShort (buffer : List UInt8) : Option (Int16 × List UInt8) :=
  (readWord 2 buffer).map fun p => (.ofBitVec (.ofNat 16 p.1), p.2)

def readInt (buffer : List UInt8) : Option (Int32 × List UInt8) :=
  (readWord 4 buffer).map fun p => (.ofBitVec (.ofNat 32 p.1), p.2)

def readLong (buffer : List UInt8) : Option (Int64 × List UInt8) :=
  (readWord 8 buffer).map fun p => (.ofBitVec (.ofNat 64 p.1), p.2)

variable {rest buffer : List UInt8} {k n : Nat}

theorem readWord_bigEndian : readWord k (bigEndian k n ++ rest) = some (n % 256 ^ k, rest) := by
  have hlength : ¬ (bigEndian k n ++ rest).length < k := by simp
  rw [readWord, if_neg hlength]
  simp

theorem readWord_toNat {v : BitVec (8 * k)}
    : readWord k (bigEndian k v.toNat ++ rest) = some (v.toNat, rest) := by
  have hlt : v.toNat < 256 ^ k := by
    rw [show 256 = 2 ^ 8 from rfl, ← Nat.pow_mul]
    exact v.isLt
  rw [readWord_bigEndian, Nat.mod_eq_of_lt hlt]

theorem readWord_cases (k : Nat) (buffer : List UInt8)
    : (buffer.length < k ∧ readWord k buffer = none)
      ∨ (k ≤ buffer.length ∧ ∃ n rest, readWord k buffer = some (n, rest)
        ∧ rest.length = buffer.length - k) := by
  unfold readWord
  split
  . next h => exact .inl ⟨h, rfl⟩
  . next h => exact .inr ⟨by omega, _, _, rfl, List.length_drop⟩

@[simp]
theorem readShort_writeShort {v : Int16} : readShort (writeShort v ++ rest) = some (v, rest) := by
  rw [readShort, writeShort, readWord_toNat (k := 2) (v := v.toBitVec)]
  simp

@[simp]
theorem readInt_writeInt {v : Int32} : readInt (writeInt v ++ rest) = some (v, rest) := by
  rw [readInt, writeInt, readWord_toNat (k := 4) (v := v.toBitVec)]
  simp

@[simp]
theorem readLong_writeLong {v : Int64} : readLong (writeLong v ++ rest) = some (v, rest) := by
  rw [readLong, writeLong, readWord_toNat (k := 8) (v := v.toBitVec)]
  simp

@[simp]
theorem length_writeShort {v : Int16} : (writeShort v).length = 2 := length_bigEndian

@[simp]
theorem length_writeInt {v : Int32} : (writeInt v).length = 4 := length_bigEndian

@[simp]
theorem length_writeLong {v : Int64} : (writeLong v).length = 8 := length_bigEndian

end ByteBuf

namespace LittleEndianByteBufUtil

def readShort : List UInt8 → Option (Int16 × List UInt8)
  | a :: b :: buf =>
    let sum := ((b.toBitVec.signExtend 32 <<< 8) &&& 0xff00#32) + a.toBitVec.signExtend 32
    some (.ofBitVec ((sum &&& 0xff#32).setWidth 16), buf)
  | _ => none

def writeShort (value : Int32) : List UInt8 :=
  [.ofBitVec (value.toBitVec.setWidth 8), .ofBitVec ((value.toBitVec >>> 8).setWidth 8)]

theorem readShort_eq {a b : UInt8} {buf : List UInt8}
    : readShort (a :: b :: buf) = some (.ofBitVec (.ofNat 16 a.toNat), buf) := by
  have hhigh (x : BitVec 32) : (x &&& 0xff00#32).toNat % 256 = 0 := by
    have hzero : (x &&& 0xff00#32) &&& 0xff#32 = 0#32 := by
      rw [BitVec.and_assoc]
      simp
    have hmod := congrArg BitVec.toNat hzero
    rwa [BitVec.toNat_and, show (0xff#32).toNat = 2 ^ 8 - 1 from rfl,
      Nat.and_two_pow_sub_one_eq_mod] at hmod
  have hlow : (a.toBitVec.signExtend 32).toNat % 256 = a.toNat := by
    have ha := a.toNat_lt
    rw [BitVec.toNat_signExtend, BitVec.toNat_setWidth_of_le (by omega), UInt8.toNat_toBitVec]
    split
    . omega
    . omega
  have hsum := hhigh (b.toBitVec.signExtend 32 <<< 8)
  simp only [readShort, Option.some.injEq, Prod.mk.injEq, and_true]
  congr 1
  apply BitVec.eq_of_toNat_eq
  generalize (b.toBitVec.signExtend 32 <<< 8) &&& 0xff00#32 = x at hsum
  generalize a.toBitVec.signExtend 32 = y at hlow
  rw [BitVec.toNat_setWidth, BitVec.toNat_and, show (0xff#32).toNat = 2 ^ 8 - 1 from rfl,
    Nat.and_two_pow_sub_one_eq_mod, BitVec.toNat_add, BitVec.toNat_ofNat]
  omega

end LittleEndianByteBufUtil

end WzGame
