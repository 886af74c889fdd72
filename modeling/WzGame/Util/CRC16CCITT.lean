import WzGame.Util.Crc

/-!
This module contains the CRC of the class `CRC16CCITT`, which takes a byte at a time from a table.
-/

namespace WzGame

namespace CRC16CCITT

-- an `int` of the source
abbrev JInt := BitVec 32

def crc16tab : List JInt := [
    0x0000, 0x1021, 0x2042, 0x3063, 0x4084, 0x50a5, 0x60c6, 0x70e7,
    0x8108, 0x9129, 0xa14a, 0xb16b, 0xc18c, 0xd1ad, 0xe1ce, 0xf1ef,
    0x1231, 0x0210, 0x3273, 0x2252, 0x52b5, 0x4294, 0x72f7, 0x62d6,
    0x9339, 0x8318, 0xb37b, 0xa35a, 0xd3bd, 0xc39c, 0xf3ff, 0xe3de,
    0x2462, 0x3443, 0x0420, 0x1401, 0x64e6, 0x74c7, 0x44a4, 0x5485,
    0xa56a, 0xb54b, 0x8528, 0x9509, 0xe5ee, 0xf5cf, 0xc5ac, 0xd58d,
    0x3653, 0x2672, 0x1611, 0x0630, 0x76d7, 0x66f6, 0x5695, 0x46b4,
    0xb75b, 0xa77a, 0x9719, 0x8738, 0xf7df, 0xe7fe, 0xd79d, 0xc7bc,
    0x48c4, 0x58e5, 0x6886, 0x78a7, 0x0840, 0x1861, 0x2802, 0x3823,
    0xc9cc, 0xd9ed, 0xe98e, 0xf9af, 0x8948, 0x9969, 0xa90a, 0xb92b,
    0x5af5, 0x4ad4, 0x7ab7, 0x6a96, 0x1a71, 0x0a50, 0x3a33, 0x2a12,
    0xdbfd, 0xcbdc, 0xfbbf, 0xeb9e, 0x9b79, 0x8b58, 0xbb3b, 0xab1a,
    0x6ca6, 0x7c87, 0x4ce4, 0x5cc5, 0x2c22, 0x3c03, 0x0c60, 0x1c41,
    0xedae, 0xfd8f, 0xcdec, 0xddcd, 0xad2a, 0xbd0b, 0x8d68, 0x9d49,
    0x7e97, 0x6eb6, 0x5ed5, 0x4ef4, 0x3e13, 0x2e32, 0x1e51, 0x0e70,
    0xff9f, 0xefbe, 0xdfdd, 0xcffc, 0xbf1b, 0xaf3a, 0x9f59, 0x8f78,
    0x9188, 0x81a9, 0xb1ca, 0xa1eb, 0xd10c, 0xc12d, 0xf14e, 0xe16f,
    0x1080, 0x00a1, 0x30c2, 0x20e3, 0x5004, 0x4025, 0x7046, 0x6067,
    0x83b9, 0x9398, 0xa3fb, 0xb3da, 0xc33d, 0xd31c, 0xe37f, 0xf35e,
    0x02b1, 0x1290, 0x22f3, 0x32d2, 0x4235, 0x5214, 0x6277, 0x7256,
    0xb5ea, 0xa5cb, 0x95a8, 0x8589, 0xf56e, 0xe54f, 0xd52c, 0xc50d,
    0x34e2, 0x24c3, 0x14a0, 0x0481, 0x7466, 0x6447, 0x5424, 0x4405,
    0xa7db, 0xb7fa, 0x8799, 0x97b8, 0xe75f, 0xf77e, 0xc71d, 0xd73c,
    0x26d3, 0x36f2, 0x0691, 0x16b0, 0x6657, 0x7676, 0x4615, 0x5634,
    0xd94c, 0xc96d, 0xf90e, 0xe92f, 0x99c8, 0x89e9, 0xb98a, 0xa9ab,
    0x5844, 0x4865, 0x7806, 0x6827, 0x18c0, 0x08e1, 0x3882, 0x28a3,
    0xcb7d, 0xdb5c, 0xeb3f, 0xfb1e, 0x8bf9, 0x9bd8, 0xabbb, 0xbb9a,
    0x4a75, 0x5a54, 0x6a37, 0x7a16, 0x0af1, 0x1ad0, 0x2ab3, 0x3a92,
    0xfd2e, 0xed0f, 0xdd6c, 0xcd4d, 0xbdaa, 0xad8b, 0x9de8, 0x8dc9,
    0x7c26, 0x6c07, 0x5c64, 0x4c45, 0x3ca2, 0x2c83, 0x1ce0, 0x0cc1,
    0xef1f, 0xff3e, 0xcf5d, 0xdf7c, 0xaf9b, 0xbfba, 0x8fd9, 0x9ff8,
    0x6e17, 0x7e36, 0x4e55, 0x5e74, 0x2e93, 0x3eb2, 0x0ed1, 0x1ef0]

inductive UpdateException where
  -- `IllegalArgumentException("buffer is null")`
  | bufferIsNull
  | arrayIndexOutOfBounds
  deriving DecidableEq

def lowByte (x : JInt) : Fin 256 := ⟨(x &&& 0x00FF#32).toNat, by
  rw [BitVec.toNat_and]
  exact Nat.lt_of_le_of_lt Nat.and_le_right (by decide)⟩

def updateByte (crc : JInt) (b : UInt8) : JInt :=
  let crc := ((crc <<< 8) &&& 0xFFFF#32) ^^^ crc16tab.getD (lowByte ((crc >>> 8) ^^^ b.toBitVec.signExtend 32)) 0
  crc &&& 0xFFFF#32

def updateLoop (buffer : List UInt8) (offset : Int) : Nat → Int → JInt → Except UpdateException JInt
  | 0, _, crc => .ok crc
  | n + 1, index, crc =>
    if offset + index < buffer.length then
      if offset + index < 0 then
        .error .arrayIndexOutOfBounds
      else
        updateLoop buffer offset n (index + 1) (updateByte crc (buffer.getD (offset + index).toNat 0))
    else
      .ok crc

-- `update(byte[] buffer, int offset, int length)`, where a `null` is `none`.
def updateRange (crc : JInt) (buffer : Option (List UInt8)) (offset length : Int)
    : Except UpdateException JInt :=
  match buffer with
  | none => .error .bufferIsNull
  | some buffer => updateLoop buffer offset length.toNat 0 crc

-- `update(byte[] buffer)`
def update (crc : JInt) (buffer : Option (List UInt8)) : Except UpdateException JInt :=
  match buffer with
  | none => .error .bufferIsNull
  | some bs => updateRange crc (some bs) 0 bs.length

def getValue (crc : JInt) : JInt := crc &&& 0xFFFF#32

def reset : JInt := 0

inductive UpdateCall where
  | whole (buffer : List UInt8)
  | range (buffer : List UInt8) (offset length : Int)

namespace UpdateCall

def run (crc : JInt) : UpdateCall → Except UpdateException JInt
  | whole buffer => update crc (some buffer)
  | range buffer offset length => updateRange crc (some buffer) offset length

def Within : UpdateCall → Prop
  | whole _ => True
  | range buffer offset length => 0 ≤ offset ∧ 0 ≤ length ∧ offset + length ≤ buffer.length

def bytes : UpdateCall → List UInt8
  | whole buffer => buffer
  | range buffer offset length => (buffer.drop offset.toNat).take length.toNat

end UpdateCall

def xmodem (bytes : List UInt8) : BitVec 16 := Crc.crc 0x1021#16 0#16 bytes

theorem crc16tab_eq (i : Fin 256)
    : crc16tab.getD i 0 = (Crc.feedWord 0x1021#16 0#16 (BitVec.ofFin i : BitVec 8)).setWidth 32 := by
  revert i
  decide +kernel

theorem lowByte_eq (x : JInt) : BitVec.ofFin (lowByte x) = x.setWidth 8 := by
  apply BitVec.eq_of_toNat_eq
  rw [BitVec.toNat_setWidth]
  exact Nat.and_two_pow_sub_one_eq_mod x.toNat 8

theorem and_ffff (x : JInt) : x &&& 0xFFFF#32 = (x.setWidth 16).setWidth 32 := by
  apply BitVec.eq_of_toNat_eq
  rw [BitVec.toNat_and, BitVec.toNat_setWidth, BitVec.toNat_setWidth,
    Nat.mod_eq_of_lt (Nat.lt_of_lt_of_le (Nat.mod_lt _ (by decide)) (by decide))]
  exact Nat.and_two_pow_sub_one_eq_mod x.toNat 16

theorem setWidth_index (c : BitVec 16) (b : BitVec 8)
    : ((c.setWidth 32 >>> 8) ^^^ b.signExtend 32).setWidth 8 = (c >>> 8).setWidth 8 ^^^ b := by
  have hlow : (b.signExtend 32).setWidth 8 = b := by
    apply BitVec.eq_of_getLsbD_eq
    intro i hi
    rw [BitVec.getLsbD_setWidth, BitVec.getLsbD_signExtend]
    simp [hi, show i < 32 by omega]
  rw [BitVec.setWidth_xor, hlow, ← BitVec.setWidth_ushiftRight (by decide),
    BitVec.setWidth_setWidth_of_le _ (by decide)]

theorem updateByte_setWidth (c : BitVec 16) (b : UInt8)
    : updateByte (c.setWidth 32) b = (Crc.feedWord 0x1021#16 c b.toBitVec).setWidth 32 := by
  have htop : ∀ i < 8, ((c >>> 8).setWidth 8).getMsbD i = c.getMsbD i := by
    intro i hi
    simp [BitVec.getMsbD_eq_getLsbD, hi, show i < 16 by omega, show 8 + (7 - i) = 15 - i by omega,
      show 7 - i < 8 by omega]
  rw [updateByte, crc16tab_eq, lowByte_eq, setWidth_index, Crc.feedWord_eq _ c _ _ htop]
  simp only [and_ffff, BitVec.setWidth_xor]
  simp

theorem updateLoop_eq {buffer : List UInt8} {offset : Int} (n : Nat) (index : Int) (c : BitVec 16)
    (hstart : 0 ≤ offset + index) (hend : offset + index + n ≤ buffer.length)
    : updateLoop buffer offset n index (c.setWidth 32)
        =
      .ok ((Crc.crc 0x1021#16 c ((buffer.drop (offset + index).toNat).take n)).setWidth 32) := by
  induction n generalizing index c with
  | zero => simp [updateLoop, Crc.crc]
  | succ n ih =>
    have hlt : (offset + index).toNat < buffer.length := by omega
    have hnext : (offset + (index + 1)).toNat = (offset + index).toNat + 1 := by omega
    rw [updateLoop, if_pos (by omega), if_neg (by omega), updateByte_setWidth, ih _ _ (by omega) (by omega),
      hnext, List.drop_eq_getElem_cons hlt, List.take_succ_cons, List.getD_eq_getElem?_getD,
      List.getElem?_eq_getElem hlt]
    rfl

theorem UpdateCall.run_eq {call : UpdateCall} (hcall : call.Within) (c : BitVec 16)
    : call.run (c.setWidth 32) = .ok ((Crc.crc 0x1021#16 c call.bytes).setWidth 32) := by
  cases call with
  | whole buffer =>
    rw [UpdateCall.run, update, updateRange, updateLoop_eq _ _ _ (by omega) (by omega)]
    simp [UpdateCall.bytes]
  | range buffer offset length =>
    obtain ⟨hoffset, hlength, hend⟩ := hcall
    rw [UpdateCall.run, updateRange, updateLoop_eq _ _ _ (by omega) (by omega)]
    simp [UpdateCall.bytes]

theorem foldlM_run {calls : List UpdateCall} (hcalls : ∀ call ∈ calls, call.Within) (c : BitVec 16)
    : calls.foldlM UpdateCall.run (c.setWidth 32)
        =
      .ok ((Crc.crc 0x1021#16 c (calls.flatMap UpdateCall.bytes)).setWidth 32) := by
  induction calls generalizing c with
  | nil => rfl
  | cons call calls ih =>
    rw [List.foldlM_cons, UpdateCall.run_eq (hcalls call (by simp)), List.flatMap_cons, Crc.crc_append]
    exact ih (fun call' hcall' => hcalls call' (by simp [hcall'])) _

/-- However the bytes are cut into calls, the value is the CRC of all of them. -/
theorem getValue_updates (calls : List UpdateCall) (hcalls : ∀ call ∈ calls, call.Within)
    : (calls.foldlM UpdateCall.run reset).map getValue
        =
      .ok ((xmodem (calls.flatMap UpdateCall.bytes)).setWidth 32) := by
  have hreset : reset = (0#16).setWidth 32 := rfl
  rw [hreset, foldlM_run hcalls, Except.map, getValue, and_ffff,
    BitVec.setWidth_setWidth_of_le (l := 32) (k := 16) _ (by decide), BitVec.setWidth_eq, xmodem]

def checkCalls : List UpdateCall :=
  [.whole [0x31, 0x32, 0x33, 0x34], .range [0xFF, 0x35, 0x36, 0x37, 0x38, 0xFF] 1 4, .whole [], .whole [0x39]]

theorem getValue_checkCalls
    : (checkCalls.foldlM UpdateCall.run reset).map getValue = .ok 0x31C3
        ∧ xmodem (checkCalls.flatMap UpdateCall.bytes) = 0x31C3 := by
  have hcheck : xmodem (checkCalls.flatMap UpdateCall.bytes) = 0x31C3 := by decide +kernel
  refine ⟨?_, hcheck⟩
  rw [getValue_updates checkCalls (by simp [checkCalls, UpdateCall.Within]), hcheck]
  rfl

end CRC16CCITT

end WzGame
