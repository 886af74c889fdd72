import Mathlib.Data.Int.Order.Basic
import Mathlib.Data.Fintype.EquivFin
import WzGame.Util.CRC16CCITT
import WzGame.Util.FixedInts

/-!
This module contains the scrambling of buffers of the class `CodecUtil`, which takes each byte of a range
from a box.
-/

namespace WzGame

-- a `byte[]`, of which the length is an `int`
abbrev JBytes := { bytes : List UInt8 // bytes.length < 2 ^ 31 }

namespace CodecUtil

open CRC16CCITT (JInt lowByte)

def encodeBox : List JInt := [
    0x85, 0xC8, 0x76, 0xAE, 0x41, 0x22, 0xD6, 0x9F, 0x47, 0x2C, 0x0C, 0x5D, 0x7E, 0x9A, 0xEB, 0x1D,
    0xA2, 0x12, 0x5F, 0x6C, 0xFE, 0xE2, 0x8C, 0x65, 0xBB, 0x4B, 0x5C, 0xA4, 0x3D, 0x1F, 0x53, 0x94,
    0x20, 0xDA, 0x96, 0x3C, 0xEE, 0x58, 0x77, 0xD9, 0x90, 0x46, 0x01, 0xF3, 0x29, 0xF2, 0x3F, 0x78,
    0xA5, 0x45, 0x02, 0xE7, 0x80, 0xDE, 0xD7, 0x59, 0xCB, 0xE0, 0xDB, 0xFD, 0xDD, 0xE4, 0x4D, 0x08,
    0x37, 0x2A, 0xE8, 0x71, 0x97, 0xD4, 0xBA, 0xAC, 0xB4, 0xA6, 0x8F, 0x25, 0x16, 0x1B, 0x23, 0x67,
    0xC0, 0x73, 0x11, 0x05, 0xB9, 0xBE, 0x34, 0x5E, 0xE1, 0xFB, 0x13, 0x51, 0xCD, 0x4F, 0x92, 0x7C,
    0xE3, 0x0D, 0x83, 0x69, 0xF5, 0xD1, 0x27, 0x18, 0x4A, 0x86, 0x07, 0x0B, 0x87, 0xC7, 0xAF, 0x68,
    0x44, 0x89, 0x57, 0x28, 0xED, 0xA9, 0xAD, 0x09, 0x5A, 0xC9, 0x0E, 0x74, 0xA0, 0xFF, 0x88, 0xEA,
    0x48, 0x00, 0xC4, 0xC3, 0x98, 0xB1, 0x1C, 0x61, 0x49, 0x2B, 0x32, 0x63, 0x56, 0x60, 0x03, 0x2F,
    0xEF, 0x0A, 0xF0, 0x35, 0xCC, 0x2E, 0xF6, 0x26, 0x2D, 0x50, 0x10, 0xE6, 0x9C, 0xB8, 0x84, 0x14,
    0xBF, 0x7B, 0x8B, 0xD8, 0xCF, 0x75, 0xA8, 0x8A, 0x43, 0x5B, 0xF8, 0x7D, 0x30, 0xFA, 0x1E, 0x6D,
    0x7F, 0xF7, 0xD5, 0x3A, 0x66, 0xB3, 0xCA, 0x24, 0x6E, 0x39, 0x79, 0x1A, 0x91, 0x21, 0x99, 0x15,
    0xC6, 0xB0, 0xF4, 0xE5, 0x7A, 0xA1, 0x8E, 0xF1, 0x0F, 0xB6, 0x95, 0xDF, 0x36, 0x3E, 0xC2, 0xAA,
    0x93, 0xD2, 0x40, 0xB7, 0x4C, 0xD0, 0x9D, 0x62, 0x31, 0x19, 0x17, 0xAB, 0x3B, 0x33, 0xFC, 0xB2,
    0x4E, 0x8D, 0x72, 0x82, 0x42, 0xC5, 0x9E, 0xBD, 0xCE, 0xF9, 0x06, 0x38, 0x04, 0xA7, 0x81, 0x54,
    0x6A, 0xEC, 0x6F, 0xBC, 0xD3, 0x9B, 0xB5, 0x70, 0x64, 0xA3, 0xE9, 0x52, 0x55, 0x6B, 0xDC, 0xC1]

def decodeBox : List JInt := [
    0x81, 0x2A, 0x32, 0x8E, 0xEC, 0x53, 0xEA, 0x6A, 0x3F, 0x77, 0x91, 0x6B, 0x0A, 0x61, 0x7A, 0xC8,
    0x9A, 0x52, 0x11, 0x5A, 0x9F, 0xBF, 0x4C, 0xDA, 0x67, 0xD9, 0xBB, 0x4D, 0x86, 0x0F, 0xAE, 0x1D,
    0x20, 0xBD, 0x05, 0x4E, 0xB7, 0x4B, 0x97, 0x66, 0x73, 0x2C, 0x41, 0x89, 0x09, 0x98, 0x95, 0x8F,
    0xAC, 0xD8, 0x8A, 0xDD, 0x56, 0x93, 0xCC, 0x40, 0xEB, 0xB9, 0xB3, 0xDC, 0x23, 0x1C, 0xCD, 0x2E,
    0xD2, 0x04, 0xE4, 0xA8, 0x70, 0x31, 0x29, 0x08, 0x80, 0x88, 0x68, 0x19, 0xD4, 0x3E, 0xE0, 0x5D,
    0x99, 0x5B, 0xFB, 0x1E, 0xEF, 0xFC, 0x8C, 0x72, 0x25, 0x37, 0x78, 0xA9, 0x1A, 0x0B, 0x57, 0x12,
    0x8D, 0x87, 0xD7, 0x8B, 0xF8, 0x17, 0xB4, 0x4F, 0x6F, 0x63, 0xF0, 0xFD, 0x13, 0xAF, 0xB8, 0xF2,
    0xF7, 0x43, 0xE2, 0x51, 0x7B, 0xA5, 0x02, 0x26, 0x2F, 0xBA, 0xC4, 0xA1, 0x5F, 0xAB, 0x0C, 0xB0,
    0x34, 0xEE, 0xE3, 0x62, 0x9E, 0x00, 0x69, 0x6C, 0x7E, 0x71, 0xA7, 0xA2, 0x16, 0xE1, 0xC6, 0x4A,
    0x28, 0xBC, 0x5E, 0xD0, 0x1F, 0xCA, 0x22, 0x44, 0x84, 0xBE, 0x0D, 0xF5, 0x9C, 0xD6, 0xE6, 0x07,
    0x7C, 0xC5, 0x10, 0xF9, 0x1B, 0x30, 0x49, 0xED, 0xA6, 0x75, 0xCF, 0xDB, 0x47, 0x76, 0x03, 0x6E,
    0xC1, 0x85, 0xDF, 0xB5, 0x48, 0xF6, 0xC9, 0xD3, 0x9D, 0x54, 0x46, 0x18, 0xF3, 0xE7, 0x55, 0xA0,
    0x50, 0xFF, 0xCE, 0x83, 0x82, 0xE5, 0xC0, 0x6D, 0x01, 0x79, 0xB6, 0x38, 0x94, 0x5C, 0xE8, 0xA4,
    0xD5, 0x65, 0xD1, 0xF4, 0x45, 0xB2, 0x06, 0x36, 0xA3, 0x27, 0x21, 0x3A, 0xFE, 0x3C, 0x35, 0xCB,
    0x39, 0x58, 0x15, 0x60, 0x3D, 0xC3, 0x9B, 0x33, 0x42, 0xFA, 0x7F, 0x0E, 0xF1, 0x74, 0x24, 0x90,
    0x92, 0xC7, 0x2D, 0x2B, 0xC2, 0x64, 0x96, 0xB1, 0xAA, 0xE9, 0xAD, 0x59, 0xDE, 0x3B, 0x14, 0x7D]

inductive Outcome where
  | returned
  | illegalArgument
  | arrayIndexOutOfBounds
deriving DecidableEq

-- `(byte) (box[b & 0xFF] & 0xFF)`
def convert (box : List JInt) (b : UInt8) : UInt8 :=
  ⟨(box.getD (lowByte (b.toBitVec.signExtend 32)) 0 &&& 0xFF#32).setWidth 8⟩

-- `buffer[index] = b`
def store (buffer : JBytes) (index : Nat) (b : UInt8) : JBytes :=
  ⟨buffer.1.set index b, by rw [List.length_set]; exact buffer.2⟩

def processLoop (box : List JInt) (offset : Int32) : Nat → Int32 → JBytes → Outcome × JBytes
  | 0, _, buffer => (.returned, buffer)
  | n + 1, i, buffer =>
    let index := (i + offset).toInt
    if 0 ≤ index ∧ index < buffer.1.length then
      processLoop box offset n (i + 1) (store buffer index.toNat (convert box (buffer.1.getD index.toNat 0)))
    else
      (.arrayIndexOutOfBounds, buffer)

-- a `null` is `none`
def processBuffer (buffer : Option JBytes) (offset length : Int32) (box : List JInt) : Outcome × Option JBytes :=
  match buffer with
  | none => (.returned, none)
  | some buffer =>
    if offset < 0 ∨ length < 0 ∨ (offset + length).toInt > buffer.1.length then
      (.illegalArgument, some buffer)
    else
      (processLoop box offset length.toInt.toNat 0 buffer).map id some

def encodeBuffer (buffer : Option JBytes) (offset length : Int32) : Outcome × Option JBytes :=
  processBuffer buffer offset length encodeBox

def decodeBuffer (buffer : Option JBytes) (offset length : Int32) : Outcome × Option JBytes :=
  processBuffer buffer offset length decodeBox

-- `encodeBuffer(byte[] buffer)`
def encodeWhole (buffer : Option JBytes) : Outcome × Option JBytes :=
  match buffer with
  | none => (.returned, none)
  | some bytes => encodeBuffer (some bytes) 0 (.ofNat bytes.1.length)

-- `decodeBuffer(byte[] buffer)`
def decodeWhole (buffer : Option JBytes) : Outcome × Option JBytes :=
  match buffer with
  | none => (.returned, none)
  | some bytes => decodeBuffer (some bytes) 0 (.ofNat bytes.1.length)

/-- A call leaves the buffer alone and throws, exactly if the range is not one of the buffer, or changes the range
alone, in a way that is undone. -/
structure AllOrNothing (process undo : Option JBytes → Int32 → Int32 → Outcome × Option JBytes) (buffer : JBytes)
    (offset length : Int32) : Prop where
  rejects : (process (some buffer) offset length).1 = .illegalArgument
    ↔ offset < 0 ∨ length < 0 ∨ offset.toInt + length.toInt > buffer.1.length
  untouched : (process (some buffer) offset length).1 = .illegalArgument →
    (process (some buffer) offset length).2 = some buffer
  changes : (process (some buffer) offset length).1 ≠ .illegalArgument → ∃ changed : JBytes,
    process (some buffer) offset length = (.returned, some changed)
      ∧ (∀ k : Nat, ¬ (offset.toInt ≤ k ∧ k < offset.toInt + length.toInt) → changed.1[k]? = buffer.1[k]?)
      ∧ undo (some changed) offset length = (.returned, some buffer)

theorem convert_decodeBox (b : UInt8) : convert decodeBox (convert encodeBox b) = b := by
  have hall : ∀ i : Fin 256, convert decodeBox (convert encodeBox ⟨⟨i⟩⟩) = ⟨⟨i⟩⟩ := by decide +kernel
  exact hall b.toBitVec.toFin

theorem convert_encodeBox (b : UInt8) : convert encodeBox (convert decodeBox b) = b := by
  have hfinite : Finite UInt8 := .of_injective (fun b => b.toBitVec.toFin) fun a b h => by
    exact UInt8.toBitVec_inj.mp (BitVec.toFin_inj.mp h)
  have hleft : Function.LeftInverse (convert decodeBox) (convert encodeBox) := convert_decodeBox
  exact hleft.rightInverse_of_surjective (Finite.injective_iff_surjective.mp hleft.injective) b

def converted (box : List JInt) (start n : Nat) (buffer : JBytes) : JBytes :=
  ⟨buffer.1.mapIdx fun k b => if start ≤ k ∧ k < start + n then convert box b else b,
    by rw [List.length_mapIdx]; exact buffer.2⟩

section Loop

variable {box : List JInt} {offset i : Int32} {buffer : JBytes} {n start : Nat}

theorem getElem?_converted (k : Nat)
    : (converted box start n buffer).1[k]?
        = buffer.1[k]?.map fun b => if start ≤ k ∧ k < start + n then convert box b else b :=
  List.getElem?_mapIdx

theorem getElem?_converted_out {k : Nat} (hk : ¬ (start ≤ k ∧ k < start + n))
    : (converted box start n buffer).1[k]? = buffer.1[k]? := by
  rw [getElem?_converted]
  simp only [if_neg hk]
  exact Option.map_id'

theorem converted_zero : converted box start 0 buffer = buffer := by
  apply Subtype.ext
  apply List.ext_getElem?
  intro k
  exact getElem?_converted_out (by omega)

@[simp]
theorem length_store {k : Nat} {b : UInt8} : (store buffer k b).1.length = buffer.1.length :=
  List.length_set

theorem converted_store (hstart : start < buffer.1.length)
    : converted box (start + 1) n (store buffer start (convert box (buffer.1.getD start 0)))
        = converted box start (n + 1) buffer := by
  apply Subtype.ext
  apply List.ext_getElem?
  intro k
  by_cases hk : start = k
  . subst hk
    rw [getElem?_converted_out (by omega), getElem?_converted]
    simp [store, hstart]
  . rw [getElem?_converted, getElem?_converted, store]
    have hrange : start + 1 ≤ k ∧ k < start + 1 + n ↔ start ≤ k ∧ k < start + (n + 1) := by omega
    rw [List.getElem?_set_ne hk]
    simp only [hrange]

theorem processLoop_succ (hi : 0 ≤ i.toInt) (hoffset : 0 ≤ offset.toInt) (hstart : i.toInt + offset.toInt = start)
    (hlt : start < buffer.1.length)
    : processLoop box offset (n + 1) i buffer
        = processLoop box offset n (i + 1) (store buffer start (convert box (buffer.1.getD start 0)))
      ∧ (i + 1).toInt = i.toInt + 1 := by
  have hlength := buffer.2
  have hindex : (i + offset).toInt = start := by
    rw [Int32.toInt_add_of_fits (by omega) (by omega), hstart]
  have hone : (1 : Int32).toInt = 1 := rfl
  constructor
  . rw [processLoop, hindex, if_pos (by omega)]
    rfl
  . rw [Int32.toInt_add_of_fits (by omega) (by omega), hone]

theorem processLoop_eq (hi : 0 ≤ i.toInt) (hoffset : 0 ≤ offset.toInt) (hstart : i.toInt + offset.toInt = start)
    (hend : start + n ≤ buffer.1.length)
    : processLoop box offset n i buffer = (.returned, converted box start n buffer) := by
  induction n generalizing i start buffer with
  | zero =>
    rw [processLoop, converted_zero]
  | succ n ih =>
    obtain ⟨hround, hnext⟩ := @processLoop_succ box offset i buffer n start hi hoffset hstart (by omega)
    have hrest := @ih (i + 1) (store buffer start (convert box (buffer.1.getD start 0))) (start + 1) (by omega)
      (by omega) (by rw [length_store]; omega)
    rw [hround, hrest, converted_store (by omega)]

theorem processLoop_out (hi : 0 ≤ i.toInt) (hoffset : 0 ≤ offset.toInt) (hstart : i.toInt + offset.toInt = start)
    (hlt : start < 2 ^ 31) (hn : 0 < n) (hend : buffer.1.length < start + n)
    : (processLoop box offset n i buffer).1 = .arrayIndexOutOfBounds := by
  induction n generalizing i start buffer with
  | zero => contradiction
  | succ n ih =>
    by_cases hin : start < buffer.1.length
    . obtain ⟨hround, hnext⟩ := @processLoop_succ box offset i buffer n start hi hoffset hstart hin
      have hlength := buffer.2
      rw [hround]
      exact @ih (i + 1) (store buffer start (convert box (buffer.1.getD start 0))) (start + 1) (by omega) (by omega)
        (by omega) (by omega) (by rw [length_store]; omega)
    . have hindex : (i + offset).toInt = start := by
        rw [Int32.toInt_add_of_fits (by omega) (by omega), hstart]
      rw [processLoop, hindex, if_neg (by omega)]

end Loop

section Process

variable {box box' : List JInt} {buffer : JBytes} {offset length : Int32}

theorem converted_converted {start n : Nat} (hboxes : ∀ b, convert box' (convert box b) = b)
    : converted box' start n (converted box start n buffer) = buffer := by
  apply Subtype.ext
  apply List.ext_getElem?
  intro k
  by_cases hk : start ≤ k ∧ k < start + n
  . rw [getElem?_converted, getElem?_converted, Option.map_map]
    simp [hk, Function.comp_def, hboxes]
  . rw [getElem?_converted_out hk, getElem?_converted_out hk]

theorem processBuffer_within (hoffset : 0 ≤ offset.toInt) (hlength : 0 ≤ length.toInt)
    (hend : offset.toInt + length.toInt ≤ buffer.1.length)
    : processBuffer (some buffer) offset length box
        = (.returned, some (converted box offset.toInt.toNat length.toInt.toNat buffer)) := by
  have hbuffer := buffer.2
  have hsum := Int32.toInt_add_of_fits (show -2 ^ 31 ≤ offset.toInt + length.toInt by omega) (by omega)
  have hzero : (0 : Int32).toInt = 0 := rfl
  have hloop := @processLoop_eq box offset 0 buffer length.toInt.toNat offset.toInt.toNat (by decide) hoffset
    (by omega) (by omega)
  simp only [processBuffer, Int32.lt_iff_toInt_lt, hsum, hzero]
  rw [if_neg (by omega), hloop]
  rfl

theorem processBuffer_rejects (hfits : 0 ≤ offset.toInt → 0 ≤ length.toInt → offset.toInt + length.toInt < 2 ^ 31)
    (hout : offset < 0 ∨ length < 0 ∨ offset.toInt + length.toInt > buffer.1.length)
    : processBuffer (some buffer) offset length box = (.illegalArgument, some buffer) := by
  rw [processBuffer, if_pos]
  by_cases hoffset : 0 ≤ offset.toInt
  . by_cases hlength : 0 ≤ length.toInt
    . rw [Int32.toInt_add_of_fits (by omega) (hfits hoffset hlength)]
      exact hout
    . exact .inr (.inl (Int32.lt_iff_toInt_lt.mpr (by simpa using hlength)))
  . exact .inl (Int32.lt_iff_toInt_lt.mpr (by simpa using hoffset))

theorem processBuffer_overflow (hoffset : 0 ≤ offset.toInt) (hlength : 0 ≤ length.toInt)
    (hsum : 2 ^ 31 ≤ offset.toInt + length.toInt)
    : (processBuffer (some buffer) offset length box).1 = .arrayIndexOutOfBounds := by
  have hbuffer := buffer.2
  have ho := offset.toInt_lt
  have hl := length.toInt_lt
  have hzero : (0 : Int32).toInt = 0 := rfl
  have hwraps : (offset + length).toInt < 0 := by
    rw [Int32.toInt_add, Int.bmod_def]
    omega
  simp only [processBuffer, Int32.lt_iff_toInt_lt, hzero]
  rw [if_neg (by omega)]
  exact @processLoop_out box offset 0 buffer length.toInt.toNat offset.toInt.toNat (by decide) hoffset (by omega)
    (by omega) (by omega) (by omega)

theorem allOrNothing_of_fits (hboxes : ∀ b, convert box' (convert box b) = b)
    (hfits : 0 ≤ offset.toInt → 0 ≤ length.toInt → offset.toInt + length.toInt < 2 ^ 31)
    : AllOrNothing (fun buffer offset length => processBuffer buffer offset length box)
        (fun buffer offset length => processBuffer buffer offset length box') buffer offset length := by
  by_cases hout : offset < 0 ∨ length < 0 ∨ offset.toInt + length.toInt > buffer.1.length
  . have hrejects := @processBuffer_rejects box buffer offset length hfits hout
    constructor
    . simp [hrejects, hout]
    . simp [hrejects]
    . simp [hrejects]
  . obtain ⟨hoffset, hlength, hend⟩ := not_or.mp hout |>.imp_right not_or.mp
    rw [Int32.lt_iff_toInt_lt, Int32.toInt_zero] at hoffset hlength
    have hwithin := @processBuffer_within box buffer offset length (by omega) (by omega) (by omega)
    have hundo := @processBuffer_within box'
      (converted box offset.toInt.toNat length.toInt.toNat buffer) offset length (by omega) (by omega)
      (by simpa [converted] using by omega)
    rw [converted_converted hboxes] at hundo
    constructor
    . simp [hwithin, hout]
    . simp [hwithin]
    . intro _
      refine ⟨_, hwithin, fun k hk => ?_, hundo⟩
      exact getElem?_converted_out (by omega)

theorem not_allOrNothing_of_overflow (hoffset : 0 ≤ offset.toInt) (hlength : 0 ≤ length.toInt)
    (hsum : 2 ^ 31 ≤ offset.toInt + length.toInt)
    {undo : Option JBytes → Int32 → Int32 → Outcome × Option JBytes}
    : ¬ AllOrNothing (fun buffer offset length => processBuffer buffer offset length box) undo buffer offset
        length := by
  intro h
  have hbuffer := buffer.2
  have hrejected := h.rejects.mpr (.inr (.inr (by omega)))
  rw [processBuffer_overflow hoffset hlength hsum] at hrejected
  contradiction

end Process

/-- Both directions are all or nothing, and undo each other, exactly if the sum of an offset and a length that are
not negative is an `int`. -/
theorem allOrNothing_iff (buffer : JBytes) (offset length : Int32)
    : AllOrNothing encodeBuffer decodeBuffer buffer offset length
        ∧ AllOrNothing decodeBuffer encodeBuffer buffer offset length
      ↔ (0 ≤ offset → 0 ≤ length → offset.toInt + length.toInt < 2 ^ 31) := by
  simp only [Int32.le_iff_toInt_le, Int32.toInt_zero]
  constructor
  . rintro ⟨hencode, -⟩ hoffset hlength
    by_contra hsum
    exact not_allOrNothing_of_overflow hoffset hlength (by omega) hencode
  . intro hfits
    exact ⟨allOrNothing_of_fits convert_decodeBox hfits, allOrNothing_of_fits convert_encodeBox hfits⟩

theorem allOrNothing_counterexample
    : ¬ ∀ (buffer : JBytes) (offset length : Int32),
        AllOrNothing encodeBuffer decodeBuffer buffer offset length
          ∧ AllOrNothing decodeBuffer encodeBuffer buffer offset length := by
  intro hevery
  exact not_allOrNothing_of_overflow (by decide) (by decide) (by decide)
    (hevery ⟨[0x01, 0x02], by decide⟩ 1 2147483647).1

theorem decodeWhole_encodeWhole (buffer : Option JBytes)
    : ∃ changed, encodeWhole buffer = (.returned, changed) ∧ decodeWhole changed = (.returned, buffer) := by
  cases buffer with
  | none => exact ⟨none, rfl, rfl⟩
  | some buffer =>
    have hlength : (Int32.ofNat buffer.1.length).toInt = buffer.1.length := Int32.toInt_ofNat_of_lt buffer.2
    have hzero : (0 : Int32).toInt = 0 := rfl
    have hencode := @processBuffer_within encodeBox buffer 0 (.ofNat buffer.1.length) (by decide) (by omega)
      (by omega)
    refine ⟨_, hencode, ?_⟩
    have hsame : ∀ start n, (converted encodeBox start n buffer).1.length = buffer.1.length := by
      simp [converted]
    rw [decodeWhole, hsame, decodeBuffer, processBuffer_within (by decide) (by omega) (by rw [hsame]; omega),
      converted_converted convert_decodeBox]

end CodecUtil

end WzGame
