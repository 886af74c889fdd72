import Mathlib.Data.List.Basic
import WzGame.Util.CRC16CCITT

/-!
This module contains the hexadecimal texts of the class `HexTool`, of which each one is the list of its characters.
-/

namespace WzGame

namespace HexTool

open CRC16CCITT (JInt)

def hex : List Char := ['0', '1', '2', '3', '4', '5', '6', '7', '8', '9', 'A', 'B', 'C', 'D', 'E', 'F']

def lowDigit (x : JInt) : Fin 16 := ⟨(x &&& 0x0F#32).toNat, by
  rw [BitVec.toNat_and]
  exact Nat.lt_of_le_of_lt Nat.and_le_right (by decide)⟩

-- `toString(byte byteValue)`, where the `byte` is widened with its sign.
def byteToString (byteValue : UInt8) : List Char :=
  let tmp : JInt := byteValue.toBitVec.signExtend 32 <<< 8
  [hex.get (lowDigit (tmp.sshiftRight 12)), hex.get (lowDigit (tmp.sshiftRight 8))]

-- `toString(byte[] bytes)`, where `none` is the exception of `substring` with the end -1.
def toString (bytes : List UInt8) : Option (List Char) :=
  let hexed := bytes.foldl (fun hexed byte => hexed ++ byteToString byte ++ [' ']) []
  if hexed.length = 0 then none else some (hexed.take (hexed.length - 1))

-- the `number` of a character, where `none` is the -1
def number (chr : Char) : Option JInt :=
  if '0' ≤ chr ∧ chr ≤ '9' then
    some (.ofNat 32 (chr.toNat - '0'.toNat))
  else if 'a' ≤ chr ∧ chr ≤ 'f' then
    some (.ofNat 32 (chr.toNat - 'a'.toNat + 10))
  else if 'A' ≤ chr ∧ chr ≤ 'F' then
    some (.ofNat 32 (chr.toNat - 'A'.toNat + 10))
  else
    none

def readLoop : List Char → Bool → JInt → List UInt8 → List UInt8
  | [], _, _, baos => baos
  | chr :: text, highoc, nextb, baos =>
    match number chr with
    | none => readLoop text highoc nextb baos
    | some number =>
      if highoc then
        readLoop text false (number <<< 4) baos
      else
        let nextb := nextb ||| number
        readLoop text true nextb (baos ++ [⟨nextb.setWidth 8⟩])

def getByteArrayFromHexString (text : List Char) : List UInt8 := readLoop text true 0 []

def digits : List Char := "0123456789abcdefABCDEF".toList

inductive Respelled : List Char → List Char → Prop where
  | nil : Respelled [] []
  | same {chr : Char} {text text' : List Char} (rest : Respelled text text') : Respelled (chr :: text) (chr :: text')
  | lower {chr : Char} {text text' : List Char} (rest : Respelled text text')
    : Respelled (chr :: text) (chr.toLower :: text')
  | between {chr : Char} {text text' : List Char} (noDigit : chr ∉ digits) (rest : Respelled text text')
    : Respelled text (chr :: text')

namespace Respelled

theorem refl (text : List Char) : Respelled text text := by
  induction text with
  | nil => exact nil
  | cons chr text ih => exact same ih

theorem toLower (text : List Char) : Respelled text (text.map Char.toLower) := by
  induction text with
  | nil => exact nil
  | cons chr text ih => exact lower ih

end Respelled

theorem exists_ofNat {chr : Char} (h : chr ≤ 'f') : ∃ n < 103, chr = Char.ofNat n := by
  refine ⟨chr.toNat, ?_, (Char.ofNat_toNat chr).symm⟩
  have hle : chr.toNat ≤ 'f'.toNat := h
  exact Nat.lt_succ_of_le hle

theorem number_of_lt {chr : Char} (h : 'f' < chr) : number chr = none := by
  have hnot : ∀ c : Char, c ≤ 'f' → ¬ chr ≤ c := fun c hc hle => absurd (Char.le_trans hle hc) (Char.not_le.mpr h)
  rw [number, if_neg, if_neg, if_neg]
  . exact fun hin => hnot 'F' (by decide) hin.2
  . exact fun hin => hnot 'f' (by decide) hin.2
  . exact fun hin => hnot '9' (by decide) hin.2

theorem number_of_notMem {chr : Char} (h : chr ∉ digits) : number chr = none := by
  by_cases hle : chr ≤ 'f'
  . have hall : ∀ n < 103, Char.ofNat n ∉ digits → number (Char.ofNat n) = none := by decide +kernel
    obtain ⟨n, hn, rfl⟩ := exists_ofNat hle
    exact hall n hn h
  . exact number_of_lt (Char.not_le.mp hle)

theorem number_toLower (chr : Char) : number chr.toLower = number chr := by
  by_cases hle : chr ≤ 'f'
  . have hall : ∀ n < 103, number (Char.ofNat n).toLower = number (Char.ofNat n) := by decide +kernel
    obtain ⟨n, hn, rfl⟩ := exists_ofNat hle
    exact hall n hn
  . have hsame : chr.toLower = chr := dif_neg fun hin =>
      hle (Char.le_trans (show chr ≤ 'Z' from hin.2) (by decide))
    rw [hsame]

theorem Respelled.filterMap_number {text text' : List Char} (h : Respelled text text')
    : text'.filterMap number = text.filterMap number := by
  induction h with
  | nil => rfl
  | same _ ih => rw [List.filterMap_cons, List.filterMap_cons, ih]
  | lower _ ih => rw [List.filterMap_cons, List.filterMap_cons, number_toLower, ih]
  | between hdigit _ ih => rw [List.filterMap_cons_none (number_of_notMem hdigit), ih]

theorem readLoop_nil {text : List Char} (h : text.filterMap number = []) (highoc : Bool) (nextb : JInt)
    (baos : List UInt8)
    : readLoop text highoc nextb baos = baos := by
  induction text with
  | nil => rfl
  | cons chr text ih =>
    cases hnumber : number chr with
    | some n => simp [hnumber] at h
    | none =>
      rw [List.filterMap_cons_none hnumber] at h
      rw [readLoop, hnumber]
      exact ih h

theorem readLoop_cons {text : List Char} {n : JInt} {ns : List JInt} (h : text.filterMap number = n :: ns)
    : ∃ rest, rest.filterMap number = ns ∧ ∀ highoc nextb baos, readLoop text highoc nextb baos
        = if highoc then readLoop rest false (n <<< 4) baos
          else readLoop rest true (nextb ||| n) (baos ++ [⟨(nextb ||| n).setWidth 8⟩]) := by
  induction text with
  | nil => contradiction
  | cons chr text ih =>
    cases hnumber : number chr with
    | some m =>
      rw [List.filterMap_cons_some hnumber] at h
      obtain ⟨rfl, hrest⟩ := List.cons.inj h
      refine ⟨text, hrest, fun highoc nextb baos => ?_⟩
      rw [readLoop, hnumber]
    | none =>
      rw [List.filterMap_cons_none hnumber] at h
      obtain ⟨rest, hrest, hloop⟩ := ih h
      refine ⟨rest, hrest, fun highoc nextb baos => ?_⟩
      rw [readLoop, hnumber]
      exact hloop highoc nextb baos

theorem number_byteToString (b : UInt8)
    : ∃ high low, (byteToString b).filterMap number = [high, low]
        ∧ (⟨((high <<< 4) ||| low).setWidth 8⟩ : UInt8) = b := by
  have hall : ∀ i : Fin 256,
      (byteToString ⟨⟨i⟩⟩).filterMap number = [.ofNat 32 (i / 16), .ofNat 32 (i % 16)]
        ∧ (⟨((BitVec.ofNat 32 (i / 16) <<< 4) ||| .ofNat 32 (i % 16)).setWidth 8⟩ : UInt8) = ⟨⟨i⟩⟩ := by
    decide +kernel
  obtain ⟨hdigits, hbyte⟩ := hall b.toBitVec.toFin
  exact ⟨_, _, hdigits, hbyte⟩

theorem readLoop_bytes {bytes : List UInt8} {text : List Char}
    (h : text.filterMap number = bytes.flatMap fun b => (byteToString b).filterMap number) (nextb : JInt)
    (baos : List UInt8)
    : readLoop text true nextb baos = baos ++ bytes := by
  induction bytes generalizing text nextb baos with
  | nil => rw [readLoop_nil h, List.append_nil]
  | cons b bytes ih =>
    obtain ⟨high, low, hdigits, hbyte⟩ := number_byteToString b
    rw [List.flatMap_cons, hdigits] at h
    obtain ⟨rest, hrest, hhigh⟩ := readLoop_cons h
    obtain ⟨rest', hrest', hlow⟩ := readLoop_cons hrest
    rw [hhigh, if_pos rfl, hlow, if_neg (by decide), ih hrest', hbyte, List.append_assoc, List.singleton_append]

theorem foldl_byteToString (bytes : List UInt8) (hexed : List Char)
    : bytes.foldl (fun hexed byte => hexed ++ byteToString byte ++ [' ']) hexed
        = hexed ++ bytes.flatMap fun byte => byteToString byte ++ [' '] := by
  induction bytes generalizing hexed with
  | nil => rw [List.foldl_nil, List.flatMap_nil, List.append_nil]
  | cons b bytes ih => rw [List.foldl_cons, ih, List.flatMap_cons, List.append_assoc hexed, List.append_assoc hexed]

theorem toString_eq {bytes : List UInt8} (hne : bytes ≠ [])
    : ∃ text, toString bytes = some text
        ∧ text.filterMap number = bytes.flatMap fun b => (byteToString b).filterMap number := by
  have hspace : number ' ' = none := by decide
  obtain ⟨front, last, rfl⟩ := (List.eq_nil_or_concat' bytes).resolve_left hne
  refine ⟨front.flatMap (fun b => byteToString b ++ [' ']) ++ byteToString last, ?_, ?_⟩
  . rw [toString, foldl_byteToString, List.nil_append, List.flatMap_append, List.flatMap_singleton,
      ← List.append_assoc, if_neg (by simp), List.length_append, List.length_singleton, Nat.add_sub_cancel,
      List.take_left]
  . simp [List.filterMap_append, List.filterMap_flatMap, hspace]

/-- The bytes come back from their text, from the text in lower case, and from every text that it is respelled
to. -/
theorem getByteArrayFromHexString_toString (bytes : List UInt8) (hne : bytes ≠ [])
    : ∃ text, toString bytes = some text ∧ getByteArrayFromHexString text = bytes
        ∧ getByteArrayFromHexString (text.map Char.toLower) = bytes
        ∧ ∀ text', Respelled text text' → getByteArrayFromHexString text' = bytes := by
  obtain ⟨text, htext, hnumbers⟩ := toString_eq hne
  have hbytes : ∀ text', Respelled text text' → getByteArrayFromHexString text' = bytes := by
    intro text' hrespelled
    exact readLoop_bytes (hrespelled.filterMap_number.trans hnumbers) 0 []
  exact ⟨text, htext, hbytes text (.refl text), hbytes _ (.toLower text), hbytes⟩

theorem getByteArrayFromHexString_twoBytes
    : ∃ text, toString [0x0F, 0xA0] = some text ∧ getByteArrayFromHexString text = [0x0F, 0xA0]
        ∧ getByteArrayFromHexString (text.map Char.toLower) = [0x0F, 0xA0]
        ∧ ∀ text', Respelled text text' → getByteArrayFromHexString text' = [0x0F, 0xA0] :=
  getByteArrayFromHexString_toString [0x0F, 0xA0] (by decide)

example : toString [0x0F, 0xA0] = some "0F A0".toList := by decide

end HexTool

end WzGame
