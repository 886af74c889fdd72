import Mathlib
import WzGame.Util.FixedInts

/-!
This module contains the strings that the class `MiscUtil` makes from the time and a counter, and when they are
different from each other.
-/

namespace WzGame

namespace MiscUtil

-- the two digits of a byte, which `Integer.toHexString` writes without the zeros in front
def hexOfByte (byte : UInt8) : List Char :=
  let tmp := Nat.toDigits 16 byte.toNat
  if tmp.length = 1 then '0' :: tmp else tmp

def getMD5 (digest : String → List UInt8) (source : String) : String :=
  String.ofList ((digest source).flatMap hexOfByte)

def getCurrentSeconds (currentTimeMillis : Int64) : Int32 :=
  (currentTimeMillis / 1000).toInt32

structure Call where
  currentSeconds : Int32
  randomNum : Int32
deriving DecidableEq

def Call.resultValue (call : Call) : Int64 :=
  let currentTime := call.currentSeconds.toInt64
  currentTime <<< (10 + call.randomNum).toInt64

def randomStringCurrentTime (digest : String → List UInt8) (currentTimeMillis : Int64) (randomNum : Int32)
    : String × Int32 :=
  let call : Call := ⟨getCurrentSeconds currentTimeMillis, randomNum⟩
  (getMD5 digest call.resultValue.toInt.repr, randomNum + 1)

def returned (digest : String → List UInt8) : Int32 → List Int64 → List String
  | _, [] => []
  | randomNum, time :: times =>
    let (string, randomNum) := randomStringCurrentTime digest time randomNum
    string :: returned digest randomNum times

def calls : Int32 → List Int64 → List Call
  | _, [] => []
  | randomNum, time :: times => ⟨getCurrentSeconds time, randomNum⟩ :: calls (randomNum + 1) times

def hashed (randomNum : Int32) (times : List Int64) : List Int64 := (calls randomNum times).map Call.resultValue

structure Paced (times : List Int64) : Prop where
  sorted : (times.map fun time => (getCurrentSeconds time).toInt).Pairwise (· ≤ ·)
  fewer : ∀ second, (times.map getCurrentSeconds).count second < 1024

structure Unique (digest : String → List UInt8) (randomNum : Int32) (times : List Int64) : Prop where
  hashed : (hashed randomNum times).Nodup
  returned : (returned digest randomNum times).Nodup

def Call.distance (call : Call) : Nat := ((10 + call.randomNum).toInt % 64).toNat

/-- Two calls shift what is left of their seconds to the same bits: with the smaller distance taken from both, they
agree in the bits that this one leaves. -/
def Collide (call call' : Call) : Prop :=
  let shared := min call.distance call'.distance
  (2 : Int) ^ (64 - shared) ∣ call.currentSeconds.toInt * 2 ^ (call.distance - shared)
    - call'.currentSeconds.toInt * 2 ^ (call'.distance - shared)

section Hex

def valueOfDigit (c : Char) : Nat := if c ≤ '9' then c.toNat - '0'.toNat else c.toNat - 'a'.toNat + 10

theorem readBack_hexOfByte (byte : UInt8)
    : (hexOfByte byte).foldl (fun n c => 16 * n + valueOfDigit c) 0 = byte.toNat ∧ (hexOfByte byte).length = 2 := by
  have hall : ∀ i : Fin 256, (hexOfByte ⟨⟨i⟩⟩).foldl (fun n c => 16 * n + valueOfDigit c) 0 = i.val
      ∧ (hexOfByte ⟨⟨i⟩⟩).length = 2 := by
    decide +kernel
  exact hall byte.toBitVec.toFin

theorem hexOfByte_injective {b c : UInt8} (h : hexOfByte b = hexOfByte c) : b = c := by
  have hb := (readBack_hexOfByte b).left
  rw [h, (readBack_hexOfByte c).left] at hb
  exact UInt8.toNat_inj.mp hb.symm

theorem flatMap_hexOfByte_injective {bs cs : List UInt8} (h : bs.flatMap hexOfByte = cs.flatMap hexOfByte)
    : bs = cs := by
  have hlength : ∀ b, (hexOfByte b).length = 2 := fun b => (readBack_hexOfByte b).right
  induction bs generalizing cs with
  | nil =>
    cases cs with
    | nil => rfl
    | cons c cs =>
      have hempty := congrArg List.length h.symm
      simp [hlength] at hempty
  | cons b bs ih =>
    cases cs with
    | nil =>
      have hempty := congrArg List.length h
      simp [hlength] at hempty
    | cons c cs =>
      obtain ⟨hhead, htail⟩ := List.append_inj h (by rw [hlength, hlength])
      rw [hexOfByte_injective hhead, ih htail]

theorem getMD5_injective {digest : String → List UInt8} {s t : String} (h : getMD5 digest s = getMD5 digest t)
    : digest s = digest t :=
  flatMap_hexOfByte_injective (String.ofList_injective h)

end Hex

section Calls

variable {digest : String → List UInt8} {randomNum : Int32} {times : List Int64} {call call' : Call}

theorem resultValue_eq (call : Call)
    : call.resultValue = Int64.ofInt (call.currentSeconds.toInt * 2 ^ call.distance) := by
  rw [Call.resultValue, Int64.shiftLeft_eq_ofInt, Int32.toInt_toInt64, Int32.toInt_toInt64]
  rfl

theorem distance_lt (call : Call) : call.distance < 64 := by
  unfold Call.distance
  omega

theorem resultValue_eq_iff : call.resultValue = call'.resultValue ↔ Collide call call' := by
  rw [resultValue_eq, resultValue_eq, Int64.ofInt_eq_ofInt_iff, Int64.shifted_dvd_iff (distance_lt call)]
  rfl

theorem hashed_nodup_iff
    : (hashed randomNum times).Nodup ↔ (calls randomNum times).Pairwise fun call call' => ¬ Collide call call' := by
  simp only [hashed, List.Nodup, List.pairwise_map, ne_eq, resultValue_eq_iff]

theorem returned_eq
    : returned digest randomNum times = (hashed randomNum times).map fun value => getMD5 digest value.toInt.repr := by
  induction times generalizing randomNum with
  | nil => rfl
  | cons time times ih =>
    rw [returned, hashed, calls, List.map_cons, List.map_cons]
    exact congrArg _ ih

theorem returned_nodup (hnodup : (hashed randomNum times).Nodup)
    (hdigest : ∀ m ∈ hashed randomNum times, ∀ n ∈ hashed randomNum times,
      digest m.toInt.repr = digest n.toInt.repr → m.toInt.repr = n.toInt.repr)
    : (returned digest randomNum times).Nodup := by
  rw [returned_eq]
  refine hnodup.map_on ?_
  intro m hm n hn hequal
  exact Int64.toInt_inj.mp (Int.repr_injective (hdigest m hm n hn (getMD5_injective hequal)))

/-- On all runs, where the digest tells apart the texts that it is given. -/
theorem unique_iff (digest : String → List UInt8) (randomNum : Int32) (times : List Int64)
    (hdigest : ∀ m ∈ hashed randomNum times, ∀ n ∈ hashed randomNum times,
      digest m.toInt.repr = digest n.toInt.repr → m.toInt.repr = n.toInt.repr)
    : Unique digest randomNum times
        ↔ (calls randomNum times).Pairwise fun call call' => ¬ Collide call call' := by
  rw [← hashed_nodup_iff]
  constructor
  . intro hunique
    exact hunique.hashed
  . intro hnodup
    exact ⟨hnodup, returned_nodup hnodup hdigest⟩

theorem getElem?_calls (randomNum : Int32) (times : List Int64) (i : Nat)
    : (calls randomNum times)[i]?
        = times[i]?.map fun time => ⟨getCurrentSeconds time, randomNum + Int32.ofNat i⟩ := by
  induction times generalizing randomNum i with
  | nil => rfl
  | cons time times ih =>
    cases i with
    | zero =>
      have hzero : randomNum + Int32.ofNat 0 = randomNum := Int32.add_zero randomNum
      rw [calls, List.getElem?_cons_zero, List.getElem?_cons_zero, Option.map_some, hzero]
    | succ i =>
      have hnext : randomNum + 1 + Int32.ofNat i = randomNum + Int32.ofNat (i + 1) := by
        rw [Int32.ofNat_add, Int32.add_assoc, Int32.add_comm 1]
        rfl
      rw [calls, List.getElem?_cons_succ, List.getElem?_cons_succ, ih, hnext]

theorem hashed_getElem? (randomNum : Int32) {i : Nat} {time : Int64} (htime : times[i]? = some time)
    : (hashed randomNum times)[i]?
        = some (Call.resultValue ⟨getCurrentSeconds time, randomNum + Int32.ofNat i⟩) := by
  rw [hashed, List.getElem?_map, getElem?_calls, htime]
  rfl

theorem resultValue_add_64 (currentSeconds randomNum : Int32)
    : Call.resultValue ⟨currentSeconds, randomNum + 64⟩ = Call.resultValue ⟨currentSeconds, randomNum⟩ := by
  have hdistance : (10 + (randomNum + 64)).toInt % 64 = (10 + randomNum).toInt % 64 := by
    have hadded : (64 : Int32).toInt = 64 := rfl
    rw [← Int32.add_assoc, Int32.toInt_add, hadded, Int.bmod_def]
    omega
  rw [resultValue_eq, resultValue_eq, Call.distance, Call.distance, hdistance]

theorem not_unique_of_sameSecond {i : Nat} {time time' : Int64} (hfirst : times[i]? = some time)
    (hsecond : times[i + 64]? = some time') (hsame : getCurrentSeconds time = getCurrentSeconds time')
    : ¬ Unique digest randomNum times := by
  intro hunique
  have hfirstValue := hashed_getElem? randomNum hfirst
  have hsecondValue := hashed_getElem? randomNum hsecond
  have hcounter : randomNum + Int32.ofNat (i + 64) = randomNum + Int32.ofNat i + 64 := by
    rw [Int32.ofNat_add, ← Int32.add_assoc]
    rfl
  rw [← hsame, hcounter, resultValue_add_64] at hsecondValue
  have hlength := (List.getElem?_eq_some_iff.mp hsecondValue).1
  exact List.nodup_iff_getElem?_ne_getElem?.mp hunique.hashed i (i + 64) (by omega) hlength
    (hfirstValue.trans hsecondValue.symm)

end Calls

section Runs

instance (call call' : Call) : Decidable (Collide call call') :=
  inferInstanceAs (Decidable (_ ∣ _))

def digests (text : String) : List UInt8 :=
  if text = "2048" then
    [0x05, 0x19, 0x28, 0x34, 0x1b, 0xe6, 0x7d, 0xcb, 0xa0, 0x3f, 0x0e, 0x04, 0x10, 0x4d, 0x90, 0x47]
  else
    [0xf7, 0xef, 0xa4, 0xf8, 0x64, 0xae, 0x9b, 0x88, 0xd4, 0x35, 0x27, 0xf4, 0xb1, 0x4f, 0x75, 0x0f]

theorem unique_firstCalls : Unique digests 1 [1000, 1000] := by
  have hhashed : hashed 1 [1000, 1000] = [2048, 4096] := by decide
  have hfirst : (2048 : Int).repr = "2048" := rfl
  have hsecond : (4096 : Int).repr = "4096" := rfl
  refine (unique_iff digests 1 [1000, 1000] ?_).mpr (by decide)
  rw [hhashed]
  simp [hfirst, hsecond, digests]

theorem unique_counterexample
    : Paced [1500000000000, 1500000000000] ∧ ∀ digest, ¬ Unique digest 52 [1500000000000, 1500000000000] := by
  constructor
  . refine ⟨by decide, fun second => ?_⟩
    exact Nat.lt_of_le_of_lt List.count_le_length (by decide)
  . intro digest hunique
    have hhashed : hashed 52 [1500000000000, 1500000000000] = [0, 0] := by decide
    have hnodup := hunique.hashed
    rw [hhashed] at hnodup
    contradiction

end Runs

end MiscUtil

end WzGame
