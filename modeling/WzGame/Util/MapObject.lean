import Mathlib.Data.Finmap

/-!
This module contains `MapObject`, a map from column names to values, and how it reads a value as a
number.
-/

namespace WzGame

-- the values of a row: `null`, `Integer`, `Long`, `Boolean` and `String` objects
inductive Value where
  | null
  | int (v : Int)
  | long (v : Int)
  | bool (b : Bool)
  | string (s : String)
deriving DecidableEq

abbrev MapObject := Finmap fun _ : String => Value

namespace MapObject

def get (data : MapObject) (key : String) : Value := (data.lookup key).getD .null

def size (data : MapObject) : Nat := data.keys.card

def zeros : List Nat :=
  [0x30, 0x660, 0x6f0, 0x7c0, 0x966, 0x9e6, 0xa66, 0xae6, 0xb66, 0xbe6, 0xc66, 0xce6, 0xd66, 0xde6,
    0xe50, 0xed0, 0xf20, 0x1040, 0x1090, 0x17e0, 0x1810, 0x1946, 0x19d0, 0x1a80, 0x1a90, 0x1b50,
    0x1bb0, 0x1c40, 0x1c50, 0xa620, 0xa8d0, 0xa900, 0xa9d0, 0xa9f0, 0xaa50, 0xabf0, 0xff10]

-- `Character.digit(c, 10)`
def digit (c : Char) : Option Nat :=
  (zeros.find? fun z => z ≤ c.toNat ∧ c.toNat ≤ z + 9).map fun z => c.toNat - z

def digits (cs : List Char) : Option Nat :=
  if cs = [] then
    none
  else
    cs.foldlM (fun n c => (digit c).map (10 * n + ·)) 0

-- `Long.parseLong`, where `none` is a `NumberFormatException`
def parseLong (cs : List Char) : Option Int := do
  let n ←
    match cs with
    | '-' :: cs => (digits cs).map fun n => -(n : Int)
    | '+' :: cs => (digits cs).map Int.ofNat
    | cs => (digits cs).map Int.ofNat
  if -2 ^ 63 ≤ n ∧ n < 2 ^ 63 then some n else none

-- `String.trim`
def trim (cs : List Char) : List Char :=
  ((cs.dropWhile (· ≤ ' ')).reverse.dropWhile (· ≤ ' ')).reverse

end MapObject

namespace Value

open MapObject

def toLong : Value → Option Int
  | int v => some v
  | long v => some v
  | string s => parseLong (trim s.toList)
  -- A `null` has no number, and the cast of any other object throws inside the `try`.
  | null => none
  | bool _ => none

end Value

namespace MapObject

def getLong (data : MapObject) (key : String) (dflt : Int) : Int :=
  ((data.get key).toLong).getD dflt

-- `none` is a `ClassCastException`, and `some none` is `null`.
def getString (data : MapObject) (key : String) : Option (Option String) :=
  match data.get key with
  | .null => some none
  | .string s => some (some s)
  | _ => none

-- `Integer.parseInt`, where `none` is a `NumberFormatException`
def parseInt (cs : List Char) : Option Int :=
  (parseLong cs).filter fun n => -2 ^ 31 ≤ n ∧ n < 2 ^ 31

def getInt (data : MapObject) (key : String) : Int32 :=
  match data.get key with
  | .int v => .ofInt v
  | .long v => .ofInt v
  | .string s => .ofInt ((parseInt s.toList).getD 0)
  -- The cast of any other object throws inside the `try`.
  | .null => 0
  | .bool _ => 0

def put (data : MapObject) (key : String) (value : Value) : MapObject := data.insert key value

@[simp]
theorem get_put {data : MapObject} {key key' : String} {value : Value}
    : (data.put key value).get key' = if key' = key then value else data.get key' := by
  unfold put get
  split
  . next h =>
    subst h
    rw [Finmap.lookup_insert]
    rfl
  . next h => rw [Finmap.lookup_insert_of_ne _ h]

theorem digit_digitChar {d : Nat} (h : d < 10) : digit d.digitChar = some d := by
  have hall : ∀ d < 10, digit (Nat.digitChar d) = some d := by decide
  exact hall d h

theorem foldlM_toDigits {n : Nat}
    : (Nat.toDigits 10 n).foldlM (fun n c => (digit c).map (10 * n + ·)) 0 = some n := by
  induction n using Nat.strong_induction_on with
  | _ n ih =>
    by_cases h : n < 10
    . rw [Nat.toDigits_of_lt_base h]
      simp [digit_digitChar h]
    . rw [Nat.toDigits_of_base_le (by decide) (by omega), List.foldlM_append, ih (n / 10) (by omega)]
      have hlt : n % 10 < 10 := Nat.mod_lt _ (by decide)
      have hsum : 10 * (n / 10) + n % 10 = n := Nat.div_add_mod n 10
      simp [digit_digitChar hlt, hsum]

theorem digits_toDigits {n : Nat} : digits (Nat.toDigits 10 n) = some n := by
  rw [digits, if_neg Nat.toDigits_ne_nil]
  exact foldlM_toDigits

theorem parseLong_repr {n : Int} (h : -2 ^ 63 ≤ n ∧ n < 2 ^ 63)
    : parseLong n.repr.toList = some n := by
  rw [Int.repr_eq_if]
  split
  . next hnonneg =>
    have hdigit : ∀ c ∈ Nat.toDigits 10 n.toNat, c.isDigit = true :=
      fun c hc => Nat.isDigit_of_mem_toDigits (by decide) (by decide) hc
    have hnat : Int.ofNat n.toNat = n := Int.toNat_of_nonneg hnonneg
    rw [Nat.toList_repr, parseLong, digits_toDigits, Option.map_some, Option.bind_eq_bind,
      Option.bind_some, hnat]
    . exact if_pos h
    . intro cs hcs
      exact absurd (hdigit '-' (by simp [hcs])) (by decide)
    . intro cs hcs
      exact absurd (hdigit '+' (by simp [hcs])) (by decide)
  . next hneg =>
    have hnat : -((-n).toNat : Int) = n := by omega
    have hminus : "-".toList = ['-'] := by decide
    rw [String.toList_append, Nat.toList_repr, hminus, List.singleton_append, parseLong,
      digits_toDigits]
    show (if -2 ^ 63 ≤ -((-n).toNat : Int) ∧ -((-n).toNat : Int) < 2 ^ 63 then
      some (-((-n).toNat : Int)) else none) = some n
    rw [hnat, if_pos h]

theorem parseInt_repr {n : Int} (h : -2 ^ 31 ≤ n ∧ n < 2 ^ 31)
    : parseInt n.repr.toList = some n := by
  rw [parseInt, parseLong_repr (by omega), Option.filter_some, if_pos (decide_eq_true h)]

example : getLong (Finmap.singleton "hero_id" (.string " -12 ")) "hero_id" 0 = -12 := by decide

end MapObject

end WzGame
