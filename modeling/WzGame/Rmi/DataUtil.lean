import WzGame.Packet.ByteBuf
import WzGame.Util.Utf

/-!
This module contains how the values of a remote call are written to and read from a buffer. Writing and
reading are undefined where the code throws.
-/

namespace WzGame

open ByteBuf Utf

namespace Rmi

abbrev JavaString : Type := List UInt16

inductive RmiObjectType where
  | byte
  | short
  | int
  | string
  | float
  | double
  | boolean
  | long
  | callback
  | list
  | object
  | null
deriving DecidableEq

namespace RmiObjectType

def getValue : RmiObjectType → Nat
  | .byte => 1
  | .short => 2
  | .int => 3
  | .string => 4
  | .float => 5
  | .double => 6
  | .boolean => 7
  | .long => 8
  | .callback => 9
  | .list => 10
  | .object => 11
  | .null => 12

def values : List RmiObjectType :=
  [.byte, .short, .int, .string, .float, .double, .boolean, .long, .callback, .list, .object, .null]

def getByValue (value : Int) : Option RmiObjectType := values.find? fun type => type.getValue = value

end RmiObjectType

/--
The objects of the classes that implement `IData`: the simple name of the class, what `write` returns, and
what an object that is made for the name of its class reads, where a function says what malformed strings are.
-/
class IData (D : Type) where
  getSimpleName : D → String
  write : D → Option (List UInt8)
  read : (List UInt8 → JavaString) → JavaString → List UInt8 → Option (D × List UInt8)
  length_read : ∀ {malformed dataName buffer d rest}, read malformed dataName buffer = some (d, rest)
    → rest.length ≤ buffer.length

inductive RmiValue (D : Type) where
  | null
  | int (n : Int32)
  | short (n : Int16)
  | boolean (b : Bool)
  | string (s : JavaString)
  | list (className : String) (elems : List (RmiValue D))
  | data (d : D)
  | callback

namespace DataUtil

variable {D : Type} [IData D]

def writeByte (type : RmiObjectType) : UInt8 := .ofNat type.getValue

def readByte : List UInt8 → Option (Int × List UInt8)
  | b :: buffer => some (b.toInt8.toInt, buffer)
  | [] => none

def writeUtf8 (str : JavaString) : List UInt8 :=
  if str = [] then
    writeShort 0
  else
    writeShort (.ofInt str.length) ++ getBytes str

def objectType (className : String) : RmiObjectType :=
  let className := if className = "" then "callback" else className
  if className = "Integer" then
    .int
  else if className = "String" then
    .string
  else if className = "Boolean" then
    .boolean
  else if className = "Short" then
    .short
  else if className = "callback" then
    .callback
  else if className = "List" then
    .list
  else
    .object

mutual

-- a cast that fails has no result
def writeObject : RmiValue D → Option (List UInt8)
  | .null => some [writeByte .null]
  | .int n => some (writeByte .int :: writeInt n)
  | .string s => some (writeByte .string :: writeUtf8 s)
  | .boolean b => some [writeByte .boolean, if b then 1 else 0]
  | .short n => some (writeByte .short :: writeShort n)
  | .callback => some [writeByte .callback]
  | .list className elems =>
    match objectType className with
    | .callback => some [writeByte .callback]
    | .list => (writeElems elems).map fun bytes =>
      writeByte .list :: (writeShort (.ofInt elems.length) ++ bytes)
    | _ => none
  | .data d =>
    match objectType (IData.getSimpleName d) with
    | .callback => some [writeByte .callback]
    | .object => (IData.write d).map fun bytes => writeByte .object :: bytes
    | _ => none

-- the values one after another, as the loops of `writeList` and of `BaseData.write` write them
def writeElems : List (RmiValue D) → Option (List UInt8)
  | [] => some []
  | e :: es => do
    let bytes ← writeObject e
    let bytes' ← writeElems es
    return bytes ++ bytes'

end

section Read

variable (malformed : List UInt8 → JavaString)

def readUtf8 (buffer : List UInt8) : Option (JavaString × List UInt8) := do
  let (length, buffer) ← readShort buffer
  if length.toInt < 0 ∨ buffer.length < length.toInt.toNat then
    none
  else
    return (ofBytes malformed (buffer.take length.toInt.toNat), buffer.drop length.toInt.toNat)

def readData (buffer : List UInt8) : Option (D × List UInt8) := do
  let (dataName, buffer) ← readUtf8 malformed buffer
  IData.read malformed dataName buffer

def readElems {α : Type} (read : List UInt8 → Option (α × List UInt8))
    : Nat → List UInt8 → Option (List α × List UInt8)
  | 0, buffer => some ([], buffer)
  | n + 1, buffer => do
    let (e, buffer) ← read buffer
    let (es, buffer) ← readElems read n buffer
    return (e :: es, buffer)

def readList {α : Type} (read : List UInt8 → Option (α × List UInt8)) (buffer : List UInt8)
    : Option (List α × List UInt8) := do
  let (size, buffer) ← readShort buffer
  readElems read size.toInt.toNat buffer

def readNested : Nat → List UInt8 → Option (RmiValue D × List UInt8)
  | 0, _ => none
  | fuel + 1, buffer => do
    let (type, buffer) ← readByte buffer
    match RmiObjectType.getByValue type with
    | some .int => (readInt buffer).map fun (n, buffer) => (.int n, buffer)
    | some .string => (readUtf8 malformed buffer).map fun (s, buffer) => (.string s, buffer)
    | some .short => (readShort buffer).map fun (n, buffer) => (.short n, buffer)
    | some .boolean => (readByte buffer).map fun (n, buffer) => (.boolean (n ≠ 0), buffer)
    | some .callback => some (.callback, buffer)
    | some .list => (readList (readNested fuel) buffer).map fun (elems, buffer) =>
      (.list "ArrayList" elems, buffer)
    | some .object => (readData malformed buffer).map fun (d, buffer) => (.data d, buffer)
    | some .null => some (.null, buffer)
    | _ => none

def readObject (buffer : List UInt8) : Option (RmiValue D × List UInt8) :=
  readNested malformed buffer.length buffer

end Read

section Fuel

variable {malformed : List UInt8 → JavaString} {α : Type} {buffer rest : List UInt8} {fuel fuel' n k : Nat}
  {read read' : List UInt8 → Option (α × List UInt8)}

theorem length_map_readWord {f : Nat → α} {v : α}
    (h : (readWord k buffer).map (fun p => (f p.1, p.2)) = some (v, rest)) : rest.length ≤ buffer.length := by
  obtain ⟨-, hnone⟩ | ⟨-, m, rest', hsome, hlength⟩ := readWord_cases k buffer
  . rw [hnone] at h
    contradiction
  . rw [hsome] at h
    obtain ⟨-, rfl⟩ := Prod.mk.inj (Option.some.inj h)
    dsimp only
    omega

theorem length_readShort {v : Int16} (h : readShort buffer = some (v, rest)) : rest.length ≤ buffer.length :=
  length_map_readWord (k := 2) (f := fun m => Int16.ofBitVec (.ofNat 16 m)) h

theorem length_readInt {v : Int32} (h : readInt buffer = some (v, rest)) : rest.length ≤ buffer.length :=
  length_map_readWord (k := 4) (f := fun m => Int32.ofBitVec (.ofNat 32 m)) h

theorem length_readByte {v : Int} (h : readByte buffer = some (v, rest))
    : buffer.length = rest.length + 1 := by
  cases buffer with
  | nil => contradiction
  | cons b buffer =>
    obtain ⟨-, rfl⟩ := Prod.mk.inj (Option.some.inj h)
    rfl

theorem length_readUtf8 {s : JavaString} (h : readUtf8 malformed buffer = some (s, rest))
    : rest.length ≤ buffer.length := by
  simp only [readUtf8, Option.bind_eq_bind, Option.bind_eq_some_iff] at h
  obtain ⟨⟨length, buffer'⟩, hlength, h⟩ := h
  have hle : buffer'.length ≤ buffer.length := length_readShort hlength
  split at h
  . contradiction
  . obtain ⟨-, rfl⟩ := Prod.mk.inj (Option.some.inj h)
    rw [List.length_drop]
    dsimp only
    omega

theorem length_readData {d : D} (h : readData malformed buffer = some (d, rest))
    : rest.length ≤ buffer.length := by
  simp only [readData, Option.bind_eq_bind, Option.bind_eq_some_iff] at h
  obtain ⟨⟨dataName, buffer'⟩, hname, hread⟩ := h
  exact (IData.length_read hread).trans (length_readUtf8 hname)

theorem length_readElems {es : List α}
    (hread : ∀ b v r, read b = some (v, r) → r.length ≤ b.length)
    (h : readElems read n buffer = some (es, rest)) : rest.length ≤ buffer.length := by
  induction n generalizing buffer es with
  | zero =>
    obtain ⟨-, rfl⟩ := Prod.mk.inj (Option.some.inj h)
    exact Nat.le_refl _
  | succ n ih =>
    simp only [readElems, Option.bind_eq_bind, Option.bind_eq_some_iff] at h
    obtain ⟨⟨e, buffer₁⟩, hhead, ⟨es, buffer₂⟩, htail, heq⟩ := h
    obtain ⟨-, rfl⟩ := Prod.mk.inj (Option.some.inj heq)
    exact (ih htail).trans (hread _ _ _ hhead)

theorem readElems_congr (hread : ∀ b v r, read b = some (v, r) → r.length ≤ b.length)
    (h : ∀ b, b.length ≤ buffer.length → read b = read' b)
    : readElems read n buffer = readElems read' n buffer := by
  induction n generalizing buffer with
  | zero => rfl
  | succ n ih =>
    rw [readElems, readElems, ← h buffer (Nat.le_refl _)]
    cases hhead : read buffer with
    | none => rfl
    | some p =>
      have hle := hread buffer p.1 p.2 hhead
      simp only [Option.bind_eq_bind, Option.bind_some]
      rw [ih fun b hb => h b (hb.trans hle)]

theorem readList_congr (hread : ∀ b v r, read b = some (v, r) → r.length ≤ b.length)
    (h : ∀ b, b.length ≤ buffer.length → read b = read' b)
    : readList read buffer = readList read' buffer := by
  rw [readList, readList]
  cases hsize : readShort buffer with
  | none => rfl
  | some p => exact readElems_congr hread fun b hb => h b (hb.trans (length_readShort hsize))

theorem length_readNested {v : RmiValue D} (h : readNested malformed fuel buffer = some (v, rest))
    : rest.length ≤ buffer.length := by
  induction fuel generalizing buffer v rest with
  | zero => contradiction
  | succ fuel ih =>
    simp only [readNested, Option.bind_eq_bind, Option.bind_eq_some_iff] at h
    obtain ⟨⟨type, buffer'⟩, htype, h⟩ := h
    have hbyte := length_readByte htype
    suffices hle : rest.length ≤ buffer'.length by omega
    split at h
    . obtain ⟨⟨n, r⟩, hread, heq⟩ := Option.map_eq_some_iff.mp h
      obtain ⟨-, rfl⟩ := Prod.mk.inj heq
      exact length_readInt hread
    . obtain ⟨⟨s, r⟩, hread, heq⟩ := Option.map_eq_some_iff.mp h
      obtain ⟨-, rfl⟩ := Prod.mk.inj heq
      exact length_readUtf8 hread
    . obtain ⟨⟨n, r⟩, hread, heq⟩ := Option.map_eq_some_iff.mp h
      obtain ⟨-, rfl⟩ := Prod.mk.inj heq
      exact length_readShort hread
    . obtain ⟨⟨b, r⟩, hread, heq⟩ := Option.map_eq_some_iff.mp h
      obtain ⟨-, rfl⟩ := Prod.mk.inj heq
      have hlt : buffer'.length = r.length + 1 := length_readByte hread
      dsimp only
      omega
    . obtain ⟨-, rfl⟩ := Prod.mk.inj (Option.some.inj h)
      exact Nat.le_refl _
    . obtain ⟨⟨elems, r⟩, hread, heq⟩ := Option.map_eq_some_iff.mp h
      obtain ⟨-, rfl⟩ := Prod.mk.inj heq
      simp only [readList, Option.bind_eq_bind, Option.bind_eq_some_iff] at hread
      obtain ⟨⟨size, buffer''⟩, hsize, helems⟩ := hread
      exact (length_readElems (fun _ _ _ hr => ih hr) helems).trans (length_readShort hsize)
    . obtain ⟨⟨d, r⟩, hread, heq⟩ := Option.map_eq_some_iff.mp h
      obtain ⟨-, rfl⟩ := Prod.mk.inj heq
      exact length_readData hread
    . obtain ⟨-, rfl⟩ := Prod.mk.inj (Option.some.inj h)
      exact Nat.le_refl _
    . contradiction

theorem readNested_fuel (hfuel : buffer.length ≤ fuel) (hfuel' : buffer.length ≤ fuel')
    : readNested (D := D) malformed fuel buffer = readNested malformed fuel' buffer := by
  induction fuel generalizing buffer fuel' with
  | zero =>
    obtain rfl := List.length_eq_zero_iff.mp (Nat.le_zero.mp hfuel)
    cases fuel' <;> rfl
  | succ fuel ih =>
    cases buffer with
    | nil => cases fuel' <;> rfl
    | cons b buffer =>
      cases fuel' with
      | zero => contradiction
      | succ fuel' =>
        rw [List.length_cons] at hfuel hfuel'
        have hlist : readList (readNested (D := D) malformed fuel) buffer
            = readList (readNested malformed fuel') buffer :=
          readList_congr (fun _ _ _ => length_readNested) fun b hb => ih (by omega) (by omega)
        simp only [readNested, readByte, Option.bind_eq_bind, Option.bind_some, hlist]

end Fuel

mutual

def contents : RmiValue D → RmiValue D
  | .list _ elems => .list "List" (contentsElems elems)
  | v => v

def contentsElems : List (RmiValue D) → List (RmiValue D)
  | [] => []
  | e :: es => contents e :: contentsElems es

end

end DataUtil

namespace BaseData

variable {D : Type} [IData D]

def write (className : JavaString) (fields : List (RmiValue D)) : Option (List UInt8) :=
  (DataUtil.writeElems fields).map fun bytes => DataUtil.writeUtf8 className ++ bytes

-- the values of the fields, of which each takes the values of its type; `set` throws at any other one
def read (malformed : List UInt8 → JavaString)
    : List (RmiValue D → Bool) → List UInt8 → Option (List (RmiValue D) × List UInt8)
  | [], buffer => some ([], buffer)
  | accepts :: types, buffer => do
    let (v, buffer) ← DataUtil.readObject malformed buffer
    if accepts v then
      let (vs, buffer) ← read malformed types buffer
      return (v :: vs, buffer)
    else
      none

theorem length_read {malformed : List UInt8 → JavaString} {types : List (RmiValue D → Bool)}
    {buffer rest : List UInt8} {vs : List (RmiValue D)} (h : read malformed types buffer = some (vs, rest))
    : rest.length ≤ buffer.length := by
  induction types generalizing buffer vs with
  | nil =>
    obtain ⟨-, rfl⟩ := Prod.mk.inj (Option.some.inj h)
    exact Nat.le_refl _
  | cons accepts types ih =>
    simp only [read, Option.bind_eq_bind, Option.bind_eq_some_iff] at h
    obtain ⟨⟨v, buffer'⟩, hread, h⟩ := h
    split at h
    . obtain ⟨⟨vs', buffer''⟩, hread', heq⟩ := Option.bind_eq_some_iff.mp h
      obtain ⟨-, rfl⟩ := Prod.mk.inj (Option.some.inj heq)
      exact (ih hread').trans (DataUtil.length_readNested hread)
    . contradiction

end BaseData

end Rmi

end WzGame
