import WzGame.Rmi.DataUtil

/-!
This module contains which values of a remote call are read as they were written.
-/

namespace WzGame

open ByteBuf Utf

namespace Rmi

namespace DataUtil

variable {D : Type} [IData D]

section Predicates

variable (malformed : List UInt8 → JavaString)

def RoundTrips (v : RmiValue D) : Prop :=
  ∃ bytes, writeObject v = some bytes
    ∧ ∀ rest, ∃ v', readObject malformed (bytes ++ rest) = some (v', rest) ∧ contents v' = contents v

def DataRoundTrips (d : D) : Prop :=
  ∃ bytes, IData.write d = some bytes ∧ ∀ rest, readData malformed (bytes ++ rest) = some (d, rest)

inductive Supported : RmiValue D → Prop where
  | null : Supported .null
  | int (n : Int32) : Supported (.int n)
  | short (n : Int16) : Supported (.short n)
  | boolean (b : Bool) : Supported (.boolean b)
  | string (s : JavaString) (hlength : (getBytes s).length ≤ 32767) : Supported (.string s)
  | list (className : String) (elems : List (RmiValue D)) (hlength : elems.length ≤ 32767)
      (helems : ∀ e ∈ elems, Supported e) : Supported (.list className elems)
  | data (d : D) (hdata : DataRoundTrips malformed d) : Supported (.data d)

end Predicates

/--
All strings are ASCII, all lists are of a class `List`, and no object is of a class with one of the names
that have a meaning of their own.
-/
inductive Plain : RmiValue D → Prop where
  | null : Plain .null
  | int (n : Int32) : Plain (.int n)
  | short (n : Int16) : Plain (.short n)
  | boolean (b : Bool) : Plain (.boolean b)
  | string (s : JavaString) (hascii : IsAscii s) : Plain (.string s)
  | list (elems : List (RmiValue D)) (helems : ∀ e ∈ elems, Plain e) : Plain (.list "List" elems)
  | data (d : D) (htype : objectType (IData.getSimpleName d) = .object) : Plain (.data d)

variable {malformed : List UInt8 → JavaString} {type : RmiObjectType} {buffer bytes rest rest' : List UInt8}
  {s : JavaString} {v v' : RmiValue D} {elems elems' : List (RmiValue D)} {fuel n : Nat}

@[simp]
theorem readByte_writeByte : readByte (writeByte type :: buffer) = some ((type.getValue : Int), buffer) := by
  cases type <;> rfl

@[simp]
theorem getByValue_getValue : RmiObjectType.getByValue (type.getValue : Int) = some type := by
  cases type <;> rfl

theorem getByValue_of_neg {value : Int} (h : value < 0) : RmiObjectType.getByValue value = none := by
  refine List.find?_eq_none.mpr fun type _ => ?_
  simp only [decide_eq_true_eq]
  omega

theorem objectType_eq_list {className : String} (h : objectType className = .list)
    : className = "List" := by
  by_cases hempty : className = ""
  . simp [objectType, hempty] at h
  . simp only [objectType, if_neg hempty] at h
    split_ifs at h
    assumption

theorem toInt_ofInt_length (h : n ≤ 32767) : (Int16.ofInt n).toInt = n := by
  rw [Int16.toInt_ofInt_of_le (by omega) (by omega)]

theorem readUtf8_writeUtf8 (h : (getBytes s).length ≤ 32767)
    : readUtf8 malformed (writeUtf8 s ++ rest)
      = some (ofBytes malformed ((getBytes s).take s.length), (getBytes s).drop s.length ++ rest) := by
  have hle : s.length ≤ (getBytes s).length := length_le_length_getBytes
  have hlength := toInt_ofInt_length (n := s.length) (by omega)
  have hwrite : writeUtf8 s = writeShort (.ofInt s.length) ++ getBytes s := by
    rw [writeUtf8]
    split
    . next hs =>
      subst hs
      rfl
    . rfl
  rw [hwrite, List.append_assoc]
  simp only [readUtf8, readShort_writeShort, Option.bind_eq_bind, Option.bind_some, hlength]
  rw [if_neg (by simp; omega)]
  simp only [Int.toNat_natCast, List.take_append_of_le_length hle, List.drop_append_of_le_length hle]
  rfl

theorem readNested_of_beginsInside (h : BeginsInside buffer)
    : readNested (D := D) malformed fuel buffer = none := by
  obtain ⟨b, tail, rfl, hlow, -⟩ := h
  have hneg : b.toInt8.toInt < 0 := by
    have hlt := b.toNat_lt
    rw [← Int8.toInt_toBitVec, BitVec.toInt_eq_toNat_cond]
    simp only [UInt8.toBitVec_toInt8, UInt8.toNat_toBitVec]
    split <;> omega
  cases fuel with
  | zero => rfl
  | succ fuel => simp [readNested, readByte, getByValue_of_neg hneg]

def Reads (malformed : List UInt8 → JavaString) (v : RmiValue D) : Prop :=
  ∃ bytes, writeObject v = some bytes ∧ ∀ rest fuel, bytes.length ≤ fuel
    → ∃ v', readNested malformed fuel (bytes ++ rest) = some (v', rest) ∧ contents v' = contents v

theorem Reads.roundTrips (R : Reads malformed v) : RoundTrips malformed v := by
  obtain ⟨bytes, hwrite, hread⟩ := R
  refine ⟨bytes, hwrite, fun rest => hread rest _ ?_⟩
  rw [List.length_append]
  omega

theorem readElems_writeElems (h : ∀ e ∈ elems, Reads malformed e)
    : ∃ bytes, writeElems elems = some bytes ∧ ∀ rest fuel, bytes.length ≤ fuel
      → ∃ elems', readElems (readNested malformed fuel) elems.length (bytes ++ rest) = some (elems', rest)
        ∧ contentsElems elems' = contentsElems elems := by
  induction elems with
  | nil => exact ⟨[], rfl, fun rest fuel _ => ⟨[], rfl, rfl⟩⟩
  | cons e es ih =>
    obtain ⟨bytes, hwrite, hread⟩ := h e List.mem_cons_self
    obtain ⟨bytes', hwrite', hread'⟩ := ih fun e' he' => h e' (List.mem_cons_of_mem _ he')
    refine ⟨bytes ++ bytes', by simp [writeElems, hwrite, hwrite'], fun rest fuel hfuel => ?_⟩
    rw [List.length_append] at hfuel
    obtain ⟨v, hv, hcontents⟩ := hread (bytes' ++ rest) fuel (by omega)
    obtain ⟨vs, hvs, hcontents'⟩ := hread' rest fuel (by omega)
    refine ⟨v :: vs, ?_, ?_⟩
    . rw [List.append_assoc, List.length_cons, readElems, hv]
      simp [hvs]
    . rw [contentsElems, contentsElems, hcontents, hcontents']

theorem Reads.of_cons {b : UInt8} (hwrite : writeObject v = some (b :: bytes))
    (hread : ∀ rest fuel, bytes.length ≤ fuel
      → ∃ v', readNested malformed (fuel + 1) (b :: (bytes ++ rest)) = some (v', rest)
        ∧ contents v' = contents v)
    : Reads malformed v := by
  refine ⟨b :: bytes, hwrite, fun rest fuel hfuel => ?_⟩
  rw [List.length_cons] at hfuel
  obtain ⟨fuel, rfl⟩ := Nat.exists_eq_add_of_le' (Nat.le_of_add_left_le hfuel)
  exact hread rest fuel (by omega)

theorem Plain.reads (P : Plain v) (S : Supported malformed v) : Reads malformed v := by
  induction P with
  | null => exact .of_cons rfl fun rest fuel _ => ⟨.null, by simp [readNested], rfl⟩
  | int n => exact .of_cons rfl fun rest fuel _ => ⟨.int n, by simp [readNested], rfl⟩
  | short n => exact .of_cons rfl fun rest fuel _ => ⟨.short n, by simp [readNested], rfl⟩
  | boolean b =>
    refine .of_cons rfl fun rest fuel _ => ⟨.boolean b, ?_, rfl⟩
    cases b <;> rfl
  | string s hascii =>
    cases S with
    | string _ hlength =>
      refine .of_cons rfl fun rest fuel _ => ⟨.string s, ?_, rfl⟩
      simp only [readNested, readByte_writeByte, Option.bind_eq_bind, Option.bind_some, getByValue_getValue,
        readUtf8_writeUtf8 hlength, ← length_getBytes hascii, List.take_length, List.drop_length,
        ofBytes_getBytes hascii, Option.map_some, List.nil_append]
  | list elems helems ih =>
    cases S with
    | list _ _ hlength hsupported =>
      obtain ⟨bytes, hwrite, hread⟩ := readElems_writeElems fun e he => ih e he (hsupported e he)
      have hwrite' : writeObject (.list "List" elems)
          = some (writeByte .list :: (writeShort (.ofInt elems.length) ++ bytes)) := by
        rw [writeObject, hwrite]
        rfl
      refine .of_cons hwrite' fun rest fuel hfuel => ?_
      rw [List.length_append, length_writeShort] at hfuel
      obtain ⟨elems', helems', hcontents⟩ := hread rest fuel (by omega)
      refine ⟨.list "ArrayList" elems', ?_, ?_⟩
      . simp only [readNested, readByte_writeByte, Option.bind_eq_bind, Option.bind_some,
          getByValue_getValue, readList, List.append_assoc, readShort_writeShort,
          toInt_ofInt_length hlength, Int.toNat_natCast, helems', Option.map_some]
      . rw [contents, contents, hcontents]
  | data d htype =>
    cases S with
    | data _ hdata =>
      obtain ⟨bytes, hwrite, hread⟩ := hdata
      have hwrite' : writeObject (.data d) = some (writeByte .object :: bytes) := by
        rw [writeObject, htype, hwrite]
        rfl
      refine .of_cons hwrite' fun rest fuel _ => ⟨.data d, ?_, rfl⟩
      simp [readNested, hread]

/--
A value that is read as an equal one is plain and leaves what follows, or what it leaves begins inside a
character.
-/
def Leaves (malformed : List UInt8 → JavaString) (v : RmiValue D) : Prop :=
  ∀ bytes rest fuel v' rest', writeObject v = some bytes
    → readNested malformed fuel (bytes ++ rest) = some (v', rest') → contents v' = contents v
    → (Plain v ∧ rest' = rest) ∨ BeginsInside rest'

theorem plain_of_readElems (h : ∀ e ∈ elems, Leaves malformed e) (hwrite : writeElems elems = some bytes)
    (hread : readElems (readNested malformed fuel) elems.length (bytes ++ rest) = some (elems', rest'))
    (hcontents : contentsElems elems' = contentsElems elems)
    : ((∀ e ∈ elems, Plain e) ∧ rest' = rest) ∨ BeginsInside rest' := by
  induction elems generalizing bytes elems' with
  | nil =>
    obtain rfl := Option.some.inj hwrite
    obtain ⟨-, rfl⟩ := Prod.mk.inj (Option.some.inj hread)
    exact .inl ⟨nofun, rfl⟩
  | cons e es ih =>
    simp only [writeElems, Option.bind_eq_bind, Option.bind_eq_some_iff] at hwrite
    obtain ⟨bytes₁, hwrite₁, bytes₂, hwrite₂, heq⟩ := hwrite
    obtain rfl := Option.some.inj heq
    rw [List.append_assoc, List.length_cons] at hread
    simp only [readElems, Option.bind_eq_bind, Option.bind_eq_some_iff] at hread
    obtain ⟨⟨v, rest₁⟩, hread₁, ⟨vs, rest₂⟩, hread₂, heq⟩ := hread
    obtain ⟨rfl, rfl⟩ := Prod.mk.inj (Option.some.inj heq)
    rw [contentsElems, contentsElems] at hcontents
    obtain ⟨hcontents₁, hcontents₂⟩ := List.cons.inj hcontents
    have hes : ∀ e' ∈ es, Leaves malformed e' := fun e' he' => h e' (List.mem_cons_of_mem _ he')
    rcases h e List.mem_cons_self _ _ _ _ _ hwrite₁ hread₁ hcontents₁ with ⟨hplain, rfl⟩ | hinside
    . rcases ih hes hwrite₂ hread₂ hcontents₂ with ⟨hall, rfl⟩ | hinside
      . exact .inl ⟨List.forall_mem_cons.mpr ⟨hplain, hall⟩, rfl⟩
      . exact .inr hinside
    . cases es with
      | nil =>
        obtain ⟨-, rfl⟩ := Prod.mk.inj (Option.some.inj hread₂)
        exact .inr hinside
      | cons e' es =>
        rw [List.length_cons, readElems, readNested_of_beginsInside hinside] at hread₂
        contradiction

theorem Leaves.of_cons {b : UInt8} (hwrite : writeObject v = some (b :: bytes))
    (hleaves : ∀ rest fuel v' rest', readNested malformed (fuel + 1) (b :: (bytes ++ rest)) = some (v', rest')
      → contents v' = contents v → (Plain v ∧ rest' = rest) ∨ BeginsInside rest')
    : Leaves malformed v := by
  intro bytes' rest fuel v' rest' hwrite' hread hcontents
  rw [hwrite] at hwrite'
  obtain rfl := Option.some.inj hwrite'
  cases fuel with
  | zero => contradiction
  | succ fuel => exact hleaves rest fuel v' rest' hread hcontents

theorem Leaves.of_plain {b : UInt8} (hwrite : writeObject v = some (b :: bytes)) (P : Plain v)
    (hread : ∀ rest fuel, readNested malformed (fuel + 1) (b :: (bytes ++ rest)) = some (v, rest))
    : Leaves malformed v := by
  refine .of_cons hwrite fun rest fuel v' rest' hread' _ => ?_
  rw [hread] at hread'
  obtain ⟨-, rfl⟩ := Prod.mk.inj (Option.some.inj hread')
  exact .inl ⟨P, rfl⟩

theorem Leaves.of_callback (hwrite : writeObject v = some [writeByte .callback])
    (hne : contents v ≠ .callback) : Leaves malformed v := by
  refine .of_cons hwrite fun rest fuel v' rest' hread hcontents => ?_
  simp only [readNested, readByte_writeByte, Option.bind_eq_bind, Option.bind_some, getByValue_getValue] at hread
  obtain ⟨rfl, -⟩ := Prod.mk.inj (Option.some.inj hread)
  exact absurd hcontents.symm hne

theorem Supported.leaves (S : Supported malformed v) : Leaves malformed v := by
  induction S with
  | null => exact .of_plain rfl .null fun rest fuel => by simp [readNested]
  | int n => exact .of_plain rfl (.int n) fun rest fuel => by simp [readNested]
  | short n => exact .of_plain rfl (.short n) fun rest fuel => by simp [readNested]
  | boolean b =>
    refine .of_plain rfl (.boolean b) fun rest fuel => ?_
    cases b <;> rfl
  | string s hlength =>
    refine .of_cons rfl fun rest fuel v' rest' hread hcontents => ?_
    simp only [readNested, readByte_writeByte, Option.bind_eq_bind, Option.bind_some, getByValue_getValue,
      readUtf8_writeUtf8 hlength, Option.map_some] at hread
    obtain ⟨rfl, rfl⟩ := Prod.mk.inj (Option.some.inj hread)
    rcases isAscii_of_ofBytes_take (RmiValue.string.inj hcontents) with hascii | ⟨b, tail, hdrop, hb⟩
    . rw [← length_getBytes hascii, List.drop_length, List.nil_append]
      exact .inl ⟨.string s hascii, rfl⟩
    . exact .inr ⟨b, tail ++ rest, by rw [hdrop, List.cons_append], hb⟩
  | list className elems hlength hsupported ih =>
    cases htype : objectType className with
    | callback =>
      have hwrite : writeObject (.list className elems) = some [writeByte .callback] := by
        rw [writeObject, htype]
      exact .of_callback hwrite (by simp [contents])
    | list =>
      obtain rfl := objectType_eq_list htype
      intro bytes rest fuel v' rest' hwrite hread hcontents
      rw [writeObject, htype] at hwrite
      obtain ⟨bytes, helems, rfl⟩ := Option.map_eq_some_iff.mp hwrite
      cases fuel with
      | zero => contradiction
      | succ fuel =>
        simp only [List.cons_append, readNested, readByte_writeByte, Option.bind_eq_bind, Option.bind_some,
          getByValue_getValue, readList, List.append_assoc, readShort_writeShort,
          toInt_ofInt_length hlength, Int.toNat_natCast, Option.map_eq_some_iff] at hread
        obtain ⟨⟨elems', rest₁⟩, hread, heq⟩ := hread
        obtain ⟨rfl, rfl⟩ := Prod.mk.inj heq
        rw [contents, contents] at hcontents
        obtain ⟨-, hcontents⟩ := RmiValue.list.inj hcontents
        rcases plain_of_readElems ih helems hread hcontents with ⟨hplain, rfl⟩ | hinside
        . exact .inl ⟨.list elems hplain, rfl⟩
        . exact .inr hinside
    | _ =>
      intro bytes rest fuel v' rest' hwrite
      rw [writeObject, htype] at hwrite
      contradiction
  | data d hdata =>
    cases htype : objectType (IData.getSimpleName d) with
    | callback =>
      have hwrite : writeObject (.data d) = some [writeByte .callback] := by
        rw [writeObject, htype]
      exact .of_callback hwrite (by simp [contents])
    | object =>
      obtain ⟨bytes, hwrite, hread⟩ := hdata
      have hwrite' : writeObject (.data d) = some (writeByte .object :: bytes) := by
        rw [writeObject, htype, hwrite]
        rfl
      exact .of_plain hwrite' (.data d htype) fun rest fuel => by simp [readNested, hread]
    | _ =>
      intro bytes rest fuel v' rest' hwrite
      rw [writeObject, htype] at hwrite
      contradiction

theorem not_beginsInside_nil : ¬ BeginsInside [] := by
  rintro ⟨b, tail, h, -⟩
  contradiction

/-- The values that are read as they were written, whatever a malformed string is read as. -/
theorem roundTrips_iff (S : Supported malformed v) : RoundTrips malformed v ↔ Plain v := by
  constructor
  . rintro ⟨bytes, hwrite, hread⟩
    obtain ⟨v', hv', hcontents⟩ := hread []
    rcases S.leaves bytes [] _ v' [] hwrite hv' hcontents with ⟨hplain, -⟩ | hinside
    . exact hplain
    . exact absurd hinside not_beginsInside_nil
  . intro P
    exact (P.reads S).roundTrips

end DataUtil

namespace BaseData

open Rmi.DataUtil

variable {D E : Type} [IData D] [IData E] {malformed : List UInt8 → JavaString}
  {types : List (RmiValue E → Bool)} {fields : List (RmiValue E)} {className : JavaString} {d : D}

def Accepts (types : List (RmiValue E → Bool)) (fields : List (RmiValue E)) : Prop :=
  List.Forall₂ (fun accepts v => ∀ v', contents v' = contents v → accepts v' = true) types fields

theorem read_write (haccepts : Accepts types fields) (hfields : ∀ v ∈ fields, RoundTrips malformed v)
    : ∃ bytes, writeElems fields = some bytes
      ∧ ∀ rest, ∃ fields', read malformed types (bytes ++ rest) = some (fields', rest)
        ∧ contentsElems fields' = contentsElems fields := by
  induction haccepts with
  | nil => exact ⟨[], rfl, fun rest => ⟨[], rfl, rfl⟩⟩
  | @cons accepts v types fields hv _ ih =>
    obtain ⟨bytes, hwrite, hread⟩ := hfields v List.mem_cons_self
    obtain ⟨bytes', hwrite', hread'⟩ := ih fun v' hv' => hfields v' (List.mem_cons_of_mem _ hv')
    refine ⟨bytes ++ bytes', by simp [writeElems, hwrite, hwrite'], fun rest => ?_⟩
    obtain ⟨v', hv', hcontents⟩ := hread (bytes' ++ rest)
    obtain ⟨fields', hfields', hcontents'⟩ := hread' rest
    refine ⟨v' :: fields', ?_, ?_⟩
    . rw [List.append_assoc, read, hv']
      simp [hv v' hcontents, hfields']
    . rw [contentsElems, contentsElems, hcontents, hcontents']

structure IsBaseData (malformed : List UInt8 → JavaString) (d : D) (className : JavaString)
    (types : List (RmiValue E → Bool)) (fields : List (RmiValue E)) : Prop where
  write : IData.write d = BaseData.write className fields
  read : ∀ buffer fields' rest, BaseData.read malformed types buffer = some (fields', rest)
    → contentsElems fields' = contentsElems fields → IData.read malformed className buffer = some (d, rest)

theorem IsBaseData.dataRoundTrips (B : IsBaseData malformed d className types fields)
    (hname : IsAscii className) (hlength : (getBytes className).length ≤ 32767)
    (haccepts : Accepts types fields) (hfields : ∀ v ∈ fields, RoundTrips malformed v)
    : DataRoundTrips malformed d := by
  obtain ⟨bytes, hwrite, hread⟩ := read_write haccepts hfields
  refine ⟨writeUtf8 className ++ bytes, by rw [B.write, BaseData.write, hwrite]; rfl, fun rest => ?_⟩
  obtain ⟨fields', hfields', hcontents⟩ := hread rest
  simp only [readData, List.append_assoc, readUtf8_writeUtf8 hlength, ← length_getBytes hname,
    List.take_length, List.drop_length, ofBytes_getBytes hname, List.nil_append, Option.bind_eq_bind,
    Option.bind_some]
  exact B.read _ _ _ hfields' hcontents

end BaseData

structure TestData where
  a : Int32
  b : Option JavaString

namespace TestData

open Rmi.DataUtil

instance : IData Empty where
  getSimpleName := nofun
  write := nofun
  read _ _ _ := none
  length_read := nofun

def className : JavaString := utf16Encode "data.TestData".toList

def fields (data : TestData) : List (RmiValue Empty) := [.int data.a, data.b.elim .null .string]

def types : List (RmiValue Empty → Bool) :=
  [fun | .int _ => true | _ => false, fun | .null => true | .string _ => true | _ => false]

def ofFields : List (RmiValue Empty) → Option TestData
  | [.int a, .null] => some ⟨a, none⟩
  | [.int a, .string b] => some ⟨a, some b⟩
  | _ => none

instance : IData TestData where
  getSimpleName _ := "TestData"
  write data := BaseData.write className data.fields
  read malformed dataName buffer :=
    if dataName = className then
      (BaseData.read malformed types buffer).bind fun p => (ofFields p.1).map fun data => (data, p.2)
    else
      none
  length_read := by
    intro malformed dataName buffer data rest h
    split at h
    . obtain ⟨⟨vs, rest'⟩, hread, h⟩ := Option.bind_eq_some_iff.mp h
      obtain ⟨data', -, heq⟩ := Option.map_eq_some_iff.mp h
      obtain ⟨-, rfl⟩ := Prod.mk.inj heq
      exact BaseData.length_read hread
    . contradiction

variable {malformed : List UInt8 → JavaString} {data : TestData}

theorem isBaseData : BaseData.IsBaseData malformed data className types data.fields where
  write := rfl
  read := by
    intro buffer fields' rest hread hcontents
    have hfields : ofFields fields' = some data := by
      obtain ⟨a, b⟩ := data
      rcases fields' with _ | ⟨v, _ | ⟨w, _ | ⟨x, vs⟩⟩⟩
      all_goals simp [fields, contentsElems] at hcontents
      obtain ⟨hv, hw⟩ := hcontents
      cases v <;> simp [contents] at hv
      cases b <;> cases w <;> simp [contents] at hw
      all_goals simp [ofFields, hv, hw]
    show (if className = className then _ else none) = _
    rw [if_pos rfl, hread]
    simp [hfields]

theorem accepts : BaseData.Accepts types data.fields := by
  refine .cons (fun v hv => ?_) (.cons (fun v hv => ?_) .nil)
  . cases v <;> simp [contents] at hv
    rfl
  . obtain ⟨a, b⟩ := data
    cases b <;> cases v <;> simp [contents] at hv
    all_goals rfl

theorem dataRoundTrips (hb : ∀ b, data.b = some b → IsAscii b ∧ (getBytes b).length ≤ 32767)
    : DataRoundTrips malformed data := by
  refine isBaseData.dataRoundTrips (by decide) (by decide) accepts ?_
  intro v hv
  obtain ⟨a, b⟩ := data
  simp only [fields, List.mem_cons, List.not_mem_nil, or_false] at hv
  rcases hv with rfl | rfl
  . exact ((Plain.int a).reads (.int a)).roundTrips
  . cases b with
    | none => exact (Plain.null.reads .null).roundTrips
    | some b =>
      obtain ⟨hascii, hlength⟩ := hb b rfl
      exact ((Plain.string b hascii).reads (.string b hlength)).roundTrips

end TestData

namespace DataUtil

def mixed : RmiValue TestData :=
  .list "List" [.int 7, .string [0x61, 0x62], .data ⟨3, some [0x78]⟩, .null]

theorem supported_mixed {malformed : List UInt8 → JavaString} : Supported malformed mixed := by
  refine .list _ _ (by decide) ?_
  simp only [List.forall_mem_cons]
  refine ⟨.int 7, .string _ (by decide), .data _ (TestData.dataRoundTrips ?_), .null, nofun⟩
  rintro b ⟨⟩
  decide

theorem roundTrips_iff_mixed : RoundTrips (fun _ => []) mixed := by
  refine (roundTrips_iff supported_mixed).mpr (.list _ ?_)
  simp only [List.forall_mem_cons]
  exact ⟨.int 7, .string _ (by decide), .data _ (by decide), .null, nofun⟩

theorem roundTrips_counterexample
    : (Supported (D := TestData) (fun _ => []) (.string [0xe9])
        ∧ ¬ RoundTrips (D := TestData) (fun _ => []) (.string [0xe9]))
      ∧ Supported (D := TestData) (fun _ => []) (.list "ArrayList" [.int 7])
        ∧ writeObject (D := TestData) (.list "ArrayList" [.int 7]) = none := by
  refine ⟨⟨.string _ (by decide), ?_⟩, .list _ _ (by decide) ?_, by decide⟩
  . rintro ⟨bytes, hwrite, hread⟩
    obtain rfl : [4, 0, 1, 0xc3, 0xa9] = bytes := Option.some.inj hwrite
    obtain ⟨v, hv, -⟩ := hread []
    have hrest := congrArg (Option.map Prod.snd) hv
    have hleft : (readObject (D := TestData) (fun _ => []) ([4, 0, 1, 0xc3, 0xa9] ++ [])).map Prod.snd
        = some [0xa9] := rfl
    rw [hleft] at hrest
    simp at hrest
  . simpa using Supported.int 7

end DataUtil

end Rmi

end WzGame
