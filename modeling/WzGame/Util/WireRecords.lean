import WzGame.Util.Bytes
import WzGame.Util.Varints
import Mathlib.Data.List.Flatten

/-!
This module contains messages as sequences of records, each of them a tag and a payload that has the length or the end
that its tag tells.
-/

namespace Wire

open Bytes

inductive Payload where
  | varint (v : UInt64)
  | fixed64 (v : UInt64)
  | bytes (bs : List UInt8) (h : bs.length < 2 ^ 31)
  | fixed32 (v : UInt32)

namespace Payload

def wireType : Payload → Nat
  | varint _ => 0
  | fixed64 _ => 1
  | bytes _ _ => 2
  | fixed32 _ => 5

def encode : Payload → List UInt8
  | varint v => Varint.write v.toNat
  | fixed64 v => littleEndian 8 v.toNat
  | bytes bs _ => Varint.write bs.length ++ bs
  | fixed32 v => littleEndian 4 v.toNat

theorem length_encode_pos (p : Payload) : 0 < p.encode.length := by
  cases p with
  | varint v => exact Varint.length_write_pos
  | fixed64 v => simp [encode]
  | bytes bs h =>
    rw [encode, List.length_append]
    exact Nat.add_pos_left Varint.length_write_pos _
  | fixed32 v => simp [encode]

theorem wireType_lt (p : Payload) : p.wireType < 8 := by
  cases p <;> simp [wireType]

end Payload

structure Record where
  field : Nat
  payload : Payload
  field_pos : 0 < field
  field_lt : field < 2 ^ 29

namespace Record

def tag (r : Record) : Nat := 8 * r.field + r.payload.wireType

def encode (r : Record) : List UInt8 := Varint.write r.tag ++ r.payload.encode

variable (r : Record)

theorem tag_lt : r.tag < 2 ^ 32 := by
  have hfield := r.field_lt
  have htype := r.payload.wireType_lt
  simp only [tag]
  omega

theorem le_tag : 8 ≤ r.tag := by
  have hfield := r.field_pos
  simp only [tag]
  omega

theorem tag_mod : r.tag % 8 = r.payload.wireType := by
  have htype := r.payload.wireType_lt
  simp only [tag]
  omega

theorem tag_inj {r r' : Record} : UInt32.ofNat r'.tag = .ofNat r.tag ↔ r'.tag = r.tag := by
  have hlt := r.tag_lt
  have hlt' := r'.tag_lt
  rw [← UInt32.toNat_inj, UInt32.toNat_ofNat', UInt32.toNat_ofNat', Nat.mod_eq_of_lt hlt, Nat.mod_eq_of_lt hlt']

theorem length_encode_pos : 0 < r.encode.length := by
  rw [encode, List.length_append]
  exact Nat.add_pos_left Varint.length_write_pos _

end Record

def Record.ofTag (tag : Nat) (payload : Payload) (hmin : 8 ≤ tag) (hlt : tag < 2 ^ 32) : Record :=
  ⟨tag / 8, payload, by omega, by omega⟩

theorem Record.tag_ofTag {tag : Nat} {payload : Payload} {hmin : 8 ≤ tag} {hlt : tag < 2 ^ 32}
    (h : tag % 8 = payload.wireType) : (ofTag tag payload hmin hlt).tag = tag := by
  show 8 * (tag / 8) + payload.wireType = tag
  omega

def encodes (rs : List Record) : List UInt8 := rs.flatMap Record.encode

variable {r : Record} {rs rs' : List Record}

@[simp]
theorem encodes_nil : encodes [] = [] := rfl

@[simp]
theorem encodes_cons : encodes (r :: rs) = Varint.write r.tag ++ (r.payload.encode ++ encodes rs) := by
  simp [encodes, Record.encode]

@[simp]
theorem encodes_append : encodes (rs ++ rs') = encodes rs ++ encodes rs' := List.flatMap_append

theorem length_le_length_encodes : rs.length ≤ (encodes rs).length := by
  induction rs with
  | nil => exact Nat.le_refl 0
  | cons r rs ih =>
    have hpos := r.length_encode_pos
    rw [encodes, List.flatMap_cons, List.length_append, List.length_cons]
    simp only [encodes] at ih
    omega

inductive Merged {M : Type} (merges : Record → M → M → Prop) : List Record → M → M → Prop where
  | nil {m : M} : Merged merges [] m m
  | cons {r : Record} {rs : List Record} {m m' m'' : M} (hr : merges r m m') (hrs : Merged merges rs m' m'')
    : Merged merges (r :: rs) m m''

namespace Merged

variable {M : Type} {merges : Record → M → M → Prop} {m m' m'' : M}

theorem append (h : Merged merges rs m m') (h' : Merged merges rs' m' m'') : Merged merges (rs ++ rs') m m'' := by
  induction h with
  | nil => exact h'
  | cons hr _ ih => exact .cons hr (ih h')

theorem single (h : merges r m m') : Merged merges [r] m m' := .cons h .nil

theorem of_append (h : Merged merges (rs ++ rs') m m'') : ∃ m', Merged merges rs m m' ∧ Merged merges rs' m' m'' := by
  induction rs generalizing m with
  | nil => exact ⟨m, .nil, h⟩
  | cons r rs ih =>
    cases h with
    | cons hr hrs =>
      obtain ⟨m', h₁, h₂⟩ := ih hrs
      exact ⟨m', .cons hr h₁, h₂⟩

theorem congr {merges' : Record → M → M → Prop} (h : Merged merges rs m m')
    (heq : ∀ r ∈ rs, ∀ m m', merges r m m' → merges' r m m') : Merged merges' rs m m' := by
  induction h with
  | nil => exact .nil
  | cons hr _ ih =>
    exact .cons (heq _ List.mem_cons_self _ _ hr) (ih fun r hr => heq r (List.mem_cons_of_mem _ hr))

end Merged

structure Lens {M A : Type} (get : M → A) (set : M → A → M) : Prop where
  get_set : ∀ m a, get (set m a) = a := by intros; rfl
  set_set : ∀ m a a', set (set m a) a' = set m a' := by intros; rfl
  set_get : ∀ m, set m (get m) = m := by intros; rfl

def along {M A : Type} (get : M → A) (set : M → A → M) (merges : Record → A → A → Prop) (r : Record) (m m' : M)
    : Prop :=
  ∃ a, merges r (get m) a ∧ m' = set m a

namespace Merged

variable {M A : Type} {get : M → A} {set : M → A → M} {merges : Record → A → A → Prop} {m m' : M} {a : A}

theorem of_along (lens : Lens get set) (h : Merged (along get set merges) rs m m')
    : Merged merges rs (get m) (get m') ∧ m' = set m (get m') := by
  induction h with
  | nil => exact ⟨.nil, (lens.set_get _).symm⟩
  | cons hr _ ih =>
    obtain ⟨a, ha, rfl⟩ := hr
    obtain ⟨hrs, heq⟩ := ih
    rw [lens.get_set] at hrs
    rw [lens.set_set] at heq
    exact ⟨.cons ha hrs, heq⟩

theorem along (lens : Lens get set) (h : Merged merges rs (get m) a)
    : Merged (Wire.along get set merges) rs m (set m a) := by
  generalize hb : get m = b at h
  induction h generalizing m with
  | nil =>
    rw [← hb, lens.set_get]
    exact .nil
  | @cons r rs b b' a hr _ ih =>
    have hnext := ih (lens.get_set m b')
    rw [lens.set_set] at hnext
    exact .cons ⟨b', hb ▸ hr, rfl⟩ hnext

end Merged

end Wire
