import WzGame.Proto.Messages
import WzGame.Protobuf.MessageMeaning

/-!
This module contains what the messages of the game mean, and that a message which is merged into a new one comes out as
it is.
-/

namespace WzGame.Protobuf

open FieldCodec Wire

variable {M N T K V : Type} {depth : Nat}

structure IsTag (tag : UInt32) (wireType : Nat) : Prop where
  wire : tag.toNat % 8 = wireType := by decide
  min : 8 ≤ tag.toNat := by decide
  raw : tag.toNat < 128 := by decide

namespace Field

@[simp]
theorem tags_singular [DecidableEq T] {codec : ValueCodec T} {get : M → T} {set : M → T → M}
    : (singular codec get set).tags = [codec.tag] := rfl

@[simp]
theorem tags_optional {tag : UInt32} {message : IMessage N} {new : N} {get : M → Option N} {set : M → Option N → M}
    : (optional tag message new get set).tags = [tag] := rfl

@[simp]
theorem tags_repeated {tags : List UInt32} {codec : FieldCodec T} {get : M → RepeatedField T}
    {set : M → RepeatedField T → M} : (repeated tags codec get set).tags = tags := rfl

@[simp]
theorem tags_map [DecidableEq K] [DecidableEq V] {codec : MapField.Codec K V} {get : M → MapField K V}
    {set : M → MapField K V → M} : (map codec get set).tags = [codec.mapTag] := rfl

end Field

namespace FieldCodec

@[simp]
theorem tag_forInt32 {tag : UInt32} : (forInt32 tag).tag = tag := rfl

@[simp]
theorem tag_forInt64 {tag : UInt32} : (forInt64 tag).tag = tag := rfl

@[simp]
theorem tag_forString {malformed : Malformed} {tag : UInt32} : (forString malformed tag).tag = tag := rfl

end FieldCodec

namespace Field.Meaning

def int32 {tag : UInt32} {get : M → Int32} {set : M → Int32 → M} (htag : IsTag tag 0) (lens : Lens get set)
    : (singular (forInt32 tag) get set).Meaning depth :=
  .along lens (valueMeaning (int32Meaning tag depth) htag.wire htag.min htag.raw)

def int64 {tag : UInt32} {get : M → Int64} {set : M → Int64 → M} (htag : IsTag tag 0) (lens : Lens get set)
    : (singular (forInt64 tag) get set).Meaning depth :=
  .along lens (valueMeaning (int64Meaning tag depth) htag.wire htag.min htag.raw)

def string {malformed : Malformed} {tag : UInt32} {get : M → String} {set : M → String → M}
    (htag : IsTag tag 2) (lens : Lens get set) : (singular (forString malformed tag) get set).Meaning depth :=
  .along lens (valueMeaning (stringMeaning malformed tag depth) htag.wire htag.min htag.raw)

def int32s {tag tag' : UInt32} {get : M → RepeatedField Int32} {set : M → RepeatedField Int32 → M}
    (htag : IsTag tag 2) (lens : Lens get set)
    : (repeated [tag, tag'] (forInt32 tag).toFieldCodec get set).Meaning depth :=
  .along lens (packedMeaning (int32Meaning tag depth) rfl htag.wire htag.min List.mem_cons_self)

def int64s {tag tag' : UInt32} {get : M → RepeatedField Int64} {set : M → RepeatedField Int64 → M}
    (htag : IsTag tag 2) (lens : Lens get set)
    : (repeated [tag, tag'] (forInt64 tag).toFieldCodec get set).Meaning depth :=
  .along lens (packedMeaning (int64Meaning tag depth) rfl htag.wire htag.min List.mem_cons_self)

def strings {malformed : Malformed} {tag : UInt32} {get : M → RepeatedField String}
    {set : M → RepeatedField String → M} (htag : IsTag tag 2) (lens : Lens get set)
    : (repeated [tag] (forString malformed tag).toFieldCodec get set).Meaning depth :=
  .along lens (taggedMeaning (stringMeaning malformed tag depth) rfl htag.wire htag.min List.mem_cons_self)

def messages {fields : Fields N} {new : N} {tag : UInt32} {get : M → RepeatedField N}
    {set : M → RepeatedField N → M} (meanings : Meanings depth fields) (hnew : ∀ n, meanings.copy n new = n)
    (htag : IsTag tag 2) (lens : Lens get set)
    : (repeated [tag] (forMessage tag (message fields) new) get set).Meaning (depth + 1) :=
  .along lens (taggedMeaning (messageMeaning meanings.message hnew tag) rfl htag.wire htag.min List.mem_cons_self)

def optional {fields : Fields N} {new : N} {tag : UInt32} {get : M → Option N} {set : M → Option N → M}
    (meanings : Meanings depth fields) (htag : IsTag tag 2) (lens : Lens get set)
    : (Field.optional tag (message fields) new get set).Meaning (depth + 1) :=
  .along lens (nullableMeaning meanings.message htag.wire htag.min htag.raw)

end Field.Meaning

namespace MapField

variable [DecidableEq K] [DecidableEq V]

def int32Meaning {tag : UInt32} (htag : IsTag tag 0) : (Codec.field (forInt32 tag)).Meaning depth :=
  Field.entryMeaning (FieldCodec.int32Meaning tag depth) htag.wire htag.min

def int64Meaning {tag : UInt32} (htag : IsTag tag 0) : (Codec.field (forInt64 tag)).Meaning depth :=
  Field.entryMeaning (FieldCodec.int64Meaning tag depth) htag.wire htag.min

def meanings {codec : Codec K V} (key : (Codec.field codec.keyCodec).Meaning depth)
    (value : (Codec.field codec.valueCodec).Meaning depth) (hne : codec.keyCodec.tag ≠ codec.valueCodec.tag)
    : Meanings depth codec.fields :=
  .cons (.along {} key) (.cons (.along {} value) .nil (by simp)) (by simpa [Codec.field, Field.along] using hne)

def int32Meanings (tag : UInt32) (depth : Nat) : Meanings depth (Codec.fields ⟨forInt32 8, forInt32 16, tag⟩) :=
  meanings (int32Meaning {}) (int32Meaning {}) (by simp)

def int64Meanings (tag : UInt32) (depth : Nat) : Meanings depth (Codec.fields ⟨forInt32 8, forInt64 16, tag⟩) :=
  meanings (int32Meaning {}) (int64Meaning {}) (by simp)

end MapField

@[simp]
theorem default_or_self [DecidableEq T] {d v : T} : (if v = d then d else v) = v := by
  split
  case isTrue h => exact h.symm
  case isFalse => rfl

theorem self_or_default [DecidableEq T] {d v : T} : (if v ≠ d then v else d) = v :=
  (ite_not ..).trans default_or_self

namespace MapField

variable [DecidableEq K] {map : MapField K V}

theorem list_setAll {entries : List (K × V)}
    : (setAll entries map).list = entries.foldl (KeyedList.upsert Prod.fst) map.list := by
  induction entries generalizing map with
  | nil => rfl
  | cons entry entries ih => exact ih

@[simp]
theorem setAll_empty : setAll map.list empty = map :=
  MapField.ext (list_setAll.trans (KeyedList.foldl_upsert_of_nodup map.nodup))

theorem containsKey_iff {key : K} : map.containsKey key ↔ key ∈ map.list.map Prod.fst := by
  simp only [containsKey, List.any_eq_true, decide_eq_true_eq, List.mem_map]

theorem containsKey_set {key k : K} {value : V}
    : (map.set k value).containsKey key ↔ map.containsKey key ∨ key = k := by
  rw [containsKey_iff, containsKey_iff]
  exact KeyedList.mem_map_upsert

theorem add_eq {entries : MapField K V}
    : map.add entries
        = if ∃ entry ∈ entries.list, map.containsKey entry.1 then
            .error .keyExists
          else
            .ok (setAll entries.list map) := by
  obtain ⟨entries, hnodup⟩ := entries
  simp only [add]
  induction entries generalizing map with
  | nil => simp [setAll, pure, Except.pure]
  | cons entry entries ih =>
    rw [List.map_cons, List.nodup_cons] at hnodup
    rw [List.foldlM_cons]
    by_cases hkey : map.containsKey entry.1 = true
    . rw [if_pos hkey, if_pos ⟨entry, List.mem_cons_self, hkey⟩]
      rfl
    . rw [if_neg hkey, CodedInputStream.pure_eq, CodedInputStream.ok_bind, ih hnodup.2]
      have hsame : (∃ e ∈ entries, (map.set entry.1 entry.2).containsKey e.1)
          ↔ ∃ e ∈ entry :: entries, map.containsKey e.1 := by
        simp only [containsKey_set, List.mem_cons, exists_eq_or_imp, hkey, false_or, Bool.false_eq_true]
        refine exists_congr fun e => and_congr_right fun he => or_iff_left ?_
        exact fun heq => hnodup.1 (heq ▸ List.mem_map_of_mem he)
      simp only [hsame]
      rfl

end MapField

namespace Field.Meaning

def int32Entries {tag : UInt32} {get : M → MapField Int32 Int32} {set : M → MapField Int32 Int32 → M}
    (htag : IsTag tag 2) (lens : Lens get set)
    : (map ⟨forInt32 8, forInt32 16, tag⟩ get set).Meaning (depth + 1) :=
  .along lens (entriesMeaning (MapField.int32Meanings tag depth).message
    (fun _ => Prod.ext self_or_default self_or_default) htag.wire htag.min)

def int64Entries {tag : UInt32} {get : M → MapField Int32 Int64} {set : M → MapField Int32 Int64 → M}
    (htag : IsTag tag 2) (lens : Lens get set)
    : (map ⟨forInt32 8, forInt64 16, tag⟩ get set).Meaning (depth + 1) :=
  .along lens (entriesMeaning (MapField.int64Meanings tag depth).message
    (fun _ => Prod.ext self_or_default self_or_default) htag.wire htag.min)

section

variable {tag tag' : UInt32} {m acc : M}

@[simp]
theorem copy_int32 {get : M → Int32} {set : M → Int32 → M} {htag : IsTag tag 0} {lens : Lens get set}
    : (int32 htag lens : Meaning _ depth).copy m acc = set acc (if get m ≠ 0 then get m else get acc) := rfl

@[simp]
theorem copy_int64 {get : M → Int64} {set : M → Int64 → M} {htag : IsTag tag 0} {lens : Lens get set}
    : (int64 htag lens : Meaning _ depth).copy m acc = set acc (if get m ≠ 0 then get m else get acc) := rfl

@[simp]
theorem copy_string {malformed : Malformed} {get : M → String} {set : M → String → M} {htag : IsTag tag 2}
    {lens : Lens get set}
    : (string htag lens : (singular (forString malformed tag) get set).Meaning depth).copy m acc
        = set acc (if get m ≠ "" then get m else get acc) := rfl

@[simp]
theorem copy_int32s {get : M → RepeatedField Int32} {set : M → RepeatedField Int32 → M} {htag : IsTag tag 2}
    {lens : Lens get set}
    : (int32s htag lens : (repeated [tag, tag'] (forInt32 tag).toFieldCodec get set).Meaning depth).copy m acc
        = set acc (get acc ++ get m) := rfl

@[simp]
theorem copy_int64s {get : M → RepeatedField Int64} {set : M → RepeatedField Int64 → M} {htag : IsTag tag 2}
    {lens : Lens get set}
    : (int64s htag lens : (repeated [tag, tag'] (forInt64 tag).toFieldCodec get set).Meaning depth).copy m acc
        = set acc (get acc ++ get m) := rfl

@[simp]
theorem copy_strings {malformed : Malformed} {get : M → RepeatedField String} {set : M → RepeatedField String → M}
    {htag : IsTag tag 2} {lens : Lens get set}
    : (strings htag lens : (repeated [tag] (forString malformed tag).toFieldCodec get set).Meaning depth).copy m acc
        = set acc (get acc ++ get m) := rfl

@[simp]
theorem copy_messages {fields : Fields N} {new : N} {get : M → RepeatedField N} {set : M → RepeatedField N → M}
    {meanings : Meanings depth fields} {hnew : ∀ n, meanings.copy n new = n} {htag : IsTag tag 2}
    {lens : Lens get set}
    : (messages meanings hnew htag lens).copy m acc = set acc (get acc ++ get m) := rfl

@[simp]
theorem copy_optional {fields : Fields N} {new : N} {get : M → Option N} {set : M → Option N → M}
    {meanings : Meanings depth fields} {htag : IsTag tag 2} {lens : Lens get set}
    : (optional meanings htag lens : (Field.optional tag (message fields) new get set).Meaning (depth + 1)).copy m acc
        = set acc (match get m with
          | none => get acc
          | some n => some (meanings.copy n ((get acc).getD new))) := by
  refine congrArg (set acc) ?_
  cases get m with
  | none => rfl
  | some n => rfl

@[simp]
theorem copy_int32Entries {get : M → MapField Int32 Int32} {set : M → MapField Int32 Int32 → M}
    {htag : IsTag tag 2} {lens : Lens get set}
    : (int32Entries htag lens : Meaning _ (depth + 1)).copy m acc
        = set acc (MapField.setAll (get m).list (get acc)) := rfl

@[simp]
theorem copy_int64Entries {get : M → MapField Int32 Int64} {set : M → MapField Int32 Int64 → M}
    {htag : IsTag tag 2} {lens : Lens get set}
    : (int64Entries htag lens : Meaning _ (depth + 1)).copy m acc
        = set acc (MapField.setAll (get m).list (get acc)) := rfl

end

end Field.Meaning

end WzGame.Protobuf

namespace WzGame.Proto

open Protobuf FieldCodec Wire

variable (malformed : Malformed) (depth : Nat)

def PBStringList.meanings : Meanings depth (PBStringList.fields malformed) := .cons (.strings {} {}) .nil

def PBInt32.meanings : Meanings depth PBInt32.fields := .cons (.int32 {} {}) .nil

def PBInt64.meanings : Meanings depth PBInt64.fields := .cons (.int64 {} {}) .nil

def PBString.meanings : Meanings depth (PBString.fields malformed) := .cons (.string {} {}) .nil

def PBLoginReq.meanings : Meanings depth (PBLoginReq.fields malformed) :=
  .cons (.int32 {} {}) <| .cons (.string {} {}) <| .nil

def PBCreateRoleReq.meanings : Meanings depth (PBCreateRoleReq.fields malformed) :=
  .cons (.int32 {} {}) <| .cons (.string {} {}) <| .nil

def PBEquipEntity.meanings : Meanings (depth + 1) PBEquipEntity.fields :=
  .cons (.int64 {} {}) <| .cons (.int32 {} {}) <| .cons (.int32 {} {}) <| .cons (.int32Entries {} {}) <|
    .cons (.int32 {} {}) <| .cons (.int32 {} {}) <| .cons (.int32 {} {}) <| .cons (.int32 {} {}) <|
    .cons (.int32 {} {}) <| .cons (.int32 {} {}) <| .nil

def PBHeroEntity.meanings : Meanings (depth + 1) PBHeroEntity.fields :=
  .cons (.int64 {} {}) <| .cons (.int32 {} {}) <| .cons (.int32 {} {}) <| .cons (.int32 {} {}) <|
    .cons (.int32 {} {}) <| .cons (.int32s {} {}) <| .cons (.int32 {} {}) <| .cons (.int32 {} {}) <|
    .cons (.int32Entries {} {}) <| .nil

def PBOneFormation.meanings : Meanings depth PBOneFormation.fields :=
  .cons (.int64 {} {}) <| .cons (.int64s {} {}) <| .cons (.int64 {} {}) <| .cons (.int64 {} {}) <|
    .cons (.int64 {} {}) <| .nil

theorem PBStringList.copy_new (m : PBStringList)
    : (PBStringList.meanings malformed depth).copy m {} = m := by
  simp [PBStringList.meanings, Meanings.copy]

theorem PBInt32.copy_new (m : PBInt32) : (PBInt32.meanings depth).copy m {} = m := by
  simp [PBInt32.meanings, Meanings.copy]

theorem PBInt64.copy_new (m : PBInt64) : (PBInt64.meanings depth).copy m {} = m := by
  simp [PBInt64.meanings, Meanings.copy]

theorem PBString.copy_new (m : PBString)
    : (PBString.meanings malformed depth).copy m {} = m := by
  simp [PBString.meanings, Meanings.copy]

theorem PBLoginReq.copy_new (m : PBLoginReq)
    : (PBLoginReq.meanings malformed depth).copy m {} = m := by
  simp [PBLoginReq.meanings, Meanings.copy]

theorem PBCreateRoleReq.copy_new (m : PBCreateRoleReq)
    : (PBCreateRoleReq.meanings malformed depth).copy m {} = m := by
  simp [PBCreateRoleReq.meanings, Meanings.copy]

theorem PBEquipEntity.copy_new (m : PBEquipEntity) : (PBEquipEntity.meanings depth).copy m {} = m := by
  simp [PBEquipEntity.meanings, Meanings.copy]

theorem PBHeroEntity.copy_new (m : PBHeroEntity) : (PBHeroEntity.meanings depth).copy m {} = m := by
  simp [PBHeroEntity.meanings, Meanings.copy]

theorem PBOneFormation.copy_new (m : PBOneFormation) : (PBOneFormation.meanings depth).copy m {} = m := by
  simp [PBOneFormation.meanings, Meanings.copy]

def PBFormation.meanings : Meanings (depth + 1) PBFormation.fields :=
  .cons (.messages (PBOneFormation.meanings depth) (PBOneFormation.copy_new depth) {} {}) <|
    .cons (.int64s {} {}) <| .cons (.int64s {} {}) <| .nil

theorem PBFormation.copy_eq (m other : PBFormation)
    : (PBFormation.meanings depth).copy other m = m.mergeFrom other := by
  simp [PBFormation.meanings, Meanings.copy, PBFormation.mergeFrom]

theorem PBFormation.copy_new (m : PBFormation) : (PBFormation.meanings depth).copy m {} = m := by
  rw [PBFormation.copy_eq]
  rfl

def PBLoginSucc.meanings : Meanings (depth + 2) (PBLoginSucc.fields malformed) :=
  .cons (.int32 {} {}) <| .cons (.int64 {} {}) <| .cons (.string {} {}) <| .cons (.int32 {} {}) <|
    .cons (.int32 {} {}) <| .cons (.int64 {} {}) <| .cons (.int64Entries {} {}) <|
    .cons (.messages (PBHeroEntity.meanings depth) (PBHeroEntity.copy_new depth) {} {}) <|
    .cons (.messages (PBEquipEntity.meanings depth) (PBEquipEntity.copy_new depth) {} {}) <|
    .cons (.optional (PBFormation.meanings depth) {} {}) <| .nil

theorem PBLoginSucc.copy_new (m : PBLoginSucc)
    : (PBLoginSucc.meanings malformed depth).copy m {} = m := by
  rcases m with ⟨_, _, _, _, _, _, _, _, _, _ | formation⟩
  . simp [PBLoginSucc.meanings, Meanings.copy]
  . simp [PBLoginSucc.meanings, Meanings.copy, PBFormation.copy_new]

theorem PBLoginSucc.mergeFrom_eq (m other : PBLoginSucc)
    : m.mergeFrom other
        = if ∃ entry ∈ other.resMap.list, m.resMap.containsKey entry.1 then
            .error .keyExists
          else
            .ok ((PBLoginSucc.meanings malformed depth).copy other m) := by
  have hname : other.name.length = 0 ↔ other.name = "" := String.length_eq_zero_iff
  rw [mergeFrom, MapField.add_eq]
  split
  . rfl
  . rcases hformation : other.formation with _ | formation
    . simp [PBLoginSucc.meanings, Meanings.copy, CodedInputStream.ok_bind, CodedInputStream.pure_eq, hformation, hname]
    . simp [PBLoginSucc.meanings, Meanings.copy, CodedInputStream.ok_bind, CodedInputStream.pure_eq, hformation, hname,
        PBFormation.copy_eq]

theorem PBLoginSucc.mem_resMap_copy {m other : PBLoginSucc} {entry : Int32 × Int64}
    : entry ∈ ((PBLoginSucc.meanings malformed depth).copy other m).resMap.list
        ↔ entry ∈ other.resMap.list ∨ entry ∈ m.resMap.list ∧ ¬ other.resMap.containsKey entry.1 := by
  have hmap : ((PBLoginSucc.meanings malformed depth).copy other m).resMap
      = MapField.setAll other.resMap.list m.resMap := by
    simp [PBLoginSucc.meanings, Meanings.copy]
  rw [hmap, MapField.list_setAll, KeyedList.mem_foldl_upsert other.resMap.nodup, or_comm]
  simp [MapField.containsKey]

theorem PBLoginSucc.copy_empty_resMap {m other : PBLoginSucc}
    : (PBLoginSucc.meanings malformed depth).copy { other with resMap := .empty } { m with resMap := .empty }
        = { (PBLoginSucc.meanings malformed depth).copy other m with resMap := .empty } := by
  simp [PBLoginSucc.meanings, Meanings.copy]

end WzGame.Proto
