import WzGame.Proto.Messages
import WzGame.Protobuf.AnyMessages

/-!
This module contains that the parsers of the messages of the game come to an end on any bytes.
-/

namespace WzGame.Protobuf.Field

open FieldCodec

variable {M N K V : Type} {malformed : Malformed} {tag : UInt32} {tags : List UInt32}

@[simp]
theorem int32_robust {get : M → Int32} {set : M → Int32 → M} : (singular (forInt32 tag) get set).Robust :=
  along_robust (value_robust forInt32_robust)

@[simp]
theorem int64_robust {get : M → Int64} {set : M → Int64 → M} : (singular (forInt64 tag) get set).Robust :=
  along_robust (value_robust forInt64_robust)

@[simp]
theorem string_robust {get : M → String} {set : M → String → M} : (singular (forString malformed tag) get set).Robust :=
  along_robust (value_robust forString_robust)

@[simp]
theorem int32s_robust {get : M → RepeatedField Int32} {set : M → RepeatedField Int32 → M}
    : (repeated tags (forInt32 tag).toFieldCodec get set).Robust :=
  along_robust (values_robust forInt32_robust)

@[simp]
theorem int64s_robust {get : M → RepeatedField Int64} {set : M → RepeatedField Int64 → M}
    : (repeated tags (forInt64 tag).toFieldCodec get set).Robust :=
  along_robust (values_robust forInt64_robust)

@[simp]
theorem strings_robust {get : M → RepeatedField String} {set : M → RepeatedField String → M}
    : (repeated tags (forString malformed tag).toFieldCodec get set).Robust :=
  along_robust (values_robust forString_robust)

theorem messages_robust {message : IMessage N} (hmessage : message.Robust) {new : N} {get : M → RepeatedField N}
    {set : M → RepeatedField N → M} : (repeated tags (forMessage tag message new) get set).Robust :=
  along_robust (values_robust (forMessage_robust hmessage))

theorem optional_robust {message : IMessage N} (hmessage : message.Robust) {new : N} {get : M → Option N}
    {set : M → Option N → M} : (optional tag message new get set).Robust :=
  along_robust (nullable_robust hmessage)

theorem map_robust [DecidableEq K] [DecidableEq V] {codec : MapField.Codec K V} {get : M → MapField K V}
    {set : M → MapField K V → M} (hkey : codec.keyCodec.toFieldCodec.Robust)
    (hvalue : codec.valueCodec.toFieldCodec.Robust) (htag : codec.mapTag ≠ 0) : (map codec get set).Robust := by
  have hfields : ∀ field ∈ codec.fields, field.Robust := by
    simp only [MapField.Codec.fields, List.mem_cons, List.not_mem_nil, or_false, forall_eq_or_imp, forall_eq]
    exact ⟨along_robust (entry_robust hkey), along_robust (entry_robust hvalue)⟩
  exact along_robust (entries_robust (message_robust hfields) htag)

end WzGame.Protobuf.Field

namespace WzGame.Proto

open Protobuf FieldCodec Field

variable (malformed : Malformed)

theorem PBEquipEntity.robust : (message PBEquipEntity.fields).Robust :=
  message_robust (by simp [PBEquipEntity.fields, map_robust, forInt32_robust])

theorem PBHeroEntity.robust : (message PBHeroEntity.fields).Robust :=
  message_robust (by simp [PBHeroEntity.fields, map_robust, forInt32_robust])

theorem PBOneFormation.robust : (message PBOneFormation.fields).Robust :=
  message_robust (by simp [PBOneFormation.fields])

theorem PBFormation.robust : (message PBFormation.fields).Robust :=
  message_robust (by simp [PBFormation.fields, messages_robust, PBOneFormation.robust])

theorem PBLoginSucc.robust : (message (PBLoginSucc.fields malformed)).Robust :=
  message_robust (by simp [PBLoginSucc.fields, map_robust, forInt32_robust, forInt64_robust, messages_robust,
    optional_robust, PBHeroEntity.robust, PBEquipEntity.robust, PBFormation.robust])

theorem PBStringList.robust : (message (PBStringList.fields malformed)).Robust :=
  message_robust (by simp [PBStringList.fields])

theorem PBInt32.robust : (message PBInt32.fields).Robust := message_robust (by simp [PBInt32.fields])

theorem PBInt64.robust : (message PBInt64.fields).Robust := message_robust (by simp [PBInt64.fields])

theorem PBString.robust : (message (PBString.fields malformed)).Robust := message_robust (by simp [PBString.fields])

theorem PBLoginReq.robust : (message (PBLoginReq.fields malformed)).Robust :=
  message_robust (by simp [PBLoginReq.fields])

theorem PBCreateRoleReq.robust : (message (PBCreateRoleReq.fields malformed)).Robust :=
  message_robust (by simp [PBCreateRoleReq.fields])

namespace Descriptor

theorem robust (p : Descriptor) : (p.message malformed).Robust := by
  cases p with
  | PBStringList => exact PBStringList.robust malformed
  | PBInt32 => exact PBInt32.robust
  | PBInt64 => exact PBInt64.robust
  | PBString => exact PBString.robust malformed
  | PBEquipEntity => exact PBEquipEntity.robust
  | PBHeroEntity => exact PBHeroEntity.robust
  | PBOneFormation => exact PBOneFormation.robust
  | PBFormation => exact PBFormation.robust
  | PBLoginReq => exact PBLoginReq.robust malformed
  | PBCreateRoleReq => exact PBCreateRoleReq.robust malformed
  | PBLoginSucc => exact PBLoginSucc.robust malformed

/-- From any bytes the parser makes a message, or throws one of the exceptions that invalid bytes cause. -/
theorem parseFrom_outcome (p : Descriptor) (data : List UInt8) (h : data.length < maxValue)
    : (∃ m, (p.message malformed).parseFrom p.new data = .ok m)
      ∨ ∃ e : Exception, e.Raised ∧ (p.message malformed).parseFrom p.new data = .error e := by
  have houtcome := (p.robust malformed).parseFrom p.new h
  rcases hparse : (p.message malformed).parseFrom p.new data with e | m
  . rw [hparse] at houtcome
    exact .inr ⟨e, houtcome, rfl⟩
  . exact .inl ⟨m, rfl⟩

theorem parseFrom_outcome_truncated
    : (∃ m, (PBHeroEntity.message fun _ => "").parseFrom PBHeroEntity.new [8, 150] = .ok m)
      ∨ ∃ e : Exception, e.Raised
        ∧ (PBHeroEntity.message fun _ => "").parseFrom PBHeroEntity.new [8, 150] = .error e :=
  parseFrom_outcome (fun _ => "") PBHeroEntity [8, 150] (by decide)

-- the length of an unknown field makes the position overflow, and the next byte is looked for in front of the array
example
    : (PBLoginSucc.message fun _ => "").parseFrom PBLoginSucc.new
        [82, 255, 255, 255, 255, 7, 122, 249, 255, 255, 255, 7]
        = .error .indexOutOfRange := rfl

end Descriptor

end WzGame.Proto
