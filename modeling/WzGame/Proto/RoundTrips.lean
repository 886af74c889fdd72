import WzGame.Proto.MessageMeanings

/-!
This module contains that every message of the game is read as it was written, also between records that the reader does
not know and behind another message.
-/

namespace WzGame.Proto

open Protobuf Wire

namespace Descriptor

variable (malformed : Malformed)

def meanings : (p : Descriptor) → Meanings 2 (p.fields malformed)
  | PBStringList => Proto.PBStringList.meanings malformed 2
  | PBInt32 => Proto.PBInt32.meanings 2
  | PBInt64 => Proto.PBInt64.meanings 2
  | PBString => Proto.PBString.meanings malformed 2
  | PBEquipEntity => Proto.PBEquipEntity.meanings 1
  | PBHeroEntity => Proto.PBHeroEntity.meanings 1
  | PBOneFormation => Proto.PBOneFormation.meanings 2
  | PBFormation => Proto.PBFormation.meanings 1
  | PBLoginReq => Proto.PBLoginReq.meanings malformed 2
  | PBCreateRoleReq => Proto.PBCreateRoleReq.meanings malformed 2
  | PBLoginSucc => Proto.PBLoginSucc.meanings malformed 0

theorem copy_new (p : Descriptor) (m : p.Message) : (p.meanings malformed).copy m p.new = m := by
  cases p with
  | PBStringList => exact Proto.PBStringList.copy_new malformed 2 m
  | PBInt32 => exact Proto.PBInt32.copy_new 2 m
  | PBInt64 => exact Proto.PBInt64.copy_new 2 m
  | PBString => exact Proto.PBString.copy_new malformed 2 m
  | PBEquipEntity => exact Proto.PBEquipEntity.copy_new 1 m
  | PBHeroEntity => exact Proto.PBHeroEntity.copy_new 1 m
  | PBOneFormation => exact Proto.PBOneFormation.copy_new 2 m
  | PBFormation => exact Proto.PBFormation.copy_new 1 m
  | PBLoginReq => exact Proto.PBLoginReq.copy_new malformed 2 m
  | PBCreateRoleReq => exact Proto.PBCreateRoleReq.copy_new malformed 2 m
  | PBLoginSucc => exact Proto.PBLoginSucc.copy_new malformed 0 m

variable {malformed}

theorem toByteArray_eq (p : Descriptor) {m : p.Message} (hsize : (p.message malformed).calculateSize m < maxValue)
    : ∃ rs, (p.message malformed).toByteArray m = .ok (encodes rs)
        ∧ rs.filter (Meanings.Known (p.fields malformed)) = rs
        ∧ (p.message malformed).calculateSize m = (encodes rs).length
        ∧ ∀ acc, Merged (p.meanings malformed).merges rs acc ((p.meanings malformed).copy m acc) := by
  have hlt : (Field.message (p.fields malformed)).calculateSize m < 2 ^ 31 :=
    Nat.lt_trans (Int.ofNat_lt.mp hsize) (by decide)
  obtain ⟨rs, hwrite, hknown, hlength, hmerged⟩ := (p.meanings malformed).toByteArray_eq hlt
  exact ⟨rs, hwrite, List.filter_eq_self.mpr (by simpa using hknown), hlength, hmerged⟩

/-- Records that the reader does not know change nothing, wherever they stand between those of the message. -/
theorem parseFrom_of_filter (p : Descriptor) (m : p.Message)
    (hsize : (p.message malformed).calculateSize m < maxValue)
    : ∃ rs, (p.message malformed).toByteArray m = .ok (encodes rs)
        ∧ rs.filter (Meanings.Known (p.fields malformed)) = rs
        ∧ ∀ rs' : List Record, rs'.filter (Meanings.Known (p.fields malformed)) = rs →
          (encodes rs').length < maxValue → (p.message malformed).parseFrom p.new (encodes rs') = .ok m := by
  obtain ⟨rs, hwrite, hknown, -, hmerged⟩ := p.toByteArray_eq hsize
  refine ⟨rs, hwrite, hknown, fun rs' hfilter hlength => ?_⟩
  have hm := hmerged p.new
  rw [p.copy_new, ← hfilter, Meanings.merged_filter] at hm
  exact (p.meanings malformed).mergeFromData_encodes (by decide) hlength hm

/-- A message that has been written fills its array, and is read again. -/
theorem parseFrom_toByteArray (p : Descriptor) (m : p.Message)
    (hsize : (p.message malformed).calculateSize m < maxValue)
    : ∃ data, (p.message malformed).toByteArray m = .ok data
        ∧ data.length = (p.message malformed).calculateSize m
        ∧ (p.message malformed).parseFrom p.new data = .ok m := by
  obtain ⟨rs, hwrite, -, hlength, hmerged⟩ := p.toByteArray_eq hsize
  have hm := hmerged p.new
  rw [p.copy_new] at hm
  rw [hlength] at hsize
  exact ⟨_, hwrite, hlength.symm, (p.meanings malformed).mergeFromData_encodes (by decide) hsize hm⟩

def awoken : Proto.PBHeroEntity := { heroId := 100001, confId := 5, level := -1, awakeInfo := [1, 300] }

def later : Record := ⟨12, .bytes [104, 105] (by decide), by decide, by decide⟩

theorem parseFrom_of_filter_PBHeroEntity
    : ∃ data, (PBHeroEntity.message fun _ => "").toByteArray awoken = .ok data
        ∧ (PBHeroEntity.message fun _ => "").parseFrom PBHeroEntity.new (later.encode ++ data ++ later.encode)
          = .ok awoken := by
  obtain ⟨rs, hwrite, hknown, hparse⟩ :=
    @parseFrom_of_filter (fun _ => "") PBHeroEntity awoken (by decide)
  have hlater : ¬ Meanings.Known (fields (fun _ => "") PBHeroEntity) later := by decide
  have hfilter : (later :: rs ++ [later]).filter (Meanings.Known (fields (fun _ => "") PBHeroEntity)) = rs := by
    simp [List.filter_append, hlater, hknown]
  have hlength : (encodes rs).length ≤ 100 := by
    obtain ⟨rs', hwrite', -, hsize, -⟩ := @toByteArray_eq (fun _ => "") PBHeroEntity awoken (by decide)
    rw [Except.ok.inj (hwrite.symm.trans hwrite'), ← hsize]
    decide
  refine ⟨encodes rs, hwrite, ?_⟩
  have hencodes : encodes (later :: rs ++ [later]) = later.encode ++ encodes rs ++ later.encode := by
    simp [Record.encode]
  rw [← hencodes]
  refine hparse _ hfilter ?_
  have hlater' : later.encode.length = 4 := by
    simp [later, Record.encode, Record.tag, Payload.encode, Payload.wireType, Varint.write]
  rw [hencodes, List.length_append, List.length_append, hlater', maxValue]
  omega

theorem parseFrom_toByteArray_PBHeroEntity
    : ∃ data, (PBHeroEntity.message fun _ => "").toByteArray awoken = .ok data
        ∧ data.length = (PBHeroEntity.message fun _ => "").calculateSize awoken
        ∧ (PBHeroEntity.message fun _ => "").parseFrom PBHeroEntity.new data = .ok awoken :=
  parseFrom_toByteArray PBHeroEntity awoken (by decide)

end Descriptor

namespace PBLoginSucc

variable {malformed : Malformed}

/-- What is read from the bytes of two messages is what `MergeFrom` makes of them, which throws however when both set
the same key of the map. Then the value of the second message is read. -/
theorem parseFrom_append (m other : PBLoginSucc)
    (hsize : ((Descriptor.PBLoginSucc.message malformed).calculateSize m : Int)
      + (Descriptor.PBLoginSucc.message malformed).calculateSize other < maxValue)
    : ∃ data data' m', (Descriptor.PBLoginSucc.message malformed).toByteArray m = .ok data
        ∧ (Descriptor.PBLoginSucc.message malformed).toByteArray other = .ok data'
        ∧ (Descriptor.PBLoginSucc.message malformed).parseFrom {} (data ++ data') = .ok m'
        ∧ m.mergeFrom other
          = (if ∃ entry ∈ other.resMap.list, m.resMap.containsKey entry.1 then .error .keyExists else .ok m')
        ∧ (∀ entry, entry ∈ m'.resMap.list
          ↔ entry ∈ other.resMap.list ∨ entry ∈ m.resMap.list ∧ ¬ other.resMap.containsKey entry.1)
        ∧ mergeFrom { m with resMap := .empty } { other with resMap := .empty }
          = .ok { m' with resMap := .empty } := by
  have hm₁ : ((Descriptor.PBLoginSucc.message malformed).calculateSize m : Int) < maxValue := by omega
  have hm₂ : ((Descriptor.PBLoginSucc.message malformed).calculateSize other : Int) < maxValue := by omega
  obtain ⟨rs, hwrite, -, hlength, hmerged⟩ := Descriptor.PBLoginSucc.toByteArray_eq hm₁
  obtain ⟨rs', hwrite', -, hlength', hmerged'⟩ := Descriptor.PBLoginSucc.toByteArray_eq hm₂
  have hm := (hmerged {}).append (hmerged' _)
  have hnew : (Descriptor.PBLoginSucc.meanings malformed).copy m {} = m := copy_new malformed 0 m
  rw [hnew] at hm
  refine ⟨_, _, (Descriptor.PBLoginSucc.meanings malformed).copy other m, hwrite, hwrite', ?_,
    mergeFrom_eq malformed 0 m other, fun _ => mem_resMap_copy malformed 0, ?_⟩
  . rw [hlength, hlength', ← Int.natCast_add, ← List.length_append, ← encodes_append] at hsize
    rw [← encodes_append]
    exact (Descriptor.PBLoginSucc.meanings malformed).mergeFromData_encodes (by decide) hsize hm
  . rw [mergeFrom_eq malformed 0, copy_empty_resMap]
    rfl

theorem parseFrom_append_resources
    : ∃ data data' m',
        (Descriptor.PBLoginSucc.message fun _ => "").toByteArray { resMap := .set .empty 1 20 } = .ok data
        ∧ (Descriptor.PBLoginSucc.message fun _ => "").toByteArray { resMap := .set .empty 1 30 } = .ok data'
        ∧ (Descriptor.PBLoginSucc.message fun _ => "").parseFrom {} (data ++ data') = .ok m'
        ∧ mergeFrom { resMap := .set .empty 1 20 } { resMap := .set .empty 1 30 } = .error .keyExists
        ∧ (1, 30) ∈ m'.resMap.list ∧ (1, 20) ∉ m'.resMap.list := by
  obtain ⟨data, data', m', hwrite, hwrite', hparse, hmerge, hmap, -⟩ :=
    @parseFrom_append (fun _ => "") { resMap := .set .empty 1 20 } { resMap := .set .empty 1 30 } (by decide)
  refine ⟨data, data', m', hwrite, hwrite', hparse, hmerge.trans (if_pos ⟨(1, 30), by decide, by decide⟩),
    (hmap _).mpr (by decide), ?_⟩
  rw [hmap]
  decide

end PBLoginSucc

end WzGame.Proto
